import Windz.Net.ConnectorSockets

/-!
# An event with an error and write interest

`HandleEvents` calls the handler of the error and then that of writing. The first calls
`Retry` and takes the handlers off the channel, so of the two `Retry` is called once.
-/

namespace Windz

open Lib

namespace ConnectorLoop

/-- The loop thread is inside the connector. -/
def Inside (l : ConnectorLoop) (a : Label) : Prop := l.Orderly a ∧ l.connector.stack ≠ []

/-- The loop thread comes out of the connector, and `Retry` has been called once on the way. -/
def OneRetry (l l₁ : ConnectorLoop) : Prop :=
  (∃ as l₂, Run machine Inside l₁ as l₂ ∧ l₂.connector.stack = [])
    ∧ ∀ as l₂, Run machine Inside l₁ as l₂ → l₂.connector.stack = [] →
      l₂.connector.retries = l.connector.retries + 1

/-- What is left of the two handlers. -/
def handling : Nat → List ConnectorFrame
  | 0 => []
  | 1 => [.handleWrite]
  | 2 => [.retryTest, .handleWrite]
  | _ => [.handleError, .handleWrite]

/-- `HandleError` is to come, or it has called `Retry`, the `n`th time, and closed the channel. -/
structure Handles (n k : Nat) (c : Connector) : Prop where
  stack : c.stack = handling k
  le : k ≤ 3
  handlers : c.handlersSet = decide (k = 3)
  retries : c.retries + (if k = 3 then 1 else 0) = n

/-- The loop thread has one way to go on. -/
theorem handles_run {l : ConnectorLoop} {n k : Nat} (h : Alone l)
    (hh : Handles n (k + 1) l.connector) :
    (∃ c out, l.connector.step .next = some (c, out) ∧ Handles n k c)
      ∧ ∀ a, a ≠ .next → l.connector.step a = none := by
  obtain ⟨hstack, hle, hhandlers, hretries⟩ := hh
  have hk : k = 0 ∨ k = 1 ∨ k = 2 := by omega
  rcases hk with rfl | rfl | rfl
  · have hset : l.connector.handlersSet = false := hhandlers
    refine ⟨⟨{ l.connector with stack := [] }, none, ?_, rfl, by omega, hset, hretries⟩, ?_⟩
    · simp [Connector.step, Connector.next, hstack, handling, hset]
    · intro a ha
      cases a with
      | next => exact absurd rfl ha
      | connect errno => simp [Connector.step, hstack, handling]
      | socket status => simp [Connector.step, hstack, handling, hset]
  · have hset : l.connector.handlersSet = false := hhandlers
    refine ⟨?_, fun a ha => ?_⟩
    · by_cases hstart : l.connector.start = true
      · refine ⟨{ l.connector with
          retryDuration := Connector.nextDuration l.connector.retryDuration
          stack := [.handleWrite] }, some (.runAfter l.connector.retryDuration), ?_, rfl, by omega,
          hset, hretries⟩
        simp [Connector.step, Connector.next, hstack, handling, hstart]
      · refine ⟨{ l.connector with stack := [.handleWrite] }, none, ?_, rfl, by omega, hset,
          hretries⟩
        simp [Connector.step, Connector.next, hstack, handling, hstart]
    · cases a with
      | next => exact absurd rfl ha
      | connect errno => simp [Connector.step, hstack, handling]
      | socket status => simp [Connector.step, hstack, handling]
  · have hset : l.connector.handlersSet = true := hhandlers
    have hst := h.core.connecting hset
    obtain ⟨ch, hch, hreset⟩ := Connector.exists_channel hset
    refine ⟨⟨{ l.connector with channel := some ch.reset }.retry ch.fd [.handleWrite],
      some .queueResetChannel, ?_, rfl, by omega, rfl, ?_⟩, fun a ha => ?_⟩
    · simp [Connector.step, Connector.next, hstack, handling, hset, Connector.handleError, hst,
        hreset]
    · rw [← hretries]
      unfold Connector.retries
      simp [Connector.retry, Connector.logged, List.countP_append]
    · cases a with
      | next => exact absurd rfl ha
      | connect errno => simp [Connector.step, hstack, handling]
      | socket status => simp [Connector.step, hstack, handling]

theorem step_run {l : ConnectorLoop} (hf : l.connector.failed = none) (a : Connector.Label) :
    l.step (.run a) = (l.connector.step a).map fun p => { l with connector := p.1 }.emit p.2 := by
  unfold step
  rw [hf]
  rfl

/-- **A step between the beginning of the event and its end.** -/
theorem handles_step {l l' : ConnectorLoop} {a : Label} {n k : Nat} (h : Alone l)
    (hh : Handles n k l.connector) (hok : l.Inside a) (hs : l.step a = some l') :
    ∃ k', Handles n k' l'.connector := by
  obtain ⟨hok, hin⟩ := hok
  cases k with
  | zero => exact absurd hh.stack hin
  | succ k =>
    obtain ⟨⟨c, out, hnext, hc⟩, hothers⟩ := handles_run h hh
    have hrun : ∀ b, a = .run b → ∃ k', Handles n k' l'.connector := by
      intro b ha
      rw [ha, step_run h.failed] at hs
      by_cases hb : b = .next
      · rw [hb, hnext] at hs
        refine ⟨k, ?_⟩
        rw [← Option.some.inj hs]
        rw [emit_connector]
        exact hc
      · rw [hothers b hb] at hs
        exact absurd hs (by simp)
    cases (step_cases hs).2 with
    | run _ => exact hrun _ rfl
    | threadAssign start => exact ⟨k + 1, { hh with }⟩
    | threadQueue start => exact ⟨k + 1, hh⟩
    | clock hle => exact ⟨k + 1, hh⟩
    | closed ho => exact ⟨k + 1, hh⟩
    | start hstk => exact absurd hstk hin
    | stop hstk => exact absurd hstk hin
    | restart ho hstk => exact absurd hstk hin
    | phase hstk => exact absurd hstk hin
    | functor hq hstk hg => exact absurd hstk hin
    | reset hq hstk => exact absurd hstk hin
    | timer hk hstk => exact absurd hstk hin
    | event hstk hr => exact absurd hstk hin

theorem handles_out {n k : Nat} : ∀ {l : ConnectorLoop}, Alone l → Handles n k l.connector →
    ∃ as l', Run machine Inside l as l' ∧ l'.connector.stack = [] := by
  induction k with
  | zero => intro l _ hh; exact ⟨[], l, .nil, hh.stack⟩
  | succ k ih =>
    intro l h hh
    obtain ⟨⟨c, out, hnext, hc⟩, _⟩ := handles_run h hh
    have hs : machine.step l (.run .next) = some ({ l with connector := c }.emit out) := by
      show l.step (.run .next) = _
      rw [step_run h.failed, hnext]
      rfl
    have hin : l.connector.stack ≠ [] := by
      rw [hh.stack]
      unfold handling
      split <;> simp_all
    have hok : l.Orderly (.run .next) := trivial
    have h' := alone_step h hok hs
    rw [← emit_connector l c out] at hc
    obtain ⟨as, l', hr, hout⟩ := ih h' hc
    exact ⟨_, l', (Run.one ⟨hok, hin⟩ hs).append hr, hout⟩

/-- **One event, one `Retry`.** -/
theorem one_retry {l l₁ : ConnectorLoop} (h : Alone l) (hs : l.step (.event true true) = some l₁) :
    OneRetry l l₁ := by
  have hok : l.Orderly (.event true true) := trivial
  have h₁ : Alone l₁ := alone_step h hok hs
  have hh : Handles (l.connector.retries + 1) 3 l₁.connector := by
    cases (step_cases hs).2 with
    | event hstk hr =>
      obtain ⟨ch, hch, hr⟩ := (Option.any_eq_true _ _).mp hr
      rw [Bool.and_eq_true] at hr
      have hst : l.connector.state = .kConnecting := by
        by_contra hst
        exact Bool.false_ne_true ((h.core.closed ch hch hst).1.symm.trans hr.1)
      refine ⟨rfl, Nat.le_refl 3, ?_, rfl⟩
      show l.connector.channel.any _ = true
      rw [hch]
      exact (h.core.attempt ch hch hst).handlers
  refine ⟨handles_out h₁ hh, fun as l₂ hr hout => ?_⟩
  have hinv := hr.invariant
    (I := fun u => Alone u ∧ ∃ k, Handles (l.connector.retries + 1) k u.connector) ⟨h₁, 3, hh⟩
    fun u a u' hu hok hs => by
      obtain ⟨hu, k, hk⟩ := hu
      exact ⟨alone_step hu hok.1 hs, handles_step hu hk hok hs⟩
  obtain ⟨_, k, hk⟩ := hinv
  have hne : k ≠ 3 := by
    rintro rfl
    exact absurd (hk.stack.symm.trans hout) (by simp [handling])
  have hretries := hk.retries
  rw [if_neg hne] at hretries
  exact hretries

/-- **Every socket ends once.** In every run behind one `Start`, with `Restart` only in `kConnected`
with `start_` set, no `Start` or `Restart` behind `Stop`, and the functors of `ResetChannel` in
front of the next `Connect`: no assertion fails; each socket has been closed once or given to
`conn_cb_` once, and not both, but for the one that the connector still holds, which has not
ended; there is at most one of unresolved sockets and pending timers; and an event with an error
and write interest calls `Retry` once. -/
theorem sockets_end_once {now : Timestamp} {l₀ l : ConnectorLoop} {as : List Label}
    (h : (create now).step .start = some l₀) (hr : Run machine Orderly l₀ as l) :
    l.connector.failed = none
      ∧ (∀ s < l.connector.sockets,
        l.connector.ended s = if l.connector.held = some s then 0 else 1)
      ∧ l.connector.unresolved.length + l.timers.length ≤ 1
      ∧ ∀ l₁, l.step (.event true true) = some l₁ → OneRetry l l₁ := by
  have hl := alone_run_start h hr
  refine ⟨hl.failed, fun s hs => ?_, hl.one_pending, fun l₁ hs => one_retry hl hs⟩
  rw [hl.accounted.ended s]
  simp [hs]

/-- A refused `connect`, a socket that fails with an error and write interest, one that is handed
over, and the socket of a `Restart`, closed by `Stop`. -/
theorem sockets_end_once_small : ∃ l₀ as l, (create ⟨0⟩).step .start = some l₀
    ∧ Run machine Orderly l₀ as l ∧ l.connector.sockets = 4
    ∧ (l.connector.trace.count (.connCb 2) = 1 ∧ l.connector.trace.count (.close 3) = 1)
    ∧ ∀ s < l.connector.sockets,
        l.connector.ended s = if l.connector.held = some s then 0 else 1 := by
  let l₀ : ConnectorLoop :=
    { create ⟨0⟩ with connector := { Connector.create with start := true, stack := [.start] } }
  have hstart : (create ⟨0⟩).step .start = some l₀ := rfl
  have hexec : (machine.exec Orderly l₀
      [.run .next, .run (.connect (some .ECONNREFUSED)), .run .next, .clock ⟨100000000⟩, .next,
        .timer 0, .run .next, .run (.connect (some .EINPROGRESS)), .next, .next,
        .event true true, .run .next, .run .next, .run .next, .next, .next, .next, .next,
        .clock ⟨300000000⟩, .next, .timer 0, .run .next, .run (.connect (some .EINPROGRESS)), .next,
        .next, .event false true, .run (.socket .good), .run .next, .next, .next, .next, .next,
        .closed true, .run .next, .run (.connect none), .stop, .run .next]).map (fun l => decide
          (l.connector.sockets = 4 ∧ l.connector.trace.count (.connCb 2) = 1
            ∧ l.connector.trace.count (.close 3) = 1)) = some true := by decide +kernel
  obtain ⟨l, hl, hp⟩ := Option.map_eq_some_iff.mp hexec
  obtain ⟨hsockets, hconn, hclose⟩ := of_decide_eq_true hp
  have hr := Machine.exec_run _ hl
  exact ⟨l₀, _, l, hstart, hr, hsockets, ⟨hconn, hclose⟩, (sockets_end_once hstart hr).2.1⟩

end ConnectorLoop

end Windz
