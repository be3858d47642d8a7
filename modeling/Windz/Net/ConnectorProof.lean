import Windz.Net.ConnectorCore

/-!
# Attempts and retry timers

`state_` goes with what became of the latest attempt. Retry timers are not cancelled: as
long as `connect` leads to an attempt or to another timer only when no timer is pending,
there is at most one of an attempt and a timer.
-/

namespace Windz

open Lib

/-! ## What became of the latest attempt -/

/-- The latest attempt to connect. -/
inductive Attempt where
  -- there was none since `Restart`, or it failed, or was stopped
  | none
  | underWay (socket : Socket)
  | succeeded
deriving DecidableEq

/-- What an event makes of it. -/
def Attempt.after : Attempt → ConnectorEvent → Attempt
  | _, .connecting socket => .underWay socket
  | _, .connected _ => .succeeded
  | _, .restart => .none
  | .underWay socket, .close closed => if socket = closed then .none else .underWay socket
  | attempt, _ => attempt

/-- The latest attempt, by the history of the sockets. -/
def Connector.attempt (c : Connector) : Attempt := c.trace.foldl Attempt.after .none

namespace ConnectorLoop

/-- `state_` goes with the history. -/
structure History (c : Connector) : Prop where
  disconnected : c.state = .kDisconnected → c.attempt = .none
  connecting : c.state = .kConnecting → ∃ ch, c.channel = some ch ∧ c.attempt = .underWay ch.fd
  connected : c.state = .kConnected → c.attempt = .succeeded

theorem History.none_iff {c : Connector} (h : History c) :
    c.attempt = .none ↔ c.state = .kDisconnected := by
  refine ⟨fun ha => ?_, h.disconnected⟩
  cases hst : c.state with
  | kDisconnected => rfl
  | kConnecting =>
    obtain ⟨ch, _, hch⟩ := h.connecting hst
    exact absurd (ha.symm.trans hch) (by simp)
  | kConnected => exact absurd (ha.symm.trans (h.connected hst)) (by simp)

theorem attempt_logged {c c' : Connector} {es : List ConnectorEvent}
    (h : c'.trace = c.trace ++ es) : c'.attempt = es.foldl Attempt.after c.attempt := by
  unfold Connector.attempt
  rw [h, List.foldl_append]

/-- Only the stack changes, `start_`, the retry duration, and how the run has failed. -/
theorem History.congr {c c' : Connector} (h : History c) (hst : c'.state = c.state)
    (hch : c'.channel = c.channel) (ha : c'.attempt = c.attempt) : History c' := by
  refine ⟨?_, ?_, ?_⟩
  · rw [hst, ha]
    exact h.disconnected
  · rw [hst, ha, hch]
    exact h.connecting
  · rw [hst, ha]
    exact h.connected

/-- The attempt of a channel ends. -/
theorem History.ends {c c' : Connector} (h : History c) {ch : ConnectorChannel}
    (hch : c.channel = some ch) (hst : c.state = .kConnecting) (hst' : c'.state = .kDisconnected)
    (htrace : c'.trace = c.trace ++ [.close ch.fd]
      ∨ c'.trace = c.trace ++ [.retry ch.fd, .close ch.fd]) : History c' := by
  obtain ⟨ch', hch', ha⟩ := h.connecting hst
  rw [Option.some.inj (hch'.symm.trans hch)] at ha
  have hnone : c'.attempt = .none := by
    rcases htrace with ht | ht
    · rw [attempt_logged ht, ha]
      exact if_pos rfl
    · rw [attempt_logged ht, ha]
      exact if_pos rfl
  exact ⟨fun _ => hnone, fun hc => absurd (hst'.symm.trans hc) (by simp),
    fun hc => absurd (hst'.symm.trans hc) (by simp)⟩

/-- A socket is made and closed. -/
theorem History.fails {c c' : Connector} (h : History c) (hst : c.state = .kDisconnected)
    (hst' : c'.state = .kDisconnected) {es : List ConnectorEvent}
    (htrace : c'.trace = c.trace ++ es) (hes : es.foldl Attempt.after .none = .none) :
    History c' := by
  have hnone : c'.attempt = .none := by rw [attempt_logged htrace, h.disconnected hst, hes]
  exact ⟨fun _ => hnone, fun hc => absurd (hst'.symm.trans hc) (by simp),
    fun hc => absurd (hst'.symm.trans hc) (by simp)⟩

theorem history_run {l : ConnectorLoop} {a : Connector.Label} {c : Connector}
    {out : Option ConnectorOutgoing} (hcore : Core l) (h : History l.connector)
    (hs : ConnectorStep l.connector a c out) : c.failed = some .connecting ∨ History c := by
  cases hs with
  | noChannel hst hch => exact absurd hch (hcore.has_channel hst)
  | stop hstk hst hch => exact .inr (h.ends hch hst rfl (.inl rfl))
  | connCb hstk hs =>
    have hst : l.connector.state = .kConnected := (hcore.frame hstk).1
    refine .inr (h.congr rfl rfl ?_)
    rw [attempt_logged rfl, h.connected hst]
    rfl
  | closeConnected hstk hs =>
    have hst : l.connector.state = .kConnected := (hcore.frame hstk).1
    refine .inr (h.congr rfl rfl ?_)
    rw [attempt_logged rfl, h.connected hst]
    rfl
  | handlerRetries hstk hset hch hf =>
    exact .inr (h.ends hch (hcore.connecting hset) rfl (.inr rfl))
  | connected hstk hset hch =>
    refine .inr ⟨by simp, by simp, fun _ => ?_⟩
    rw [attempt_logged rfl]
    rfl
  | connecting hstk hc hch =>
    refine .inr ⟨by simp, fun _ => ⟨_, rfl, ?_⟩, by simp⟩
    rw [attempt_logged (List.append_assoc _ _ _)]
    rfl
  | connectingFails hstk hc hch => exact .inl rfl
  | connectRetries hstk hc =>
    have hst : l.connector.state = .kDisconnected := hcore.frame hstk
    exact .inr (h.fails hst rfl (List.append_assoc _ _ _) rfl)
  | connectCloses hstk hc =>
    have hst : l.connector.state = .kDisconnected := hcore.frame hstk
    exact .inr (h.fails hst hst (List.append_assoc _ _ _) rfl)
  | _ => exact .inr (h.congr rfl rfl rfl)

theorem history_step {l l' : ConnectorLoop} {a : Label} (hcore : Core l) (h : History l.connector)
    (hs : l.step a = some l') :
    l'.connector.failed = some .connecting ∨ History l'.connector := by
  cases (step_cases hs).2 with
  | @run b c out hrun =>
    have hconn : ({ l with connector := c }.emit out).connector = c := by
      unfold emit
      split <;> rfl
    rw [hconn]
    exact history_run hcore h hrun
  | restart ho hstk =>
    refine .inr ⟨fun _ => ?_, by simp [Connector.restart], by simp [Connector.restart]⟩
    rw [attempt_logged rfl]
    rfl
  | @reset rest left hq hstk =>
    refine .inr ⟨h.disconnected, fun hst => ?_, h.connected⟩
    exact absurd (by rw [hq]; exact List.mem_cons_self) (hcore.no_reset hst)
  | _ => exact .inr (h.congr rfl rfl rfl)

theorem history_reachable {ok : ConnectorLoop → Label → Prop} {l : ConnectorLoop}
    (h : Reachable machine ok l) :
    l.connector.failed = some .connecting ∨ History l.connector := by
  refine h.invariant (I := fun l => l.connector.failed = some .connecting ∨ History l.connector)
    ?_ ?_
  · rintro l ⟨now, rfl⟩
    exact .inr ⟨fun _ => rfl, by simp [create, Connector.create],
      by simp [create, Connector.create]⟩
  · intro l a l' hr hi _ hs
    have hf := (step_cases hs).1
    have hcore := (core_reachable hr).resolve_left (by rw [hf]; simp)
    exact history_step hcore (hi.resolve_left (by rw [hf]; simp)) hs

/-- `Start` fails its assertion after an attempt that has not failed. -/
theorem start_fails_iff {l l' : ConnectorLoop} {a : Label} (h : History l.connector)
    (hs : l.step a = some l') : l'.connector.failed = some .start
      ↔ a = .run .next ∧ l.connector.stack.head? = some .start ∧ l.connector.attempt ≠ .none := by
  obtain ⟨hf, hstep⟩ := step_cases hs
  have hnone : l.connector.failed ≠ some .start := by rw [hf]; simp
  -- nothing else fails there, and nothing else is excluded
  have hother : l'.connector.failed ≠ some .start →
      (a = .run .next → l.connector.stack.head? = some .start →
        l.connector.state = .kDisconnected) → (l'.connector.failed = some .start
      ↔ a = .run .next ∧ l.connector.stack.head? = some .start
        ∧ l.connector.attempt ≠ .none) := by
    intro hne hst
    refine ⟨fun he => absurd he hne, ?_⟩
    rintro ⟨ha, hhead, hatt⟩
    exact absurd (h.none_iff.mpr (hst ha hhead)) hatt
  have hframe : ∀ {f : ConnectorFrame} {rest : List ConnectorFrame},
      l.connector.stack = f :: rest → f ≠ .start → a = .run .next →
        l.connector.stack.head? = some .start → l.connector.state = .kDisconnected := by
    intro f rest hstk hne _ hhead
    rw [hstk, List.head?_cons, Option.some.injEq] at hhead
    exact absurd hhead hne
  cases hstep with
  | @run b c out hrun =>
    cases hrun with
    | @startFails rest hstk hst =>
      refine ⟨fun _ => ⟨rfl, ?_, fun ha => hst (h.none_iff.mp ha)⟩, fun _ => rfl⟩
      rw [hstk]
      rfl
    | timerFails hstk hst => exact hother (by simp [emit]) (hframe hstk (by simp))
    | noChannel hst hch =>
      obtain ⟨ch, hch', _⟩ := h.connecting hst
      exact absurd (hch.symm.trans hch') (by simp)
    | @skip f rest hstk hskip =>
      refine hother hnone fun _ hhead => ?_
      rw [hstk, List.head?_cons, Option.some.injEq] at hhead
      rw [hhead] at hskip
      exact hskip.1
    | @test f rest hstk ht hstart =>
      refine hother hnone fun _ hhead => ?_
      rw [hstk, List.head?_cons, Option.some.injEq] at hhead
      rcases ht with ⟨_, hst⟩ | hr
      · exact hst
      · exact absurd (hhead.symm.trans hr) (by simp)
    | handlerRetries hstk hset hch hf =>
      rcases hf with ⟨hf, _⟩ | ⟨hf, _⟩
      · exact hother hnone (hframe hstk (by rw [hf]; simp))
      · exact hother hnone (hframe hstk (by rw [hf]; simp))
    | stop hstk hst hch => exact hother hnone (hframe hstk (by simp))
    | runAfter hstk hs => exact hother hnone (hframe hstk (by simp))
    | connCb hstk hs => exact hother hnone (hframe hstk (by simp))
    | closeConnected hstk hs => exact hother hnone (hframe hstk (by simp))
    | connectingFails hstk hc hch => exact hother (by simp [emit]) (by simp)
    | _ => exact hother hnone (by simp)
  | _ => exact hother hnone (by simp)

/-! ## An attempt or a retry timer -/

/-- The sockets being connected and the timers that will still call `Connect`. -/
def inFlight (l : ConnectorLoop) : Nat :=
  (if l.connector.state = .kConnecting then 1 else 0)
    + if l.connector.start then l.timers.length else 0

/-- At most one is in flight, and the assertion of the timer's functor has not failed. -/
def OneInFlight (l : ConnectorLoop) : Prop :=
  l.inFlight ≤ 1 ∧ l.connector.failed ≠ some .retryTimer

/-- With a timer pending, `connect` only fails for good. -/
def NoTimerPending (l : ConnectorLoop) : Label → Prop
  | .run (.connect errno) => connectCase errno ≠ .close → l.timers = []
  | _ => True

instance (l : ConnectorLoop) (a : Label) : Decidable (l.NoTimerPending a) :=
  match a with
  | .run (.connect errno) =>
      inferInstanceAs (Decidable (connectCase errno ≠ .close → l.timers = []))
  | .start | .stop | .closed _ | .threadAssign _ | .threadQueue _ | .run .next | .run (.socket _)
  | .clock _ | .next | .timer _ | .event _ _ => .isTrue trivial

/-- What a frame knows about the timers. -/
def TimerFits (l : ConnectorLoop) : ConnectorFrame → Prop
  | .retryTest => l.timers = []
  | .retryTimer => l.connector.state = .kDisconnected
  | _ => True

/-- At most one timer is set at a time. -/
structure Single (l : ConnectorLoop) : Prop where
  timers : l.timers.length ≤ 1
  /-- A timer waits only in `kDisconnected`. -/
  waits : l.connector.state ≠ .kDisconnected → l.timers = []
  frames : ∀ f ∈ l.connector.stack, l.TimerFits f
  failed : l.connector.failed ≠ some .retryTimer

theorem timerFits_handleWrite {l : ConnectorLoop} {rest : List ConnectorFrame}
    (h : ∀ g ∈ rest, g = .handleWrite) : ∀ g ∈ rest, l.TimerFits g := by
  intro g hg
  rw [h g hg]
  trivial

theorem timerFits_cons {l : ConnectorLoop} {f : ConnectorFrame} {rest : List ConnectorFrame}
    (hf : l.TimerFits f) (h : ∀ g ∈ rest, g = .handleWrite) : ∀ g ∈ f :: rest, l.TimerFits g :=
  List.forall_mem_cons.mpr ⟨hf, timerFits_handleWrite h⟩

/-- **A step inside the connector.** -/
theorem single_run {l : ConnectorLoop} {a : Connector.Label} {c : Connector}
    {out : Option ConnectorOutgoing} (hcore : Core l) (h : Single l) (hok : l.NoTimerPending (.run a))
    (hs : ConnectorStep l.connector a c out) :
    Single ({ l with connector := c }.emit out) := by
  have hpending : ∀ state ≠ ConnectorState.kDisconnected, l.connector.state = state →
      l.timers = [] := fun state hne hst => h.waits (by rw [hst]; exact hne)
  cases hs with
  | skip hstk hne =>
    exact ⟨h.timers, h.waits, timerFits_handleWrite (hcore.rest hstk), h.failed⟩
  | test hstk ht hstart =>
    exact ⟨h.timers, h.waits, timerFits_cons trivial (hcore.rest hstk), h.failed⟩
  | startFails hstk hst => exact ⟨h.timers, h.waits, h.frames, by simp [emit]⟩
  | timerFails hstk hst =>
    exact absurd (h.frames .retryTimer (by rw [hstk]; exact List.mem_cons_self)) hst
  | noChannel hst hch => exact absurd hch (hcore.has_channel hst)
  | stop hstk hst hch =>
    exact ⟨h.timers, fun hne => absurd rfl hne, timerFits_handleWrite (hcore.rest hstk), h.failed⟩
  | runAfter hstk hstart =>
    have hnone := h.frames .retryTest (by rw [hstk]; exact List.mem_cons_self)
    have hst : l.connector.state = .kDisconnected := hcore.frame hstk
    refine ⟨?_, fun hne => absurd hst hne, timerFits_handleWrite (hcore.rest hstk), h.failed⟩
    show (l.timers ++ [_]).length ≤ 1
    rw [show l.timers = [] from hnone]
    simp
  | connCb hstk hstart =>
    exact ⟨h.timers, h.waits, timerFits_handleWrite (hcore.rest hstk), h.failed⟩
  | closeConnected hstk hstart =>
    exact ⟨h.timers, h.waits, timerFits_handleWrite (hcore.rest hstk), h.failed⟩
  | handlerRetries hstk hset hch _ =>
    have hnone := hpending _ (by simp) (hcore.connecting hset)
    exact ⟨h.timers, fun hne => absurd rfl hne, timerFits_cons hnone (hcore.rest hstk), h.failed⟩
  | connected hstk hset hch =>
    have hnone := hpending _ (by simp) (hcore.connecting hset)
    exact ⟨h.timers, fun _ => hnone, timerFits_cons trivial (hcore.rest hstk), h.failed⟩
  | connecting hstk hc hch =>
    have hnone := hok (by rw [hc]; simp)
    exact ⟨h.timers, fun _ => hnone, timerFits_handleWrite (hcore.rest hstk), h.failed⟩
  | connectingFails hstk hc hch =>
    have hnone := hok (by rw [hc]; simp)
    refine ⟨h.timers, fun _ => hnone, ?_, by simp [emit]⟩
    show ∀ f ∈ l.connector.stack, _
    rw [hstk]
    exact timerFits_cons (f := .connect) trivial (hcore.rest hstk)
  | connectRetries hstk hc =>
    have hnone := hok (by rw [hc]; simp)
    exact ⟨h.timers, fun hne => absurd rfl hne, timerFits_cons hnone (hcore.rest hstk), h.failed⟩
  | connectCloses hstk hc =>
    exact ⟨h.timers, h.waits, timerFits_handleWrite (hcore.rest hstk), h.failed⟩

/-- **A step keeps this.** -/
theorem single_step {l l' : ConnectorLoop} {a : Label} (hcore : Core l) (h : Single l)
    (hok : l.NoTimerPending a) (hs : l.step a = some l') : Single l' := by
  cases (step_cases hs).2 with
  | run hrun => exact single_run hcore h hok hrun
  | start hstk => exact ⟨h.timers, h.waits, by simp [TimerFits], h.failed⟩
  | stop hstk => exact ⟨h.timers, h.waits, by simp [TimerFits], h.failed⟩
  | closed ho => exact { h with }
  | restart ho hstk =>
    exact ⟨h.timers, fun hne => absurd rfl hne, by simp [TimerFits], h.failed⟩
  | threadAssign start => exact { h with }
  | threadQueue start => exact { h with }
  | clock hle => exact { h with }
  | phase hstk => exact { h with }
  | functor hq hstk hg =>
    refine ⟨h.timers, h.waits, ?_, h.failed⟩
    intro f' hf'
    rw [List.mem_singleton.mp hf']
    rcases hg with ⟨_, hg⟩ | ⟨_, hg⟩ <;> rw [hg] <;> trivial
  | reset hq hstk => exact ⟨h.timers, h.waits, by simp, h.failed⟩
  | @timer k when hk hstk =>
    have hne : l.timers ≠ [] := by
      intro hnil
      rw [hnil] at hk
      exact absurd hk (by simp)
    have hst : l.connector.state = .kDisconnected := by
      by_contra hst
      exact hne (h.waits hst)
    refine ⟨?_, fun hn => absurd hst hn, ?_, h.failed⟩
    · exact Nat.le_trans (List.length_eraseIdx_le _ _) h.timers
    · intro f hf'
      rw [List.mem_singleton.mp hf']
      exact hst
  | @event error writable hstk hr =>
    refine ⟨h.timers, h.waits, ?_, h.failed⟩
    cases error <;> cases writable <;> simp [Connector.eventFrames, TimerFits]

theorem single_reachable {ok : ConnectorLoop → Label → Prop}
    (hok : ∀ l a, ok l a → l.NoTimerPending a) {l : ConnectorLoop} (h : Reachable machine ok l) :
    Single l := by
  refine h.invariant (I := Single) ?_ ?_
  · rintro l ⟨now, rfl⟩
    exact ⟨by simp [create], by simp [create], by simp [create, Connector.create],
      by simp [create, Connector.create]⟩
  · intro l a l' hr hi ha hs
    have hf := (step_cases hs).1
    have hcore := (core_reachable hr).resolve_left (by rw [hf]; simp)
    exact single_step hcore hi (hok l a ha) hs

/-- **An attempt or a timer, not both.** In every run of the owner's calls in the loop thread whose
calls of `connect` lead to an attempt or to a retry only while no retry timer is pending, there is
at most one of a socket being connected and a timer that will connect another, and the assertion
in the functor of the timer does not fail. -/
theorem one_in_flight {l : ConnectorLoop}
    (h : Reachable machine (fun l a => l.InOrder a ∧ l.NoTimerPending a) l) : l.OneInFlight := by
  have hsingle := single_reachable (fun _ _ hok => hok.2) h
  refine ⟨?_, hsingle.failed⟩
  unfold inFlight
  by_cases hst : l.connector.state = .kConnecting
  · have hnone := hsingle.waits (by rw [hst]; simp)
    rw [if_pos hst, hnone]
    simp
  · have htimers := hsingle.timers
    rw [if_neg hst]
    split <;> omega

/-- A refused `connect`, the timer, and a socket that is being connected. -/
theorem one_in_flight_small : ∃ l,
    Reachable machine (fun l a => l.InOrder a ∧ l.NoTimerPending a) l
      ∧ l.connector.sockets = 2 ∧ l.inFlight = 1 ∧ l.OneInFlight := by
  have hexec : (machine.exec (fun l a => l.InOrder a ∧ l.NoTimerPending a) (create ⟨0⟩)
      [.start, .run .next, .run (.connect (some .ECONNREFUSED)), .run .next, .clock ⟨100000000⟩,
        .next, .timer 0, .run .next, .run (.connect (some .EINPROGRESS))]).map (fun l => decide
          (l.connector.sockets = 2 ∧ l.inFlight = 1)) = some true := by decide +kernel
  obtain ⟨l, hr, hp⟩ := Machine.exec_reachable (M := machine) ⟨⟨0⟩, rfl⟩ hexec
  have hp := of_decide_eq_true hp
  exact ⟨l, hr, hp.1, hp.2, one_in_flight hr⟩

/-- `Start` inside the delay of a timer from before `Stop`: a socket is being connected beside the
timer, and then the assertion of the timer fails. -/
theorem two_in_flight : ∃ l l', Reachable machine InOrder l ∧ l.inFlight = 2
    ∧ Run machine InOrder l
      [.clock ⟨100000000⟩, .next, .timer 0, .run .next] l'
    ∧ l'.connector.failed = some .retryTimer := by
  have hexec : (machine.exec InOrder (create ⟨0⟩)
      [.start, .run .next, .run (.connect (some .ECONNREFUSED)), .run .next, .stop, .run .next,
        .start, .run .next, .run (.connect (some .EINPROGRESS))]).map (fun l =>
          decide (l.inFlight = 2) && ((machine.exec InOrder l
            [.clock ⟨100000000⟩, .next, .timer 0, .run .next]).map fun l' =>
              decide (l'.connector.failed = some .retryTimer)) == some true) = some true := by
    decide +kernel
  obtain ⟨l, hr, hp⟩ := Machine.exec_reachable (M := machine) ⟨⟨0⟩, rfl⟩ hexec
  rw [Bool.and_eq_true] at hp
  obtain ⟨l', hl', hp'⟩ := Option.map_eq_some_iff.mp (eq_of_beq hp.2)
  exact ⟨l, l', hr, of_decide_eq_true hp.1, Machine.exec_run _ hl', of_decide_eq_true hp'⟩

end ConnectorLoop

end Windz
