import Mathlib.Logic.Function.Basic
import Windz.Net.Connector

/-!
# The steps of a connector

What each step inside a connector does, and each step of the loop around it, with the
facts under which it is taken.
-/

namespace Windz

open Lib

/-! ## What a step does -/

/-- The frame on top goes on to `Connect` if `start_` is set. -/
def Connector.Tests (c : Connector) (f : ConnectorFrame) : Prop :=
  (f = .start ∨ f = .retryTimer) ∧ c.state = .kDisconnected ∨ f = .restartTest

/-- The frame can be left without doing anything. -/
def Connector.Skips (c : Connector) : ConnectorFrame → Prop
  | .start | .retryTimer => c.state = .kDisconnected ∧ c.start = false
  | .restartTest | .retryTest => c.start = false
  | .stop => c.state ≠ .kConnecting
  | .handleWrite | .handleError => True
  | .connect | .connected _ => False

/-- The steps inside a connector. -/
inductive ConnectorStep (c : Connector) :
    Connector.Label → Connector → Option ConnectorOutgoing → Prop where
  | skip {f : ConnectorFrame} {rest : List ConnectorFrame} (h : c.stack = f :: rest)
      (hf : c.Skips f) : ConnectorStep c .next { c with stack := rest } none
  | test {f : ConnectorFrame} {rest : List ConnectorFrame} (h : c.stack = f :: rest)
      (hf : c.Tests f) (hs : c.start = true) :
      ConnectorStep c .next { c with stack := .connect :: rest } none
  | startFails {rest : List ConnectorFrame} (h : c.stack = .start :: rest)
      (hst : c.state ≠ .kDisconnected) :
      ConnectorStep c .next { c with failed := some .start } none
  | timerFails {rest : List ConnectorFrame} (h : c.stack = .retryTimer :: rest)
      (hst : c.state ≠ .kDisconnected) :
      ConnectorStep c .next { c with failed := some .retryTimer } none
  | noChannel (hst : c.state = .kConnecting) (hch : c.channel = none) :
      ConnectorStep c .next
        { c with state := .kDisconnected, failed := some .nullChannel } none
  | stop {rest : List ConnectorFrame} {ch : ConnectorChannel} (h : c.stack = .stop :: rest)
      (hst : c.state = .kConnecting) (hch : c.channel = some ch) :
      ConnectorStep c .next { c with
        state := .kDisconnected
        channel := some ch.reset
        trace := c.logged [.close ch.fd]
        stack := rest } (some .queueResetChannel)
  | runAfter {rest : List ConnectorFrame} (h : c.stack = .retryTest :: rest)
      (hs : c.start = true) :
      ConnectorStep c .next
        { c with retryDuration := Connector.nextDuration c.retryDuration, stack := rest }
        (some (.runAfter c.retryDuration))
  | connCb {socket : Socket} {rest : List ConnectorFrame}
      (h : c.stack = .connected socket :: rest) (hs : c.start = true) :
      ConnectorStep c .next { c with trace := c.logged [.connCb socket], stack := rest }
        (some .connCb)
  | closeConnected {socket : Socket} {rest : List ConnectorFrame}
      (h : c.stack = .connected socket :: rest) (hs : c.start = false) :
      ConnectorStep c .next { c with trace := c.logged [.close socket], stack := rest } none
  -- `HandleError`, or `HandleWrite` with an error
  | handlerRetries {a : Connector.Label} {f : ConnectorFrame} {rest : List ConnectorFrame}
      {ch : ConnectorChannel} (h : c.stack = f :: rest) (hset : c.handlersSet = true)
      (hch : c.channel = some ch)
      (hf : f = .handleError ∧ a = .next ∨ f = .handleWrite ∧ ∃ status, a = .socket status) :
      ConnectorStep c a ({ c with channel := some ch.reset }.retry ch.fd rest)
        (some .queueResetChannel)
  | connected {rest : List ConnectorFrame} {ch : ConnectorChannel}
      (h : c.stack = .handleWrite :: rest) (hset : c.handlersSet = true)
      (hch : c.channel = some ch) :
      ConnectorStep c (.socket .good) { c with
        state := .kConnected
        channel := some ch.reset
        trace := c.logged [.connected ch.fd]
        stack := .connected ch.fd :: rest } (some .queueResetChannel)
  | connecting {errno : Option Errno} {rest : List ConnectorFrame}
      (h : c.stack = .connect :: rest) (hc : connectCase errno = .connecting)
      (hch : c.channel = none) :
      ConnectorStep c (.connect errno) { c with
        state := .kConnecting
        sockets := c.sockets + 1
        channel := some ⟨c.sockets, Channel.create.enableWrite⟩
        trace := c.logged [.socket c.sockets] ++ [.connecting c.sockets]
        stack := rest } none
  | connectingFails {errno : Option Errno} {rest : List ConnectorFrame} {ch : ConnectorChannel}
      (h : c.stack = .connect :: rest) (hc : connectCase errno = .connecting)
      (hch : c.channel = some ch) :
      ConnectorStep c (.connect errno) { c with
        state := .kConnecting
        sockets := c.sockets + 1
        trace := c.logged [.socket c.sockets]
        failed := some .connecting } none
  | connectRetries {errno : Option Errno} {rest : List ConnectorFrame}
      (h : c.stack = .connect :: rest) (hc : connectCase errno = .retry) :
      ConnectorStep c (.connect errno)
        ({ c with sockets := c.sockets + 1, trace := c.logged [.socket c.sockets] }.retry c.sockets
          rest) none
  | connectCloses {errno : Option Errno} {rest : List ConnectorFrame}
      (h : c.stack = .connect :: rest) (hc : connectCase errno = .close) :
      ConnectorStep c (.connect errno) { c with
        sockets := c.sockets + 1
        trace := c.logged [.socket c.sockets] ++ [.close c.sockets]
        stack := rest } none

namespace Connector

theorem step_testStart {c : Connector} {f : ConnectorFrame} {rest : List ConnectorFrame}
    (h : c.stack = f :: rest) (hf : c.Tests f) :
    ConnectorStep c .next (c.testStart rest) none := by
  unfold testStart
  by_cases hs : c.start = true
  · rw [if_pos hs]
    exact .test h hf hs
  · rw [if_neg hs]
    have hs := Bool.eq_false_iff.mpr hs
    refine .skip h ?_
    rcases hf with ⟨hf | hf, hst⟩ | hf
    · rw [hf]
      exact ⟨hst, hs⟩
    · rw [hf]
      exact ⟨hst, hs⟩
    · rw [hf]
      exact hs

theorem step_connect {c : Connector} {errno : Option Errno} {rest : List ConnectorFrame}
    (h : c.stack = .connect :: rest) :
    ConnectorStep c (.connect errno) (c.connect errno rest) none := by
  unfold connect
  cases hc : connectCase errno with
  | connecting =>
    dsimp only
    unfold connecting
    dsimp only
    split
    · rename_i ch hch
      exact .connectingFails h hc hch
    · rename_i hch
      exact .connecting h hc hch
  | retry => exact .connectRetries h hc
  | close => exact .connectCloses h hc

theorem exists_channel {c : Connector} (hset : c.handlersSet = true) :
    ∃ ch, c.channel = some ch ∧ c.resetChannel = some (ch.reset, ch.fd) := by
  unfold handlersSet at hset
  obtain ⟨ch, hch, _⟩ := (Option.any_eq_true _ _).mp hset
  exact ⟨ch, hch, by rw [resetChannel, hch]; rfl⟩

theorem step_handleWrite {c : Connector} {status : SocketStatus} {rest : List ConnectorFrame}
    (h : c.stack = .handleWrite :: rest) (hset : c.handlersSet = true) :
    ConnectorStep c (.socket status) (c.handleWrite status rest).1
      (c.handleWrite status rest).2 := by
  obtain ⟨ch, hch, hreset⟩ := exists_channel hset
  unfold handleWrite
  rw [hreset]
  cases status with
  | error => exact .handlerRetries h hset hch (.inr ⟨rfl, _, rfl⟩)
  | selfConnect => exact .handlerRetries h hset hch (.inr ⟨rfl, _, rfl⟩)
  | good => exact .connected h hset hch

theorem step_handleError {c : Connector} {rest : List ConnectorFrame}
    (h : c.stack = .handleError :: rest) (hset : c.handlersSet = true) :
    ConnectorStep c .next (c.handleError rest).1 (c.handleError rest).2 := by
  obtain ⟨ch, hch, hreset⟩ := exists_channel hset
  unfold handleError
  rw [hreset]
  split
  · exact .handlerRetries h hset hch (.inl ⟨rfl, rfl⟩)
  · exact .skip h trivial

theorem step_stopInLoop {c : Connector} {rest : List ConnectorFrame}
    (h : c.stack = .stop :: rest) :
    ConnectorStep c .next (c.stopInLoop rest).1 (c.stopInLoop rest).2 := by
  unfold stopInLoop
  by_cases hst : c.state = .kConnecting
  · rw [if_pos hst]
    rcases Option.eq_none_or_eq_some c.channel with hch | ⟨ch, hch⟩
    · have hreset : ({ c with state := .kDisconnected } : Connector).resetChannel = none := by
        unfold resetChannel
        dsimp only
        rw [hch]
        rfl
      dsimp only
      rw [hreset]
      exact .noChannel hst hch
    · have hreset : ({ c with state := .kDisconnected } : Connector).resetChannel
          = some (ch.reset, ch.fd) := by
        unfold resetChannel
        dsimp only
        rw [hch]
        rfl
      dsimp only
      rw [hreset]
      exact .stop h hst hch
  · rw [if_neg hst]
    exact .skip h hst

/-- A step inside the connector is one of these. -/
theorem step_cases {c c' : Connector} {a : Label} {out : Option ConnectorOutgoing}
    (h : c.step a = some (c', out)) : ConnectorStep c a c' out := by
  cases a with
  | connect errno =>
    rw [step] at h
    split at h
    · rename_i rest hstk
      rw [Option.some.injEq, Prod.mk.injEq] at h
      rw [← h.1, ← h.2]
      exact step_connect hstk
    · exact absurd h (by simp)
  | socket status =>
    rw [step] at h
    split at h
    · rename_i rest hstk
      split at h
      · rename_i hset
        rw [Option.some.injEq] at h
        have hstep : ConnectorStep c (.socket status) (c.handleWrite status rest).1
          (c.handleWrite status rest).2 := step_handleWrite hstk hset
        rw [h] at hstep
        exact hstep
      · exact absurd h (by simp)
    · exact absurd h (by simp)
  | next =>
    rw [step, next] at h
    split at h
    · exact absurd h (by simp)
    · exact absurd h (by simp)
    · rename_i rest hstk
      rw [Option.some.injEq, Prod.mk.injEq] at h
      rw [← h.1, ← h.2]
      split
      · rename_i hst
        exact step_testStart hstk (.inl ⟨.inl rfl, hst⟩)
      · rename_i hst
        exact .startFails hstk hst
    · rename_i rest hstk
      rw [Option.some.injEq] at h
      have hstep := step_stopInLoop hstk
      rw [h] at hstep
      exact hstep
    · rename_i rest hstk
      rw [Option.some.injEq, Prod.mk.injEq] at h
      rw [← h.1, ← h.2]
      split
      · rename_i hst
        exact step_testStart hstk (.inl ⟨.inr rfl, hst⟩)
      · rename_i hst
        exact .timerFails hstk hst
    · rename_i rest hstk
      rw [Option.some.injEq, Prod.mk.injEq] at h
      rw [← h.1, ← h.2]
      exact step_testStart hstk (.inr rfl)
    · rename_i rest hstk
      rw [Option.some.injEq] at h
      split at h
      · rename_i hs
        rw [Prod.mk.injEq] at h
        rw [← h.1, ← h.2]
        exact .runAfter hstk hs
      · rename_i hs
        rw [Prod.mk.injEq] at h
        rw [← h.1, ← h.2]
        exact .skip hstk (Bool.eq_false_iff.mpr hs)
    · rename_i socket rest hstk
      rw [Option.some.injEq] at h
      split at h
      · rename_i hs
        rw [Prod.mk.injEq] at h
        rw [← h.1, ← h.2]
        exact .connCb hstk hs
      · rename_i hs
        rw [Prod.mk.injEq] at h
        rw [← h.1, ← h.2]
        exact .closeConnected hstk (Bool.eq_false_iff.mpr hs)
    · rename_i rest hstk
      rw [Option.some.injEq] at h
      split at h
      · rename_i hset
        have hstep := step_handleError hstk hset
        rw [h] at hstep
        exact hstep
      · rw [Prod.mk.injEq] at h
        rw [← h.1, ← h.2]
        exact .skip hstk trivial
    · rename_i rest hstk
      split at h
      · exact absurd h (by simp)
      · rw [Option.some.injEq, Prod.mk.injEq] at h
        rw [← h.1, ← h.2]
        exact .skip hstk trivial

theorem enter_eq {c c' : Connector} {frames : List ConnectorFrame}
    (h : c.enter frames = some c') : c.stack = [] ∧ c' = { c with stack := frames } := by
  unfold enter at h
  split at h
  · rename_i hs
    exact ⟨hs, (Option.some.inj h).symm⟩
  · exact absurd h (by simp)

end Connector

/-- The steps of the loop with a connector. -/
inductive ConnectorLoopStep (l : ConnectorLoop) : ConnectorLoop.Label → ConnectorLoop → Prop where
  | start (hs : l.connector.stack = []) :
      ConnectorLoopStep l .start
        { l with connector := { l.connector with start := true, stack := [.start] } }
  | stop (hs : l.connector.stack = []) :
      ConnectorLoopStep l .stop
        { l with connector := { l.connector with start := false, stack := [.stop] } }
  | closed (ho : l.opened ≠ 0) :
      ConnectorLoopStep l (.closed false) { l with opened := l.opened - 1 }
  | restart (ho : l.opened ≠ 0) (hs : l.connector.stack = []) :
      ConnectorLoopStep l (.closed true) { l with
        opened := l.opened - 1
        connector := { l.connector.restart with stack := [.restartTest] } }
  | threadAssign (start : Bool) :
      ConnectorLoopStep l (.threadAssign start) { l with connector := { l.connector with start } }
  | threadQueue (start : Bool) :
      ConnectorLoopStep l (.threadQueue start)
        { l with queue := l.queue ++ [if start then .start else .stop] }
  | run {a : Connector.Label} {c : Connector} {out : Option ConnectorOutgoing}
      (h : ConnectorStep l.connector a c out) :
      ConnectorLoopStep l (.run a) ({ l with connector := c }.emit out)
  | clock {now : Timestamp} (h : l.now ≤ now) : ConnectorLoopStep l (.clock now) { l with now }
  | phase {phase : LoopPhase} (hs : l.connector.stack = []) :
      ConnectorLoopStep l .next { l with phase }
  -- the functors of `Start` and `Stop` from another thread
  | functor {f : ConnectorFrame} {g : ConnectorFunctor} {rest : List ConnectorFunctor} {left : Nat}
      (hq : l.queue = g :: rest) (hs : l.connector.stack = [])
      (hg : g = .start ∧ f = .start ∨ g = .stop ∧ f = .stop) :
      ConnectorLoopStep l .next { l with
        connector := { l.connector with stack := [f] }
        queue := rest
        phase := .calling left }
  | reset {rest : List ConnectorFunctor} {left : Nat} (hq : l.queue = .resetChannel :: rest)
      (hs : l.connector.stack = []) :
      ConnectorLoopStep l .next { l with
        connector := { l.connector with channel := none, stack := [] }
        queue := rest
        phase := .calling left }
  | timer {k : Nat} {when : Timestamp} (hk : l.timers[k]? = some when)
      (hs : l.connector.stack = []) :
      ConnectorLoopStep l (.timer k) { l with
        timers := l.timers.eraseIdx k
        connector := { l.connector with stack := [.retryTimer] } }
  | event {error writable : Bool} (hs : l.connector.stack = [])
      (hr : l.connector.reports writable = true) :
      ConnectorLoopStep l (.event error writable)
        { l with connector := { l.connector with stack := Connector.eventFrames error writable } }

namespace ConnectorLoop

theorem enter_eq {l l' : ConnectorLoop} {frames : List ConnectorFrame}
    (h : l.enter frames = some l') : l.connector.stack = []
      ∧ l' = { l with connector := { l.connector with stack := frames } } := by
  obtain ⟨c, hc, hl⟩ := Option.map_eq_some_iff.mp h
  obtain ⟨hs, he⟩ := Connector.enter_eq hc
  rw [he] at hl
  exact ⟨hs, hl.symm⟩

theorem step_loopStep {l l' : ConnectorLoop} (hs : l.connector.stack = [])
    (h : l.loopStep = some l') : ConnectorLoopStep l .next l' := by
  unfold loopStep at h
  split at h
  · rw [← Option.some.inj h]
    exact .phase hs
  · rw [← Option.some.inj h]
    exact .phase hs
  · rw [← Option.some.inj h]
    exact .phase hs
  · split at h
    · exact absurd h (by simp)
    · rename_i f rest hq
      obtain ⟨c, hc, hl⟩ := Option.map_eq_some_iff.mp h
      rw [← hl]
      cases f with
      | start =>
        rw [(Connector.enter_eq hc).2]
        exact .functor hq hs (.inl ⟨rfl, rfl⟩)
      | stop =>
        rw [(Connector.enter_eq hc).2]
        exact .functor hq hs (.inr ⟨rfl, rfl⟩)
      | resetChannel =>
        rw [(Connector.enter_eq hc).2]
        exact .reset hq hs

/-- A step is one of these, and only before an assertion has failed. -/
theorem step_cases {l l' : ConnectorLoop} {a : Label} (h : l.step a = some l') :
    l.connector.failed = none ∧ ConnectorLoopStep l a l' := by
  unfold step at h
  split at h
  · exact absurd h (by simp)
  · rename_i hf
    refine ⟨by simpa using hf, ?_⟩
    cases a with
    | start =>
      obtain ⟨hs, he⟩ := enter_eq h
      rw [he]
      exact .start hs
    | stop =>
      obtain ⟨hs, he⟩ := enter_eq h
      rw [he]
      exact .stop hs
    | closed restart =>
      dsimp only at h
      split at h
      · exact absurd h (by simp)
      · rename_i ho
        cases restart with
        | false =>
          rw [← Option.some.inj h]
          exact .closed ho
        | true =>
          obtain ⟨hs, he⟩ := enter_eq h
          rw [he]
          exact .restart ho hs
    | threadAssign start =>
      rw [← Option.some.inj h]
      exact .threadAssign start
    | threadQueue start =>
      rw [← Option.some.inj h]
      exact .threadQueue start
    | run a =>
      obtain ⟨⟨c, out⟩, hc, hl⟩ := Option.map_eq_some_iff.mp h
      rw [← hl]
      exact .run (Connector.step_cases hc)
    | clock now =>
      obtain ⟨hle, h⟩ := Option.ite_none_right_eq_some.mp h
      rw [← Option.some.inj h]
      exact .clock hle
    | next =>
      obtain ⟨hs, h⟩ := Option.ite_none_right_eq_some.mp h
      exact step_loopStep hs h
    | timer k =>
      dsimp only at h
      split at h
      · rename_i now when hp hk
        split at h
        · obtain ⟨hs, he⟩ := enter_eq h
          rw [he]
          exact .timer hk hs
        · exact absurd h (by simp)
      · exact absurd h (by simp)
    | event error writable =>
      obtain ⟨hr, h⟩ := Option.ite_none_right_eq_some.mp h
      obtain ⟨hs, he⟩ := enter_eq h
      rw [he]
      exact .event hs hr.2

/-- A step inside the connector is one of a frame. -/
theorem stack_of_run {l l' : ConnectorLoop} {a : Connector.Label}
    (h : l.step (.run a) = some l') : l.connector.stack ≠ [] := by
  intro hn
  unfold step at h
  split at h
  · exact absurd h (by simp)
  · obtain ⟨r, hr, _⟩ := Option.map_eq_some_iff.mp h
    cases a <;> simp [Connector.step, Connector.next, hn] at hr

end ConnectorLoop

end Windz
