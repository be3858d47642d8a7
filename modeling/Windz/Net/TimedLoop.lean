import Windz.Net.EventLoopSteps
import Windz.Net.Timer

/-!
# `EventLoop` and its timers

The loop of `net/EventLoop.cpp` together with its `timer_manager_`: `epoll_wait` waits
for what `NextTimeout` finds in the heap, and `HandleExpired` is called in every
iteration. Timers are added and cancelled by user code in the loop thread, and by the
functors that other threads queue for it.

Ghosts: whether `epoll_wait` is still to be entered for the first time since `Loop` was
called, whether a `WakeUp` was performed that `HandleRead` has not yet read, which
functors the loop's own thread queued while `Loop` was not running, and with which of
these in the queue `epoll_wait` was entered although it may block.
-/

namespace Windz

open Lib

namespace TimerManager

/-- `NextTimeout`, the clock reading `now`. -/
def nextTimeout (w : TimerManager) (now : Timestamp) : Int :=
  match w.heap with
  | [] => Int64.maxValue.toInt
  | entry :: _ =>
      let timeout := (w.when entry).sub now
      if timeout < ⟨0⟩ then 0 else timeout.milliseconds

/-- The timer on top of the heap is less than a millisecond ahead. -/
def Due (w : TimerManager) (now : Timestamp) : Prop :=
  ∃ entry ∈ w.heap.head?, (w.when entry).sub now < ⟨Duration.kMillisecond⟩

end TimerManager

/-- A loop with its timers. -/
structure TimedLoop where
  /-- The loop. -/
  loop : EventLoop
  /-- Its `timer_manager_`. -/
  timers : TimerManager
  /-- Ghost: this run of `Loop` has not yet been in `epoll_wait`. -/
  first : Bool
  /-- Ghost: a `WakeUp` was performed that the loop has not read. -/
  wokenUp : Bool
  /-- Ghost: the functors that the loop's own thread pushed while `Loop` was not running. -/
  outside : List Functor
  /-- Ghost: those of them that were in the queue when `epoll_wait` was entered to block. -/
  blocked : List Functor

namespace TimedLoop

/-- A loop of thread `tid`, with no timer. -/
def create (tid : ThreadId) : TimedLoop :=
  { loop := .create tid, timers := .create, first := false, wokenUp := false, outside := []
    blocked := [] }

/-- The steps of the loop, of its timers, and `epoll_wait` between them. -/
inductive Label where
  | loop (a : EventLoop.Label)
  | timers (b : TimerManager.Label)
  -- `epoll_wait` and `HandleExpired` are called, the clock reading `now`
  | epollWait (now : Timestamp)
  | handleExpired (now : Timestamp)
deriving DecidableEq

/-- User code runs in the loop thread; in `HandleExpired` that is a callback. -/
def userCode (s : TimedLoop) : Bool :=
  s.loop.threads s.loop.tid = .idle ∧ s.loop.userCode
    ∧ (s.loop.pc = .expiring → s.timers.phase ≠ .idle)

/-- The step of the loop can be taken by itself. -/
def mayLoop (s : TimedLoop) : EventLoop.Label → Bool
  | .epollWait _ => false
  | .queueInLoop t | .quit t => t = s.loop.tid → s.userCode
  | .next => s.loop.pc ≠ .handling [] ∧ (s.loop.pc = .expiring → s.timers.phase = .idle)
  | .afterQueue _ | .loop | .epollReturns _ => true

/-- The loop is where the step of its timers is taken. -/
def mayTimers (s : TimedLoop) : TimerManager.Label → Bool
  | .addTimer inLoop _ _ | .cancel inLoop _ => inLoop → s.userCode
  | .functor =>
      match s.loop.pc with
      | .inFunctor _ => true
      | _ => false
  | .iterate | .callbackReturns _ => s.loop.pc = .expiring
  | .handleExpired _ => false

/-- `epoll_wait` has been entered, nothing is readable, and it has a time to wait. -/
def mayBlock (w : EventLoop) : Bool :=
  match w.pc with
  | .waiting waitms => w.wakeupFd = 0 ∧ waitms ≠ 0
  | _ => false

/-- A step of the loop, with its ghosts. -/
def setLoop (s : TimedLoop) (a : EventLoop.Label) (loop : EventLoop) : TimedLoop :=
  match a with
  | .queueInLoop t =>
      { s with
        loop
        outside := s.outside ++
          if t = s.loop.tid ∧ s.loop.pc = .outside then [s.loop.pushers.length] else [] }
  | .afterQueue t => { s with loop, wokenUp := s.wokenUp || s.loop.wakesUp t }
  | .loop => { s with loop, first := true }
  | .epollWait _ =>
      { s with
        loop
        first := false
        blocked := s.blocked ++
          if mayBlock loop then loop.pendingFunctors.queue.filter (· ∈ s.outside) else [] }
  | .next => { s with loop, wokenUp := s.wokenUp && !s.loop.readsWakeUp }
  | .quit _ | .epollReturns _ => { s with loop }

/-- One step, `none` where it is not enabled. -/
def step (s : TimedLoop) (a : Label) : Option TimedLoop :=
  if s.timers.fault.isSome then none else
  match a with
  | .loop a => if s.mayLoop a then (s.loop.step a).map (s.setLoop a) else none
  | .timers b =>
      if s.mayTimers b then (s.timers.step b).map fun timers => { s with timers } else none
  | .epollWait now =>
      let a := .epollWait (s.timers.nextTimeout now)
      (s.loop.step a).map (s.setLoop a)
  | .handleExpired now =>
      if s.loop.pc = .handling [] then
        (s.timers.step (.handleExpired now)).bind fun timers =>
          (s.loop.step .next).map ({ s with timers }.setLoop .next)
      else none

/-- A loop with its timers, from the constructor on. -/
def machine (tid : ThreadId) : Machine TimedLoop Label where
  init := (· = create tid)
  step := step

end TimedLoop

end Windz
