import Mathlib.Algebra.Group.Nat.Defs
import Mathlib.Logic.Function.Basic
import Windz.Base.BlockingQueue
import Windz.Lib.Machine

/-!
# `EventLoop`

`Loop` of `net/EventLoop.cpp` and the ways to hand it a functor. The loop thread
takes a step for each stretch of code between two points where another thread can
be observed: the test of `quit_`, `epoll_wait`, each handler, the timers, and in
`CallPendingFunctors` the call itself, `Size()`, each `Pop()` and the return of
each functor. A thread in `QueueInLoop` first pushes and then performs its
`WakeUp`, two steps; so does one in `Quit`.

A functor is its number in the order of the pushes. What functors, handlers and
timer callbacks do is open: while one runs, the loop thread may push as well.

Ghosts: who pushed each functor, which functors were called, and how many had been
pushed when `CallPendingFunctors` was entered and when it read the size.
-/

namespace Windz

open Lib

/-- The id of a thread. -/
abbrev ThreadId := Nat

/-- A functor, as its number in the order of the pushes. -/
abbrev Functor := Nat

/-- What `epoll_wait` reports: the eventfd, or another channel. -/
inductive ActiveChannel where
  | wakeup
  | other
deriving DecidableEq

/-- Where the loop thread stands. -/
inductive LoopPc where
  /-- `Loop` is not running. -/
  | outside
  /-- Before `while (!quit_)`. -/
  | check
  -- before `NextTimeout` and `epoll_wait`, and inside it
  | poll
  | waiting (waitms : Int)
  -- before the first of the active channels left, and in the handler of another channel
  | handling (active : List ActiveChannel)
  | inHandler (active : List ActiveChannel)
  /-- In `HandleExpired`. -/
  | expiring
  -- in `CallPendingFunctors`: before `pending_functors_calling_ = true`, before `Size()`
  | calling
  | sizing
  -- before the test of its loop with `left` rounds to go, and in a functor
  | popping (left : Nat)
  | inFunctor (left : Nat)
deriving DecidableEq

/-- Where a thread stands in `QueueInLoop` or `Quit`. -/
inductive QueuePc where
  | idle
  /-- `functor` is pushed, the `WakeUp` not yet performed or decided against. -/
  | pushed (functor : Functor)
  /-- `quit_` is set, `WakeUp` not yet performed. -/
  | quitting
deriving DecidableEq

/-- The largest value of an eventfd's counter. -/
def kEventFdMax : Nat := 2 ^ 64 - 2

/-- A loop, its thread and the threads that call it. -/
structure EventLoop where
  /-- `tid_`. -/
  tid : ThreadId
  /-- `quit_`. -/
  quit : Bool
  /-- `pending_functors_calling_`. -/
  pendingFunctorsCalling : Bool
  /-- `pending_functors_`. -/
  pendingFunctors : BlockingQueue Functor
  /-- The counter of `wakeup_fd_`. -/
  wakeupFd : Nat
  /-- Where the loop thread stands in `Loop`. -/
  pc : LoopPc
  /-- Where each thread stands in `QueueInLoop` or `Quit`. -/
  threads : ThreadId → QueuePc
  /-- Ghost: the thread that pushed each functor, oldest first. -/
  pushers : List ThreadId
  /-- Ghost: the functors called, oldest first. -/
  called : List Functor
  /-- Ghost: the functors pushed up to the last call of `CallPendingFunctors`. -/
  entered : Nat
  /-- Ghost: those pushed up to its `Size()`. -/
  sized : Nat

namespace EventLoop

/-- A loop of thread `tid`, outside `Loop`. -/
def create (tid : ThreadId) : EventLoop :=
  { tid, quit := false, pendingFunctorsCalling := false, pendingFunctors := .create Functor 0
    wakeupFd := 0, pc := .outside, threads := fun _ => .idle, pushers := [], called := []
    entered := 0, sized := 0 }

/-- Thread `t` goes on to `pc`. -/
def setThread (w : EventLoop) (t : ThreadId) (pc : QueuePc) : EventLoop :=
  { w with threads := Function.update w.threads t pc }

/-- `WakeUp`; at the largest value `write` fails and the counter stays. -/
def wakeUp (w : EventLoop) : EventLoop :=
  if w.wakeupFd < kEventFdMax then { w with wakeupFd := w.wakeupFd + 1 } else w

/-- `HandleRead`: reading an eventfd resets it. -/
def handleRead (w : EventLoop) : EventLoop := { w with wakeupFd := 0 }

/-- The first half of `QueueInLoop`, by thread `t`. -/
def queueInLoop (w : EventLoop) (t : ThreadId) : Option EventLoop :=
  (w.pendingFunctors.push w.pushers.length).map fun q =>
    { w.setThread t (.pushed w.pushers.length) with
      pendingFunctors := q, pushers := w.pushers ++ [t] }

/-- The second half of `QueueInLoop` or `Quit`. -/
def afterQueue (w : EventLoop) (t : ThreadId) : Option EventLoop :=
  match w.threads t with
  | .idle => none
  | .pushed _ =>
      let v := w.setThread t .idle
      some (if t ≠ w.tid ∨ w.pendingFunctorsCalling then v.wakeUp else v)
  | .quitting => some (w.setThread t .idle).wakeUp

/-- `Quit` up to its `WakeUp`. -/
def setQuit (w : EventLoop) (t : ThreadId) : EventLoop :=
  let w := { w with quit := true }
  if t ≠ w.tid then w.setThread t .quitting else w

/-- Code of the user runs in the loop thread. -/
def userCode (w : EventLoop) : Bool :=
  match w.pc with
  | .outside | .inHandler _ | .expiring | .inFunctor _ => true
  | .check | .poll | .waiting _ | .handling _ | .calling | .sizing | .popping _ => false

/-- One step of `Loop` that depends on nothing from outside. -/
def loopStep (w : EventLoop) : Option EventLoop :=
  match w.pc with
  | .check => some { w with pc := if w.quit then .outside else .poll }
  | .handling [] => some { w with pc := .expiring }
  | .handling (.wakeup :: rest) => some { w.handleRead with pc := .handling rest }
  | .handling (.other :: rest) => some { w with pc := .inHandler rest }
  | .inHandler rest => some { w with pc := .handling rest }
  | .expiring => some { w with pc := .calling, entered := w.pushers.length }
  | .calling => some { w with pendingFunctorsCalling := true, pc := .sizing }
  | .sizing =>
      some { w with pc := .popping w.pendingFunctors.size, sized := w.pushers.length }
  | .popping 0 => some { w with pendingFunctorsCalling := false, pc := .check }
  | .popping (left + 1) =>
      w.pendingFunctors.pop.map fun (func, q) =>
        { w with pendingFunctors := q, called := w.called ++ func.toList, pc := .inFunctor left }
  | .inFunctor left => some { w with pc := .popping left }
  | .outside | .poll | .waiting _ => none

/-- The steps of the loop thread and of the threads that call the loop. -/
inductive Label where
  -- thread `t` calls `QueueInLoop`, or `Quit`, and goes on in it
  | queueInLoop (t : ThreadId)
  | quit (t : ThreadId)
  | afterQueue (t : ThreadId)
  /-- `Loop` is called. -/
  | loop
  -- `epoll_wait` is entered with what `NextTimeout` gives, and returns
  | epollWait (nextTimeout : Int)
  | epollReturns (active : List ActiveChannel)
  /-- Any other step of the loop thread. -/
  | next
deriving DecidableEq

/-- A channel is reported only when it is readable. -/
def reportable (w : EventLoop) : ActiveChannel → Bool
  | .wakeup => w.wakeupFd ≠ 0
  | .other => true

/-- One step, `none` where it is not enabled. -/
def step (w : EventLoop) (a : Label) : Option EventLoop :=
  match a with
  | .queueInLoop t =>
      if w.threads t = .idle ∧ (t = w.tid → w.userCode) then w.queueInLoop t else none
  | .quit t =>
      if w.threads t = .idle ∧ (t = w.tid → w.userCode) then some (w.setQuit t) else none
  | .afterQueue t => w.afterQueue t
  | .loop =>
      if w.threads w.tid = .idle ∧ w.pc = .outside then some { w with quit := false, pc := .check }
      else none
  | .epollWait nextTimeout =>
      if w.pc = .poll then some { w with pc := .waiting (min 10000 nextTimeout) } else none
  | .epollReturns active =>
      match w.pc with
      | .waiting _ => if active.all w.reportable then some { w with pc := .handling active } else none
      | _ => none
  -- the loop thread finishes a `QueueInLoop` of its own first
  | .next => if w.threads w.tid = .idle then w.loopStep else none

/-- A loop from its constructor on. -/
def machine (tid : ThreadId) : Machine EventLoop Label where
  init := (· = create tid)
  step := step

end EventLoop

end Windz
