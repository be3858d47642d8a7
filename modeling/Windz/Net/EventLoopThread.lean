import Mathlib.Algebra.Group.Nat.Defs
import Mathlib.Logic.Function.Basic
import Windz.Net.EventLoop

/-!
# `EventLoopThread`

An `EventLoop` in a thread of its own, `net/EventLoopThread.cpp`: the owner, which
calls `Start` and in the end the destructor; the new thread in `ThreadFunc`; and other
threads that have been given the pointer `Start` returned. Each access to `loop_` and
to `quit_` is a step.
-/

namespace Windz

open Lib

/-- Where the new thread stands in `ThreadFunc`. -/
inductive ThreadFuncPc where
  | notStarted
  /-- `loop` is constructed; before `loop_.Reset(&loop)`. -/
  | publishing
  -- before `loop.Loop()`, and inside it
  | entering
  | looping
  -- before `loop_.Reset(nullptr)`
  | clearing
  | finished
deriving DecidableEq

/-- Where the owner stands. -/
inductive LoopOwnerPc where
  | created
  /-- In `Start`, in `cond_.Wait`. -/
  | waiting
  /-- `Start` has returned. -/
  | started
  -- in the destructor: before the test of `loop_`, before `loop_->Quit()`, before `thread_.Join()`
  | testing
  | quitting
  | joining
  | destroyed
deriving DecidableEq

/-- An `EventLoopThread`, its thread and its owner. -/
structure EventLoopThread where
  /-- The thread of the owner. -/
  ownerTid : ThreadId
  /-- The loop, once it is constructed. -/
  loop : EventLoop
  /-- `loop_` is not null. -/
  hasLoop : Bool
  /-- Where the new thread stands. -/
  pc : ThreadFuncPc
  /-- Where the owner stands. -/
  owner : LoopOwnerPc
  /-- `Start` has returned the pointer, so any thread may have it. -/
  returned : Bool

namespace EventLoopThread

/-- The constructor, in thread `ownerTid`; the new thread will be `tid`. -/
def create (tid ownerTid : ThreadId) : EventLoopThread :=
  { ownerTid, loop := .create tid, hasLoop := false, pc := .notStarted, owner := .created
    returned := false }

/-- Thread `t` can call the loop: it has the pointer, and the loop is there. -/
def canCall (w : EventLoopThread) (t : ThreadId) : Bool :=
  w.returned ∧ w.pc ≠ .finished ∧ (t = w.loop.tid → w.pc = .looping)

/-- Who can take a step of the loop. `Loop` and `Quit` have labels of their own. -/
def canStep (w : EventLoopThread) : EventLoop.Label → Bool
  | .loop | .quit _ => false
  | .queueInLoop t => w.canCall t
  | .afterQueue _ => true
  | .epollWait _ | .epollReturns _ | .next => w.pc = .looping

/-- The steps of the owner, of the new thread and at the loop. -/
inductive Label where
  -- the owner
  | start
  | startReturns
  | destroy
  | testLoop
  | ownerQuit
  | join
  -- the new thread in `ThreadFunc`
  | publish
  | enterLoop
  | loopReturns
  | clear
  -- a step at the loop, and `Quit` through the pointer
  | loop (a : EventLoop.Label)
  | quit (t : ThreadId)
deriving DecidableEq

/-- A step at the loop. -/
def stepLoop (w : EventLoopThread) (a : EventLoop.Label) : Option EventLoopThread :=
  (w.loop.step a).map fun loop => { w with loop }

/-- One step, `none` where it is not enabled. -/
def step (w : EventLoopThread) (a : Label) : Option EventLoopThread :=
  match a with
  | .start =>
      if w.owner = .created then some { w with owner := .waiting, pc := .publishing } else none
  | .startReturns =>
      if w.owner = .waiting ∧ w.hasLoop then some { w with owner := .started, returned := true }
      else none
  | .destroy =>
      if w.owner = .created ∨ w.owner = .started then some { w with owner := .testing } else none
  | .testLoop =>
      if w.owner = .testing then
        some { w with owner := if w.hasLoop then .quitting else .destroyed }
      else none
  -- `loop_` is read again; nothing is said of a pointer that is null by now
  | .ownerQuit =>
      if w.owner = .quitting ∧ w.hasLoop then
        ({ w with owner := .joining }).stepLoop (.quit w.ownerTid)
      else none
  | .join =>
      if w.owner = .joining ∧ w.loop.threads w.ownerTid = .idle ∧ w.pc = .finished then
        some { w with owner := .destroyed }
      else none
  | .publish =>
      if w.pc = .publishing then some { w with hasLoop := true, pc := .entering } else none
  | .enterLoop =>
      if w.pc = .entering then ({ w with pc := .looping }).stepLoop .loop else none
  | .loopReturns =>
      if w.pc = .looping ∧ w.loop.pc = .outside then some { w with pc := .clearing } else none
  | .clear =>
      if w.pc = .clearing then some { w with hasLoop := false, pc := .finished } else none
  | .loop a => if w.canStep a then w.stepLoop a else none
  | .quit t => if w.canCall t then w.stepLoop (.quit t) else none

/-- An owner that is not the thread of the loop. -/
def machine (tid ownerTid : ThreadId) : Machine EventLoopThread Label where
  init := fun w => w = create tid ownerTid ∧ ownerTid ≠ tid
  step := step

end EventLoopThread

end Windz
