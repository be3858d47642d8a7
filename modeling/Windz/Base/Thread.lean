import Windz.Base.CountDownLatch

/-!
# `Thread`

`base/Thread.cpp`: the thread that owns the object, in `Start`, `Join` and the destructor,
and the new thread in `StartThread`. What the two share are the members `tid_` and `latch_`,
to which the new thread has pointers in its `ThreadData`, and that `ThreadData` itself,
allocated by `Start` and deleted by the new thread, or by `Start` when there is none.

Whether an object is still there is part of the state, and a use of one that is gone is a
fault, behind which nothing is said; so is a failed assertion. The assertions of `Start` and
`Join` are the only thing the owner is asked for: it may destroy the object whenever it is
in none of its functions.
-/

namespace Windz

open Lib Lib.Monitor

/-- The threads at `latch_`. -/
inductive ThreadParty where
  | owner
  | runner
deriving DecidableEq

/-- Where the owner stands. -/
inductive StarterPc where
  | outside
  -- in `Start`: before `pthread_create`, before `latch_.Wait()`, and inside it
  | creating
  | beforeWait
  | inWait
  -- in `pthread_join`
  | joining
  | destroyed
deriving DecidableEq

/-- Where the new thread stands. -/
inductive RunnerPc where
  | notCreated
  -- in `RunInThread`: before `*tid_ = …`, `latch_->CountDown()`, the name, `func_()`; inside
  -- that; before the last name
  | storing
  | counting
  | naming
  | calling
  | inFunc
  | lastNaming
  -- before `delete data`
  | deleting
  | gone
deriving DecidableEq

/-- What `currentthread::t_name` of the new thread points to. -/
inductive NamePtr where
  | unknown
  | default
  | finished
  /-- `name_.c_str()` of its `ThreadData`. -/
  | data
deriving DecidableEq

/-- What was used behind its destructor: the `Thread`, or the `ThreadData`. -/
inductive ThreadFault where
  | threadGone
  | dataGone
deriving DecidableEq

/-- The members that change. -/
structure Thread where
  /-- `started_`. -/
  started : Bool
  /-- `joined_`. -/
  joined : Bool
  /-- `tid_`. -/
  tid : Nat
  /-- `latch_`, with the threads in a call of it. -/
  latch : CountDownLatch.Calls ThreadParty

/-- `Thread(func, name)`. -/
def Thread.create : Thread :=
  { started := false, joined := false, tid := 0, latch := .init (.create 1) }

/-- A `Thread`, its owner and the new thread. -/
structure ThreadRun where
  /-- `name_` is not empty. -/
  named : Bool
  /-- The object, none behind its destructor. -/
  thread : Option Thread
  /-- Where the owner stands. -/
  starter : StarterPc
  /-- Where the new thread stands. -/
  runner : RunnerPc
  /-- The id of the new thread. -/
  runnerTid : Nat
  /-- Its `t_name`. -/
  tName : NamePtr
  /-- The `ThreadData` allocated so far, and whether they are there; the pointers are to the last
  one. -/
  heap : List Bool
  /-- An assertion has failed. -/
  failed : Bool
  /-- Something was used that is gone. -/
  fault : Option ThreadFault
  /-- Ghost: what the calls of `Start` have returned. -/
  results : List Bool
  /-- Ghost: the threads created. -/
  created : Nat
  /-- Ghost: the threads joined or detached. -/
  released : Nat
  /-- Ghost: how often `func_` was called. -/
  calls : Nat

namespace ThreadRun

/-- A `Thread` that was made with a name, or without. -/
def create (named : Bool) : ThreadRun :=
  { named, thread := some .create, starter := .outside, runner := .notCreated, runnerTid := 0
    tName := .unknown, heap := [], failed := false, fault := none, results := [], created := 0
    released := 0, calls := 0 }

/-- A use of the `ThreadData`. -/
def onData (w : ThreadRun) (next : Option ThreadRun) : Option ThreadRun :=
  if w.heap.getLast? = some true then next else some { w with fault := some .dataGone }

/-- A use of the `Thread`. -/
def onThread (w : ThreadRun) (next : Thread → Option ThreadRun) : Option ThreadRun :=
  match w.thread with
  | some th => next th
  | none => some { w with fault := some .threadGone }

/-- `delete data`. -/
def deleteData (w : ThreadRun) : ThreadRun := { w with heap := w.heap.dropLast ++ [false] }

/-- `Start` up to `pthread_create`. -/
def start (w : ThreadRun) (th : Thread) : ThreadRun :=
  if th.started then { w with failed := true }
  else
    { w with
      thread := some { th with started := true }
      heap := w.heap ++ [true]
      starter := .creating }

/-- `pthread_create`, which makes a thread of the id given or fails. -/
def pthreadCreate (w : ThreadRun) (th : Thread) : Option Nat → Option ThreadRun
  | some tid =>
      some { w with
        runner := .storing, runnerTid := tid, tName := .unknown, starter := .beforeWait
        created := w.created + 1 }
  | none =>
      w.onData (some { w.deleteData with
        thread := some { th with started := false }
        starter := .outside
        results := w.results ++ [false] })

/-- A step of the owner at `latch_`; when it returns from `Wait`, `Start` returns. -/
def latchStep (w : ThreadRun) (th : Thread) (m : Move LatchCall ThreadParty) : Option ThreadRun :=
  (CountDownLatch.monitor.step th.latch m).map fun (latch, r) =>
    let w := { w with thread := some { th with latch } }
    match r with
    | some () => { w with starter := .outside, results := w.results ++ [true] }
    | none => { w with starter := .inWait }

/-- `Join`, with its assertion. -/
def join (w : ThreadRun) (th : Thread) : ThreadRun :=
  if th.started ∧ !th.joined then
    { w with thread := some { th with joined := true }, starter := .joining }
  else { w with failed := true }

/-- `~Thread`; `pthread_detach` when the thread was started and not joined. -/
def destroy (w : ThreadRun) (th : Thread) : ThreadRun :=
  { w with
    thread := none
    starter := .destroyed
    released := if th.started ∧ !th.joined then w.released + 1 else w.released }

/-- The new thread goes on. -/
def runnerStep (w : ThreadRun) : Option ThreadRun :=
  match w.runner with
  | .notCreated | .inFunc | .gone => none
  | .storing => w.onData (w.onThread fun th =>
      some { w with thread := some { th with tid := w.runnerTid }, runner := .counting })
  | .counting => w.onData (w.onThread fun th =>
      (CountDownLatch.monitor.step th.latch (.call .runner .countDown none)).map fun (latch, _) =>
        { w with thread := some { th with latch }, runner := .naming })
  | .naming => w.onData (some { w with
      tName := if w.named then .data else .default, runner := .calling })
  | .calling => w.onData (some { w with runner := .inFunc, calls := w.calls + 1 })
  | .lastNaming => some { w with tName := .finished, runner := .deleting }
  | .deleting => w.onData (some { w.deleteData with runner := .gone })

/-- The steps of the owner and of the new thread. -/
inductive Label where
  -- the owner
  | start
  | pthreadCreate (tid : Option Nat)
  | wait
  | resumeWait
  | spurious
  | join
  | joinReturns
  | destroy
  -- the new thread, and the end of `func_`
  | runner
  | funcReturns
deriving DecidableEq

/-- One step, `none` where it is not enabled. -/
def step (w : ThreadRun) (a : Label) : Option ThreadRun :=
  if w.failed ∨ w.fault.isSome then none else
  match a with
  | .start => if w.starter = .outside then w.onThread fun th => some (w.start th) else none
  | .pthreadCreate tid =>
      if w.starter = .creating then w.onThread fun th => w.pthreadCreate th tid else none
  | .wait =>
      if w.starter = .beforeWait then w.onThread fun th => w.latchStep th (.call .owner .wait none)
      else none
  | .resumeWait =>
      if w.starter = .inWait then w.onThread fun th => w.latchStep th (.resume .owner none)
      else none
  | .spurious =>
      if w.starter = .inWait then w.onThread fun th => w.latchStep th (.spurious .owner) else none
  | .join => if w.starter = .outside then w.onThread fun th => some (w.join th) else none
  | .joinReturns =>
      if w.starter = .joining ∧ w.runner = .gone then
        some { w with starter := .outside, released := w.released + 1 }
      else none
  | .destroy => if w.starter = .outside then w.onThread fun th => some (w.destroy th) else none
  | .runner => w.runnerStep
  | .funcReturns => if w.runner = .inFunc then some { w with runner := .lastNaming } else none

/-- A new `Thread`, with a name or without. -/
def machine : Machine ThreadRun Label where
  init := fun w => ∃ named, w = create named
  step := step

end ThreadRun

end Windz
