import Windz.Base.QueueMonitor

/-!
# `ThreadPool`

The pool of `base/ThreadPool.cpp`: the thread that owns it, which starts and stops it
any number of times, its workers, and any other threads, which add tasks. A task may
add tasks as well. Workers, `Start` and `Stop` take a step for each access to
`running_`, for each call of the queue, and for each thread created or joined.

A `std::function` that holds nothing is `none`. Every worker ever made has a number;
those of `threads_` are the ones from `first` on.
-/

namespace Windz

open Lib Lib.Monitor

/-- A thread that can be met at the queue; `owner` is the one in `Start` and `Stop`. -/
inductive PoolThread where
  | owner
  | worker (i : Nat)
  | other (t : Nat)
deriving DecidableEq

/-- Where a worker stands in `ThreadFunc`. -/
inductive WorkerPc (ι : Type) where
  /-- `pthread_create` has failed. -/
  | notStarted
  /-- Before `while (running_)`. -/
  | check
  -- before `queue_.Pop()`, and inside it
  | popping
  | inPop
  -- before `if (task)`, and in the task
  | got (task : Option ι)
  | inTask (task : ι)
  | finished
deriving DecidableEq

/-- Where the owner stands. -/
inductive PoolPc where
  | idle
  /-- In `Start`, with this many threads to go. -/
  | starting (left : Nat)
  -- in `Stop`: before `queue_.WakeUp()`, before joining thread `i`, before `queue_.Restore()`
  | waking
  | joining (i : Nat)
  | restoring
deriving DecidableEq

/-- A pool, its workers and the thread that owns it. -/
structure ThreadPool (ι : Type) where
  /-- `running_`. -/
  running : Bool
  /-- `queue_`, with the threads in a call of it. -/
  queue : BlockingQueue.Calls (Option ι) PoolThread
  /-- Every worker ever made. -/
  workers : List (WorkerPc ι)
  /-- The first of those in `threads_`. -/
  first : Nat
  /-- Where the owner stands. -/
  pc : PoolPc
  /-- An assertion has failed. -/
  failed : Bool
  /-- Ghost: the tasks that were started, with the worker. -/
  started : List (Nat × ι)

namespace ThreadPool

variable {ι : Type}

/-- A pool that was never started. -/
def create (ι : Type) (maxsize : Nat) : ThreadPool ι :=
  { running := false, queue := .init (.create (Option ι) maxsize), workers := [], first := 0
    pc := .idle, failed := false, started := [] }

/-- Worker `i` goes on to `pc`. -/
def setWorker (w : ThreadPool ι) (i : Nat) (pc : WorkerPc ι) : ThreadPool ι :=
  { w with workers := w.workers.set i pc }

/-- The workers after thread `t` has returned from a call of the queue. -/
def returned (workers : List (WorkerPc ι)) (t : PoolThread)
    (r : Option (QueueReturn (Option ι))) : List (WorkerPc ι) :=
  match t, r with
  | .worker i, some (.popped task) => workers.set i (.got task)
  | .worker i, some .notPopped => workers.set i (.got none)
  | _, _ => workers

/-- A step at the queue. -/
def queueStep (w : ThreadPool ι) (m : Move (QueueCall (Option ι)) PoolThread) :
    Option (ThreadPool ι) :=
  ((BlockingQueue.monitor (Option ι)).step w.queue m).map fun (queue, r) =>
    { w with queue, workers := returned w.workers m.thread r }

/-- The thread can call `AddTask`. -/
def canAdd (w : ThreadPool ι) : PoolThread → Bool
  | .owner => false
  | .other _ => true
  | .worker i =>
      match w.workers[i]? with
      | some (.inTask _) => true
      | _ => false

/-- The steps of the owner, of the workers and of the threads that add tasks. -/
inductive Label (ι : Type) where
  -- the owner
  | setQueueMaxSize (maxsize : Nat)
  | start (threadNum : Nat)
  | createThread (ok : Bool)
  | startReturns
  | stop
  | wakeUp
  | join
  | restore
  -- worker `i`: the test of `running_`, the call of `Pop`, the test of the task, its return
  | check (i : Nat)
  | pop (i : Nat) (u : Option PoolThread)
  | testTask (i : Nat)
  | taskReturns (i : Nat)
  /-- Thread `t` calls `AddTask`. -/
  | addTask (t : PoolThread) (task : Option ι) (u : Option PoolThread)
  -- a thread goes on in a call of the queue, or wakes up for no reason
  | resume (t : PoolThread) (u : Option PoolThread)
  | spurious (t : PoolThread)
deriving DecidableEq

/-- One step, `none` where it is not enabled. -/
def step (w : ThreadPool ι) (a : Label ι) : Option (ThreadPool ι) :=
  if w.failed then none else
  match a with
  | .setQueueMaxSize maxsize =>
      if w.pc = .idle then
        some { w with queue := { w.queue with shared := { w.queue.shared with maxsize } } }
      else none
  | .start threadNum =>
      if w.pc = .idle then
        -- `assert(threads_.empty())`
        if w.first = w.workers.length then
          some { w with running := true, pc := .starting threadNum }
        else some { w with failed := true }
      else none
  | .createThread ok =>
      match w.pc with
      | .starting (left + 1) =>
          let pc : WorkerPc ι := if ok then .check else .notStarted
          some { w with workers := w.workers ++ [pc], pc := .starting left }
      | _ => none
  | .startReturns => if w.pc = .starting 0 then some { w with pc := .idle } else none
  | .stop => if w.pc = .idle then some { w with running := false, pc := .waking } else none
  | .wakeUp =>
      if w.pc = .waking then
        { w with pc := .joining w.first }.queueStep (.call .owner .wakeUp none)
      else none
  | .join =>
      match w.pc with
      | .joining i =>
          match w.workers[i]? with
          | some .finished => some { w with pc := .joining (i + 1) }
          -- `assert(started_)`
          | some .notStarted => some { w with failed := true }
          | some _ => none
          -- `threads_.clear()`
          | none => some { w with first := w.workers.length, pc := .restoring }
      | _ => none
  | .restore =>
      if w.pc = .restoring then
        { w with pc := .idle }.queueStep (.call .owner .restore none)
      else none
  | .check i =>
      match w.workers[i]? with
      | some .check => some (w.setWorker i (if w.running then .popping else .finished))
      | _ => none
  | .pop i u =>
      match w.workers[i]? with
      | some .popping => (w.setWorker i .inPop).queueStep (.call (.worker i) .pop u)
      | _ => none
  | .testTask i =>
      match w.workers[i]? with
      | some (.got (some task)) =>
          some { w.setWorker i (.inTask task) with started := w.started ++ [(i, task)] }
      | some (.got none) => some (w.setWorker i .check)
      | _ => none
  | .taskReturns i =>
      match w.workers[i]? with
      | some (.inTask _) =>
          if w.queue.busy (.worker i) then none else some (w.setWorker i .check)
      | _ => none
  | .addTask t task u => if w.canAdd t then w.queueStep (.call t (.push task) u) else none
  | .resume t u => w.queueStep (.resume t u)
  | .spurious t => w.queueStep (.spurious t)

/-- A pool whose queue has the bound given. -/
def machine (ι : Type) (maxsize : Nat) : Machine (ThreadPool ι) (Label ι) where
  init := (· = create ι maxsize)
  step := step

end ThreadPool

end Windz
