import Windz.Base.ThreadPool

/-!
# What a step of a pool can do

A thread that comes to the queue makes a move there, with its place in the pool set; every
other step leaves the queue alone.
-/

namespace Windz

open Lib Lib.Monitor

namespace ThreadPool

variable {ι : Type}

/-- A thread is about to take a step at the queue; `v` is the pool with its place set. -/
inductive Prepared (w : ThreadPool ι) :
    Move (QueueCall (Option ι)) PoolThread → ThreadPool ι → Prop where
  | wakeUp (hpc : w.pc = .waking) :
      Prepared w (.call .owner .wakeUp none) { w with pc := .joining w.first }
  | restore (hpc : w.pc = .restoring) :
      Prepared w (.call .owner .restore none) { w with pc := .idle }
  | pop {i : Nat} {u : Option PoolThread} (h : w.workers[i]? = some .popping) :
      Prepared w (.call (.worker i) .pop u) (w.setWorker i .inPop)
  | addTask {t : PoolThread} {task : Option ι} {u : Option PoolThread} (h : w.canAdd t = true) :
      Prepared w (.call t (.push task) u) w
  | resume {t : PoolThread} {u : Option PoolThread} : Prepared w (.resume t u) w
  | spurious {t : PoolThread} : Prepared w (.spurious t) w

/-- What a step does: a move at the queue, or one of a thread outside it. -/
inductive PoolStep (w : ThreadPool ι) : ThreadPool ι → Prop where
  | queue {v : ThreadPool ι} {m : Move (QueueCall (Option ι)) PoolThread}
      {q : BlockingQueue.Calls (Option ι) PoolThread} {r : Option (QueueReturn (Option ι))}
      (hp : Prepared w m v)
      (h : Lib.Monitor.Step (BlockingQueue.monitor (Option ι)) v.queue m q r) :
      PoolStep w { v with queue := q, workers := returned v.workers m.thread r }
  | setQueueMaxSize (maxsize : Nat) :
      PoolStep w { w with queue := { w.queue with shared := { w.queue.shared with maxsize } } }
  | start {n : Nat} (hpc : w.pc = .idle) : PoolStep w { w with running := true, pc := .starting n }
  | fails : PoolStep w { w with failed := true }
  | createThread {left : Nat} {pc : WorkerPc ι} (hpc : w.pc = .starting (left + 1))
      (h : pc = .check ∨ pc = .notStarted) :
      PoolStep w { w with workers := w.workers ++ [pc], pc := .starting left }
  | startReturns (hpc : w.pc = .starting 0) : PoolStep w { w with pc := .idle }
  | stop (hpc : w.pc = .idle) : PoolStep w { w with running := false, pc := .waking }
  | join {i : Nat} (hpc : w.pc = .joining i) (h : w.workers[i]? = some .finished) :
      PoolStep w { w with pc := .joining (i + 1) }
  | joined {i : Nat} (hpc : w.pc = .joining i) (h : w.workers[i]? = none) :
      PoolStep w { w with first := w.workers.length, pc := .restoring }
  | check {i : Nat} {pc : WorkerPc ι} (h : w.workers[i]? = some .check)
      (hpc : pc = .popping ∨ pc = .finished) : PoolStep w (w.setWorker i pc)
  | startTask {i : Nat} {task : ι} (h : w.workers[i]? = some (.got (some task))) :
      PoolStep w { w.setWorker i (.inTask task) with started := w.started ++ [(i, task)] }
  | noTask {i : Nat} (h : w.workers[i]? = some (.got none)) : PoolStep w (w.setWorker i .check)
  | taskReturns {i : Nat} {task : ι} (h : w.workers[i]? = some (.inTask task))
      (hb : w.queue.busy (.worker i) = false) : PoolStep w (w.setWorker i .check)

theorem queueStep_cases {w v w' : ThreadPool ι} {m : Move (QueueCall (Option ι)) PoolThread}
    (hp : Prepared w m v) (h : v.queueStep m = some w') : PoolStep w w' := by
  obtain ⟨⟨q, r⟩, hs, he⟩ := Option.map_eq_some_iff.mp h
  rw [← he]
  exact .queue hp (step_cases hs)

theorem pool_step_cases {w w' : ThreadPool ι} {a : Label ι} (h : w.step a = some w') :
    PoolStep w w' := by
  unfold step at h
  split at h
  · cases h
  cases a with
  | setQueueMaxSize maxsize =>
    cases (Option.ite_none_right_eq_some.mp h).2
    exact .setQueueMaxSize maxsize
  | start n =>
    obtain ⟨hpc, h⟩ := Option.ite_none_right_eq_some.mp h
    split at h
    · cases h; exact .start hpc
    · cases h; exact .fails
  | createThread ok =>
    dsimp only at h
    split at h
    · rename_i left hpc
      cases h
      refine .createThread hpc ?_
      cases ok
      · exact .inr rfl
      · exact .inl rfl
    · cases h
  | startReturns =>
    obtain ⟨hpc, h⟩ := Option.ite_none_right_eq_some.mp h
    cases h
    exact .startReturns hpc
  | stop =>
    obtain ⟨hpc, h⟩ := Option.ite_none_right_eq_some.mp h
    cases h
    exact .stop hpc
  | wakeUp =>
    obtain ⟨hpc, h⟩ := Option.ite_none_right_eq_some.mp h
    exact queueStep_cases (.wakeUp hpc) h
  | join =>
    dsimp only at h
    split at h
    · rename_i i hpc
      split at h
      · rename_i hi
        cases h
        exact .join hpc hi
      · cases h; exact .fails
      · cases h
      · rename_i hi
        cases h
        exact .joined hpc hi
    · cases h
  | restore =>
    obtain ⟨hpc, h⟩ := Option.ite_none_right_eq_some.mp h
    exact queueStep_cases (.restore hpc) h
  | check i =>
    dsimp only at h
    split at h
    · rename_i hi
      cases h
      refine .check hi ?_
      cases w.running
      · exact .inr rfl
      · exact .inl rfl
    · cases h
  | pop i u =>
    dsimp only at h
    split at h
    · rename_i hi
      exact queueStep_cases (.pop hi) h
    · cases h
  | testTask i =>
    dsimp only at h
    split at h
    · rename_i task hi
      cases h
      exact .startTask hi
    · rename_i hi
      cases h
      exact .noTask hi
    · cases h
  | taskReturns i =>
    dsimp only at h
    split at h
    · rename_i task hi
      split at h
      · cases h
      · rename_i hb
        cases h
        exact .taskReturns hi (Bool.eq_false_iff.mpr hb)
    · cases h
  | addTask t task u =>
    obtain ⟨hadd, h⟩ := Option.ite_none_right_eq_some.mp h
    exact queueStep_cases (.addTask hadd) h
  | resume t u => exact queueStep_cases .resume h
  | spurious t => exact queueStep_cases .spurious h

end ThreadPool

end Windz
