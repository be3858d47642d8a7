import Mathlib.Data.List.Basic
import Mathlib.Data.List.Perm.Basic
import Windz.Base.ThreadPoolSteps

/-!
# The tasks of a `ThreadPool`

What becomes of a task, over any number of starts and stops. The queue keeps the
order; a worker takes its next task only when it has started the one before; and
`Stop` only wakes the workers up, so the tasks they leave are there for the next.
-/

namespace Windz

open Lib Lib.Monitor

namespace ThreadPool

variable {ι : Type}

/-! ## What is kept -/

/-- The worker that took a task, and the task. -/
def takenTask : PoolThread × QueueCall (Option ι) × QueueReturn (Option ι) →
    Option (PoolThread × Option ι)
  | (t, .pop, .popped task) => some (t, task)
  | _ => none

/-- What was taken from the queue so far, and by whom. -/
def takes (w : ThreadPool ι) : List (PoolThread × Option ι) := w.queue.log.filterMap takenTask

/-- The tasks that worker `i` has taken, those that hold nothing left out. -/
def takenBy (w : ThreadPool ι) (i : Nat) : List ι :=
  w.takes.filterMap fun p => if p.1 = .worker i then p.2 else none

/-- The tasks that worker `i` has started. -/
def startedBy (w : ThreadPool ι) (i : Nat) : List ι :=
  w.started.filterMap fun p => if p.1 = i then some p.2 else none

/-- The task that a worker has taken and not yet started. -/
def WorkerPc.holds : Option (WorkerPc ι) → List ι
  | some (.got (some task)) => [task]
  | _ => []

/-- Who can be in which call. -/
def Legit (workers : List (WorkerPc ι)) : PoolThread → QueueCall (Option ι) → Prop
  | .owner, c => c = .wakeUp ∨ c = .restore
  | .other _, c => ∃ task, c = .push task
  | .worker i, c => c = .pop ∧ workers[i]? = some .inPop
      ∨ (∃ task, c = .push task) ∧ ∃ task, workers[i]? = some (.inTask task)

/-- The invariant, less what it says of `wakeup_`. -/
structure Core (w : ThreadPool ι) : Prop where
  single : w.queue.Single
  calls : ∀ p ∈ w.queue.calls, Legit w.workers p.1 p.2
  /-- `WakeUp` and `Restore` never wait. -/
  owner : ∀ p ∈ w.queue.calls, p.1 ≠ .owner
  awake : BlockingQueue.Awake w.queue
  order : BlockingQueue.taken w.queue ++ w.queue.shared.queue = BlockingQueue.accepted w.queue
  takers : ∀ p ∈ w.takes, ∃ i, p.1 = .worker i ∧ i < w.workers.length
  /-- A worker starts what it has taken before it takes more. -/
  turns : ∀ i, w.takenBy i = w.startedBy i ++ WorkerPc.holds w.workers[i]?
  ended : w.first ≤ w.workers.length ∧ ∀ i < w.first, w.workers[i]? = some .finished
  joined : ∀ i, w.pc = .joining i →
    i ≤ w.workers.length ∧ ∀ j < i, w.workers[j]? = some .finished

theorem Legit.set {workers : List (WorkerPc ι)} {t : PoolThread} {c : QueueCall (Option ι)} {i : Nat}
    {pc : WorkerPc ι} (h : Legit workers t c) (ht : t ≠ .worker i) : Legit (workers.set i pc) t c := by
  cases t with
  | owner => exact h
  | other t => exact h
  | worker j =>
    have hj : i ≠ j := fun he => ht (by rw [he])
    simpa only [Legit, List.getElem?_set_ne hj] using h

/-- A worker outside of the queue and of a task is in no call. -/
theorem Core.out {w : ThreadPool ι} (hc : Core w) {i : Nat} {pc : WorkerPc ι}
    (hi : w.workers[i]? = some pc) (hpop : pc ≠ .inPop) (htask : ∀ task, pc ≠ .inTask task) :
    ∀ p ∈ w.queue.calls, p.1 ≠ .worker i := by
  intro p hp he
  have hlegit := hc.calls p hp
  rw [he] at hlegit
  rcases hlegit with ⟨-, h⟩ | ⟨-, task, h⟩
  · exact hpop (Option.some.inj (hi.symm.trans h))
  · exact htask task (Option.some.inj (hi.symm.trans h))

/-- Whoever is in a call of the queue pushes or pops. -/
theorem Core.ordinary {w : ThreadPool ι} (hc : Core w) {t : PoolThread} {c : QueueCall (Option ι)}
    (h : (t, c) ∈ w.queue.calls) : BlockingQueue.Ordinary c := by
  have hlegit := hc.calls _ h
  cases t with
  | owner => exact absurd rfl (hc.owner _ h)
  | other t =>
    obtain ⟨task, he⟩ := hlegit
    rw [show c = .push task from he]
    trivial
  | worker i =>
    rcases hlegit with ⟨he, -⟩ | ⟨⟨task, he⟩, -⟩
    · rw [show c = .pop from he]
      trivial
    · rw [show c = .push task from he]
      trivial

theorem getElem?_set_finished {workers : List (WorkerPc ι)} {i j : Nat} {old pc : WorkerPc ι}
    (hi : workers[i]? = some old) (hold : old ≠ .finished) (hj : workers[j]? = some .finished) :
    (workers.set i pc)[j]? = some .finished := by
  by_cases he : i = j
  · rw [he, hj] at hi
    exact absurd (Option.some.inj hi).symm hold
  · rw [List.getElem?_set_ne he]
    exact hj

/-- Those that have finished stay so when another worker goes on. -/
theorem Core.finished_set {w : ThreadPool ι} (hc : Core w) {i : Nat} {old : WorkerPc ι}
    (pc : WorkerPc ι) (hi : w.workers[i]? = some old) (hold : old ≠ .finished) :
    (w.first ≤ (w.workers.set i pc).length
      ∧ ∀ j < w.first, (w.workers.set i pc)[j]? = some .finished)
    ∧ ∀ k, w.pc = .joining k → k ≤ (w.workers.set i pc).length
      ∧ ∀ j < k, (w.workers.set i pc)[j]? = some .finished := by
  rw [List.length_set]
  refine ⟨⟨hc.ended.1, fun j hj => getElem?_set_finished hi hold (hc.ended.2 j hj)⟩, fun k hk => ?_⟩
  obtain ⟨hle, hall⟩ := hc.joined k hk
  exact ⟨hle, fun j hj => getElem?_set_finished hi hold (hall j hj)⟩

/-- Worker `i` goes on to `pc`, having started the tasks in `new`. -/
theorem Core.setWorker {w : ThreadPool ι} (hc : Core w) {i : Nat} {old : WorkerPc ι}
    (pc : WorkerPc ι)
    (hi : w.workers[i]? = some old) (hold : old ≠ .finished)
    (hout : ∀ p ∈ w.queue.calls, p.1 ≠ .worker i) (new : List ι)
    (hnew : WorkerPc.holds (some old) = new ++ WorkerPc.holds (some pc)) :
    Core { w.setWorker i pc with started := w.started ++ new.map (Prod.mk i) } := by
  have hlt := (List.getElem?_eq_some_iff.mp hi).1
  obtain ⟨hended, hjoined⟩ := hc.finished_set pc hi hold
  refine { hc with calls := ?_, takers := ?_, turns := ?_, ended := hended, joined := hjoined }
  · exact fun p hp => (hc.calls p hp).set (hout p hp)
  · intro p hp
    obtain ⟨j, hj, hlt⟩ := hc.takers p hp
    refine ⟨j, hj, ?_⟩
    show j < (w.workers.set i pc).length
    rw [List.length_set]
    exact hlt
  · intro j
    show w.takenBy j = (w.started ++ new.map (Prod.mk i)).filterMap
      (fun p => if p.1 = j then some p.2 else none) ++ WorkerPc.holds (w.workers.set i pc)[j]?
    rw [List.filterMap_append, hc.turns j, List.filterMap_map]
    by_cases he : i = j
    · rw [← he, hi, List.getElem?_set_self hlt, hnew]
      have hall : new.filterMap ((fun p : Nat × ι => if p.1 = i then some p.2 else none)
          ∘ Prod.mk i) = new := by simp
      rw [hall, List.append_assoc]
      rfl
    · have hnone : new.filterMap ((fun p : Nat × ι => if p.1 = j then some p.2 else none)
          ∘ Prod.mk i) = [] := by simp [he]
      rw [hnone, List.getElem?_set_ne he, List.append_nil]
      rfl

/-- The place of a thread is set before its step at the queue. -/
theorem Core.prepared {w v : ThreadPool ι} {m : Move (QueueCall (Option ι)) PoolThread}
    (hc : Core w) (hp : Prepared w m v) :
    Core v ∧ ∀ t c u, m = .call t c u → Legit v.workers t c := by
  cases hp with
  | wakeUp hpc =>
    refine ⟨{ hc with joined := fun i hi => ?_ }, ?_⟩
    · cases hi
      exact hc.ended
    · rintro t c u ⟨⟩
      exact .inl rfl
  | restore hpc =>
    refine ⟨{ hc with joined := fun i hi => absurd hi (by simp) }, ?_⟩
    rintro t c u ⟨⟩
    exact .inr rfl
  | @pop i u h =>
    have hout := hc.out h (by simp) (by simp)
    refine ⟨?_, ?_⟩
    · have hset := hc.setWorker .inPop h (by simp) hout [] rfl
      rw [List.map_nil, List.append_nil] at hset
      exact hset
    · rintro t c u ⟨⟩
      refine .inl ⟨rfl, ?_⟩
      exact List.getElem?_set_self (List.getElem?_eq_some_iff.mp h).1
  | @addTask t task u h =>
    refine ⟨hc, ?_⟩
    rintro t c u ⟨⟩
    cases t with
    | owner => cases h
    | other t => exact ⟨task, rfl⟩
    | worker i =>
      refine .inr ⟨⟨task, rfl⟩, ?_⟩
      unfold canAdd at h
      dsimp only at h
      split at h
      · rename_i task' hi
        exact ⟨task', hi⟩
      · cases h
  | resume => exact ⟨hc, fun _ _ _ he => by cases he⟩
  | spurious => exact ⟨hc, fun _ _ _ he => by cases he⟩

/-- What a step at the queue means for the workers: nothing, or one of them returns from `Pop`. -/
theorem Core.outcome {v : ThreadPool ι} {m : Move (QueueCall (Option ι)) PoolThread}
    {q : BlockingQueue.Calls (Option ι) PoolThread} {r : Option (QueueReturn (Option ι))}
    (hc : Core v) (hnew : ∀ t c u, m = .call t c u → Legit v.workers t c)
    (h : Lib.Monitor.Step (BlockingQueue.monitor (Option ι)) v.queue m q r) :
    (returned v.workers m.thread r = v.workers
      ∧ q.log.filterMap takenTask = v.queue.log.filterMap takenTask)
    ∨ ∃ i task x, r = some x ∧ m.thread = .worker i ∧ v.workers[i]? = some .inPop
      ∧ returned v.workers m.thread r = v.workers.set i (.got task)
      ∧ (q.log.filterMap takenTask = v.queue.log.filterMap takenTask ++ [(.worker i, task)]
        ∨ task = none ∧ q.log.filterMap takenTask = v.queue.log.filterMap takenTask) := by
  rcases h.section with ⟨hr, -, hlog⟩ | ⟨c, hcall, x, n, hrun, hr, hlog⟩
  · refine .inl ⟨?_, by rw [hlog]⟩
    rw [hr]
    cases m.thread <;> rfl
  have hlegit : Legit v.workers m.thread c := by
    rcases hcall with hcall | ⟨u, hcall⟩
    · exact hc.calls _ hcall
    · exact hnew _ _ _ hcall
  have hfilter : q.log.filterMap takenTask
      = v.queue.log.filterMap takenTask ++ (takenTask (m.thread, c, x)).toList := by
    rw [hlog, List.filterMap_append]
    cases htask : takenTask (m.thread, c, x) <;> simp [htask]
  have hpops : c = .pop → ∃ i, m.thread = .worker i ∧ v.workers[i]? = some .inPop := by
    intro hpop
    rw [hpop] at hlegit
    cases ht : m.thread with
    | owner =>
      rw [ht] at hlegit
      rcases hlegit with h | h <;> cases h
    | other t =>
      rw [ht] at hlegit
      obtain ⟨task, h⟩ := hlegit
      cases h
    | worker i =>
      rw [ht] at hlegit
      rcases hlegit with ⟨-, hi⟩ | ⟨⟨task, h⟩, -⟩
      · exact ⟨i, rfl, hi⟩
      · cases h
  generalize q.shared = q' at hrun
  cases BlockingQueue.critical_cases hrun with
  | @pop front rest hw hq =>
    obtain ⟨i, ht, hi⟩ := hpops rfl
    rw [ht] at hfilter
    exact .inr ⟨i, front, _, hr, ht, hi, by rw [ht, hr]; rfl, .inl hfilter⟩
  | notPopped hw =>
    obtain ⟨i, ht, hi⟩ := hpops rfl
    rw [ht] at hfilter
    exact .inr ⟨i, none, _, hr, ht, hi, by rw [ht, hr]; rfl,
      .inr ⟨rfl, hfilter.trans (List.append_nil _)⟩⟩
  | _ =>
    refine .inl ⟨?_, hfilter.trans (List.append_nil _)⟩
    rw [hr]
    cases m.thread <;> rfl

/-- **A step at the queue keeps the invariant.** -/
theorem Core.queue {v : ThreadPool ι} {m : Move (QueueCall (Option ι)) PoolThread}
    {q : BlockingQueue.Calls (Option ι) PoolThread} {r : Option (QueueReturn (Option ι))}
    (hc : Core v) (hnew : ∀ t c u, m = .call t c u → Legit v.workers t c)
    (h : Lib.Monitor.Step (BlockingQueue.monitor (Option ι)) v.queue m q r) :
    Core { v with queue := q, workers := returned v.workers m.thread r } := by
  have horder : BlockingQueue.taken q ++ q.shared.queue = BlockingQueue.accepted q := by
    rcases h.section with ⟨-, hshared, hlog⟩ | ⟨c, -, x, n, hrun, -, hlog⟩
    · unfold BlockingQueue.taken BlockingQueue.accepted
      rw [hshared, hlog]
      exact hc.order
    · unfold BlockingQueue.taken BlockingQueue.accepted
      rw [hlog]
      exact (BlockingQueue.critical_cases hrun).order hc.order
  have howner : ∀ p ∈ q.calls, p.1 ≠ .owner := by
    intro p hp he
    rcases h.mem_calls hp with hold | ⟨hr, u, hm⟩
    · exact hc.owner p hold he
    · have hlegit := hnew _ _ _ hm
      rw [he] at hlegit
      rw [hm] at h
      obtain ⟨x, n, hx, -⟩ := BlockingQueue.call_runs h (by
        rcases hlegit with hl | hl <;> rw [hl] <;> exact id)
      rw [hr] at hx
      cases hx
  have hlegit : ∀ p ∈ q.calls, Legit v.workers p.1 p.2 := by
    intro p hp
    rcases h.mem_calls hp with hold | ⟨-, u, hm⟩
    · exact hc.calls p hold
    · exact hnew _ _ _ hm
  rcases hc.outcome hnew h with ⟨hworkers, htakes⟩ | ⟨i, task, x, hr, ht, hi, hworkers, htakes⟩
  · rw [hworkers]
    refine ⟨h.single hc.single, hlegit, howner, BlockingQueue.awake_step h hc.awake, horder, ?_, ?_,
      hc.ended, hc.joined⟩
    · intro p hp
      refine hc.takers p ?_
      unfold takes at hp ⊢
      rw [← htakes]
      exact hp
    · intro i
      refine Eq.trans ?_ (hc.turns i)
      unfold takenBy takes
      rw [htakes]
  · rw [hworkers]
    have hlt := (List.getElem?_eq_some_iff.mp hi).1
    have hout : ∀ p ∈ q.calls, p.1 ≠ .worker i := by
      rw [hr] at h
      rw [← ht]
      exact h.returned hc.single
    obtain ⟨hended, hjoined⟩ := hc.finished_set (.got task) hi (by simp)
    refine ⟨h.single hc.single, fun p hp => (hlegit p hp).set (hout p hp), howner,
      BlockingQueue.awake_step h hc.awake, horder, ?_, ?_, hended, hjoined⟩
    · intro p hp
      show ∃ j, p.1 = .worker j ∧ j < (v.workers.set i (.got task)).length
      rw [List.length_set]
      have hp' : p ∈ q.log.filterMap takenTask := hp
      rcases htakes with htakes | ⟨-, htakes⟩
      · rw [htakes] at hp'
        rcases List.mem_append.mp hp' with hp' | hp'
        · exact hc.takers p hp'
        · rw [List.mem_singleton.mp hp']
          exact ⟨i, rfl, hlt⟩
      · rw [htakes] at hp'
        exact hc.takers p hp'
    · intro j
      have hturn := hc.turns j
      show (q.log.filterMap takenTask).filterMap _ = v.startedBy j ++ WorkerPc.holds _
      by_cases he : i = j
      · rw [← he, List.getElem?_set_self hlt]
        rw [← he, hi] at hturn
        have hheld : v.takenBy i = v.startedBy i := hturn.trans (List.append_nil _)
        rcases htakes with htakes | ⟨hnone, htakes⟩
        · rw [htakes, List.filterMap_append, ← hheld]
          cases task with
          | none => simp [WorkerPc.holds, takenBy, takes]
          | some task => simp [WorkerPc.holds, takenBy, takes]
        · rw [htakes, ← hheld, hnone]
          exact (List.append_nil _).symm
      · rw [List.getElem?_set_ne he, ← hturn]
        rcases htakes with htakes | ⟨-, htakes⟩
        · rw [htakes, List.filterMap_append]
          simp [he, takenBy, takes]
        · rw [htakes]
          rfl

theorem Core.createThread {w : ThreadPool ι} (hc : Core w) {left : Nat} {pc : WorkerPc ι}
    (hpc : pc = .check ∨ pc = .notStarted) :
    Core { w with workers := w.workers ++ [pc], pc := .starting left } := by
  have hkeep : ∀ {i : Nat} {old : WorkerPc ι}, w.workers[i]? = some old →
      (w.workers ++ [pc])[i]? = some old := by
    intro i old hi
    rw [List.getElem?_append_left (List.getElem?_eq_some_iff.mp hi).1]
    exact hi
  have hlen : (w.workers ++ [pc]).length = w.workers.length + 1 := by
    rw [List.length_append, List.length_singleton]
  refine { hc with calls := ?_, takers := ?_, turns := ?_, ended := ?_, joined := ?_ }
  · intro p hp
    have hlegit := hc.calls p hp
    cases ht : p.1 with
    | owner => exact absurd ht (hc.owner p hp)
    | other t =>
      rw [ht] at hlegit
      exact hlegit
    | worker i =>
      rw [ht] at hlegit
      rcases hlegit with ⟨hpop, hi⟩ | ⟨hpush, task, hi⟩
      · exact .inl ⟨hpop, hkeep hi⟩
      · exact .inr ⟨hpush, task, hkeep hi⟩
  · intro p hp
    obtain ⟨i, hi, hlt⟩ := hc.takers p hp
    exact ⟨i, hi, by dsimp only; omega⟩
  · intro i
    refine (hc.turns i).trans ?_
    show w.startedBy i ++ _ = w.startedBy i ++ _
    dsimp only
    by_cases hi : i < w.workers.length
    · rw [List.getElem?_append_left hi]
    · rw [List.getElem?_eq_none (by omega), List.getElem?_append_right (by omega)]
      cases i - w.workers.length with
      | zero => rcases hpc with hpc | hpc <;> rw [hpc] <;> rfl
      | succ n => rfl
  · exact ⟨by dsimp only; have := hc.ended.1; omega, fun i hi => hkeep (hc.ended.2 i hi)⟩
  · exact fun i hi => absurd hi (by simp)

/-- **Every step keeps the invariant.** -/
theorem Core.step {w w' : ThreadPool ι} (hc : Core w) (hs : PoolStep w w') : Core w' := by
  cases hs with
  | queue hp h => exact (hc.prepared hp).1.queue (hc.prepared hp).2 h
  | setQueueMaxSize maxsize => exact { hc with }
  | start hpc => exact { hc with joined := fun i hi => absurd hi (by simp) }
  | fails => exact { hc with }
  | createThread hpc h => exact hc.createThread h
  | startReturns hpc => exact { hc with joined := fun i hi => absurd hi (by simp) }
  | stop hpc => exact { hc with joined := fun i hi => absurd hi (by simp) }
  | @join i hpc h =>
    refine { hc with joined := fun k hk => ?_ }
    cases hk
    refine ⟨(List.getElem?_eq_some_iff.mp h).1, fun j hj => ?_⟩
    by_cases he : j = i
    · rw [he]
      exact h
    · exact (hc.joined i hpc).2 j (by omega)
  | @joined i hpc h =>
    have hlen := List.getElem?_eq_none_iff.mp h
    refine { hc with
      ended := ⟨Nat.le_refl _, fun j hj => (hc.joined i hpc).2 j ?_⟩
      joined := fun k hk => absurd hk (by simp) }
    exact Nat.lt_of_lt_of_le hj hlen
  | @check i pc h hpc =>
    have hset := hc.setWorker pc h (by simp) (hc.out h (by simp) (by simp)) []
      (by rcases hpc with hpc | hpc <;> rw [hpc] <;> rfl)
    rw [List.map_nil, List.append_nil] at hset
    exact hset
  | @startTask i task h =>
    exact hc.setWorker _ h (by simp) (hc.out h (by simp) (by simp)) [task] rfl
  | @noTask i h =>
    have hset := hc.setWorker .check h (by simp) (hc.out h (by simp) (by simp)) [] rfl
    rw [List.map_nil, List.append_nil] at hset
    exact hset
  | @taskReturns i task h hb =>
    have hout : ∀ p ∈ w.queue.calls, p.1 ≠ .worker i := by
      intro p hp he
      unfold State.busy at hb
      rw [List.any_eq_false] at hb
      exact hb p hp (decide_eq_true he)
    have hset := hc.setWorker .check h (by simp) hout [] rfl
    rw [List.map_nil, List.append_nil] at hset
    exact hset

/-- `Stop` is behind its `WakeUp` and before its `Restore`. -/
def woken : PoolPc → Bool
  | .joining _ | .restoring => true
  | .idle | .starting _ | .waking => false

theorem wakeup_step {w w' : ThreadPool ι} (hc : Core w)
    (hw : w.queue.shared.wakeup = woken w.pc) (hs : PoolStep w w') :
    w'.queue.shared.wakeup = woken w'.pc := by
  cases hs with
  | @queue v m q r hp h =>
    dsimp only
    -- a `Push` or `Pop` leaves the flag alone
    have hsame : v.queue = w.queue → v.pc = w.pc →
        (∀ c u, m = .call m.thread c u → BlockingQueue.Ordinary c) →
        q.shared.wakeup = woken v.pc := by
      intro hqueue hpc hnew
      rw [hpc, ← hw, ← hqueue]
      rcases h.section with ⟨-, hshared, -⟩ | ⟨c, hcall, x, n, hrun, -, -⟩
      · rw [hshared]
      · have hord : BlockingQueue.Ordinary c := by
          rcases hcall with hcall | ⟨u, hcall⟩
          · rw [hqueue] at hcall
            exact hc.ordinary hcall
          · exact hnew c u hcall
        have hwakeup := (BlockingQueue.critical_cases hrun).wakeup
        rcases hord.cases with ⟨he, -⟩ | ⟨x, he, -⟩
        · rw [he] at hwakeup
          exact hwakeup
        · rw [he] at hwakeup
          exact hwakeup
    cases hp with
    | wakeUp hpc =>
      obtain ⟨x, n, -, hcritical⟩ := BlockingQueue.call_runs h id
      exact hcritical.wakeup
    | restore hpc =>
      obtain ⟨x, n, -, hcritical⟩ := BlockingQueue.call_runs h id
      exact hcritical.wakeup
    | pop h => exact hsame rfl rfl fun c u he => by cases he; trivial
    | addTask h => exact hsame rfl rfl fun c u he => by cases he; trivial
    | resume => exact hsame rfl rfl fun c u he => by cases he
    | spurious => exact hsame rfl rfl fun c u he => by cases he
  | start hpc => rw [hpc] at hw; exact hw
  | createThread hpc h => rw [hpc] at hw; exact hw
  | startReturns hpc => rw [hpc] at hw; exact hw
  | stop hpc => rw [hpc] at hw; exact hw
  | join hpc h => rw [hpc] at hw; exact hw
  | joined hpc h => rw [hpc] at hw; exact hw
  | _ => exact hw

/-- The invariant of a pool. -/
structure Inv (w : ThreadPool ι) : Prop where
  core : Core w
  wakeup : w.queue.shared.wakeup = woken w.pc

theorem inv_init (maxsize : Nat) : Inv (create ι maxsize) := by
  refine ⟨⟨List.nodup_nil, ?_, ?_, fun _ => rfl, rfl, ?_, fun i => rfl, ?_, ?_⟩, rfl⟩
  · exact fun p hp => absurd hp List.not_mem_nil
  · exact fun p hp => absurd hp List.not_mem_nil
  · exact fun p hp => absurd hp List.not_mem_nil
  · exact ⟨Nat.le_refl _, fun i hi => absurd hi (Nat.not_lt_zero i)⟩
  · exact fun i hi => absurd hi (by simp [create])

theorem inv_step {w w' : ThreadPool ι} (h : Inv w) (hs : PoolStep w w') : Inv w' :=
  ⟨h.core.step hs, wakeup_step h.core h.wakeup hs⟩

theorem inv_reachable {maxsize : Nat} {w : ThreadPool ι}
    (h : Reachable (machine ι maxsize) (fun _ _ => True) w) : Inv w := by
  refine h.invariant (I := Inv) ?_ ?_
  · intro w hw
    rw [show w = create ι maxsize from hw]
    exact inv_init maxsize
  · intro w a w' _ hi _ hs
    exact inv_step hi (pool_step_cases hs)

/-! ## What a step takes -/

theorem prepared_queue {w v : ThreadPool ι} {m : Move (QueueCall (Option ι)) PoolThread}
    (hp : Prepared w m v) : v.queue = w.queue ∧ v.first = w.first := by
  cases hp <;> exact ⟨rfl, rfl⟩

/-- While `wakeup_` is set no task is taken or added. -/
theorem woken_step {w w' : ThreadPool ι} (hw : w.queue.shared.wakeup = true) (hs : PoolStep w w') :
    w'.queue.shared.queue = w.queue.shared.queue ∧ w'.takes = w.takes := by
  cases hs with
  | @queue v m q r hp h =>
    obtain ⟨hqueue, -⟩ := prepared_queue hp
    rw [hqueue] at h
    unfold takes
    rcases h.section with ⟨-, hshared, hlog⟩ | ⟨c, -, x, n, hrun, -, hlog⟩
    · rw [hshared, hlog]
      exact ⟨rfl, rfl⟩
    · have hcritical := BlockingQueue.critical_cases hrun
      refine ⟨(hcritical.woken (t := m.thread) hw).1, ?_⟩
      rw [hlog, List.filterMap_append]
      generalize q.shared = q' at hcritical
      cases hcritical with
      | pop hw' hq => exact absurd (hw'.symm.trans hw) Bool.false_ne_true
      | _ => exact List.append_nil _
  | _ => exact ⟨rfl, rfl⟩

/-- A step adds to what was taken at most what one worker takes, and not one that has finished. -/
theorem takes_step {w w' : ThreadPool ι} (hc : Core w) (hs : PoolStep w w') :
    w'.takes = w.takes ∨ ∃ i task, w'.takes = w.takes ++ [(.worker i, task)] ∧ w.first ≤ i := by
  cases hs with
  | @queue v m q r hp h =>
    obtain ⟨hqueue, _⟩ := prepared_queue hp
    obtain ⟨hv, hnew⟩ := hc.prepared hp
    have hout := hv.outcome hnew h
    rw [hqueue] at hout
    rcases hout with ⟨-, htakes⟩ | ⟨i, task, x, -, -, hi, -, htakes⟩
    · exact .inl htakes
    · rcases htakes with htakes | ⟨-, htakes⟩
      · refine .inr ⟨i, task, htakes, ?_⟩
        by_contra hlt
        rw [hv.ended.2 i (by omega)] at hi
        cases hi
      · exact .inl htakes
  | _ => exact .inl rfl

theorem first_step {w w' : ThreadPool ι} (hc : Core w) (hs : PoolStep w w') : w.first ≤ w'.first := by
  cases hs with
  | queue hp h => exact Nat.le_of_eq (prepared_queue hp).2.symm
  | joined hpc h => exact hc.ended.1
  | _ => exact Nat.le_refl _

theorem accepted_step {w w' : ThreadPool ι} (hs : PoolStep w w') :
    ∃ new, BlockingQueue.accepted w'.queue = BlockingQueue.accepted w.queue ++ new := by
  cases hs with
  | @queue v m q r hp h =>
    obtain ⟨hqueue, -⟩ := prepared_queue hp
    rw [hqueue] at h
    unfold BlockingQueue.accepted
    rcases h.section with ⟨-, -, hlog⟩ | ⟨c, -, x, n, -, -, hlog⟩
    · exact ⟨[], by rw [hlog, List.append_nil]⟩
    · exact ⟨_, by rw [hlog, List.filterMap_append]⟩
  | _ => exact ⟨[], (List.append_nil _).symm⟩

theorem takes_taken (w : ThreadPool ι) :
    w.takes.map Prod.snd = BlockingQueue.taken w.queue := by
  unfold takes BlockingQueue.taken
  rw [List.map_filterMap]
  refine List.filterMap_congr fun p _ => ?_
  obtain ⟨t, c, r⟩ := p
  cases c with
  | pop => cases r <;> rfl
  | _ => rfl

/-- **What is left over is taken first.** In a run from `w` to `w'` the tasks taken are, in order,
those in the queue of `w` and then those accepted since; and the workers that take them are not
ones that had been joined before. -/
theorem run_takes {maxsize : Nat} {w w' : ThreadPool ι} {as : List (Label ι)} (hi : Inv w)
    (h : Run (machine ι maxsize) (fun _ _ => True) w as w') :
    ∃ took new, w'.takes = w.takes ++ took
      ∧ BlockingQueue.accepted w'.queue = BlockingQueue.accepted w.queue ++ new
      ∧ took.map Prod.snd ++ w'.queue.shared.queue = w.queue.shared.queue ++ new
      ∧ ∀ p ∈ took, ∃ i, p.1 = .worker i ∧ w.first ≤ i := by
  have hrun := h.invariant (I := fun u => Inv u ∧ w.first ≤ u.first
    ∧ (∃ took, u.takes = w.takes ++ took ∧ ∀ p ∈ took, ∃ i, p.1 = .worker i ∧ w.first ≤ i)
    ∧ ∃ new, BlockingQueue.accepted u.queue = BlockingQueue.accepted w.queue ++ new)
    ⟨hi, Nat.le_refl _, ⟨[], (List.append_nil _).symm, by simp⟩, [], (List.append_nil _).symm⟩ ?_
  · obtain ⟨hi', -, ⟨took, htook, hworkers⟩, new, hnew⟩ := hrun
    refine ⟨took, new, htook, hnew, ?_, hworkers⟩
    have horder := hi.core.order
    have horder' := hi'.core.order
    rw [← takes_taken] at horder horder'
    rw [htook, hnew, ← horder, List.map_append, List.append_assoc, List.append_assoc] at horder'
    exact List.append_cancel_left horder'
  · rintro u a u' ⟨hu, hfirst, ⟨took, htook, hworkers⟩, new, hnew⟩ - hs
    have hstep := pool_step_cases hs
    refine ⟨inv_step hu hstep, Nat.le_trans hfirst (first_step hu.core hstep), ?_, ?_⟩
    · rcases takes_step hu.core hstep with htakes | ⟨i, task, htakes, hle⟩
      · exact ⟨took, htakes.trans htook, hworkers⟩
      · refine ⟨took ++ [(.worker i, task)], ?_, ?_⟩
        · rw [htakes, htook, List.append_assoc]
        · intro p hp
          rcases List.mem_append.mp hp with hp | hp
          · exact hworkers p hp
          · rw [List.mem_singleton.mp hp]
            exact ⟨i, rfl, Nat.le_trans hfirst hle⟩
    · obtain ⟨new', hnew'⟩ := accepted_step hstep
      exact ⟨new ++ new', by rw [hnew', hnew, List.append_assoc]⟩

/-- **A pool loses no task and runs none twice.** Over any number of starts and stops, whoever adds
tasks: what was taken, then what is in the queue, is what was accepted, in order; it was taken by
workers, each of which has started what it took, in turn, but for the one it holds; while `wakeup_`
is set nothing is taken; between the `WakeUp` and the `Restore` of `Stop` nobody is blocked in the
queue; and what is left over goes first to the workers that come next. -/
theorem pool_keeps_tasks {maxsize : Nat} {w : ThreadPool ι}
    (h : Reachable (machine ι maxsize) (fun _ _ => True) w) :
    w.takes.map Prod.snd ++ w.queue.shared.queue = BlockingQueue.accepted w.queue
    ∧ (∀ p ∈ w.takes, ∃ i, p.1 = .worker i ∧ i < w.workers.length)
    ∧ (∀ i, w.takenBy i = w.startedBy i ++ WorkerPc.holds w.workers[i]?)
    ∧ (∀ a w', w.step a = some w' → w.queue.shared.wakeup = true →
        w'.queue.shared.queue = w.queue.shared.queue ∧ w'.takes = w.takes)
    ∧ ((∃ i, w.pc = .joining i) ∨ w.pc = .restoring →
        w.queue.shared.wakeup = true ∧ w.queue.waiting = [])
    ∧ ∀ as w', Run (machine ι maxsize) (fun _ _ => True) w as w' →
        ∃ took new, w'.takes = w.takes ++ took
          ∧ BlockingQueue.accepted w'.queue = BlockingQueue.accepted w.queue ++ new
          ∧ took.map Prod.snd ++ w'.queue.shared.queue = w.queue.shared.queue ++ new
          ∧ ∀ p ∈ took, ∃ i, p.1 = .worker i ∧ w.first ≤ i := by
  have hi := inv_reachable h
  refine ⟨?_, hi.core.takers, hi.core.turns, ?_, ?_, fun as w' hr => run_takes hi hr⟩
  · rw [takes_taken]
    exact hi.core.order
  · exact fun a w' hs hw => woken_step hw (pool_step_cases hs)
  · intro hpc
    have hw : w.queue.shared.wakeup = true := by
      rw [hi.wakeup]
      rcases hpc with ⟨i, hpc⟩ | hpc <;> rw [hpc] <;> rfl
    exact ⟨hw, hi.core.awake hw⟩

/-- Of three tasks, one of them empty, the first worker starts one and takes the empty one; it is
stopped, and the worker of the next start takes the third. -/
theorem pool_keeps_tasks_small : ∃ w, Reachable (machine Nat 0) (fun _ _ => True) w
    ∧ w.takes = [(.worker 0, some 7), (.worker 0, none), (.worker 1, some 9)]
    ∧ w.started = [(0, 7)]
    ∧ w.takes.map Prod.snd ++ w.queue.shared.queue = BlockingQueue.accepted w.queue
    ∧ w.takenBy 1 = w.startedBy 1 ++ WorkerPc.holds w.workers[1]? := by
  have hexec : ((machine Nat 0).exec (fun _ _ => True) (create Nat 0)
      [.start 1, .createThread true, .startReturns, .check 0, .pop 0 none,
        .addTask (.other 3) (some 7) (some (.worker 0)), .resume (.worker 0) none,
        .testTask 0, .addTask (.worker 0) none none, .addTask (.other 3) (some 9) none,
        .taskReturns 0, .check 0, .pop 0 none, .stop, .testTask 0, .check 0, .wakeUp, .join, .join,
        .restore, .start 1, .createThread true, .startReturns, .check 1, .pop 1 none]).map
      (fun w => decide (w.takes = [(.worker 0, some 7), (.worker 0, none), (.worker 1, some 9)]
        ∧ w.started = [(0, 7)])) = some true := by decide +kernel
  obtain ⟨w, hr, hp⟩ := Machine.exec_reachable rfl hexec
  obtain ⟨htakes, hstarted⟩ := of_decide_eq_true hp
  have hmain := pool_keeps_tasks hr
  exact ⟨w, hr, htakes, hstarted, hmain.1, hmain.2.2.1 1⟩

end ThreadPool

end Windz
