import Windz.Base.ThreadPoolWorkers
import Windz.Lib.Trace

/-!
# A pool works off its tasks

While a pool runs, what is in the queue is taken, and what is taken is started, if the
workers go on and the tasks return: a worker that was woken, or else any worker that is
alive, comes to the next task on its round.
-/

namespace Windz

open Lib Lib.Monitor

namespace ThreadPool

variable {ι : Type} {w w' : ThreadPool ι}

/-! ## The next task -/

/-- There is something to take, and so much has been taken. -/
structure Ready (k : Nat) (w : ThreadPool ι) : Prop where
  alive : Alive w
  running : w.running = true
  nonempty : w.queue.shared.queue ≠ []
  taken : (BlockingQueue.taken w.queue).length = k

/-- More has been taken, or `Stop` was called. -/
def Done (k : Nat) (w : ThreadPool ι) : Prop :=
  w.running = false ∨ k < (BlockingQueue.taken w.queue).length

theorem takes_grow (h : Core w) (hs : PoolStep w w') : ∃ new, w'.takes = w.takes ++ new := by
  rcases takes_step h hs with he | ⟨i, task, he, -⟩
  · exact ⟨[], he.trans (List.append_nil _).symm⟩
  · exact ⟨_, he⟩

theorem taken_grows (h : Core w) (hs : PoolStep w w') :
    BlockingQueue.taken w.queue <+: BlockingQueue.taken w'.queue := by
  obtain ⟨new, he⟩ := takes_grow h hs
  rw [← takes_taken, ← takes_taken, he, List.map_append]
  exact List.prefix_append _ _

theorem ready_step {k : Nat} (h : Ready k w) (hs : PoolStep w w') : Done k w' ∨ Ready k w' := by
  cases hrun : w'.running with
  | false => exact .inl (.inl hrun)
  | true =>
    by_cases hmore : k < (BlockingQueue.taken w'.queue).length
    · exact .inl (.inr hmore)
    · have hprefix := taken_grows h.alive.inv.core hs
      have hlength : (BlockingQueue.taken w'.queue).length = k := by
        have hle := hprefix.length_le
        rw [h.taken] at hle
        omega
      refine .inr ⟨alive_step h.alive hs, hrun, fun hnil => h.nonempty ?_, hlength⟩
      -- what was in the queue is still there
      have hsame := hprefix.eq_of_length (h.taken.trans hlength.symm)
      have horder := h.alive.inv.core.order
      have horder' := (inv_step h.alive.inv hs).core.order
      obtain ⟨new, hnew⟩ := accepted_step hs
      rw [hnil, ← hsame, hnew, ← horder, List.append_nil, List.append_assoc] at horder'
      have hrest := List.append_right_eq_self.mp horder'.symm
      exact (List.append_eq_nil_iff.mp hrest).1

theorem accepted_grows (hs : PoolStep w w') :
    BlockingQueue.accepted w.queue <+: BlockingQueue.accepted w'.queue := by
  obtain ⟨new, he⟩ := accepted_step hs
  rw [he]
  exact List.prefix_append _ _

theorem takenBy_grows (hc : Core w) (hs : PoolStep w w') (i : Nat) :
    w.takenBy i <+: w'.takenBy i := by
  obtain ⟨new, he⟩ := takes_grow hc hs
  unfold takenBy
  rw [he, List.filterMap_append]
  exact List.prefix_append _ _

theorem started_grows (hs : PoolStep w w') {i : Nat} : w.startedBy i <+: w'.startedBy i := by
  cases hs with
  | startTask hi =>
    unfold startedBy
    rw [List.filterMap_append]
    exact List.prefix_append _ _
  | queue hp h => cases hp <;> exact List.prefix_refl _
  | _ => exact List.prefix_refl _

/-- Only workers take tasks. -/
theorem takenBy_nil (hc : Core w) {i : Nat} (hi : w.workers.length ≤ i) : w.takenBy i = [] := by
  refine List.filterMap_eq_nil_iff.mpr fun p hp => if_neg fun he => ?_
  obtain ⟨j, hj, hlt⟩ := hc.takers p hp
  rw [hj] at he
  cases he
  exact absurd hlt (Nat.not_lt.mpr hi)

theorem holds_nil {pc : Option (WorkerPc ι)} (h : ¬ ∃ task, pc = some (.got (some task))) :
    WorkerPc.holds pc = [] := by
  unfold WorkerPc.holds
  split
  · exact absurd ⟨_, rfl⟩ h
  · rfl

/-- The worker runs. -/
def Working (w : ThreadPool ι) (i : Nat) : Prop :=
  ∃ pc, w.workers[i]? = some pc ∧ (Outside pc ∨ pc = .inPop)

theorem set_inPop {workers : List (WorkerPc ι)} {i j : Nat} {old pc : WorkerPc ι}
    (hi : workers[i]? = some .inPop) (hj : workers[j]? = some old) (hold : old ≠ .inPop) :
    (workers.set j pc)[i]? = some .inPop := by
  have hne : j ≠ i := by
    rintro rfl
    rw [hi] at hj
    exact hold (Option.some.inj hj).symm
  rw [List.getElem?_set_ne hne]
  exact hi

/-- While the pool runs, no worker stops. -/
theorem working_step {i : Nat} {b : Label ι} (hc : Core w) (hs : w.step b = some w')
    (hrun : w.running = true) (h : Working w i) : Working w' i := by
  obtain ⟨pc, hi, hpc⟩ := h
  have hgot : ∀ {u : ThreadPool ι},
      (∃ pc, u.workers[i]? = some pc ∧ (pc = .inPop ∨ ∃ task, pc = .got task)) → Working u i := by
    rintro u ⟨pc, hi, rfl | ⟨task, rfl⟩⟩
    · exact ⟨_, hi, .inr rfl⟩
    · exact ⟨_, hi, .inl trivial⟩
  by_cases hpop : pc = .inPop
  · rw [hpop] at hi
    cases pool_step_cases hs with
    | @queue v m q r hp hstep =>
      refine hgot (moves_inPop hc hp hstep ?_)
      cases hp with
      | pop hj => exact set_inPop hi hj (by simp)
      | _ => exact hi
    | @createThread left pc hpc' h =>
      refine ⟨_, ?_, .inr rfl⟩
      rw [List.getElem?_append_left (List.getElem?_eq_some_iff.mp hi).1]
      exact hi
    | check hj h => exact ⟨_, set_inPop hi hj (by simp), .inr rfl⟩
    | startTask hj => exact ⟨_, set_inPop hi hj (by simp), .inr rfl⟩
    | noTask hj => exact ⟨_, set_inPop hi hj (by simp), .inr rfl⟩
    | taskReturns hj hb => exact ⟨_, set_inPop hi hj (by simp), .inr rfl⟩
    | _ => exact ⟨_, hi, .inr rfl⟩
  · obtain ⟨pc', hi', hmoves⟩ := worker_step hc hs hi hpop
    cases hmoves with
    | same h => exact ⟨_, hi', hpc⟩
    | check =>
      rw [hrun] at hi'
      exact ⟨_, hi', .inl trivial⟩
    | pop h => exact hgot ⟨_, hi', h⟩
    | starts => exact ⟨_, hi', .inl trivial⟩
    | noTask => exact ⟨_, hi', .inl trivial⟩
    | taskReturns => exact ⟨_, hi', .inl trivial⟩

/-- The workers go on, in `Pop` too, and tasks return. Nothing is asked of a thread in `Push`. -/
structure Fair (s : Nat → ThreadPool ι) (a : Nat → Label ι) : Prop where
  /-- A worker that is not in `Pop` takes its next step, and its task returns. -/
  workers : ∀ n i pc, (s n).workers[i]? = some pc → Outside pc → ∃ m, n ≤ m ∧ GoesOn i (a m)
  /-- One that was woken in `Pop` gets the mutex. -/
  woken : ∀ n t, (t, .pop) ∈ (s n).queue.woken → ∃ m, n ≤ m ∧ ∃ u, a m = .resume t u

section Progress

variable {maxsize k : Nat} {s : Nat → ThreadPool ι} {a : Nat → Label ι}

theorem woken_takes (h : Trace (machine ι maxsize) (fun _ _ => True) s a) (hf : Fair s a) {n : Nat}
    (hr : Ready k (s n)) {t : PoolThread} (ht : (t, .pop) ∈ (s n).queue.woken) :
    ∃ m, n ≤ m ∧ Done k (s m) := by
  refine h.acted (fun b => ∃ u, b = .resume t u) (fun w => Ready k w ∧ (t, .pop) ∈ w.queue.woken)
    (Done k) ?_ ⟨hr, ht⟩ (hf.woken n _ ht)
  rintro w b w' ⟨hr, ht⟩ - hs
  have htakes : ∀ {u : Option PoolThread} {q : BlockingQueue.Calls (Option ι) PoolThread}
      {r : Option (QueueReturn (Option ι))},
      Lib.Monitor.Step (BlockingQueue.monitor (Option ι)) w.queue (.resume t u) q r →
      k < (BlockingQueue.taken q).length := by
    intro u q r hstep
    rw [← hr.taken]
    exact BlockingQueue.resume_takes hstep hr.alive.inv.core.single ht
      (hr.alive.clear hr.running) hr.nonempty
  by_cases hb : ∃ u, b = .resume t u
  · obtain ⟨u, rfl⟩ := hb
    have hs := (Option.ite_none_left_eq_some.mp (show (if w.failed = true then none
      else w.queueStep (.resume t u)) = some w' from hs)).2
    obtain ⟨⟨q, r⟩, hstep, he⟩ := Option.map_eq_some_iff.mp hs
    rw [← he]
    exact .inl (.inr (htakes (step_cases hstep)))
  · have hstep := pool_step_cases hs
    rcases ready_step hr hstep with hdone | hr'
    · exact .inl hdone
    · have hstill : Done k w' ∨ (t, .pop) ∈ w'.queue.woken := by
        cases hstep with
        | @queue v m q r hp hmon =>
          rw [(prepared_queue hp).1] at hmon
          by_cases hm : ∃ u, m = .resume t u
          · obtain ⟨u, rfl⟩ := hm
            exact .inl (.inr (htakes hmon))
          · exact .inr (hmon.mem_woken ht fun u he => hm ⟨u, he⟩)
        | _ => exact .inr ht
      rcases hstill with hdone | ht'
      · exact .inl hdone
      · exact .inr ⟨⟨hr', ht'⟩, hb⟩

/-- The stage of worker `i`. -/
def stageOf (i : Nat) (w : ThreadPool ι) : Nat := (w.workers[i]?.map WorkerPc.stage).getD 0

theorem stageOf_eq {i : Nat} {pc : WorkerPc ι} (hi : w.workers[i]? = some pc) :
    stageOf i w = WorkerPc.stage pc := by
  unfold stageOf
  rw [hi]
  rfl

/-- The round of worker `i`. -/
def rounds (i : Nat) : Ranking (ThreadPool ι) (Label ι) Nat Nat where
  rank := stageOf i
  lt := (· < ·)
  wf := Nat.lt_wfRel.wf
  helpful _ := i
  does := GoesOn

theorem round_takes (h : Trace (machine ι maxsize) (fun _ _ => True) s a) (hf : Fair s a) {n : Nat}
    (hr : Ready k (s n)) {i : Nat} {pc : WorkerPc ι} (hi : (s n).workers[i]? = some pc)
    (hout : Outside pc) : ∃ m, n ≤ m ∧ Done k (s m) := by
  refine h.reaches (rounds i) (fun w => Ready k w ∧ ∃ pc, w.workers[i]? = some pc ∧ Outside pc)
    (Done k) ?_ ?_ ⟨hr, pc, hi, hout⟩
  · rintro m ⟨-, pc, hi, hout⟩
    exact hf.workers m i pc hi hout
  · rintro w b w' ⟨hr, pc, hi, hout⟩ - hs
    rcases ready_step hr (pool_step_cases hs) with hdone | hr'
    · exact .inl hdone
    have hne : pc ≠ .inPop := by
      rintro rfl
      exact hout
    obtain ⟨pc', hi', hmoves⟩ := worker_step hr.alive.inv.core hs hi hne
    have hlower : Outside pc' → WorkerPc.stage pc' < WorkerPc.stage pc →
        Done k w' ∨ (Ready k w' ∧ ∃ pc, w'.workers[i]? = some pc ∧ Outside pc)
          ∧ (rounds i).Nears w b w' := by
      intro hout' hlt
      refine .inr ⟨⟨hr', pc', hi', hout'⟩, .inl ?_⟩
      show stageOf i w' < stageOf i w
      rw [stageOf_eq hi, stageOf_eq hi']
      exact hlt
    cases hmoves with
    | same hnot =>
      refine .inr ⟨⟨hr', pc, hi', hout⟩, .inr ⟨?_, rfl, hnot⟩⟩
      show stageOf i w' = stageOf i w
      rw [stageOf_eq hi, stageOf_eq hi']
    | check =>
      rw [hr.running] at hi' hlower
      exact hlower trivial (show 1 < 2 by decide)
    | @pop u pc' hpc' =>
      -- the call of `Pop` finds the task
      refine .inl (.inr ?_)
      have hs := (Option.ite_none_left_eq_some.mp (show (if w.failed = true then none
        else _) = some w' from hs)).2
      rw [hi] at hs
      obtain ⟨⟨q, r⟩, hstep, he⟩ := Option.map_eq_some_iff.mp hs
      rw [← he, ← hr.taken]
      cases step_cases hstep with
      | call hb hattempt =>
        exact BlockingQueue.pop_takes hattempt (hr.alive.clear hr.running) hr.nonempty
    | starts => exact hlower trivial (show 3 < 4 by decide)
    | noTask => exact hlower trivial (show 2 < 4 by decide)
    | taskReturns => exact hlower trivial (show 2 < 3 by decide)

/-- **The next task is taken**, or `Stop` is called. -/
theorem takes_next (h : Trace (machine ι maxsize) (fun _ _ => True) s a) (hf : Fair s a) {n : Nat}
    (hr : Ready k (s n)) {i : Nat} (hw : Working (s n) i) : ∃ m, n ≤ m ∧ Done k (s m) := by
  obtain ⟨pc, hi, hout | hpop⟩ := hw
  · exact round_takes h hf hr hi hout
  · rw [hpop] at hi
    obtain ⟨t, ht⟩ := BlockingQueue.popper_woken
      (fun p hp => hr.alive.inv.core.ordinary (c := p.2) hp)
      (hr.alive.fed (hr.alive.clear hr.running)) hr.nonempty (hr.alive.inside i hi)
    exact woken_takes h hf hr ht

theorem working_later (h : Trace (machine ι maxsize) (fun _ _ => True) s a) {n m i : Nat}
    (hle : n ≤ m) (hw : Working (s n) i) :
    (∃ k, n ≤ k ∧ (s k).running = false) ∨ Working (s m) i := by
  induction hle with
  | refl => exact .inr hw
  | @step m hle ih =>
    rcases ih with hstop | hw
    · exact .inl hstop
    · cases hrun : (s m).running with
      | false => exact .inl ⟨m, hle, hrun⟩
      | true =>
        exact .inr (working_step (alive_reachable (h.reachable m)).inv.core (h.step m) hrun hw)

/-- What had been added is taken, or `Stop` is called. -/
theorem added_taken (h : Trace (machine ι maxsize) (fun _ _ => True) s a) (hf : Fair s a)
    {n i : Nat} (hw : Working (s n) i) (tasks : List (Option ι))
    (hadded : tasks <+: BlockingQueue.accepted (s n).queue) :
    ∃ m, n ≤ m ∧ ((s m).running = false ∨ tasks <+: BlockingQueue.taken (s m).queue) := by
  have hmore : ∀ d m, n ≤ m → Working (s m) i →
      tasks <+: BlockingQueue.accepted (s m).queue →
      tasks.length - (BlockingQueue.taken (s m).queue).length = d →
      ∃ m, n ≤ m ∧ ((s m).running = false ∨ tasks <+: BlockingQueue.taken (s m).queue) := by
    intro d
    induction d using Nat.strong_induction_on with
    | _ d ih =>
      intro m hm hw hadded hd
      have halive := alive_reachable (h.reachable m)
      have horder := halive.inv.core.order
      by_cases hall : tasks.length ≤ (BlockingQueue.taken (s m).queue).length
      · refine ⟨m, hm, .inr (List.prefix_of_prefix_length_le hadded ?_ hall)⟩
        rw [← horder]
        exact List.prefix_append _ _
      · cases hrun : (s m).running with
        | false => exact ⟨m, hm, .inl hrun⟩
        | true =>
          have hne : (s m).queue.shared.queue ≠ [] := by
            intro hnil
            rw [hnil, List.append_nil] at horder
            rw [horder] at hall
            exact hall hadded.length_le
          obtain ⟨m', hm', hdone | hdone⟩ := takes_next h hf ⟨halive, hrun, hne, rfl⟩ hw
          · exact ⟨m', Nat.le_trans hm hm', .inl hdone⟩
          · rcases working_later h hm' hw with ⟨k, hk, hstop⟩ | hw'
            · exact ⟨k, Nat.le_trans hm hk, .inl hstop⟩
            · have hprefix : BlockingQueue.accepted (s m).queue
                  <+: BlockingQueue.accepted (s m').queue :=
                h.grows (f := fun w => BlockingQueue.accepted w.queue)
                  (fun u b u' _ hs => accepted_grows (pool_step_cases hs)) hm'
              exact ih _ (by omega) m' (Nat.le_trans hm hm') hw' (hadded.trans hprefix) rfl
  exact hmore _ n (Nat.le_refl n) hw hadded rfl

/-! ## What is taken is started -/

theorem started_grows_trace (h : Trace (machine ι maxsize) (fun _ _ => True) s a) {n m : Nat}
    (hle : n ≤ m) (i : Nat) : (s n).startedBy i <+: (s m).startedBy i :=
  h.grows (f := fun w => w.startedBy i) (fun _ _ _ _ hs => started_grows (pool_step_cases hs)) hle

/-- A worker starts all it has taken. -/
theorem worker_starts (h : Trace (machine ι maxsize) (fun _ _ => True) s a) (hf : Fair s a)
    (n i : Nat) : ∃ m, n ≤ m ∧ (s n).takenBy i <+: (s m).startedBy i := by
  have hcore : ∀ m, Core (s m) := fun m => (alive_reachable (h.reachable m)).inv.core
  by_cases hgot : ∃ task, (s n).workers[i]? = some (.got (some task))
  · obtain ⟨task, hi⟩ := hgot
    refine h.acted (GoesOn i)
      (fun w => Core w ∧ w.workers[i]? = some (.got (some task)) ∧ (s n).takenBy i <+: w.takenBy i)
      (fun w => (s n).takenBy i <+: w.startedBy i) ?_ ⟨hcore n, hi, List.prefix_refl _⟩
      (hf.workers n i _ hi trivial)
    rintro w b w' ⟨hc, hi, htaken⟩ - hs
    have hstep := pool_step_cases hs
    have htaken' := htaken.trans (takenBy_grows hc hstep i)
    obtain ⟨pc', hi', hmoves⟩ := worker_step hc hs hi (by simp)
    cases hmoves with
    | same hnot => exact .inr ⟨⟨hc.step hstep, hi', htaken'⟩, hnot⟩
    | starts =>
      -- it holds nothing any more
      refine .inl ?_
      rw [(hc.step hstep).turns i, hi'] at htaken'
      rw [← List.append_nil (w'.startedBy i)]
      exact htaken'
  · refine ⟨n, Nat.le_refl n, ?_⟩
    have hall : (s n).takenBy i = (s n).startedBy i := by
      rw [(hcore n).turns i, holds_nil hgot, List.append_nil]
    exact hall ▸ List.prefix_refl _

theorem workers_start (h : Trace (machine ι maxsize) (fun _ _ => True) s a) (hf : Fair s a)
    (n bound : Nat) : ∃ m, n ≤ m ∧ ∀ i < bound, (s n).takenBy i <+: (s m).startedBy i := by
  induction bound with
  | zero => exact ⟨n, Nat.le_refl n, fun i hi => absurd hi (Nat.not_lt_zero i)⟩
  | succ bound ih =>
    obtain ⟨m, hm, hstarted⟩ := ih
    obtain ⟨m', hm', hlast⟩ := worker_starts h hf n bound
    refine ⟨max m m', Nat.le_trans hm (Nat.le_max_left _ _), fun i hi => ?_⟩
    rcases Nat.lt_succ_iff_lt_or_eq.mp hi with hlt | rfl
    · exact (hstarted i hlt).trans (started_grows_trace h (Nat.le_max_left _ _) i)
    · exact hlast.trans (started_grows_trace h (Nat.le_max_right _ _) i)

/-- **What was added is started**, if the workers go on and their tasks return, unless `Stop` is
called: the tasks are taken in the order in which they were added, and each worker starts those
that it takes, in turn. -/
theorem added_tasks_are_started (ι : Type) (maxsize : Nat) (s : Nat → ThreadPool ι)
    (a : Nat → Label ι) (h : Trace (machine ι maxsize) (fun _ _ => True) s a) (hf : Fair s a)
    (n i : Nat) (hw : Working (s n) i) :
    ∃ m m', n ≤ m ∧ m ≤ m' ∧ ((s m).running = false
      ∨ BlockingQueue.accepted (s n).queue <+: (s m).takes.map Prod.snd
        ∧ ∀ j, (s m).takenBy j <+: (s m').startedBy j) := by
  obtain ⟨m, hm, hdone⟩ := added_taken h hf hw _ (List.prefix_refl _)
  rcases hdone with hstop | htaken
  · exact ⟨m, m, hm, Nat.le_refl m, .inl hstop⟩
  · obtain ⟨m', hm', hstarted⟩ := workers_start h hf m (s m).workers.length
    refine ⟨m, m', hm, hm', .inr ⟨?_, fun j => ?_⟩⟩
    · rw [takes_taken]
      exact htaken
    · by_cases hj : j < (s m).workers.length
      · exact hstarted j hj
      · rw [takenBy_nil (alive_reachable (h.reachable m)).inv.core (Nat.not_lt.mp hj)]
        exact List.nil_prefix

end Progress

/-! One task; from then on the worker is blocked in `Pop`, and the owner sets the bound again. -/

/-- One worker is started, gets one task, and waits for another. -/
def oneTask (n : Nat) : Label Nat :=
  ([.start 1, .createThread true, .startReturns, .check 0, .pop 0 none,
    .addTask (.other 3) (some 7) (some (.worker 0)), .resume (.worker 0) none, .testTask 0,
    .taskReturns 0, .check 0, .pop 0 none] : List (Label Nat)).getD n (.setQueueMaxSize 0)

/-- The states of that run. -/
def oneTaskStates : Nat → ThreadPool Nat := statesOf (machine Nat 0) (create Nat 0) oneTask

theorem oneTask_trace : Trace (machine Nat 0) (fun _ _ => True)
    (fun n => oneTaskStates (fold 11 1 n)) (fun n => oneTask (fold 11 1 n)) :=
  .rounds (by decide) rfl (fun _ _ => trivial) (by decide +kernel) rfl

theorem oneTask_fair : Fair (fun n => oneTaskStates (fold 11 1 n))
    (fun n => oneTask (fold 11 1 n)) where
  workers n i pc hi hout := by
    have hplaces : ∀ k < 12, (oneTaskStates k).workers.length ≤ 1
        ∧ (k = 11 → (oneTaskStates k).workers = [.inPop]) := by decide +kernel
    have hfold : fold 11 1 n < 12 := fold_lt (by decide) n
    obtain ⟨hlen, hlast⟩ := hplaces _ hfold
    have hlt := (List.getElem?_eq_some_iff.mp hi).1
    have hzero : i = 0 := Nat.lt_one_iff.mp (Nat.lt_of_lt_of_le hlt hlen)
    have hstem : fold 11 1 n < 11 := by
      refine Nat.lt_of_le_of_ne (Nat.le_of_lt_succ hfold) fun he => ?_
      rw [hlast he, hzero] at hi
      rw [← Option.some.inj hi] at hout
      exact hout
    have hn := fold_eq_self hstem
    refine ⟨10, by omega, ?_⟩
    rw [hzero]
    exact (rfl : (0 : Nat) = 0)
  woken n t ht := by
    have hplaces : ∀ k < 12, (oneTaskStates k).queue.woken ≠ [] →
        k ≤ 6 ∧ ∀ p ∈ (oneTaskStates k).queue.woken, p.1 = .worker 0 := by decide +kernel
    obtain ⟨hle, hworker⟩ := hplaces _ (fold_lt (by decide) n) (List.ne_nil_of_mem ht)
    have hn := fold_eq_self (Nat.lt_of_le_of_lt hle (by decide))
    refine ⟨6, by omega, none, ?_⟩
    rw [show t = .worker 0 from hworker _ ht]
    rfl

theorem added_tasks_are_started_small : ∃ m m', 6 ≤ m ∧ m ≤ m'
    ∧ ((oneTaskStates (fold 11 1 m)).running = false
      ∨ [some 7] <+: (oneTaskStates (fold 11 1 m)).takes.map Prod.snd
        ∧ ∀ j, (oneTaskStates (fold 11 1 m)).takenBy j
          <+: (oneTaskStates (fold 11 1 m')).startedBy j) := by
  have hadded : BlockingQueue.accepted (oneTaskStates 6).queue = [some 7] := by decide +kernel
  rw [← hadded]
  exact added_tasks_are_started Nat 0 _ _ oneTask_trace oneTask_fair 6 0 ⟨_, rfl, .inr rfl⟩

end ThreadPool

end Windz
