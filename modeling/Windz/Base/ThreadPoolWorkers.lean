import Windz.Base.ThreadPoolProof

/-!
# The workers of a pool

If a worker was woken in `Pop`, it takes the next task or finds it taken. If none was, none
is blocked over it either, for a signal was sent for each task. A worker outside of `Pop` is
moved by its own steps only, and each brings it nearer to its next call of `Pop`.
-/

namespace Windz

open Lib Lib.Monitor

/-! ## `Pop` at the queue -/

namespace BlockingQueue

variable {T τ : Type} {q q' : Calls T τ} {t : τ} {r : Option (QueueReturn T)}

/-- `Pop` that finds a value takes one. -/
theorem pop_takes (h : Attempt (monitor T) q t .pop q' r) (hw : q.shared.wakeup = false)
    (hne : q.shared.queue ≠ []) : (taken q).length < (taken q').length := by
  cases h with
  | waits hrun =>
    rcases (waits_cases hrun).1 with ⟨-, hq⟩ | ⟨x, he, -⟩
    · exact absurd hq hne
    · cases he
  | @runs shared x n q' hrun hn =>
    unfold taken
    rw [hn.shared.2]
    cases critical_cases hrun with
    | pop hw' hq =>
      rw [List.filterMap_append, List.length_append]
      exact Nat.lt_succ_self _
    | notPopped hw' => exact absurd (hw.symm.trans hw') Bool.false_ne_true

/-- A thread that was woken in `Pop` takes a value when it gets the mutex. -/
theorem resume_takes {u : Option τ} (h : Lib.Monitor.Step (monitor T) q (.resume t u) q' r)
    (hs : q.Single) (hmem : (t, .pop) ∈ q.woken) (hw : q.shared.wakeup = false)
    (hne : q.shared.queue ≠ []) : (taken q).length < (taken q').length := by
  cases h with
  | @resume t c u rest q' r hwoken h =>
    have hin : (t, c) ∈ q.calls := List.mem_append_right _ (hwoken.mem_iff.mpr List.mem_cons_self)
    have hc : c = .pop := hs.unique (List.mem_append_right _ hmem) hin
    rw [hc] at h
    exact pop_takes (q := { q with woken := rest }) h hw hne

/-- Whoever waits for a value has been woken if there is one. -/
theorem popper_woken (hcalls : ∀ p ∈ q.calls, Ordinary p.2)
    (hfed : q.Fed (monitor T) .notEmpty fun q => q.queue.length) (hne : q.shared.queue ≠ [])
    (hin : (t, .pop) ∈ q.calls) : ∃ t', (t', .pop) ∈ q.woken := by
  rcases List.mem_append.mp hin with hwait | hwoken
  · have hpos : 0 < q.wokenOn (monitor T) .notEmpty :=
      Nat.lt_of_lt_of_le (List.length_pos_iff.mpr hne) (hfed ⟨_, hwait, rfl⟩)
    obtain ⟨⟨t', c⟩, hp, he⟩ := List.countP_pos_iff.mp hpos
    rcases (hcalls _ (List.mem_append_right _ hp)).cases with ⟨hc, -⟩ | ⟨x, -, hk⟩
    · have hc : c = .pop := hc
      rw [hc] at hp
      exact ⟨t', hp⟩
    · exact absurd ((of_decide_eq_true he).symm.trans hk) (by simp)
  · exact ⟨t, hwoken⟩

/-- What a thread in `Pop` returns with. -/
theorem pop_returns {m : Move (QueueCall T) τ} {x : QueueReturn T}
    (h : Lib.Monitor.Step (monitor T) q m q' (some x)) (hs : q.Single)
    (hpop : (m.thread, .pop) ∈ q.calls ∨ ∃ u, m = .call m.thread .pop u) :
    (∃ front, x = .popped front) ∨ x = .notPopped := by
  rcases h.section with ⟨hr, -⟩ | ⟨c, hcall, y, n, hrun, hx, -⟩
  · cases hr
  have hc : c = .pop := by
    rcases hpop with hin | ⟨u, hm⟩
    · rcases hcall with hcall | ⟨u, hm⟩
      · exact hs.unique hin hcall
      · rw [hm] at h
        cases h with
        | call hb _ => exact absurd rfl (hb _ hin)
    · rcases hcall with hcall | ⟨u', hm'⟩
      · rw [hm] at h
        cases h with
        | call hb _ => exact absurd rfl (hb _ hcall)
      · rw [hm'] at hm
        exact (Move.call.inj hm).2.1
  rw [hc] at hrun
  rw [Option.some.inj hx]
  generalize q'.shared = shared at hrun
  cases critical_cases hrun with
  | pop hw hq => exact .inl ⟨_, rfl⟩
  | notPopped hw => exact .inr rfl

end BlockingQueue

namespace ThreadPool

variable {ι : Type} {w w' : ThreadPool ι}

/-! ## Workers in `Pop` -/

/-- What is known of the workers at the queue. -/
structure Alive (w : ThreadPool ι) : Prop where
  inv : Inv w
  /-- Workers are woken for the tasks they are blocked over. -/
  fed : w.queue.shared.wakeup = false →
    w.queue.Fed (BlockingQueue.monitor (Option ι)) .notEmpty fun q => q.queue.length
  inside : ∀ i, w.workers[i]? = some .inPop → (PoolThread.worker i, .pop) ∈ w.queue.calls
  /-- `Stop` clears `running_` first. -/
  running : w.running = true → w.pc = .idle ∨ ∃ left, w.pc = .starting left

theorem Alive.clear (h : Alive w) (hrun : w.running = true) : w.queue.shared.wakeup = false := by
  rw [h.inv.wakeup]
  rcases h.running hrun with hpc | ⟨left, hpc⟩ <;> rw [hpc] <;> rfl

theorem running_step (h : Alive w) (hs : PoolStep w w') :
    w'.running = true → w'.pc = .idle ∨ ∃ left, w'.pc = .starting left := by
  have hnot : ∀ {p : Prop}, w.running = true → w.pc ≠ .idle → (∀ left, w.pc ≠ .starting left) →
      p := by
    intro p hrun hidle hstart
    rcases h.running hrun with hpc | ⟨left, hpc⟩
    · exact absurd hpc hidle
    · exact absurd hpc (hstart left)
  cases hs with
  | queue hp hstep =>
    cases hp with
    | wakeUp hpc => exact fun hrun => hnot hrun (by rw [hpc]; simp) (by rw [hpc]; simp)
    | restore hpc => exact fun hrun => hnot hrun (by rw [hpc]; simp) (by rw [hpc]; simp)
    | _ => exact h.running
  | start hpc => exact fun _ => .inr ⟨_, rfl⟩
  | createThread hpc hpc' => exact fun _ => .inr ⟨_, rfl⟩
  | startReturns hpc => exact fun _ => .inl rfl
  | stop hpc => exact fun hrun => absurd hrun Bool.false_ne_true
  | join hpc hi => exact fun hrun => hnot hrun (by rw [hpc]; simp) (by rw [hpc]; simp)
  | joined hpc hi => exact fun hrun => hnot hrun (by rw [hpc]; simp) (by rw [hpc]; simp)
  | _ => exact h.running

theorem fed_step (h : Alive w) (hs : PoolStep w w') (hw : w'.queue.shared.wakeup = false) :
    w'.queue.Fed (BlockingQueue.monitor (Option ι)) .notEmpty fun q => q.queue.length := by
  have hwoken := (inv_step h.inv hs).wakeup
  cases hs with
  | @queue v m q r hp hstep =>
    obtain ⟨hqueue, -⟩ := prepared_queue hp
    -- a `Push` or `Pop` was made while `wakeup_` was clear
    have hordinary : v.pc = w.pc → (∀ t c u, m = .call t c u → BlockingQueue.Ordinary c) →
        q.Fed (BlockingQueue.monitor (Option ι)) .notEmpty fun q => q.queue.length := by
      intro hpc hnew
      have hclear : w.queue.shared.wakeup = false := by
        rw [h.inv.wakeup, ← hpc]
        exact hwoken.symm.trans hw
      rw [hqueue] at hstep
      exact hstep.fed BlockingQueue.supplies_notEmpty hclear
        (fun p hp => h.inv.core.ordinary (c := p.2) hp) hnew (h.fed hclear)
    cases hp with
    | wakeUp hpc => exact absurd (hwoken.symm.trans hw) (Bool.noConfusion)
    | restore hpc =>
      have hset : w.queue.shared.wakeup = true := by
        rw [h.inv.wakeup, hpc]
        rfl
      have hnobody : w.queue.waiting = [] := h.inv.core.awake hset
      rintro ⟨p, hmem, -⟩
      have hwaiting : q.waiting = [] := by
        cases hstep with
        | call hb hattempt =>
          cases hattempt with
          | waits hrun =>
            rcases (BlockingQueue.waits_cases hrun).1 with ⟨he, -⟩ | ⟨x, he, -⟩ <;> cases he
          | runs hrun hn =>
            cases BlockingQueue.critical_cases hrun
            cases hn
            exact hnobody
      have hmem : p ∈ q.waiting := hmem
      rw [hwaiting] at hmem
      exact absurd hmem List.not_mem_nil
    | pop hi => exact hordinary rfl fun t c u he => by cases he; trivial
    | addTask hadd => exact hordinary rfl fun t c u he => by cases he; trivial
    | resume => exact hordinary rfl fun t c u he => by cases he
    | spurious => exact hordinary rfl fun t c u he => by cases he
  | setQueueMaxSize maxsize => exact h.fed hw
  | _ => exact h.fed hw

/-- Who is in `Pop` when another place was set was there before. -/
theorem inPop_of_set {workers : List (WorkerPc ι)} {i j : Nat} {pc : WorkerPc ι} (hne : pc ≠ .inPop)
    (hi : (workers.set j pc)[i]? = some .inPop) : workers[i]? = some .inPop := by
  by_cases he : j = i
  · rw [he] at hi
    have hlt : i < workers.length := by
      have hlen := (List.getElem?_eq_some_iff.mp hi).1
      rw [List.length_set] at hlen
      exact hlen
    rw [List.getElem?_set_self hlt] at hi
    exact absurd (Option.some.inj hi) hne
  · rw [List.getElem?_set_ne he] at hi
    exact hi

/-- A worker that is in `Pop` is in its call, or calls it in this step. -/
theorem Alive.in_call (h : Alive w) {v : ThreadPool ι} {m : Move (QueueCall (Option ι)) PoolThread}
    {i : Nat} (hp : Prepared w m v) (hi : v.workers[i]? = some .inPop) :
    (PoolThread.worker i, .pop) ∈ v.queue.calls ∨ ∃ u, m = .call (.worker i) .pop u := by
  cases hp with
  | @pop j u hj =>
    by_cases he : j = i
    · rw [he]
      exact .inr ⟨u, rfl⟩
    · refine .inl (h.inside i ?_)
      have hi : (w.workers.set j .inPop)[i]? = some .inPop := hi
      rw [List.getElem?_set_ne he] at hi
      exact hi
  | wakeUp hpc => exact .inl (h.inside i hi)
  | restore hpc => exact .inl (h.inside i hi)
  | addTask hadd => exact .inl (h.inside i hi)
  | resume => exact .inl (h.inside i hi)
  | spurious => exact .inl (h.inside i hi)

/-- A worker that has returned from `Pop` is not in it. -/
theorem returned_ne_inPop {workers : List (WorkerPc ι)} {i : Nat} {x : QueueReturn (Option ι)}
    (hi : i < workers.length) (hx : (∃ front, x = .popped front) ∨ x = .notPopped) :
    (returned workers (.worker i) (some x))[i]? ≠ some .inPop := by
  have hset : ∀ task : Option ι, (workers.set i (.got task))[i]? ≠ some .inPop := by
    intro task he
    rw [List.getElem?_set_self hi] at he
    cases Option.some.inj he
  rcases hx with ⟨front, rfl⟩ | rfl
  · exact hset front
  · exact hset none

theorem inside_step (h : Alive w) (hs : PoolStep w w') :
    ∀ i, w'.workers[i]? = some .inPop → (PoolThread.worker i, .pop) ∈ w'.queue.calls := by
  -- another worker moves, or this one to a place outside of `Pop`
  have hset : ∀ {j : Nat} {pc : WorkerPc ι} {i : Nat}, pc ≠ .inPop →
      (w.workers.set j pc)[i]? = some .inPop → (PoolThread.worker i, .pop) ∈ w.queue.calls := by
    intro j pc i hne hi
    exact h.inside i (inPop_of_set hne hi)
  cases hs with
  | @queue v m q r hp hstep =>
    intro i hi
    dsimp only at hi ⊢
    obtain ⟨hqueue, -⟩ := prepared_queue hp
    obtain ⟨hv, hnew⟩ := h.inv.core.prepared hp
    -- who is in `Pop` was in it before the step or calls it now, and has not returned
    have hbefore : v.workers[i]? = some .inPop := by
      rcases hv.outcome hnew hstep with ⟨hsame, -⟩ | ⟨j, task, x, -, -, -, hsame, -⟩
      · rw [hsame] at hi
        exact hi
      · rw [hsame] at hi
        exact inPop_of_set (by simp) hi
    have hcall := h.in_call hp hbefore
    refine hstep.still_in_call hcall fun ht => ?_
    cases r with
    | none => rfl
    | some x =>
      rw [ht] at hi
      have hreturned := BlockingQueue.pop_returns hstep hv.single (by rw [ht]; exact hcall)
      exact absurd hi (returned_ne_inPop (List.getElem?_eq_some_iff.mp hbefore).1 hreturned)
  | @createThread left pc hpc hpc' =>
    intro i hi
    dsimp only at hi
    by_cases hlt : i < w.workers.length
    · rw [List.getElem?_append_left hlt] at hi
      exact h.inside i hi
    · have hmem := List.mem_of_getElem? hi
      rw [List.getElem?_append_right (Nat.not_lt.mp hlt)] at hi
      have hpop := List.mem_singleton.mp (List.mem_of_getElem? hi)
      rcases hpc' with he | he <;> rw [he] at hpop <;> cases hpop
  | check hi hpc =>
    exact fun j hj => hset (by rcases hpc with he | he <;> rw [he] <;> simp) hj
  | startTask hi => exact fun j hj => hset (by simp) hj
  | noTask hi => exact fun j hj => hset (by simp) hj
  | taskReturns hi hb => exact fun j hj => hset (by simp) hj
  | _ => exact h.inside

theorem alive_step (h : Alive w) (hs : PoolStep w w') : Alive w' :=
  ⟨inv_step h.inv hs, fed_step h hs, inside_step h hs, running_step h hs⟩

theorem alive_reachable {maxsize : Nat} (h : Reachable (machine ι maxsize) (fun _ _ => True) w) :
    Alive w := by
  refine h.invariant (I := Alive) ?_ (fun w a w' _ hi _ hs => alive_step hi (pool_step_cases hs))
  intro w hw
  rw [show w = create ι maxsize from hw]
  refine ⟨inv_init maxsize, fun _ => ?_, fun i hi => absurd hi (by simp [create]),
    fun _ => .inl rfl⟩
  rintro ⟨p, hp, -⟩
  exact absurd hp List.not_mem_nil

/-! ## One step of a worker -/

/-- Worker `i` goes on outside of the queue. -/
def GoesOn (i : Nat) : Label ι → Prop
  | .check j | .pop j _ | .testTask j | .taskReturns j => j = i
  | _ => False

/-- The worker runs, and is not in `Pop`. -/
def Outside : WorkerPc ι → Prop
  | .check | .popping | .got _ | .inTask _ => True
  | .notStarted | .inPop | .finished => False

/-- The steps up to the next call of `Pop`. -/
def WorkerPc.stage : WorkerPc ι → Nat
  | .got _ => 4
  | .inTask _ => 3
  | .check => 2
  | .popping => 1
  | .notStarted | .inPop | .finished => 0

/-- What a step does to one worker outside of `Pop`. -/
inductive Moves (w : ThreadPool ι) (i : Nat) : Label ι → WorkerPc ι → WorkerPc ι → Prop where
  | same {b : Label ι} {pc : WorkerPc ι} (h : ¬ GoesOn i b) : Moves w i b pc pc
  | check : Moves w i (.check i) .check (if w.running then .popping else .finished)
  | pop {u : Option PoolThread} {pc : WorkerPc ι} (h : pc = .inPop ∨ ∃ task, pc = .got task) :
      Moves w i (.pop i u) .popping pc
  | starts {task : ι} : Moves w i (.testTask i) (.got (some task)) (.inTask task)
  | noTask : Moves w i (.testTask i) (.got none) .check
  | taskReturns {task : ι} : Moves w i (.taskReturns i) (.inTask task) .check

section Moves

variable {i : Nat} {b : Label ι} {pc : WorkerPc ι}

/-- The others go on, and leave the worker where it is. -/
theorem moves_set {j : Nat} {pc' : WorkerPc ι} (hi : w.workers[i]? = some pc)
    (hself : j = i → Moves w i b pc pc') (hother : j ≠ i → ¬ GoesOn i b) :
    ∃ pc'', (w.workers.set j pc')[i]? = some pc'' ∧ Moves w i b pc pc'' := by
  by_cases he : j = i
  · refine ⟨pc', ?_, hself he⟩
    rw [he]
    exact List.getElem?_set_self (List.getElem?_eq_some_iff.mp hi).1
  · refine ⟨pc, ?_, .same (hother he)⟩
    rw [List.getElem?_set_ne he]
    exact hi

/-- A step at the queue leaves a worker outside of `Pop` where it is. -/
theorem moves_queue (hc : Core w) {v : ThreadPool ι} {m : Move (QueueCall (Option ι)) PoolThread}
    (hp : Prepared w m v) (hs : v.queueStep m = some w') (hi : v.workers[i]? = some pc)
    (hout : pc ≠ .inPop) : w'.workers[i]? = some pc := by
  obtain ⟨hv, hnew⟩ := hc.prepared hp
  obtain ⟨⟨q, r⟩, hstep, he⟩ := Option.map_eq_some_iff.mp hs
  rw [← he]
  rcases hv.outcome hnew (step_cases hstep) with ⟨hsame, -⟩ | ⟨j, task, x, -, -, hj, hset, -⟩
  · exact (congrArg (·[i]?) hsame).trans hi
  · refine (congrArg (·[i]?) hset).trans ?_
    have hne : j ≠ i := by
      rintro rfl
      rw [hj] at hi
      exact hout (Option.some.inj hi).symm
    rw [List.getElem?_set_ne hne]
    exact hi

/-- A step at the queue leaves a worker in `Pop`, or it returns from it. -/
theorem moves_inPop (hc : Core w) {v : ThreadPool ι} {m : Move (QueueCall (Option ι)) PoolThread}
    {q : BlockingQueue.Calls (Option ι) PoolThread} {r : Option (QueueReturn (Option ι))}
    (hp : Prepared w m v)
    (hs : Lib.Monitor.Step (BlockingQueue.monitor (Option ι)) v.queue m q r)
    (hi : v.workers[i]? = some .inPop) :
    ∃ pc, (returned v.workers m.thread r)[i]? = some pc
      ∧ (pc = .inPop ∨ ∃ task, pc = .got task) := by
  obtain ⟨hv, hnew⟩ := hc.prepared hp
  rcases hv.outcome hnew hs with ⟨hsame, -⟩ | ⟨j, task, x, -, -, -, hset, -⟩
  · rw [hsame]
    exact ⟨_, hi, .inl rfl⟩
  · rw [hset]
    by_cases he : j = i
    · rw [he]
      exact ⟨_, List.getElem?_set_self (List.getElem?_eq_some_iff.mp hi).1, .inr ⟨task, rfl⟩⟩
    · rw [List.getElem?_set_ne he]
      exact ⟨_, hi, .inl rfl⟩

theorem worker_step (hc : Core w) (hs : w.step b = some w') (hi : w.workers[i]? = some pc)
    (hout : pc ≠ .inPop) : ∃ pc', w'.workers[i]? = some pc' ∧ Moves w i b pc pc' := by
  unfold step at hs
  obtain ⟨-, hs⟩ := Option.ite_none_left_eq_some.mp hs
  have hqueue : ∀ {v : ThreadPool ι} {m : Move (QueueCall (Option ι)) PoolThread},
      ¬ GoesOn i b → Prepared w m v → v.workers = w.workers → v.queueStep m = some w' →
      ∃ pc', w'.workers[i]? = some pc' ∧ Moves w i b pc pc' := by
    intro v m hnot hp hsame hq
    exact ⟨pc, moves_queue hc hp hq (by rw [hsame]; exact hi) hout, .same hnot⟩
  cases b with
  | setQueueMaxSize maxsize =>
    rw [← Option.some.inj (Option.ite_none_right_eq_some.mp hs).2]
    exact ⟨pc, hi, .same id⟩
  | start n =>
    obtain ⟨hpc, hs⟩ := Option.ite_none_right_eq_some.mp hs
    split at hs <;> (rw [← Option.some.inj hs]; exact ⟨pc, hi, .same id⟩)
  | createThread ok =>
    dsimp only at hs
    split at hs
    · rw [← Option.some.inj hs]
      refine ⟨pc, ?_, .same id⟩
      dsimp only
      rw [List.getElem?_append_left (List.getElem?_eq_some_iff.mp hi).1]
      exact hi
    · cases hs
  | startReturns =>
    rw [← Option.some.inj (Option.ite_none_right_eq_some.mp hs).2]
    exact ⟨pc, hi, .same id⟩
  | stop =>
    rw [← Option.some.inj (Option.ite_none_right_eq_some.mp hs).2]
    exact ⟨pc, hi, .same id⟩
  | wakeUp =>
    obtain ⟨hpc, hs⟩ := Option.ite_none_right_eq_some.mp hs
    exact hqueue id (.wakeUp hpc) rfl hs
  | join =>
    dsimp only at hs
    split at hs
    · split at hs
      · rw [← Option.some.inj hs]; exact ⟨pc, hi, .same id⟩
      · rw [← Option.some.inj hs]; exact ⟨pc, hi, .same id⟩
      · cases hs
      · rw [← Option.some.inj hs]; exact ⟨pc, hi, .same id⟩
    · cases hs
  | restore =>
    obtain ⟨hpc, hs⟩ := Option.ite_none_right_eq_some.mp hs
    exact hqueue id (.restore hpc) rfl hs
  | check j =>
    dsimp only at hs
    split at hs
    · rename_i hj
      rw [← Option.some.inj hs]
      refine moves_set hi (fun he => ?_) id
      rw [he] at hj ⊢
      rw [hi] at hj
      rw [Option.some.inj hj]
      exact .check
    · cases hs
  | pop j u =>
    dsimp only at hs
    split at hs
    · rename_i hj
      by_cases he : j = i
      · rw [he] at hj hs ⊢
        rw [hi] at hj
        rw [Option.some.inj hj]
        obtain ⟨⟨q, r⟩, hstep, hw'⟩ := Option.map_eq_some_iff.mp hs
        obtain ⟨pc', hi', hpc'⟩ := moves_inPop hc (.pop (u := u) (hi.trans hj)) (step_cases hstep)
          (List.getElem?_set_self (List.getElem?_eq_some_iff.mp hi).1)
        rw [← hw']
        exact ⟨pc', hi', .pop hpc'⟩
      · refine ⟨pc, moves_queue hc (.pop hj) hs ?_ hout, .same he⟩
        exact (List.getElem?_set_ne he).trans hi
    · cases hs
  | testTask j =>
    dsimp only at hs
    split at hs
    · rename_i task hj
      rw [← Option.some.inj hs]
      refine moves_set hi (fun he => ?_) id
      rw [he] at hj ⊢
      rw [hi] at hj
      rw [Option.some.inj hj]
      exact .starts
    · rename_i hj
      rw [← Option.some.inj hs]
      refine moves_set hi (fun he => ?_) id
      rw [he] at hj ⊢
      rw [hi] at hj
      rw [Option.some.inj hj]
      exact .noTask
    · cases hs
  | taskReturns j =>
    dsimp only at hs
    split at hs
    · rename_i task hj
      obtain ⟨hb, hs⟩ := Option.ite_none_left_eq_some.mp hs
      rw [← Option.some.inj hs]
      refine moves_set hi (fun he => ?_) id
      rw [he] at hj ⊢
      rw [hi] at hj
      rw [Option.some.inj hj]
      exact .taskReturns
    · cases hs
  | addTask t task u =>
    obtain ⟨hadd, hs⟩ := Option.ite_none_right_eq_some.mp hs
    exact hqueue id (.addTask hadd) rfl hs
  | resume t u => exact hqueue id .resume rfl hs
  | spurious t => exact hqueue id .spurious rfl hs

end Moves

end ThreadPool

end Windz
