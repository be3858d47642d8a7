import Mathlib.Data.List.Basic
import Windz.Base.ThreadPoolProof

/-!
# `ThreadPool::Stop` and the producers

`Stop` wakes everybody up, joins its workers and then calls `Restore`. It does not
wait for the producers: one that was blocked in `AddTask` is woken up like the
workers, but takes the mutex again when it gets it. If that is after the `Restore`
and the queue is full, it finds `wakeup_` false and is blocked again.
-/

namespace Windz

open Lib Lib.Monitor

namespace ThreadPool

variable {ι : Type}

/-- The thread of a `Push` in progress. -/
def producer? {ι : Type} : PoolThread × QueueCall (Option ι) → Option PoolThread
  | (t, .push _) => some t
  | _ => none

/-- The threads that are in `AddTask`. -/
def producers (w : ThreadPool ι) : List PoolThread := w.queue.calls.filterMap producer?

/-- The thread is blocked in a call of the queue. -/
def blocked (w : ThreadPool ι) (t : PoolThread) : Bool := w.queue.waiting.any fun p => p.1 = t

/-- A pool with what becomes of the producers that `Stop` finds. -/
structure Watched (ι : Type) where
  /-- The pool. -/
  pool : ThreadPool ι
  /-- Ghost: the threads that were in `AddTask` when `Stop` last called `WakeUp`, and are still in
  that call. -/
  caught : List PoolThread
  /-- Ghost: those of them that were blocked in it again after `Stop` has returned. -/
  blockedAgain : List PoolThread

namespace Watched

/-- A new pool, with nobody caught. -/
def create (ι : Type) (maxsize : Nat) : Watched ι := ⟨.create ι maxsize, [], []⟩

/-- The threads caught, after a step that leads to `w`. -/
def caughtAfter (s : Watched ι) (w : ThreadPool ι) : Label ι → List PoolThread
  | .wakeUp => s.pool.producers
  | _ => s.caught.filter w.queue.busy

/-- The state when step `a` has taken the pool to `w`. -/
def after (s : Watched ι) (a : Label ι) (w : ThreadPool ι) : Watched ι where
  pool := w
  caught := s.caughtAfter w a
  blockedAgain :=
    s.blockedAgain ++ if woken w.pc then [] else (s.caughtAfter w a).filter w.blocked

/-- A pool and those who watch it. -/
def machine (ι : Type) (maxsize : Nat) : Machine (Watched ι) (Label ι) where
  init := (· = create ι maxsize)
  step := fun s a => (s.pool.step a).map (s.after a)

/-- A producer caught by `WakeUp` takes the mutex again before `Restore`, or while the queue has a
free slot. -/
def Released (s : Watched ι) : Label ι → Prop
  | .resume t _ => t ∈ s.caught → s.pool.queue.shared.wakeup = true
      ∨ s.pool.queue.shared.maxsize = 0
      ∨ s.pool.queue.shared.queue.length < s.pool.queue.shared.maxsize
  | _ => True

/-- `Restore` is called when all threads are woken up, as `BlockingQueue` asks. -/
def AllAwake (s : Watched ι) : Label ι → Prop
  | .restore => s.caught = []
  | _ => True

end Watched

/-! ## Who is blocked by a step -/

theorem queueStep_move {w v w' : ThreadPool ι} {m : Move (QueueCall (Option ι)) PoolThread}
    (h : v.queueStep m = some w') (hv : v.queue = w.queue) :
    ∃ r, Lib.Monitor.Step (BlockingQueue.monitor (Option ι)) w.queue m w'.queue r := by
  obtain ⟨⟨q, r⟩, hs, he⟩ := Option.map_eq_some_iff.mp h
  rw [← he, ← hv]
  exact ⟨r, step_cases hs⟩

/-- A step of the pool leaves the calls in progress alone, or is a step at the queue. -/
theorem queue_cases {w w' : ThreadPool ι} {a : Label ι} (h : w.step a = some w') :
    (w'.queue.waiting = w.queue.waiting ∧ w'.queue.woken = w.queue.woken)
    ∨ ∃ m r, Lib.Monitor.Step (BlockingQueue.monitor (Option ι)) w.queue m w'.queue r
      ∧ ∀ t u, m = .resume t u → a = .resume t u := by
  unfold step at h
  split at h
  · cases h
  cases a with
  | wakeUp =>
    obtain ⟨-, h⟩ := Option.ite_none_right_eq_some.mp h
    obtain ⟨r, hstep⟩ := queueStep_move (w := w) h rfl
    exact .inr ⟨_, r, hstep, fun t u he => by cases he⟩
  | restore =>
    obtain ⟨-, h⟩ := Option.ite_none_right_eq_some.mp h
    obtain ⟨r, hstep⟩ := queueStep_move (w := w) h rfl
    exact .inr ⟨_, r, hstep, fun t u he => by cases he⟩
  | pop i u =>
    dsimp only at h
    split at h
    · obtain ⟨r, hstep⟩ := queueStep_move (w := w) h rfl
      exact .inr ⟨_, r, hstep, fun t u he => by cases he⟩
    · cases h
  | addTask t task u =>
    obtain ⟨-, h⟩ := Option.ite_none_right_eq_some.mp h
    obtain ⟨r, hstep⟩ := queueStep_move h rfl
    exact .inr ⟨_, r, hstep, fun t u he => by cases he⟩
  | resume t u =>
    obtain ⟨r, hstep⟩ := queueStep_move h rfl
    exact .inr ⟨_, r, hstep, fun t u he => by cases he; rfl⟩
  | spurious t =>
    obtain ⟨r, hstep⟩ := queueStep_move h rfl
    exact .inr ⟨_, r, hstep, fun t u he => by cases he⟩
  | _ =>
    refine .inl ?_
    dsimp only at h
    repeat' split at h
    all_goals first | cases h; exact ⟨rfl, rfl⟩ | cases h

theorem blocked_iff {w : ThreadPool ι} {t : PoolThread} :
    w.blocked t = true ↔ ∃ c, (t, c) ∈ w.queue.waiting := by
  constructor
  · intro h
    obtain ⟨⟨u, c⟩, hp, he⟩ := List.any_eq_true.mp h
    rw [← show u = t from of_decide_eq_true he]
    exact ⟨c, hp⟩
  · rintro ⟨c, hp⟩
    exact List.any_eq_true.mpr ⟨_, hp, decide_eq_true rfl⟩

theorem busy_iff {w : ThreadPool ι} {t : PoolThread} :
    w.queue.busy t = true ↔ ∃ c, (t, c) ∈ w.queue.calls := by
  constructor
  · intro h
    obtain ⟨⟨u, c⟩, hp, he⟩ := List.any_eq_true.mp h
    rw [← show u = t from of_decide_eq_true he]
    exact ⟨c, hp⟩
  · rintro ⟨c, hp⟩
    exact List.any_eq_true.mpr ⟨_, hp, decide_eq_true rfl⟩

theorem mem_producers {w : ThreadPool ι} {t : PoolThread} :
    t ∈ w.producers ↔ ∃ task, (t, .push task) ∈ w.queue.calls := by
  constructor
  · intro h
    obtain ⟨⟨u, c⟩, hp, he⟩ := List.mem_filterMap.mp h
    cases c with
    | push task =>
      cases he
      exact ⟨task, hp⟩
    | _ => cases he
  · rintro ⟨task, hp⟩
    exact List.mem_filterMap.mpr ⟨_, hp, rfl⟩

/-- A producer that a step leaves blocked was so before, or has taken the mutex again and found
neither `wakeup_` nor a free slot. -/
theorem blocked_step {w w' : ThreadPool ι} {a : Label ι} (h : w.step a = some w') {t : PoolThread}
    (ht : ∃ c, (t, c) ∈ w.queue.calls) {c : QueueCall (Option ι)}
    (hb : (t, c) ∈ w'.queue.waiting) :
    (t, c) ∈ w.queue.waiting ∨ (∃ u, a = .resume t u) ∧ (t, c) ∈ w.queue.woken
      ∧ (BlockingQueue.monitor (Option ι)).run w.queue.shared c = none := by
  rcases queue_cases h with ⟨hwaiting, -⟩ | ⟨m, r, hstep, hresume⟩
  · rw [hwaiting] at hb
    exact .inl hb
  · rcases hstep.mem_waiting hb with hold | hnew | ⟨⟨u, hm⟩, hwoken, hrun⟩
    · exact .inl hold
    · obtain ⟨c, hc⟩ := ht
      exact (hnew _ hc rfl).elim
    · exact .inr ⟨⟨u, hresume _ _ hm⟩, hwoken, hrun⟩

/-- Who stays in the queue stays in its call. -/
theorem call_step {w w' : ThreadPool ι} {a : Label ι} (h : w.step a = some w')
    (hsingle : w.queue.Single) {t : PoolThread} {c c' : QueueCall (Option ι)}
    (hc : (t, c) ∈ w.queue.calls) (hc' : (t, c') ∈ w'.queue.calls) : c' = c := by
  have hsame : (t, c') ∈ w.queue.calls → c' = c := hsingle.unique hc
  rcases queue_cases h with ⟨hwaiting, hwoken⟩ | ⟨m, r, hstep, -⟩
  · unfold State.calls at hc'
    rw [hwaiting, hwoken] at hc'
    exact hsame hc'
  · rcases hstep.mem_calls hc' with hold | ⟨-, u, hm⟩
    · exact hsame hold
    · -- a thread makes a call only when it is in none
      rw [hm] at hstep
      cases hstep with
      | call hb _ => exact (hb _ hc rfl).elim

/-- `WakeUp` leaves everybody in its call. -/
theorem wakeUp_step {w w' : ThreadPool ι} (h : w.step .wakeUp = some w') :
    woken w'.pc = true ∧ ∀ p ∈ w.queue.calls, p ∈ w'.queue.calls := by
  unfold step at h
  split at h
  · cases h
  obtain ⟨-, h⟩ := Option.ite_none_right_eq_some.mp h
  obtain ⟨⟨q, r⟩, hs, he⟩ := Option.map_eq_some_iff.mp h
  rw [← he]
  refine ⟨rfl, fun p hp => ?_⟩
  cases step_cases hs with
  | call hb hattempt =>
    rcases hattempt.calls with ⟨-, hperm⟩ | ⟨-, hperm⟩
    · exact hperm.mem_iff.mpr (List.mem_cons_of_mem _ hp)
    · exact hperm.mem_iff.mpr hp

theorem queueStep_pc {v w' : ThreadPool ι} {m : Move (QueueCall (Option ι)) PoolThread}
    (h : v.queueStep m = some w') : w'.pc = v.pc := by
  obtain ⟨⟨q, r⟩, -, he⟩ := Option.map_eq_some_iff.mp h
  rw [← he]

/-- Only `Restore` leads out of the part of `Stop` where all are awake. -/
theorem leaves_woken {w w' : ThreadPool ι} {a : Label ι} (h : w.step a = some w')
    (hw : woken w.pc = true) (hw' : woken w'.pc = false) : a = .restore := by
  have hsame : w'.pc ≠ w.pc := fun he => by
    rw [he, hw] at hw'
    cases hw'
  unfold step at h
  split at h
  · cases h
  cases a with
  | restore => rfl
  | setQueueMaxSize n =>
    rw [(Option.ite_none_right_eq_some.mp h).1] at hw
    cases hw
  | start n =>
    rw [(Option.ite_none_right_eq_some.mp h).1] at hw
    cases hw
  | createThread ok =>
    dsimp only at h
    split at h
    · rename_i left hpc
      rw [hpc] at hw
      cases hw
    · cases h
  | startReturns =>
    rw [(Option.ite_none_right_eq_some.mp h).1] at hw
    cases hw
  | stop =>
    rw [(Option.ite_none_right_eq_some.mp h).1] at hw
    cases hw
  | wakeUp =>
    rw [(Option.ite_none_right_eq_some.mp h).1] at hw
    cases hw
  | join =>
    dsimp only at h
    split at h
    · split at h
      · cases h; cases hw'
      · cases h; exact absurd rfl hsame
      · cases h
      · cases h; cases hw'
    · cases h
  | check i =>
    dsimp only at h
    split at h
    · cases h; exact absurd rfl hsame
    · cases h
  | pop i u =>
    dsimp only at h
    split at h
    · exact absurd (queueStep_pc h) hsame
    · cases h
  | testTask i =>
    dsimp only at h
    split at h
    · cases h; exact absurd rfl hsame
    · cases h; exact absurd rfl hsame
    · cases h
  | taskReturns i =>
    dsimp only at h
    split at h
    · split at h
      · cases h
      · cases h; exact absurd rfl hsame
    · cases h
  | addTask t task u =>
    obtain ⟨-, h⟩ := Option.ite_none_right_eq_some.mp h
    exact absurd (queueStep_pc h) hsame
  | resume t u => exact absurd (queueStep_pc h) hsame
  | spurious t => exact absurd (queueStep_pc h) hsame

/-- A producer waits when it finds neither `wakeup_` nor a free slot. -/
theorem push_waits_iff {q : BlockingQueue (Option ι)} {task : Option ι} :
    (BlockingQueue.monitor (Option ι)).run q (.push task) = none
      ↔ ¬ (q.wakeup = true ∨ q.maxsize = 0 ∨ q.queue.length < q.maxsize) := by
  show Option.map _ (q.push task) = none ↔ _
  rw [Option.map_eq_none_iff]
  unfold BlockingQueue.push
  by_cases hw : q.wakeup = true
  · simp [hw]
  · by_cases hroom : q.maxsize = 0 ∨ q.queue.length < q.maxsize
    · simp [hw, hroom]
    · simp [hw, hroom]

/-- A producer that was woken takes the mutex. -/
theorem resume_waits {w w' : ThreadPool ι} {t : PoolThread} {u : Option PoolThread}
    (h : w.step (.resume t u) = some w') (hsingle : w.queue.Single) {task : Option ι}
    (hc : (t, .push task) ∈ w.queue.calls)
    (hwait : (BlockingQueue.monitor (Option ι)).run w.queue.shared (.push task) = none) :
    w'.pc = w.pc ∧ w'.blocked t = true ∧ w'.queue.busy t = true := by
  unfold step at h
  split at h
  · cases h
  obtain ⟨⟨q, r⟩, hs, he⟩ := Option.map_eq_some_iff.mp h
  rw [← he]
  cases step_cases hs with
  | @resume t c u rest q r hwoken hattempt =>
    have hmem : (t, c) ∈ w.queue.calls :=
      List.mem_append_right _ (hwoken.mem_iff.mpr List.mem_cons_self)
    have hpush : c = .push task := hsingle.unique hc hmem
    rw [hpush] at hattempt
    cases hattempt with
    | waits _ =>
      have hblocked : (t, QueueCall.push task) ∈ w.queue.waiting ++ [(t, .push task)] :=
        List.mem_append_right _ (List.mem_singleton.mpr rfl)
      exact ⟨rfl, blocked_iff.mpr ⟨_, hblocked⟩,
        busy_iff.mpr ⟨_, List.mem_append_left _ hblocked⟩⟩
    | runs hrun _ =>
      rw [hwait] at hrun
      cases hrun

/-! ## Runs -/

namespace Watched

/-- The invariant: of the pool, and of those caught in `AddTask`. -/
structure WatchInv (s : Watched ι) : Prop where
  pool : Inv s.pool
  caught : ∀ t ∈ s.caught, ∃ task, (t, .push task) ∈ s.pool.queue.calls
  /-- A caught producer that is blocked was noted. -/
  noted : s.blockedAgain = [] → ∀ t ∈ s.caught, s.pool.blocked t = false

theorem caught_step {s : Watched ι} {a : Label ι} {w' : ThreadPool ι} (hi : WatchInv s)
    (h : s.pool.step a = some w') :
    ∀ t ∈ s.caughtAfter w' a, ∃ task, (t, .push task) ∈ w'.queue.calls := by
  intro t ht
  have hstays : t ∈ s.caught.filter w'.queue.busy → ∃ task, (t, .push task) ∈ w'.queue.calls := by
    intro hmem
    obtain ⟨hold, hbusy⟩ := List.mem_filter.mp hmem
    obtain ⟨task, hc⟩ := hi.caught t hold
    obtain ⟨c', hc'⟩ := busy_iff.mp hbusy
    rw [call_step h hi.pool.core.single hc hc'] at hc'
    exact ⟨task, hc'⟩
  cases a with
  | wakeUp =>
    obtain ⟨task, hc⟩ := mem_producers.mp ht
    exact ⟨task, (wakeUp_step h).2 _ hc⟩
  | _ => exact hstays ht

/-- Nobody is blocked between the `WakeUp` and the `Restore` of `Stop`. -/
theorem not_blocked {w : ThreadPool ι} (hi : Inv w) (hpc : woken w.pc = true) (t : PoolThread) :
    w.blocked t = false := by
  have hnone : w.queue.waiting = [] := hi.core.awake (hi.wakeup.trans hpc)
  unfold blocked
  rw [hnone]
  rfl

theorem noted_step {s : Watched ι} {a : Label ι} {w' : ThreadPool ι} (hi' : Inv w')
    (hnone : (s.after a w').blockedAgain = []) :
    ∀ t ∈ s.caughtAfter w' a, w'.blocked t = false := by
  intro t ht
  have hadded := (List.append_eq_nil_iff.mp hnone).2
  by_cases hpc : woken w'.pc = true
  · exact not_blocked hi' hpc t
  · rw [if_neg hpc] at hadded
    exact Bool.eq_false_iff.mpr (List.filter_eq_nil_iff.mp hadded t ht)

theorem watchInv_step {s : Watched ι} {a : Label ι} {w' : ThreadPool ι} (hi : WatchInv s)
    (h : s.pool.step a = some w') : WatchInv (s.after a w') :=
  have hi' := inv_step hi.pool (pool_step_cases h)
  ⟨hi', caught_step hi h, noted_step hi'⟩

/-- A caught producer is blocked by a step exactly when it takes the mutex again after `Restore` and
finds the queue full. -/
theorem blockedAgain_step {s : Watched ι} {a : Label ι} {w' : ThreadPool ι} (hi : WatchInv s)
    (h : s.pool.step a = some w') :
    (s.after a w').blockedAgain = [] ↔ s.blockedAgain = [] ∧ Released s a := by
  have hi' := inv_step hi.pool (pool_step_cases h)
  constructor
  · intro hnone
    refine ⟨(List.append_eq_nil_iff.mp hnone).1, ?_⟩
    cases a with
    | resume t u =>
      intro ht
      by_contra hfull
      obtain ⟨task, hc⟩ := hi.caught t ht
      obtain ⟨-, hblocked, hbusy⟩ :=
        resume_waits h hi.pool.core.single hc (push_waits_iff.mpr hfull)
      have hcaught : t ∈ s.caughtAfter w' (.resume t u) := List.mem_filter.mpr ⟨ht, hbusy⟩
      rw [noted_step hi' hnone t hcaught] at hblocked
      cases hblocked
    | _ => trivial
  · rintro ⟨hnone, hok⟩
    show s.blockedAgain ++ _ = []
    rw [hnone, List.nil_append]
    by_cases hpc : woken w'.pc = true
    · rw [if_pos hpc]
    rw [if_neg hpc]
    refine List.filter_eq_nil_iff.mpr fun t ht hblocked => ?_
    have hcaught : t ∈ s.caught := by
      cases a with
      | wakeUp => exact absurd (wakeUp_step h).1 hpc
      | _ => exact (List.mem_filter.mp ht).1
    obtain ⟨task, hc⟩ := hi.caught t hcaught
    obtain ⟨c, hc'⟩ := blocked_iff.mp hblocked
    rcases blocked_step h ⟨_, hc⟩ hc' with hold | ⟨⟨u, ha⟩, hwoken, hrun⟩
    · have hquiet := hi.noted hnone t hcaught
      rw [blocked_iff.mpr ⟨_, hold⟩] at hquiet
      cases hquiet
    · have hmem : (t, c) ∈ s.pool.queue.calls := List.mem_append_right _ hwoken
      have hpush := hi.pool.core.single.unique hc hmem
      rw [hpush] at hrun
      rw [ha] at hok
      exact push_waits_iff.mp hrun (hok hcaught)

theorem watchInv_init (maxsize : Nat) : WatchInv (create ι maxsize) :=
  ⟨inv_init maxsize, fun _ ht => absurd ht List.not_mem_nil,
    fun _ _ ht => absurd ht List.not_mem_nil⟩

theorem step_eq {maxsize : Nat} {s s' : Watched ι} {a : Label ι}
    (h : (machine ι maxsize).step s a = some s') :
    ∃ w', s.pool.step a = some w' ∧ s.after a w' = s' := Option.map_eq_some_iff.mp h

theorem run_inv {maxsize : Nat} {ok : Watched ι → Label ι → Prop} {s : Watched ι}
    {as : List (Label ι)} (h : Run (machine ι maxsize) ok (create ι maxsize) as s) :
    WatchInv s := by
  refine h.invariant (watchInv_init maxsize) fun u a u' hu _ hs => ?_
  obtain ⟨w', hw, he⟩ := step_eq hs
  rw [← he]
  exact watchInv_step hu hw

/-- Where `Restore` is called when all are awake, nobody is caught outside of `Stop`. -/
theorem run_released {maxsize : Nat} {s : Watched ι} {as : List (Label ι)}
    (h : Run (machine ι maxsize) AllAwake (create ι maxsize) as s) :
    Run (machine ι maxsize) Released (create ι maxsize) as s
      ∧ (woken s.pool.pc = false → s.caught = []) := by
  induction h with
  | nil => exact ⟨.nil, fun _ => rfl⟩
  | @tail as u s' a hr hok hs ih =>
    obtain ⟨hrel, hnobody⟩ := ih
    have hi := run_inv hr
    obtain ⟨w', hw, he⟩ := step_eq hs
    refine ⟨.tail hrel ?_ hs, fun hpc => ?_⟩
    · cases a with
      | resume t v =>
        intro ht
        refine .inl (hi.pool.wakeup.trans ?_)
        by_contra hpc
        rw [hnobody (Bool.eq_false_iff.mpr hpc)] at ht
        cases ht
      | _ => trivial
    · rw [← he] at hpc ⊢
      have hnone : a ≠ .wakeUp → u.caught = [] → (u.after a w').caught = [] := by
        intro ha hcaught
        cases a with
        | wakeUp => exact absurd rfl ha
        | _ =>
          show u.caught.filter _ = []
          rw [hcaught]
          rfl
      by_cases hold : woken u.pool.pc = true
      · -- it is `Restore` that ends the time when all are awake
        have ha := leaves_woken hw hold hpc
        rw [ha] at hok
        exact hnone (by rw [ha]; exact nofun) hok
      · refine hnone (fun ha => ?_) (hnobody (Bool.eq_false_iff.mpr hold))
        rw [ha] at hw
        exact absurd (hpc.symm.trans (wakeUp_step hw).1) Bool.false_ne_true

/-- **Who is left behind by `Stop`.** For any bound, any number of producers and every order of the
steps of all threads: no producer that was in `AddTask` when `Stop` called `WakeUp` is blocked again
in that call after `Stop` has returned, exactly when each of them takes the mutex again before
`Restore` is called, or while the queue has a free slot. It is enough that `Restore` is called when
all of them have been woken up. -/
theorem stop_releases_iff {maxsize : Nat} {s : Watched ι} {as : List (Label ι)}
    (h : Run (machine ι maxsize) (fun _ _ => True) (create ι maxsize) as s) :
    (s.blockedAgain = [] ↔ Run (machine ι maxsize) Released (create ι maxsize) as s)
    ∧ (Run (machine ι maxsize) AllAwake (create ι maxsize) as s → s.blockedAgain = []) := by
  have hiff : s.blockedAgain = [] ↔ Run (machine ι maxsize) Released (create ι maxsize) as s := by
    induction h with
    | nil => exact ⟨fun _ => .nil, fun _ => rfl⟩
    | tail hr _ hs ih =>
      obtain ⟨w', hw, he⟩ := step_eq hs
      rw [hr.concat_iff hs, ← ih, ← he]
      exact blockedAgain_step (run_inv hr) hw
  exact ⟨hiff, fun hawake => hiff.mpr (run_released hawake).1⟩

instance (s : Watched ι) (a : Label ι) : Decidable (Released s a) :=
  match a with
  | .resume t _ => inferInstanceAs (Decidable (t ∈ s.caught → _))
  | .setQueueMaxSize _ | .start _ | .createThread _ | .startReturns | .stop | .wakeUp | .join
  | .restore | .check _ | .pop _ _ | .testTask _ | .taskReturns _ | .addTask _ _ _ | .spurious _ =>
      isTrue trivial

/-- The worker is in a task, another task fills the queue, and a producer is blocked behind it when
`Stop` begins. It goes on before the `Restore`. -/
theorem stop_releases_iff_small : ∃ as s,
    Run (machine Nat 1) (fun _ _ => True) (create Nat 1) as s
    ∧ .wakeUp ∈ as ∧ s.pool.pc = .idle ∧ s.pool.queue.calls = [] ∧ s.blockedAgain = [] := by
  have hexec : ((machine Nat 1).exec Released (create Nat 1)
      [.start 1, .createThread true, .startReturns, .check 0, .pop 0 none,
        .addTask (.other 3) (some 7) (some (.worker 0)), .resume (.worker 0) none, .testTask 0,
        .addTask (.other 3) (some 8) none, .addTask (.other 4) (some 9) none, .stop, .wakeUp,
        .resume (.other 4) none, .taskReturns 0, .check 0, .join, .join, .restore]).map
      (fun s => decide (s.pool.pc = .idle ∧ s.pool.queue.calls = [])) = some true := by
    decide +kernel
  obtain ⟨s, hs, hp⟩ := Option.map_eq_some_iff.mp hexec
  obtain ⟨hpc, hcalls⟩ := of_decide_eq_true hp
  have hrun := Machine.exec_run _ hs
  have hall : Run (machine Nat 1) (fun _ _ => True) (create Nat 1) _ s :=
    hrun.mono fun _ _ _ => trivial
  exact ⟨_, s, hall, by decide, hpc, hcalls, (stop_releases_iff hall).1.mpr hrun⟩

/-- The same, but the producer gets the mutex only after the `Restore`: the queue is full as before,
`wakeup_` is false, and there is no worker left. -/
theorem producer_is_left_behind :
    ¬ ∀ (maxsize : Nat) (as : List (Label Nat)) (s : Watched Nat),
      Run (machine Nat maxsize) (fun _ _ => True) (create Nat maxsize) as s →
        s.blockedAgain = [] := by
  intro hclaim
  have hexec : ((machine Nat 1).exec (fun _ _ => True) (create Nat 1)
      [.start 1, .createThread true, .startReturns, .check 0, .pop 0 none,
        .addTask (.other 3) (some 7) (some (.worker 0)), .resume (.worker 0) none, .testTask 0,
        .addTask (.other 3) (some 8) none, .addTask (.other 4) (some 9) none, .stop, .wakeUp,
        .taskReturns 0, .check 0, .join, .join, .restore, .resume (.other 4) none]).map
      (fun s => decide (s.pool.pc = .idle ∧ s.blockedAgain = [.other 4])) = some true := by
    decide +kernel
  obtain ⟨s, hs, hp⟩ := Option.map_eq_some_iff.mp hexec
  obtain ⟨-, hagain⟩ := of_decide_eq_true hp
  have hnone := hclaim 1 _ s (Machine.exec_run _ hs)
  rw [hnone] at hagain
  cases hagain

end Watched

end ThreadPool

end Windz
