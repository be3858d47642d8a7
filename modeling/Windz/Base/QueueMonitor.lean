import Mathlib.Data.List.Basic
import Mathlib.Data.List.Perm.Basic
import Windz.Base.BlockingQueue
import Windz.Lib.Monitor

/-!
# Threads at a `BlockingQueue`

`BlockingQueue` with any number of threads calling it. Its mutex and its conditions
`not_empty_` and `not_full_` make it a monitor: `Push` waits on `not_full_` and signals
`not_empty_`, `Pop` the other way round, and `WakeUp` wakes everybody.
-/

namespace Windz

open Lib Lib.Monitor

variable {T : Type}

/-- The functions of a queue that take its mutex. -/
inductive QueueCall (T : Type) where
  | push (x : T)
  | pop
  | wakeUp
  | restore
deriving DecidableEq

/-- The conditions of a queue. -/
inductive QueueCond where
  | notEmpty
  | notFull
deriving DecidableEq

/-- What a call has done when it returns. -/
inductive QueueReturn (T : Type) where
  | pushed
  | popped (front : T)
  -- `Push` and `Pop` that found `wakeup_` set; `Pop` returns `T()`
  | notPushed
  | notPopped
  /-- `WakeUp` and `Restore`. -/
  | set
deriving DecidableEq

namespace BlockingQueue

/-- The critical section of a call behind its wait. -/
def criticalSection (q : BlockingQueue T) :
    QueueCall T → Option (BlockingQueue T × QueueReturn T × Notice QueueCond)
  | .push x => (q.push x).map fun q' =>
      if q.wakeup then (q', .notPushed, .none) else (q', .pushed, .one .notEmpty)
  | .pop => q.pop.map fun (front, q') =>
      match front with
      | some front => (q', .popped front, .one .notFull)
      | none => (q', .notPopped, .none)
  | .wakeUp => some ({ q with wakeup := true }, .set, .all)
  | .restore => some ({ q with wakeup := false }, .set, .none)

/-- The condition a call waits on; `WakeUp` and `Restore` never wait. -/
def cond : QueueCall T → QueueCond
  | .push _ => .notFull
  | .pop | .wakeUp | .restore => .notEmpty

/-- A queue as a monitor. -/
def monitor (T : Type) : Monitor (BlockingQueue T) (QueueCall T) QueueCond (QueueReturn T) where
  cond := cond
  run := criticalSection

/-- A queue and the threads in a call of it. -/
abbrev Calls (T τ : Type) := State (BlockingQueue T) (QueueCall T) (QueueReturn T) τ

/-- The value that a call added to the queue. -/
def acceptedBy {τ : Type} : τ × QueueCall T × QueueReturn T → Option T
  | (_, .push x, .pushed) => some x
  | _ => none

/-- The value that a call took from the queue. -/
def takenBy {τ : Type} : τ × QueueCall T × QueueReturn T → Option T
  | (_, .pop, .popped front) => some front
  | _ => none

/-- The values accepted so far, and those taken, each in the order of the critical sections. -/
def accepted {τ : Type} (w : Calls T τ) : List T := w.log.filterMap acceptedBy

/-- The elements that calls of `Pop` have returned, in order. -/
def taken {τ : Type} (w : Calls T τ) : List T := w.log.filterMap takenBy

/-- What a critical section does: with `wakeup_` set `Push` and `Pop` leave the queue alone. -/
inductive Critical (q : BlockingQueue T) : QueueCall T → BlockingQueue T → QueueReturn T →
    Notice QueueCond → Prop where
  | push {x : T} (hw : q.wakeup = false) (hroom : q.maxsize = 0 ∨ q.queue.length < q.maxsize) :
      Critical q (.push x) { q with queue := q.queue ++ [x] } .pushed (.one .notEmpty)
  | pop {front : T} {rest : List T} (hw : q.wakeup = false) (hq : q.queue = front :: rest) :
      Critical q .pop { q with queue := rest } (.popped front) (.one .notFull)
  | notPushed {x : T} (hw : q.wakeup = true) : Critical q (.push x) q .notPushed .none
  | notPopped (hw : q.wakeup = true) : Critical q .pop q .notPopped .none
  | wakeUp : Critical q .wakeUp { q with wakeup := true } .set .all
  | restore : Critical q .restore { q with wakeup := false } .set .none

theorem critical_cases {q q' : BlockingQueue T} {c : QueueCall T} {r : QueueReturn T}
    {n : Notice QueueCond} (h : (monitor T).run q c = some (q', r, n)) : Critical q c q' r n := by
  cases c with
  | push x =>
    obtain ⟨q'', hpush, he⟩ := Option.map_eq_some_iff.mp h
    unfold BlockingQueue.push at hpush
    by_cases hw : q.wakeup = true
    · rw [if_pos hw] at hpush he
      cases hpush
      cases he
      exact .notPushed hw
    · rw [if_neg hw] at hpush he
      split at hpush
      · rename_i hroom
        cases hpush
        cases he
        exact .push (Bool.eq_false_iff.mpr hw) hroom
      · cases hpush
  | pop =>
    obtain ⟨⟨front, q''⟩, hpop, he⟩ := Option.map_eq_some_iff.mp h
    unfold BlockingQueue.pop at hpop
    by_cases hw : q.wakeup = true
    · rw [if_pos hw] at hpop
      cases hpop
      cases he
      exact .notPopped hw
    · rw [if_neg hw] at hpop
      split at hpop
      · cases hpop
      · rename_i x rest hq
        cases hpop
        cases he
        exact .pop (Bool.eq_false_iff.mpr hw) hq
  | wakeUp => cases h; exact .wakeUp
  | restore => cases h; exact .restore

/-- A call waits only when there is nothing for it and nobody has set `wakeup_`. -/
theorem waits_cases {q : BlockingQueue T} {c : QueueCall T} (h : (monitor T).run q c = none) :
    (c = .pop ∧ q.queue = [] ∨ ∃ x, c = .push x ∧ q.maxsize ≤ q.queue.length)
      ∧ q.wakeup = false := by
  cases c with
  | push x =>
    have hpush := Option.map_eq_none_iff.mp h
    unfold BlockingQueue.push at hpush
    split at hpush
    · cases hpush
    · rename_i hw
      split at hpush
      · cases hpush
      · rename_i hfull
        exact ⟨.inr ⟨x, rfl, by omega⟩, Bool.eq_false_iff.mpr hw⟩
  | pop =>
    have hpop := Option.map_eq_none_iff.mp h
    unfold BlockingQueue.pop at hpop
    split at hpop
    · cases hpop
    · rename_i hw
      split at hpop
      · rename_i hq
        exact ⟨.inl ⟨rfl, hq⟩, Bool.eq_false_iff.mpr hw⟩
      · cases hpop
  | wakeUp => cases h
  | restore => cases h

/-! ## First in, first out -/

/-- What was taken and what is in the queue is what was accepted, in order; and the bound is kept. -/
structure Fifo (limit : Nat) (q : BlockingQueue T) (accepted taken : List T) : Prop where
  order : taken ++ q.queue = accepted
  maxsize : q.maxsize = limit
  bound : 0 < limit → q.queue.length ≤ limit

theorem Critical.order {q q' : BlockingQueue T} {c : QueueCall T} {r : QueueReturn T}
    {n : Notice QueueCond} {τ : Type} {t : τ} {log : List (τ × QueueCall T × QueueReturn T)}
    (h : Critical q c q' r n)
    (ho : log.filterMap takenBy ++ q.queue = log.filterMap acceptedBy) :
    (log ++ [(t, c, r)]).filterMap takenBy ++ q'.queue
      = (log ++ [(t, c, r)]).filterMap acceptedBy := by
  rw [List.filterMap_append, List.filterMap_append]
  cases h with
  | @push x hw hroom =>
    show log.filterMap takenBy ++ [] ++ (q.queue ++ [x]) = log.filterMap acceptedBy ++ [x]
    rw [List.append_nil, ← List.append_assoc, ho]
  | @pop front rest hw hq =>
    show log.filterMap takenBy ++ [front] ++ rest = log.filterMap acceptedBy ++ []
    rw [List.append_nil, ← ho, hq, List.append_assoc]
    rfl
  | _ =>
    show log.filterMap takenBy ++ [] ++ q.queue = log.filterMap acceptedBy ++ []
    rw [List.append_nil, List.append_nil, ho]

theorem Critical.fifo {limit : Nat} {q q' : BlockingQueue T} {c : QueueCall T}
    {r : QueueReturn T} {n : Notice QueueCond} {τ : Type} {t : τ}
    {log : List (τ × QueueCall T × QueueReturn T)} (h : Critical q c q' r n)
    (hf : Fifo limit q (log.filterMap acceptedBy) (log.filterMap takenBy)) :
    Fifo limit q' ((log ++ [(t, c, r)]).filterMap acceptedBy)
      ((log ++ [(t, c, r)]).filterMap takenBy) := by
  refine ⟨h.order hf.order, ?_, ?_⟩
  · cases h <;> exact hf.maxsize
  · intro hpos
    have hbound := hf.bound hpos
    have hmax := hf.maxsize
    cases h with
    | push hw hroom =>
      rw [List.length_append, List.length_singleton]
      omega
    | pop hw hq =>
      rw [hq, List.length_cons] at hbound
      dsimp only
      omega
    | _ => exact hbound

/-- `wakeup_` behind a call. -/
def wakeupAfter (wakeup : Bool) : QueueCall T → Bool
  | .wakeUp => true
  | .restore => false
  | .push _ | .pop => wakeup

theorem Critical.wakeup {q q' : BlockingQueue T} {c : QueueCall T} {r : QueueReturn T}
    {n : Notice QueueCond} (h : Critical q c q' r n) : q'.wakeup = wakeupAfter q.wakeup c := by
  cases h <;> rfl

/-- While `wakeup_` is set nothing is added or removed. -/
theorem Critical.woken {q q' : BlockingQueue T} {c : QueueCall T} {r : QueueReturn T}
    {n : Notice QueueCond} {τ : Type} {t : τ} (h : Critical q c q' r n) (hw : q.wakeup = true) :
    q'.queue = q.queue ∧ takenBy (t, c, r) = none ∧ acceptedBy (t, c, r) = none := by
  cases h with
  | push hw' hroom => exact absurd (hw'.symm.trans hw) Bool.false_ne_true
  | pop hw' hq => exact absurd (hw'.symm.trans hw) Bool.false_ne_true
  | _ => exact ⟨rfl, rfl, rfl⟩

section Runs

variable {τ : Type} [DecidableEq τ] {maxsize : Nat} {w : Calls T τ}

/-- A queue that any number of threads call. -/
def machine (T τ : Type) [DecidableEq τ] (maxsize : Nat) :
    Machine (Calls T τ) (Move (QueueCall T) τ) :=
  (monitor T).machine τ (create T maxsize)

/-- **A queue loses nothing and keeps the order.** For any number of threads and every order of
their steps: the values taken, then those in the queue, are the values accepted, each once and in
order; the queue never holds more than its bound; and while `wakeup_` is set, whoever returns from
`Push` or `Pop` has added and removed nothing. -/
theorem queue_is_fifo (h : Reachable (machine T τ maxsize) (fun _ _ => True) w) :
    taken w ++ w.shared.queue = accepted w
    ∧ (0 < maxsize → w.shared.queue.length ≤ maxsize)
    ∧ ∀ a w', (machine T τ maxsize).step w a = some w' → w.shared.wakeup = true →
        w'.shared.queue = w.shared.queue ∧ taken w' = taken w ∧ accepted w' = accepted w := by
  have hf : Fifo maxsize w.shared (accepted w) (taken w) := by
    refine reachable_sections (P := fun _ => True)
      (J := fun q log => Fifo maxsize q (log.filterMap acceptedBy) (log.filterMap takenBy))
      ⟨rfl, rfl, fun _ => Nat.zero_le _⟩ ?_ (h.mono fun s a _ => ?_)
    · intro q log t c q' r n hf _ hrun
      exact (critical_cases hrun).fifo hf
    · cases a <;> trivial
  refine ⟨hf.order, hf.bound, fun a w' hs hw => ?_⟩
  obtain ⟨r, hstep⟩ := machine_cases hs
  rcases hstep.section with ⟨-, hshared, hlog⟩ | ⟨c, -, x, n, hrun, -, hlog⟩
  · unfold taken accepted
    rw [hshared, hlog]
    exact ⟨rfl, rfl, rfl⟩
  · obtain ⟨hqueue, htaken, haccepted⟩ := (critical_cases hrun).woken (t := a.thread) hw
    unfold taken accepted
    rw [hlog, List.filterMap_append, List.filterMap_append]
    refine ⟨hqueue, ?_, ?_⟩
    · rw [List.filterMap_cons_none htaken]
      exact List.append_nil _
    · rw [List.filterMap_cons_none haccepted]
      exact List.append_nil _

/-- Of two consumers one is woken but another takes its value; a producer that waits for a slot and
the consumer are released by `WakeUp`. -/
theorem queue_is_fifo_small : ∃ w, Reachable (machine Nat Nat 1) (fun _ _ => True) w
    ∧ taken w = [5] ∧ w.shared.queue = [6]
    ∧ w.log.map (fun p => (p.1, p.2.2))
      = [(1, .pushed), (2, .popped 5), (1, .pushed), (4, .set), (3, .notPushed), (0, .notPopped)]
    ∧ taken w ++ w.shared.queue = accepted w := by
  have hexec : ((machine Nat Nat 1).exec (fun _ _ => True) (.init (create Nat 1))
      [.call 0 .pop none, .call 1 (.push 5) (some 0), .call 2 .pop none, .resume 0 none,
        .call 1 (.push 6) (some 0), .call 3 (.push 7) none, .call 4 .wakeUp none, .resume 3 none,
        .resume 0 none]).map (fun w => decide (taken w = [5] ∧ w.shared.queue = [6]
          ∧ w.log.map (fun p => (p.1, p.2.2)) = [(1, .pushed), (2, .popped 5), (1, .pushed),
            (4, .set), (3, .notPushed), (0, .notPopped)])) = some true := by decide +kernel
  obtain ⟨w, hr, hp⟩ := Machine.exec_reachable rfl hexec
  obtain ⟨htaken, hqueue, hlog⟩ := of_decide_eq_true hp
  exact ⟨w, hr, htaken, hqueue, hlog, (queue_is_fifo hr).1⟩

/-! ## Waking everybody up -/

/-- A call that is not `WakeUp` or `Restore`. -/
def Ordinary : QueueCall T → Prop
  | .push _ | .pop => True
  | .wakeUp | .restore => False

theorem Ordinary.cases {c : QueueCall T} (h : Ordinary c) :
    (c = .pop ∧ cond c = .notEmpty) ∨ ∃ x, c = .push x ∧ cond c = .notFull := by
  cases c with
  | push x => exact .inr ⟨x, rfl, rfl⟩
  | pop => exact .inl ⟨rfl, rfl⟩
  | wakeUp => exact h.elim
  | restore => exact h.elim

/-- `WakeUp` and `Restore` never wait. -/
theorem call_runs {τ : Type} {w w' : Calls T τ} {t : τ} {c : QueueCall T} {u : Option τ}
    {r : Option (QueueReturn T)} (h : Lib.Monitor.Step (monitor T) w (.call t c u) w' r)
    (hc : ¬ Ordinary c) : ∃ x n, r = some x ∧ Critical w.shared c w'.shared x n := by
  cases h with
  | call hb h =>
    cases h with
    | waits hrun =>
      rcases (waits_cases hrun).1 with ⟨he, -⟩ | ⟨x, he, -⟩
      · rw [he] at hc
        exact absurd trivial hc
      · rw [he] at hc
        exact absurd trivial hc
    | @runs shared x n w' hrun hn =>
      refine ⟨x, n, rfl, ?_⟩
      rw [hn.shared.1]
      exact critical_cases hrun

/-- Once `wakeup_` is set nobody waits. -/
def Awake {τ : Type} (w : Calls T τ) : Prop := w.shared.wakeup = true → w.waiting = []

theorem awake_attempt {τ : Type} {w w' : Calls T τ} {t : τ} {c : QueueCall T}
    {r : Option (QueueReturn T)} (h : Attempt (monitor T) w t c w' r) (hw : Awake w) :
    Awake w' := by
  intro hset
  cases h with
  | waits hrun => exact absurd ((waits_cases hrun).2.symm.trans hset) Bool.false_ne_true
  | runs hrun hn =>
    rw [hn.shared.1] at hset
    cases critical_cases hrun with
    | push hw' hroom => exact absurd (hw'.symm.trans hset) Bool.false_ne_true
    | pop hw' hq => exact absurd (hw'.symm.trans hset) Bool.false_ne_true
    | notPushed hw' => cases hn; exact hw hset
    | notPopped hw' => cases hn; exact hw hset
    | wakeUp => cases hn; rfl
    | restore => exact absurd hset Bool.false_ne_true

theorem awake_step {τ : Type} {w w' : Calls T τ} {a : Move (QueueCall T) τ}
    {r : Option (QueueReturn T)} (h : Lib.Monitor.Step (monitor T) w a w' r) (hw : Awake w) :
    Awake w' := by
  cases h with
  | call hb h => exact awake_attempt h hw
  | resume hwoken h => exact awake_attempt h hw
  | spurious hwait =>
    intro hset
    rw [hw hset] at hwait
    exact absurd hwait.symm.eq_nil (List.cons_ne_nil _ _)

/-! ## Signals -/

/-- `Push` signals `not_empty_` for each value, and `Pop` takes one. -/
theorem supplies_notEmpty : Supplies (monitor T) .notEmpty (fun q => q.queue.length) Ordinary
    (fun q => q.wakeup = false) where
  keeps q c q' r n hw hc h := by
    cases critical_cases h with
    | wakeUp => exact hc.elim
    | restore => rfl
    | _ => exact hw
  blocks q c hw hc hk h := by
    obtain ⟨⟨-, hq⟩ | ⟨x, he, -⟩, -⟩ := waits_cases h
    · rw [hq]
      rfl
    · rw [he] at hk
      cases hk
  uses q c q' r n hw hc hk h := by
    cases critical_cases h with
    | pop hw' hq =>
      rw [hq]
      exact Nat.le_refl _
    | notPopped hw' => exact absurd (hw.symm.trans hw') Bool.false_ne_true
    | wakeUp => exact hc.elim
    | restore => exact hc.elim
    | push hw' hroom => cases hk
    | notPushed hw' => cases hk
  gives q c q' r n hw hc hk h := by
    cases critical_cases h with
    | push hw' hroom =>
      rw [if_pos rfl, List.length_append]
      exact Nat.le_refl _
    | notPushed hw' => exact Nat.le_add_right _ _
    | _ => exact absurd rfl hk

/-- `Pop` signals `not_full_` for each slot, and `Push` takes one. -/
theorem supplies_notFull {limit : Nat} (hpos : 0 < limit) :
    Supplies (monitor T) .notFull (fun q => limit - q.queue.length) Ordinary
      (fun q => q.wakeup = false ∧ q.maxsize = limit) where
  keeps q c q' r n hi hc h := by
    cases critical_cases h with
    | wakeUp => exact hc.elim
    | restore => exact hc.elim
    | _ => exact hi
  blocks q c hi hc hk h := by
    obtain ⟨⟨he, -⟩ | ⟨x, -, hfull⟩, -⟩ := waits_cases h
    · rw [he] at hk
      cases hk
    · have hmax := hi.2
      omega
  uses q c q' r n hi hc hk h := by
    have hmax := hi.2
    cases critical_cases h with
    | push hw' hroom =>
      dsimp only
      rw [List.length_append, List.length_singleton]
      omega
    | notPushed hw' => exact absurd (hi.1.symm.trans hw') Bool.false_ne_true
    | _ => cases hk
  gives q c q' r n hi hc hk h := by
    cases critical_cases h with
    | pop hw' hq =>
      rw [if_pos rfl, hq, List.length_cons]
      dsimp only
      omega
    | notPopped hw' => exact Nat.le_add_right _ _
    | wakeUp => exact hc.elim
    | restore => exact hc.elim
    | push hw' hroom => exact absurd rfl hk
    | notPushed hw' => exact absurd rfl hk

/-- **No wake-up is lost.** Without `WakeUp`, for any number of threads and every order of their
steps: while a consumer is blocked, at least as many consumers as there are values have been woken
and not yet run; while a producer is blocked, at least as many producers as there are free slots.
So nobody sleeps over a value or a slot that nobody has been woken for. -/
theorem no_wakeup_lost (h : Reachable (machine T τ maxsize) (Only Ordinary) w) :
    w.Single
    ∧ ((∃ t, (t, .pop) ∈ w.waiting) →
        w.shared.queue.length ≤ w.wokenOn (monitor T) .notEmpty
        ∧ (w.shared.queue ≠ [] → ∃ t, (t, .pop) ∈ w.woken))
    ∧ (0 < maxsize → (∃ t x, (t, .push x) ∈ w.waiting) →
        maxsize - w.shared.queue.length ≤ w.wokenOn (monitor T) .notFull
        ∧ (w.shared.queue.length < maxsize → ∃ t x, (t, .push x) ∈ w.woken)) := by
  have hcalls := reachable_only h
  have hwoken : ∀ {k}, 0 < w.wokenOn (monitor T) k →
      ∃ t c, (t, c) ∈ w.woken ∧ Ordinary c ∧ cond c = k := by
    intro k hk
    obtain ⟨⟨t, c⟩, hp, he⟩ := List.countP_pos_iff.mp hk
    exact ⟨t, c, hp, hcalls _ (List.mem_append_right _ hp), of_decide_eq_true he⟩
  refine ⟨reachable_single h, ?_, ?_⟩
  · rintro ⟨t, ht⟩
    have hfed := reachable_fed supplies_notEmpty rfl h ⟨_, ht, rfl⟩
    refine ⟨hfed, fun hne => ?_⟩
    have hlen := List.length_pos_iff.mpr hne
    obtain ⟨u, c, hu, hc, hk⟩ := hwoken (Nat.lt_of_lt_of_le hlen hfed)
    rcases hc.cases with ⟨he, -⟩ | ⟨x, he, hk'⟩
    · exact ⟨u, he ▸ hu⟩
    · rw [hk] at hk'
      cases hk'
  · rintro hpos ⟨t, x, ht⟩
    have hfed := reachable_fed (supplies_notFull hpos) ⟨rfl, rfl⟩ h ⟨_, ht, rfl⟩
    refine ⟨hfed, fun hlt => ?_⟩
    obtain ⟨u, c, hu, hc, hk⟩ := hwoken (k := .notFull) (by omega)
    rcases hc.cases with ⟨he, hk'⟩ | ⟨x, he, -⟩
    · rw [hk] at hk'
      cases hk'
    · exact ⟨u, x, he ▸ hu⟩

instance (w : Calls T τ) (a : Move (QueueCall T) τ) :
    Decidable (Only (Ordinary (T := T)) w a) :=
  match a with
  | .call _ (.push _) _ | .call _ .pop _ | .resume _ _ | .spurious _ => isTrue trivial
  | .call _ .wakeUp _ | .call _ .restore _ => isFalse id

/-- Two consumers wait, a value comes for one of them, and a producer waits for the slot it takes. -/
theorem no_wakeup_lost_small : ∃ w, Reachable (machine Nat Nat 1) (Only Ordinary) w
    ∧ (1, .pop) ∈ w.waiting ∧ w.shared.queue = [5]
    ∧ w.shared.queue.length ≤ w.wokenOn (monitor Nat) .notEmpty
    ∧ (3, .push 6) ∈ w.waiting
    ∧ 1 - w.shared.queue.length ≤ w.wokenOn (monitor Nat) .notFull := by
  have hexec : ((machine Nat Nat 1).exec (Only Ordinary) (.init (create Nat 1))
      [.call 0 .pop none, .call 1 .pop none, .spurious 1, .resume 1 none,
        .call 2 (.push 5) (some 0), .call 3 (.push 6) none]).map (fun w => decide
          ((1, .pop) ∈ w.waiting ∧ w.shared.queue = [5] ∧ (3, .push 6) ∈ w.waiting))
        = some true := by decide +kernel
  obtain ⟨w, hr, hp⟩ := Machine.exec_reachable rfl hexec
  obtain ⟨hpop, hqueue, hpush⟩ := of_decide_eq_true hp
  have hmain := no_wakeup_lost hr
  exact ⟨w, hr, hpop, hqueue, (hmain.2.1 ⟨1, hpop⟩).1, hpush,
    (hmain.2.2 Nat.one_pos ⟨3, 6, hpush⟩).1⟩

end Runs

end BlockingQueue

end Windz
