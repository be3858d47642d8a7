import Mathlib.Order.WellFounded
import Windz.Lib.Machine

/-!
# Endless runs

A trace goes through a machine without an end. What a trace must come to, it comes to
because some party is helpful wherever it is: the party's next step brings the trace
nearer, and nobody else's takes it away. Which party that is depends on the state;
fairness is asked of the helpful one only, and is a hypothesis of the rule, so each use
says which of its parties have to go on, and when.
-/

namespace Windz.Lib

variable {σ α κ β : Type}

/-- The states `s n` and labels `a n` of a run without an end, all steps satisfying `ok`. -/
structure Trace (M : Machine σ α) (ok : σ → α → Prop) (s : Nat → σ) (a : Nat → α) : Prop where
  init : M.init (s 0)
  ok : ∀ n, ok (s n) (a n)
  step : ∀ n, M.step (s n) (a n) = some (s (n + 1))

variable {M : Machine σ α} {ok : σ → α → Prop} {s : Nat → σ} {a : Nat → α}

/-- How far a state is from the goal, who brings it nearer, and by which steps. -/
structure Ranking (σ α κ β : Type) where
  /-- How far the goal is. -/
  rank : σ → β
  /-- The order of the distances. -/
  lt : β → β → Prop
  /-- None of them can be reduced for ever. -/
  wf : WellFounded lt
  /-- The party that brings the state nearer. -/
  helpful : σ → κ
  /-- The steps of a party. -/
  does : κ → α → Prop

/-- A step that brings nearer, or one that is not the helpful party's and leaves it helpful. -/
def Ranking.Nears (R : Ranking σ α κ β) (u : σ) (b : α) (u' : σ) : Prop :=
  R.lt (R.rank u') (R.rank u)
    ∨ R.rank u' = R.rank u ∧ R.helpful u' = R.helpful u ∧ ¬ R.does (R.helpful u) b

/-! A common measure: the stage that was come to, and what is left to do in it. -/

/-- The lexicographic order on pairs. -/
def Nearer : Nat × Nat → Nat × Nat → Prop := Prod.Lex (· < ·) (· < ·)

theorem nearer_wf : WellFounded Nearer := WellFounded.prod_lex Nat.lt_wfRel.wf Nat.lt_wfRel.wf

theorem nearer_stage {p q : Nat × Nat} (h : p.1 < q.1) : Nearer p q := Prod.lex_def.mpr (.inl h)

theorem nearer_left {p q : Nat × Nat} (h : p.1 = q.1) (h' : p.2 < q.2) : Nearer p q :=
  Prod.lex_def.mpr (.inr ⟨h, h'⟩)

theorem nearer_cases {p q : Nat × Nat} (h : Nearer p q) : p.1 < q.1 ∨ p.1 = q.1 ∧ p.2 < q.2 :=
  Prod.lex_def.mp h

namespace Trace

theorem reachable (h : Trace M ok s a) (n : Nat) : Reachable M ok (s n) := by
  induction n with
  | zero => exact .init h.init
  | succ n ih => exact .tail ih (h.ok n) (h.step n)

/-- What every step adds to, the trace only adds to. -/
theorem grows {f : σ → List β} (h : Trace M ok s a)
    (hstep : ∀ u b u', Reachable M ok u → M.step u b = some u' → f u <+: f u') {n m : Nat}
    (hle : n ≤ m) : f (s n) <+: f (s m) := by
  induction hle with
  | refl => exact List.prefix_refl _
  | @step m hle ih => exact ih.trans (hstep _ _ _ (h.reachable m) (h.step m))

/-- Assuming less, there are more runs. -/
theorem mono {ok' : σ → α → Prop} (hle : ∀ u b, ok u b → ok' u b) (h : Trace M ok s a) :
    Trace M ok' s a where
  init := h.init
  ok n := hle _ _ (h.ok n)
  step := h.step

/-- Up to the next step of the helpful party the trace is at its goal once, or nearer once, or
the same party stays helpful. -/
theorem reaches_before (R : Ranking σ α κ β) {I goal : σ → Prop} (h : Trace M ok s a)
    (hstep : ∀ u b u', I u → ok u b → M.step u b = some u' → goal u' ∨ I u' ∧ R.Nears u b u')
    {n m : Nat} (hle : n ≤ m) (hn : I (s n)) :
    (∃ k, n ≤ k ∧ goal (s k)) ∨ (∃ k, n ≤ k ∧ I (s k) ∧ R.lt (R.rank (s k)) (R.rank (s n)))
    ∨ I (s m) ∧ R.rank (s m) = R.rank (s n) ∧ R.helpful (s m) = R.helpful (s n) := by
  induction hle with
  | refl => exact .inr (.inr ⟨hn, rfl, rfl⟩)
  | @step m hle ih =>
    rcases ih with hgoal | hnearer | ⟨hI, hrank, hhelp⟩
    · exact .inl hgoal
    · exact .inr (.inl hnearer)
    · have hnext : n ≤ m + 1 := Nat.le_succ_of_le hle
      rcases hstep _ _ _ hI (h.ok m) (h.step m) with hgoal | ⟨hI', hlt | ⟨heq, hhelp', -⟩⟩
      · exact .inl ⟨m + 1, hnext, hgoal⟩
      · rw [hrank] at hlt
        exact .inr (.inl ⟨m + 1, hnext, hI', hlt⟩)
      · exact .inr (.inr ⟨hI', heq.trans hrank, hhelp'.trans hhelp⟩)

/-- **The progress rule.** -/
theorem reaches (R : Ranking σ α κ β) (I goal : σ → Prop) (h : Trace M ok s a)
    (hfair : ∀ n, I (s n) → ∃ m, n ≤ m ∧ R.does (R.helpful (s n)) (a m))
    (hstep : ∀ u b u', I u → ok u b → M.step u b = some u' → goal u' ∨ I u' ∧ R.Nears u b u')
    {n : Nat} (hn : I (s n)) : ∃ m, n ≤ m ∧ goal (s m) := by
  have hnearer : ∀ r : β, ∀ n, R.rank (s n) = r → I (s n) → ∃ m, n ≤ m ∧ goal (s m) := by
    intro r
    induction r using R.wf.induction with
    | _ r ih =>
      intro n hr hn
      have hagain : ∀ k, n ≤ k → I (s k) → R.lt (R.rank (s k)) (R.rank (s n)) →
          ∃ m, n ≤ m ∧ goal (s m) := by
        intro k hk hI hlt
        rw [hr] at hlt
        obtain ⟨m, hm, hgoal⟩ := ih _ hlt k rfl hI
        exact ⟨m, Nat.le_trans hk hm, hgoal⟩
      obtain ⟨m, hm, hdoes⟩ := hfair n hn
      rcases h.reaches_before R hstep hm hn with
        ⟨k, hk, hgoal⟩ | ⟨k, hk, hI, hlt⟩ | ⟨hI, hrank, hhelp⟩
      · exact ⟨k, hk, hgoal⟩
      · exact hagain k hk hI hlt
      · have hnext : n ≤ m + 1 := Nat.le_succ_of_le hm
        rcases hstep _ _ _ hI (h.ok m) (h.step m) with hgoal | ⟨hI', hlt | ⟨-, -, hnot⟩⟩
        · exact ⟨m + 1, hnext, hgoal⟩
        · rw [hrank] at hlt
          exact hagain (m + 1) hnext hI' hlt
        · rw [hhelp] at hnot
          exact absurd hdoes hnot
  exact hnearer _ n rfl hn

/-- **The rule for one step.** Who stays able to take it until it is taken, takes it. -/
theorem acted (does : α → Prop) (I goal : σ → Prop) (h : Trace M ok s a)
    (hstep : ∀ u b u', I u → ok u b → M.step u b = some u' → goal u' ∨ I u' ∧ ¬ does b)
    {n : Nat} (hn : I (s n)) (hfair : ∃ m, n ≤ m ∧ does (a m)) : ∃ m, n ≤ m ∧ goal (s m) := by
  obtain ⟨m, hm, hdoes⟩ := hfair
  have hupto : ∀ k, n ≤ k → (∃ j, n ≤ j ∧ goal (s j)) ∨ I (s k) := by
    intro k hk
    induction hk with
    | refl => exact .inr hn
    | @step k hk ih =>
      rcases ih with hgoal | hI
      · exact .inl hgoal
      · rcases hstep _ _ _ hI (h.ok k) (h.step k) with hgoal | ⟨hI', -⟩
        · exact .inl ⟨k + 1, Nat.le_succ_of_le hk, hgoal⟩
        · exact .inr hI'
  rcases hupto m hm with hgoal | hI
  · exact hgoal
  · rcases hstep _ _ _ hI (h.ok m) (h.step m) with hgoal | ⟨-, hnot⟩
    · exact ⟨m + 1, Nat.le_succ_of_le hm, hgoal⟩
    · exact absurd hdoes hnot

end Trace

/-! ## Runs from labels -/

/-- The states that the labels lead to, as long as they name enabled steps. -/
def statesOf (M : Machine σ α) (init : σ) (a : Nat → α) : Nat → σ
  | 0 => init
  | n + 1 => (M.step (statesOf M init a n) (a n)).getD (statesOf M init a n)

theorem statesOf_step {init : σ} {a : Nat → α} {n : Nat}
    (h : (M.step (statesOf M init a n) (a n)).isSome = true) :
    M.step (statesOf M init a n) (a n) = some (statesOf M init a (n + 1)) := by
  obtain ⟨u, hu⟩ := Option.isSome_iff_exists.mp h
  rw [statesOf, hu, Option.getD_some]

theorem statesOf_same {init : σ} {a : Nat → α} {n : Nat}
    (h : M.step (statesOf M init a n) (a n) = some (statesOf M init a n)) :
    statesOf M init a (n + 1) = statesOf M init a n := by
  rw [statesOf, h, Option.getD_some]

/-- The place of step `n` in a run whose last `period` steps are repeated. -/
def fold (stem period n : Nat) : Nat :=
  if n < stem then n else stem + (n - stem) % period

theorem fold_lt {stem period : Nat} (hp : 0 < period) (n : Nat) :
    fold stem period n < stem + period := by
  unfold fold
  split
  · omega
  · exact Nat.add_lt_add_left (Nat.mod_lt _ hp) _

theorem fold_eq_self {stem period n : Nat} (h : fold stem period n < stem) :
    fold stem period n = n := by
  unfold fold at h ⊢
  split
  · rfl
  · rename_i hlate
    rw [if_neg hlate] at h
    exact absurd h (Nat.not_lt.mpr (Nat.le_add_right _ _))

theorem fold_succ {stem period : Nat} (hp : 0 < period) (n : Nat) :
    fold stem period (n + 1) = fold stem period n + 1
      ∨ fold stem period n + 1 = stem + period ∧ fold stem period (n + 1) = stem := by
  unfold fold
  by_cases hn : n + 1 < stem
  · rw [if_pos hn, if_pos (Nat.lt_of_succ_lt hn)]
    exact .inl rfl
  · rw [if_neg hn]
    by_cases hlast : n < stem
    · rw [if_pos hlast, show n + 1 - stem = 0 by omega, Nat.zero_mod]
      omega
    · rw [if_neg hlast, show n + 1 - stem = n - stem + 1 by omega]
      have hlt := Nat.mod_lt (n - stem) hp
      have hdiv := Nat.div_add_mod (n - stem) period
      by_cases hend : (n - stem) % period + 1 = period
      · -- the last of them: the next multiple of `period`
        have hmul : n - stem + 1 = period * ((n - stem) / period + 1) := by
          rw [Nat.mul_add, Nat.mul_one]
          omega
        rw [hmul, Nat.mul_mod_right]
        omega
      · have hnext : n - stem + 1 = ((n - stem) % period + 1) + period * ((n - stem) / period) := by
          omega
        rw [hnext, Nat.add_mul_mod_self_left, Nat.mod_eq_of_lt (by omega)]
        omega

/-- Each place of the part repeated comes again. -/
theorem fold_again {stem period i : Nat} (hi : stem ≤ i) (hlt : i < stem + period) (n : Nat) :
    ∃ m, n ≤ m ∧ fold stem period m = i := by
  refine ⟨i + period * n, ?_, ?_⟩
  · have hp : 1 ≤ period := by omega
    calc n = 1 * n := (Nat.one_mul n).symm
      _ ≤ period * n := Nat.mul_le_mul_right n hp
      _ ≤ i + period * n := Nat.le_add_left _ _
  · unfold fold
    rw [if_neg (by omega), Nat.sub_add_comm hi, Nat.add_mul_mod_self_left,
      Nat.mod_eq_of_lt (by omega)]
    omega

theorem Trace.rounds {init : σ} {a : Nat → α} {stem period : Nat} (hp : 0 < period)
    (hinit : M.init init) (hok : ∀ i, i < stem + period → ok (statesOf M init a i) (a i))
    (hstep : ∀ i, i < stem + period → (M.step (statesOf M init a i) (a i)).isSome = true)
    (hback : statesOf M init a (stem + period) = statesOf M init a stem) :
    Trace M ok (fun n => statesOf M init a (fold stem period n))
      (fun n => a (fold stem period n)) where
  init := by
    have hzero : fold stem period 0 = 0 := by
      unfold fold
      split
      · rfl
      · rw [Nat.zero_sub, Nat.zero_mod]
        omega
    rw [hzero]
    exact hinit
  ok n := hok _ (fold_lt hp n)
  step n := by
    rw [statesOf_step (hstep _ (fold_lt hp n))]
    rcases fold_succ hp n with he | ⟨hend, hstart⟩
    · rw [he]
    · rw [hend, hstart, hback]

/-! ## First in, first out -/

/-- Of a queue over time: a step that takes removes its head, and every step may add to its end. -/
def Fifo (queue : Nat → List β) (takes : Nat → Prop) : Prop :=
  ∀ n, (¬ takes n ∧ ∃ more, queue (n + 1) = queue n ++ more)
    ∨ (takes n ∧ ∃ head rest more, queue n = head :: rest ∧ queue (n + 1) = rest ++ more)

/-- If something happens from `n` on, there is a first time. -/
theorem exists_first {p : Nat → Prop} {n : Nat} (h : ∃ m, n ≤ m ∧ p m) :
    ∃ m, n ≤ m ∧ p m ∧ ∀ k, n ≤ k → k < m → ¬ p k := by
  obtain ⟨m, hm, hp⟩ := h
  induction m using Nat.strong_induction_on with
  | _ m ih =>
    by_cases hearlier : ∃ k, n ≤ k ∧ k < m ∧ p k
    · obtain ⟨k, hk, hlt, hpk⟩ := hearlier
      exact ih k hlt hk hpk
    · exact ⟨m, hm, hp, fun k hk hlt hpk => hearlier ⟨k, hk, hlt, hpk⟩⟩

/-- Up to the next step that takes, every element keeps its place. -/
theorem Fifo.place_kept {queue : Nat → List β} {takes : Nat → Prop} (h : Fifo queue takes)
    {n m k : Nat} {x : β} (hle : n ≤ m) (hnone : ∀ j, n ≤ j → j < m → ¬ takes j)
    (hx : (queue n)[k]? = some x) : (queue m)[k]? = some x := by
  induction hle with
  | refl => exact hx
  | @step m hle ih =>
    have hkept := ih fun j hj hlt => hnone j hj (Nat.lt_succ_of_lt hlt)
    rcases h m with ⟨-, more, he⟩ | ⟨htakes, -⟩
    · rw [he, List.getElem?_append_left (List.getElem?_eq_some_iff.mp hkept).1]
      exact hkept
    · exact absurd htakes (hnone m hle (Nat.lt_succ_self m))

/-- **Every element is taken**, if from a queue that is not empty something is. -/
theorem Fifo.taken {queue : Nat → List β} {takes : Nat → Prop} (h : Fifo queue takes)
    (hfair : ∀ n, queue n ≠ [] → ∃ m, n ≤ m ∧ takes m) {n : Nat} {x : β} (hx : x ∈ queue n) :
    ∃ m rest, n ≤ m ∧ takes m ∧ queue m = x :: rest := by
  obtain ⟨k, hk⟩ := List.mem_iff_getElem?.mp hx
  clear hx
  induction k generalizing n with
  | zero =>
    have hne : queue n ≠ [] := by
      intro hnil
      rw [hnil] at hk
      exact absurd hk (by simp)
    obtain ⟨m, hm, htakes, hfirst⟩ := exists_first (hfair n hne)
    have hkept := h.place_kept hm hfirst hk
    cases hq : queue m with
    | nil =>
      rw [hq] at hkept
      exact absurd hkept (by simp)
    | cons head rest =>
      rw [hq] at hkept
      rw [← Option.some.inj hkept]
      exact ⟨m, rest, hm, htakes, hq⟩
  | succ k ih =>
    have hne : queue n ≠ [] := by
      intro hnil
      rw [hnil] at hk
      exact absurd hk (by simp)
    obtain ⟨m, hm, htakes, hfirst⟩ := exists_first (hfair n hne)
    have hkept := h.place_kept hm hfirst hk
    rcases h m with ⟨hnot, -⟩ | ⟨-, head, rest, more, hq, hq'⟩
    · exact absurd htakes hnot
    · -- one place nearer
      rw [hq, List.getElem?_cons_succ] at hkept
      have hnext : (queue (m + 1))[k]? = some x := by
        rw [hq', List.getElem?_append_left (List.getElem?_eq_some_iff.mp hkept).1]
        exact hkept
      obtain ⟨m', rest', hm', htaken⟩ := ih hnext
      exact ⟨m', rest', Nat.le_trans hm (Nat.le_of_succ_le hm'), htaken⟩

end Windz.Lib
