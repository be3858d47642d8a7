import Mathlib.Init

/-!
# Machines

A machine is a set of initial states and a step function: a label either names
an enabled step and gives the state after it, or is refused. Labels carry
everything the environment decides, so a run is a list of labels.

What a theorem assumes about the environment is a predicate `ok` on the steps
taken; `Reachable M ok` and `Run M ok` only take steps that satisfy it. The rules
below are the ones every proof about runs goes through: an invariant is shown of
the initial states and kept by one step, and runs are put together.
-/

namespace Windz.Lib

variable {σ α : Type}

/-- Initial states and a step function. -/
structure Machine (σ α : Type) where
  /-- The states a run may begin in. -/
  init : σ → Prop
  /-- The state after a step, `none` when the step is not enabled. -/
  step : σ → α → Option σ

/-- The states reached from an initial one by steps satisfying `ok`. -/
inductive Reachable (M : Machine σ α) (ok : σ → α → Prop) : σ → Prop where
  | init {s : σ} : M.init s → Reachable M ok s
  | tail {s s' : σ} {a : α} :
      Reachable M ok s → ok s a → M.step s a = some s' → Reachable M ok s'

/-- `Run M ok s as s'`: the steps `as`, all satisfying `ok`, lead from `s` to `s'`. -/
inductive Run (M : Machine σ α) (ok : σ → α → Prop) (s : σ) : List α → σ → Prop where
  | nil : Run M ok s [] s
  | tail {as : List α} {s' s'' : σ} {a : α} :
      Run M ok s as s' → ok s' a → M.step s' a = some s'' → Run M ok s (as ++ [a]) s''

variable {M : Machine σ α} {ok ok' : σ → α → Prop}

/-! ## Invariants -/

/-- **The invariant rule.** The step may use that the state before it is reachable. -/
theorem Reachable.invariant {I : σ → Prop} (hinit : ∀ s, M.init s → I s)
    (hstep : ∀ s a s', Reachable M ok s → I s → ok s a → M.step s a = some s' → I s') {s : σ}
    (h : Reachable M ok s) : I s := by
  induction h with
  | init hs => exact hinit _ hs
  | tail hr hok hs ih => exact hstep _ _ _ hr ih hok hs

/-- What one step preserves, a run preserves. -/
theorem Run.invariant {I : σ → Prop} {s s' : σ} {as : List α} (h : Run M ok s as s') (hs : I s)
    (hstep : ∀ u a u', I u → ok u a → M.step u a = some u' → I u') : I s' := by
  induction h with
  | nil => exact hs
  | tail _ hok hst ih => exact hstep _ _ _ ih hok hst

/-- Assuming less reaches more. -/
theorem Reachable.mono (hle : ∀ s a, ok s a → ok' s a) {s : σ} (h : Reachable M ok s) :
    Reachable M ok' s := by
  induction h with
  | init hs => exact Reachable.init hs
  | tail _ hok hs ih => exact Reachable.tail ih (hle _ _ hok) hs

theorem Run.mono (hle : ∀ s a, ok s a → ok' s a) {s s' : σ} {as : List α}
    (h : Run M ok s as s') : Run M ok' s as s' := by
  induction h with
  | nil => exact Run.nil
  | tail _ hok hs ih => exact Run.tail ih (hle _ _ hok) hs

/-! ## Composing runs -/

theorem Run.one {s s' : σ} {a : α} (hok : ok s a) (hs : M.step s a = some s') :
    Run M ok s [a] s' := Run.tail Run.nil hok hs

theorem Run.append {s s' s'' : σ} {as bs : List α} (h : Run M ok s as s')
    (h' : Run M ok s' bs s'') : Run M ok s (as ++ bs) s'' := by
  induction h' with
  | nil => rw [List.append_nil]; exact h
  | tail _ hok hs ih => rw [← List.append_assoc]; exact Run.tail ih hok hs

theorem Reachable.run {s s' : σ} {as : List α} (h : Reachable M ok s) (hr : Run M ok s as s') :
    Reachable M ok s' := by
  induction hr with
  | nil => exact h
  | tail _ hok hs ih => exact Reachable.tail ih hok hs

/-- The last step of a run. -/
theorem Run.of_concat {s s' : σ} {as : List α} {a : α} (h : Run M ok s (as ++ [a]) s') :
    ∃ u, Run M ok s as u ∧ ok u a ∧ M.step u a = some s' := by
  generalize hbs : as ++ [a] = bs at h
  cases h with
  | nil => exact absurd hbs (by simp)
  | tail hr hok hs =>
    obtain ⟨has, ha⟩ := List.append_inj' hbs rfl
    cases ha
    cases has
    exact ⟨_, hr, hok, hs⟩

/-- The first steps of a run. -/
theorem Run.of_append {s s' : σ} {as bs : List α} (h : Run M ok s (as ++ bs) s') :
    ∃ u, Run M ok s as u := by
  generalize hcs : as ++ bs = cs at h
  induction h generalizing bs with
  | nil =>
    rw [(List.append_eq_nil_iff.mp hcs).1]
    exact ⟨s, .nil⟩
  | @tail cs u s' a hr hok hs ih =>
    rcases List.eq_nil_or_concat bs with rfl | ⟨bs, b, rfl⟩
    · rw [List.append_nil] at hcs
      rw [hcs]
      exact ⟨s', hr.tail hok hs⟩
    · rw [List.concat_eq_append, ← List.append_assoc] at hcs
      exact ih (List.append_inj' hcs rfl).1

/-- The labels say where a run ends. -/
theorem Run.unique {s s' s'' : σ} {as : List α} (h : Run M ok s as s')
    (h' : Run M ok' s as s'') : s' = s'' := by
  induction h generalizing s'' with
  | nil =>
    generalize hbs : ([] : List α) = bs at h'
    cases h' with
    | nil => rfl
    | tail _ _ _ => exact absurd hbs (by simp)
  | tail _ _ hs ih =>
    obtain ⟨u, hu, _, hs'⟩ := Run.of_concat h'
    rw [← ih hu] at hs'
    exact Option.some.inj (hs.symm.trans hs')

/-- Of a run that is longer by one step, the steps satisfy `ok'` if those before do and the last. -/
theorem Run.concat_iff {s u s' : σ} {as : List α} {a : α} (h : Run M ok s as u)
    (hs : M.step u a = some s') : Run M ok' s (as ++ [a]) s' ↔ Run M ok' s as u ∧ ok' u a := by
  constructor
  · intro hr
    obtain ⟨v, hv, hok, _⟩ := Run.of_concat hr
    rw [h.unique hv]
    exact ⟨hv, hok⟩
  · intro ⟨hr, hok⟩
    exact .tail hr hok hs

/-! ## Executing a list of labels -/

/-- Perform the labels in order, refusing one that `ok` forbids. -/
def Machine.exec (M : Machine σ α) (ok : σ → α → Prop) [∀ s a, Decidable (ok s a)] :
    σ → List α → Option σ
  | s, [] => some s
  | s, a :: as => if ok s a then (M.step s a).bind (fun s' => M.exec ok s' as) else none

theorem Machine.exec_run [∀ s a, Decidable (ok s a)] : ∀ (as : List α) {s s' : σ},
    M.exec ok s as = some s' → Run M ok s as s'
  | [], s, s', h => by
      rw [exec, Option.some.injEq] at h
      subst h; exact Run.nil
  | a :: as, s, s', h => by
      rw [exec] at h
      split at h
      · rename_i hok
        obtain ⟨u, hu, hrest⟩ := Option.bind_eq_some_iff.mp h
        exact (Run.one hok hu).append (exec_run as hrest)
      · exact absurd h (by simp)

/-- A property the execution of a concrete list of labels ends in holds of a reachable state. -/
theorem Machine.exec_reachable [∀ s a, Decidable (ok s a)] {s₀ : σ} (h0 : M.init s₀)
    {as : List α} {p : σ → Bool} (h : (M.exec ok s₀ as).map p = some true) :
    ∃ s, Reachable M ok s ∧ p s = true := by
  obtain ⟨s, hs, hp⟩ := Option.map_eq_some_iff.mp h
  exact ⟨s, (Reachable.init h0).run (exec_run as hs), hp⟩

end Windz.Lib
