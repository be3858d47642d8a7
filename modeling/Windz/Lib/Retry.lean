import Mathlib.Init

/-!
# Retry loops

A loop around a call that the environment answers. Before each call the loop may be done;
each answer ends it or gives the state for the next call, and an answer that the call cannot
give is refused. A run uses up the answers one by one and leaves the rest.

`Retry.rule` is the invariant rule: what is known before a call speaks of the answers used up so
far. Answers that are passed over may as well not have been given.
-/

namespace Windz.Lib

variable {σ ω ρ : Type}

/-- What an answer leads to. -/
inductive Next (σ ρ : Type) where
  | again (s : σ)
  | stop (r : ρ)

/-- A loop over calls: `σ` is its state, `ω` an answer, `ρ` its result. -/
structure Retry (σ ω ρ : Type) where
  /-- The result, when no further call is made. -/
  done : σ → Option ρ
  /-- What becomes of an answer, `none` when the call cannot give it. -/
  answered : σ → ω → Option (Next σ ρ)

namespace Retry

variable {l : Retry σ ω ρ}

/-- The result and the answers left, `none` when these run out before the loop ends. -/
def run (l : Retry σ ω ρ) : σ → List ω → Option (ρ × List ω)
  | s, [] => (l.done s).map (·, [])
  | s, a :: as =>
      match l.done s with
      | some r => some (r, a :: as)
      | none =>
          match l.answered s a with
          | none => none
          | some (.stop r) => some (r, as)
          | some (.again s) => run l s as

theorem run_done {s : σ} {r : ρ} (h : l.done s = some r) (as : List ω) :
    l.run s as = some (r, as) := by
  cases as with
  | nil =>
    unfold run
    rw [h]
    rfl
  | cons a as =>
    unfold run
    rw [h]

theorem run_cons {s : σ} (h : l.done s = none) (a : ω) (as : List ω) :
    l.run s (a :: as)
      = (l.answered s a).bind fun
          | .stop r => some (r, as)
          | .again s => l.run s as := by
  rw [run, h]
  cases l.answered s a with
  | none => rfl
  | some next =>
    cases next with
    | stop r => rfl
    | again s => rfl

/-- **The invariant rule**, from any call on. -/
theorem rule_from {I : List ω → σ → Prop} {Q : List ω → ρ → Prop}
    (hdone : ∀ used s r, I used s → l.done s = some r → Q used r)
    (hstop : ∀ used s a r, I used s → l.done s = none → l.answered s a = some (.stop r) →
      Q (used ++ [a]) r)
    (hagain : ∀ used s a s', I used s → l.done s = none → l.answered s a = some (.again s') →
      I (used ++ [a]) s')
    {before as rest : List ω} {s : σ} {r : ρ} (hs : I before s)
    (h : l.run s as = some (r, rest)) : ∃ used, as = used ++ rest ∧ Q (before ++ used) r := by
  induction as generalizing before s with
  | nil =>
    obtain ⟨r', hr, he⟩ := Option.map_eq_some_iff.mp h
    cases he
    refine ⟨[], rfl, ?_⟩
    rw [List.append_nil]
    exact hdone _ _ _ hs hr
  | cons a as ih =>
    cases hd : l.done s with
    | some r' =>
      rw [run_done hd] at h
      cases h
      refine ⟨[], rfl, ?_⟩
      rw [List.append_nil]
      exact hdone _ _ _ hs hd
    | none =>
      rw [run_cons hd] at h
      obtain ⟨next, hnext, h⟩ := Option.bind_eq_some_iff.mp h
      cases next with
      | stop r' =>
        cases h
        exact ⟨[a], rfl, hstop _ _ _ _ hs hd hnext⟩
      | again s' =>
        obtain ⟨used, hused, hq⟩ := ih (hagain _ _ _ _ hs hd hnext) h
        refine ⟨a :: used, by rw [hused]; rfl, ?_⟩
        rw [List.append_assoc] at hq
        exact hq

/-- **The invariant rule.** -/
theorem rule {I : List ω → σ → Prop} {Q : List ω → ρ → Prop}
    (hdone : ∀ used s r, I used s → l.done s = some r → Q used r)
    (hstop : ∀ used s a r, I used s → l.done s = none → l.answered s a = some (.stop r) →
      Q (used ++ [a]) r)
    (hagain : ∀ used s a s', I used s → l.done s = none → l.answered s a = some (.again s') →
      I (used ++ [a]) s')
    {as rest : List ω} {s : σ} {r : ρ} (hs : I [] s)
    (h : l.run s as = some (r, rest)) : ∃ used, as = used ++ rest ∧ Q used r :=
  rule_from hdone hstop hagain hs h

/-- **What is passed over changes nothing**, wherever it comes. -/
theorem run_filter {passed : ω → Bool}
    (hpassed : ∀ s a, passed a = true → l.answered s a = some (.again s)) (s : σ) (as : List ω) :
    (l.run s (as.filter fun a => !passed a)).map Prod.fst = (l.run s as).map Prod.fst := by
  induction as generalizing s with
  | nil => rfl
  | cons a as ih =>
    cases hd : l.done s with
    | some r =>
      rw [run_done hd, run_done hd]
      rfl
    | none =>
      rw [run_cons hd]
      by_cases ha : passed a = true
      · rw [List.filter_cons_of_neg (by rw [ha]; exact Bool.false_ne_true), hpassed s a ha, ih s]
        rfl
      · rw [Bool.not_eq_true] at ha
        rw [List.filter_cons_of_pos (by rw [ha]; rfl), run_cons hd]
        cases l.answered s a with
        | none => rfl
        | some next =>
          cases next with
          | stop r => rfl
          | again s' => exact ih s'

end Retry

end Windz.Lib
