import Mathlib.Data.Nat.Digits.Lemmas

/-!
# Numerals

Positional numerals as they are written: most significant digit first, a single `0`
for zero and no other leading zero. A list of digits in some base is a numeral of at
most one number, and each number has exactly one numeral.

Code that prints a number finds its digits in the other order, by dividing until
nothing is left; `numeral_eq_concat` is its loop.
-/

namespace Windz.Lib

/-- `ds` is written for `n` in base `b`. -/
structure IsNumeral (b : Nat) (ds : List Nat) (n : Nat) : Prop where
  ne_nil : ds ≠ []
  digit : ∀ d ∈ ds, d < b
  value : Nat.ofDigits b ds.reverse = n
  leading : ds.head? = some 0 → ds = [0]

/-- The numeral of `n` in base `b`. -/
def numeral (b n : Nat) : List Nat := if n = 0 then [0] else (b.digits n).reverse

variable {b n : Nat} {ds : List Nat}

@[simp] theorem numeral_zero : numeral b 0 = [0] := if_pos rfl

theorem numeral_of_pos (h : 0 < n) : numeral b n = (b.digits n).reverse := if_neg (by omega)

theorem isNumeral_numeral (hb : 1 < b) (n : Nat) : IsNumeral b (numeral b n) n := by
  rcases Nat.eq_zero_or_pos n with rfl | hn
  · rw [numeral_zero]
    exact ⟨by simp, by simpa using Nat.lt_trans Nat.one_pos hb, by simp, fun _ => rfl⟩
  · rw [numeral_of_pos hn]
    have hne : b.digits n ≠ [] := Nat.digits_ne_nil_iff_ne_zero.mpr (by omega)
    refine ⟨by simpa using hne, fun d hd => ?_, ?_, fun hz => ?_⟩
    · exact Nat.digits_lt_base hb (List.mem_reverse.mp hd)
    · rw [List.reverse_reverse, Nat.ofDigits_digits]
    · -- the most significant digit is not 0
      rw [List.head?_reverse, List.getLast?_eq_some_getLast hne] at hz
      exact absurd (Option.some.inj hz) (Nat.getLast_digit_ne_zero b (by omega))

/-- **There is only one numeral.** -/
theorem IsNumeral.eq_numeral (hb : 1 < b) (h : IsNumeral b ds n) : ds = numeral b n := by
  by_cases hz : ds.head? = some 0
  · have hds := h.leading hz
    have hvalue := h.value
    rw [hds] at hvalue ⊢
    rw [← hvalue]
    simp
  · have hrev : ds.reverse ≠ [] := by simpa using h.ne_nil
    have hdigits : b.digits n = ds.reverse := by
      rw [← h.value]
      refine Nat.digits_ofDigits b hb _ (fun d hd => h.digit d (List.mem_reverse.mp hd)) ?_
      intro hne hlast
      rw [List.getLast_reverse hne] at hlast
      exact hz (by rw [List.head?_eq_some_head h.ne_nil, hlast])
    have hn : 0 < n := by
      refine Nat.pos_of_ne_zero fun h0 => hrev ?_
      rw [← hdigits, h0, Nat.digits_zero]
    rw [numeral_of_pos hn, hdigits, List.reverse_reverse]

/-- **The last digit is the remainder**, and those before it are written for the quotient, if
anything is left. -/
theorem numeral_eq_concat (hb : 1 < b) (n : Nat) :
    numeral b n = (if n / b = 0 then [] else numeral b (n / b)) ++ [n % b] := by
  rcases Nat.eq_zero_or_pos n with rfl | hn
  · simp
  · rw [numeral_of_pos hn, Nat.digits_def' hb hn, List.reverse_cons]
    by_cases hq : n / b = 0
    · rw [if_pos hq, hq, Nat.digits_zero, List.reverse_nil]
    · rw [if_neg hq, numeral_of_pos (Nat.pos_of_ne_zero hq)]

theorem numeral_length_le (hb : 1 < b) {k : Nat} (hk : 0 < k) (h : n < b ^ k) :
    (numeral b n).length ≤ k := by
  induction k generalizing n with
  | zero => exact absurd hk (Nat.lt_irrefl 0)
  | succ k ih =>
    rw [numeral_eq_concat hb, List.length_append, List.length_singleton]
    by_cases hq : n / b = 0
    · rw [if_pos hq, List.length_nil]
      omega
    · rw [if_neg hq]
      have hlt : n / b < b ^ k := by
        rw [Nat.div_lt_iff_lt_mul (by omega)]
        rwa [Nat.pow_succ] at h
      have hk' : 0 < k := by
        refine Nat.pos_of_ne_zero fun h0 => hq ?_
        rw [h0, Nat.pow_zero] at hlt
        exact Nat.lt_one_iff.mp hlt
      exact Nat.succ_le_succ (ih hk' hlt)

end Windz.Lib
