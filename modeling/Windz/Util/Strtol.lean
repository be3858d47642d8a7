import Mathlib.Data.Nat.Digits.Lemmas
import Windz.Util.Config

/-!
# `strtol`

The conversion of the C library that `Config::GetInt` and, as `atoi`, the reading of a pidfile
rest on: blanks, a sign, the prefix of a base, and digits. What comes behind the digits is
not looked at. A number that does not fit into a `long` gives the nearest that does, and
`atoi` makes an `int` of it by dropping the high bits.
-/

namespace Windz

open Lib Config

namespace Strtol

/-- The digit that an octal numeral begins with. -/
def zero : UInt8 := '0'.toUInt8
/-- One sign. -/
def plus : UInt8 := '+'.toUInt8
/-- The other. -/
def minus : UInt8 := '-'.toUInt8

/-- The value of a digit or a letter; any other character is a digit in no base. -/
def digitValue (c : UInt8) : Nat :=
  if 48 ≤ c ∧ c ≤ 57 then c.toNat - 48
  else if 65 ≤ c ∧ c ≤ 90 then c.toNat - 55
  else if 97 ≤ c ∧ c ≤ 122 then c.toNat - 87
  else 36

/-- The digits in front. -/
def digits (base : Nat) (s : Bytes) : Bytes := s.takeWhile fun c => digitValue c < base

/-- Their number, `none` when there is no digit. -/
def magnitude (base : Nat) (s : Bytes) : Option Nat :=
  if digits base s = [] then none
  else some (Nat.ofDigits base ((digits base s).map digitValue).reverse)

/-- Whether there is a minus, and what is behind the sign. -/
def sign : Bytes → Bool × Bytes
  | [] => (false, [])
  | c :: s => if c = minus then (true, s) else if c = plus then (false, s) else (false, c :: s)

/-- `0x` with a digit behind it. -/
def hexPrefix : Bytes → Bool
  | z :: x :: c :: _ => z = zero ∧ tolower x = 'x'.toUInt8 ∧ digitValue c < 16
  | _ => false

/-- The base, and what is behind its prefix. -/
def basePrefix (base : Nat) (s : Bytes) : Nat × Bytes :=
  if (base = 0 ∨ base = 16) ∧ hexPrefix s then (16, s.drop 2)
  else if base = 0 then (if s.head? = some zero then 8 else 10, s)
  else (base, s)

/-- `LONG_MAX`. -/
def longMax : Int := 2 ^ 63 - 1
/-- `LONG_MIN`. -/
def longMin : Int := -2 ^ 63

/-- A number outside the range of a `long` becomes its nearest value. -/
def clampLong (n : Int) : Int := max longMin (min n longMax)

/-- `strtol`, `none` when nothing is converted. -/
def strtol (s : Bytes) (base : Nat) : Option Int :=
  let (negative, s) := sign (s.dropWhile isspace)
  let (base, s) := basePrefix base s
  (magnitude base s).map fun n => clampLong (if negative then -n else n)

/-- `atoi`: `(int) strtol(s, NULL, 10)`. -/
def atoi (s : Bytes) : Int := Int.bmod ((strtol s 10).getD 0) (2 ^ 32)

/-! ## Digits in front -/

/-- It is a decimal digit. -/
def IsDigit (c : UInt8) : Prop := digitValue c < 10

instance (c : UInt8) : Decidable (IsDigit c) := inferInstanceAs (Decidable (_ < _))

theorem IsDigit.range {c : UInt8} (h : IsDigit c) : 48 ≤ c ∧ c ≤ 57 := by
  unfold IsDigit digitValue at h
  split at h
  · assumption
  split at h
  · rename_i hc
    have hlow : 65 ≤ c.toNat := UInt8.le_iff_toNat_le.mp hc.1
    omega
  split at h
  · rename_i hc
    have hlow : 97 ≤ c.toNat := UInt8.le_iff_toNat_le.mp hc.1
    omega
  · exact absurd h (by decide)

theorem digits_append {s : Bytes} (hs : ∀ c ∈ s, IsDigit c) (rest : Bytes) :
    digits 10 (s ++ rest) = s ++ digits 10 rest :=
  List.takeWhile_append_of_pos fun c hc => decide_eq_true (hs c hc)

/-- **Digits in front are converted** together with those behind them. -/
theorem strtol_digits {s : Bytes} (hne : s ≠ []) (hs : ∀ c ∈ s, IsDigit c) (rest : Bytes) :
    strtol (s ++ rest) 10 = some
      (clampLong (Nat.ofDigits 10 ((s ++ digits 10 rest).map digitValue).reverse : Nat)) := by
  obtain ⟨c, t, rfl⟩ := List.exists_cons_of_ne_nil hne
  have hrange := (hs c List.mem_cons_self).range
  have hother : ∀ b : UInt8, b < 48 → c ≠ b := fun b hb hc =>
    absurd (hc ▸ hrange.1) (UInt8.not_le.mpr hb)
  have hspace : isspace c = false := by
    refine decide_eq_false fun hc => ?_
    rcases hc with hc | ⟨-, hc⟩
    · exact hother 32 (by decide) hc
    · exact absurd (UInt8.le_trans hrange.1 hc) (by decide)
  have hdrop : (c :: t ++ rest).dropWhile isspace = c :: t ++ rest :=
    List.dropWhile_cons_of_neg (by rw [hspace]; exact Bool.false_ne_true)
  have hsign : sign (c :: t ++ rest) = (false, c :: t ++ rest) := by
    rw [List.cons_append, sign, if_neg (hother _ (by decide)), if_neg (hother _ (by decide))]
  have hbase : basePrefix 10 (c :: t ++ rest) = (10, c :: t ++ rest) := by
    unfold basePrefix
    rw [if_neg (fun h => absurd h.1 (by decide)), if_neg (by decide)]
  unfold strtol magnitude
  rw [hdrop, hsign]
  dsimp only
  rw [hbase]
  dsimp only
  rw [digits_append hs, if_neg (by simp)]
  rfl

end Strtol

end Windz
