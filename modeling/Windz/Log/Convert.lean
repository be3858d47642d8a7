import Windz.Lib.Copy
import Windz.Lib.Numeral

/-!
# Integers as text

`Convert` and `ConvertHex` of `log/LogStream.cpp`. Both write the digits of a value
to memory while dividing it down, a NUL behind them, and then reverse what they
wrote. `Convert` never negates the value: of a negative one the remainders are
negative too, and `zero` points at the middle of a table that reads the same in both
directions.

Every store is checked, so that a position outside the memory is `none`.
-/

namespace Windz

open Lib

/-- A built-in integer type, and what the conversions do with its values. -/
class Integer (T : Type) extends Div T, Mod T where
  toInt : T → Int
  /-- A literal of the code. -/
  literal : Nat → T
  toInt_injective : Function.Injective toInt
  toInt_literal : ∀ n < 128, toInt (literal n) = n
  toInt_div : ∀ a b, 0 < toInt b → toInt (a / b) = (toInt a).tdiv (toInt b)
  toInt_mod : ∀ a b, 0 < toInt b → toInt (a % b) = (toInt a).tmod (toInt b)
  /-- No type is wider than 64 bits. -/
  small : ∀ a, (toInt a).natAbs < 10 ^ 20

open Integer (toInt literal toInt_injective toInt_literal toInt_div toInt_mod)

instance : Integer Int32 where
  toInt := Int32.toInt
  literal := Int32.ofNat
  toInt_injective _ _ := Int32.toInt.inj
  toInt_literal n h := Int32.toInt_ofNat_of_lt (Nat.lt_trans h (by decide))
  toInt_div a b h := by
    refine Int32.toInt_div_of_ne_right a b fun he => ?_
    rw [he] at h
    exact absurd h (by decide)
  toInt_mod a b _ := Int32.toInt_mod a b
  small a := by
    have := a.toInt_lt
    have := a.le_toInt
    omega

instance : Integer Int64 where
  toInt := Int64.toInt
  literal := Int64.ofNat
  toInt_injective _ _ := Int64.toInt.inj
  toInt_literal n h := Int64.toInt_ofNat_of_lt (Nat.lt_trans h (by decide))
  toInt_div a b h := by
    refine Int64.toInt_div_of_ne_right a b fun he => ?_
    rw [he] at h
    exact absurd h (by decide)
  toInt_mod a b _ := Int64.toInt_mod a b
  small a := by
    have := a.toInt_lt
    have := a.le_toInt
    omega

instance : Integer UInt32 where
  toInt a := a.toNat
  literal := UInt32.ofNat
  toInt_injective _ _ h := UInt32.toNat.inj (Int.ofNat.inj h)
  toInt_literal n h := congrArg Int.ofNat (UInt32.toNat_ofNat_of_lt' (Nat.lt_trans h (by decide)))
  toInt_div _ _ _ := rfl
  toInt_mod _ _ _ := rfl
  small a := by
    have := a.toNat_lt
    omega

instance : Integer UInt64 where
  toInt a := a.toNat
  literal := UInt64.ofNat
  toInt_injective _ _ h := UInt64.toNat.inj (Int.ofNat.inj h)
  toInt_literal n h := congrArg Int.ofNat (UInt64.toNat_ofNat_of_lt' (Nat.lt_trans h (by decide)))
  toInt_div _ _ _ := rfl
  toInt_mod _ _ _ := rfl
  small a := by
    have := a.toNat_lt
    omega

/-- The types that `FormatInteger` is instantiated with. -/
inductive IntegerType where
  | int
  | unsignedInt
  | long
  | unsignedLong
  | longLong
  | unsignedLongLong
deriving DecidableEq

/-- The type of the values. -/
def IntegerType.Value : IntegerType → Type
  | .int => Int32
  | .unsignedInt => UInt32
  | .long | .longLong => Int64
  | .unsignedLong | .unsignedLongLong => UInt64

instance (t : IntegerType) : Integer t.Value :=
  match t with
  | .int => inferInstanceAs (Integer Int32)
  | .unsignedInt => inferInstanceAs (Integer UInt32)
  | .long | .longLong => inferInstanceAs (Integer Int64)
  | .unsignedLong | .unsignedLongLong => inferInstanceAs (Integer UInt64)

namespace LogStream

/-! ## The conversions -/

/-- The zero at the end of a string. -/
def nul : UInt8 := 0

/-- The sign. -/
def minus : UInt8 := '-'.toUInt8

/-- The characters of a literal, all of them ASCII. -/
def text (s : String) : List UInt8 := s.toList.map Char.toUInt8

/-- `digits`: the digit of a remainder -9 to 9 is at its distance from the zero in the middle. -/
def digits : List UInt8 := text "9876543210123456789" ++ [nul]

/-- `zero[lsd]`; `zero` points into `digits`. -/
def zero (lsd : Int) : Option UInt8 :=
  if 0 ≤ 9 + lsd then digits[(9 + lsd).toNat]? else none

/-- `digits_hex`. -/
def digitsHex : List UInt8 := text "0123456789abcdef" ++ [nul]

/-- The base of a conversion and its table of digits. -/
structure Radix where
  /-- The base. -/
  base : Nat
  /-- The character of a remainder. -/
  digit : Int → Option UInt8
  /-- A conversion comes to an end. -/
  one_lt : 1 < base
  /-- The base is a literal of the code. -/
  small : base < 128

/-- `i % 10` and `zero[lsd]`. -/
def decimalRadix : Radix := ⟨10, zero, by decide, by decide⟩

/-- `i % 16` and `digitsHex[lsd]`. -/
def hexRadix : Radix :=
  ⟨16, fun lsd => if 0 ≤ lsd then digitsHex[lsd.toNat]? else none, by decide, by decide⟩

section Loop

variable {T : Type} [Integer T] (r : Radix)

theorem Radix.toInt_base : toInt (literal r.base : T) = r.base := toInt_literal _ r.small

theorem Radix.natAbs_div (i : T) :
    (toInt (i / literal r.base)).natAbs = (toInt i).natAbs / r.base := by
  have hpos : (0 : Int) < r.base := Int.natCast_pos.mpr (Nat.lt_trans Nat.one_pos r.one_lt)
  rw [toInt_div _ _ (by rw [r.toInt_base]; exact hpos), r.toInt_base, Int.natAbs_tdiv,
    Int.natAbs_natCast]
  rfl

theorem Radix.toInt_mod (i : T) :
    toInt (i % literal r.base) = (toInt i).tmod r.base := by
  have hpos : (0 : Int) < r.base := Int.natCast_pos.mpr (Nat.lt_trans Nat.one_pos r.one_lt)
  rw [Integer.toInt_mod _ _ (by rw [r.toInt_base]; exact hpos), r.toInt_base]

/-- `do { … } while (i != 0)` with `*p++ = …`, from position `p`. -/
def digitLoop (mem : List UInt8) (p : Nat) (i : T) : Option (List UInt8 × Nat) :=
  match (r.digit (toInt (i % literal r.base))).bind (store? mem p) with
  | none => none
  | some mem =>
      if toInt (i / literal r.base) ≠ 0 then digitLoop mem (p + 1) (i / literal r.base)
      else some (mem, p + 1)
termination_by (toInt i).natAbs
decreasing_by
  rename_i h
  have hdiv := r.natAbs_div i
  have hpos : 0 < (toInt i).natAbs := by
    refine Nat.pos_of_ne_zero fun h0 => h ?_
    rw [h0, Nat.zero_div] at hdiv
    exact Int.natAbs_eq_zero.mp hdiv
  rw [hdiv]
  exact Nat.div_lt_self hpos r.one_lt

end Loop

/-- `if (value < 0) *p++ = '-';` -/
def storeSign (mem : List UInt8) (p : Nat) (value : Int) : Option (List UInt8 × Nat) :=
  if value < 0 then (store? mem p minus).map fun mem => (mem, p + 1) else some (mem, p)

/-- `Convert`: the memory and the returned length. -/
def convert {T : Type} [Integer T] (mem : List UInt8) (buf : Nat) (value : T) :
    Option (List UInt8 × Nat) := do
  let (mem, p) ← digitLoop decimalRadix mem buf value
  let (mem, p) ← storeSign mem p (toInt value)
  let mem ← store? mem p nul
  let mem ← reverse? mem buf p
  return (mem, p - buf)

/-- `ConvertHex`. -/
def convertHex (mem : List UInt8) (buf : Nat) (value : UInt64) : Option (List UInt8 × Nat) := do
  let (mem, p) ← digitLoop hexRadix mem buf value
  let mem ← store? mem p nul
  let mem ← reverse? mem buf p
  return (mem, p - buf)

end LogStream

end Windz
