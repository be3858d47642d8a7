import Mathlib.Init

/-!
# `Duration` and `Timestamp`

Both count nanoseconds in an `int64_t`, so sums wrap around.
-/

namespace Windz

/-- `Duration`. -/
structure Duration where
  /-- `nanosecond_`. -/
  nanosecond : Int64
deriving DecidableEq

/-- `Timestamp`. -/
structure Timestamp where
  /-- `nanosecond_`. -/
  nanosecond : Int64
deriving DecidableEq

namespace Duration

/-- `IsZero`. -/
def isZero (d : Duration) : Bool := d.nanosecond = 0

/-- A millisecond in nanoseconds. -/
def kMillisecond : Int64 := 1000000

/-- `static_cast<int64_t>(Milliseconds())` of a positive duration. `Milliseconds` computes the
quotient as a `double`; up to the 10000 that a loop waits at most the two agree. -/
def milliseconds (d : Duration) : Int := d.nanosecond.toInt / kMillisecond.toInt

/-- `operator*=`. -/
def mul (d : Duration) (n : Int64) : Duration := ⟨d.nanosecond * n⟩

instance : LT Duration := ⟨fun a b => a.nanosecond < b.nanosecond⟩

instance (a b : Duration) : Decidable (a < b) :=
  inferInstanceAs (Decidable (a.nanosecond < b.nanosecond))

end Duration

namespace Timestamp

/-- `operator+`. -/
def add (t : Timestamp) (d : Duration) : Timestamp := ⟨t.nanosecond + d.nanosecond⟩

/-- `operator-`. -/
def sub (t other : Timestamp) : Duration := ⟨t.nanosecond - other.nanosecond⟩

instance : LT Timestamp := ⟨fun a b => a.nanosecond < b.nanosecond⟩

instance : LE Timestamp := ⟨fun a b => a.nanosecond ≤ b.nanosecond⟩

instance (a b : Timestamp) : Decidable (a < b) :=
  inferInstanceAs (Decidable (a.nanosecond < b.nanosecond))

instance (a b : Timestamp) : Decidable (a ≤ b) :=
  inferInstanceAs (Decidable (a.nanosecond ≤ b.nanosecond))

/-- The count as an integer, which orders timestamps. -/
def unixNano (t : Timestamp) : Int := t.nanosecond.toInt

theorem lt_iff {a b : Timestamp} : a < b ↔ a.unixNano < b.unixNano := Int64.lt_iff_toInt_lt

theorem le_iff {a b : Timestamp} : a ≤ b ↔ a.unixNano ≤ b.unixNano := Int64.le_iff_toInt_le

/-- The sum with a delay is exact if it fits. -/
theorem add_exact_iff {t : Timestamp} {d : Duration} (hd : 0 ≤ d.nanosecond.toInt) :
    (t.add d).unixNano = t.unixNano + d.nanosecond.toInt
      ↔ t.unixNano + d.nanosecond.toInt ≤ Int64.maxValue.toInt := by
  constructor
  · intro h
    rw [← h]
    exact Int64.toInt_le _
  · intro hfits
    have hmax : Int64.maxValue.toInt = 9223372036854775807 := rfl
    have hlow := t.nanosecond.le_toInt
    unfold unixNano at hfits ⊢
    rw [show (t.add d).nanosecond = t.nanosecond + d.nanosecond from rfl, Int64.toInt_add,
      Int.bmod_eq_of_le (by omega) (by omega)]

end Timestamp

end Windz
