import Mathlib.Data.List.Basic

/-!
# `FixBuffer`

The fixed-size character buffer of `log/LogStream.h`. Only the bytes before the
cursor can be read from outside, through `data()` and `Length()`, so a buffer is
the list of these bytes; that they fit is part of the type. `Bzero`, which clears the
memory and leaves the cursor, does nothing to them.
-/

namespace Windz

/-- `kSmallBuffer`, the size of a line. -/
def kSmallBuffer : Nat := 4000

/-- `kLargeBuffer`, the size of a buffer of `AsyncLogging`. -/
def kLargeBuffer : Nat := 4000 * 1000

/-- `FixBuffer<SIZE>`: the bytes from `data_` up to `cur_`. -/
structure FixBuffer (size : Nat) where
  /-- The bytes up to `cur_`. -/
  data : List UInt8
  /-- `cur_` is within the array. -/
  fits : data.length ≤ size
deriving DecidableEq

namespace FixBuffer

variable {size : Nat}

/-- `FixBuffer()`: the cursor at the start. -/
def create (size : Nat) : FixBuffer size := ⟨[], Nat.zero_le _⟩

/-- `Length`. -/
def length (b : FixBuffer size) : Nat := b.data.length

/-- `Avail`. -/
def avail (b : FixBuffer size) : Nat := size - b.length

/-- `Append` copies the bytes only when strictly more room is available than they need. -/
def append (bytes : List UInt8) (b : FixBuffer size) : FixBuffer size :=
  if h : bytes.length < b.avail then
    ⟨b.data ++ bytes, by
      have := b.fits
      simp only [avail, length] at h
      simp only [List.length_append]
      omega⟩
  else b

/-- `Reset` moves the cursor back to the start. -/
def reset (_ : FixBuffer size) : FixBuffer size := create size

theorem append_data {b : FixBuffer size} {bytes : List UInt8} (h : bytes.length < b.avail) :
    (b.append bytes).data = b.data ++ bytes := by
  unfold append
  rw [dif_pos h]

@[simp] theorem create_avail : (create size).avail = size := rfl

end FixBuffer

end Windz
