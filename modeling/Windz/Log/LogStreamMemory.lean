import Windz.Log.Convert
import Windz.Log.LogStream

/-!
# `LogStream`

`FixBuffer` and the operators of `LogStream` with the memory they write to. `data_` is
a list of bytes, whatever they were before, and `cur_` a position in it; a store
outside is `none`. `FixBuffer` of `LogStream.lean` is what can be read of it.

Numbers are written first, where `cur_` stands, and counted afterwards.
-/

namespace Windz

open Lib

namespace FixBuffer

/-- `FixBuffer<SIZE>`, `SIZE` being the length of `data`. -/
structure Memory where
  /-- `data_`. -/
  data : List UInt8
  /-- The index of `cur_`. -/
  cur : Nat
deriving DecidableEq

namespace Memory

/-- `FixBuffer()` leaves `data_` as it finds it. -/
def create (data : List UInt8) : Memory := ⟨data, 0⟩

/-- `Length`. -/
def length (b : Memory) : Nat := b.cur

/-- `static_cast<size_t>(end() - cur_)` -/
def avail (b : Memory) : Nat := (((b.data.length : Int) - b.cur) % 2 ^ 64).toNat

/-- `Add`. -/
def add (len : Nat) (b : Memory) : Memory := { b with cur := b.cur + len }

/-- `Append`, which leaves out what does not fit. -/
def append (bytes : List UInt8) (b : Memory) : Option Memory :=
  if bytes.length < b.avail then
    (copyIn b.data b.cur bytes).map fun data => ({ b with data } : Memory).add bytes.length
  else some b

end Memory

end FixBuffer

namespace LogStream

open FixBuffer

/-- `kMaxNumericSize`. -/
def kMaxNumericSize : Nat := 32

/-- The floating-point types and what `snprintf` prints for them. -/
structure FloatFormat where
  /-- `float`. -/
  Float : Type
  /-- `double`. -/
  Double : Type
  /-- `long double`. -/
  LongDouble : Type
  /-- `static_cast<double>` -/
  toDouble : Float → Double
  /-- `%.12g` -/
  format : Double → List UInt8
  /-- `%.12Lg` -/
  formatLong : LongDouble → List UInt8

/-- What is printed has room in the memory given to `snprintf`. -/
structure FloatFormat.Short (F : FloatFormat) : Prop where
  format : ∀ v, (F.format v).length < kMaxNumericSize
  formatLong : ∀ v, (F.formatLong v).length < kMaxNumericSize

/-- What an operator `<<` is given. -/
inductive Operand (F : FloatFormat) where
  | bool (v : Bool)
  | short (v : Int16)
  | unsignedShort (v : UInt16)
  | integer (t : IntegerType) (v : t.Value)
  | float (v : F.Float)
  | double (v : F.Double)
  | longDouble (v : F.LongDouble)
  | char (v : UInt8)
  -- a pointer to `char` or `unsigned char`, as the memory that it points to
  | cstr (v : Option (List UInt8))
  | ucstr (v : Option (List UInt8))
  | string (v : List UInt8)
  | pointer (v : UInt64)

/-- The string at a pointer: the bytes in front of the first NUL. -/
def cString (mem : List UInt8) : List UInt8 := mem.takeWhile (· ≠ nul)

/-- `snprintf` of something that prints as `s`: the memory, and the length of `s`. -/
def snprintf (mem : List UInt8) (buf size : Nat) (s : List UInt8) : Option (List UInt8 × Nat) :=
  (copyIn mem buf (s.take (size - 1) ++ [nul])).map fun mem => (mem, s.length)

/-- What the operators for numbers do behind `Avail() >= kMaxNumericSize`. -/
def writeNumber (write : List UInt8 → Nat → Option (List UInt8 × Nat)) (b : Memory) :
    Option Memory :=
  if kMaxNumericSize ≤ b.avail then
    (write b.data b.cur).map fun r => ({ b with data := r.1 } : Memory).add r.2
  else some b

/-- `FormatInteger`. -/
def formatInteger {T : Type} [Integer T] (v : T) (b : Memory) : Option Memory :=
  writeNumber (fun data cur => convert data cur v) b

/-- The digits of a pointer, behind `0x`. -/
def writePointer (data : List UInt8) (buf : Nat) (v : UInt64) : Option (List UInt8 × Nat) := do
  let data ← store? data buf '0'.toUInt8
  let data ← store? data (buf + 1) 'x'.toUInt8
  let r ← convertHex data (buf + 2) v
  return (r.1, r.2 + 2)

/-- `operator<<` of a `const char *`, `none` being null. -/
def putString (v : Option (List UInt8)) (b : Memory) : Option Memory :=
  match v with
  | some mem => b.append (cString mem)
  | none => b.append (text "(null)")

variable {F : FloatFormat}

/-- `operator<<` of a `double`. -/
def putDouble (v : F.Double) (b : Memory) : Option Memory :=
  writeNumber (fun data cur => snprintf data cur kMaxNumericSize (F.format v)) b

/-- `operator<<` -/
def put (b : Memory) : Operand F → Option Memory
  | .bool v => b.append (if v then text "1" else text "0")
  | .short v => formatInteger v.toInt32 b
  | .unsignedShort v => formatInteger v.toUInt32 b
  | .integer _ v => formatInteger v b
  | .float v => putDouble (F.toDouble v) b
  | .double v => putDouble v b
  | .longDouble v =>
      writeNumber (fun data cur => snprintf data cur kMaxNumericSize (F.formatLong v)) b
  | .char v => b.append [v]
  | .cstr v => putString v b
  | .ucstr v => putString v b
  | .string v => b.append v
  | .pointer v => writeNumber (fun data cur => writePointer data cur v) b

/-- The operands in order. -/
def puts (b : Memory) : List (Operand F) → Option Memory
  | [] => some b
  | op :: ops => (put b op).bind fun b => puts b ops

end LogStream

end Windz
