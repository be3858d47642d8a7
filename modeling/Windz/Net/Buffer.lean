import Mathlib.Algebra.Group.Nat.Defs
import Windz.Lib.Copy

/-!
# `Buffer`

The byte buffer of `net/Buffer.h` and `net/Buffer.cpp`: one vector with a
reserve of `kPrependSize` bytes in front of the readable range. Every assertion
and every access to the vector is checked. An operation that fails an `assert`
on its arguments is a `precondition` fault, one that fails an `assert` about its
own work is an `assertion` fault, and one that reads or writes past the vector is
`outOfRange`.

The element type is a parameter: the code moves bytes without looking at them.
Sizes are numbers. The two sums a caller can make as large as it likes, of the
constructor and of `Shrink`, are `size_t` sums that wrap; the other sums are of
sizes of data in memory.
-/

namespace Windz

open Lib

/-- Why an operation does not return. -/
inductive Fault where
  /-- An `assert` on the arguments fails. -/
  | precondition
  /-- An `assert` about the operation's own work fails. -/
  | assertion
  /-- A position outside the vector is read or written. -/
  | outOfRange
deriving DecidableEq, Repr

/-- `assert(c)`. -/
def check (c : Prop) [Decidable c] (f : Fault) : Except Fault Unit :=
  if c then .ok () else .error f

/-- A checked access. -/
def inRange {β : Type} : Option β → Except Fault β
  | some x => .ok x
  | none => .error .outOfRange

/-- `Buffer`: the vector `buffer_` and the two indices into it. -/
structure Buffer (α : Type) where
  /-- `buffer_` -/
  buffer : List α
  /-- `read_index_` -/
  readIndex : Nat
  /-- `write_index_` -/
  writeIndex : Nat
deriving DecidableEq, Repr

/-- A sum in `size_t`, which has 64 bits. -/
def sizeT (n : Nat) : Nat := n % 2 ^ 64

/-- What `readv` answers: an error, or the bytes it put into the two ranges. -/
inductive ReadvResult (α : Type) where
  /-- `readv` returned -1. -/
  | error
  /-- The bytes it delivered. -/
  | bytes (xs : List α)
deriving DecidableEq, Repr

namespace Buffer

variable {α : Type}

/-- The reserve in front of the readable range. -/
def kPrependSize : Nat := 8

/-- The default initial size. -/
def kInitSize : Nat := 1024

/-- `sizeof(extra_buf)` in `ReadFd`. -/
def extraBufSize : Nat := 65536

/-- `Buffer(size_t init_size)`; the vector's elements are value-initialised. -/
def create [Inhabited α] (initSize : Nat) : Buffer α :=
  { buffer := List.replicate (sizeT (kPrependSize + initSize)) default
    readIndex := kPrependSize
    writeIndex := kPrependSize }

/-- `ReadableBytes`; no operation moves `read_index_` past `write_index_`. -/
def readableBytes (b : Buffer α) : Nat := b.writeIndex - b.readIndex

/-- `WritableBytes`; the `size_t` difference wraps where the vector ends before the index. -/
def writableBytes (b : Buffer α) : Nat :=
  if b.writeIndex ≤ b.buffer.length then b.buffer.length - b.writeIndex
  else b.buffer.length + 2 ^ 64 - b.writeIndex

/-- `PrependableBytes`. -/
def prependableBytes (b : Buffer α) : Nat := b.readIndex

/-- `std::vector::resize`. -/
def resize [Inhabited α] (n : Nat) (b : Buffer α) : Buffer α :=
  { b with buffer := b.buffer.take n ++ List.replicate (n - b.buffer.length) default }

/-- `Swap`. -/
def swap (b other : Buffer α) : Buffer α × Buffer α :=
  ({ buffer := other.buffer, readIndex := other.readIndex, writeIndex := other.writeIndex },
   { buffer := b.buffer, readIndex := b.readIndex, writeIndex := b.writeIndex })

/-- `Release`. -/
def release (len : Nat) (b : Buffer α) : Except Fault (Buffer α) := do
  check (len ≤ b.readableBytes) .precondition
  if len < b.readableBytes then
    return { b with readIndex := b.readIndex + len }
  else
    return { b with readIndex := kPrependSize, writeIndex := kPrependSize }

/-- `ReleaseUntil(c)`, the pointer given by its distance from `Peek()`. -/
def releaseUntil (c : Int) (b : Buffer α) : Except Fault (Buffer α) := do
  check (0 ≤ c) .precondition
  b.release c.toNat

/-- `ReleaseAll`. -/
def releaseAll (b : Buffer α) : Except Fault (Buffer α) := b.release b.readableBytes

/-- `Read`: the bytes and the buffer without them. -/
def read (len : Nat) (b : Buffer α) : Except Fault (List α × Buffer α) := do
  check (len ≤ b.readableBytes) .precondition
  let s ← inRange (slice? b.buffer b.readIndex len)
  let b ← b.release len
  return (s, b)

/-- `ReadAll`. -/
def readAll (b : Buffer α) : Except Fault (List α × Buffer α) := b.read b.readableBytes

/-- `AlignPrepend`: move the readable range to just behind the reserve. -/
def alignPrepend [Inhabited α] (b : Buffer α) : Except Fault (Buffer α) := do
  let readByte := b.readableBytes
  if b.readIndex = kPrependSize then
    return b
  let b ←
    if b.readIndex < kPrependSize then
      let b := if b.buffer.length < readByte + kPrependSize then
          b.resize (readByte + kPrependSize) else b
      let buffer ← inRange (copyBackward b.buffer b.writeIndex (readByte + kPrependSize) readByte)
      pure { b with buffer }
    else
      let buffer ← inRange (copy b.buffer b.readIndex kPrependSize readByte)
      pure { b with buffer }
  return { b with readIndex := kPrependSize, writeIndex := kPrependSize + readByte }

/-- `ExtendSpace`: align, and grow the vector where that does not make room for `len` bytes. -/
def extendSpace [Inhabited α] (len : Nat) (b : Buffer α) : Except Fault (Buffer α) := do
  let b ← b.alignPrepend
  if b.writableBytes < len then
    return b.resize (b.writeIndex + len)
  else
    return b

/-- `Write`. -/
def write [Inhabited α] (data : List α) (b : Buffer α) : Except Fault (Buffer α) := do
  let b ← if b.writableBytes < data.length then b.extendSpace data.length else pure b
  check (data.length ≤ b.writableBytes) .assertion
  let buffer ← inRange (copyIn b.buffer b.writeIndex data)
  return { b with buffer, writeIndex := b.writeIndex + data.length }

/-- `UnWrite`. -/
def unWrite (len : Nat) (b : Buffer α) : Except Fault (Buffer α) := do
  check (len ≤ b.readableBytes) .precondition
  return { b with writeIndex := b.writeIndex - len }

/-- `Prepend`. -/
def prepend (data : List α) (b : Buffer α) : Except Fault (Buffer α) := do
  check (data.length ≤ b.prependableBytes) .precondition
  let readIndex := b.readIndex - data.length
  let buffer ← inRange (copyIn b.buffer readIndex data)
  return { b with buffer, readIndex }

/-- `Shrink`; `shrink_to_fit` changes the capacity only. -/
def shrink [Inhabited α] (reserve : Nat) (b : Buffer α) : Except Fault (Buffer α) := do
  let b ← b.alignPrepend
  return b.resize (sizeT (kPrependSize + b.readableBytes + reserve))

/-- `ReadFd`: `readv` fills the writable range first and `extra_buf` after it, and never
returns more than both hold. The first component is the returned count. -/
def readFd [Inhabited α] (r : ReadvResult α) (b : Buffer α) : Except Fault (Int × Buffer α) := do
  match r with
  | .error => return (-1, b)
  | .bytes xs =>
    let writeByte := b.writableBytes
    check (xs.length ≤ writeByte + extraBufSize) .precondition
    let buffer ← inRange (copyIn b.buffer b.writeIndex (xs.take writeByte))
    let b := { b with buffer }
    if xs.length ≤ writeByte then
      return (xs.length, { b with writeIndex := b.writeIndex + xs.length })
    else
      let b ← ({ b with writeIndex := b.buffer.length } : Buffer α).write (xs.drop writeByte)
      return (xs.length, b)

end Buffer

end Windz
