import Windz.Log.ConvertProof
import Windz.Log.LogStreamMemory

/-!
# What a `LogStream` holds

Whatever is streamed, nothing is stored outside `data_`, the cursor stays before its
end, and what lies before the cursor is the operands that fitted, each printed whole.

The operators fall into two kinds: text, which is compared with the room there is, and
numbers, which are written behind one fixed test and with a NUL. Each kind has its
lemma, and `put_spec` puts them together.
-/

namespace Windz

open Lib FixBuffer
open Integer (toInt)

/-- Writing on behind what was written. -/
theorem Lib.overwrite_overwrite {α : Type} {xs s t : List α} {i : Nat}
    (h : i + (s ++ t).length ≤ xs.length) :
    overwrite (overwrite xs i s) (i + s.length) t = overwrite xs i (s ++ t) := by
  have hs : i + s.length ≤ xs.length := by
    rw [List.length_append] at h
    omega
  have ht : i + s.length + t.length ≤ (overwrite xs i s).length := by
    rw [overwrite_length hs]
    rw [List.length_append] at h
    omega
  have happend := copyIn_append s t xs i
  rw [copyIn_eq _ _ _ h, copyIn_eq _ _ _ hs, Option.bind_some, copyIn_eq _ _ _ ht] at happend
  exact (Option.some.inj happend).symm

theorem FixBuffer.eq_of_data {size : Nat} {b b' : FixBuffer size} (h : b.data = b'.data) :
    b = b' := by
  cases b
  cases h
  rfl

namespace FixBuffer.Memory

variable {size : Nat} {b : Memory} {s : List UInt8}

/-- The bytes up to the cursor. -/
def content (b : Memory) : List UInt8 := b.data.take b.cur

/-- The array has the size it was declared with, and the cursor is not at its end. -/
structure Valid (size : Nat) (b : Memory) : Prop where
  sized : b.data.length = size
  room : b.cur < size

theorem Valid.content_length (h : Valid size b) : b.content.length = b.cur := by
  have := h.sized
  have := h.room
  unfold content
  rw [List.length_take]
  omega

/-- The difference of the pointers does not wrap. -/
theorem Valid.avail_eq (h : Valid size b) (hs : size < 2 ^ 64) : b.avail = size - b.cur := by
  have := h.sized
  have := h.room
  unfold avail
  omega

/-- Bytes stored at the cursor, of which the first are counted. -/
theorem Valid.stored (h : Valid size b) (s rest : List UInt8)
    (hfit : b.cur + (s ++ rest).length ≤ size) (hlt : b.cur + s.length < size) :
    let b' := ({ b with data := overwrite b.data b.cur (s ++ rest) } : Memory).add s.length
    Valid size b' ∧ b'.content = b.content ++ s := by
  have hsize := h.sized
  have hfit' : b.cur + (s ++ rest).length ≤ b.data.length := by omega
  refine ⟨⟨?_, hlt⟩, ?_⟩
  · show (overwrite b.data b.cur (s ++ rest)).length = size
    rw [overwrite_length hfit', hsize]
  · have hcur : (b.data.take b.cur).length = b.cur := h.content_length
    show (overwrite b.data b.cur (s ++ rest)).take (b.cur + s.length) = b.data.take b.cur ++ s
    unfold overwrite
    rw [← List.append_assoc, List.append_assoc _ rest]
    exact List.take_left' (by rw [List.length_append, hcur])

/-- **Text** is appended when strictly more room is there than it needs. -/
theorem Valid.append_spec (h : Valid size b) (hs : size < 2 ^ 64) (s : List UInt8) :
    ∃ b', b.append s = some b' ∧ Valid size b'
      ∧ b'.content = b.content ++ if s.length < b.avail then s else [] := by
  have hsize := h.sized
  have havail := h.avail_eq hs
  unfold append
  by_cases hfit : s.length < b.avail
  · rw [if_pos hfit, if_pos hfit, copyIn_eq _ _ _ (by omega)]
    obtain ⟨hv, hc⟩ := h.stored s [] (by rw [List.append_nil]; omega) (by omega)
    rw [List.append_nil] at hv hc
    exact ⟨_, rfl, hv, hc⟩
  · rw [if_neg hfit, if_neg hfit, List.append_nil]
    exact ⟨b, rfl, h, rfl⟩

/-- The buffer of `LogStream.lean` is what can be read of this one. -/
def toFixBuffer (b : Memory) (h : Valid size b) : FixBuffer size :=
  ⟨b.content, by have := h.content_length; have := h.room; omega⟩

/-- `Append` is that of `LogStream.lean`. -/
theorem append_refines (h : Valid size b) (hs : size < 2 ^ 64) (s : List UInt8) :
    ∃ (b' : Memory) (h' : Valid size b'), b.append s = some b'
      ∧ b'.toFixBuffer h' = (b.toFixBuffer h).append s := by
  obtain ⟨b', he, hv, hc⟩ := h.append_spec hs s
  have havail : (b.toFixBuffer h).avail = b.avail := by
    rw [h.avail_eq hs]
    show size - b.content.length = _
    rw [h.content_length]
  refine ⟨b', hv, he, FixBuffer.eq_of_data ?_⟩
  show b'.content = _
  rw [hc]
  by_cases hfit : s.length < b.avail
  · rw [if_pos hfit, FixBuffer.append_data (by rw [havail]; exact hfit)]
    rfl
  · rw [if_neg hfit, FixBuffer.append, dif_neg (by rw [havail]; exact hfit), List.append_nil]
    rfl

end FixBuffer.Memory

namespace LogStream

variable {F : FloatFormat} {size : Nat} {b : Memory} {s : List UInt8}

/-! ## How operands print -/

/-- What `operator<<` writes for a `const char *`. -/
def renderString : Option (List UInt8) → List UInt8
  | some mem => cString mem
  | none => text "(null)"

/-- What an operand prints as. -/
def Operand.render : Operand F → List UInt8
  | .bool v => if v then text "1" else text "0"
  | .short v => decimal v.toInt
  | .unsignedShort v => decimal v.toNat
  | .integer _ v => decimal (toInt v)
  | .float v => F.format (F.toDouble v)
  | .double v => F.format v
  | .longDouble v => F.formatLong v
  | .char v => [v]
  | .cstr v => renderString v
  | .ucstr v => renderString v
  | .string v => v
  | .pointer v => text "0x" ++ hex v.toNat

/-- A number or a pointer. -/
def Operand.isNumber : Operand F → Bool
  | .short _ | .unsignedShort _ | .integer _ _ | .float _ | .double _ | .longDouble _
  | .pointer _ => true
  | .bool _ | .char _ | .cstr _ | .ucstr _ | .string _ => false

/-- The test an operand has to meet when `avail` bytes are free. -/
def Operand.fits (op : Operand F) (avail : Nat) : Bool :=
  if op.isNumber then kMaxNumericSize ≤ avail else op.render.length < avail

/-- The operands that meet their tests, each when its turn comes. -/
def accepted : Nat → List (Operand F) → List (Operand F)
  | _, [] => []
  | avail, op :: ops =>
      if op.fits avail then op :: accepted (avail - op.render.length) ops else accepted avail ops

/-! ## Numbers -/

/-- `write` puts `s` and a NUL where it is told to, if there is the room that was tested for. -/
def Writes (write : List UInt8 → Nat → Option (List UInt8 × Nat)) (s : List UInt8) : Prop :=
  s.length < kMaxNumericSize ∧ ∀ data cur, cur + kMaxNumericSize ≤ data.length →
    write data cur = some (overwrite data cur (s ++ [nul]), s.length)

theorem convert_writes {T : Type} [Integer T] (v : T) :
    Writes (fun data cur => convert data cur v) (decimal (toInt v)) := by
  have hlen := decimal_length_le v
  have hlt : (decimal (toInt v)).length < kMaxNumericSize := Nat.lt_of_le_of_lt hlen (by decide)
  exact ⟨hlt, fun data cur h => convert_eq v (by omega)⟩

theorem snprintf_writes (hs : s.length < kMaxNumericSize) :
    Writes (fun data cur => snprintf data cur kMaxNumericSize s) s := by
  refine ⟨hs, fun data cur h => ?_⟩
  have hlen : cur + (s ++ [nul]).length ≤ data.length := by
    rw [List.length_append, List.length_singleton]
    omega
  show (copyIn data cur (s.take (kMaxNumericSize - 1) ++ [nul])).map _ = _
  rw [List.take_of_length_le (by omega), copyIn_eq _ _ _ hlen]
  rfl

/-- An address takes two characters more than its digits. -/
theorem writePointer_writes (v : UInt64) :
    Writes (fun data cur => writePointer data cur v) (text "0x" ++ hex v.toNat) := by
  have hlen := hex_length_le v
  have hpre : (text "0x").length = 2 := by decide
  have hmax : kMaxNumericSize = 32 := rfl
  refine ⟨by rw [List.length_append, hpre]; omega, fun data cur h => ?_⟩
  have hcopy := copyIn_eq (text "0x") data cur (by omega)
  obtain ⟨m, hm, hcopy⟩ := Option.bind_eq_some_iff.mp
    (show (store? data cur '0'.toUInt8).bind (copyIn · (cur + 1) (text "x")) = _ from hcopy)
  obtain ⟨m', hm', hcopy⟩ := Option.bind_eq_some_iff.mp
    (show (store? m (cur + 1) 'x'.toUInt8).bind (copyIn · (cur + 2) []) = _ from hcopy)
  rw [copyIn, Option.some.injEq] at hcopy
  have hsize : m'.length = data.length := by
    rw [hcopy]
    exact overwrite_length (by omega)
  show writePointer data cur v = _
  unfold writePointer
  rw [hm, Option.bind_eq_bind, Option.bind_some]
  dsimp only [Option.bind_eq_bind]
  rw [hm', Option.bind_some, convertHex_eq v (by omega), Option.bind_some, hcopy, ← hpre,
    overwrite_overwrite, List.append_assoc, List.length_append, Nat.add_comm (text "0x").length]
  · rfl
  · rw [List.length_append, List.length_append, List.length_singleton, hpre]
    omega

/-- **A number** is printed behind the test for the largest. -/
theorem writeNumber_spec (h : Memory.Valid size b) (hs : size < 2 ^ 64)
    {write : List UInt8 → Nat → Option (List UInt8 × Nat)} (hw : Writes write s) :
    ∃ b', writeNumber write b = some b' ∧ Memory.Valid size b'
      ∧ b'.content = b.content ++ if kMaxNumericSize ≤ b.avail then s else [] := by
  obtain ⟨hlt, hwrite⟩ := hw
  have hsize := h.sized
  have havail := h.avail_eq hs
  unfold writeNumber
  by_cases hfit : kMaxNumericSize ≤ b.avail
  · rw [if_pos hfit, if_pos hfit, hwrite _ _ (by have := h.room; omega)]
    refine ⟨_, rfl, h.stored _ _ ?_ (by omega)⟩
    rw [List.length_append, List.length_singleton]
    omega
  · rw [if_neg hfit, if_neg hfit, List.append_nil]
    exact ⟨b, rfl, h, rfl⟩

/-! ## The operators -/

/-- **One operand** is printed whole or not at all, and nothing is stored outside. -/
theorem put_spec (hF : F.Short) (h : Memory.Valid size b) (hs : size < 2 ^ 64) (op : Operand F) :
    ∃ b', put b op = some b' ∧ Memory.Valid size b'
      ∧ b'.content = b.content ++ if op.fits b.avail then op.render else [] := by
  have htext : op.isNumber = false →
      (if op.fits b.avail then op.render else [])
        = if op.render.length < b.avail then op.render else [] := by
    intro hn
    simp [Operand.fits, hn]
  have hnumber : op.isNumber = true →
      (if op.fits b.avail then op.render else [])
        = if kMaxNumericSize ≤ b.avail then op.render else [] := by
    intro hn
    simp [Operand.fits, hn]
  cases op with
  | bool v => rw [htext rfl]; exact h.append_spec hs _
  | char v => rw [htext rfl]; exact h.append_spec hs _
  | string v => rw [htext rfl]; exact h.append_spec hs _
  | cstr v => rw [htext rfl]; cases v <;> exact h.append_spec hs _
  | ucstr v => rw [htext rfl]; cases v <;> exact h.append_spec hs _
  | short v =>
    have hv : decimal v.toInt = decimal (toInt v.toInt32) := by
      rw [show toInt v.toInt32 = v.toInt from Int16.toInt_toInt32 v]
    rw [hnumber rfl, Operand.render, hv]
    exact writeNumber_spec h hs (convert_writes v.toInt32)
  | unsignedShort v =>
    have hv : decimal v.toNat = decimal (toInt v.toUInt32) := by
      rw [show toInt v.toUInt32 = v.toNat from rfl]
    rw [hnumber rfl, Operand.render, hv]
    exact writeNumber_spec h hs (convert_writes v.toUInt32)
  | integer t v => rw [hnumber rfl]; exact writeNumber_spec h hs (convert_writes v)
  | float v => rw [hnumber rfl]; exact writeNumber_spec h hs (snprintf_writes (hF.format _))
  | double v => rw [hnumber rfl]; exact writeNumber_spec h hs (snprintf_writes (hF.format v))
  | longDouble v =>
    rw [hnumber rfl]
    exact writeNumber_spec h hs (snprintf_writes (hF.formatLong v))
  | pointer v => rw [hnumber rfl]; exact writeNumber_spec h hs (writePointer_writes v)

/-- **Any operands.** -/
theorem puts_spec (hF : F.Short) (hs : size < 2 ^ 64) (ops : List (Operand F)) {b : Memory}
    (h : Memory.Valid size b) : ∃ b', puts b ops = some b' ∧ Memory.Valid size b'
      ∧ b'.content = b.content ++ (accepted b.avail ops).flatMap Operand.render := by
  induction ops generalizing b with
  | nil => exact ⟨b, rfl, h, by rw [accepted, List.flatMap_nil, List.append_nil]⟩
  | cons op ops ih =>
    obtain ⟨b1, h1, hv1, hc1⟩ := put_spec hF h hs op
    obtain ⟨b2, h2, hv2, hc2⟩ := ih hv1
    have hlen := congrArg List.length hc1
    rw [List.length_append, hv1.content_length, h.content_length] at hlen
    have havail := h.avail_eq hs
    have havail1 := hv1.avail_eq hs
    refine ⟨b2, by rw [puts, h1, Option.bind_some, h2], hv2, ?_⟩
    rw [hc2, hc1, accepted]
    by_cases hfit : op.fits b.avail = true
    · rw [if_pos hfit] at hlen ⊢
      rw [if_pos hfit, List.flatMap_cons, ← List.append_assoc,
        show b1.avail = b.avail - op.render.length by omega]
    · rw [if_neg hfit] at hlen ⊢
      rw [List.length_nil] at hlen
      rw [if_neg hfit, List.append_nil, show b1.avail = b.avail by omega]

/--
**A stream holds what fitted, and writes nowhere else.**

Whatever `data_` was before and whatever is streamed: no store is outside `data_`, `Length()` stays
below its size and `Avail()` is what is left of it; the content is the operands that met their
tests, each printed whole and in order, and of a further operand the same is true.
-/
theorem stream_holds_accepted (hF : F.Short) {data : List UInt8}
    (hdata : data.length = kSmallBuffer) (ops : List (Operand F)) :
    ∃ b, puts (.create data) ops = some b
      ∧ b.data.length = kSmallBuffer ∧ b.length < kSmallBuffer
      ∧ b.avail = kSmallBuffer - b.length
      ∧ b.content = (accepted kSmallBuffer ops).flatMap Operand.render
      ∧ ∀ op : Operand F, ∃ b', put b op = some b'
        ∧ b'.content = b.content ++ if op.fits b.avail then op.render else [] := by
  have hs : kSmallBuffer < 2 ^ 64 := by decide
  have hinit : Memory.Valid kSmallBuffer (.create data) :=
    ⟨hdata, Nat.zero_lt_of_lt (show 32 < kSmallBuffer by decide)⟩
  obtain ⟨b, he, hv, hc⟩ := puts_spec hF hs ops hinit
  rw [hinit.avail_eq hs] at hc
  refine ⟨b, he, hv.sized, hv.room, hv.avail_eq hs, hc, fun op => ?_⟩
  obtain ⟨b', he', -, hc'⟩ := put_spec hF hv hs op
  exact ⟨b', he', hc'⟩

/-- Floating-point values that are whole numbers below `2 ^ 32`. -/
def wholeNumbers : FloatFormat where
  Float := UInt32
  Double := UInt32
  LongDouble := UInt32
  toDouble v := v
  format v := decimal v.toNat
  formatLong v := decimal v.toNat

theorem wholeNumbers_short : wholeNumbers.Short := by
  have hlt : ∀ v : UInt32, (decimal v.toNat).length < kMaxNumericSize := fun v =>
    Nat.lt_of_le_of_lt (decimal_length_le v) (by decide)
  exact ⟨hlt, hlt⟩

/-- A string that ends at its NUL, numbers of three kinds, and a string that does not fit. -/
theorem stream_holds_accepted_small :
    ∃ b, puts (F := wholeNumbers) (.create (List.replicate kSmallBuffer 7))
        [.cstr (some (text "id" ++ [nul, 7])), .integer .int (-5 : Int32), .pointer 255,
          .string (List.replicate 3992 7), .double (7 : UInt32), .bool true] = some b
      ∧ b.content = text "id-50xff71" := by
  obtain ⟨b, he, -, -, -, hc, -⟩ := stream_holds_accepted wholeNumbers_short
    (List.length_replicate (a := (7 : UInt8)) (n := kSmallBuffer))
    [.cstr (some (text "id" ++ [nul, 7])), .integer .int (-5 : Int32), .pointer 255,
      .string (List.replicate 3992 7), .double (7 : UInt32), .bool true]
  exact ⟨b, he, hc.trans (by decide +kernel)⟩

end LogStream

end Windz
