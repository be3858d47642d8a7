import Windz.Net.Buffer

/-!
# A `Buffer` is a byte sequence

`contents` is the sequence a buffer stands for. Under the index invariant
`Valid` every operation either rejects its arguments, by the assertion it opens
with, or succeeds: its own assertions hold, no access leaves the vector, the
invariant is kept and the contents change as they would for a plain sequence.

The moves inside the vector all happen in `alignPrepend`, which copies left or
right over an overlapping range; `copy_eq` and `copyBackward_eq` say it picks the
safe direction.
-/

namespace Windz

open Lib

/-! ## Checked steps -/

theorem check_ok {c : Prop} [Decidable c] {f : Fault} (h : c) : check c f = .ok () := if_pos h

@[simp] theorem inRange_some {β : Type} (x : β) : inRange (some x) = .ok x := rfl

@[simp] theorem fault_ok_bind {β γ : Type} (x : β) (f : β → Except Fault γ) :
    (Except.ok x >>= f) = f x := rfl

@[simp] theorem fault_error_bind {β γ : Type} (e : Fault) (f : β → Except Fault γ) :
    (Except.error e >>= f) = .error e := rfl

/-- What it takes for a sequence of two steps to return. -/
theorem fault_bind_ok {β γ : Type} {x : Except Fault β} {f : β → Except Fault γ} {r : γ}
    (h : (x >>= f) = .ok r) : ∃ a, x = .ok a ∧ f a = .ok r := by
  cases x with
  | error e => cases h
  | ok a => exact ⟨a, rfl, h⟩

theorem inRange_of_ok {β : Type} {x : Option β} {a : β} (h : inRange x = .ok a) : x = some a := by
  cases x with
  | none => cases h
  | some b => rw [Except.ok.inj h]

@[simp] theorem fault_pure {β : Type} (x : β) : (pure x : Except Fault β) = .ok x := rfl

namespace Buffer

variable {α : Type}

/-- The readable range. -/
def contents (b : Buffer α) : List α := (b.buffer.drop b.readIndex).take b.readableBytes

/-- **The index invariant.** -/
structure Valid (b : Buffer α) : Prop where
  /-- The readable range does not run backwards. -/
  read_le_write : b.readIndex ≤ b.writeIndex
  /-- It ends inside the vector. -/
  write_le_size : b.writeIndex ≤ b.buffer.length
  /-- The reserve in front fits, so that an emptied buffer can be reset to it. -/
  prepend_le_size : kPrependSize ≤ b.buffer.length

theorem sizeT_eq {n : Nat} (h : n < 2 ^ 64) : sizeT n = n := Nat.mod_eq_of_lt h

theorem sizeT_le (n : Nat) : sizeT n ≤ n := Nat.mod_le _ _

theorem create_length [Inhabited α] (n : Nat) :
    (create n : Buffer α).buffer.length = sizeT (kPrependSize + n) := List.length_replicate

theorem create_valid [Inhabited α] {n : Nat} (h : kPrependSize + n < 2 ^ 64) :
    (create n : Buffer α).Valid where
  read_le_write := Nat.le_refl _
  write_le_size := by rw [create_length, sizeT_eq h]; exact Nat.le_add_right _ _
  prepend_le_size := by rw [create_length, sizeT_eq h]; exact Nat.le_add_right _ _

@[simp] theorem create_contents [Inhabited α] (n : Nat) : (create n : Buffer α).contents = [] := by
  simp [create, contents, readableBytes]

theorem Valid.readable_add {b : Buffer α} (h : b.Valid) :
    b.readIndex + b.readableBytes = b.writeIndex := by
  have := h.read_le_write
  unfold readableBytes; omega

theorem Valid.contents_length {b : Buffer α} (h : b.Valid) :
    b.contents.length = b.readableBytes := by
  have := h.readable_add
  have := h.write_le_size
  simp [contents]; omega

theorem Valid.writable_add {b : Buffer α} (h : b.Valid) :
    b.writeIndex + b.writableBytes = b.buffer.length := by
  have := h.write_le_size
  unfold writableBytes
  rw [if_pos this]; omega

@[simp] theorem resize_length [Inhabited α] (n : Nat) (b : Buffer α) :
    (b.resize n).buffer.length = n := by
  simp [resize]; omega

@[simp] theorem resize_readIndex [Inhabited α] (n : Nat) (b : Buffer α) :
    (b.resize n).readIndex = b.readIndex := rfl

@[simp] theorem resize_writeIndex [Inhabited α] (n : Nat) (b : Buffer α) :
    (b.resize n).writeIndex = b.writeIndex := rfl

@[simp] theorem resize_readableBytes [Inhabited α] (n : Nat) (b : Buffer α) :
    (b.resize n).readableBytes = b.readableBytes := rfl

/-- Resizing beyond the readable range does not touch it. -/
theorem resize_contents [Inhabited α] {b : Buffer α} (h : b.Valid) {n : Nat}
    (hn : b.writeIndex ≤ n) : (b.resize n).contents = b.contents := by
  have hadd := h.readable_add
  have hsize := h.write_le_size
  refine List.ext_getElem? fun j => ?_
  simp only [contents, resize_readIndex, resize_readableBytes, List.getElem?_take]
  split
  · rw [List.getElem?_drop, List.getElem?_drop]
    simp only [resize]
    rw [List.getElem?_append_left (by simp; omega), List.getElem?_take_of_lt (by omega)]
  · rfl

theorem resize_valid [Inhabited α] {b : Buffer α} (h : b.Valid) {n : Nat} (hn : b.writeIndex ≤ n)
    (hp : kPrependSize ≤ n) : (b.resize n).Valid where
  read_le_write := h.read_le_write
  write_le_size := by simpa using hn
  prepend_le_size := by simpa using hp

/-! ## Dropping from the two ends -/

theorem release_spec {b : Buffer α} (h : b.Valid) {len : Nat} (hlen : len ≤ b.readableBytes) :
    ∃ b', b.release len = .ok b' ∧ b'.Valid ∧ b'.contents = b.contents.drop len
      ∧ b'.buffer.length = b.buffer.length := by
  unfold release
  rw [check_ok hlen, fault_ok_bind]
  have hadd := h.readable_add
  split
  · rename_i hlt
    refine ⟨_, rfl, ⟨by dsimp only; omega, h.write_le_size, h.prepend_le_size⟩, ?_, rfl⟩
    simp only [contents, readableBytes, List.drop_take, List.drop_drop]
    congr 1
    omega
  · -- everything is released: the indices go back behind the reserve
    refine ⟨_, rfl, ⟨Nat.le_refl _, h.prepend_le_size, h.prepend_le_size⟩, ?_, rfl⟩
    rw [List.drop_eq_nil_of_le (by rw [h.contents_length]; omega)]
    simp [contents, readableBytes]

theorem read_spec {b : Buffer α} (h : b.Valid) {len : Nat} (hlen : len ≤ b.readableBytes) :
    ∃ b', b.read len = .ok (b.contents.take len, b') ∧ b'.Valid
      ∧ b'.contents = b.contents.drop len ∧ b'.buffer.length = b.buffer.length := by
  obtain ⟨b', hrel, hv, hc, hl⟩ := release_spec h hlen
  have hadd := h.readable_add
  have hsize := h.write_le_size
  refine ⟨b', ?_, hv, hc, hl⟩
  unfold read
  rw [check_ok hlen, slice?_eq (by omega), hrel]
  simp only [fault_ok_bind, inRange_some, fault_pure, contents, List.take_take,
    Nat.min_eq_left hlen]

theorem unWrite_spec {b : Buffer α} (h : b.Valid) {len : Nat} (hlen : len ≤ b.readableBytes) :
    ∃ b', b.unWrite len = .ok b' ∧ b'.Valid
      ∧ b'.contents = b.contents.take (b.contents.length - len)
      ∧ b'.buffer.length = b.buffer.length := by
  have hadd := h.readable_add
  have hsize := h.write_le_size
  unfold unWrite
  rw [check_ok hlen, fault_ok_bind]
  refine ⟨_, rfl, ⟨by dsimp only; omega, by dsimp only; omega, h.prepend_le_size⟩, ?_, rfl⟩
  rw [h.contents_length]
  simp only [contents, readableBytes, List.take_take]
  congr 1
  omega

/-! ## Making room -/

/-- The vector after `AlignPrepend`: the readable range moved behind the reserve. -/
theorem alignPrepend_spec [Inhabited α] {b : Buffer α} (h : b.Valid) :
    ∃ b', b.alignPrepend = .ok b' ∧ b'.Valid ∧ b'.contents = b.contents
      ∧ b'.readIndex = kPrependSize ∧ b'.writeIndex = kPrependSize + b.readableBytes
      ∧ b'.buffer.length = max b.buffer.length (kPrependSize + b.readableBytes) := by
  have hadd := h.readable_add
  have hsize := h.write_le_size
  have hpre := h.prepend_le_size
  -- whatever vector the readable range was copied into, reading it back gives the contents
  have moved : ∀ xs : List α, kPrependSize + b.readableBytes ≤ xs.length →
      (xs.drop b.readIndex).take b.readableBytes = b.contents →
      let b' : Buffer α := { buffer := overwrite xs kPrependSize b.contents
                             readIndex := kPrependSize
                             writeIndex := kPrependSize + b.readableBytes }
      b'.Valid ∧ b'.contents = b.contents ∧ b'.buffer.length = xs.length := by
    intro xs hxs hc
    have hlen : (overwrite xs kPrependSize b.contents).length = xs.length :=
      overwrite_length (by rw [h.contents_length]; exact hxs)
    refine ⟨⟨Nat.le_add_right _ _, ?_, ?_⟩, ?_, hlen⟩
    · dsimp only; omega
    · dsimp only; omega
    · show ((overwrite xs kPrependSize b.contents).drop kPrependSize).take
        (kPrependSize + b.readableBytes - kPrependSize) = b.contents
      rw [Nat.add_sub_cancel_left, ← h.contents_length]
      exact overwrite_slice (by omega)
  unfold alignPrepend
  dsimp only
  by_cases h0 : b.readIndex = kPrependSize
  · rw [if_pos h0]
    exact ⟨b, rfl, h, rfl, h0, by omega, by omega⟩
  · rw [if_neg h0]
    by_cases hlt : b.readIndex < kPrependSize
    · -- the range moves right, into a vector that was grown if it had to be
      rw [if_pos hlt]
      generalize hb1 : (if b.buffer.length < b.readableBytes + kPrependSize then
        b.resize (b.readableBytes + kPrependSize) else b) = b1
      have hlen1 : b1.buffer.length = max b.buffer.length (kPrependSize + b.readableBytes) := by
        subst hb1
        split
        · rw [resize_length]; omega
        · omega
      have hw1 : b1.writeIndex = b.readIndex + b.readableBytes := by
        subst hb1; split <;> exact hadd.symm
      have hc1 : (b1.buffer.drop b.readIndex).take b.readableBytes = b.contents := by
        subst hb1; split
        · exact resize_contents h (n := b.readableBytes + kPrependSize) (by omega)
        · rfl
      have hcopy := copyBackward_eq b1.buffer b.readableBytes (Nat.le_of_lt hlt) (by omega)
      rw [hc1] at hcopy
      rw [hw1, Nat.add_comm b.readableBytes kPrependSize, hcopy]
      obtain ⟨hv, hc, hl⟩ := moved b1.buffer (by omega) hc1
      exact ⟨_, rfl, hv, hc, rfl, rfl, by rw [← hlen1]; exact hl⟩
    · -- the range moves left
      rw [if_neg hlt]
      have hle : kPrependSize ≤ b.readIndex := by omega
      have hcopy := copy_eq b.buffer b.readableBytes hle (by omega)
      rw [hcopy]
      obtain ⟨hv, hc, hl⟩ := moved b.buffer (by omega) rfl
      exact ⟨_, rfl, hv, hc, rfl, rfl, by rw [Nat.max_eq_left (by omega)]; exact hl⟩

theorem extendSpace_spec [Inhabited α] {b : Buffer α} (h : b.Valid) (len : Nat) :
    ∃ b', b.extendSpace len = .ok b' ∧ b'.Valid ∧ b'.contents = b.contents
      ∧ len ≤ b'.writableBytes
      ∧ b'.buffer.length = max b.buffer.length (kPrependSize + b.readableBytes + len) := by
  obtain ⟨b1, h1, hv, hc, _, hw, hl⟩ := alignPrepend_spec h
  have hadd := hv.writable_add
  unfold extendSpace
  rw [h1, fault_ok_bind]
  split
  · refine ⟨_, rfl, resize_valid hv (by omega) (by omega), ?_, ?_, ?_⟩
    · rw [resize_contents hv (by omega), hc]
    · simp [writableBytes]
    · rw [resize_length]; omega
  · exact ⟨b1, rfl, hv, hc, by omega, by omega⟩

/-! ## Adding at the two ends -/

/-- Overwriting the bytes just behind the readable range and moving the index past them. -/
theorem append_spec {b : Buffer α} (h : b.Valid) {data : List α}
    (hlen : data.length ≤ b.writableBytes) :
    let b' : Buffer α := { b with
      buffer := overwrite b.buffer b.writeIndex data
      writeIndex := b.writeIndex + data.length }
    copyIn b.buffer b.writeIndex data = some b'.buffer ∧ b'.Valid
      ∧ b'.contents = b.contents ++ data ∧ b'.buffer.length = b.buffer.length := by
  have hadd := h.readable_add
  have hwr := h.writable_add
  have hread := h.read_le_write
  have hfit : b.writeIndex + data.length ≤ b.buffer.length := by omega
  have hl : (overwrite b.buffer b.writeIndex data).length = b.buffer.length :=
    overwrite_length hfit
  refine ⟨copyIn_eq _ _ _ hfit, ⟨?_, ?_, ?_⟩, ?_, hl⟩
  · dsimp only; omega
  · dsimp only; omega
  · dsimp only; rw [hl]; exact h.prepend_le_size
  · have hn : b.writeIndex + data.length - b.readIndex = b.readableBytes + data.length := by omega
    simp only [contents, readableBytes, hn]
    unfold overwrite
    rw [List.append_assoc, List.drop_append, List.take_append, List.length_drop, List.length_take,
      Nat.min_eq_left h.write_le_size, Nat.sub_eq_zero_of_le hread, List.drop_zero]
    have hsub : b.writeIndex - b.readIndex = b.readableBytes := rfl
    rw [hsub, Nat.add_sub_cancel_left, List.take_append_of_le_length (Nat.le_refl _),
      List.take_length, List.drop_take, hsub, List.take_take, Nat.min_eq_right (by omega)]

theorem write_spec [Inhabited α] {b : Buffer α} (h : b.Valid) (data : List α) :
    ∃ b', b.write data = .ok b' ∧ b'.Valid ∧ b'.contents = b.contents ++ data
      ∧ b'.buffer.length = if b.writableBytes < data.length then
          max b.buffer.length (kPrependSize + b.readableBytes + data.length)
        else b.buffer.length := by
  unfold write
  by_cases hlt : b.writableBytes < data.length
  · obtain ⟨b1, h1, hv, hc, hfit, hl⟩ := extendSpace_spec h data.length
    obtain ⟨hcopy, hv', hc', hl'⟩ := append_spec hv hfit
    rw [if_pos hlt, h1, if_pos hlt]
    dsimp only [fault_ok_bind]
    rw [check_ok hfit, hcopy]
    exact ⟨_, rfl, hv', by rw [hc', hc], by rw [hl', hl]⟩
  · have hfit : data.length ≤ b.writableBytes := by omega
    obtain ⟨hcopy, hv', hc', hl'⟩ := append_spec h hfit
    rw [if_neg hlt, if_neg hlt]
    dsimp only [fault_pure, fault_ok_bind]
    rw [check_ok hfit, hcopy]
    exact ⟨_, rfl, hv', hc', hl'⟩

theorem prepend_spec {b : Buffer α} (h : b.Valid) {data : List α}
    (hlen : data.length ≤ b.prependableBytes) :
    ∃ b', b.prepend data = .ok b' ∧ b'.Valid ∧ b'.contents = data ++ b.contents
      ∧ b'.buffer.length = b.buffer.length := by
  have hlen' : data.length ≤ b.readIndex := hlen
  have hadd := h.readable_add
  have hread := h.read_le_write
  have hsize := h.write_le_size
  have hfit : b.readIndex - data.length + data.length ≤ b.buffer.length := by omega
  have hl : (overwrite b.buffer (b.readIndex - data.length) data).length = b.buffer.length :=
    overwrite_length hfit
  unfold prepend
  rw [check_ok hlen, fault_ok_bind]
  dsimp only
  rw [copyIn_eq _ _ _ hfit]
  refine ⟨_, rfl, ⟨?_, ?_, ?_⟩, ?_, hl⟩
  · dsimp only; omega
  · dsimp only; omega
  · dsimp only; rw [hl]; exact h.prepend_le_size
  · simp only [contents, readableBytes]
    unfold overwrite
    rw [List.append_assoc, List.drop_append, List.length_take, Nat.min_eq_left (by omega),
      Nat.sub_self, List.drop_zero, List.drop_take, Nat.sub_self, List.take_zero, List.nil_append,
      List.take_append, List.take_of_length_le (by omega)]
    have hstart : b.readIndex - data.length + data.length = b.readIndex := by omega
    have hcount : b.writeIndex - (b.readIndex - data.length) - data.length
        = b.writeIndex - b.readIndex := by omega
    rw [hstart, hcount]

/-- The vector after `Shrink`, whether or not the sum wraps. -/
theorem shrink_eq [Inhabited α] {b : Buffer α} (h : b.Valid) (reserve : Nat) :
    ∃ b', b.alignPrepend = .ok b' ∧ b'.Valid ∧ b'.contents = b.contents
      ∧ b'.writeIndex = kPrependSize + b.readableBytes
      ∧ b.shrink reserve = .ok (b'.resize (sizeT (kPrependSize + b.readableBytes + reserve))) := by
  obtain ⟨b1, h1, hv, hc, hr, hw, _⟩ := alignPrepend_spec h
  have hrb : b1.readableBytes = b.readableBytes := by unfold readableBytes at *; omega
  refine ⟨b1, h1, hv, hc, hw, ?_⟩
  unfold shrink
  rw [h1, fault_ok_bind, hrb]
  rfl

theorem shrink_spec [Inhabited α] {b : Buffer α} (h : b.Valid) {reserve : Nat}
    (hsum : kPrependSize + b.readableBytes + reserve < 2 ^ 64) :
    ∃ b', b.shrink reserve = .ok b' ∧ b'.Valid ∧ b'.contents = b.contents
      ∧ b'.buffer.length = kPrependSize + b.readableBytes + reserve := by
  obtain ⟨b1, -, hv, hc, hw, he⟩ := shrink_eq h reserve
  rw [sizeT_eq hsum] at he
  refine ⟨_, he, resize_valid hv (by omega) (by omega), ?_, resize_length _ _⟩
  rw [resize_contents hv (by omega), hc]

/-- `ReadFd` appends what `readv` delivered, whether or not it spilled into `extra_buf`. -/
theorem readFd_spec [Inhabited α] {b : Buffer α} (h : b.Valid) {xs : List α}
    (hlen : xs.length ≤ b.writableBytes + extraBufSize) :
    ∃ b', b.readFd (.bytes xs) = .ok ((xs.length : Int), b') ∧ b'.Valid
      ∧ b'.contents = b.contents ++ xs
      ∧ b'.buffer.length = if b.writableBytes < xs.length then
          max b.buffer.length (kPrependSize + b.readableBytes + xs.length)
        else b.buffer.length := by
  unfold readFd
  dsimp only
  rw [check_ok hlen, fault_ok_bind]
  have hfit : (xs.take b.writableBytes).length ≤ b.writableBytes := List.length_take_le _ _
  obtain ⟨hcopy, hv, hc, hl⟩ := append_spec h hfit
  rw [hcopy, inRange_some, fault_ok_bind]
  by_cases hle : xs.length ≤ b.writableBytes
  · rw [List.take_of_length_le hle] at *
    rw [if_pos hle, if_neg (by omega)]
    exact ⟨_, rfl, hv, hc, hl⟩
  · -- the writable range is full; the rest is written as `Write` would
    have hfull : b.writeIndex + (xs.take b.writableBytes).length = b.buffer.length := by
      have := h.writable_add
      simp; omega
    rw [if_neg hle, if_pos (by omega)]
    dsimp only at hl hv hc ⊢
    rw [hfull] at hv hc
    rw [hl]
    obtain ⟨b', hw, hv', hc', hl'⟩ := write_spec hv (xs.drop b.writableBytes)
    rw [hw]
    refine ⟨b', rfl, hv', ?_, ?_⟩
    · rw [hc', hc, List.append_assoc, List.take_append_drop]
    · have hadd := h.readable_add
      have hwr := h.writable_add
      have hadd1 := hv.readable_add
      have hwr1 := hv.writable_add
      dsimp only at hadd1 hwr1
      rw [hl', List.length_drop, if_pos (by omega)]
      dsimp only
      omega

end Buffer

end Windz
