import Windz.Net.BufferProof

/-!
# Buffers in a valid state

A `Buffer` reached by operations whose preconditions hold is valid, and then no
operation of the kind faults. The owner of a buffer can keep that fact in the
type: here the operations a connection uses on its output are total, and each is
described by what it does to the contents.
-/

namespace Windz

/-- A buffer whose indices are in order. -/
structure ValidBuffer (α : Type) where
  /-- The buffer. -/
  buffer : Buffer α
  /-- Its indices are in order, and within the array. -/
  valid : buffer.Valid

namespace ValidBuffer

variable {α : Type}

/-- `Buffer(kInitSize)`. -/
def create [Inhabited α] : ValidBuffer α :=
  ⟨.create Buffer.kInitSize, Buffer.create_valid (by decide)⟩

/-- The readable range. -/
def contents (b : ValidBuffer α) : List α := b.buffer.contents

/-- `ReadableBytes`. -/
def readableBytes (b : ValidBuffer α) : Nat := b.buffer.readableBytes

/-- `Write`. -/
def write [Inhabited α] (data : List α) (b : ValidBuffer α) : ValidBuffer α :=
  match h : b.buffer.write data with
  | .ok b' => ⟨b', by
      obtain ⟨b'', hw, hv, _⟩ := Buffer.write_spec b.valid data
      rw [h] at hw
      rw [Except.ok.inj hw]
      exact hv⟩
  | .error _ => b

/-- `Release`; the count is at most what is readable. -/
def release (len : Nat) (b : ValidBuffer α) (hlen : len ≤ b.readableBytes) : ValidBuffer α :=
  match h : b.buffer.release len with
  | .ok b' => ⟨b', by
      obtain ⟨b'', hr, hv, _⟩ := Buffer.release_spec b.valid hlen
      rw [h] at hr
      rw [Except.ok.inj hr]
      exact hv⟩
  | .error _ => b

theorem contents_length (b : ValidBuffer α) : b.contents.length = b.readableBytes :=
  b.valid.contents_length

@[simp] theorem create_contents [Inhabited α] : (create : ValidBuffer α).contents = [] :=
  Buffer.create_contents _

theorem readableBytes_eq_zero (b : ValidBuffer α) : b.readableBytes = 0 ↔ b.contents = [] := by
  rw [← contents_length, List.length_eq_zero_iff]

@[simp] theorem write_contents [Inhabited α] (data : List α) (b : ValidBuffer α) :
    (b.write data).contents = b.contents ++ data := by
  obtain ⟨b', hw, _, hc, _⟩ := Buffer.write_spec b.valid data
  unfold write
  split
  · rename_i b'' h
    rw [h] at hw
    show b''.contents = _
    rw [Except.ok.inj hw]
    exact hc
  · rename_i f h
    rw [h] at hw
    exact absurd hw (by simp)

@[simp] theorem release_contents {len : Nat} {b : ValidBuffer α} (hlen : len ≤ b.readableBytes) :
    (b.release len hlen).contents = b.contents.drop len := by
  obtain ⟨b', hr, _, hc, _⟩ := Buffer.release_spec b.valid hlen
  unfold release
  split
  · rename_i b'' h
    rw [h] at hr
    show b''.contents = _
    rw [Except.ok.inj hr]
    exact hc
  · rename_i f h
    rw [h] at hr
    exact absurd hr (by simp)

/-- `ReadSocket`; `readv` delivers at most what its two ranges hold. -/
def readSocket [Inhabited α] (data : List α) (b : ValidBuffer α)
    (hlen : data.length ≤ b.buffer.writableBytes + Buffer.extraBufSize) : ValidBuffer α :=
  match h : b.buffer.readFd (.bytes data) with
  | .ok r => ⟨r.2, by
      obtain ⟨b', hr, hv, _⟩ := Buffer.readFd_spec b.valid hlen
      rw [h] at hr
      rw [Except.ok.inj hr]
      exact hv⟩
  | .error _ => b

/-- `ReadAll`. -/
def readAll (b : ValidBuffer α) : List α × ValidBuffer α :=
  match h : b.buffer.readAll with
  | .ok r => (r.1, ⟨r.2, by
      obtain ⟨b', hr, hv, _⟩ := Buffer.read_spec b.valid (Nat.le_refl b.buffer.readableBytes)
      unfold Buffer.readAll at h
      rw [h] at hr
      rw [Except.ok.inj hr]
      exact hv⟩)
  | .error _ => ([], b)

/-- `ReleaseAll`. -/
def releaseAll (b : ValidBuffer α) : ValidBuffer α := b.release b.readableBytes (Nat.le_refl _)

@[simp] theorem readSocket_contents [Inhabited α] {data : List α} {b : ValidBuffer α}
    (hlen : data.length ≤ b.buffer.writableBytes + Buffer.extraBufSize) :
    (b.readSocket data hlen).contents = b.contents ++ data := by
  obtain ⟨b', hr, _, hc, _⟩ := Buffer.readFd_spec b.valid hlen
  unfold readSocket
  split
  · rename_i r h
    rw [h] at hr
    show r.2.contents = _
    rw [Except.ok.inj hr]
    exact hc
  · rename_i f h
    rw [h] at hr
    exact absurd hr (by simp)

theorem drop_contents (b : ValidBuffer α) : b.contents.drop b.readableBytes = [] :=
  List.drop_eq_nil_of_le (Nat.le_of_eq b.contents_length)

@[simp] theorem releaseAll_contents (b : ValidBuffer α) : b.releaseAll.contents = [] :=
  (release_contents _).trans b.drop_contents

/-- `ReadAll` takes everything. -/
theorem readAll_eq (b : ValidBuffer α) : b.readAll.1 = b.contents ∧ b.readAll.2.contents = [] := by
  obtain ⟨b', hr, _, hc, _⟩ := Buffer.read_spec b.valid (Nat.le_refl b.buffer.readableBytes)
  unfold readAll
  split
  · rename_i r h
    unfold Buffer.readAll at h
    rw [h] at hr
    dsimp only
    refine ⟨?_, ?_⟩
    · rw [Except.ok.inj hr]
      exact List.take_of_length_le (Nat.le_of_eq b.contents_length)
    · show r.2.contents = _
      rw [Except.ok.inj hr, hc]
      exact b.drop_contents
  · rename_i f h
    unfold Buffer.readAll at h
    rw [h] at hr
    exact absurd hr (by simp)

end ValidBuffer

end Windz
