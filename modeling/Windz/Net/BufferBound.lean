import Windz.Lib.Machine
import Windz.Net.BufferRuns

/-!
# The size of a `Buffer`

The vector of a `Buffer` grows in two places, `AlignPrepend` and `ExtendSpace`,
and both grow it to what it then has to hold and no further. So over any run of
operations its size is bounded by the largest amount it was ever asked to hold,
however much went through it.

The amount is kept beside the buffer as a ghost, `peak`. The bound is about every
operation that returns, on a buffer whose indices are in order or not; the index
invariant, which the two `size_t` sums that may wrap can break, only says that
the operations do return.
-/

namespace Windz

open Lib

variable {α : Type}

/-- What an operation that left `b` asked the buffer to hold: what is readable now, and the reserve
of a `Shrink`. -/
def BufferOp.demand (op : BufferOp α) (b : Buffer α) : Nat :=
  match op with
  | .shrink reserve => b.readableBytes + reserve.toNat
  | .write _ | .readFd _ | .read _ | .readAll | .release _ | .releaseUntil _ | .releaseAll
  | .unWrite _ | .prepend _ => b.readableBytes

/-- A buffer and the largest demand made of it so far. -/
structure MeteredBuffer (α : Type) where
  /-- The buffer. -/
  buffer : Buffer α
  /-- The largest demand. -/
  peak : Nat

namespace MeteredBuffer

/-- One buffer, constructed with `initSize`, and the calls made on it. -/
def machine (α : Type) [Inhabited α] (initSize : Nat) :
    Machine (MeteredBuffer α) (BufferOp α) where
  init s := s = { buffer := .create initSize, peak := 0 }
  step s op :=
    match s.buffer.apply op with
    | .ok r => some { buffer := r.2, peak := max s.peak (op.demand r.2) }
    | .error _ => none

/-- The call is made within its precondition. -/
def Pre (s : MeteredBuffer α) (op : BufferOp α) : Prop := op.Pre s.buffer

instance (s : MeteredBuffer α) (op : BufferOp α) : Decidable (Pre s op) :=
  inferInstanceAs (Decidable (op.Pre s.buffer))

end MeteredBuffer

namespace Buffer

/-! ## What returning says about the size -/

theorem release_length {b b' : Buffer α} {len : Nat} (h : b.release len = .ok b') :
    b'.buffer.length = b.buffer.length := by
  obtain ⟨-, -, h⟩ := fault_bind_ok h
  split at h <;> rw [← Except.ok.inj h]

theorem read_length {b : Buffer α} {len : Nat} {r : List α × Buffer α}
    (h : b.read len = .ok r) : r.2.buffer.length = b.buffer.length := by
  obtain ⟨-, -, h⟩ := fault_bind_ok h
  obtain ⟨s, -, h⟩ := fault_bind_ok h
  obtain ⟨b1, hrel, h⟩ := fault_bind_ok h
  rw [← Except.ok.inj h]
  exact release_length hrel

theorem unWrite_length {b b' : Buffer α} {len : Nat} (h : b.unWrite len = .ok b') :
    b'.buffer.length = b.buffer.length := by
  obtain ⟨-, -, h⟩ := fault_bind_ok h
  rw [← Except.ok.inj h]

theorem prepend_length {b b' : Buffer α} {data : List α} (h : b.prepend data = .ok b') :
    b'.buffer.length = b.buffer.length := by
  obtain ⟨-, -, h⟩ := fault_bind_ok h
  obtain ⟨xs, hcopy, h⟩ := fault_bind_ok h
  rw [← Except.ok.inj h]
  exact copyIn_length data (inRange_of_ok hcopy)

section Operations

variable [Inhabited α]

/-- The vector is as long as it was, or it grew to at most `n`, the end of a readable range that
starts behind the reserve. -/
def GrownTo (b b' : Buffer α) (n : Nat) : Prop :=
  b'.buffer.length = b.buffer.length
  ∨ b.buffer.length < b'.buffer.length ∧ b'.buffer.length ≤ n ∧ b'.readIndex = kPrependSize

/-- `AlignPrepend` grows the vector to the end of the moved range. -/
theorem alignPrepend_length {b b' : Buffer α} (h : b.alignPrepend = .ok b') :
    b.GrownTo b' b'.writeIndex ∧ b'.readIndex = kPrependSize
      ∧ b'.writeIndex ≤ kPrependSize + b.readableBytes ∧ b'.readableBytes = b.readableBytes := by
  unfold alignPrepend at h
  dsimp only at h
  split at h
  · rename_i h0
    obtain rfl := Except.ok.inj h
    refine ⟨.inl rfl, h0, ?_, rfl⟩
    unfold readableBytes; omega
  · split at h
    · -- the range moves right, into a vector that was grown if it had to be
      obtain ⟨xs, hcopy, h⟩ := fault_bind_ok h
      have hlen := copyBackward_length _ (inRange_of_ok hcopy)
      obtain rfl := Except.ok.inj h
      refine ⟨?_, rfl, Nat.le_refl _, Nat.add_sub_cancel_left _ _⟩
      unfold GrownTo
      dsimp only
      rw [hlen]
      split
      · rw [resize_length]
        exact .inr ⟨by omega, by omega, rfl⟩
      · exact .inl rfl
    · obtain ⟨xs, hcopy, h⟩ := fault_bind_ok h
      have hlen := copy_length _ (inRange_of_ok hcopy)
      obtain rfl := Except.ok.inj h
      exact ⟨.inl hlen, rfl, Nat.le_refl _, Nat.add_sub_cancel_left _ _⟩

/-- `ExtendSpace` grows the vector to the end of the new data. -/
theorem extendSpace_length {b b' : Buffer α} {len : Nat} (h : b.extendSpace len = .ok b') :
    b.GrownTo b' (b'.writeIndex + len) ∧ b'.writeIndex ≤ kPrependSize + b.readableBytes := by
  obtain ⟨b1, h1, h⟩ := fault_bind_ok h
  obtain ⟨hg, hr, hw, -⟩ := alignPrepend_length h1
  split at h
  · rename_i hlt
    obtain rfl := Except.ok.inj h
    refine ⟨?_, hw⟩
    unfold GrownTo at hg ⊢
    unfold writableBytes at hlt
    rw [resize_length, resize_readIndex, resize_writeIndex]
    split at hlt <;> omega
  · obtain rfl := Except.ok.inj h
    refine ⟨?_, hw⟩
    unfold GrownTo at hg ⊢
    omega

/-- `Write` grows the vector to the end of the new data. -/
theorem write_length {b b' : Buffer α} {data : List α} (h : b.write data = .ok b') :
    b.GrownTo b' b'.writeIndex
      ∧ (b'.buffer.length = b.buffer.length
        ∨ b'.writeIndex ≤ kPrependSize + b.readableBytes + data.length) := by
  have copied : ∀ b1 : Buffer α,
      (do check (data.length ≤ b1.writableBytes) .assertion
          let buffer ← inRange (copyIn b1.buffer b1.writeIndex data)
          return { b1 with buffer, writeIndex := b1.writeIndex + data.length }) = .ok b' →
      b'.buffer.length = b1.buffer.length ∧ b'.writeIndex = b1.writeIndex + data.length
        ∧ b'.readIndex = b1.readIndex := by
    intro b1 h
    obtain ⟨-, -, h⟩ := fault_bind_ok h
    obtain ⟨xs, hcopy, h⟩ := fault_bind_ok h
    rw [← Except.ok.inj h]
    exact ⟨copyIn_length data (inRange_of_ok hcopy), rfl, rfl⟩
  unfold write at h
  split at h
  · obtain ⟨b1, h1, h⟩ := fault_bind_ok h
    obtain ⟨hl, hw, hr⟩ := copied b1 h
    obtain ⟨hg, hw1⟩ := extendSpace_length h1
    unfold GrownTo at hg ⊢
    rw [hl, hw, hr]
    exact ⟨hg, .inr (by omega)⟩
  · obtain ⟨hl, -, -⟩ := copied b h
    exact ⟨.inl hl, .inl hl⟩

omit [Inhabited α] in
theorem GrownTo.le_readable {b b' : Buffer α} (h : b.GrownTo b' b'.writeIndex) :
    b'.buffer.length ≤ max b.buffer.length (kPrependSize + b'.readableBytes) := by
  unfold GrownTo at h
  unfold readableBytes
  omega

theorem readFd_length {b : Buffer α} {res : ReadvResult α} {r : Int × Buffer α}
    (h : b.readFd res = .ok r) :
    r.2.buffer.length ≤ max b.buffer.length (kPrependSize + r.2.readableBytes) := by
  cases res with
  | error =>
    rw [← Except.ok.inj h]
    exact Nat.le_max_left _ _
  | bytes xs =>
    obtain ⟨-, -, h⟩ := fault_bind_ok h
    obtain ⟨ys, hcopy, h⟩ := fault_bind_ok h
    have hlen := copyIn_length _ (inRange_of_ok hcopy)
    split at h
    · rw [← Except.ok.inj h]
      dsimp only
      omega
    · obtain ⟨b1, hw, h⟩ := fault_bind_ok h
      have hle := (write_length hw).1.le_readable
      rw [← Except.ok.inj h]
      dsimp only at hle ⊢
      rwa [hlen] at hle

theorem shrink_length {b b' : Buffer α} {reserve : Nat} (h : b.shrink reserve = .ok b') :
    b'.buffer.length ≤ kPrependSize + b'.readableBytes + reserve := by
  obtain ⟨b1, -, h⟩ := fault_bind_ok h
  rw [← Except.ok.inj h, resize_length]
  exact sizeT_le _

/-- **One operation.** It leaves the vector no larger than it was, or than what it was asked to
hold. -/
theorem apply_size {b : Buffer α} {op : BufferOp α} {r : List α × Buffer α}
    (h : b.apply op = .ok r) :
    r.2.buffer.length ≤ max b.buffer.length (kPrependSize + op.demand r.2) := by
  have same : r.2.buffer.length = b.buffer.length →
      r.2.buffer.length ≤ max b.buffer.length (kPrependSize + op.demand r.2) := by omega
  cases op with
  | write data =>
    obtain ⟨b1, hb, h⟩ := fault_bind_ok h
    rw [← Except.ok.inj h]
    exact (write_length hb).1.le_readable
  | readFd res =>
    obtain ⟨r1, hb, h⟩ := fault_bind_ok h
    rw [← Except.ok.inj h]
    exact readFd_length hb
  | read len => exact same (read_length h)
  | readAll => exact same (read_length h)
  | release len =>
    obtain ⟨b1, hb, h⟩ := fault_bind_ok h
    exact same (by rw [← Except.ok.inj h]; exact release_length hb)
  | releaseUntil c =>
    obtain ⟨b1, hb, h⟩ := fault_bind_ok h
    obtain ⟨-, -, hb⟩ := fault_bind_ok hb
    exact same (by rw [← Except.ok.inj h]; exact release_length hb)
  | releaseAll =>
    obtain ⟨b1, hb, h⟩ := fault_bind_ok h
    exact same (by rw [← Except.ok.inj h]; exact release_length hb)
  | unWrite len =>
    obtain ⟨b1, hb, h⟩ := fault_bind_ok h
    exact same (by rw [← Except.ok.inj h]; exact unWrite_length hb)
  | prepend data =>
    obtain ⟨b1, hb, h⟩ := fault_bind_ok h
    exact same (by rw [← Except.ok.inj h]; exact prepend_length hb)
  | shrink reserve =>
    obtain ⟨b1, hb, h⟩ := fault_bind_ok h
    have hle := shrink_length hb
    rw [← Except.ok.inj h]
    show _ ≤ max _ (kPrependSize + (b1.readableBytes + reserve.toNat))
    dsimp only
    omega

/-- `Write` moves the data before it grows the vector. -/
theorem write_in_place {b b' : Buffer α} {data : List α} (h : b.write data = .ok b')
    (hfit : kPrependSize + b.readableBytes + data.length ≤ b.buffer.length) :
    b'.buffer.length = b.buffer.length := by
  obtain ⟨hg, hw⟩ := write_length h
  unfold GrownTo at hg
  omega

/-- The sum of a `Shrink` is the reserve and what it asks the buffer to hold. -/
theorem fits_of_demand {b : Buffer α} (hb : b.Valid) {op : BufferOp α} {r : List α × Buffer α}
    (h : b.apply op = .ok r) (hsum : kPrependSize + op.demand r.2 < 2 ^ 64) : op.Fits b := by
  cases op with
  | shrink reserve =>
    obtain ⟨b1, hshrink, h⟩ := fault_bind_ok h
    obtain ⟨b2, halign, -, -, -, he⟩ := shrink_eq hb reserve.toNat
    have hread : b1.readableBytes = b.readableBytes := by
      rw [hshrink] at he
      rw [Except.ok.inj he, resize_readableBytes]
      exact (alignPrepend_length halign).2.2.2
    rw [← Except.ok.inj h] at hsum
    have hsum' : kPrependSize + (b1.readableBytes + reserve.toNat) < 2 ^ 64 := hsum
    show kPrependSize + b.readableBytes + reserve.toNat < 2 ^ 64
    omega
  | write _ | readFd _ | read _ | readAll | release _ | releaseUntil _ | releaseAll
  | unWrite _ | prepend _ => trivial

end Operations

end Buffer

namespace MeteredBuffer

variable [Inhabited α] {initSize : Nat} {s : MeteredBuffer α}

/-- The vector holds no more than its initial size or the peak ask for, and is in order where the
sums of neither wrapped. -/
structure Bounded (initSize : Nat) (s : MeteredBuffer α) : Prop where
  /-- The bound. -/
  size : s.buffer.buffer.length ≤ Buffer.kPrependSize + max initSize s.peak
  /-- The index invariant. -/
  valid : Buffer.kPrependSize + initSize < 2 ^ 64 → Buffer.kPrependSize + s.peak < 2 ^ 64 →
    s.buffer.Valid

theorem bounded_create : Bounded initSize (⟨.create initSize, 0⟩ : MeteredBuffer α) where
  size := by
    have := Buffer.sizeT_le (Buffer.kPrependSize + initSize)
    dsimp only
    rw [Buffer.create_length]
    omega
  valid hinit _ := Buffer.create_valid hinit

/-- A call within its precondition keeps the bound. -/
theorem Bounded.step {op : BufferOp α} {s' : MeteredBuffer α} (h : Bounded initSize s)
    (hpre : Pre s op) (hs : (machine α initSize).step s op = some s') : Bounded initSize s' := by
  have hs : (match s.buffer.apply op with
      | .ok r => some { buffer := r.2, peak := max s.peak (op.demand r.2) }
      | .error _ => none) = some s' := hs
  split at hs
  · rename_i r he
    obtain rfl := Option.some.inj hs
    refine ⟨?_, fun hinit hpeak => ?_⟩
    · have hsize := h.size
      have hle := Buffer.apply_size he
      dsimp only
      omega
    · have hv := h.valid hinit (by dsimp only at hpeak; omega)
      have hfit : op.Fits s.buffer :=
        Buffer.fits_of_demand hv he (by dsimp only at hpeak; omega)
      obtain ⟨b', he', hv', -⟩ := Buffer.apply_spec hv hpre hfit
      rw [he] at he'
      rw [Except.ok.inj he']
      exact hv'
  · cases hs

theorem reachable_bounded (h : Reachable (machine α initSize) Pre s) : Bounded initSize s := by
  refine h.invariant ?_ ?_
  · intro s hs
    rw [show s = _ from hs]
    exact bounded_create
  · intro s op s' _ hi hpre hs
    exact hi.step hpre hs

/-- On a buffer in order a call within its precondition returns, also a `Shrink` whose sum wraps. -/
theorem step_of_valid {op : BufferOp α} (hv : s.buffer.Valid) (hpre : Pre s op) :
    ∃ s', (machine α initSize).step s op = some s'
      ∧ s'.peak = max s.peak (op.demand s'.buffer) := by
  have hret : ∃ r, s.buffer.apply op = .ok r := by
    by_cases hfit : op.Fits s.buffer
    · obtain ⟨b', he, -⟩ := Buffer.apply_spec hv hpre hfit
      exact ⟨_, he⟩
    · cases op with
      | shrink reserve =>
        obtain ⟨b1, -, -, -, -, he⟩ := Buffer.shrink_eq hv reserve.toNat
        refine ⟨([], b1.resize
          (sizeT (Buffer.kPrependSize + s.buffer.readableBytes + reserve.toNat))), ?_⟩
        show (do return ([], ← s.buffer.shrink reserve.toNat)) = _
        rw [he]; rfl
      | write _ | readFd _ | read _ | readAll | release _ | releaseUntil _ | releaseAll
      | unWrite _ | prepend _ => exact absurd trivial hfit
  obtain ⟨r, he⟩ := hret
  refine ⟨⟨r.2, max s.peak (op.demand r.2)⟩, ?_, rfl⟩
  show (match s.buffer.apply op with | .ok r => _ | .error _ => none) = _
  rw [he]

/--
**The storage is bounded by the data held.**

After any calls within their preconditions on a buffer of any initial size, the vector is no larger
than the reserve and the larger of the initial size and the most that was readable after one of the
calls, or for a `Shrink` was to be; and a `Write` that fits behind the reserve leaves the size as it
is. Where none of these sums is beyond `size_t`, every further call within its precondition returns,
that `Write` too.
-/
theorem size_le_peak (h : Reachable (machine α initSize) Pre s) :
    s.buffer.buffer.length ≤ Buffer.kPrependSize + max initSize s.peak
    ∧ (∀ (data : List α) (b' : Buffer α),
        Buffer.kPrependSize + s.buffer.readableBytes + data.length ≤ s.buffer.buffer.length →
        s.buffer.write data = .ok b' → b'.buffer.length = s.buffer.buffer.length)
    ∧ (Buffer.kPrependSize + initSize < 2 ^ 64 → Buffer.kPrependSize + s.peak < 2 ^ 64 →
        (∀ op, Pre s op → ∃ s', (machine α initSize).step s op = some s'
          ∧ s'.peak = max s.peak (op.demand s'.buffer))
        ∧ ∀ data : List α,
          Buffer.kPrependSize + s.buffer.readableBytes + data.length ≤ s.buffer.buffer.length →
          ∃ b', s.buffer.write data = .ok b' ∧ b'.buffer.length = s.buffer.buffer.length) := by
  have hb := reachable_bounded h
  refine ⟨hb.size, fun data b' hfit hw => Buffer.write_in_place hw hfit, fun hinit hpeak => ?_⟩
  have hv := hb.valid hinit hpeak
  refine ⟨fun op hpre => step_of_valid hv hpre, fun data hfit => ?_⟩
  obtain ⟨b', hw, -⟩ := Buffer.write_spec hv data
  exact ⟨b', hw, Buffer.write_in_place hw hfit⟩

/-- A buffer that is filled, prepended to and grown, and then written to in place. -/
theorem size_le_peak_small : ∃ s : MeteredBuffer Nat, Reachable (machine Nat 2) Pre s
    ∧ s.buffer.buffer.length = 14 ∧ s.peak = 6
    ∧ s.buffer.buffer.length ≤ Buffer.kPrependSize + max 2 s.peak
    ∧ ∃ b', s.buffer.write [7, 8, 9] = .ok b' ∧ b'.buffer.length = s.buffer.buffer.length := by
  have hexec : ((machine Nat 2).exec Pre ⟨.create 2, 0⟩
      [.write [1, 2], .prepend [9], .readFd (.bytes [3, 4, 5]), .read 4, .write [6]]).map
        (fun s => decide (s.buffer.buffer.length = 14 ∧ s.peak = 6
          ∧ Buffer.kPrependSize + s.buffer.readableBytes + 3 ≤ s.buffer.buffer.length))
      = some true := by decide +kernel
  obtain ⟨s, hr, hp⟩ := Machine.exec_reachable rfl hexec
  obtain ⟨hsize, hpeak, hfit⟩ := of_decide_eq_true hp
  obtain ⟨hle, -, hret⟩ := size_le_peak hr
  obtain ⟨-, hwrite⟩ := hret (by decide) (by rw [hpeak]; decide)
  exact ⟨s, hr, hsize, hpeak, hle, hwrite [7, 8, 9] hfit⟩

end MeteredBuffer

end Windz
