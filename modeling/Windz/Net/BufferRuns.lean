import Mathlib.Logic.Function.Basic
import Windz.Net.BufferProof

/-!
# Sequences of buffer operations

`Buffer.apply` gives one call its effect, `BufferOp.spec` gives it the effect it
has on a plain sequence. The calls of a program go to any number of buffers, since
`Swap` exchanges two of them. The main result simulates a run on buffers by the
run on sequences, up to the two `size_t` sums that may wrap, of the constructor and
of `Shrink`: exactly where one does, an index leaves the vector.
-/

namespace Windz

variable {α : Type}

/-- The public operations of one buffer, `Swap` apart. The reserve of a `Shrink` is not bounded by
what is in memory, and is a `size_t`. -/
inductive BufferOp (α : Type) where
  | write (data : List α)
  | readFd (r : ReadvResult α)
  | read (len : Nat)
  | readAll
  | release (len : Nat)
  | releaseUntil (c : Int)
  | releaseAll
  | unWrite (len : Nat)
  | prepend (data : List α)
  | shrink (reserve : UInt64)

/-- The returned string, empty where there is none, and the buffer afterwards. -/
def Buffer.apply [Inhabited α] : BufferOp α → Buffer α → Except Fault (List α × Buffer α)
  | .write data, b => do return ([], ← b.write data)
  | .readFd r, b => do return ([], (← b.readFd r).2)
  | .read len, b => b.read len
  | .readAll, b => b.readAll
  | .release len, b => do return ([], ← b.release len)
  | .releaseUntil c, b => do return ([], ← b.releaseUntil c)
  | .releaseAll, b => do return ([], ← b.releaseAll)
  | .unWrite len, b => do return ([], ← b.unWrite len)
  | .prepend data, b => do return ([], ← b.prepend data)
  | .shrink reserve, b => do return ([], ← b.shrink reserve.toNat)

/-- What an operation demands of its arguments: the assertions it opens with, and for
`ReadFd` that the kernel fills no more than the two ranges it was given. -/
def BufferOp.Pre : BufferOp α → Buffer α → Prop
  | .read len, b | .release len, b | .unWrite len, b => len ≤ b.readableBytes
  | .releaseUntil c, b => 0 ≤ c ∧ c.toNat ≤ b.readableBytes
  | .prepend data, b => data.length ≤ b.prependableBytes
  | .readFd (.bytes xs), b => xs.length ≤ b.writableBytes + Buffer.extraBufSize
  | .readFd .error, _ | .write _, _ | .readAll, _ | .releaseAll, _ | .shrink _, _ => True

instance (op : BufferOp α) (b : Buffer α) : Decidable (op.Pre b) :=
  match op with
  | .read _ | .release _ | .unWrite _ => inferInstanceAs (Decidable (_ ≤ _))
  | .releaseUntil _ => inferInstanceAs (Decidable (_ ∧ _))
  | .prepend _ => inferInstanceAs (Decidable (_ ≤ _))
  | .readFd (.bytes _) => inferInstanceAs (Decidable (_ ≤ _))
  | .readFd .error | .write _ | .readAll | .releaseAll | .shrink _ => .isTrue trivial

/-- The `size_t` sum of a `Shrink` does not wrap. -/
def BufferOp.Fits : BufferOp α → Buffer α → Prop
  | .shrink reserve, b => Buffer.kPrependSize + b.readableBytes + reserve.toNat < 2 ^ 64
  | .write _, _ | .readFd _, _ | .read _, _ | .readAll, _ | .release _, _ | .releaseUntil _, _
  | .releaseAll, _ | .unWrite _, _ | .prepend _, _ => True

instance (op : BufferOp α) (b : Buffer α) : Decidable (op.Fits b) :=
  match op with
  | .shrink _ => inferInstanceAs (Decidable (_ < _))
  | .write _ | .readFd _ | .read _ | .readAll | .release _ | .releaseUntil _ | .releaseAll
  | .unWrite _ | .prepend _ => .isTrue trivial

/-- The operation on a plain sequence: the returned string and the sequence afterwards. -/
def BufferOp.spec : BufferOp α → List α → List α × List α
  | .write data, s => ([], s ++ data)
  | .readFd (.bytes xs), s => ([], s ++ xs)
  | .readFd .error, s => ([], s)
  | .read len, s => (s.take len, s.drop len)
  | .readAll, s => (s, [])
  | .release len, s => ([], s.drop len)
  | .releaseUntil c, s => ([], s.drop c.toNat)
  | .releaseAll, _ => ([], [])
  | .unWrite len, s => ([], s.take (s.length - len))
  | .prepend data, s => ([], data ++ s)
  | .shrink _, s => ([], s)

/-- **One operation.** Under its precondition an operation on a valid buffer returns, and
does to the buffer what `spec` does to its contents. -/
theorem Buffer.apply_spec [Inhabited α] {b : Buffer α} (h : b.Valid) {op : BufferOp α}
    (hpre : op.Pre b) (hfit : op.Fits b) :
    ∃ b', b.apply op = .ok ((op.spec b.contents).1, b') ∧ b'.Valid
      ∧ b'.contents = (op.spec b.contents).2 := by
  have hall : ∀ s : List α, s.length = b.readableBytes → s.drop b.readableBytes = [] :=
    fun s hs => List.drop_eq_nil_of_le (Nat.le_of_eq hs)
  cases op with
  | write data =>
      obtain ⟨b', he, hv, hc, _⟩ := write_spec h data
      exact ⟨b', by simp [apply, he, BufferOp.spec], hv, hc⟩
  | readFd r =>
      cases r with
      | error => exact ⟨b, by simp [apply, readFd, BufferOp.spec], h, rfl⟩
      | bytes xs =>
          obtain ⟨b', he, hv, hc, _⟩ := readFd_spec h hpre
          exact ⟨b', by simp [apply, he, BufferOp.spec], hv, hc⟩
  | read len =>
      obtain ⟨b', he, hv, hc, _⟩ := read_spec h hpre
      exact ⟨b', he, hv, hc⟩
  | readAll =>
      obtain ⟨b', he, hv, hc, _⟩ := read_spec h (Nat.le_refl _)
      refine ⟨b', ?_, hv, by rw [hc, hall _ h.contents_length]; rfl⟩
      simp only [apply, readAll, he, BufferOp.spec]
      rw [← h.contents_length, List.take_length]
  | release len =>
      obtain ⟨b', he, hv, hc, _⟩ := release_spec h hpre
      exact ⟨b', by simp [apply, he, BufferOp.spec], hv, hc⟩
  | releaseUntil c =>
      obtain ⟨b', he, hv, hc, _⟩ := release_spec h hpre.2
      refine ⟨b', ?_, hv, hc⟩
      simp only [apply, releaseUntil, check_ok hpre.1, fault_ok_bind, he, BufferOp.spec,
        fault_pure]
  | releaseAll =>
      obtain ⟨b', he, hv, hc, _⟩ := release_spec h (Nat.le_refl _)
      refine ⟨b', by simp [apply, releaseAll, he, BufferOp.spec], hv, ?_⟩
      rw [hc, hall _ h.contents_length]; rfl
  | unWrite len =>
      obtain ⟨b', he, hv, hc, _⟩ := unWrite_spec h hpre
      exact ⟨b', by simp [apply, he, BufferOp.spec], hv, hc⟩
  | prepend data =>
      obtain ⟨b', he, hv, hc, _⟩ := prepend_spec h hpre
      exact ⟨b', by simp [apply, he, BufferOp.spec], hv, hc⟩
  | shrink reserve =>
      obtain ⟨b', he, hv, hc, _⟩ := shrink_spec h hfit
      exact ⟨b', by simp [apply, he, BufferOp.spec], hv, hc⟩

/-! ## Runs over several buffers -/

/-- A call of the program: an operation on one of its buffers, or `Swap` of two. -/
inductive BufferCall (α : Type) where
  | on (i : Nat) (op : BufferOp α)
  | swap (i j : Nat)

/-- The program's buffers. -/
abbrev BufferStore (α : Type) := Nat → Buffer α

namespace BufferStore

/-- Freshly constructed buffers of the given initial sizes. -/
def create [Inhabited α] (sizes : Nat → UInt64) : BufferStore α :=
  fun i => Buffer.create (sizes i).toNat

/-- Buffer `i` replaced. -/
def set (st : BufferStore α) (i : Nat) (b : Buffer α) : BufferStore α := Function.update st i b

/-- One call: the returned string and the buffers afterwards. -/
def call [Inhabited α] (st : BufferStore α) :
    BufferCall α → Except Fault (List α × BufferStore α)
  | .on i op => do
      let (out, b) ← (st i).apply op
      return (out, st.set i b)
  | .swap i j =>
      let (bi, bj) := (st i).swap (st j)
      return ([], (st.set i bi).set j bj)

/-- Make the calls in order, collecting the returned strings. -/
def run [Inhabited α] : BufferStore α → List (BufferCall α) →
    Except Fault (List (List α) × BufferStore α)
  | st, [] => return ([], st)
  | st, c :: cs => do
      let (out, st) ← st.call c
      let (outs, st) ← run st cs
      return (out :: outs, st)

/-- The call meets its precondition. -/
def callPre (st : BufferStore α) : BufferCall α → Prop
  | .on i op => op.Pre (st i)
  | .swap _ _ => True

instance (st : BufferStore α) (c : BufferCall α) : Decidable (st.callPre c) :=
  match c with
  | .on i op => inferInstanceAs (Decidable (op.Pre (st i)))
  | .swap _ _ => .isTrue trivial

/-- The `size_t` sum of the call does not wrap. -/
def callFits (st : BufferStore α) : BufferCall α → Prop
  | .on i op => op.Fits (st i)
  | .swap _ _ => True

instance (st : BufferStore α) (c : BufferCall α) : Decidable (st.callFits c) :=
  match c with
  | .on i op => inferInstanceAs (Decidable (op.Fits (st i)))
  | .swap _ _ => .isTrue trivial

/-- `P` of every call of the sequence and of the state it is made in; a call that faults
although it meets `P` is not excluded. -/
def Always [Inhabited α] (P : BufferStore α → BufferCall α → Prop) :
    BufferStore α → List (BufferCall α) → Prop
  | _, [] => True
  | st, c :: cs => P st c ∧
      match st.call c with
      | .ok (_, st') => Always P st' cs
      | .error _ => True

instance alwaysDecidable [Inhabited α] {P : BufferStore α → BufferCall α → Prop}
    [hP : ∀ st c, Decidable (P st c)] :
    (st : BufferStore α) → (cs : List (BufferCall α)) → Decidable (Always P st cs)
  | _, [] => .isTrue trivial
  | st, c :: cs =>
      have : Decidable (match st.call c with
          | .ok (_, st') => Always P st' cs
          | .error _ => True) :=
        match st.call c with
        | .ok (_, st') => alwaysDecidable st' cs
        | .error _ => .isTrue trivial
      inferInstanceAs (Decidable (_ ∧ _))

/-- Every call of the sequence meets its precondition when it is made. -/
abbrev Allowed [Inhabited α] (st : BufferStore α) (calls : List (BufferCall α)) : Prop :=
  Always callPre st calls

/-- No `Shrink` of the sequence makes a sum that wraps. -/
abbrev Unwrapped [Inhabited α] (st : BufferStore α) (calls : List (BufferCall α)) : Prop :=
  Always callFits st calls

theorem Always.front [Inhabited α] {P : BufferStore α → BufferCall α → Prop} :
    ∀ (done : List (BufferCall α)) {rest : List (BufferCall α)} {st : BufferStore α},
    Always P st (done ++ rest) → Always P st done
  | [], _, _, _ => trivial
  | c :: done, rest, st, h => by
      refine ⟨h.1, ?_⟩
      have h2 := h.2
      split
      · rename_i out st1 he
        rw [he] at h2
        exact Always.front done h2
      · trivial

/-- The same calls on plain sequences. -/
def specCall (ss : Nat → List α) : BufferCall α → List α × (Nat → List α)
  | .on i op => ((op.spec (ss i)).1, Function.update ss i (op.spec (ss i)).2)
  | .swap i j => ([], Function.update (Function.update ss i (ss j)) j (ss i))

/-- The strings and the sequences after all the calls. -/
def specRun : (Nat → List α) → List (BufferCall α) → List (List α) × (Nat → List α)
  | ss, [] => ([], ss)
  | ss, c :: cs =>
      let (out, ss) := specCall ss c
      let (outs, ss) := specRun ss cs
      (out :: outs, ss)

/-- What every buffer of the program stands for. -/
def contents (st : BufferStore α) : Nat → List α := fun i => (st i).contents

/-- Every buffer keeps the index invariant. -/
def Valid (st : BufferStore α) : Prop := ∀ i, (st i).Valid

theorem Valid.set {st : BufferStore α} (h : st.Valid) (i : Nat) {b : Buffer α}
    (hb : b.Valid) : (st.set i b).Valid := by
  intro k
  unfold BufferStore.set
  by_cases hk : k = i
  · subst hk; rwa [Function.update_self]
  · rw [Function.update_of_ne hk]; exact h k

theorem contents_set (st : BufferStore α) (i : Nat) (b : Buffer α) :
    (st.set i b).contents = Function.update st.contents i b.contents := by
  funext k
  by_cases hk : k = i
  · subst hk; simp [contents, set]
  · simp [contents, set, hk]

/-- A call on buffers is the call on sequences. -/
theorem call_refines [Inhabited α] {st : BufferStore α} (h : st.Valid) {c : BufferCall α}
    (hpre : st.callPre c) (hfit : st.callFits c) :
    ∃ st', st.call c = .ok ((specCall st.contents c).1, st') ∧ st'.Valid
      ∧ st'.contents = (specCall st.contents c).2 := by
  cases c with
  | on i op =>
      obtain ⟨b', he, hv, hc⟩ := Buffer.apply_spec (h i) hpre hfit
      refine ⟨st.set i b', ?_, h.set i hv, ?_⟩
      · simp only [call, he, fault_ok_bind]; rfl
      · rw [contents_set, hc]; rfl
  | swap i j =>
      refine ⟨_, rfl, (h.set i (h j)).set j (h i), ?_⟩
      rw [contents_set, contents_set]; rfl

/-- The run of `calls` returns, with the indices of every buffer in order, and what it returned and
left is what the same calls return and leave on plain sequences. -/
def Refines [Inhabited α] (st : BufferStore α) (calls : List (BufferCall α)) : Prop :=
  ∃ st', st.run calls = .ok ((specRun st.contents calls).1, st')
    ∧ (∀ i, (st' i).readIndex ≤ (st' i).writeIndex
        ∧ (st' i).writeIndex ≤ (st' i).buffer.length)
    ∧ (∀ i, (st' i).contents = (specRun st.contents calls).2 i)

theorem run_refines_from [Inhabited α] : ∀ (calls : List (BufferCall α)) {st : BufferStore α},
    st.Valid → st.Allowed calls → st.Unwrapped calls → st.Refines calls
  | [], st, h, _, _ =>
      ⟨st, rfl, fun i => ⟨(h i).read_le_write, (h i).write_le_size⟩, fun _ => rfl⟩
  | c :: cs, st, h, ha, hf => by
      obtain ⟨st1, he, hv, hc⟩ := call_refines h ha.1 hf.1
      have ha1 : st1.Allowed cs := by
        have := ha.2
        rwa [he] at this
      have hf1 : st1.Unwrapped cs := by
        have := hf.2
        rwa [he] at this
      obtain ⟨st2, he2, hidx, hc2⟩ := run_refines_from cs hv ha1 hf1
      refine ⟨st2, ?_, hidx, ?_⟩
      · simp only [run, he, fault_ok_bind, he2, fault_pure, specRun, ← hc]
      · intro i
        rw [hc2, hc]; rfl

/-- A `Shrink` whose sum wraps leaves `write_index_` behind the end of the vector. -/
theorem callFits_of_ordered [Inhabited α] {st st' : BufferStore α} (h : st.Valid)
    {c : BufferCall α} {out : List α} (he : st.call c = .ok (out, st'))
    (hidx : ∀ i, (st' i).writeIndex ≤ (st' i).buffer.length) : st.callFits c := by
  cases c with
  | swap i j => trivial
  | on i op =>
      cases op with
      | shrink reserve =>
          obtain ⟨b1, -, -, -, hw, hs⟩ := Buffer.shrink_eq (h i) reserve.toNat
          have hb : (st' i) = b1.resize
              (sizeT (Buffer.kPrependSize + (st i).readableBytes + reserve.toNat)) := by
            simp only [call, Buffer.apply, hs, fault_ok_bind, fault_pure, Except.ok.injEq,
              Prod.mk.injEq] at he
            rw [← he.2, set, Function.update_self]
          have hlen := hidx i
          rw [hb, Buffer.resize_writeIndex, Buffer.resize_length, hw] at hlen
          have hres := reserve.toNat_lt
          show Buffer.kPrependSize + (st i).readableBytes + reserve.toNat < 2 ^ 64
          unfold sizeT at hlen
          omega
      | write _ | readFd _ | read _ | readAll | release _ | releaseUntil _ | releaseAll
      | unWrite _ | prepend _ => trivial

/-- If the indices are in order after every call, then no sum wrapped. -/
theorem unwrapped_of_refines [Inhabited α] : ∀ (calls : List (BufferCall α))
    {st : BufferStore α}, st.Valid → st.Allowed calls →
    (∀ done rest, calls = done ++ rest → ∃ out st', st.run done = .ok (out, st')
      ∧ ∀ i, (st' i).writeIndex ≤ (st' i).buffer.length) → st.Unwrapped calls
  | [], _, _, _, _ => trivial
  | c :: cs, st, h, ha, hr => by
      obtain ⟨out, st1, he, hidx⟩ : ∃ out st1, st.call c = .ok (out, st1)
          ∧ ∀ i, (st1 i).writeIndex ≤ (st1 i).buffer.length := by
        obtain ⟨out, st1, he, hidx⟩ := hr [c] cs rfl
        unfold run at he
        cases hc : st.call c with
        | error f => rw [hc] at he; exact absurd he (by simp)
        | ok r =>
            rw [hc] at he
            have hst : r.2 = st1 := by
              simp only [fault_ok_bind, run, fault_pure, Except.ok.injEq, Prod.mk.injEq] at he
              exact he.2
            exact ⟨r.1, r.2, rfl, hst ▸ hidx⟩
      have hfit := callFits_of_ordered h he hidx
      obtain ⟨st1', he', hv, -⟩ := call_refines h ha.1 hfit
      obtain rfl : st1 = st1' := by
        rw [he] at he'
        exact (Prod.mk.inj (Except.ok.inj he')).2
      refine ⟨hfit, ?_⟩
      have ha1 := ha.2
      rw [he] at ha1 ⊢
      refine unwrapped_of_refines cs hv ha1 fun done rest hd => ?_
      obtain ⟨outs, st2, he2, hidx2⟩ := hr (c :: done) rest (by rw [hd]; rfl)
      unfold run at he2
      rw [he, fault_ok_bind] at he2
      cases hrun : st1.run done with
      | error f => simp only [hrun, fault_error_bind] at he2; exact absurd he2 (by simp)
      | ok r =>
          simp only [hrun, fault_ok_bind, fault_pure, Except.ok.injEq, Prod.mk.injEq] at he2
          exact ⟨r.1, r.2, rfl, he2.2 ▸ hidx2⟩

/--
**A buffer is a byte sequence.**

Whatever the initial sizes and whatever the calls, as long as each meets its asserted
precondition: after every one of the calls the run has not faulted (no assertion failed and no
position outside a vector was read or written), every buffer satisfies the index invariant, and the
strings returned and the contents left are those of the same calls on plain sequences, all empty at
the start, if and only if no `size_t` sum wraps, neither `kPrependSize + init_size` of a
constructor nor `kPrependSize + ReadableBytes() + reserve` of a `Shrink`.
-/
theorem run_refines_sequences [Inhabited α] (sizes : Nat → UInt64) (calls : List (BufferCall α))
    (ha : (create sizes : BufferStore α).Allowed calls) :
    (∀ done rest, calls = done ++ rest →
        ∃ st', (create sizes : BufferStore α).run done
            = .ok ((specRun (fun _ => []) done).1, st')
          ∧ (∀ i, (st' i).readIndex ≤ (st' i).writeIndex
              ∧ (st' i).writeIndex ≤ (st' i).buffer.length)
          ∧ (∀ i, (st' i).contents = (specRun (fun _ => []) done).2 i))
      ↔ (∀ i, Buffer.kPrependSize + (sizes i).toNat < 2 ^ 64)
        ∧ (create sizes : BufferStore α).Unwrapped calls := by
  have hinit : (create sizes : BufferStore α).contents = fun _ => [] := by
    funext i; exact Buffer.create_contents _
  constructor
  · intro hr
    have hsum : ∀ i, Buffer.kPrependSize + (sizes i).toNat < 2 ^ 64 := by
      intro i
      obtain ⟨st', he, hidx, -⟩ := hr [] calls rfl
      obtain rfl : create sizes = st' := (Prod.mk.inj (Except.ok.inj he)).2
      have hlen : Buffer.kPrependSize ≤ (Buffer.create (sizes i).toNat : Buffer α).buffer.length :=
        (hidx i).2
      have hsize := (sizes i).toNat_lt
      rw [Buffer.create_length] at hlen
      unfold sizeT Buffer.kPrependSize at *
      omega
    refine ⟨hsum, unwrapped_of_refines calls (fun i => Buffer.create_valid (hsum i)) ha ?_⟩
    intro done rest hd
    obtain ⟨st', he, hidx, -⟩ := hr done rest hd
    exact ⟨_, st', he, fun i => (hidx i).2⟩
  · rintro ⟨hsum, hf⟩ done rest rfl
    have hvalid : (create sizes : BufferStore α).Valid := fun i => Buffer.create_valid (hsum i)
    obtain ⟨st', he, hidx, hc⟩ :=
      run_refines_from done hvalid (Always.front done ha) (Always.front done hf)
    rw [hinit] at he hc
    exact ⟨st', he, hidx, hc⟩

/-- A run that prepends, moves the range in both directions, shrinks and swaps. -/
theorem run_refines_sequences_small :
    ∃ st', (create (fun _ => 2) : BufferStore Nat).run
        [.on 0 (.write [1, 2]), .on 0 (.prepend [9]), .on 0 (.write [3, 4]), .on 0 (.release 3),
          .on 0 (.write [5, 6]), .on 0 (.shrink 4), .swap 0 1, .on 1 .readAll]
        = .ok ([[], [], [], [], [], [], [], [3, 4, 5, 6]], st')
      ∧ (∀ i, (st' i).readIndex ≤ (st' i).writeIndex
          ∧ (st' i).writeIndex ≤ (st' i).buffer.length)
      ∧ ∀ i, (st' i).contents = (specRun (fun _ => [])
          [.on 0 (.write [1, 2]), .on 0 (.prepend [9]), .on 0 (.write [3, 4]), .on 0 (.release 3),
            .on 0 (.write [5, 6]), .on 0 (.shrink 4), .swap 0 1, .on 1 .readAll]).2 i :=
  (run_refines_sequences (fun _ => 2) _ (by decide)).2 ⟨fun _ => by decide, by decide⟩ _ []
    (List.append_nil _).symm

/-- Sums that wrap: a constructed buffer of no bytes, into which the first `Write` copies behind
the end, and a `Shrink` to no bytes, after which `ReadAll` reads behind the end. -/
theorem wrapped_sum_faults :
    (create (fun _ => 0xFFFFFFFFFFFFFFF8) : BufferStore Nat).Allowed [.on 0 (.write [1])]
    ∧ (create (fun _ => 0xFFFFFFFFFFFFFFF8) : BufferStore Nat).run [.on 0 (.write [1])]
        = .error .outOfRange
    ∧ (create (fun _ => 2) : BufferStore Nat).Allowed
        [.on 0 (.write [1]), .on 0 (.shrink 0xFFFFFFFFFFFFFFF7), .on 0 .readAll]
    ∧ (create (fun _ => 2) : BufferStore Nat).run
        [.on 0 (.write [1]), .on 0 (.shrink 0xFFFFFFFFFFFFFFF7), .on 0 .readAll]
        = .error .outOfRange :=
  ⟨by decide +kernel, rfl, by decide +kernel, rfl⟩

end BufferStore

end Windz
