import Mathlib.Algebra.GroupWithZero.Nat
import Mathlib.Data.List.Induction

/-!
# `AppendFile`

`log/FileUtil.cpp`. What a call of `fwrite_unlocked` takes of the bytes it is given is
up to the environment: in an `Append` the `k`-th call takes `fwrite k` bytes, or all
there are.

The constructor does not initialise `written_bytes_`, so a new file has what the memory
holds in its place. When the file was opened, when it was flushed, and the lines given
to it are ghosts.
-/

namespace Windz

/-- An `AppendFile`, and what was written to its stream. -/
structure AppendFile where
  /-- `written_bytes_`, an `off_t`. -/
  writtenBytes : Int64
  /-- What the calls of `fwrite_unlocked` have taken since the file was opened. -/
  stream : List UInt8
  /-- Ghost: the time at which it was opened. -/
  openedAt : Int
  /-- Ghost: the times at which it was flushed. -/
  flushes : List Int
  /-- Ghost: the lines appended. -/
  lines : List (List UInt8)
deriving DecidableEq

namespace AppendFile

/-- The constructor, `memory` being in the place of `written_bytes_`. -/
def create (memory : Int64) (now : Int) : AppendFile :=
  { writtenBytes := memory, stream := [], openedAt := now, flushes := [], lines := [] }

/-- The loop of `Append`: what it hands on of the bytes that remain, before the `k`-th call. -/
def retry (fwrite : Nat → Nat) (k : Nat) (remain : List UInt8) : List UInt8 :=
  let n := min (fwrite k) remain.length
  -- nothing remains, or the call failed
  if n = 0 then [] else remain.take n ++ retry fwrite (k + 1) (remain.drop n)
termination_by remain.length
decreasing_by
  rename_i hn
  rw [List.length_drop]
  omega

/-- What an `Append` of `line` hands to the stream. A first call that fails is made again. -/
def handed (fwrite : Nat → Nat) (line : List UInt8) : List UInt8 :=
  let nwritten := min (fwrite 0) line.length
  line.take nwritten ++ retry fwrite 1 (line.drop nwritten)

/-- `Append`; `written_bytes_ += len`, whatever was taken. -/
def append (fwrite : Nat → Nat) (line : List UInt8) (f : AppendFile) : AppendFile :=
  { f with
    stream := f.stream ++ handed fwrite line
    writtenBytes := Int64.ofInt (f.writtenBytes.toInt + line.length)
    lines := f.lines ++ [line] }

/-- `WrittenByte`. -/
def writtenByte (f : AppendFile) : Int64 := f.writtenBytes

/-- `Flush`, at the time `now`. -/
def flush (now : Int) (f : AppendFile) : AppendFile := { f with flushes := f.flushes ++ [now] }

/-! ## What is handed on -/

/-- From the front of what remains, and all of it unless a call takes nothing. -/
theorem retry_front (fwrite : Nat → Nat) (k : Nat) (remain : List UInt8) :
    retry fwrite k remain <+: remain
      ∧ (retry fwrite k remain ≠ remain → ∃ j, k ≤ j ∧ fwrite j = 0) := by
  fun_induction retry fwrite k remain with
  | case1 k remain n hn =>
    refine ⟨List.nil_prefix, fun hne => ⟨k, Nat.le_refl k, ?_⟩⟩
    have hpos : 0 < remain.length := List.length_pos_iff.mpr fun h => hne h.symm
    omega
  | case2 k remain n hn ih =>
    obtain ⟨⟨rest, hrest⟩, hcut⟩ := ih
    constructor
    · refine ⟨rest, ?_⟩
      rw [List.append_assoc, hrest, List.take_append_drop]
    · intro hne
      obtain ⟨j, hj, hzero⟩ := hcut fun he => hne (by rw [he, List.take_append_drop])
      exact ⟨j, by omega, hzero⟩

/-- **A line is handed on from its front**, and whole unless a call of `fwrite` behind the first
takes nothing. -/
theorem handed_front (fwrite : Nat → Nat) (line : List UInt8) :
    handed fwrite line <+: line
      ∧ (handed fwrite line ≠ line → ∃ j, 1 ≤ j ∧ fwrite j = 0) := by
  obtain ⟨⟨rest, hrest⟩, hcut⟩ := retry_front fwrite 1 (line.drop (min (fwrite 0) line.length))
  constructor
  · refine ⟨rest, ?_⟩
    rw [handed, List.append_assoc, hrest, List.take_append_drop]
  · exact fun hne => hcut fun he => hne (by rw [handed, he, List.take_append_drop])

theorem handed_length_le (fwrite : Nat → Nat) (line : List UInt8) :
    (handed fwrite line).length ≤ line.length := (handed_front fwrite line).1.length_le

/-- It is whole when it has the length. -/
theorem handed_eq_iff (fwrite : Nat → Nat) (line : List UInt8) :
    handed fwrite line = line ↔ (handed fwrite line).length = line.length :=
  ⟨congrArg List.length, fun h => (handed_front fwrite line).1.eq_of_length h⟩

/-! ## The count -/

/-- A call of `Append`: the line, and what the calls of `fwrite_unlocked` in it take. -/
abbrev Call := List UInt8 × (Nat → Nat)

/-- The file after its constructor and some calls. -/
def appends (memory : Int64) (now : Int) (calls : List Call) : AppendFile :=
  calls.foldl (fun f c => f.append c.2 c.1) (create memory now)

theorem appends_concat (memory : Int64) (now : Int) (calls : List Call) (c : Call) :
    appends memory now (calls ++ [c]) = (appends memory now calls).append c.2 c.1 := by
  unfold appends
  rw [List.foldl_append]
  rfl

theorem appends_stream (memory : Int64) (now : Int) (calls : List Call) :
    (appends memory now calls).stream = (calls.map fun c => handed c.2 c.1).flatten := by
  induction calls using List.reverseRecOn with
  | nil => rfl
  | append_singleton calls c ih =>
    rw [appends_concat, List.map_append, List.flatten_append, ← ih]
    show (appends memory now calls).stream ++ handed c.2 c.1 = _
    rw [List.map_singleton, List.flatten_singleton]

/-- `written_byte()` is the number of bytes handed to the stream. -/
def Counts (f : AppendFile) : Prop := f.writtenByte.toInt = f.stream.length

/-- `written_bytes_` holds 63 bits. -/
def kOffMax : Nat := Int64.maxValue.toInt.toNat

/-- **One call** keeps the count right when the whole line is taken and the count does not
overflow, and only then. -/
theorem append_counts {f : AppendFile} (h : Counts f) {line : List UInt8}
    (hline : line.length < UInt64.size) (fwrite : Nat → Nat) :
    Counts (f.append fwrite line)
      ↔ handed fwrite line = line ∧ f.stream.length + line.length ≤ kOffMax := by
  have hle := handed_length_le fwrite line
  have hmax : kOffMax = 9223372036854775807 := by decide
  have hsize : Int64.size = 18446744073709551616 := rfl
  have hsize' : UInt64.size = 18446744073709551616 := rfl
  unfold Counts writtenByte at *
  rw [handed_eq_iff]
  show (Int64.ofInt (f.writtenBytes.toInt + line.length)).toInt
    = ((f.stream ++ handed fwrite line).length : Int) ↔ _
  rw [Int64.toInt_ofInt, h, List.length_append, Int.bmod_def, hsize]
  split <;> omega

/-- **The count is right after every call** exactly when it begins at 0, no line is cut, and it
does not overflow. -/
theorem counts_iff (memory : Int64) (now : Int) (calls : List Call)
    (hlines : ∀ c ∈ calls, c.1.length < UInt64.size) :
    (∀ k ≤ calls.length, Counts (appends memory now (calls.take k)))
      ↔ memory = 0 ∧ (∀ c ∈ calls, handed c.2 c.1 = c.1)
        ∧ (calls.map fun c => c.1.length).sum ≤ kOffMax := by
  induction calls using List.reverseRecOn with
  | nil =>
    have hzero : Counts (create memory now) ↔ memory = 0 := by
      show memory.toInt = 0 ↔ _
      exact ⟨fun h => Int64.toInt.inj h, fun h => by rw [h]; rfl⟩
    constructor
    · intro h
      exact ⟨hzero.mp (h 0 (Nat.le_refl 0)), by simp, Nat.zero_le _⟩
    · rintro ⟨h, -⟩ k -
      rw [List.take_nil]
      exact hzero.mpr h
  | append_singleton calls c ih =>
    have hc := hlines c (List.mem_append_right _ List.mem_cons_self)
    have ih := ih fun c' hc' => hlines c' (List.mem_append_left _ hc')
    -- the calls before the last one, and then the last one
    have hsplit : (∀ k ≤ (calls ++ [c]).length, Counts (appends memory now ((calls ++ [c]).take k)))
        ↔ (∀ k ≤ calls.length, Counts (appends memory now (calls.take k)))
          ∧ Counts ((appends memory now calls).append c.2 c.1) := by
      rw [← appends_concat]
      constructor
      · intro h
        refine ⟨fun k hk => ?_, ?_⟩
        · have hk' := h k (by rw [List.length_append]; omega)
          rwa [List.take_append_of_le_length hk] at hk'
        · rw [← List.take_length (l := calls ++ [c])]
          exact h _ (Nat.le_refl _)
      · intro ⟨h, hlast⟩ k hk
        by_cases hk' : k ≤ calls.length
        · rw [List.take_append_of_le_length hk']
          exact h k hk'
        · rw [List.take_of_length_le (by rw [List.length_append, List.length_singleton]; omega)]
          exact hlast
    have hlen : (∀ c ∈ calls, handed c.2 c.1 = c.1) →
        (appends memory now calls).stream.length = (calls.map fun c => c.1.length).sum := by
      intro hwhole
      rw [appends_stream, List.map_congr_left hwhole, List.length_flatten, List.map_map]
      rfl
    rw [hsplit, ih, List.map_append, List.sum_append, List.map_singleton, List.sum_singleton]
    have hbefore : memory = 0 ∧ (∀ c ∈ calls, handed c.2 c.1 = c.1)
        ∧ (calls.map fun c => c.1.length).sum ≤ kOffMax → Counts (appends memory now calls) := by
      intro h
      have hcount := ih.mpr h calls.length (Nat.le_refl _)
      rwa [List.take_length] at hcount
    constructor
    · rintro ⟨⟨hmemory, hwhole, hsum⟩, hcount⟩
      obtain ⟨hhanded, hle⟩ := (append_counts (hbefore ⟨hmemory, hwhole, hsum⟩) hc c.2).mp hcount
      rw [hlen hwhole] at hle
      refine ⟨hmemory, fun c' hc' => ?_, hle⟩
      rcases List.mem_append.mp hc' with hc' | hc'
      · exact hwhole c' hc'
      · rw [List.mem_singleton.mp hc']
        exact hhanded
    · rintro ⟨hmemory, hall, hsum⟩
      have hwhole : ∀ c ∈ calls, handed c.2 c.1 = c.1 := fun c' hc' =>
        hall c' (List.mem_append_left _ hc')
      have h := And.intro hmemory (And.intro hwhole (Nat.le_of_add_right_le hsum))
      refine ⟨h, (append_counts (hbefore h) hc c.2).mpr ⟨?_, ?_⟩⟩
      · exact hall c (List.mem_append_right _ List.mem_cons_self)
      · rw [hlen hwhole]
        exact hsum

end AppendFile

end Windz
