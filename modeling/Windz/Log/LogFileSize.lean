import Windz.Log.LogFileProof

/-!
# When a `LogFile` rolls by size

`RollFile` trusts `written_byte()`. That is what the current file has received as long as
every `AppendFile` begins with a 0, every line is taken whole, and the count stays below
`2 ^ 63`; and then a roll is asked for exactly when the file has received too much.
-/

namespace Windz

open Lib AppendFile

namespace LogFile

variable {clock : Nat → Int} {w : LogFile} {f : AppendFile}

/-- The append goes to real files, none of which begins with a count or loses a byte. -/
structure Sound (w : LogFile) (a : LogCall) : Prop where
  real : ∀ f, a.writtenByte f = f.writtenByte
  memory : a.memory = 0
  size : a.line.length < UInt64.size
  whole : handed a.fwrite a.line = a.line
  room : ∀ f, w.file = some f → f.stream.length + a.line.length ≤ kOffMax

theorem create_counts (now : Int) : Counts (.create 0 now) := rfl

/-- A roll puts a new file, or none, in the place of one that counts. -/
theorem rollFile_counts (h : ∀ f, w.file = some f → Counts f) :
    ∀ f, (rollFile clock 0 w).2.file = some f → Counts f := by
  intro f hf
  rcases rollFile_cases clock 0 w with ⟨-, he⟩ | ⟨-, he⟩
  · rw [he] at hf
    cases hf
    exact create_counts _
  · rw [he] at hf
    exact h f hf

theorem Sound.counts {a : LogCall} (ha : Sound w a) (hf : w.file = some f) (h : Counts f) :
    Counts (f.append a.fwrite a.line) :=
  (append_counts h ha.size a.fwrite).mpr ⟨ha.whole, ha.room f hf⟩

/-- **One sound append** leaves a file that counts. -/
theorem append_keeps_counts {a : LogCall} (ha : Sound w a) {outcome : AppendOutcome} {w' : LogFile}
    (hs : appendUnlocked clock a w = some (outcome, w')) (h : ∀ f, w.file = some f → Counts f) :
    ∀ f, w'.file = some f → Counts f := by
  cases hfile : w.file with
  | none =>
    rw [appendUnlocked, hfile] at hs
    cases hs
  | some f =>
    have hcounts := ha.counts hfile (h f hfile)
    have hnew : ∀ g, some (f.append a.fwrite a.line) = some g → Counts g := fun g hg => by
      rw [← Option.some.inj hg]
      exact hcounts
    cases append_cases hfile hs with
    | sizeRoll =>
      rw [ha.memory]
      exact rollFile_counts hnew
    | newDay =>
      rw [ha.memory]
      exact rollFile_counts hnew
    | counted => exact hnew
    | recent => exact hnew
    | flushed =>
      intro g hg
      rw [← Option.some.inj hg]
      exact hcounts

section Run

variable {rollSize : Int64} {flushInterval checkEveryN : Int}

theorem run_counts {as : List LogCall}
    (h : Run (machine clock rollSize flushInterval checkEveryN) Sound
      (create clock rollSize flushInterval checkEveryN 0) as w) :
    Configured rollSize flushInterval checkEveryN w ∧ ∀ f, w.file = some f → Counts f := by
  refine h.invariant (I := fun w => Configured rollSize flushInterval checkEveryN w
    ∧ ∀ f, w.file = some f → Counts f) ⟨rollFile_configured ⟨rfl, rfl, rfl⟩, ?_⟩ ?_
  · exact rollFile_counts fun f hf => by cases hf
  · rintro w a w' ⟨hconfig, hcounts⟩ ha hs
    obtain ⟨⟨outcome, w''⟩, happend, rfl⟩ := Option.map_eq_some_iff.mp hs
    refine ⟨?_, append_keeps_counts ha happend hcounts⟩
    cases hfile : w.file with
    | none =>
      rw [appendUnlocked, hfile] at happend
      cases happend
    | some f => exact (append_cases hfile happend).configured hconfig

/-- A roll by size is asked for when the file has received more than it may. -/
theorem sizeRoll_iff {a : LogCall} (ha : Sound w a) (hf : w.file = some f) (h : Counts f)
    {outcome : AppendOutcome} {w' : LogFile}
    (hs : appendUnlocked clock a w = some (outcome, w')) :
    outcome = .sizeRoll
      ↔ w.rollSize.toInt < ((f.append a.fwrite a.line).stream.length : Int) := by
  have hcounts : (f.append a.fwrite a.line).writtenByte.toInt = _ := ha.counts hf h
  rw [← hcounts, ← ha.real, ← Int64.lt_iff_toInt_lt]
  cases append_cases hf hs with
  | sizeRoll hsize => exact ⟨fun _ => hsize, fun _ => rfl⟩
  | counted hsize => exact ⟨fun he => (nomatch he), fun hlt => absurd hlt hsize⟩
  | newDay hsize => exact ⟨fun he => (nomatch he), fun hlt => absurd hlt hsize⟩
  | flushed hsize => exact ⟨fun he => (nomatch he), fun hlt => absurd hlt hsize⟩
  | recent hsize => exact ⟨fun he => (nomatch he), fun hlt => absurd hlt hsize⟩

/--
**`written_byte()` is right exactly when the memory was 0 and nothing failed.**

For any memory an `AppendFile` is created in, and any calls with any results of `fwrite`: after
every call `written_byte()` is the number of bytes handed to the stream, if and only if the memory
held a 0, every line was taken whole, and the sum fits. What is handed on is in any case a front of
each line in turn, the whole of it unless a call of `fwrite` takes nothing. And in a `LogFile`
where that condition is met by every file and every append, an append asks for a roll by size
exactly when the current file has received more than `roll_size_` bytes.
-/
theorem written_byte_iff (memory : Int64) (now : Int) (calls : List Call)
    (hlines : ∀ c ∈ calls, c.1.length < UInt64.size) :
    ((∀ k ≤ calls.length, Counts (appends memory now (calls.take k)))
        ↔ memory = 0 ∧ (∀ c ∈ calls, handed c.2 c.1 = c.1)
          ∧ (calls.map fun c => c.1.length).sum ≤ kOffMax)
    ∧ (appends memory now calls).stream = (calls.map fun c => handed c.2 c.1).flatten
    ∧ (∀ c ∈ calls, handed c.2 c.1 <+: c.1
        ∧ (handed c.2 c.1 ≠ c.1 → ∃ j, 1 ≤ j ∧ c.2 j = 0))
    ∧ ∀ (clock : Nat → Int) (rollSize : Int64) (flushInterval checkEveryN : Int)
        (as : List LogCall) (w : LogFile),
        Run (machine clock rollSize flushInterval checkEveryN) Sound
          (create clock rollSize flushInterval checkEveryN 0) as w →
        ∀ a f outcome w', Sound w a → w.file = some f →
          appendUnlocked clock a w = some (outcome, w') →
          (outcome = .sizeRoll
            ↔ rollSize.toInt < ((f.append a.fwrite a.line).stream.length : Int)) := by
  refine ⟨counts_iff memory now calls hlines, appends_stream memory now calls,
    fun c _ => handed_front c.2 c.1, ?_⟩
  intro clock rollSize flushInterval checkEveryN as w hrun a f outcome w' ha hf hs
  obtain ⟨hconfig, hcounts⟩ := run_counts hrun
  rw [← hconfig.1]
  exact sizeRoll_iff ha hf (hcounts f hf) hs

end Run

instance (f : AppendFile) : Decidable (Counts f) := inferInstanceAs (Decidable (_ = _))

/-- An append to real files that takes all it is given. -/
def realCall (line : List UInt8) : LogCall :=
  { line, fwrite := fun _ => 9, memory := 0, writtenByte := AppendFile.writtenByte }

/-- A short result that is made up for, and an append to a file with room for ten bytes. -/
theorem written_byte_iff_small :
    Counts (appends 0 5 [([1, 2, 3], fun k => k + 1), ([4], fun k => k)])
    ∧ ∀ outcome w', appendUnlocked lateClock (realCall [1, 2])
        (create lateClock 10 4 2 0) = some (outcome, w') → outcome ≠ .sizeRoll := by
  obtain ⟨hiff, -, -, hroll⟩ := written_byte_iff 0 5
    [([1, 2, 3], fun k => k + 1), ([4], fun k => k)] (by decide)
  constructor
  · have h := hiff.mpr (by decide +kernel)
    exact h 2 (by decide)
  · intro outcome w' hs he
    have hfile : (create lateClock 10 4 2 0).file = some (.create 0 86395) := by decide +kernel
    have hsound : Sound (create lateClock 10 4 2 0) (realCall [1, 2]) :=
      ⟨fun _ => rfl, rfl, by decide, by decide +kernel, fun f hf => by
        rw [hfile] at hf
        rw [← Option.some.inj hf]
        decide⟩
    have hlt := (hroll lateClock 10 4 2 [] _ .nil _ _ _ _ hsound hfile hs).mp he
    exact absurd hlt (by decide +kernel)

/-- With other memory the count is wrong from the beginning, and a file that has received one byte
is rolled; with a write that fails the count includes what was not written. -/
theorem uninitialised_count_is_wrong :
    (appends 5 1 []).writtenByte = 5 ∧ (appends 5 1 []).stream = []
    ∧ ¬ Counts (appends 5 1 [])
    ∧ ((appendUnlocked lateClock (realCall [7]) (create lateClock 10 4 2 1000)).map
        fun r => (r.1, r.2.closed.map AppendFile.stream)) = some (.sizeRoll, [[7]])
    ∧ ¬ Counts (appends 0 1 [([1, 2], fun _ => 0)]) := by
  decide +kernel

end LogFile

end Windz
