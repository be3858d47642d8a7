import Windz.Log.AsyncLoggingProgress

/-!
# Lines come to the file

What is appended comes to the file without a call of `Stop`: the next swap takes it into a
batch, and the round it is taken in writes that batch.
-/

namespace Windz

open Lib

namespace AsyncLogging

variable {w w' : AsyncLogging} {a : Label}

instance (pc : LogPc) : Decidable (BehindSwap pc) :=
  match pc with
  | .trim | .write _ | .recycle | .flush => .isTrue trivial
  | .notStarted | .entered | .counting | .setup | .test | .lock | .wait | .finalFlush
  | .finished => .isFalse id

/-- Logging is on, and the lines are not in the file yet. -/
structure ToDeliver (ls : List Line) (w : AsyncLogging) : Prop where
  inv : Inv w
  running : w.running = true
  lines : ls <+: w.lines
  undelivered : ¬ Delivered ls w

/-- Lines in a batch are in the file, unless that batch is being written. -/
theorem ToDeliver.writing {ls : List Line} (h : ToDeliver ls w)
    (ht : ls <+: w.taken.flatten.flatten) : w.pc = .trim ∨ ∃ i, w.pc = .write i := by
  have hwr := h.inv.written
  rw [WrittenOut, unwritten] at hwr
  split at hwr
  · rename_i hpc
    exact .inl hpc
  · rename_i i hpc
    exact .inr ⟨i, hpc⟩
  · rw [List.append_nil] at hwr
    exact absurd ⟨ht, hwr⟩ h.undelivered

end AsyncLogging

end Windz
