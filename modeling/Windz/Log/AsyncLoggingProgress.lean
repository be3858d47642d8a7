import Windz.Log.AsyncLoggingRounds

/-!
# `Start` and `Stop` return

`Start` waits until the logging thread counts `latch_` down, which is in front of its rounds.
`Stop` clears `running_` and waits for the thread to leave its loop, which it does at its next
test; one more round at most comes before that.
-/

namespace Windz

open Lib

namespace AsyncLogging

variable {w w' : AsyncLogging} {a : Label}

/-! ## `Stop` -/

instance (pc : LogPc) : Decidable (Leaving pc) :=
  match pc with
  | .test | .finalFlush | .finished => .isTrue trivial
  | .notStarted | .entered | .counting | .setup | .lock | .wait | .trim | .write _ | .recycle
  | .flush => .isFalse id

/-- Whose step takes `Stop` nearer to its end. -/
def helpsStop (w : AsyncLogging) : Party := if w.pc = .finished then .owner else w.helpsThread

/-- In `Stop`, with `running_` cleared. -/
structure InStop (w : AsyncLogging) : Prop where
  inv : Inv w
  owner : w.owner = .stopping ∨ w.owner = .joining

theorem InStop.left {w : AsyncLogging} (h : InStop w) :
    w.running = false ∧ w.pc ≠ .notStarted := by
  have ho := h.inv.shape.owner
  unfold OwnerInv at ho
  rcases h.owner with he | he
  · rw [he] at ho
    exact ⟨ho.1, ho.2.1⟩
  · rw [he] at ho
    exact ⟨ho.1, ho.2.1⟩

theorem InStop.helps {s : Nat → AsyncLogging} {b : Nat → Label} (hf : Fair s b) {n : Nat}
    (h : InStop (s n)) : ∃ m, n ≤ m ∧ does (helpsStop (s n)) (b m) := by
  unfold helpsStop
  by_cases hpc : (s n).pc = .finished
  · rw [if_pos hpc]
    refine hf.owner n ?_
    unfold OwnerFree
    rcases h.owner with ho | ho
    · rw [ho]
      trivial
    · rw [ho]
      exact hpc
  · rw [if_neg hpc]
    exact hf.helpsThread (fun hnot => absurd hnot h.left.2) hpc

/-- `latch_` is counted down when the logging thread comes out of its first steps. -/
def Latches (w : AsyncLogging) : Prop := w.latched = false → Early w.pc

/-- Whose step takes `Start` nearer to its end. -/
def helpsStart (w : AsyncLogging) : Party :=
  if w.owner = .starting ∨ w.latched = true then .owner else .thread

/-- In `Start`, with `running_` set. -/
structure InStart (w : AsyncLogging) : Prop where
  inv : Inv w
  latches : Latches w
  owner : w.owner = .starting ∨ w.owner = .waiting

/-- The owning thread waits for the latch, and the logging thread is in front of it. -/
theorem InStart.early (h : InStart w) (ho : w.owner ≠ .starting) (hl : ¬ w.latched = true) :
    w.pc = .entered ∨ w.pc = .counting := by
  have hwait := h.owner.resolve_left ho
  have hinv := h.inv.shape.owner
  rw [OwnerInv, hwait] at hinv
  exact (early_cases (h.latches (Bool.not_eq_true _ ▸ hl))).resolve_left hinv.2

theorem InStart.helps {s : Nat → AsyncLogging} {b : Nat → Label} (hf : Fair s b) {n : Nat}
    (h : InStart (s n)) : ∃ m, n ≤ m ∧ does (helpsStart (s n)) (b m) := by
  unfold helpsStart
  by_cases ho : (s n).owner = .starting
  · rw [if_pos (.inl ho)]
    refine hf.owner n ?_
    rw [OwnerFree, ho]
    trivial
  by_cases hl : (s n).latched = true
  · rw [if_pos (.inr hl)]
    refine hf.owner n ?_
    rw [OwnerFree, h.owner.resolve_left ho]
    exact hl
  · rw [if_neg (not_or.mpr ⟨ho, hl⟩)]
    rcases h.early ho hl with hp | hp
    all_goals
      refine hf.thread n ?_ ?_ ?_
      all_goals
        rw [hp]
        exact LogPc.noConfusion

end AsyncLogging

end Windz
