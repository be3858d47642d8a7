import Windz.Log.AsyncLoggingProof

/-!
# What the file has been given

The invariants of `AsyncLoggingProof` speak of lines. Here they are read as a
statement about bytes: at any moment, what `LogFile::Append` was given, what the
logging thread has yet to give of its batch, what waits in `buffers_` and what is
in the current buffer are, one after the other, the lines appended so far, but
for the buffers a trim has dropped.
-/

namespace Windz

open Lib

/-- The bytes behind a pointer, none behind a null one. -/
def BufferPtr.bytes (p : BufferPtr) : List UInt8 := (p.map (·.buf.data)).getD []

/-- The bytes of a buffer, nothing for a notice. -/
def LogRecord.dataBytes : LogRecord → List UInt8
  | .notice _ => []
  | .data bytes => bytes

theorem BufferPtr.bytes_eq (p : BufferPtr) : p.bytes = p.lines.flatten := by
  cases p with
  | none => rfl
  | some b => exact b.holds

theorem BufferPtr.flatMap_bytes (ps : List BufferPtr) :
    ps.flatMap BufferPtr.bytes = (ps.map BufferPtr.lines).flatten.flatten := by
  induction ps with
  | nil => rfl
  | cons p ps ih =>
    rw [List.flatMap_cons, ih, List.map_cons, List.flatten_cons, List.flatten_append, bytes_eq]

namespace AsyncLogging

/-- The buffers of `buffers_to_write` not yet given to the file. -/
def ungiven (w : AsyncLogging) : List BufferPtr :=
  match w.pc with
  | .trim => w.buffersToWrite
  | .write i => w.buffersToWrite.drop i
  | _ => []

/-- The batches that were trimmed if they had to be: all but one just swapped out. -/
def trimmed (w : AsyncLogging) : List (List (List Line)) :=
  if w.pc = .trim then w.taken.dropLast else w.taken

/-- The batch just swapped out, while it is whole. -/
def untrimmed (w : AsyncLogging) : List (List (List Line)) :=
  if w.pc = .trim then [w.buffersToWrite.map BufferPtr.lines] else []

/-- The lines appended, without those of the buffers that were dropped. -/
def survivors (w : AsyncLogging) : List Line :=
  (w.trimmed.map keptBuffers).flatten.flatten ++ w.untrimmed.flatten.flatten ++ w.pending

/-! ## The batch before it is trimmed -/

/-- While a batch is whole, it is the last one swapped out. -/
def LastTaken (w : AsyncLogging) : Prop := w.taken = w.trimmed ++ w.untrimmed

theorem lastTaken_of_ne {w : AsyncLogging} (h : w.pc ≠ .trim) : LastTaken w := by
  rw [LastTaken, trimmed, untrimmed, if_neg h, if_neg h, List.append_nil]

theorem lastTaken_swapOut (w : AsyncLogging) : LastTaken w.swapOut := by
  unfold swapOut
  dsimp only
  split
  · show _ = List.dropLast (w.taken ++ [_]) ++ [_]
    rw [List.dropLast_concat]
  · show _ = List.dropLast (w.taken ++ [_]) ++ [_]
    rw [List.dropLast_concat]

/-- The fields `LastTaken` reads. -/
theorem LastTaken.congr {w w' : AsyncLogging} (h : LastTaken w) (hpc : w'.pc = w.pc)
    (ht : w'.taken = w.taken) (hb : w'.buffersToWrite = w.buffersToWrite) : LastTaken w' := by
  unfold LastTaken trimmed untrimmed at h ⊢
  rw [hpc, ht, hb]
  exact h

theorem lastTaken_threadStep {w w' : AsyncLogging} (h : Inv w) (hs : w.threadStep = some w') :
    LastTaken w' := by
  cases hpc : w.pc with
  | lock =>
    rw [threadStep, hpc] at hs
    dsimp only at hs
    rw [Option.some.injEq] at hs
    subst hs
    split
    · exact lastTaken_of_ne LogPc.noConfusion
    · exact lastTaken_swapOut w
  | recycle =>
    rw [threadStep, hpc] at hs
    dsimp only at hs
    have hsp := h.shape.spares
    rw [Spares, hpc] at hsp
    obtain ⟨new1, new2, he, _, _⟩ := recycle_spec hsp.1 hsp.2.1 hsp.2.2 h.shape.batch
    rw [Option.some.injEq, he] at hs
    subst hs
    exact lastTaken_of_ne LogPc.noConfusion
  | trim =>
    rw [threadStep, hpc] at hs
    dsimp only at hs
    rw [if_neg (inv_trim h hpc).1, Option.some.injEq] at hs
    subst hs
    exact lastTaken_of_ne LogPc.noConfusion
  | write i =>
    rw [threadStep, hpc] at hs
    dsimp only at hs
    split at hs
    · rw [Option.some.injEq] at hs
      subst hs
      exact lastTaken_of_ne LogPc.noConfusion
    · rw [Option.some.injEq] at hs
      subst hs
      exact lastTaken_of_ne (by rw [crash, hpc]; exact LogPc.noConfusion)
    · rw [Option.some.injEq] at hs
      subst hs
      exact lastTaken_of_ne LogPc.noConfusion
  | entered | test =>
    -- both branches leave the thread elsewhere, or where it was
    rw [threadStep, hpc] at hs
    dsimp only at hs
    rw [Option.some.injEq] at hs
    subst hs
    refine lastTaken_of_ne ?_
    repeat' split
    all_goals first | exact LogPc.noConfusion | (rw [crash, hpc]; exact LogPc.noConfusion)
  | counting | setup | flush | finalFlush =>
    rw [threadStep, hpc] at hs
    dsimp only at hs
    rw [Option.some.injEq] at hs
    subst hs
    exact lastTaken_of_ne LogPc.noConfusion
  | notStarted | wait | finished => rw [threadStep, hpc] at hs; exact absurd hs (by simp)

theorem lastTaken_ownerStep {w w' : AsyncLogging} (ht : LastTaken w)
    (hs : w.ownerStep = some w') : LastTaken w' := by
  cases hw : w.owner with
  | starting =>
    rw [ownerStep, hw] at hs
    dsimp only at hs
    rw [Option.some.injEq] at hs
    subst hs
    exact lastTaken_of_ne LogPc.noConfusion
  | idle | started | stopping =>
    rw [ownerStep, hw] at hs
    dsimp only at hs
    rw [Option.some.injEq] at hs
    subst hs
    exact ht.congr rfl rfl rfl
  | waiting | joining =>
    rw [ownerStep, hw] at hs
    dsimp only at hs
    split at hs
    · rw [Option.some.injEq] at hs
      subst hs
      exact ht.congr rfl rfl rfl
    · exact absurd hs (by simp)
  | stopped => rw [ownerStep, hw] at hs; exact absurd hs (by simp)

theorem lastTaken_reachable {w : AsyncLogging} (h : Reachable machine LinesFit w) :
    LastTaken w := by
  refine h.invariant ?_ ?_
  · rintro _ rfl
    exact lastTaken_of_ne LogPc.noConfusion
  · intro w a w' hr ht hfit hs
    have hinv := inv_reachable hr
    change w.step a = some w' at hs
    unfold step at hs
    rw [hinv.shape.noFault, if_neg Bool.false_ne_true] at hs
    cases a with
    | append thread line =>
      dsimp only at hs
      obtain ⟨cur, next, bufs, he, _, _, _⟩ := append_spec hinv.shape hfit
      rw [he, Option.some.injEq] at hs
      subst hs
      exact ht.congr rfl rfl rfl
    | thread => exact lastTaken_threadStep hinv hs
    | wake =>
      dsimp only [wakeStep] at hs
      split at hs
      · rw [Option.some.injEq] at hs
        subst hs
        exact lastTaken_swapOut w
      · exact absurd hs (by simp)
    | owner => exact lastTaken_ownerStep ht hs

/-! ## From records to bytes -/

theorem batchRecords_dataBytes (batch : List (List Line)) :
    (batchRecords batch).flatMap LogRecord.dataBytes = (keptBuffers batch).flatten.flatten := by
  have hmap : ∀ ls : List (List Line),
      (ls.map fun l => LogRecord.data l.flatten).flatMap LogRecord.dataBytes
        = ls.flatten.flatten := by
    intro ls
    induction ls with
    | nil => rfl
    | cons l ls ih =>
      rw [List.map_cons, List.flatMap_cons, ih, List.flatten_cons, List.flatten_append]
      rfl
  unfold batchRecords keptBuffers
  split
  · rw [List.flatMap_cons, hmap]; rfl
  · exact hmap batch

theorem batches_dataBytes (batches : List (List (List Line))) :
    (batches.flatMap batchRecords).flatMap LogRecord.dataBytes
      = (batches.map keptBuffers).flatten.flatten.flatten := by
  induction batches with
  | nil => rfl
  | cons b bs ih =>
    rw [List.flatMap_cons, List.flatMap_append, ih, batchRecords_dataBytes, List.map_cons,
      List.flatten_cons, List.flatten_append, List.flatten_append]

/-- What is written of the batch in hand, past the trim, is what its buffers hold. -/
theorem output_dataBytes {w : AsyncLogging} (hwr : WrittenOut w) (ht : LastTaken w) :
    w.output.flatMap LogRecord.dataBytes ++ w.ungiven.flatMap BufferPtr.bytes
      = (w.trimmed.map keptBuffers).flatten.flatten.flatten
        ++ w.untrimmed.flatten.flatten.flatten := by
  by_cases hpc : w.pc = .trim
  · -- the whole batch is still to be given, and everything before it was
    have hout : w.output = w.trimmed.flatMap batchRecords := by
      have hwr' := hwr
      rw [WrittenOut, ht, List.flatMap_append, untrimmed, if_pos hpc, unwritten, hpc,
        List.flatMap_singleton] at hwr'
      exact List.append_cancel_right hwr'
    rw [hout, batches_dataBytes, ungiven, hpc, untrimmed, if_pos hpc]
    dsimp only
    rw [BufferPtr.flatMap_bytes, List.flatten_singleton]
  · have hung : w.unwritten.flatMap LogRecord.dataBytes = w.ungiven.flatMap BufferPtr.bytes := by
      cases hw : w.pc with
      | trim => exact absurd hw hpc
      | write i =>
        rw [unwritten, ungiven, hw]
        dsimp only
        induction w.buffersToWrite.drop i with
        | nil => rfl
        | cons p ps ih =>
          rw [List.map_cons, List.flatMap_cons, List.flatMap_cons, ih, BufferPtr.bytes_eq]
          rfl
      | _ => rw [unwritten, ungiven, hw]; rfl
    rw [← hung, ← List.flatMap_append, hwr, batches_dataBytes, trimmed, untrimmed, if_neg hpc,
      if_neg hpc]
    simp

/-- **Every line is whole, in order and once on its way to the file.** The code never faults; the
lines appended are those of the batches swapped out, in order, and of the buffers behind
them; each batch is written as `batchRecords` says, so with one notice in front of it and
only its first two buffers if it holds more than 25, and whole otherwise; and the bytes in
the file, in the rest of the batch, in `buffers_` and in the current buffer are those of
the lines that were not dropped. -/
theorem file_holds_lines (w : AsyncLogging) (h : Reachable machine LinesFit w) :
    w.fault = false
      ∧ w.lines = w.trimmed.flatten.flatten ++ w.untrimmed.flatten.flatten ++ w.pending
      ∧ w.output ++ w.unwritten = w.taken.flatMap batchRecords
      ∧ w.output.flatMap LogRecord.dataBytes ++ w.ungiven.flatMap BufferPtr.bytes
          ++ w.buffers.flatMap BufferPtr.bytes ++ BufferPtr.bytes w.currentBuffer
        = w.survivors.flatten := by
  have hinv := inv_reachable h
  have ht := lastTaken_reachable h
  refine ⟨hinv.shape.noFault, ?_, hinv.written, ?_⟩
  · rw [hinv.accounted]
    conv => lhs; rw [ht]
    rw [List.flatten_append, List.flatten_append]
  · rw [output_dataBytes hinv.written ht, survivors, pending, BufferPtr.flatMap_bytes,
      BufferPtr.bytes_eq, List.flatten_append, List.flatten_append, List.flatten_append,
      List.append_assoc, List.append_assoc]

/-- Two threads append, the logging thread times out and writes, a third line waits. -/
theorem file_holds_lines_small :
    ∃ w, Reachable machine LinesFit w ∧ w.output = [.data [104, 105, 10]]
      ∧ w.lines = [[104, 105], [10], [33]] ∧ w.survivors.flatten = [104, 105, 10, 33]
      ∧ w.output.flatMap LogRecord.dataBytes ++ w.ungiven.flatMap BufferPtr.bytes
          ++ w.buffers.flatMap BufferPtr.bytes ++ BufferPtr.bytes w.currentBuffer
        = w.survivors.flatten := by
  have hexec : (machine.exec LinesFit create
      [.owner, .owner, .thread, .thread, .owner, .append 1 [104, 105], .thread, .thread, .thread,
        .append 2 [10], .wake, .thread, .append 1 [33], .thread]).map (fun w =>
          decide (w.output = [.data [104, 105, 10]] ∧ w.lines = [[104, 105], [10], [33]]
            ∧ w.survivors.flatten = [104, 105, 10, 33])) = some true := by decide +kernel
  obtain ⟨w, hr, hp⟩ := Machine.exec_reachable rfl hexec
  obtain ⟨hout, hlines, hsurv⟩ := of_decide_eq_true hp
  exact ⟨w, hr, hout, hlines, hsurv, (file_holds_lines w hr).2.2.2⟩

end AsyncLogging

end Windz
