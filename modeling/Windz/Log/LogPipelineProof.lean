import Windz.Log.LogPipeline

/-!
# What is in the files

The records that the logging thread gives to its `LogFile` are those in the files, in the order
in which they were given and none of them in two files; and after every round of `ThreadFunc`
they are flushed. So what a crash of the process can take is one batch and what is still in the
buffers.
-/

namespace Windz

open Lib

namespace LogFile

variable {clock : Nat → Int} {w : LogFile} {f : AppendFile} {records : List (List UInt8)}

/-- A `LogFile` in use, with the records in its files. -/
def InUse (clock : Nat → Int) (records : List (List UInt8)) (w : LogFile) : Prop :=
  ∃ f, Inv clock w f ∧ Holds records w f

theorem InUse.append (hmono : NeverBack clock) (hpos : ∀ k, 0 < clock k)
    (h : InUse clock records w) {a : LogCall}
    (hwhole : AppendFile.handed a.fwrite a.line = a.line) :
    ∃ outcome w', appendUnlocked clock a w = some (outcome, w')
      ∧ InUse clock (records ++ [a.line]) w' := by
  obtain ⟨f, hinv, hholds⟩ := h
  have hsome : (appendUnlocked clock a w).isSome := by
    rw [appendUnlocked, hinv.file]
    rfl
  obtain ⟨⟨outcome, w'⟩, hs⟩ := Option.isSome_iff_exists.mp hsome
  obtain ⟨f', hinv', hfiles, -⟩ := hinv.step hmono hpos hs
  refine ⟨outcome, w', hs, f', hinv', ?_⟩
  obtain ⟨hrecords, hall⟩ := hholds.append hwhole
  rcases hfiles with ⟨hclosed, hlines, hstream⟩ | ⟨hclosed, hlines, hstream⟩
  · refine ⟨?_, fun g hg => ?_⟩
    · rw [List.flatMap_append, List.flatMap_singleton] at hrecords
      rw [hclosed, List.flatMap_append, List.flatMap_singleton, hlines]
      exact hrecords
    · rw [hclosed] at hg
      rcases List.mem_append.mp hg with hg | hg
      · exact hall g (List.mem_append_left _ hg)
      · rw [List.mem_singleton.mp hg, hlines, hstream]
        exact hall _ (List.mem_append_right _ List.mem_cons_self)
  · refine ⟨?_, fun g hg => ?_⟩
    · rw [hclosed, List.flatMap_append, List.flatMap_singleton, hlines, List.append_nil]
      exact hrecords
    · rw [hclosed] at hg
      rcases List.mem_append.mp hg with hg | hg
      · exact hall g hg
      · rw [List.mem_singleton.mp hg, hlines, hstream]
        rfl

theorem InUse.flush (h : InUse clock records w) (now : Int) :
    ∃ w', w.flush now = some w' ∧ InUse clock records w' := by
  obtain ⟨f, hinv, hholds⟩ := h
  refine ⟨{ w with file := some (f.flush now) }, ?_, f.flush now, ?_, ?_⟩
  · rw [LogFile.flush, hinv.file]
    rfl
  · refine { hinv with file := rfl, flushed := ?_, order := hinv.reorder rfl }
    rcases List.mem_cons.mp hinv.flushed with he | hf
    · rw [he]
      exact List.mem_cons_self
    · exact List.mem_cons_of_mem _ (List.mem_append_left _ hf)
  · refine ⟨?_, fun g hg => ?_⟩
    · have hrecords := hholds.records
      rw [List.flatMap_append, List.flatMap_singleton] at hrecords ⊢
      exact hrecords
    · rcases List.mem_append.mp hg with hg | hg
      · exact hholds.whole g (List.mem_append_left _ hg)
      · rw [List.mem_singleton.mp hg]
        exact hholds.whole f (List.mem_append_right _ List.mem_cons_self)

/-- All files, oldest first. -/
def files (w : LogFile) : List AppendFile := w.closed ++ w.file.toList

theorem InUse.files (h : InUse clock records w) :
    w.files.flatMap AppendFile.lines = records ∧ (∀ g ∈ w.files, g.stream = g.lines.flatten) := by
  obtain ⟨f, hinv, hholds⟩ := h
  rw [LogFile.files, hinv.file]
  exact ⟨hholds.records, hholds.whole⟩

end LogFile

namespace AsyncLogging

/-! ## The steps of the logging thread, and its calls -/

/-- The `LogFile` is there. -/
def HasOutput : LogPc → Prop
  | .notStarted | .entered | .counting | .setup | .finished => False
  | .test | .lock | .wait | .trim | .write _ | .recycle | .flush | .finalFlush => True

/-- In front of a call of `Flush`. -/
def Flushes : LogPc → Prop
  | .flush | .finalFlush => True
  | _ => False

/-- The batches behind which the logging thread has called `Flush`. -/
def settled (w : AsyncLogging) : List (List (List Line)) :=
  match w.pc with
  | .trim | .write _ | .recycle | .flush => w.taken.dropLast
  | _ => w.taken

/-- What a step of the logging thread does about its calls of `LogFile`. -/
inductive CallStep (w w' : AsyncLogging) : Prop where
  | before (hpc : w.pc = .entered ∨ w.pc = .counting) (hpc' : w'.pc = .counting ∨ w'.pc = .setup)
      (hout : w'.output = w.output) (htaken : w'.taken = w.taken)
  | opens (hpc : w.pc = .setup) (hpc' : w'.pc = .test) (hout : w'.output = w.output)
      (htaken : w'.taken = w.taken)
  | quiet (hpc : HasOutput w.pc) (hnot : ¬ Flushes w.pc)
      (hpc' : HasOutput w'.pc) (hgives : w.gives = none) (hout : w'.output = w.output)
      (hsettled : w'.settled = w.settled)
  | gives {r : LogRecord} (hpc : w.pc = .trim ∨ ∃ i, w.pc = .write i)
      (hgives : w.gives = some r) {i : Nat} (hpc' : w'.pc = .write i)
      (hout : w'.output = w.output ++ [r]) (htaken : w'.taken = w.taken)
  | flushes (hpc : w.pc = .flush) (he : w' = { w with pc := .test })
  | ends (hpc : w.pc = .finalFlush) (he : w' = { w with pc := .finished })

theorem callStep_swapOut {w : AsyncLogging} (h : Inv w) (hpc : w.pc = .lock ∨ w.pc = .wait) :
    CallStep w w.swapOut := by
  have hsp : Fresh w.newBuffer2 ∧ w.buffersToWrite = [] := by
    have hsp := h.shape.spares
    rcases hpc with hp | hp <;> (rw [Spares, hp] at hsp; exact hsp.2)
  obtain ⟨next, new2, he, -, -⟩ := swapOut_spec h.shape hsp.1 hsp.2
  rw [he]
  have hsettled : w.settled = w.taken := by rcases hpc with hp | hp <;> rw [settled, hp]
  refine .quiet ?_ ?_ trivial ?_ rfl ?_
  · rcases hpc with hp | hp <;> (rw [hp]; trivial)
  · rcases hpc with hp | hp <;> (rw [hp]; exact id)
  · rcases hpc with hp | hp <;> rw [AsyncLogging.gives, hp]
  · rw [hsettled]
    exact List.dropLast_concat

/-- Inside the loop and without a record to give. -/
theorem CallStep.goto {w w' : AsyncLogging} {pc : LogPc} (hpc : w.pc = pc) (hin : HasOutput pc)
    (hnot : ¬ Flushes pc) (hpc' : HasOutput w'.pc) (hgives : w.gives = none)
    (hout : w'.output = w.output) (hsettled : w'.settled = w.settled) : CallStep w w' :=
  .quiet (by rw [hpc]; exact hin) (by rw [hpc]; exact hnot) hpc' hgives hout hsettled

theorem threadStep_calls {w w' : AsyncLogging} (h : Inv w) (hs : w.threadStep = some w') :
    CallStep w w' := by
  cases hpc : w.pc with
  | notStarted | wait | finished => rw [threadStep, hpc] at hs; cases hs
  | entered =>
    rw [threadStep, hpc] at hs
    dsimp only at hs
    rw [if_pos (entered_running h.shape hpc), Option.some.injEq] at hs
    rw [← hs]
    exact .before (.inl hpc) (.inl rfl) rfl rfl
  | counting =>
    rw [threadStep, hpc] at hs
    cases hs
    exact .before (.inr hpc) (.inr rfl) rfl rfl
  | setup =>
    rw [threadStep, hpc] at hs
    cases hs
    exact .opens hpc rfl rfl rfl
  | test =>
    have hsp := h.shape.spares
    rw [Spares, hpc] at hsp
    have hasserts : w.loopAsserts = true := by
      rw [loopAsserts, hsp.1.length, hsp.2.1.length, hsp.2.2]
      decide
    rw [threadStep, hpc] at hs
    dsimp only at hs
    rw [if_pos hasserts, Option.some.injEq] at hs
    rw [← hs]
    have hgives : w.gives = none := by rw [gives, hpc]
    split
    · exact .goto hpc trivial id trivial hgives rfl (by rw [settled, settled, hpc])
    · exact .goto hpc trivial id trivial hgives rfl (by rw [settled, settled, hpc])
  | lock =>
    rw [threadStep, hpc] at hs
    dsimp only at hs
    rw [Option.some.injEq] at hs
    rw [← hs]
    split
    · exact .goto hpc trivial id trivial (by rw [gives, hpc]) rfl
        (by rw [settled, settled, hpc])
    · exact callStep_swapOut h (.inl hpc)
  | trim =>
    rw [threadStep, hpc] at hs
    dsimp only at hs
    rw [if_neg (inv_trim h hpc).1, Option.some.injEq] at hs
    rw [← hs]
    unfold trim
    split
    · rename_i hmany
      exact .gives (.inl hpc) (by rw [gives, hpc]; exact if_pos hmany) rfl rfl rfl
    · rename_i hfew
      exact .goto hpc trivial id trivial (by rw [gives, hpc]; exact if_neg hfew) rfl
        (by rw [settled, settled, hpc])
  | write i =>
    rw [threadStep, hpc] at hs
    dsimp only at hs
    split at hs
    · rename_i b hb
      cases hs
      exact .gives (.inr ⟨i, hpc⟩) (by rw [gives, hpc]; dsimp only; rw [hb]; rfl) rfl rfl rfl
    · rename_i hb
      obtain ⟨b, hb'⟩ := h.shape.batch _ (List.mem_of_getElem? hb)
      cases hb'
    · rename_i hb
      cases hs
      exact .goto hpc trivial id trivial (by rw [gives, hpc]; dsimp only; rw [hb]; rfl)
        rfl (by rw [settled, settled, hpc])
  | recycle =>
    have hsp := h.shape.spares
    rw [Spares, hpc] at hsp
    obtain ⟨new1, new2, he, -, -⟩ := recycle_spec hsp.1 hsp.2.1 hsp.2.2 h.shape.batch
    rw [threadStep, hpc] at hs
    dsimp only at hs
    rw [Option.some.injEq, he] at hs
    rw [← hs]
    exact .goto hpc trivial id trivial (by rw [gives, hpc]) rfl
      (by rw [settled, settled, hpc])
  | flush =>
    rw [threadStep, hpc] at hs
    cases hs
    exact .flushes hpc rfl
  | finalFlush =>
    rw [threadStep, hpc] at hs
    cases hs
    exact .ends hpc rfl

end AsyncLogging

namespace LogPipeline

open AsyncLogging (HasOutput)

variable {clock : Nat → Int} {rollSize : Int64} {w w' : LogPipeline}

/-- The bytes of the records given so far. -/
def given (w : LogPipeline) : List (List UInt8) := w.front.output.map LogRecord.bytes

/-- The `LogFile` while it is there, and what it leaves. -/
def Files (clock : Nat → Int) (w : LogPipeline) : Prop :=
  match w.front.pc with
  | .notStarted | .entered | .counting | .setup => w.file = none ∧ w.front.output = []
  | .finished => ∃ f, w.file = some (LogFile.destroy f) ∧ f.InUse clock w.given
  | _ => ∃ f, w.file = some f ∧ f.InUse clock w.given

/-- The invariant of the logging and its files. -/
structure Inv (clock : Nat → Int) (w : LogPipeline) : Prop where
  front : AsyncLogging.Inv w.front
  files : Files clock w
  flushed : w.flushed = w.front.settled.flatMap AsyncLogging.batchRecords
  given : w.flushed <+: w.front.output

theorem Files.of_hasOutput (hpc : HasOutput w.front.pc) :
    Files clock w ↔ ∃ f, w.file = some f ∧ f.InUse clock w.given := by
  unfold Files
  split <;> rename_i h
  all_goals first
    | exact absurd hpc (by rw [h]; exact id)
    | exact Iff.rfl

theorem step_thread {env : LogEnv} {front : AsyncLogging} {file : Option LogFile}
    (hs : w.front.step .thread = some front) (hcall : w.callOutput clock rollSize env = some file) :
    w.step clock rollSize (.thread, env) = some
      { front, file
        flushed := match w.front.pc with
          | .flush | .finalFlush => front.output
          | _ => w.flushed } :=
  Option.bind_eq_some_iff.mpr ⟨front, hs, Option.map_eq_some_iff.mpr ⟨file, hcall, rfl⟩⟩

/-- What has been given when the batch in hand is over. -/
theorem output_eq_taken {w : AsyncLogging} (h : AsyncLogging.Inv w)
    (hpc : w.pc = .flush ∨ w.pc = .finalFlush) :
    w.output = w.taken.flatMap AsyncLogging.batchRecords := by
  have hwr := h.written
  rcases hpc with hp | hp <;>
    rwa [AsyncLogging.WrittenOut, AsyncLogging.unwritten, hp, List.append_nil] at hwr

/-- **A step of the logging thread**: the call on `output` that it makes can be made. -/
theorem thread_step (hmono : LogFile.NeverBack clock) (hpos : ∀ k, 0 < clock k)
    (h : Inv clock w) {env : LogEnv}
    (hwhole : ∀ r ∈ w.front.gives, AppendFile.handed env.fwrite r.bytes = r.bytes)
    {front : AsyncLogging} (hs : w.front.step .thread = some front) :
    ∃ w', w.step clock rollSize (.thread, env) = some w' ∧ w'.front = front ∧ Inv clock w' := by
  have hfront : AsyncLogging.Inv front := AsyncLogging.inv_step (a := .thread) h.front trivial hs
  have hthread : w.front.threadStep = some front := by
    rw [AsyncLogging.step, h.front.shape.noFault, if_neg Bool.false_ne_true] at hs
    exact hs
  have hfiles := h.files
  have hflushed := h.flushed
  have hgiven := h.given
  cases AsyncLogging.threadStep_calls h.front hthread with
  | before hpc hpc' hout htaken =>
    have hcall : w.callOutput clock rollSize env = some w.file := by
      rcases hpc with hp | hp <;> rw [callOutput, hp]
    refine ⟨_, step_thread hs hcall, rfl, hfront, ?_, ?_, ?_⟩
    · have hnone : w.file = none ∧ w.front.output = [] := by
        rcases hpc with hp | hp <;> (rw [Files, hp] at hfiles; exact hfiles)
      rw [← hout] at hnone
      rcases hpc' with hp | hp <;> (rw [Files, hp]; exact hnone)
    · have hsame : front.settled = w.front.settled := by
        unfold AsyncLogging.settled
        rw [htaken]
        rcases hpc with hp | hp <;> rcases hpc' with hp' | hp' <;> rw [hp, hp']
      rw [hsame]
      rcases hpc with hp | hp <;> (rw [hp]; exact hflushed)
    · rw [hout]
      rcases hpc with hp | hp <;> (rw [hp]; exact hgiven)
  | opens hpc hpc' hout htaken =>
    have hcall : w.callOutput clock rollSize env
        = some (some (.create clock rollSize 3 1024 env.memory)) := by rw [callOutput, hpc]
    refine ⟨_, step_thread hs hcall, rfl, hfront, ?_, ?_, ?_⟩
    · rw [Files, hpc] at hfiles
      refine (Files.of_hasOutput (by rw [hpc']; trivial)).mpr ⟨_, rfl, ?_⟩
      rw [given, hout, hfiles.2]
      exact LogFile.create_inv hmono hpos (by decide)
    · rw [hpc]
      have hsame : front.settled = w.front.settled := by
        rw [AsyncLogging.settled, AsyncLogging.settled, htaken, hpc, hpc']
      rw [hsame]
      exact hflushed
    · rw [hpc, hout]
      exact hgiven
  | quiet hpc hnot hpc' hgives hout hsettled =>
    have hcall : w.callOutput clock rollSize env = some w.file := by
      unfold callOutput
      split <;> rename_i hp
      · rw [hp] at hpc
        exact hpc.elim
      all_goals first
        | rw [hgives]
        | rw [hp] at hnot
          exact absurd trivial hnot
        | rfl
    refine ⟨_, step_thread hs hcall, rfl, hfront, ?_, ?_, ?_⟩
    · obtain ⟨f, hf, hin⟩ := (Files.of_hasOutput hpc).mp hfiles
      refine (Files.of_hasOutput hpc').mpr ⟨f, hf, ?_⟩
      rw [given, hout]
      exact hin
    · rw [hsettled]
      dsimp only
      split <;> rename_i hp
      · exact absurd (by rw [hp]; trivial) hnot
      · exact absurd (by rw [hp]; trivial) hnot
      · exact hflushed
    · rw [hout]
      dsimp only
      split <;> rename_i hp
      · exact absurd (by rw [hp]; trivial) hnot
      · exact absurd (by rw [hp]; trivial) hnot
      · exact hgiven
  | @gives r hpc hgives i hpc' hout htaken =>
    have hin : HasOutput w.front.pc := by rcases hpc with hp | ⟨j, hp⟩ <;> (rw [hp]; trivial)
    obtain ⟨f, hf, hin⟩ := (Files.of_hasOutput hin).mp hfiles
    obtain ⟨outcome, f', happend, hin'⟩ := hin.append hmono hpos
      (a := ⟨r.bytes, env.fwrite, env.memory, env.writtenByte⟩) (hwhole r hgives)
    have hcall : w.callOutput clock rollSize env = some (some f') := by
      have hmade : append clock env r w.file = some f' := by
        rw [append, hf, Option.bind_some, happend, Option.map_some]
      rcases hpc with hp | ⟨j, hp⟩
      · rw [callOutput, hp]
        dsimp only
        rw [hgives]
        dsimp only
        rw [hmade, Option.map_some]
      · rw [callOutput, hp]
        dsimp only
        rw [hgives]
        dsimp only
        rw [hmade, Option.map_some]
    refine ⟨_, step_thread hs hcall, rfl, hfront, ?_, ?_, ?_⟩
    · refine (Files.of_hasOutput (by rw [hpc']; trivial)).mpr ⟨f', rfl, ?_⟩
      rw [given, hout, List.map_append]
      exact hin'
    · have hsame : front.settled = w.front.settled := by
        rcases hpc with hp | ⟨j, hp⟩
        · rw [AsyncLogging.settled, AsyncLogging.settled, htaken, hp, hpc']
        · rw [AsyncLogging.settled, AsyncLogging.settled, htaken, hp, hpc']
      rw [hsame]
      rcases hpc with hp | ⟨j, hp⟩
      · rw [hp]
        exact hflushed
      · rw [hp]
        exact hflushed
    · rw [hout]
      rcases hpc with hp | ⟨j, hp⟩
      · rw [hp]
        exact hgiven.trans (List.prefix_append _ _)
      · rw [hp]
        exact hgiven.trans (List.prefix_append _ _)
  | flushes hpc he =>
    obtain ⟨f, hf, hin⟩ := (Files.of_hasOutput (by rw [hpc]; trivial)).mp hfiles
    obtain ⟨f', hflush, hin'⟩ := hin.flush env.now
    have hcall : w.callOutput clock rollSize env = some (some f') := by
      rw [callOutput, hpc]
      dsimp only
      rw [hf, Option.bind_some, hflush, Option.map_some]
    refine ⟨_, step_thread hs hcall, rfl, hfront, ?_, ?_, ?_⟩
    · refine (Files.of_hasOutput (by rw [he]; trivial)).mpr ⟨f', rfl, ?_⟩
      rw [he]
      exact hin'
    · have hout := output_eq_taken h.front (.inl hpc)
      rw [hpc]
      dsimp only
      rw [he]
      exact hout
    · exact ⟨[], by rw [hpc, List.append_nil]⟩
  | ends hpc he =>
    obtain ⟨f, hf, hin⟩ := (Files.of_hasOutput (by rw [hpc]; trivial)).mp hfiles
    obtain ⟨f', hflush, hin'⟩ := hin.flush env.now
    have hcall : w.callOutput clock rollSize env = some (some f'.destroy) := by
      rw [callOutput, hpc]
      dsimp only
      rw [hf, Option.bind_some, hflush, Option.map_some]
    refine ⟨_, step_thread hs hcall, rfl, hfront, ?_, ?_, ?_⟩
    · rw [he]
      exact ⟨f', rfl, hin'⟩
    · have hout := output_eq_taken h.front (.inr hpc)
      rw [hpc]
      dsimp only
      rw [he]
      exact hout
    · exact ⟨[], by rw [hpc, List.append_nil]⟩

/-- The other threads make no call on `output`. -/
theorem other_step (h : Inv clock w) {a : AsyncLogging.Label} (hfit : w.front.LinesFit a)
    (ha : a ≠ .thread) {front : AsyncLogging} (hs : w.front.step a = some front) :
    Inv clock { w with front } := by
  have hfront := AsyncLogging.inv_step h.front hfit hs
  have hfiles := h.files
  have hflushed := h.flushed
  have hgiven := h.given
  unfold AsyncLogging.step at hs
  rw [h.front.shape.noFault, if_neg Bool.false_ne_true] at hs
  cases a with
  | thread => exact absurd rfl ha
  | append thread line =>
    dsimp only at hs
    obtain ⟨cur, next, bufs, he, -, -, -⟩ := AsyncLogging.append_spec h.front.shape hfit
    rw [he, Option.some.injEq] at hs
    rw [← hs] at hfront ⊢
    exact ⟨hfront, hfiles, hflushed, hgiven⟩
  | wake =>
    obtain ⟨hpc, hs⟩ := Option.ite_none_right_eq_some.mp hs
    cases hs
    cases AsyncLogging.callStep_swapOut h.front (.inr hpc) with
    | quiet hin hnot hin' hgives hout hsettled =>
      refine ⟨hfront, ?_, by rw [hsettled]; exact hflushed, by rw [hout]; exact hgiven⟩
      obtain ⟨f, hf, huse⟩ := (Files.of_hasOutput hin).mp hfiles
      refine (Files.of_hasOutput hin').mpr ⟨f, hf, ?_⟩
      rw [LogPipeline.given, hout]
      exact huse
    | before hp => rcases hp with hp | hp <;> cases hpc.symm.trans hp
    | opens hp => cases hpc.symm.trans hp
    | gives hp => rcases hp with hp | ⟨i, hp⟩ <;> cases hpc.symm.trans hp
    | flushes hp => cases hpc.symm.trans hp
    | ends hp => cases hpc.symm.trans hp
  | owner =>
    have hown := h.front.shape.owner
    unfold AsyncLogging.OwnerInv at hown
    cases ho : w.front.owner with
    | starting =>
      rw [ho] at hown
      rw [AsyncLogging.ownerStep, ho] at hs
      cases hs
      refine ⟨hfront, ?_, ?_, hgiven⟩
      · rw [Files, hown.2] at hfiles
        exact hfiles
      · rw [AsyncLogging.settled, hown.2] at hflushed
        exact hflushed
    | idle | started | stopping =>
      rw [AsyncLogging.ownerStep, ho] at hs
      cases hs
      exact ⟨hfront, hfiles, hflushed, hgiven⟩
    | waiting | joining =>
      rw [AsyncLogging.ownerStep, ho] at hs
      obtain ⟨-, hs⟩ := Option.ite_none_right_eq_some.mp hs
      cases hs
      exact ⟨hfront, hfiles, hflushed, hgiven⟩
    | stopped =>
      rw [AsyncLogging.ownerStep, ho] at hs
      cases hs

/-- A step of the front end is a step of the whole, and keeps the invariant. -/
theorem step_of_front (hmono : LogFile.NeverBack clock) (hpos : ∀ k, 0 < clock k)
    (h : Inv clock w) {a : AsyncLogging.Label × LogEnv} (hok : WritesFit w a)
    {front : AsyncLogging} (hs : w.front.step a.1 = some front) :
    ∃ w', w.step clock rollSize a = some w' ∧ Inv clock w' := by
  obtain ⟨a, env⟩ := a
  by_cases ha : a = .thread
  · rw [ha] at hs hok ⊢
    obtain ⟨w', hw', -, hinv⟩ := thread_step hmono hpos h hok.2 hs
    exact ⟨w', hw', hinv⟩
  · refine ⟨{ w with front }, ?_, other_step h hok.1 ha hs⟩
    cases a with
    | thread => exact absurd rfl ha
    | _ => exact congrArg (Option.map _) hs

theorem front_of_step {a : AsyncLogging.Label × LogEnv} (hs : w.step clock rollSize a = some w') :
    ∃ front, w.front.step a.1 = some front := by
  obtain ⟨a, env⟩ := a
  cases a with
  | thread =>
    obtain ⟨front, hfront, -⟩ := Option.bind_eq_some_iff.mp hs
    exact ⟨front, hfront⟩
  | _ =>
    obtain ⟨front, hfront, -⟩ := Option.map_eq_some_iff.mp hs
    exact ⟨front, hfront⟩

theorem inv_reachable (hmono : LogFile.NeverBack clock) (hpos : ∀ k, 0 < clock k)
    (h : Reachable (machine clock rollSize) WritesFit w) : Inv clock w := by
  refine h.invariant ?_ ?_
  · rintro _ rfl
    exact ⟨AsyncLogging.inv_init, ⟨rfl, rfl⟩, rfl, List.prefix_rfl⟩
  · intro w a w' _ hinv hok hs
    obtain ⟨front, hfront⟩ := front_of_step hs
    obtain ⟨w'', hw'', hinv'⟩ := step_of_front hmono hpos hinv hok hfront
    rwa [Option.some.inj (hs.symm.trans hw'')]

/-! ## The files over whole runs -/

/-- The files that there are, oldest first. -/
def files (w : LogPipeline) : List AppendFile := w.file.toList.flatMap LogFile.files

end LogPipeline

end Windz
