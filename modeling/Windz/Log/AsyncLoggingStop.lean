import Windz.Log.AsyncLoggingProof

/-!
# What `Stop` leaves behind

`ThreadFunc` tests `running_` before each batch and flushes the file when the loop
ends, but takes no last batch. So the lines appended before `Stop` reach the file
only if the logging thread has passed its test and not yet taken the mutex for
the swap, where the batch it is about to take holds them all, or if there are
none behind the last batch. In every other position the thread comes back to the
test, finds `running_` cleared and leaves with what is in `buffers_` and the
current buffer unwritten.
-/

namespace Windz

open Lib

namespace AsyncLogging

/-- The logging thread is between its test of `running_` and the swap. -/
def BeforeSwap (w : AsyncLogging) : Prop := w.pc = .lock ∨ w.pc = .wait

instance (w : AsyncLogging) : Decidable (BeforeSwap w) := inferInstanceAs (Decidable (_ ∨ _))

/-- The lines `ls` are all in batches swapped out, and each of these batches is in the file, whole
or the way a batch of more than 25 buffers is. -/
def Delivered (ls : List Line) (w : AsyncLogging) : Prop :=
  ls <+: w.taken.flatten.flatten ∧ w.output = w.taken.flatMap batchRecords

instance (ls : List Line) (w : AsyncLogging) : Decidable (Delivered ls w) :=
  inferInstanceAs (Decidable (_ ∧ _))

/-! ## Batches along a run -/

/-- `Stop` has been called. -/
def Stopping (w : AsyncLogging) : Prop :=
  w.owner = .stopping ∨ w.owner = .joining ∨ w.owner = .stopped

theorem Stopping.running {w : AsyncLogging} (h : Stopping w) (hs : Shape w) : w.running = false := by
  have ho := hs.owner
  unfold OwnerInv at ho
  rcases h with h | h | h <;> (rw [h] at ho; exact ho.1)

/-- What a step does to the lines and the batches. -/
structure BatchStep (w w' : AsyncLogging) : Prop where
  /-- Lines are only added, at the end. -/
  lines : w.lines <+: w'.lines
  /-- Only the owning thread goes on in `Start` and `Stop`. -/
  owner : w'.owner = w.owner ∨ w.ownerStep = some w'
  /-- No batch is taken, and the thread comes in front of the swap only through its test of
  `running_` and stays there; or the swap takes everything pending. -/
  batches : (w'.taken = w.taken ∧ (BeforeSwap w' → BeforeSwap w ∨ w.running = true)
      ∧ (BeforeSwap w → BeforeSwap w'))
    ∨ (BeforeSwap w ∧ w.taken.flatten.flatten <+: w'.taken.flatten.flatten
      ∧ w'.taken.flatten.flatten = w.lines)

/-- A step that takes no batch and does not move the logging thread. -/
theorem BatchStep.same {w w' : AsyncLogging} (hl : w.lines <+: w'.lines)
    (ho : w'.owner = w.owner ∨ w.ownerStep = some w') (ht : w'.taken = w.taken)
    (hpc : w'.pc = w.pc) :
    BatchStep w w' := by
  refine ⟨hl, ho, .inl ⟨ht, fun h => .inl ?_, fun h => ?_⟩⟩
  · unfold BeforeSwap at h ⊢; rwa [hpc] at h
  · unfold BeforeSwap at h ⊢; rwa [hpc]

/-- A step of the logging thread that takes no batch, from one place away from the swap to
another. -/
theorem BatchStep.away {w w' : AsyncLogging} {pc : LogPc} (hl : w'.lines = w.lines)
    (ho : w'.owner = w.owner) (ht : w'.taken = w.taken) (hpc : w.pc = pc)
    (hne : pc ≠ .lock ∧ pc ≠ .wait) (hne' : w.running = false → w'.pc ≠ .lock ∧ w'.pc ≠ .wait) :
    BatchStep w w' := by
  have haway : ¬ BeforeSwap w := by
    rw [BeforeSwap, hpc]
    exact not_or.mpr hne
  refine ⟨hl ▸ List.prefix_rfl, .inl ho, .inl ⟨ht, fun h => ?_, fun h => absurd h haway⟩⟩
  · cases hr : w.running with
    | true => exact .inr rfl
    | false => exact absurd h (not_or.mpr (hne' hr))

theorem batchStep_swapOut {w : AsyncLogging} (h : Inv w) (hw : BeforeSwap w) :
    BatchStep w w.swapOut := by
  have hsp : Fresh w.newBuffer1 ∧ Fresh w.newBuffer2 ∧ w.buffersToWrite = [] := by
    have := h.shape.spares
    rcases hw with hp | hp <;> (rw [Spares, hp] at this; exact this)
  have hlines := swapOut_accounted h.shape h.accounted hsp.1 hsp.2.1 hsp.2.2
  obtain ⟨next, new2, he, _, _⟩ := swapOut_spec h.shape hsp.2.1 hsp.2.2
  obtain ⟨b, hb, hempty⟩ := hsp.1
  rw [he] at hlines ⊢
  refine ⟨List.prefix_rfl, .inl rfl, .inr ⟨hw, ?_, ?_⟩⟩
  · rw [List.flatten_append, List.flatten_append]
    exact List.prefix_append _ _
  · -- the buffer put in place of the current one is empty, so nothing is pending
    rw [Accounted, pending, hb, BufferPtr_lines_some, hempty, List.map_nil, List.flatten_nil,
      List.append_nil, List.append_nil] at hlines
    exact hlines.symm

theorem batchStep_threadStep {w w' : AsyncLogging} (h : Inv w) (hs : w.threadStep = some w') :
    BatchStep w w' := by
  have hnc : ∀ {pc : LogPc}, pc ≠ .lock ∧ pc ≠ .wait → w.running = false →
      pc ≠ .lock ∧ pc ≠ .wait := fun h _ => h
  cases hpc : w.pc with
  | entered =>
    rw [threadStep, hpc] at hs
    dsimp only at hs
    rw [if_pos (entered_running h.shape hpc), Option.some.injEq] at hs
    subst hs
    exact .away rfl rfl rfl hpc ⟨LogPc.noConfusion, LogPc.noConfusion⟩
      (hnc ⟨LogPc.noConfusion, LogPc.noConfusion⟩)
  | test =>
    have hsp := h.shape.spares
    rw [Spares, hpc] at hsp
    have hasserts : w.loopAsserts = true := by
      rw [loopAsserts, hsp.1.length, hsp.2.1.length, hsp.2.2]; decide
    rw [threadStep, hpc] at hs
    dsimp only at hs
    rw [if_pos hasserts, Option.some.injEq] at hs
    subst hs
    split
    · rename_i hrun
      exact .away rfl rfl rfl hpc ⟨LogPc.noConfusion, LogPc.noConfusion⟩
        fun hr => absurd (hr.symm.trans hrun) Bool.false_ne_true
    · exact .away rfl rfl rfl hpc ⟨LogPc.noConfusion, LogPc.noConfusion⟩
        (hnc ⟨LogPc.noConfusion, LogPc.noConfusion⟩)
  | lock =>
    rw [threadStep, hpc] at hs
    dsimp only at hs
    rw [Option.some.injEq] at hs
    subst hs
    split
    · exact ⟨List.prefix_rfl, .inl rfl,
        .inl ⟨rfl, fun _ => .inl (.inl hpc), fun _ => .inr rfl⟩⟩
    · exact batchStep_swapOut h (.inl hpc)
  | trim =>
    rw [threadStep, hpc] at hs
    dsimp only at hs
    rw [if_neg (inv_trim h hpc).1, Option.some.injEq] at hs
    subst hs
    obtain ⟨out, bs, he, _, _, _⟩ := trim_frame w
    rw [he]
    exact .away rfl rfl rfl hpc ⟨LogPc.noConfusion, LogPc.noConfusion⟩
      (hnc ⟨LogPc.noConfusion, LogPc.noConfusion⟩)
  | write i =>
    rw [threadStep, hpc] at hs
    dsimp only at hs
    split at hs
    · rw [Option.some.injEq] at hs
      subst hs
      exact .away rfl rfl rfl hpc ⟨LogPc.noConfusion, LogPc.noConfusion⟩
        (hnc ⟨LogPc.noConfusion, LogPc.noConfusion⟩)
    · rw [Option.some.injEq] at hs
      subst hs
      exact .same List.prefix_rfl (.inl rfl) rfl rfl
    · rw [Option.some.injEq] at hs
      subst hs
      exact .away rfl rfl rfl hpc ⟨LogPc.noConfusion, LogPc.noConfusion⟩
        (hnc ⟨LogPc.noConfusion, LogPc.noConfusion⟩)
  | recycle =>
    rw [threadStep, hpc] at hs
    dsimp only at hs
    have hsp := h.shape.spares
    rw [Spares, hpc] at hsp
    obtain ⟨new1, new2, he, _, _⟩ := recycle_spec hsp.1 hsp.2.1 hsp.2.2 h.shape.batch
    rw [Option.some.injEq, he] at hs
    subst hs
    exact .away rfl rfl rfl hpc ⟨LogPc.noConfusion, LogPc.noConfusion⟩
      (hnc ⟨LogPc.noConfusion, LogPc.noConfusion⟩)
  | counting | setup | flush | finalFlush =>
    rw [threadStep, hpc] at hs
    dsimp only at hs
    rw [Option.some.injEq] at hs
    subst hs
    exact .away rfl rfl rfl hpc ⟨LogPc.noConfusion, LogPc.noConfusion⟩
      (hnc ⟨LogPc.noConfusion, LogPc.noConfusion⟩)
  | notStarted | wait | finished => rw [threadStep, hpc] at hs; exact absurd hs (by simp)

theorem batchStep_ownerStep {w w' : AsyncLogging} (h : Inv w) (hs : w.ownerStep = some w') :
    BatchStep w w' := by
  have ho : w'.owner = w.owner ∨ w.ownerStep = some w' := .inr hs
  cases hw : w.owner with
  | starting =>
    have hinv := h.shape.owner
    rw [OwnerInv, hw] at hinv
    rw [ownerStep, hw] at hs
    dsimp only at hs
    rw [Option.some.injEq] at hs
    subst hs
    refine ⟨List.prefix_rfl, ho, .inl ⟨rfl, ?_, ?_⟩⟩
    · rintro (h | h) <;> exact LogPc.noConfusion h
    · rintro (h | h) <;> (rw [hinv.2] at h; exact LogPc.noConfusion h)
  | idle | started | stopping =>
    rw [ownerStep, hw] at hs
    dsimp only at hs
    rw [Option.some.injEq] at hs
    subst hs
    exact .same List.prefix_rfl ho rfl rfl
  | waiting | joining =>
    rw [ownerStep, hw] at hs
    dsimp only at hs
    split at hs
    · rw [Option.some.injEq] at hs
      subst hs
      exact .same List.prefix_rfl ho rfl rfl
    · exact absurd hs (by simp)
  | stopped => rw [ownerStep, hw] at hs; exact absurd hs (by simp)

theorem batchStep_step {w w' : AsyncLogging} {a : Label} (h : Inv w) (hfit : LinesFit w a)
    (hs : w.step a = some w') : BatchStep w w' := by
  unfold step at hs
  rw [h.shape.noFault, if_neg Bool.false_ne_true] at hs
  cases a with
  | append thread line =>
    dsimp only at hs
    obtain ⟨cur, next, bufs, he, _, _, _⟩ := append_spec h.shape hfit
    rw [he, Option.some.injEq] at hs
    subst hs
    exact .same (List.prefix_append _ _) (.inl rfl) rfl rfl
  | thread => exact batchStep_threadStep h hs
  | wake =>
    dsimp only [wakeStep] at hs
    split at hs
    · rename_i hpc
      rw [Option.some.injEq] at hs
      subst hs
      exact batchStep_swapOut h (.inr hpc)
    · exact absurd hs (by simp)
  | owner => exact batchStep_ownerStep h hs

/-! ## From the call of `Stop` to its return -/

/-- Behind the test of `running_`, the next batch takes the lines of `ls` with it. -/
def Carried (ls : List Line) (w : AsyncLogging) : Prop :=
  ls <+: w.taken.flatten.flatten ∨ (BeforeSwap w ∧ ls <+: w.lines)

theorem carried_step {ls : List Line} {w w' : AsyncLogging} (h : BatchStep w w')
    (hc : Carried ls w) : Carried ls w' := by
  rcases h.batches with ⟨ht, _, hstay⟩ | ⟨_, htaken, hall⟩
  · rcases hc with hc | ⟨hb, hc⟩
    · exact .inl (by rwa [ht])
    · exact .inr ⟨hstay hb, hc.trans h.lines⟩
  · rcases hc with hc | ⟨_, hc⟩
    · exact .inl (hc.trans htaken)
    · exact .inl (by rwa [hall])

/-- Once `running_` is cleared, a thread away from the swap takes no further batch. -/
theorem no_batch_step {w w' : AsyncLogging} (h : BatchStep w w') (hr : w.running = false)
    (hw : ¬ BeforeSwap w) : w'.taken = w.taken ∧ ¬ BeforeSwap w' := by
  rcases h.batches with ⟨ht, henter, _⟩ | ⟨hb, _, _⟩
  · refine ⟨ht, fun hw' => ?_⟩
    rcases henter hw' with hb | hrun
    · exact hw hb
    · exact Bool.false_ne_true (hr.symm.trans hrun)
  · exact absurd hb hw

theorem stopping_step {w w' : AsyncLogging} (h : BatchStep w w') (hw : Stopping w) :
    Stopping w' := by
  rcases h.owner with ho | ho
  · unfold Stopping at hw ⊢
    rwa [ho]
  · rcases hw with hw | hw | hw
    · rw [ownerStep, hw] at ho
      exact .inr (.inl (by rw [← Option.some.inj ho]))
    · rw [ownerStep, hw] at ho
      dsimp only at ho
      split at ho
      · exact .inr (.inr (by rw [← Option.some.inj ho]))
      · exact absurd ho (by simp)
    · rw [ownerStep, hw] at ho
      exact absurd ho (by simp)

/-- `Stop` returns from the join only when the logging thread has left. -/
theorem stopped_finished {w : AsyncLogging} (h : Reachable machine LinesFit w) :
    w.owner = .stopped → w.pc = .finished := by
  refine h.invariant (I := fun w => w.owner = .stopped → w.pc = .finished) ?_ ?_
  · rintro _ rfl hend
    exact OwnerPc.noConfusion hend
  · intro w a w' hr ih hfit hs hend
    change w.step a = some w' at hs
    rcases (batchStep_step (inv_reachable hr) hfit hs).owner with ho | ho
    · have hpc := ih (ho.symm.trans hend)
      unfold step at hs
      rw [(inv_reachable hr).shape.noFault, if_neg Bool.false_ne_true] at hs
      cases a with
      | append thread line =>
        dsimp only at hs
        obtain ⟨cur, next, bufs, he, _, _, _⟩ := append_spec (inv_reachable hr).shape hfit
        rw [he, Option.some.injEq] at hs
        subst hs
        exact hpc
      | thread =>
        dsimp only at hs
        rw [threadStep, hpc] at hs
        exact absurd hs (by simp)
      | wake =>
        dsimp only at hs
        rw [wakeStep, hpc] at hs
        exact absurd hs (by simp)
      | owner =>
        dsimp only at hs
        rw [ownerStep, ho.symm.trans hend] at hs
        exact absurd hs (by simp)
    · cases hw : w.owner with
      | joining =>
        rw [ownerStep, hw] at ho
        obtain ⟨hpc, ho⟩ := Option.ite_none_right_eq_some.mp ho
        rw [← Option.some.inj ho]
        exact hpc
      | waiting =>
        rw [ownerStep, hw] at ho
        dsimp only at ho
        split at ho
        · rw [← Option.some.inj ho] at hend
          exact OwnerPc.noConfusion hend
        · exact absurd ho (by simp)
      | idle | starting | started | stopping =>
        rw [ownerStep, hw] at ho
        rw [← Option.some.inj ho] at hend
        exact OwnerPc.noConfusion hend
      | stopped => rw [ownerStep, hw] at ho; exact absurd ho (by simp)

/-- **What `Stop` needs to deliver.** From the state `w` in which `Stop` is called to a state `w'`
in which it has returned, the lines appended before the call have all come to the file if and
only if the logging thread was in front of the swap at the call, or nothing was pending. -/
theorem stop_delivers_iff {w v w' : AsyncLogging} {as : List Label}
    (hw : Reachable machine LinesFit w) (hcall : w.owner = .started)
    (hstop : machine.step w .owner = some v) (hrun : Run machine LinesFit v as w')
    (hret : w'.owner = .stopped) :
    Delivered w.lines w' ↔ BeforeSwap w ∨ w.pending = [] := by
  have hv : Reachable machine LinesFit v :=
    .tail hw (show LinesFit w .owner from trivial) hstop
  have hw' : Reachable machine LinesFit w' := hv.run hrun
  have hinv := inv_reachable hw
  have hpc := stopped_finished hw' hret
  have hwritten : w'.output = w'.taken.flatMap batchRecords := by
    have hwr := (inv_reachable hw').written
    rwa [WrittenOut, unwritten, hpc, List.append_nil] at hwr
  have haway : ¬ BeforeSwap w' := by
    rw [BeforeSwap, hpc]
    rintro (h | h) <;> exact LogPc.noConfusion h
  -- `Stop` clears the flag and moves nothing
  have hv' : v = { w with running := false, owner := .stopping } := by
    change w.step .owner = some v at hstop
    rw [step, hinv.shape.noFault, if_neg Bool.false_ne_true] at hstop
    rw [ownerStep, hcall] at hstop
    exact (Option.some.inj hstop).symm
  by_cases hbefore : BeforeSwap w
  · refine iff_of_true ⟨?_, hwritten⟩ (.inl hbefore)
    have hstart : Carried w.lines v := by
      rw [hv']
      exact .inr ⟨hbefore, List.prefix_rfl⟩
    have hend : Inv w' ∧ Carried w.lines w' := by
      refine hrun.invariant (I := fun u => Inv u ∧ Carried w.lines u)
        ⟨inv_reachable hv, hstart⟩ ?_
      rintro u a u' ⟨hi, hc⟩ hfit hs
      exact ⟨inv_step hi hfit hs, carried_step (batchStep_step hi hfit hs) hc⟩
    rcases hend.2 with hc | ⟨hb, _⟩
    · exact hc
    · exact absurd hb haway
  · have hstart : Stopping v ∧ v.taken = w.taken ∧ ¬ BeforeSwap v := by
      rw [hv']
      exact ⟨.inl rfl, rfl, hbefore⟩
    have hend : Inv w' ∧ Stopping w' ∧ w'.taken = w.taken ∧ ¬ BeforeSwap w' := by
      refine hrun.invariant
        (I := fun u => Inv u ∧ Stopping u ∧ u.taken = w.taken ∧ ¬ BeforeSwap u)
        ⟨inv_reachable hv, hstart⟩ ?_
      rintro u a u' ⟨hi, hst, ht, hb⟩ hfit hs
      have hbs := batchStep_step hi hfit hs
      obtain ⟨ht', hb'⟩ := no_batch_step hbs (hst.running hi.shape) hb
      exact ⟨inv_step hi hfit hs, stopping_step hbs hst, ht'.trans ht, hb'⟩
    -- no batch was taken since the call, so what was pending stays where it is
    constructor
    · rintro ⟨hpre, _⟩
      rw [hend.2.2.1, hinv.accounted] at hpre
      refine .inr (List.eq_nil_of_length_eq_zero ?_)
      have := hpre.length_le
      rw [List.length_append] at this
      omega
    · rintro (h | h)
      · exact absurd h hbefore
      · have hall : w'.taken.flatten.flatten = w.lines := by
          rw [hend.2.2.1, hinv.accounted, h, List.append_nil]
        exact ⟨hall ▸ List.prefix_rfl, hwritten⟩

/-- A line appended while the thread waits is written before `Stop` returns. -/
theorem stop_delivers_iff_waiting : ∃ w w', Reachable machine LinesFit w ∧ w.pending = [[97]]
    ∧ w'.owner = .stopped ∧ w'.output = [.data [97]]
    ∧ (Delivered w.lines w' ↔ BeforeSwap w ∨ w.pending = []) := by
  have hexec : (machine.exec LinesFit create
      [.owner, .owner, .thread, .thread, .owner, .thread, .thread, .thread, .append 1 [97]]).any
        (fun w => (machine.step w .owner).any fun v => (machine.exec LinesFit v
          [.wake, .owner, .thread, .thread, .thread, .thread, .thread, .thread, .thread, .owner]).any
            fun w' => w.pending = [[97]] ∧ w.owner = .started ∧ w'.owner = .stopped
              ∧ w'.output = [.data [97]]) = true := by decide +kernel
  obtain ⟨w, hw, hexec⟩ := (Option.any_eq_true _ _).mp hexec
  obtain ⟨v, hv, hexec⟩ := (Option.any_eq_true _ _).mp hexec
  obtain ⟨w', hw', hp⟩ := (Option.any_eq_true _ _).mp hexec
  obtain ⟨hpend, hcall, hret, hout⟩ := of_decide_eq_true hp
  have hreach : Reachable machine LinesFit w := (Reachable.init rfl).run (Machine.exec_run _ hw)
  exact ⟨w, w', hreach, hpend, hret, hout,
    stop_delivers_iff hreach hcall hv (Machine.exec_run _ hw') hret⟩

/-- A line appended before the thread has come to the test is lost. -/
theorem stop_loses_line : ¬ ∀ (w v w' : AsyncLogging) (as : List Label),
    Reachable machine LinesFit w → w.owner = .started → machine.step w .owner = some v →
    Run machine LinesFit v as w' → w'.owner = .stopped → Delivered w.lines w' := by
  intro hall
  have hexec : (machine.exec LinesFit create
      [.owner, .owner, .thread, .thread, .owner, .append 1 [97]]).any
        (fun w => (machine.step w .owner).any fun v => (machine.exec LinesFit v
          [.thread, .thread, .owner, .thread, .owner]).any
            fun w' => w.owner = .started ∧ w'.owner = .stopped ∧ ¬ Delivered w.lines w')
        = true := by decide +kernel
  obtain ⟨w, hw, hexec⟩ := (Option.any_eq_true _ _).mp hexec
  obtain ⟨v, hv, hexec⟩ := (Option.any_eq_true _ _).mp hexec
  obtain ⟨w', hw', hp⟩ := (Option.any_eq_true _ _).mp hexec
  obtain ⟨hcall, hret, hlost⟩ := of_decide_eq_true hp
  exact hlost (hall w v w' _ ((Reachable.init rfl).run (Machine.exec_run _ hw)) hcall hv
    (Machine.exec_run _ hw') hret)

end AsyncLogging

end Windz
