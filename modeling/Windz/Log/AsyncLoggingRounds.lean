import Windz.Lib.Trace
import Windz.Log.AsyncLoggingStop

/-!
# The logging thread goes round

The logging thread goes round from its test of `running_`; of one round every step leads to
a lower stage, so what is counted are the rounds to go. In `TimedWait` it is the end of the
wait that brings it on, which comes of itself after `flush_interval_`.
-/

namespace Windz

open Lib

namespace AsyncLogging

/-! ## Stages of a round -/

/-- The steps before the logging thread, those of a round counted down; `batch` is what it has to
write. -/
def stageOf (batch : Nat) : LogPc → Nat × Nat
  | .notStarted => (14, 0)
  | .entered => (13, 0)
  | .counting => (12, 0)
  | .setup => (11, 0)
  | .test => (10, 0)
  | .lock => (9, 0)
  | .wait => (8, 0)
  | .trim => (7, 0)
  | .write i => (6, batch - i)
  | .recycle => (5, 0)
  | .flush => (4, 0)
  | .finalFlush => (2, 0)
  | .finished => (1, 0)

/-- The stage of the logging thread, and the buffers it has still to write. -/
def stage (w : AsyncLogging) : Nat × Nat := stageOf w.buffersToWrite.length w.pc

theorem stage_lt (w : AsyncLogging) : w.stage.1 < 15 := by
  rw [stage]
  cases w.pc <;> exact Nat.lt_of_sub_pos (Nat.succ_pos _)

/-- Behind the loop. -/
def Left : LogPc → Prop
  | .finalFlush | .finished => True
  | _ => False

/-- At the test, or behind the loop. -/
def Leaving : LogPc → Prop
  | .test | .finalFlush | .finished => True
  | _ => False

/-- Behind the swap, with the test of the next round still to come. -/
def BehindSwap : LogPc → Prop
  | .trim | .write _ | .recycle | .flush => True
  | _ => False

/-- What a step from `pc` does to the latch. -/
def LatchStep (w : AsyncLogging) (pc : LogPc) (w' : AsyncLogging) : Prop :=
  pc = .counting ∧ w'.latched = true
    ∨ pc ≠ .notStarted ∧ pc ≠ .counting ∧ w'.latched = w.latched
      ∧ (pc = .entered → w'.pc = .counting)

/-- Before the latch is counted down. -/
def Early : LogPc → Prop
  | .notStarted | .entered | .counting => True
  | _ => False

theorem early_cases {pc : LogPc} (h : Early pc) :
    pc = .notStarted ∨ pc = .entered ∨ pc = .counting := by
  cases pc with
  | notStarted => exact .inl rfl
  | entered => exact .inr (.inl rfl)
  | counting => exact .inr (.inr rfl)
  | _ => exact h.elim

theorem LatchStep.other {w w' : AsyncLogging} {pc : LogPc} (h : ¬ Early pc)
    (hl : w'.latched = w.latched) : LatchStep w pc w' := by
  have hne : ∀ pc', Early pc' → pc ≠ pc' := fun pc' he hpc => h (by rw [hpc]; exact he)
  exact .inr ⟨hne _ trivial, hne _ trivial, hl, fun hpc => absurd hpc (hne _ trivial)⟩

/-- A step of the logging thread in one round. -/
structure Goes (w w' : AsyncLogging) : Prop where
  owner : w'.owner = w.owner
  running : w'.running = w.running
  lower : Nearer w'.stage w.stage
  /-- With `running_` cleared, the test is the last. -/
  leaving : w.running = false → Leaving w.pc → Leaving w'.pc
  left : Left w'.pc → w.running = false ∨ Left w.pc
  /-- The swap takes everything. -/
  swaps : BehindSwap w'.pc → BehindSwap w.pc ∨ w'.taken.flatten.flatten = w.lines
  latch : LatchStep w w.pc w'

theorem goes_swapOut {w : AsyncLogging} (h : Inv w) (hpc : BeforeSwap w) : Goes w w.swapOut := by
  have hsp : Fresh w.newBuffer2 ∧ w.buffersToWrite = [] := by
    have hsp := h.shape.spares
    rcases hpc with hp | hp <;> (rw [Spares, hp] at hsp; exact hsp.2)
  obtain ⟨next, new2, he, -, -⟩ := swapOut_spec h.shape hsp.1 hsp.2
  have htaken : w.swapOut.taken.flatten.flatten = w.lines := by
    rcases (batchStep_swapOut h hpc).batches with ⟨-, -, hstay⟩ | ⟨-, -, hall⟩
    · have hstill := hstay hpc
      rw [he] at hstill
      rcases hstill with hp | hp <;> cases hp
    · exact hall
  refine ⟨by rw [he], by rw [he], ?_, ?_, by rw [he]; exact False.elim, fun _ => .inr htaken, ?_⟩
  · rw [he]
    refine nearer_stage ?_
    rcases hpc with hp | hp <;> rw [stage, stage, hp]
    · exact (show 7 < 9 by decide)
    · exact (show 7 < 8 by decide)
  · intro _ hleaving
    rcases hpc with hp | hp <;> (rw [hp] at hleaving; exact hleaving.elim)
  · rw [he]
    rcases hpc with hp | hp
    · rw [hp]
      exact .other id rfl
    · rw [hp]
      exact .other id rfl

/-- To another place of the round, which is not behind the swap. -/
theorem Goes.to {w w' : AsyncLogging} {pc : LogPc} (hpc : w.pc = pc) (howner : w'.owner = w.owner)
    (hrun : w'.running = w.running)
    (hstage : Nearer w'.stage (stageOf w.buffersToWrite.length pc))
    (hleaving : w.running = false → Leaving pc → Leaving w'.pc)
    (hleft : Left w'.pc → w.running = false ∨ Left pc)
    (hbehind : BehindSwap w'.pc → BehindSwap pc) (hlatch : LatchStep w pc w') : Goes w w' := by
  refine ⟨howner, hrun, ?_, ?_, ?_, ?_, ?_⟩
  · have he : w.stage = stageOf w.buffersToWrite.length pc := by rw [stage, hpc]
    rw [he]
    exact hstage
  · rw [hpc]
    exact hleaving
  · rw [hpc]
    exact hleft
  · rw [hpc]
    exact fun h => .inl (hbehind h)
  · rw [hpc]
    exact hlatch

theorem threadStep_goes {w w' : AsyncLogging} (h : Inv w) (hs : w.threadStep = some w') :
    w.pc = .flush ∧ w' = { w with pc := .test } ∨ Goes w w' := by
  have hnot : ∀ {pc pc' : LogPc}, ¬ Leaving pc → w.running = false → Leaving pc → Leaving pc' :=
    fun hne _ hl => absurd hl hne
  cases hpc : w.pc with
  | notStarted | wait | finished => rw [threadStep, hpc] at hs; cases hs
  | entered =>
    rw [threadStep, hpc] at hs
    dsimp only at hs
    rw [if_pos (entered_running h.shape hpc), Option.some.injEq] at hs
    rw [← hs]
    exact .inr (.to hpc rfl rfl (nearer_stage (show 12 < 13 by decide)) (hnot id)
      False.elim False.elim (.inr ⟨LogPc.noConfusion, LogPc.noConfusion, rfl, fun _ => rfl⟩))
  | counting =>
    rw [threadStep, hpc] at hs
    cases hs
    exact .inr (.to hpc rfl rfl (nearer_stage (show 11 < 12 by decide)) (hnot id)
      False.elim False.elim (.inl ⟨rfl, rfl⟩))
  | setup =>
    rw [threadStep, hpc] at hs
    cases hs
    exact .inr (.to hpc rfl rfl (nearer_stage (show 10 < 11 by decide)) (hnot id)
      False.elim False.elim (.other id rfl))
  | test =>
    have hsp := h.shape.spares
    rw [Spares, hpc] at hsp
    have hasserts : w.loopAsserts = true := by
      rw [loopAsserts, hsp.1.length, hsp.2.1.length, hsp.2.2]
      decide
    rw [threadStep, hpc] at hs
    dsimp only at hs
    rw [if_pos hasserts, Option.some.injEq] at hs
    by_cases hrun : w.running = true
    · rw [if_pos hrun] at hs
      rw [← hs]
      exact .inr (.to hpc rfl rfl (nearer_stage (show 9 < 10 by decide))
        (fun hstop => Bool.noConfusion (hrun.symm.trans hstop)) False.elim False.elim
        (.other id rfl))
    · rw [if_neg hrun] at hs
      rw [← hs]
      exact .inr (.to hpc rfl rfl (nearer_stage (show 2 < 10 by decide))
        (fun _ _ => trivial) (fun _ => .inl (Bool.not_eq_true _ ▸ hrun)) False.elim
        (.other id rfl))
  | lock =>
    rw [threadStep, hpc] at hs
    dsimp only at hs
    rw [Option.some.injEq] at hs
    rw [← hs]
    split
    · exact .inr (.to hpc rfl rfl (nearer_stage (show 8 < 9 by decide)) (hnot id)
        False.elim False.elim (.other id rfl))
    · exact .inr (goes_swapOut h (.inl hpc))
  | trim =>
    rw [threadStep, hpc] at hs
    dsimp only at hs
    rw [if_neg (inv_trim h hpc).1, Option.some.injEq] at hs
    rw [← hs]
    obtain ⟨out, bs, he, -, -, -⟩ := trim_frame w
    rw [he]
    exact .inr (.to hpc rfl rfl (nearer_stage (show 6 < 7 by decide)) (hnot id)
      False.elim (fun _ => trivial) (.other id rfl))
  | write i =>
    rw [threadStep, hpc] at hs
    dsimp only at hs
    split at hs
    · rename_i b hb
      rw [Option.some.injEq] at hs
      rw [← hs]
      obtain ⟨hi, -⟩ := List.getElem?_eq_some_iff.mp hb
      exact .inr (.to hpc rfl rfl (nearer_left rfl (Nat.sub_succ_lt_self _ _ hi))
        (hnot id) False.elim (fun _ => trivial) (.other id rfl))
    · rename_i hb
      obtain ⟨b, hb'⟩ := h.shape.batch _ (List.mem_of_getElem? hb)
      cases hb'
    · cases hs
      exact .inr (.to hpc rfl rfl (nearer_stage (show 5 < 6 by decide))
        (hnot id) False.elim (fun _ => trivial) (.other id rfl))
  | recycle =>
    have hsp := h.shape.spares
    rw [Spares, hpc] at hsp
    obtain ⟨new1, new2, he, -, -⟩ := recycle_spec hsp.1 hsp.2.1 hsp.2.2 h.shape.batch
    rw [threadStep, hpc] at hs
    dsimp only at hs
    rw [Option.some.injEq, he] at hs
    rw [← hs]
    exact .inr (.to hpc rfl rfl (nearer_stage (show 4 < 5 by decide)) (hnot id)
      False.elim (fun _ => trivial) (.other id rfl))
  | flush =>
    rw [threadStep, hpc] at hs
    cases hs
    exact .inl ⟨rfl, rfl⟩
  | finalFlush =>
    rw [threadStep, hpc] at hs
    cases hs
    exact .inr (.to hpc rfl rfl (nearer_stage (show 1 < 2 by decide))
      (fun _ _ => trivial) (fun _ => .inr trivial) False.elim (.other id rfl))

/-! ## Parties -/

/-- Who takes a step: the logging thread, what wakes it from its wait, or the owner. -/
inductive Party where
  | thread
  | waker
  | owner
deriving DecidableEq

/-- The steps of each. -/
def does : Party → Label → Prop
  | .thread, .thread | .waker, .wake | .owner, .owner => True
  | _, _ => False

/-- The owning thread is not made to wait. -/
def OwnerFree (w : AsyncLogging) : Prop :=
  match w.owner with
  | .idle | .started | .stopped => False
  | .starting | .stopping => True
  | .waiting => w.latched = true
  | .joining => w.pc = .finished

/-- What is asked of those who take part: the logging thread goes on, `TimedWait` ends, and the
owning thread goes on in a call of `Start` or `Stop` when nothing makes it wait. -/
structure Fair (s : Nat → AsyncLogging) (a : Nat → Label) : Prop where
  thread : ∀ n, (s n).pc ≠ .notStarted → (s n).pc ≠ .wait → (s n).pc ≠ .finished →
    ∃ m, n ≤ m ∧ does .thread (a m)
  wait : ∀ n, (s n).pc = .wait → ∃ m, n ≤ m ∧ does .waker (a m)
  owner : ∀ n, OwnerFree (s n) → ∃ m, n ≤ m ∧ does .owner (a m)

/-- What any step does to the round. -/
inductive RoundStep (w : AsyncLogging) (a : Label) (w' : AsyncLogging) : Prop where
  | appends (he : ∃ cur next bufs lines, w' = { w with
      currentBuffer := cur, nextBuffer := next, buffers := bufs, lines := lines })
      (ha : ∀ p, ¬ does p a)
  | ends (ha : a = .thread) (hpc : w.pc = .flush) (he : w' = { w with pc := .test })
  | goes (ha : a = .thread ∨ a = .wake) (h : Goes w w')
  | owner (ha : a = .owner) (hs : w.ownerStep = some w')

theorem step_round {w w' : AsyncLogging} {a : Label} (h : Inv w) (hfit : LinesFit w a)
    (hs : w.step a = some w') : RoundStep w a w' := by
  unfold step at hs
  rw [h.shape.noFault, if_neg Bool.false_ne_true] at hs
  cases a with
  | append thread line =>
    dsimp only at hs
    obtain ⟨cur, next, bufs, he, -, -, -⟩ := append_spec h.shape hfit
    rw [he, Option.some.injEq] at hs
    exact .appends ⟨_, _, _, _, hs.symm⟩ (fun p => by cases p <;> exact id)
  | thread =>
    rcases threadStep_goes h hs with ⟨hpc, he⟩ | hgoes
    · exact .ends rfl hpc he
    · exact .goes (.inl rfl) hgoes
  | wake =>
    obtain ⟨hpc, hs⟩ := Option.ite_none_right_eq_some.mp hs
    cases hs
    exact .goes (.inr rfl) (goes_swapOut h (.inr hpc))
  | owner => exact .owner rfl hs

/-! ## Rounds -/

/-- Who brings the logging thread on. -/
def helpsThread (w : AsyncLogging) : Party :=
  match w.pc with
  | .notStarted => .owner
  | .wait => .waker
  | _ => .thread

/-- The stage, the rounds that come after this one, and steps that are counted apart. -/
def ranking (rounds steps : AsyncLogging → Nat) (helpful : AsyncLogging → Party) :
    Ranking AsyncLogging Label Party (Nat × Nat) where
  rank := fun w => (20 * rounds w + w.stage.1 + steps w, w.stage.2)
  lt := Nearer
  wf := nearer_wf
  helpful := helpful
  does := does

variable {rounds steps : AsyncLogging → Nat} {helpful : AsyncLogging → Party}
  {w w' : AsyncLogging} {a : Label}

theorem nears_lower (hrounds : rounds w' ≤ rounds w) (hsteps : steps w' ≤ steps w)
    (h : Nearer w'.stage w.stage) : (ranking rounds steps helpful).Nears w a w' := by
  refine .inl ?_
  have hmax := stage_lt w'
  rcases nearer_cases h with hlt | ⟨hsame, hlt⟩
  · refine nearer_stage ?_
    show 20 * rounds w' + w'.stage.1 + steps w' < 20 * rounds w + w.stage.1 + steps w
    omega
  · by_cases heq : rounds w' = rounds w ∧ steps w' = steps w
    · refine nearer_left ?_ hlt
      show 20 * rounds w' + w'.stage.1 + steps w' = 20 * rounds w + w.stage.1 + steps w
      rw [heq.1, heq.2, hsame]
    · refine nearer_stage ?_
      show 20 * rounds w' + w'.stage.1 + steps w' < 20 * rounds w + w.stage.1 + steps w
      omega

theorem nears_ends (hrounds : rounds w' < rounds w) (hsteps : steps w' ≤ steps w)
    (hpc : w.pc = .flush) (h : w' = { w with pc := .test }) :
    (ranking rounds steps helpful).Nears w a w' := by
  refine .inl (nearer_stage ?_)
  show 20 * rounds w' + w'.stage.1 + steps w' < 20 * rounds w + w.stage.1 + steps w
  have hfrom : w.stage.1 = 4 := by
    rw [stage, hpc]
    rfl
  have hto : w'.stage.1 = 10 := by
    rw [h]
    rfl
  omega

/-- A step that leaves the logging thread where it is. -/
theorem nears_same (hrounds : rounds w' ≤ rounds w) (hsteps : steps w' ≤ steps w)
    (hstage : w'.stage = w.stage) (hhelp : helpful w' = helpful w) (h : ¬ does (helpful w) a) :
    (ranking rounds steps helpful).Nears w a w' := by
  by_cases heq : rounds w' = rounds w ∧ steps w' = steps w
  · refine .inr ⟨?_, hhelp, h⟩
    show (20 * rounds w' + w'.stage.1 + steps w', w'.stage.2)
      = (20 * rounds w + w.stage.1 + steps w, w.stage.2)
    rw [heq.1, heq.2, hstage]
  · refine .inl (nearer_stage ?_)
    show 20 * rounds w' + w'.stage.1 + steps w' < 20 * rounds w + w.stage.1 + steps w
    rw [hstage]
    omega

theorem Fair.helpsThread {s : Nat → AsyncLogging} {b : Nat → Label} (hf : Fair s b) {n : Nat}
    (hstart : (s n).pc = .notStarted → OwnerFree (s n)) (hpc : (s n).pc ≠ .finished) :
    ∃ m, n ≤ m ∧ does (helpsThread (s n)) (b m) := by
  by_cases hnot : (s n).pc = .notStarted
  · have he : AsyncLogging.helpsThread (s n) = .owner := by rw [AsyncLogging.helpsThread, hnot]
    rw [he]
    exact hf.owner n (hstart hnot)
  by_cases hwait : (s n).pc = .wait
  · have he : AsyncLogging.helpsThread (s n) = .waker := by rw [AsyncLogging.helpsThread, hwait]
    rw [he]
    exact hf.wait n hwait
  · have he : AsyncLogging.helpsThread (s n) = .thread := by
      unfold AsyncLogging.helpsThread
      split
      · rename_i h
        exact absurd h hnot
      · rename_i h
        exact absurd h hwait
      · rfl
    rw [he]
    exact hf.thread n hnot hwait hpc

end AsyncLogging

end Windz
