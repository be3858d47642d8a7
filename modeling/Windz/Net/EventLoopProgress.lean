import Mathlib.Tactic.IntervalCases
import Windz.Lib.Trace
import Windz.Net.EventLoopProof

/-!
# The loop goes on

What a loop left to itself comes to. Nothing is assumed of the timeout of `epoll_wait`: that
the loop thread does not sit in it for ever is due to the wake-ups alone. Each place of the
loop has a stage, and a step of the loop thread that does not end a round goes on to a lower
one; in `epoll_wait` with nothing to read, a thread that has its `WakeUp` before it is what
brings the loop on.
-/

namespace Windz

open Lib

namespace EventLoop

/-! ## Stages of a round -/

/-- The stage of the loop thread in its round, and what is left to do in that stage. -/
def stageOf (wakeupFd : Nat) : LoopPc → Nat × Nat
  | .outside => (0, 0)
  | .check => (18, 0)
  | .poll => (16, 0)
  | .waiting _ => (if wakeupFd = 0 then 15 else 14, 0)
  | .handling active => (12, 2 * active.length)
  | .inHandler active => (12, 2 * active.length + 1)
  | .expiring => (10, 0)
  | .calling => (8, 0)
  | .sizing => (6, 0)
  | .popping left => (4, 2 * left)
  | .inFunctor left => (4, 2 * left + 1)

/-- How far the loop thread is from the end of a round. -/
def stage (w : EventLoop) : Nat × Nat := stageOf w.wakeupFd w.pc

/-- Who has to go on. -/
inductive Party where
  | loop
  | waker
deriving DecidableEq

/-- Who takes the loop thread further: it does, or what wakes it. -/
def helpfulAt (wakeupFd : Nat) : LoopPc → Party
  | .waiting _ => if wakeupFd = 0 then .waker else .loop
  | _ => .loop

/-- The same of a state. -/
def helpful (w : EventLoop) : Party := helpfulAt w.wakeupFd w.pc

theorem helpfulAt_of_not_waiting {wakeupFd : Nat} {pc : LoopPc}
    (h : ∀ waitms, pc ≠ .waiting waitms) : helpfulAt wakeupFd pc = .loop := by
  cases pc with
  | waiting waitms => exact absurd rfl (h waitms)
  | _ => rfl

/-- Of the eventfd's counter it only matters whether it is zero, and that only in `epoll_wait`. -/
theorem stageOf_congr {n m : Nat} {pc : LoopPc}
    (h : (∃ waitms, pc = .waiting waitms) → (n = 0 ↔ m = 0)) :
    stageOf n pc = stageOf m pc ∧ helpfulAt n pc = helpfulAt m pc := by
  cases pc with
  | waiting waitms =>
    have hiff := h ⟨waitms, rfl⟩
    simp only [stageOf, helpfulAt, hiff]
    exact ⟨trivial, trivial⟩
  | _ => exact ⟨rfl, rfl⟩

/-- The steps of a party. -/
def does : Party → Label → Prop
  | .loop, .next | .loop, .epollWait _ | .loop, .epollReturns _ | .waker, .afterQueue _ => True
  | _, _ => False

/-- What is asked of those who take part: the loop thread goes on, and so what it calls returns;
`epoll_wait` returns when the eventfd is readable; a thread inside `QueueInLoop` or `Quit` goes
on. -/
structure Fair (s : Nat → EventLoop) (a : Nat → Label) : Prop where
  loop : ∀ n, (s n).pc ≠ .outside → (∀ waitms, (s n).pc ≠ .waiting waitms) →
    ∃ m, n ≤ m ∧ does .loop (a m)
  epoll : ∀ n waitms, (s n).pc = .waiting waitms → (s n).wakeupFd ≠ 0 →
    ∃ m, n ≤ m ∧ does .loop (a m)
  threads : ∀ n t, (s n).threads t ≠ .idle → ∃ m, n ≤ m ∧ a m = .afterQueue t

/-- In `epoll_wait` somebody has a `WakeUp` before it, or the eventfd is readable. -/
def Awaited (w : EventLoop) : Prop :=
  ∀ waitms, w.pc = .waiting waitms → w.wakeupFd = 0 → ∃ t, w.threads t ≠ .idle

theorem Fair.helps {s : Nat → EventLoop} {a : Nat → Label} (hf : Fair s a) {n : Nat}
    (hpc : (s n).pc ≠ .outside) (hw : Awaited (s n)) :
    ∃ m, n ≤ m ∧ does (helpful (s n)) (a m) := by
  by_cases hwait : ∃ waitms, (s n).pc = .waiting waitms
  · obtain ⟨waitms, hwait⟩ := hwait
    rw [helpful, hwait, helpfulAt]
    by_cases hfd : (s n).wakeupFd = 0
    · rw [if_pos hfd]
      obtain ⟨t, ht⟩ := hw waitms hwait hfd
      obtain ⟨m, hm, ha⟩ := hf.threads n t ht
      refine ⟨m, hm, ?_⟩
      rw [ha]
      trivial
    · rw [if_neg hfd]
      exact hf.epoll n waitms hwait hfd
  · have hnot : ∀ waitms, (s n).pc ≠ .waiting waitms := fun waitms h => hwait ⟨waitms, h⟩
    rw [helpful, helpfulAt_of_not_waiting hnot]
    exact hf.loop n hpc hnot

/-! ## One step -/

/-- Outside of what it calls, the loop thread is in no `QueueInLoop` of its own. -/
def OwnIdle (w : EventLoop) : Prop := w.threads w.tid ≠ .idle → w.userCode = true

theorem ownIdle_step {w w' : EventLoop} {a : Label} (h : OwnIdle w) (hs : LoopStep w a w') :
    OwnIdle w' := by
  intro hown
  cases hs with
  | @queueInLoop t hidle huser =>
    change Function.update w.threads t _ w.tid ≠ .idle at hown
    by_cases ht : t = w.tid
    · exact huser ht
    · rw [Function.update_of_ne (Ne.symm ht)] at hown
      exact h hown
  | @quit t threads hidle hthreads =>
    rcases hthreads with he | ⟨ht, he⟩
    · rw [he] at hown
      exact h hown
    · rw [he] at hown
      change Function.update w.threads t _ w.tid ≠ .idle at hown
      rw [Function.update_of_ne (Ne.symm ht)] at hown
      exact h hown
  | @afterQueue t n hpc hn =>
    change Function.update w.threads t _ w.tid ≠ .idle at hown
    by_cases ht : t = w.tid
    · rw [ht, Function.update_self] at hown
      exact absurd rfl hown
    · rw [Function.update_of_ne (Ne.symm ht)] at hown
      exact h hown
  | loop hidle hpc => exact absurd hidle hown
  | epollWait hpc =>
    have huser := h hown
    rw [userCode, hpc] at huser
    cases huser
  | epollReturns hpc =>
    have huser := h hown
    rw [userCode, hpc] at huser
    cases huser
  | next hidle hs =>
    obtain ⟨hthreads, htid, -⟩ := hs.frame
    rw [hthreads, htid] at hown
    exact absurd hidle hown

/-- What a step does to the round: it ends it, or begins one, or goes on to a lower stage, or is
not the step that is waited for. -/
inductive RoundStep (w : EventLoop) (a : Label) (w' : EventLoop) : Prop where
  | ends (hpc : w.pc = .popping 0) (h : w'.pc = .check)
  | checks (ha : a = .next) (hpc : w.pc = .check) (h : w'.pc = .outside ∨ w'.pc = .poll)
  | lower (hfrom : w.pc ≠ .check) (hto : w'.pc ≠ .check) (h : Nearer w'.stage w.stage)
  | same (hpc : w'.pc = w.pc) (hstage : w'.stage = w.stage) (hhelp : helpful w' = helpful w)
      (h : ¬ does (helpful w) a)

/-- Steps of others leave the loop thread where it is. -/
theorem RoundStep.of_frame {w w' : EventLoop} {a : Label} (hpc : w'.pc = w.pc)
    (hfd : (∃ waitms, w.pc = .waiting waitms) → (w'.wakeupFd = 0 ↔ w.wakeupFd = 0))
    (h : ¬ does (helpful w) a) : RoundStep w a w' := by
  have hcongr := stageOf_congr hfd
  refine .same hpc ?_ ?_ h
  · rw [stage, stage, hpc]
    exact hcongr.1
  · rw [helpful, helpful, hpc]
    exact hcongr.2

theorem roundStep_afterQueue {w : EventLoop} {t : ThreadId} {n : Nat} (hown : OwnIdle w)
    (hbusy : w.threads t ≠ .idle) (hn : if w.wakesUp t then n ≠ 0 else n = w.wakeupFd) :
    RoundStep w (.afterQueue t) { w.setThread t .idle with wakeupFd := n } := by
  by_cases hwait : ∃ waitms, w.pc = .waiting waitms
  · obtain ⟨waitms, hpc⟩ := hwait
    -- the loop thread is in `epoll_wait`, so this is another one, and it wakes up the loop
    have ht : t ≠ w.tid := by
      intro ht
      rw [ht] at hbusy
      have huser := hown hbusy
      rw [userCode, hpc] at huser
      cases huser
    have hwakes : w.wakesUp t = true := by
      unfold wakesUp
      cases hthread : w.threads t with
      | idle => exact absurd hthread hbusy
      | quitting => rfl
      | pushed f => exact decide_eq_true (.inl ht)
    rw [if_pos hwakes] at hn
    by_cases hfd : w.wakeupFd = 0
    · have hnot : w.pc ≠ .check := fun he => LoopPc.noConfusion (hpc.symm.trans he)
      refine .lower hnot hnot (nearer_stage ?_)
      show (stageOf n w.pc).1 < (stageOf w.wakeupFd w.pc).1
      rw [hpc, stageOf, stageOf, if_pos hfd, if_neg hn]
      exact Nat.lt_succ_self 14
    · refine .of_frame rfl (fun _ => iff_of_false hn hfd) ?_
      rw [helpful, hpc, helpfulAt, if_neg hfd]
      exact id
  · refine .of_frame rfl (fun h => absurd h hwait) ?_
    rw [helpful, helpfulAt_of_not_waiting fun waitms h => hwait ⟨waitms, h⟩]
    exact id

theorem RoundStep.on {w w' : EventLoop} {a : Label} {pc : LoopPc} (hpc : w.pc = pc)
    (hfrom : pc ≠ .check) (hto : w'.pc ≠ .check)
    (h : Nearer w'.stage (stageOf w.wakeupFd pc)) : RoundStep w a w' := by
  rw [← hpc] at hfrom
  refine .lower hfrom hto ?_
  have hstage : w.stage = stageOf w.wakeupFd pc := by rw [stage, hpc]
  rw [hstage]
  exact h

theorem loopStep_round {w w' : EventLoop} (h : Counted w) (hs : w.loopStep = some w') :
    RoundStep w .next w' := by
  cases hpc : w.pc with
  | outside => rw [loopStep, hpc] at hs; cases hs
  | poll => rw [loopStep, hpc] at hs; cases hs
  | waiting ms => rw [loopStep, hpc] at hs; cases hs
  | check =>
    rw [loopStep, hpc] at hs
    cases hs
    refine .checks rfl hpc ?_
    dsimp only
    split
    · exact .inl rfl
    · exact .inr rfl
  | handling active =>
    rw [loopStep, hpc] at hs
    cases active with
    | nil =>
      cases hs
      exact .on hpc LoopPc.noConfusion LoopPc.noConfusion (nearer_stage (show 10 < 12 by decide))
    | cons a rest =>
      cases a with
      | wakeup =>
        cases hs
        refine .on hpc LoopPc.noConfusion LoopPc.noConfusion (nearer_left rfl ?_)
        exact Nat.mul_lt_mul_of_pos_left (Nat.lt_succ_self _) Nat.two_pos
      | other =>
        cases hs
        exact .on hpc LoopPc.noConfusion LoopPc.noConfusion (nearer_left rfl (Nat.lt_succ_self _))
  | inHandler active =>
    rw [loopStep, hpc] at hs
    cases hs
    exact .on hpc LoopPc.noConfusion LoopPc.noConfusion (nearer_left rfl (Nat.lt_succ_self _))
  | expiring =>
    rw [loopStep, hpc] at hs
    cases hs
    exact .on hpc LoopPc.noConfusion LoopPc.noConfusion (nearer_stage (show 8 < 10 by decide))
  | calling =>
    rw [loopStep, hpc] at hs
    cases hs
    exact .on hpc LoopPc.noConfusion LoopPc.noConfusion (nearer_stage (show 6 < 8 by decide))
  | sizing =>
    rw [loopStep, hpc] at hs
    cases hs
    exact .on hpc LoopPc.noConfusion LoopPc.noConfusion (nearer_stage (show 4 < 6 by decide))
  | popping left =>
    cases left with
    | zero =>
      rw [loopStep, hpc] at hs
      cases hs
      exact .ends hpc rfl
    | succ left =>
      obtain ⟨func, rest, -, hpop⟩ := h.pop hpc
      rw [loopStep, hpc] at hs
      dsimp only at hs
      rw [hpop] at hs
      cases hs
      exact .on hpc LoopPc.noConfusion LoopPc.noConfusion (nearer_left rfl (Nat.lt_succ_self _))
  | inFunctor left =>
    rw [loopStep, hpc] at hs
    cases hs
    exact .on hpc LoopPc.noConfusion LoopPc.noConfusion (nearer_left rfl (Nat.lt_succ_self _))

theorem step_round {w w' : EventLoop} {a : Label} (h : Counted w) (hown : OwnIdle w)
    (hpc : w.pc ≠ .outside) (hs : w.step a = some w') : RoundStep w a w' := by
  have hother : ∀ a, (∀ p, ¬ does p a) → ¬ does (helpful w) a := fun a h => h _
  cases step_cases h hs with
  | queueInLoop hidle huser =>
    exact .of_frame rfl (fun _ => Iff.rfl) (hother _ fun p => by cases p <;> exact id)
  | quit hidle hthreads =>
    exact .of_frame rfl (fun _ => Iff.rfl) (hother _ fun p => by cases p <;> exact id)
  | afterQueue hbusy hn => exact roundStep_afterQueue hown hbusy hn
  | loop hidle hout => exact absurd hout hpc
  | epollWait hpoll =>
    refine .on hpoll LoopPc.noConfusion LoopPc.noConfusion (nearer_stage ?_)
    show (if w.wakeupFd = 0 then 15 else 14) < 16
    split <;> decide
  | epollReturns hwait =>
    refine .on hwait LoopPc.noConfusion LoopPc.noConfusion (nearer_stage ?_)
    show 12 < if w.wakeupFd = 0 then 15 else 14
    split <;> decide
  | next hidle hnext =>
    obtain ⟨-, hs⟩ := Option.ite_none_right_eq_some.mp hs
    exact loopStep_round h hs

/-! ## `Quit` -/

/-- Once `quit_` is set, the loop thread does not enter `epoll_wait` to stay there. -/
def AwakeToQuit (w : EventLoop) : Prop :=
  w.quit = true → (w.pc = .poll ∨ ∃ waitms, w.pc = .waiting waitms) →
    w.wakeupFd ≠ 0 ∨ ∃ t, w.threads t = .quitting

theorem check_next {w w' : EventLoop} (hpc : w.pc = .check) (hs : w.step .next = some w') :
    w' = { w with pc := if w.quit then .outside else .poll } := by
  obtain ⟨-, hs⟩ := Option.ite_none_right_eq_some.mp hs
  rw [loopStep, hpc] at hs
  exact (Option.some.inj hs).symm

theorem quitting_other {w : EventLoop} {t : ThreadId} (pc : QueuePc)
    (hidle : w.threads t ≠ .quitting) (h : ∃ u, w.threads u = .quitting) :
    ∃ u, (w.setThread t pc).threads u = .quitting := by
  obtain ⟨u, hu⟩ := h
  have hut : u ≠ t := by
    intro hut
    rw [hut] at hu
    exact hidle hu
  exact ⟨u, (Function.update_of_ne hut _ _).trans hu⟩

theorem not_userCode {w : EventLoop} (hpc : w.pc = .poll ∨ ∃ waitms, w.pc = .waiting waitms) :
    ¬ w.userCode = true := by
  rcases hpc with he | ⟨waitms, he⟩
  · rw [userCode, he]
    exact Bool.false_ne_true
  · rw [userCode, he]
    exact Bool.false_ne_true

theorem awakeToQuit_step {w w' : EventLoop} {a : Label} (h : Counted w)
    (hawake : AwakeToQuit w) (hs : w.step a = some w') : AwakeToQuit w' := by
  intro hquit hpc
  cases step_cases h hs with
  | @queueInLoop t hidle huser =>
    refine (hawake hquit hpc).imp_right (quitting_other _ ?_)
    rw [hidle]
    exact QueuePc.noConfusion
  | @quit t threads hidle hthreads =>
    -- not the loop thread, which is in `epoll_wait` or on its way to it
    obtain ⟨⟨-, huser⟩, hset⟩ := Option.ite_none_right_eq_some.mp hs
    have ht : t ≠ w.tid := fun ht => not_userCode hpc (huser ht)
    rw [setQuit, if_pos ht, Option.some.injEq] at hset
    rw [← hset]
    exact .inr ⟨t, Function.update_self ..⟩
  | @afterQueue t n hbusy hn =>
    by_cases hwakes : w.wakesUp t = true
    · rw [if_pos hwakes] at hn
      exact .inl hn
    · rw [if_neg hwakes] at hn
      rw [hn]
      refine (hawake hquit hpc).imp_right (quitting_other _ ?_)
      intro hq
      rw [wakesUp, hq] at hwakes
      exact hwakes rfl
  | loop hidle hout => cases hquit
  | epollWait hpoll => exact hawake hquit (.inl hpoll)
  | epollReturns hwait => rcases hpc with he | ⟨waitms, he⟩ <;> cases he
  | next hidle hnext =>
    -- only the test of `quit_` leads to `epoll_wait`, and it finds it set
    have hcheck : w.pc = .check := by
      cases hnext with
      | check hcheck h => exact hcheck
      | handles hp hread h =>
        rcases h with he | ⟨active, he | he⟩ <;> rw [he] at hpc <;>
          rcases hpc with hp | ⟨ms, hp⟩ <;> cases hp
      | _ => rcases hpc with he | ⟨ms, he⟩ <;> cases he
    have hw' := check_next hcheck hs
    rw [hw'] at hquit hpc
    have hset : w.quit = true := hquit
    rw [if_pos hset] at hpc
    rcases hpc with he | ⟨ms, he⟩ <;> cases he

/-- What the loop has in every state, whoever pushes functors and where. -/
structure Alive (w : EventLoop) : Prop where
  counted : Counted w
  own : OwnIdle w
  awake : AwakeToQuit w
  /-- Between two batches the functors called are those of the batches. -/
  called : (∀ left, w.pc ≠ .popping left ∧ w.pc ≠ .inFunctor left) → w.called.length = w.sized

/-- In the loop of `CallPendingFunctors`. -/
def InBatch : LoopPc → Prop
  | .popping _ | .inFunctor _ => True
  | _ => False

theorem not_batch {pc : LoopPc} (h : ¬ InBatch pc) (left : Nat) :
    pc ≠ .popping left ∧ pc ≠ .inFunctor left :=
  ⟨fun he => h (by rw [he]; trivial), fun he => h (by rw [he]; trivial)⟩

theorem called_step {w w' : EventLoop} {a : Label} (h : Counted w)
    (hc : (∀ left, w.pc ≠ .popping left ∧ w.pc ≠ .inFunctor left) → w.called.length = w.sized)
    (hs : LoopStep w a w') (hout : ∀ left, w'.pc ≠ .popping left ∧ w'.pc ≠ .inFunctor left) :
    w'.called.length = w'.sized := by
  cases hs with
  | queueInLoop hidle huser => exact hc hout
  | quit hidle hthreads => exact hc hout
  | afterQueue hbusy hn => exact hc hout
  | loop hidle hpc => exact hc (not_batch (by rw [hpc]; exact id))
  | epollWait hpc => exact hc (not_batch (by rw [hpc]; exact id))
  | epollReturns hpc => exact hc (not_batch (by rw [hpc]; exact id))
  | next hidle hs =>
    cases hs with
    | sizes hpc => exact absurd rfl (hout _).1
    | pops hpc hq => exact absurd rfl (hout _).2
    | functorReturns hpc => exact absurd rfl (hout _).1
    | batchOver hpc => exact (h.batch 0 (.inl hpc)).1
    | handles hpc hread hto =>
      refine hc (not_batch ?_)
      obtain ⟨active, he | he⟩ := hpc
      · rw [he]
        exact id
      · rw [he]
        exact id
    | check hpc hto => exact hc (not_batch (by rw [hpc]; exact id))
    | reads hpc => exact hc (not_batch (by rw [hpc]; exact id))
    | expired hpc => exact hc (not_batch (by rw [hpc]; exact id))
    | calls hpc => exact hc (not_batch (by rw [hpc]; exact id))

theorem alive_reachable {tid : ThreadId} {ok : EventLoop → Label → Prop} {w : EventLoop}
    (h : Reachable (machine tid) ok w) : Alive w := by
  refine h.invariant ?_ ?_
  · intro s hs
    rw [show s = create tid from hs]
    exact ⟨counted_init tid, fun hown => absurd rfl hown,
      fun hquit => absurd hquit Bool.false_ne_true, fun _ => rfl⟩
  · intro s a s' _ hinv _ hs
    have hstep := step_cases hinv.counted hs
    exact
      { counted := counted_step hinv.counted hstep
        own := ownIdle_step hinv.own hstep
        awake := awakeToQuit_step hinv.counted hinv.awake hs
        called := called_step hinv.counted hinv.called hstep }

/-- Between two batches. -/
theorem Alive.called_eq {w : EventLoop} (h : Alive w)
    (hpc : ∀ left, w.pc ≠ .popping left ∧ w.pc ≠ .inFunctor left) :
    w.called = List.range w.sized := by
  have htake := congrArg (List.take w.called.length) h.counted.order
  have hle : w.called.length ≤ w.pushers.length := by
    rw [← h.counted.lengths]
    exact Nat.le_add_right _ _
  rwa [List.take_left' rfl, List.take_range, Nat.min_eq_left hle, h.called hpc] at htake

/-! ## Rounds -/

/-- The stage, and the rounds that come after this one. -/
def ranking (rounds : EventLoop → Nat) : Ranking EventLoop Label Party (Nat × Nat) where
  rank := fun w => (20 * rounds w + w.stage.1, w.stage.2)
  lt := Nearer
  wf := nearer_wf
  helpful := helpful
  does := does

variable {rounds : EventLoop → Nat} {w w' : EventLoop} {a : Label}

theorem stage_lt (w : EventLoop) : w.stage.1 < 20 := by
  rw [stage]
  cases w.pc with
  | waiting waitms =>
    show (if w.wakeupFd = 0 then 15 else 14) < 20
    split <;> decide
  | _ =>
    unfold stageOf
    exact Nat.lt_of_sub_pos (Nat.succ_pos _)

theorem nears_lower (hle : rounds w' ≤ rounds w) (h : Nearer w'.stage w.stage) :
    (ranking rounds).Nears w a w' := by
  refine .inl ?_
  rcases Nat.lt_or_eq_of_le hle with hlt | heq
  · have hmax := stage_lt w'
    refine nearer_stage ?_
    show 20 * rounds w' + w'.stage.1 < 20 * rounds w + w.stage.1
    omega
  · rcases nearer_cases h with hlt | ⟨hsame, hlt⟩
    · refine nearer_stage ?_
      show 20 * rounds w' + w'.stage.1 < 20 * rounds w + w.stage.1
      omega
    · refine nearer_left ?_ hlt
      show 20 * rounds w' + w'.stage.1 = 20 * rounds w + w.stage.1
      omega

theorem nears_ends (hlt : rounds w' < rounds w) (hpc : w.pc = .popping 0) (h : w'.pc = .check) :
    (ranking rounds).Nears w a w' := by
  refine .inl (nearer_stage ?_)
  show 20 * rounds w' + w'.stage.1 < 20 * rounds w + w.stage.1
  rw [stage, stage, hpc, h]
  show 20 * rounds w' + 18 < 20 * rounds w + 4
  omega

theorem nears_same (hle : rounds w' ≤ rounds w) (hstage : w'.stage = w.stage)
    (hhelp : helpful w' = helpful w) (h : ¬ does (helpful w) a) :
    (ranking rounds).Nears w a w' := by
  rcases Nat.lt_or_eq_of_le hle with hlt | heq
  · refine .inl (nearer_stage ?_)
    show 20 * rounds w' + w'.stage.1 < 20 * rounds w + w.stage.1
    rw [hstage]
    omega
  · refine .inr ⟨?_, hhelp, h⟩
    show (20 * rounds w' + w'.stage.1, w'.stage.2) = (20 * rounds w + w.stage.1, w.stage.2)
    rw [heq, hstage]

/-- A loop that is to return: not yet at the test of `quit_`, there is a round to go. -/
def roundsToQuit (w : EventLoop) : Nat := if w.pc = .check then 0 else 1

/-- `Loop` runs and `quit_` is set. -/
structure ToQuit (w : EventLoop) : Prop where
  alive : Alive w
  quit : w.quit = true
  inside : w.pc ≠ .outside

theorem ToQuit.awaited {w : EventLoop} (h : ToQuit w) : Awaited w := by
  intro waitms hpc hfd
  rcases h.alive.awake h.quit (.inr ⟨waitms, hpc⟩) with hne | ⟨t, ht⟩
  · exact absurd hfd hne
  · refine ⟨t, ?_⟩
    rw [ht]
    exact QueuePc.noConfusion

theorem alive_step {w w' : EventLoop} {a : Label} (h : Alive w) (hs : w.step a = some w') :
    Alive w' := by
  have hstep := step_cases h.counted hs
  exact
    { counted := counted_step h.counted hstep
      own := ownIdle_step h.own hstep
      awake := awakeToQuit_step h.counted h.awake hs
      called := called_step h.counted h.called hstep }

theorem quit_kept {w w' : EventLoop} {a : Label} (hs : LoopStep w a w') (hquit : w.quit = true)
    (hpc : w.pc ≠ .outside) : w'.quit = true := by
  cases hs with
  | quit hidle hthreads => rfl
  | loop hidle hout => exact absurd hout hpc
  | next hidle hs => cases hs <;> exact hquit
  | _ => exact hquit

theorem toQuit_step {w w' : EventLoop} {a : Label} (h : ToQuit w) (hs : w.step a = some w') :
    w'.pc = .outside ∨ ToQuit w' ∧ (ranking roundsToQuit).Nears w a w' := by
  by_cases hout : w'.pc = .outside
  · exact .inl hout
  have hstep := step_cases h.alive.counted hs
  refine .inr ⟨⟨alive_step h.alive hs, quit_kept hstep h.quit h.inside, hout⟩, ?_⟩
  cases step_round h.alive.counted h.alive.own h.inside hs with
  | ends hpc hcheck =>
    refine nears_ends ?_ hpc hcheck
    rw [roundsToQuit, roundsToQuit, if_pos hcheck, if_neg (by rw [hpc]; exact LoopPc.noConfusion)]
    exact Nat.one_pos
  | checks ha hpc hto =>
    rw [ha] at hs
    rw [check_next hpc hs] at hout
    exact absurd (if_pos h.quit) hout
  | lower hfrom hto hlt =>
    refine nears_lower (Nat.le_of_eq ?_) hlt
    rw [roundsToQuit, roundsToQuit, if_neg hfrom, if_neg hto]
  | same hpc hstage hhelp hnot =>
    refine nears_same (Nat.le_of_eq ?_) hstage hhelp hnot
    rw [roundsToQuit, roundsToQuit, hpc]

/-! A run without an end: thread 7 pushes a functor and calls `Quit` while the loop thread is in
`epoll_wait`; `Loop` returns, is called again, and finds nothing to do from then on. -/

/-- A functor is queued and `Quit` is called; then `Loop` is entered again. -/
def quitAndAgain (n : Nat) : Label :=
  ([.loop, .next, .epollWait 5, .queueInLoop 7, .afterQueue 7, .quit 7, .afterQueue 7,
    .epollReturns [.wakeup], .next, .next, .next, .next, .next, .next, .next, .next, .next, .loop,
    .next, .epollWait 5, .epollReturns []] : List Label).getD n .next

/-- The states of that run, as far as they are not repeated. -/
def quitStates : Nat → EventLoop := statesOf (machine 0) (create 0) quitAndAgain

theorem quitAndAgain_trace : Trace (machine 0) PushesInside (fun n => quitStates (fold 18 8 n))
    (fun n => quitAndAgain (fold 18 8 n)) :=
  .rounds (by decide) rfl (by decide +kernel) (by decide +kernel) rfl

theorem quitAndAgain_threads {i : Nat} (hi : i < 26) {t : ThreadId}
    (ht : (quitStates i).threads t ≠ .idle) : quitAndAgain i = .afterQueue t := by
  have hseven : t = 7 := by
    refine Decidable.not_not.mp fun hne => ht ?_
    have hupdate : ∀ pc : QueuePc, ∀ f : ThreadId → QueuePc, f t = .idle →
        Function.update f 7 pc t = .idle := fun pc f hf => (Function.update_of_ne hne pc f).trans hf
    interval_cases i
    all_goals first
      | rfl
      | exact hupdate _ _ rfl
      | exact hupdate _ _ (hupdate _ _ rfl)
      | exact hupdate _ _ (hupdate _ _ (hupdate _ _ rfl))
      | exact hupdate _ _ (hupdate _ _ (hupdate _ _ (hupdate _ _ rfl)))
  rw [hseven] at ht ⊢
  have hall : ∀ i, i < 26 → (quitStates i).threads 7 ≠ .idle →
      quitAndAgain i = .afterQueue 7 := by decide +kernel
  exact hall i hi ht

theorem quitAndAgain_fair : Fair (fun n => quitStates (fold 18 8 n))
    (fun n => quitAndAgain (fold 18 8 n)) := by
  have hnext : ∀ n, ∃ m, n ≤ m ∧ does .loop (quitAndAgain (fold 18 8 m)) := by
    intro n
    obtain ⟨m, hm, hfold⟩ := fold_again (show 18 ≤ 18 by decide) (show 18 < 18 + 8 by decide) n
    refine ⟨m, hm, ?_⟩
    rw [hfold]
    trivial
  exact
    { loop := fun n _ _ => hnext n
      epoll := fun n _ _ _ => hnext n
      threads := fun n t ht => ⟨n, Nat.le_refl n, quitAndAgain_threads (fold_lt (by decide) n) ht⟩ }

/-- **`Quit` makes `Loop` return**, in every run in which those who take part go on, and without the
timeout of `epoll_wait`. Of the functors, those pushed up to the last `Size()` have been called
then, and no others. -/
theorem quit_stops_loop (tid : ThreadId) (s : Nat → EventLoop) (a : Nat → Label)
    (h : Trace (machine tid) (fun _ _ => True) s a) (hf : Fair s a) (n : Nat)
    (hquit : (s n).quit = true) (hpc : (s n).pc ≠ .outside) :
    ∃ m, n ≤ m ∧ (s m).pc = .outside ∧ (s m).called = List.range (s m).sized := by
  obtain ⟨m, hm, hout⟩ := h.reaches (ranking roundsToQuit) ToQuit (fun w => w.pc = .outside)
    (fun _ hk => hf.helps hk.inside hk.awaited) (fun _ _ _ hu _ hs => toQuit_step hu hs)
    ⟨alive_reachable (h.reachable n), hquit, hpc⟩
  refine ⟨m, hm, hout, (alive_reachable (h.reachable m)).called_eq ?_⟩
  refine not_batch ?_
  rw [hout]
  exact id

theorem quit_stops_loop_small : ∃ m, 6 ≤ m ∧ (quitStates (fold 18 8 m)).pc = .outside
    ∧ (quitStates (fold 18 8 m)).called = List.range (quitStates (fold 18 8 m)).sized :=
  quit_stops_loop 0 _ _ (quitAndAgain_trace.mono fun _ _ _ => trivial) quitAndAgain_fair 6
    (by decide +kernel) (by decide +kernel)

/-! ## Functors -/

/-- A functor that is called in this round, or in the next one if its batch is on already. -/
def roundsToCall (f : Functor) (w : EventLoop) : Nat :=
  match w.pc with
  | .popping _ | .inFunctor _ => if f < w.sized then 0 else 1
  | _ => 0

/-- `Loop` runs and the functor is in the queue. -/
structure ToCall (f : Functor) (w : EventLoop) : Prop where
  alive : Alive w
  inv : Inv w
  queued : f ∈ w.pendingFunctors.queue
  inside : w.pc ≠ .outside

theorem ToCall.awaited {f : Functor} {w : EventLoop} (h : ToCall f w) : Awaited w := by
  intro waitms hpc hfd
  rcases h.inv.covered f h.queued with hc | ⟨t, -, ht⟩ | hc
  · exact absurd hfd hc
  · refine ⟨t, ?_⟩
    rw [ht]
    exact QueuePc.noConfusion
  · rw [WillRun, hpc] at hc
    exact hc.elim

/-- A functor leaves the queue to be called. -/
theorem queued_or_called {w w' : EventLoop} {a : Label} {f : Functor} (hs : LoopStep w a w')
    (hf : f ∈ w.pendingFunctors.queue) :
    f ∈ w'.pendingFunctors.queue ∨ f ∈ w'.called := by
  cases hs with
  | queueInLoop hidle huser => exact .inl (List.mem_append_left _ hf)
  | next hidle hs =>
    cases hs with
    | @pops left func rest hpc hq =>
      rw [hq] at hf
      rcases List.mem_cons.mp hf with he | hrest
      · rw [he]
        exact .inr (List.mem_append_right _ (List.mem_singleton_self func))
      · exact .inl hrest
    | _ => exact .inl hf
  | _ => exact .inl hf

theorem roundsToCall_le {f : Functor} (h : Counted w) (hf : f ∈ w.pendingFunctors.queue)
    (hs : LoopStep w a w') : roundsToCall f w' ≤ roundsToCall f w := by
  cases hs with
  | next hidle hs =>
    cases hs with
    | sizes hpc =>
      show (if f < w.pushers.length then 0 else 1) ≤ _
      rw [if_pos (h.queued_bounds hf).2]
      exact Nat.zero_le _
    | pops hpc hq =>
      rw [roundsToCall.eq_def f w, hpc]
      exact Nat.le_refl _
    | functorReturns hpc =>
      rw [roundsToCall.eq_def f w, hpc]
      exact Nat.le_refl _
    | handles hpc hread hto =>
      rcases hto with he | ⟨active, he | he⟩ <;> rw [roundsToCall, he] <;> exact Nat.zero_le _
    | check hpc hto => rcases hto with he | he <;> rw [roundsToCall, he] <;> exact Nat.zero_le _
    | _ => exact Nat.zero_le _
  | loop hidle hpc => exact Nat.zero_le _
  | epollWait hpc => exact Nat.zero_le _
  | epollReturns hpc => exact Nat.zero_le _
  | _ => exact Nat.le_refl _

theorem toCall_step {f : Functor} (h : ToCall f w) (hok : PushesInside w a)
    (hs : w.step a = some w') :
    (f ∈ w'.called ∨ w'.pc = .outside)
      ∨ ToCall f w' ∧ (ranking (roundsToCall f)).Nears w a w' := by
  have hstep := step_cases h.alive.counted hs
  by_cases hgoal : f ∈ w'.called ∨ w'.pc = .outside
  · exact .inl hgoal
  have hqueued : f ∈ w'.pendingFunctors.queue :=
    (queued_or_called hstep h.queued).resolve_right fun hc => hgoal (.inl hc)
  have hle := roundsToCall_le h.alive.counted h.queued hstep
  refine .inr ⟨⟨alive_step h.alive hs, inv_step h.inv hok hs, hqueued,
    fun ho => hgoal (.inr ho)⟩, ?_⟩
  cases step_round h.alive.counted h.alive.own h.inside hs with
  | ends hpc hcheck =>
    -- the batch is over without it: it was pushed after the size was read
    have hlate : ¬ f < w.sized := by
      rw [← (h.alive.counted.batch 0 (.inl hpc)).1]
      exact Nat.not_lt.mpr (h.alive.counted.queued_bounds h.queued).1
    refine nears_ends ?_ hpc hcheck
    rw [roundsToCall, roundsToCall, hcheck, hpc]
    dsimp only
    rw [if_neg hlate]
    exact Nat.one_pos
  | checks ha hpc hto =>
    have hpoll := hto.resolve_left fun ho => hgoal (.inr ho)
    refine nears_lower hle (nearer_stage ?_)
    rw [stage, stage, hpc, hpoll]
    exact (show 16 < 18 by decide)
  | lower hfrom hto hlt => exact nears_lower hle hlt
  | same hpc hstage hhelp hnot => exact nears_same hle hstage hhelp hnot

/-- **A functor in the queue is called**, or `Loop` returns: in every run in which those who take
part go on, and without the timeout of `epoll_wait`. -/
theorem queued_functor_is_called (tid : ThreadId) (s : Nat → EventLoop) (a : Nat → Label)
    (h : Trace (machine tid) PushesInside s a) (hf : Fair s a) (n : Nat) (f : Functor)
    (hqueued : f ∈ (s n).pendingFunctors.queue) (hpc : (s n).pc ≠ .outside) :
    ∃ m, n ≤ m ∧ (f ∈ (s m).called ∨ (s m).pc = .outside) :=
  h.reaches (ranking (roundsToCall f)) (ToCall f) (fun w => f ∈ w.called ∨ w.pc = .outside)
    (fun _ hk => hf.helps hk.inside hk.awaited) (fun _ _ _ hu hok hs => toCall_step hu hok hs)
    ⟨alive_reachable (h.reachable n), inv_reachable (h.reachable n), hqueued, hpc⟩

theorem queued_functor_is_called_small : ∃ m, 4 ≤ m
    ∧ (0 ∈ (quitStates (fold 18 8 m)).called ∨ (quitStates (fold 18 8 m)).pc = .outside) :=
  queued_functor_is_called 0 _ _ quitAndAgain_trace quitAndAgain_fair 4 0 (by decide +kernel)
    (by decide +kernel)

end EventLoop

end Windz
