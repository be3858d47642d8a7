import Mathlib.Data.List.Range
import Windz.Net.EventLoop

/-!
# What a step of the loop can do

One constructor for each step, with the place of the loop thread that allows it.
Nothing is assumed about who pushes functors and where: the numbers of the functors
(`Counted`) hold in all runs.
-/

namespace Windz

open Lib

namespace EventLoop

/-! ## Numbers of functors -/

/-- The functors called and those in the queue, whoever pushes them and where. -/
structure Counted (w : EventLoop) : Prop where
  queue : w.pendingFunctors.Unbounded
  order : w.called ++ w.pendingFunctors.queue = List.range w.pushers.length
  batch : ∀ left, w.pc = .popping left ∨ w.pc = .inFunctor left →
    w.called.length + left = w.sized ∧ w.sized ≤ w.pushers.length

theorem Counted.lengths {w : EventLoop} (h : Counted w) :
    w.called.length + w.pendingFunctors.queue.length = w.pushers.length := by
  have := congrArg List.length h.order
  rwa [List.length_append, List.length_range] at this

/-- Those in the queue were pushed after those that were called. -/
theorem Counted.queued_bounds {w : EventLoop} (h : Counted w) {f : Functor}
    (hf : f ∈ w.pendingFunctors.queue) : w.called.length ≤ f ∧ f < w.pushers.length := by
  obtain ⟨i, hi, hget⟩ := List.mem_iff_getElem.mp hf
  have hlt : w.called.length + i < w.pushers.length := by
    rw [← h.lengths]
    exact Nat.add_lt_add_left hi _
  have hrange : (w.called ++ w.pendingFunctors.queue)[w.called.length + i]? = some f := by
    rw [List.getElem?_append_right (Nat.le_add_right _ _), Nat.add_sub_cancel_left,
      List.getElem?_eq_getElem hi, hget]
  rw [h.order, List.getElem?_range hlt, Option.some.injEq] at hrange
  rw [← hrange]
  exact ⟨Nat.le_add_right _ _, hlt⟩

/-- `Pop` finds a functor in each round of the batch. -/
theorem Counted.pop {w : EventLoop} (h : Counted w) {left : Nat}
    (hpc : w.pc = .popping (left + 1)) :
    ∃ f rest, w.pendingFunctors.queue = f :: rest
      ∧ w.pendingFunctors.pop = some (some f, { w.pendingFunctors with queue := rest }) := by
  have hbatch := h.batch _ (.inl hpc)
  have hlen := h.lengths
  cases hq : w.pendingFunctors.queue with
  | nil =>
    rw [hq, List.length_nil] at hlen
    omega
  | cons f rest => exact ⟨f, rest, rfl, h.queue.pop_cons hq⟩

/-! ## Steps -/

theorem wakeUp_ne_zero (w : EventLoop) : w.wakeUp.wakeupFd ≠ 0 := by
  unfold wakeUp
  split
  · exact Nat.succ_ne_zero _
  · rename_i hge
    have hmax : 0 < kEventFdMax := by decide
    omega

theorem wakeUp_frame (w : EventLoop) : ∃ n, w.wakeUp = { w with wakeupFd := n } ∧ n ≠ 0 := by
  have hne := wakeUp_ne_zero w
  unfold wakeUp at hne ⊢
  split
  · exact ⟨_, rfl, Nat.succ_ne_zero _⟩
  · rename_i hge
    rw [if_neg hge] at hne
    exact ⟨_, rfl, hne⟩

/-- Thread `t` performs the `WakeUp` of its `QueueInLoop` or `Quit`. -/
def wakesUp (w : EventLoop) (t : ThreadId) : Bool :=
  match w.threads t with
  | .idle => false
  | .pushed _ => t ≠ w.tid ∨ w.pendingFunctorsCalling
  | .quitting => true

/-- The loop thread is about to call `HandleRead`. -/
def readsWakeUp (w : EventLoop) : Bool :=
  match w.pc with
  | .handling (.wakeup :: _) => true
  | _ => false

/-- In the part of an iteration that handles events. -/
def Handles (pc : LoopPc) : Prop := ∃ active, pc = .handling active ∨ pc = .inHandler active

/-- A step of the loop thread that depends on nothing from outside. -/
inductive NextStep (w : EventLoop) : EventLoop → Prop where
  | check {pc : LoopPc} (hpc : w.pc = .check) (h : pc = .outside ∨ pc = .poll) :
      NextStep w { w with pc }
  | reads {rest : List ActiveChannel} (hpc : w.pc = .handling (.wakeup :: rest)) :
      NextStep w { w.handleRead with pc := .handling rest }
  | handles {pc : LoopPc} (hpc : Handles w.pc) (hread : w.readsWakeUp = false)
      (h : pc = .expiring ∨ Handles pc) : NextStep w { w with pc }
  | expired (hpc : w.pc = .expiring) :
      NextStep w { w with pc := .calling, entered := w.pushers.length }
  | calls (hpc : w.pc = .calling) :
      NextStep w { w with pendingFunctorsCalling := true, pc := .sizing }
  | sizes (hpc : w.pc = .sizing) :
      NextStep w { w with
        pc := .popping w.pendingFunctors.queue.length, sized := w.pushers.length }
  | pops {left : Nat} {func : Functor} {rest : List Functor} (hpc : w.pc = .popping (left + 1))
      (hq : w.pendingFunctors.queue = func :: rest) :
      NextStep w { w with
        pendingFunctors := { w.pendingFunctors with queue := rest }
        called := w.called ++ [func]
        pc := .inFunctor left }
  | batchOver (hpc : w.pc = .popping 0) :
      NextStep w { w with pendingFunctorsCalling := false, pc := .check }
  | functorReturns {left : Nat} (hpc : w.pc = .inFunctor left) :
      NextStep w { w with pc := .popping left }

/-- Threads and pushes are those of the labels. -/
theorem NextStep.frame {w w' : EventLoop} (hs : NextStep w w') :
    w'.threads = w.threads ∧ w'.tid = w.tid ∧ w'.pushers = w.pushers := by
  cases hs <;> exact ⟨rfl, rfl, rfl⟩

/-- What a step does. -/
inductive LoopStep (w : EventLoop) : Label → EventLoop → Prop where
  | queueInLoop {t : ThreadId} (hidle : w.threads t = .idle)
      (huser : t = w.tid → w.userCode = true) :
      LoopStep w (.queueInLoop t) { w.setThread t (.pushed w.pushers.length) with
        pendingFunctors :=
          { w.pendingFunctors with queue := w.pendingFunctors.queue ++ [w.pushers.length] }
        pushers := w.pushers ++ [t] }
  | quit {t : ThreadId} {threads : ThreadId → QueuePc} (hidle : w.threads t = .idle)
      (h : threads = w.threads ∨ t ≠ w.tid ∧ threads = Function.update w.threads t .quitting) :
      LoopStep w (.quit t) { w with quit := true, threads }
  | afterQueue {t : ThreadId} {n : Nat} (hpc : w.threads t ≠ .idle)
      (hn : if w.wakesUp t then n ≠ 0 else n = w.wakeupFd) :
      LoopStep w (.afterQueue t) { w.setThread t .idle with wakeupFd := n }
  | loop (hidle : w.threads w.tid = .idle) (hpc : w.pc = .outside) :
      LoopStep w .loop { w with quit := false, pc := .check }
  | epollWait {nextTimeout : Int} (hpc : w.pc = .poll) :
      LoopStep w (.epollWait nextTimeout) { w with pc := .waiting (min 10000 nextTimeout) }
  | epollReturns {active : List ActiveChannel} {waitms : Int} (hpc : w.pc = .waiting waitms) :
      LoopStep w (.epollReturns active) { w with pc := .handling active }
  | next {w' : EventLoop} (hidle : w.threads w.tid = .idle) (h : NextStep w w') :
      LoopStep w .next w'

theorem afterQueue_cases {w w' : EventLoop} {t : ThreadId} (hs : w.afterQueue t = some w') :
    LoopStep w (.afterQueue t) w' := by
  obtain ⟨n, hframe, hn⟩ := wakeUp_frame (w.setThread t .idle)
  unfold afterQueue at hs
  cases hpc : w.threads t with
  | idle =>
    rw [hpc] at hs
    cases hs
  | quitting =>
    rw [hpc] at hs
    dsimp only at hs
    rw [Option.some.injEq, hframe] at hs
    rw [← hs]
    refine .afterQueue (by rw [hpc]; exact nofun) ?_
    rw [wakesUp, hpc]
    exact hn
  | pushed f =>
    have hbusy : w.threads t ≠ .idle := by
      rw [hpc]
      exact nofun
    rw [hpc] at hs
    dsimp only at hs
    rw [Option.some.injEq] at hs
    by_cases hwakes : t ≠ w.tid ∨ w.pendingFunctorsCalling = true
    · rw [if_pos hwakes, hframe] at hs
      rw [← hs]
      refine .afterQueue hbusy ?_
      rw [wakesUp, hpc]
      dsimp only
      rw [decide_eq_true hwakes, if_pos rfl]
      exact hn
    · rw [if_neg hwakes] at hs
      rw [← hs]
      refine .afterQueue (n := w.wakeupFd) hbusy ?_
      rw [wakesUp, hpc]
      dsimp only
      rw [decide_eq_false hwakes, if_neg Bool.false_ne_true]

theorem loopStep_cases {w w' : EventLoop} (h : Counted w) (hs : w.loopStep = some w') :
    NextStep w w' := by
  cases hpc : w.pc with
  | outside => rw [loopStep, hpc] at hs; cases hs
  | poll => rw [loopStep, hpc] at hs; cases hs
  | waiting ms => rw [loopStep, hpc] at hs; cases hs
  | check =>
    rw [loopStep, hpc] at hs
    cases hs
    refine .check hpc ?_
    split
    · exact .inl rfl
    · exact .inr rfl
  | handling active =>
    rw [loopStep, hpc] at hs
    cases active with
    | nil =>
      cases hs
      exact .handles ⟨_, .inl hpc⟩ (by rw [readsWakeUp, hpc]) (.inl rfl)
    | cons a rest =>
      cases a with
      | wakeup =>
        cases hs
        exact .reads hpc
      | other =>
        cases hs
        exact .handles ⟨_, .inl hpc⟩ (by rw [readsWakeUp, hpc]) (.inr ⟨rest, .inr rfl⟩)
  | inHandler active =>
    rw [loopStep, hpc] at hs
    cases hs
    exact .handles ⟨_, .inr hpc⟩ (by rw [readsWakeUp, hpc]) (.inr ⟨active, .inl rfl⟩)
  | expiring => rw [loopStep, hpc] at hs; cases hs; exact .expired hpc
  | calling => rw [loopStep, hpc] at hs; cases hs; exact .calls hpc
  | sizing => rw [loopStep, hpc] at hs; cases hs; exact .sizes hpc
  | popping left =>
    rw [loopStep, hpc] at hs
    cases left with
    | zero => cases hs; exact .batchOver hpc
    | succ left =>
      obtain ⟨func, rest, hq, hpop⟩ := h.pop hpc
      dsimp only at hs
      rw [hpop, Option.map_some, Option.some.injEq] at hs
      rw [← hs]
      exact .pops hpc hq
  | inFunctor left => rw [loopStep, hpc] at hs; cases hs; exact .functorReturns hpc

theorem step_cases {w w' : EventLoop} {a : Label} (h : Counted w) (hs : w.step a = some w') :
    LoopStep w a w' := by
  unfold step at hs
  cases a with
  | queueInLoop t =>
    obtain ⟨hcan, hs⟩ := Option.ite_none_right_eq_some.mp hs
    unfold EventLoop.queueInLoop at hs
    rw [h.queue.push, Option.map_some, Option.some.injEq] at hs
    rw [← hs]
    exact .queueInLoop hcan.1 hcan.2
  | quit t =>
    obtain ⟨hcan, hs⟩ := Option.ite_none_right_eq_some.mp hs
    cases hs
    unfold setQuit
    dsimp only
    split
    · rename_i ht
      exact .quit hcan.1 (.inr ⟨ht, rfl⟩)
    · exact .quit hcan.1 (.inl rfl)
  | afterQueue t => exact afterQueue_cases hs
  | loop =>
    obtain ⟨hcan, hs⟩ := Option.ite_none_right_eq_some.mp hs
    cases hs
    exact .loop hcan.1 hcan.2
  | epollWait nextTimeout =>
    obtain ⟨hpc, hs⟩ := Option.ite_none_right_eq_some.mp hs
    cases hs
    exact .epollWait hpc
  | epollReturns active =>
    dsimp only at hs
    split at hs
    · rename_i ms hpc
      cases (Option.ite_none_right_eq_some.mp hs).2
      exact .epollReturns hpc
    · cases hs
  | next =>
    obtain ⟨hidle, hs⟩ := Option.ite_none_right_eq_some.mp hs
    exact .next hidle (loopStep_cases h hs)

/-! ## The numbers over a run -/

/-- The loop thread goes where no batch is on. -/
theorem Counted.goto {w : EventLoop} (h : Counted w) (pc : LoopPc)
    (hpc : ∀ left, pc ≠ .popping left ∧ pc ≠ .inFunctor left) : Counted { w with pc } := by
  refine ⟨h.queue, h.order, fun left hp => ?_⟩
  rcases hp with hp | hp
  · exact absurd hp (hpc left).1
  · exact absurd hp (hpc left).2

theorem counted_next {w w' : EventLoop} (h : Counted w) (hs : NextStep w w') : Counted w' := by
  cases hs with
  | check hpc hpc' =>
    refine h.goto _ fun left => ?_
    rcases hpc' with he | he <;> rw [he] <;> simp
  | @reads rest hpc =>
    have hgoto := h.goto (.handling rest) (by simp)
    exact ⟨hgoto.queue, hgoto.order, hgoto.batch⟩
  | handles hpc hread hpc' =>
    refine h.goto _ fun left => ?_
    rcases hpc' with he | ⟨active, he | he⟩ <;> rw [he] <;> simp
  | expired hpc =>
    have hgoto := h.goto .calling (by simp)
    exact ⟨hgoto.queue, hgoto.order, hgoto.batch⟩
  | calls hpc =>
    have hgoto := h.goto .sizing (by simp)
    exact ⟨hgoto.queue, hgoto.order, hgoto.batch⟩
  | sizes hpc =>
    refine ⟨h.queue, h.order, fun left hp => ?_⟩
    rcases hp with hp | hp
    · rw [← LoopPc.popping.inj hp]
      exact ⟨h.lengths, Nat.le_refl _⟩
    · cases hp
  | @pops left func rest hpc hq =>
    have hbatch := h.batch _ (.inl hpc)
    refine ⟨⟨h.queue.maxsize, h.queue.wakeup⟩, ?_, fun n hp => ?_⟩
    · show (w.called ++ [func]) ++ rest = _
      rw [List.append_assoc, ← h.order, hq]
      rfl
    · rcases hp with hp | hp
      · cases hp
      · rw [← LoopPc.inFunctor.inj hp]
        refine ⟨?_, hbatch.2⟩
        show (w.called ++ [func]).length + left = w.sized
        rw [List.length_append, List.length_singleton]
        omega
  | batchOver hpc =>
    have hgoto := h.goto .check (by simp)
    exact ⟨hgoto.queue, hgoto.order, hgoto.batch⟩
  | @functorReturns left hpc =>
    refine ⟨h.queue, h.order, fun n hp => ?_⟩
    rcases hp with hp | hp
    · rw [← LoopPc.popping.inj hp]
      exact h.batch left (.inr hpc)
    · cases hp

theorem counted_step {w w' : EventLoop} {a : Label} (h : Counted w) (hs : LoopStep w a w') :
    Counted w' := by
  cases hs with
  | @queueInLoop t hidle huser =>
    refine ⟨⟨h.queue.maxsize, h.queue.wakeup⟩, ?_, fun left hpc => ?_⟩
    · show w.called ++ (w.pendingFunctors.queue ++ [w.pushers.length])
        = List.range (w.pushers ++ [t]).length
      rw [List.length_append, List.length_singleton, List.range_succ, ← h.order, List.append_assoc]
    · have hbatch := h.batch left hpc
      refine ⟨hbatch.1, ?_⟩
      show w.sized ≤ (w.pushers ++ [t]).length
      rw [List.length_append]
      exact Nat.le_add_right_of_le hbatch.2
  | quit hidle hthreads => exact ⟨h.queue, h.order, h.batch⟩
  | afterQueue hpc hn => exact ⟨h.queue, h.order, h.batch⟩
  | loop hidle hpc =>
    have hgoto := h.goto .check (by simp)
    exact ⟨hgoto.queue, hgoto.order, hgoto.batch⟩
  | epollWait hpc => exact h.goto _ (by simp)
  | epollReturns hpc => exact h.goto _ (by simp)
  | next hidle hs => exact counted_next h hs

theorem counted_init (tid : ThreadId) : Counted (create tid) where
  queue := BlockingQueue.create_unbounded
  order := rfl
  batch left hp := by
    rcases hp with hp | hp
    · cases hp
    · cases hp

end EventLoop

end Windz
