import Windz.Net.EventLoopThreadProof

/-!
# The destructor of an `EventLoopThread`

`EventLoopThread` up to `loop_.Reset(nullptr)`, and what `ThreadFunc` does behind it: it
unlocks `mutex_`, destroys its `EventLoop` and returns. The destructor reads `loop_` twice,
for its test and for `loop_->Quit()`, and joins on one branch only, without `mutex_`. On
the other one `~Thread` detaches.

Ghost: `quitThroughNull`, whether the destructor has called `Quit` through a `loop_` that
was null by then. Nothing is said of what happens behind that call.
-/

namespace Windz

open Lib

/-- Where `ThreadFunc` stands once it has cleared `loop_`. -/
inductive FuncTail where
  | cleared
  | loopDestroyed
  | returned
deriving DecidableEq

/-- An `EventLoopThread` up to the end of its thread. -/
structure LoopThreadLife where
  /-- The object and its loop. -/
  base : EventLoopThread
  /-- How far the new thread is behind `loop_.Reset(nullptr)`. -/
  tail : FuncTail
  /-- Ghost: `Quit` was called through null. -/
  quitThroughNull : Bool

namespace LoopThreadLife

/-- The constructor. -/
def create (tid ownerTid : ThreadId) : LoopThreadLife :=
  { base := .create tid ownerTid, tail := .cleared, quitThroughNull := false }

/-- `loop_` is cleared, and `ThreadFunc` stands at `tail`. -/
def behindClear (w : LoopThreadLife) (tail : FuncTail) : Bool :=
  w.base.pc = .finished ∧ w.tail = tail

/-- The steps of the object, and those behind its `loop_`. -/
inductive Label where
  | base (a : EventLoopThread.Label)
  -- the new thread: `~EventLoop`, and the end of `ThreadFunc`
  | destroyLoop
  | funcReturns
  /-- Another thread calls `Quit` on a loop that has ended and is not yet destroyed. -/
  | lateQuit (t : ThreadId)
  /-- The destructor's `loop_->Quit()` with `loop_` null. -/
  | quitNull
deriving DecidableEq

/-- A step of the object. -/
def stepBase (w : LoopThreadLife) (a : EventLoopThread.Label) : Option LoopThreadLife :=
  (w.base.step a).map fun base => { w with base }

/-- One step, `none` where it is not enabled. -/
def step (w : LoopThreadLife) (a : Label) : Option LoopThreadLife :=
  if w.quitThroughNull then none else
  match a with
  -- `thread_.Join()` waits for the end of `ThreadFunc`
  | .base .join => if w.behindClear .returned then w.stepBase .join else none
  | .base a => w.stepBase a
  | .destroyLoop => if w.behindClear .cleared then some { w with tail := .loopDestroyed } else none
  | .funcReturns =>
      if w.behindClear .loopDestroyed then some { w with tail := .returned } else none
  | .lateQuit t =>
      if w.behindClear .cleared ∧ t ≠ w.base.loop.tid then
        (w.base.stepLoop (.quit t)).map fun base => { w with base }
      else none
  | .quitNull =>
      if w.base.owner = .quitting ∧ w.base.hasLoop = false then
        some { w with quitThroughNull := true }
      else none

/-- An `EventLoopThread` with an owner of another thread. -/
def machine (tid ownerTid : ThreadId) : Machine LoopThreadLife Label where
  init := fun w => w = create tid ownerTid ∧ ownerTid ≠ tid
  step := step

/-! ## The destructor and `ThreadFunc` -/

/-- The destructor has not called `Quit` through a null `loop_`, and when it has returned, so has
`ThreadFunc`. -/
def DestroyedInOrder (w : LoopThreadLife) : Prop :=
  w.quitThroughNull = false ∧ (w.base.owner = .destroyed → w.behindClear .returned = true)

/-- The destructor is called after `Start` has returned. -/
def AfterStart (w : LoopThreadLife) : Label → Prop
  | .base .destroy => w.base.owner = .started
  | _ => True

/-- The destructor tests `loop_` before the thread clears it or when `ThreadFunc` has returned, and
the thread does not clear it between that test and `loop_->Quit()`. -/
def ClearedInTime (w : LoopThreadLife) : Label → Prop
  | .base .testLoop => w.base.hasLoop = true ∨ w.behindClear .returned = true
  | .base .clear => w.base.owner ≠ .quitting
  | _ => True

instance (w : LoopThreadLife) (a : Label) : Decidable (w.AfterStart a) :=
  match a with
  | .base .destroy => inferInstanceAs (Decidable (w.base.owner = .started))
  | .base .start | .base .startReturns | .base .testLoop | .base .ownerQuit | .base .join
  | .base .publish | .base .enterLoop | .base .loopReturns | .base .clear | .base (.loop _)
  | .base (.quit _) | .destroyLoop | .funcReturns | .lateQuit _ | .quitNull => .isTrue trivial

instance (w : LoopThreadLife) (a : Label) : Decidable (w.ClearedInTime a) :=
  match a with
  | .base .testLoop =>
      inferInstanceAs (Decidable (w.base.hasLoop = true ∨ w.behindClear .returned = true))
  | .base .clear => inferInstanceAs (Decidable (w.base.owner ≠ .quitting))
  | .base .start | .base .startReturns | .base .destroy | .base .ownerQuit | .base .join
  | .base .publish | .base .enterLoop | .base .loopReturns | .base (.loop _) | .base (.quit _)
  | .destroyLoop | .funcReturns | .lateQuit _ | .quitNull => .isTrue trivial

/-- What a step does. -/
inductive LifeStep (w : LoopThreadLife) : Label → LoopThreadLife → Prop where
  | base {a : EventLoopThread.Label} {base : EventLoopThread}
      (h : EventLoopThread.ThreadStep w.base a base)
      (hjoin : a = .join → w.behindClear .returned = true) : LifeStep w (.base a) { w with base }
  | destroyLoop (h : w.behindClear .cleared = true) :
      LifeStep w .destroyLoop { w with tail := .loopDestroyed }
  | funcReturns (h : w.behindClear .loopDestroyed = true) :
      LifeStep w .funcReturns { w with tail := .returned }
  | lateQuit {t : ThreadId} {loop : EventLoop} (h : w.behindClear .cleared = true) :
      LifeStep w (.lateQuit t) { w with base := { w.base with loop } }
  | quitNull (ho : w.base.owner = .quitting) (hl : w.base.hasLoop = false) :
      LifeStep w .quitNull { w with quitThroughNull := true }

theorem step_base {w w' : LoopThreadLife} {a : EventLoopThread.Label}
    (hjoin : a = .join → w.behindClear .returned = true) (h : w.stepBase a = some w') :
    LifeStep w (.base a) w' := by
  obtain ⟨base, hb, he⟩ := Option.map_eq_some_iff.mp h
  rw [← he]
  exact .base (EventLoopThread.step_cases hb) hjoin

theorem step_cases {w w' : LoopThreadLife} {a : Label} (h : w.step a = some w') :
    w.quitThroughNull = false ∧ LifeStep w a w' := by
  unfold step at h
  obtain ⟨hnull, h⟩ := Option.ite_none_left_eq_some.mp h
  refine ⟨Bool.eq_false_iff.mpr hnull, ?_⟩
  cases a with
  | base b =>
    by_cases hb : b = .join
    · rw [hb] at h ⊢
      obtain ⟨hret, h⟩ := Option.ite_none_right_eq_some.mp h
      exact step_base (fun _ => hret) h
    · refine step_base (fun hj => absurd hj hb) ?_
      cases b with
      | join => exact absurd rfl hb
      | _ => exact h
  | destroyLoop =>
    obtain ⟨hc, h⟩ := Option.ite_none_right_eq_some.mp h
    rw [← Option.some.inj h]
    exact .destroyLoop hc
  | funcReturns =>
    obtain ⟨hc, h⟩ := Option.ite_none_right_eq_some.mp h
    rw [← Option.some.inj h]
    exact .funcReturns hc
  | lateQuit t =>
    obtain ⟨⟨hc, _⟩, h⟩ := Option.ite_none_right_eq_some.mp h
    obtain ⟨base, hb, he⟩ := Option.map_eq_some_iff.mp h
    obtain ⟨loop, _, hl⟩ := Option.map_eq_some_iff.mp hb
    rw [← he, ← hl]
    exact .lateQuit hc
  | quitNull =>
    obtain ⟨⟨ho, hl⟩, h⟩ := Option.ite_none_right_eq_some.mp h
    rw [← Option.some.inj h]
    exact .quitNull ho hl

/-- The destructor calls `Quit` only through a `loop_` that is set. -/
structure InTime (w : LoopThreadLife) : Prop where
  ordered : w.DestroyedInOrder
  quitting : w.base.owner = .quitting → w.base.hasLoop = true

theorem behindClear_iff {w : LoopThreadLife} {tail : FuncTail} :
    w.behindClear tail = true ↔ w.base.pc = .finished ∧ w.tail = tail := by
  unfold behindClear
  rw [decide_eq_true_eq]

theorem inTime_create (tid ownerTid : ThreadId) : InTime (create tid ownerTid) where
  ordered := ⟨rfl, fun ho => absurd ho (by simp [create, EventLoopThread.create])⟩
  quitting := fun ho => absurd ho (by simp [create, EventLoopThread.create])

/-- The thread goes on in `ThreadFunc` up to the end of `Loop`: the destructor has not returned. -/
theorem InTime.goesOn {w : LoopThreadLife} (h : InTime w) {base : EventLoopThread}
    (hpc : w.base.pc ≠ .finished) (howner : base.owner = w.base.owner)
    (hloop : w.base.owner = .quitting → base.hasLoop = true) : InTime { w with base } where
  ordered := by
    refine ⟨h.ordered.1, fun ho => ?_⟩
    have hret := h.ordered.2 (howner.symm.trans ho)
    exact absurd (behindClear_iff.mp hret).1 hpc
  quitting := fun ho => hloop (howner.symm.trans ho)

/-- The owner goes on, and not behind the destructor. -/
theorem InTime.owner {w : LoopThreadLife} (h : InTime w) {base : EventLoopThread}
    (hreturns : base.owner ≠ .destroyed) (hquitting : base.owner ≠ .quitting) :
    InTime { w with base } where
  ordered := ⟨h.ordered.1, fun ho => absurd ho hreturns⟩
  quitting := fun ho => absurd ho hquitting

/-- The destructor returns, and so has `ThreadFunc`. -/
theorem InTime.destroyed {w : LoopThreadLife} (h : InTime w)
    (hret : w.behindClear .returned = true) :
    InTime { w with base := { w.base with owner := .destroyed } } where
  ordered := ⟨h.ordered.1, fun _ => hret⟩
  quitting := fun ho => absurd ho (by simp)

/-- **A step keeps this.** -/
theorem inTime_step {w w' : LoopThreadLife} {a : Label} (h : InTime w) (hok : w.ClearedInTime a)
    (hs : w.step a = some w') : InTime w' := by
  cases (step_cases hs).2 with
  | @base a base hstep hjoin =>
    cases hstep with
    | start ho => exact h.owner (by simp) (by simp)
    | startReturns ho hl => exact h.owner (by simp) (by simp)
    | destroy ho => exact h.owner (by simp) (by simp)
    | ownerQuit ho hl hq => exact h.owner (by simp) (by simp)
    | testLoop ho =>
      by_cases hl : w.base.hasLoop = true
      · rw [if_pos hl]
        exact ⟨⟨h.ordered.1, fun he => absurd he (by simp)⟩, fun _ => hl⟩
      · rw [if_neg hl]
        exact h.destroyed (hok.resolve_left hl)
    | join ho hi hpc => exact h.destroyed (hjoin rfl)
    | publish hpc => exact h.goesOn (by rw [hpc]; simp) rfl fun _ => rfl
    | enterLoop hpc hl => exact h.goesOn (by rw [hpc]; simp) rfl h.quitting
    | loopReturns hpc hout => exact h.goesOn (by rw [hpc]; simp) rfl h.quitting
    | clear hpc => exact h.goesOn (by rw [hpc]; simp) rfl fun ho => absurd ho hok
    | loop hc hl => exact { h with }
    | quit hc hl => exact { h with }
  | destroyLoop hc =>
    refine ⟨⟨h.ordered.1, fun ho => ?_⟩, h.quitting⟩
    have hret := (behindClear_iff.mp (h.ordered.2 ho)).2
    exact absurd ((behindClear_iff.mp hc).2.symm.trans hret) (by simp)
  | funcReturns hc =>
    refine ⟨⟨h.ordered.1, fun _ => ?_⟩, h.quitting⟩
    exact behindClear_iff.mpr ⟨(behindClear_iff.mp hc).1, rfl⟩
  | lateQuit hc => exact { h with }
  | quitNull ho hl => exact absurd ((h.quitting ho).symm.trans hl) (by simp)

theorem inTime_run {tid ownerTid : ThreadId} {w w' : LoopThreadLife} {as : List Label}
    (h : InTime w)
    (hr : Run (machine tid ownerTid) (fun w a => w.AfterStart a ∧ w.ClearedInTime a) w as w') :
    InTime w' :=
  hr.invariant h fun _ _ _ hi hok hs => inTime_step hi hok.2 hs

theorem inTime_reachable {tid ownerTid : ThreadId} {w : LoopThreadLife}
    (h : Reachable (machine tid ownerTid) (fun w a => w.AfterStart a ∧ w.ClearedInTime a) w) :
    InTime w := by
  refine h.invariant (I := InTime) ?_ fun w a w' _ hi hok hs => inTime_step hi hok.2 hs
  intro w hw
  rw [hw.1]
  exact inTime_create tid ownerTid

/-- **Where the destructor goes wrong.** A step that is not in time is followed by a return of the
destructor before that of `ThreadFunc`, or by a `Quit` through null. -/
theorem not_inOrder_of_late (tid ownerTid : ThreadId) {w w' : LoopThreadLife} {a : Label}
    (hlate : ¬ w.ClearedInTime a) (hs : w.step a = some w') :
    ∃ as w'', Run (machine tid ownerTid) (fun w a => w.AfterStart a ∧ w.ClearedInTime a) w' as w''
      ∧ ¬ w''.DestroyedInOrder := by
  obtain ⟨hnull, hstep⟩ := step_cases hs
  cases hstep with
  | @base a base hstep hjoin =>
    cases hstep with
    | testLoop ho =>
      have hl : ¬ w.base.hasLoop = true := fun hl => hlate (.inl hl)
      refine ⟨[], _, .nil, fun hgood => hlate (.inr ?_)⟩
      exact hgood.2 (if_neg hl)
    | clear hpc =>
      have ho : w.base.owner = .quitting := by
        by_contra hne
        exact hlate hne
      let u : LoopThreadLife := { w with base := { w.base with hasLoop := false, pc := .finished } }
      have hquit : u.step .quitNull = some { u with quitThroughNull := true } := by
        unfold step
        rw [if_neg (by rw [show u.quitThroughNull = false from hnull]; simp)]
        exact if_pos ⟨ho, rfl⟩
      have hok : u.AfterStart .quitNull ∧ u.ClearedInTime .quitNull := ⟨trivial, trivial⟩
      exact ⟨_, _, Run.one hok hquit, fun hgood => absurd hgood.1 (by simp)⟩
    | _ => exact absurd trivial hlate
  | _ => exact absurd trivial hlate

/-- **Destroyed in order.** In every run in which the destructor is called after `Start` has
returned, tests `loop_` before the thread clears it or when `ThreadFunc` has returned, and finds it
not cleared between that test and its call of `Quit`: it never calls `Quit` through null, and
returns only when `ThreadFunc` has. And a step keeps all of this true, whatever comes then, if and
only if it is one of these. -/
theorem destroyed_in_order {tid ownerTid : ThreadId} {w : LoopThreadLife}
    (h : Reachable (machine tid ownerTid) (fun w a => w.AfterStart a ∧ w.ClearedInTime a) w) :
    w.DestroyedInOrder ∧ ∀ a w', w.AfterStart a → w.step a = some w' →
      (w.ClearedInTime a ↔ ∀ as w'',
        Run (machine tid ownerTid) (fun w a => w.AfterStart a ∧ w.ClearedInTime a) w' as w'' →
          w''.DestroyedInOrder) := by
  have hin := inTime_reachable h
  refine ⟨hin.ordered, fun a w' _ hs => ⟨fun hok as w'' hr => ?_, fun hall => ?_⟩⟩
  · exact (inTime_run (inTime_step hin hok hs) hr).ordered
  · by_contra hlate
    obtain ⟨as, w'', hr, hbad⟩ := not_inOrder_of_late tid ownerTid hlate hs
    exact hbad (hall as w'' hr)

/-- Someone else ends the loop behind the destructor's call of `Quit`, which joins the thread. -/
theorem destroyed_in_order_small : ∃ w,
    Reachable (machine 1 0) (fun w a => w.AfterStart a ∧ w.ClearedInTime a) w
      ∧ w.base.owner = .destroyed ∧ w.DestroyedInOrder := by
  have hinit : (machine 1 0).init (create 1 0) := ⟨rfl, by decide⟩
  have hexec : ((machine 1 0).exec (fun w a => w.AfterStart a ∧ w.ClearedInTime a) (create 1 0)
      [.base .start, .base .publish, .base .startReturns, .base .enterLoop, .base .destroy,
        .base .testLoop, .base .ownerQuit, .base (.quit 2), .base (.loop .next), .base .loopReturns,
        .base (.loop (.afterQueue 0)), .base .clear, .lateQuit 3, .destroyLoop, .funcReturns,
        .base .join]).map (fun w => decide (w.base.owner = .destroyed)) = some true := by
    decide +kernel
  obtain ⟨w, hr, hp⟩ := Machine.exec_reachable hinit hexec
  exact ⟨w, hr, of_decide_eq_true hp, (destroyed_in_order hr).1⟩

/-- Someone else ends the loop, and the thread clears `loop_` between the destructor's test of it
and the call of `Quit`. -/
theorem quit_through_null : ¬ ∀ w, Reachable (machine 1 0) AfterStart w → w.DestroyedInOrder := by
  intro hall
  have hinit : (machine 1 0).init (create 1 0) := ⟨rfl, by decide⟩
  have hexec : ((machine 1 0).exec AfterStart (create 1 0)
      [.base .start, .base .publish, .base .startReturns, .base .enterLoop, .base (.quit 2),
        .base (.loop .next), .base .loopReturns, .base .destroy, .base .testLoop, .base .clear,
        .quitNull]).map (fun w => w.quitThroughNull) = some true := by decide +kernel
  obtain ⟨w, hr, hp⟩ := Machine.exec_reachable hinit hexec
  exact absurd ((hall w hr).1.symm.trans hp) (by simp)

end LoopThreadLife

end Windz
