import Windz.Net.TimerSteps

/-!
# Cancelling timers

The functor of `CancelTimer` runs at once in the loop thread, and when the loop
comes to it otherwise. From the first one on the timer is silent: its flag is set
or nothing holds it any more, and this is never undone, wherever the timer was.

`Timer::Cancel` asserts that the flag is not set. A second call is harmless only
when its functor finds the timer freed; a timer that is cancelled stays in the
heap until it has come to the root.
-/

namespace Windz

open Lib

namespace TimerManager

/-- The timer whose cancel functor the step runs. -/
def cancels (w : TimerManager) : Label → Option TimerEntry
  | .cancel inLoop e => if inLoop then some e else none
  | .functor =>
      match w.functors with
      | .cancel e :: _ => some e
      | .push _ :: _ | [] => none
  | .addTimer _ _ _ | .handleExpired _ | .iterate | .callbackReturns _ => none

/-- The state without the functor that the step takes from the queue. -/
def served (w : TimerManager) : Label → TimerManager
  | .functor => { w with functors := w.functors.tail }
  | .addTimer _ _ _ | .cancel _ _ | .handleExpired _ | .iterate | .callbackReturns _ => w

theorem cancels_inv {w : TimerManager} {a : Label} {e : TimerEntry} (hc : w.cancels a = some e) :
    a = .cancel true e ∨ a = .functor ∧ ∃ rest, w.functors = .cancel e :: rest := by
  cases a with
  | cancel inLoop k =>
    obtain ⟨rfl, rfl⟩ : inLoop = true ∧ k = e := by simpa [cancels] using hc
    exact .inl rfl
  | functor =>
    refine .inr ⟨rfl, ?_⟩
    simp only [cancels] at hc
    split at hc
    · rename_i k rest hqueue
      obtain rfl := Option.some.inj hc
      exact ⟨rest, hqueue⟩
    · exact absurd hc (by simp)
    · exact absurd hc (by simp)
  | addTimer inLoop when interval => exact absurd hc (by simp [cancels])
  | handleExpired now => exact absurd hc (by simp [cancels])
  | iterate => exact absurd hc (by simp [cancels])
  | callbackReturns clock => exact absurd hc (by simp [cancels])

theorem cancels_eq {w w' : TimerManager} {a : Label} {e : TimerEntry} (hc : w.cancels a = some e)
    (hs : w.step a = some w') : w' = (w.served a).cancelNow e := by
  unfold step at hs
  split at hs
  · exact absurd hs (by simp)
  · rcases cancels_inv hc with rfl | ⟨rfl, rest, hqueue⟩
    · dsimp only at hs
      split at hs
      · exact absurd hs (by simp)
      · exact (Option.some.inj hs).symm
    · obtain ⟨_, hs⟩ := Option.ite_none_right_eq_some.mp hs
      simp only [runFunctor, hqueue, Option.some.injEq] at hs
      rw [← hs]
      show _ = ({ w with functors := w.functors.tail } : TimerManager).cancelNow e
      rw [hqueue]
      rfl

theorem cancels_known {w w' : TimerManager} {a : Label} {e : TimerEntry} (h : Stored w)
    (hc : w.cancels a = some e) (hs : w.step a = some w') : e < w.timers.length := by
  rcases cancels_inv hc with rfl | ⟨rfl, rest, hqueue⟩
  · cases step_cases h hs with
    | cancel _ he => exact he
  · exact h.asked e (by rw [hqueue]; exact List.mem_cons_self)

/-- Taking a cancel from the queue holds the same timers. -/
theorem served_alive {w : TimerManager} {a : Label} {e : TimerEntry} (hc : w.cancels a = some e)
    (k : TimerEntry) : (w.served a).alive k = w.alive k := by
  rcases cancels_inv hc with rfl | ⟨rfl, rest, hqueue⟩
  · rfl
  · rw [Bool.eq_iff_iff, alive_iff, alive_iff]
    show k ∈ w.heap ∨ TimerFunctor.push k ∈ w.functors.tail ∨ w.Running k ↔ _
    rw [hqueue, List.tail_cons, List.mem_cons]
    simp

theorem served_timers (w : TimerManager) (a : Label) : (w.served a).timers = w.timers := by
  cases a <;> rfl

/-! ## Silent for ever -/

/-- The callback of the timer cannot be started any more. -/
structure Silent (w : TimerManager) (e : TimerEntry) : Prop where
  known : e < w.timers.length
  stopped : w.canceled e = true ∨ w.alive e = false

theorem Silent.keeps {w w' : TimerManager} {e : TimerEntry} (h : Silent w e)
    (hk : Keeps w w' e) : Silent w' e ∧ w'.started e = w.started e := by
  refine ⟨⟨hk.known, ?_⟩, ?_⟩
  · rcases h.stopped with hc | ha
    · exact .inl (hk.flag hc)
    · right
      rw [Bool.eq_false_iff] at ha ⊢
      exact fun h' => ha (hk.held h')
  · rcases hk.count with hcount | ⟨hc, ha, _⟩
    · exact hcount
    · rcases h.stopped with hc' | ha'
      · exact absurd (hc'.symm.trans hc) (by simp)
      · exact absurd (ha'.symm.trans ha) (by simp)

/-- The functor of a cancel leaves the timer silent, wherever it was. -/
theorem silent_cancel {w w' : TimerManager} {a : Label} {e : TimerEntry} (h : Stored w)
    (hc : w.cancels a = some e) (hs : w.step a = some w') : Silent w' e := by
  have hknown := cancels_known h hc hs
  have he : e < (w.served a).timers.length := by
    rw [served_timers]
    exact hknown
  rw [cancels_eq hc hs]
  rcases cancelNow_cases (w.served a) he with ⟨hgone, heq⟩ | ⟨_, hflag, heq⟩ | ⟨_, _, heq⟩
  · rw [heq]
    exact ⟨he, .inr hgone⟩
  · rw [heq]
    exact ⟨he, .inl hflag⟩
  · rw [heq]
    refine ⟨by rw [modify_length]; exact he, .inl ?_⟩
    rw [canceled_eq (w := (w.served a).modify e _)
      (by rw [modify_timers, if_pos rfl, List.getElem?_eq_getElem he]; rfl)]

theorem silent_run {ok : TimerManager → Label → Prop} {w w' : TimerManager} {e : TimerEntry}
    {as : List Label} (h : Stored w) (hsilent : Silent w e) (hr : Run machine ok w as w') :
    Stored w' ∧ Silent w' e ∧ w'.started e = w.started e := by
  refine hr.invariant (I := fun v => Stored v ∧ Silent v e ∧ v.started e = w.started e)
    ⟨h, hsilent, rfl⟩ ?_
  rintro u a u' ⟨hu, hsil, hcount⟩ _ hs
  have hstep := step_cases hu hs
  obtain ⟨hsil', hcount'⟩ := hsil.keeps (keeps_step hstep hu.asked hsil.known)
  exact ⟨stored_step hu hstep, hsil', hcount'.trans hcount⟩

/-- **A cancelled timer is never started again**, whatever the loop and other threads do, and
wherever the timer was when the functor of the cancel ran. -/
theorem canceled_timer_silent (w w₁ w₂ : TimerManager) (e : TimerEntry) (a : Label)
    (as : List Label) (h : Reachable machine (fun _ _ => True) w) (hc : w.cancels a = some e)
    (hs : w.step a = some w₁) (hr : Run machine (fun _ _ => True) w₁ as w₂) :
    w₂.started e = w₁.started e := by
  have hstored := stored_reachable h
  exact (silent_run (stored_step hstored (step_cases hstored hs)) (silent_cancel hstored hc hs)
    hr).2.2

/-- A repeating timer is cancelled in its own callback, just before it is restarted. -/
theorem canceled_timer_silent_running : ∃ w₁ w₂ as, Run machine (fun _ _ => True) w₁ as w₂
    ∧ w₁.phase = .running ⟨100⟩ 0 ∧ w₂.phase = .idle ∧ w₂.heap = [] ∧ w₁.started 0 = 1
    ∧ w₂.started 0 = w₁.started 0 := by
  have hexec : ((machine.exec (fun _ _ => True) create
      [.addTimer true ⟨50⟩ ⟨7⟩, .handleExpired ⟨100⟩, .iterate]).bind fun w =>
        (w.step (.cancel true 0)).bind fun w₁ =>
          (machine.exec (fun _ _ => True) w₁ [.callbackReturns ⟨101⟩, .iterate, .iterate]).map
            fun w₂ => decide (w.cancels (.cancel true 0) = some 0 ∧ w₁.phase = .running ⟨100⟩ 0
              ∧ w₂.phase = .idle ∧ w₂.heap = [] ∧ w₁.started 0 = 1)) = some true := by
    decide +kernel
  obtain ⟨w, hw, hexec⟩ := Option.bind_eq_some_iff.mp hexec
  obtain ⟨w₁, hs, hexec⟩ := Option.bind_eq_some_iff.mp hexec
  obtain ⟨w₂, hw₂, hexec⟩ := Option.map_eq_some_iff.mp hexec
  obtain ⟨hc, hrunning, hidle, hheap, hstarted⟩ := of_decide_eq_true hexec
  have hreach : Reachable machine (fun _ _ => True) w :=
    (Reachable.init rfl).run (Machine.exec_run _ hw)
  have hrun := Machine.exec_run _ hw₂
  exact ⟨w₁, w₂, _, hrun, hrunning, hidle, hheap, hstarted,
    canceled_timer_silent w w₁ w₂ 0 _ _ hreach hc hs hrun⟩

/-! ## Cancelling twice -/

/-- The functor of a cancel finds its timer freed, if the timer was cancelled before. -/
def CancelsFreed (w : TimerManager) (a : Label) : Prop :=
  ∀ e ∈ w.cancels a, w.canceled e = true → w.alive e = false

instance (w : TimerManager) (a : Label) : Decidable (w.CancelsFreed a) :=
  inferInstanceAs (Decidable (∀ e ∈ w.cancels a, w.canceled e = true → w.alive e = false))

/-- The functor of some `CancelTimer` for `e` has run. -/
def CanceledBefore (w : TimerManager) (e : TimerEntry) : Prop :=
  ∃ w₀ w₁ a as, Reachable machine (fun _ _ => True) w₀ ∧ w₀.cancels a = some e
    ∧ w₀.step a = some w₁ ∧ Run machine (fun _ _ => True) w₁ as w

theorem CanceledBefore.silent {w : TimerManager} {e : TimerEntry} (h : CanceledBefore w e) :
    Stored w ∧ Silent w e := by
  obtain ⟨w₀, w₁, a, as, hreach, hc, hs, hr⟩ := h
  have hstored := stored_reachable hreach
  obtain ⟨hend, hsilent, _⟩ :=
    silent_run (stored_step hstored (step_cases hstored hs)) (silent_cancel hstored hc hs) hr
  exact ⟨hend, hsilent⟩

/-- **A second cancel does nothing exactly when the timer is freed.** -/
theorem second_cancel {w w' : TimerManager} {e : TimerEntry} {a : Label} (h : Silent w e)
    (hc : w.cancels a = some e) (hs : w.step a = some w') :
    (w' = w.served a ↔ w.alive e = false)
      ∧ (w.alive e = true → w'.fault = some .alreadyCanceled) := by
  have he : e < (w.served a).timers.length := by
    rw [served_timers]
    exact h.known
  have hflag : (w.served a).canceled e = w.canceled e := by
    unfold canceled
    rw [served_timers]
  have hnofault : w.fault = none := by
    unfold step at hs
    split at hs
    · exact absurd hs (by simp)
    · rename_i hfault
      simpa using hfault
  have hserved : (w.served a).fault = none := by
    rw [← hnofault]
    cases a <;> rfl
  rw [cancels_eq hc hs]
  rcases cancelNow_cases (w.served a) he with ⟨hgone, heq⟩ | ⟨hheld, _, heq⟩ | ⟨hheld, hnot, _⟩
  · rw [served_alive hc] at hgone
    rw [heq, hgone]
    exact ⟨iff_of_true rfl rfl, fun h => absurd h (by simp)⟩
  · rw [served_alive hc] at hheld
    rw [heq, hheld]
    refine ⟨iff_of_false ?_ (by simp), fun _ => rfl⟩
    intro heq
    rw [← heq] at hserved
    exact absurd hserved (by simp)
  · rw [served_alive hc] at hheld
    rw [hflag] at hnot
    rcases h.stopped with hc' | ha
    · exact absurd (hc'.symm.trans hnot) (by simp)
    · exact absurd (ha.symm.trans hheld) (by simp)

/-- A step without the functor of a cancel trips no assertion. -/
theorem fault_of_no_cancel {w w' : TimerManager} {a : Label} (hs : TimerStep w a w')
    (hc : w.cancels a = none) : w'.fault = w.fault := by
  cases hs with
  | cancel _ _ => exact absurd hc (by simp [cancels])
  | runCancel _ hqueue => exact absurd hc (by simp [cancels, hqueue])
  | add _ _ => rfl
  | queueAdd => rfl
  | queueCancel _ => rfl
  | push _ _ _ => rfl
  | enter _ => rfl
  | leave _ _ => rfl
  | drop _ _ _ _ => rfl
  | start _ _ _ _ => rfl
  | again _ _ _ _ => rfl
  | finish _ _ _ _ => rfl

/-- A step in which a second cancel finds the timer freed trips none either. -/
theorem fault_step {w w' : TimerManager} {a : Label} (h : Stored w) (hfault : w.fault = none)
    (hok : CancelsFreed w a) (hs : w.step a = some w') : w'.fault = none := by
  cases hc : w.cancels a with
  | none => exact (fault_of_no_cancel (step_cases h hs) hc).trans hfault
  | some e =>
    have he : e < (w.served a).timers.length := by
      rw [served_timers]
      exact cancels_known h hc hs
    have hserved : (w.served a).fault = none := by
      rw [← hfault]
      cases a <;> rfl
    rw [cancels_eq hc hs]
    rcases cancelNow_cases (w.served a) he with ⟨_, heq⟩ | ⟨hheld, hflag, _⟩ | ⟨_, _, heq⟩
    · rw [heq]
      exact hserved
    · -- such a step is not taken
      rw [served_alive hc] at hheld
      rw [canceled, served_timers] at hflag
      exact absurd ((hok e hc hflag).symm.trans hheld) (by simp)
    · rw [heq]
      exact hserved

/-- The assertion holds in every run in which second cancels find the timer freed. -/
theorem never_faults {w : TimerManager} (h : Reachable machine CancelsFreed w) :
    w.fault = none := by
  refine h.invariant (I := fun v => v.fault = none) ?_ ?_
  · rintro _ rfl
    rfl
  · intro w a w' hreach hfault hok hs
    exact fault_step (stored_reachable hreach) hfault hok hs

/-! ## Two calls and one call -/

/-- The functors a step puts into the queue. -/
def queues (w : TimerManager) : Label → List TimerFunctor
  | .addTimer inLoop _ _ => if inLoop then [] else [.push w.timers.length]
  | .cancel inLoop e => if inLoop then [] else [.cancel e]
  | .functor | .handleExpired _ | .iterate | .callbackReturns _ => []

section WithFunctors

variable (v : TimerManager) (F : List TimerFunctor)

theorem setHeap_withFunctors (heap : Option TimerHeap) :
    ({ v with functors := F } : TimerManager).setHeap heap
      = { v.setHeap heap with functors := F } := by
  cases heap <;> rfl

theorem push_withFunctors (e : TimerEntry) :
    ({ v with functors := F } : TimerManager).push e = { v.push e with functors := F } :=
  setHeap_withFunctors v F (v.heap.pushInHeap v.when e)

theorem cancelNow_withFunctors {e : TimerEntry}
    (halive : ({ v with functors := F } : TimerManager).alive e = v.alive e) :
    ({ v with functors := F } : TimerManager).cancelNow e
      = { v.cancelNow e with functors := F } := by
  unfold cancelNow
  rw [halive]
  dsimp only
  split
  · split
    · split <;> rfl
    · rfl
  · rfl

theorem cancelNow_functors (e : TimerEntry) : (v.cancelNow e).functors = v.functors :=
  (congrArg functors (cancelNow_withFunctors v v.functors (e := e) rfl)).trans rfl

theorem iterate_withFunctors (now : Timestamp) :
    ({ v with functors := F } : TimerManager).iterate now
      = { v.iterate now with functors := F } := by
  unfold iterate
  dsimp only
  split
  · rfl
  · split
    · rfl
    · split
      · exact setHeap_withFunctors v F _
      · split <;> rfl

theorem afterRun_withFunctors (e : TimerEntry) (clock : Timestamp) :
    ({ v with functors := F } : TimerManager).afterRun e clock
      = { v.afterRun e clock with functors := F } := by
  unfold afterRun
  dsimp only
  split
  · rfl
  · split
    · exact setHeap_withFunctors (v.modify e (Timer.restart clock)) F _
    · exact setHeap_withFunctors v F _

/-- Steps other than running a functor do not look into the queue. -/
theorem step_withFunctors {a : Label} (ha : a ≠ .functor)
    (halive : ∀ e, ({ v with functors := F } : TimerManager).alive e = v.alive e) :
    ({ v with functors := F } : TimerManager).step a
      = (v.step a).map fun v' => { v' with functors := F ++ v.queues a } := by
  unfold step
  dsimp only
  split
  · rfl
  · cases a with
    | addTimer inLoop when interval =>
      dsimp only
      cases inLoop with
      | false => rfl
      | true =>
        simp only [queues, if_true, List.append_nil]
        show (if (true && !v.userCode) = true then none else _) = _
        split
        · rfl
        · exact congrArg some (push_withFunctors
            { v with timers := v.timers ++ [Timer.create when interval] } F v.timers.length)
    | cancel inLoop e =>
      dsimp only
      cases inLoop with
      | false =>
        show (if (false && !v.userCode || decide (v.timers.length ≤ e)) = true then none else _) = _
        split <;> rfl
      | true =>
        simp only [queues, if_true, List.append_nil]
        show (if (true && !v.userCode || decide (v.timers.length ≤ e)) = true then none else _) = _
        split
        · rfl
        · exact congrArg some (cancelNow_withFunctors v F (halive e))
    | functor => exact absurd rfl ha
    | handleExpired now =>
      simp only [queues, List.append_nil]
      split <;> rfl
    | iterate =>
      simp only [queues, List.append_nil]
      split
      · exact congrArg some (iterate_withFunctors v F _)
      · rfl
      · rfl
    | callbackReturns clock =>
      simp only [queues, List.append_nil]
      split
      · rename_i now e _
        exact congrArg some (afterRun_withFunctors (v.returned now e) F e clock)
      · rfl
      · rfl

end WithFunctors

/-- `w` is `v`, perhaps with one more cancel of `e` in the queue. -/
def Behind (e : TimerEntry) (w v : TimerManager) : Prop :=
  w = v ∨ ∃ l₁ l₂, v.functors = l₁ ++ l₂ ∧ w = { v with functors := l₁ ++ .cancel e :: l₂ }

theorem insert_alive {v : TimerManager} {e : TimerEntry} {l₁ l₂ : List TimerFunctor}
    (hv : v.functors = l₁ ++ l₂) (k : TimerEntry) :
    ({ v with functors := l₁ ++ .cancel e :: l₂ } : TimerManager).alive k = v.alive k := by
  rw [Bool.eq_iff_iff, alive_iff, alive_iff]
  show k ∈ v.heap ∨ TimerFunctor.push k ∈ l₁ ++ .cancel e :: l₂ ∨ v.Running k ↔ _
  rw [hv]
  simp

/-- **One step of the two.** The run with the second call takes the step the other one takes, and
one step of its own, which does nothing. -/
theorem Behind.step {e : TimerEntry} {w w' v : TimerManager} {a : Label} (h : Behind e w v)
    (hsilent : Silent w e) (hok : w.CancelsFreed a) (hs : w.step a = some w') :
    (∃ v', v.step a = some v' ∧ v.CancelsFreed a ∧ Behind e w' v')
      ∨ a = .functor ∧ Behind e w' v := by
  rcases h with rfl | ⟨l₁, l₂, hv, rfl⟩
  · exact .inl ⟨w', hs, hok, .inl rfl⟩
  have halive := insert_alive (e := e) hv
  by_cases ha : a = .functor
  · subst ha
    cases l₁ with
    | nil =>
      -- the functor of the second call
      have hc : cancels { v with functors := [] ++ .cancel e :: l₂ } .functor = some e := rfl
      have hgone : TimerManager.alive { v with functors := [] ++ .cancel e :: l₂ } e = false := by
        rcases hsilent.stopped with hflag | hgone
        · exact hok e hc hflag
        · exact hgone
      have heq := ((second_cancel hsilent hc hs).1.mpr hgone)
      refine .inr ⟨rfl, .inl ?_⟩
      rw [heq]
      show { v with functors := l₂ } = v
      rw [← List.nil_append l₂, ← hv]
    | cons f l =>
      left
      have hv' : v.functors = f :: (l ++ l₂) := hv
      obtain ⟨hfault, hidle, hs⟩ : v.fault.isSome = false ∧ v.phase = .idle
          ∧ runFunctor { v with functors := f :: l ++ .cancel e :: l₂ } = some w' := by
        unfold TimerManager.step at hs
        split at hs
        · exact absurd hs (by simp)
        · rename_i hfault
          obtain ⟨hidle, hs⟩ := Option.ite_none_right_eq_some.mp hs
          exact ⟨Bool.eq_false_iff.mpr hfault, hidle, hs⟩
      have hstep : v.step .functor = v.runFunctor := by
        unfold TimerManager.step
        rw [hfault]
        exact if_pos hidle
      have hrest : ∀ k, TimerManager.alive { v with functors := l ++ .cancel e :: l₂ } k
          = TimerManager.alive { v with functors := l ++ l₂ } k :=
        insert_alive (v := { v with functors := l ++ l₂ }) rfl
      cases f with
      | push k =>
        refine ⟨TimerManager.push { v with functors := l ++ l₂ } k, ?_, ?_, .inr ⟨l, l₂, ?_, ?_⟩⟩
        · rw [hstep]
          simp only [runFunctor, hv']
        · intro k' hk'
          simp [cancels, hv'] at hk'
        · rw [push_withFunctors]
        · rw [push_withFunctors, ← Option.some.inj hs]
          exact push_withFunctors v _ k
      | cancel k =>
        refine ⟨TimerManager.cancelNow { v with functors := l ++ l₂ } k, ?_, ?_,
          .inr ⟨l, l₂, ?_, ?_⟩⟩
        · rw [hstep]
          simp only [runFunctor, hv']
        · intro k' hk' hflag
          obtain rfl : k = k' := by simpa [cancels, hv'] using hk'
          rw [← halive]
          exact hok k rfl hflag
        · exact cancelNow_functors _ k
        · rw [← Option.some.inj hs]
          exact cancelNow_withFunctors { v with functors := l ++ l₂ } _ (hrest k)
  · left
    have hcancels : v.cancels a
        = cancels { v with functors := l₁ ++ .cancel e :: l₂ } a := by
      cases a with
      | functor => exact absurd rfl ha
      | cancel inLoop k => rfl
      | addTimer inLoop when interval => rfl
      | handleExpired now => rfl
      | iterate => rfl
      | callbackReturns clock => rfl
    have hself := step_withFunctors v v.functors ha fun _ => rfl
    rw [step_withFunctors v _ ha halive] at hs
    obtain ⟨v', hv'step, rfl⟩ := Option.map_eq_some_iff.mp hs
    rw [show ({ v with functors := v.functors } : TimerManager) = v from rfl, hv'step,
      Option.map_some, Option.some.injEq] at hself
    refine ⟨v', hv'step, ?_, .inr ⟨l₁, l₂ ++ v.queues a, ?_, ?_⟩⟩
    · intro k hk hflag
      rw [← halive]
      rw [hcancels] at hk
      exact hok k hk hflag
    · rw [hself]
      show v.functors ++ _ = _
      rw [hv, List.append_assoc]
    · rw [List.append_assoc, List.cons_append]

/-- The two runs make the same calls and read the same clocks. -/
theorem Behind.run {e : TimerEntry} {w w' v : TimerManager} {as : List Label} (h : Behind e w v)
    (hstored : Stored w) (hsilent : Silent w e) (hr : Run machine CancelsFreed w as w') :
    ∃ as' v', Run machine CancelsFreed v as' v' ∧ Behind e w' v'
      ∧ as'.filter (· ≠ .functor) = as.filter (· ≠ .functor) := by
  induction hr with
  | nil => exact ⟨[], v, Run.nil, h, rfl⟩
  | tail hr hok hs ih =>
    rename_i as u u' a
    obtain ⟨as', v', hr', hbehind, hcalls⟩ := ih
    have hsilent' := (silent_run hstored hsilent hr).2.1
    rcases hbehind.step hsilent' hok hs with ⟨v'', hs', hok', hbehind'⟩ | ⟨ha, hbehind'⟩
    · refine ⟨as' ++ [a], v'', Run.tail hr' hok' hs', hbehind', ?_⟩
      rw [List.filter_append, List.filter_append, hcalls]
    · refine ⟨as', v', hr', hbehind', ?_⟩
      rw [List.filter_append, hcalls, ha]
      simp

/-- **When cancelling twice is cancelling once.** In a run whose cancels find timers that were
cancelled before freed, the assertion holds throughout, and a second call makes no difference to
anything that follows. The functor of a second call does nothing exactly when the timer is freed. -/
theorem cancel_twice (w : TimerManager) (e : TimerEntry) (h : CanceledBefore w e) :
    (∀ u, Reachable machine CancelsFreed u → u.fault = none)
      ∧ (∀ a w', w.cancels a = some e → w.step a = some w' →
        (w' = w.served a ↔ w.alive e = false)
          ∧ (w.alive e = true → w'.fault = some .alreadyCanceled))
      ∧ ∀ inLoop w₁, w.CancelsFreed (.cancel inLoop e) → w.step (.cancel inLoop e) = some w₁ →
        ∀ as w', Run machine CancelsFreed w₁ as w' →
          ∃ as' v, Run machine CancelsFreed w as' v
            ∧ as'.filter (· ≠ .functor) = as.filter (· ≠ .functor)
            ∧ w'.heap = v.heap ∧ w'.timers = v.timers ∧ w'.phase = v.phase
            ∧ w'.fault = v.fault := by
  obtain ⟨hstored, hsilent⟩ := h.silent
  refine ⟨fun u hu => never_faults hu, fun a w' hc hs => second_cancel hsilent hc hs,
    fun inLoop w₁ hok hs as w' hr => ?_⟩
  have hstep := step_cases hstored hs
  have hbehind : Behind e w₁ w := by
    cases inLoop with
    | true =>
      have hgone : w.alive e = false := by
        rcases hsilent.stopped with hflag | hgone
        · exact hok e rfl hflag
        · exact hgone
      exact .inl ((second_cancel hsilent rfl hs).1.mpr hgone)
    | false =>
      cases hstep with
      | queueCancel _ => exact .inr ⟨w.functors, [], (List.append_nil _).symm, rfl⟩
  have hsilent₁ := (hsilent.keeps (keeps_step hstep hstored.asked hsilent.known)).1
  obtain ⟨as', v, hr', hend, hcalls⟩ :=
    hbehind.run (stored_step hstored hstep) hsilent₁ hr
  refine ⟨as', v, hr', hcalls, ?_⟩
  rcases hend with rfl | ⟨l₁, l₂, _, rfl⟩
  · exact ⟨rfl, rfl, rfl, rfl⟩
  · exact ⟨rfl, rfl, rfl, rfl⟩

/-- A timer that has been dropped from the heap is cancelled a second time. -/
theorem cancel_twice_dropped : ∃ w, CanceledBefore w 0 ∧ w.fault = none ∧ w.heap = [1]
    ∧ ∀ w', w.step (.cancel true 0) = some w' → w' = w := by
  have hexec : ((machine.exec (fun _ _ => True) create
      [.addTimer true ⟨10⟩ ⟨0⟩, .addTimer true ⟨20⟩ ⟨0⟩]).bind fun w₀ =>
        (w₀.step (.cancel true 0)).bind fun w₁ =>
          (machine.exec (fun _ _ => True) w₁ [.handleExpired ⟨5⟩, .iterate, .iterate]).map
            fun w => decide (w₀.cancels (.cancel true 0) = some 0 ∧ w.fault = none
              ∧ w.heap = [1] ∧ w.alive 0 = false)) = some true := by
    decide +kernel
  obtain ⟨w₀, hw₀, hexec⟩ := Option.bind_eq_some_iff.mp hexec
  obtain ⟨w₁, hs, hexec⟩ := Option.bind_eq_some_iff.mp hexec
  obtain ⟨w, hw, hexec⟩ := Option.map_eq_some_iff.mp hexec
  obtain ⟨hc, hfault, hheap, hgone⟩ := of_decide_eq_true hexec
  have hbefore : CanceledBefore w 0 :=
    ⟨w₀, w₁, _, _, (Reachable.init rfl).run (Machine.exec_run _ hw₀), hc, hs, Machine.exec_run _ hw⟩
  refine ⟨w, hbefore, hfault, hheap, fun w' hs' => ?_⟩
  exact ((cancel_twice w 0 hbefore).2.1 (.cancel true 0) w' rfl hs').1.mpr hgone

/-- A timer below the root is cancelled twice. -/
theorem cancel_twice_asserts : ¬ ∀ w, Reachable machine (fun _ _ => True) w →
    w.fault ≠ some .alreadyCanceled := by
  intro hall
  have hexec : (machine.exec (fun _ _ => True) create
      [.addTimer true ⟨10⟩ ⟨0⟩, .addTimer true ⟨20⟩ ⟨0⟩, .cancel true 1, .cancel true 1]).map
        (fun w => decide (w.fault = some .alreadyCanceled)) = some true := by
    decide +kernel
  obtain ⟨w, hr, hp⟩ := Machine.exec_reachable rfl hexec
  exact hall w hr (of_decide_eq_true hp)

end TimerManager

end Windz
