import Windz.Net.TimerCancel
import Windz.Net.TimerExpiredInvariant

/-!
# A call of `HandleExpired` as a whole

The invariant goes through every step of a call, also through the cancels of its callbacks.
Each iteration takes an entry out of the heap, or runs a timer for the first time, or is
the last one, which bounds their number.
-/

namespace Windz

open Lib

open TimerManager (Label TimerStep step_cases stored_step modify_timers canceled_eq
  cancelNow_cases events_cancel add_others sameTimers_modify)

namespace ExpiredCall

/-! ## Runs of a call -/

/-- A cancel in the call sets the flag, and records it, unless it is set or the timer freed. -/
theorem Inv.cancelNow {w₀ : TimerManager} {now : Timestamp} {c : ExpiredCall} {e : TimerEntry}
    (h : Inv w₀ now c) (hready : Ready w₀) (huser : c.world.userCode = true)
    (he : e < c.world.timers.length) :
    Inv w₀ now
      { world := c.world.cancelNow e
        events := c.events ++ c.world.events (.cancel true e) (c.world.cancelNow e) } := by
  have hstored := stored_step h.stored (.cancel huser he)
  rcases cancelNow_cases c.world he with ⟨_, heq⟩ | ⟨_, hflag, heq⟩ | ⟨_, hflag, heq⟩
  · have hnone : c.world.events (.cancel true e) (c.world.cancelNow e) = [] := by
      rw [heq, events_cancel]
      cases c.world.canceled e <;> rfl
    rw [hnone, List.append_nil, heq]
    exact h
  · have hnone : c.world.events (.cancel true e) (c.world.cancelNow e) = [] := by
      rw [events_cancel, hflag]
      rfl
    rw [hnone, List.append_nil]
    rw [heq] at hstored ⊢
    exact h.keep hready hstored rfl rfl (Nat.le_refl _) (fun _ _ => rfl) (fun _ _ => rfl)
      (fun _ _ => rfl) (show c.events = c.events ++ [] from (List.append_nil _).symm) rfl
      (fun _ _ => by simp [TimerManager.canceled])
  · have ht := List.getElem?_eq_getElem he
    have hset : (c.world.modify e fun t => { t with canceled := true }).canceled e = true :=
      canceled_eq (t := { c.world.timers[e] with canceled := true })
        (by rw [modify_timers, if_pos rfl, ht]; rfl)
    have hone : c.world.events (.cancel true e) (c.world.cancelNow e) = [.canceled e] := by
      rw [heq, events_cancel, hflag, hset]
      rfl
    rw [hone]
    rw [heq] at hstored ⊢
    have hsame := sameTimers_modify c.world e (f := fun t => { t with canceled := true })
      (fun _ => rfl) (fun _ => rfl) fun _ => rfl
    refine h.keep hready hstored rfl rfl hsame.length.ge (fun k _ => congrFun hsame.when k)
      (fun k _ => congrFun hsame.repeats k) (fun k _ => congrFun hsame.interval k) rfl ?_ ?_
    · unfold ran
      rw [List.filterMap_append]
      exact List.append_nil _
    · intro k hk
      by_cases hek : e = k
      · subst hek
        rw [hset]
        simp
      · unfold TimerManager.canceled
        rw [modify_timers, if_neg hek]
        simp [Ne.symm hek]

theorem inv_step {w₀ : TimerManager} {now : Timestamp} {c c' : ExpiredCall} {a : Label}
    (h : Inv w₀ now c) (hready : Ready w₀) (hok : c.During a) (hfits : c.Fits a)
    (hs : c.step a = some c') : Inv w₀ now c' := by
  obtain ⟨w, hw, rfl⟩ := Option.map_eq_some_iff.mp hs
  have hstep := step_cases h.stored hw
  have hstored := stored_step h.stored hstep
  obtain ⟨hbusy, hok⟩ := hok
  cases hstep with
  | add huser hperm => exact absurd hok (by simp)
  | queueAdd =>
    refine h.keep hready hstored rfl rfl (by simp) (fun e he => (add_others rfl he).1)
      (fun e he => (add_others rfl he).2.1) (fun e he => (add_others rfl he).2.2)
      (show _ = c.events ++ [] from rfl) ?_ ?_
    · unfold ran
      rw [List.filterMap_append]
      exact List.append_nil _
    · intro e he
      unfold TimerManager.canceled
      rw [List.getElem?_append_left he]
      simp
  | cancel huser he => exact h.cancelNow hready huser he
  | queueCancel he =>
    rename_i e
    have hnone : c.world.events (.cancel false e)
        { c.world with functors := c.world.functors ++ [.cancel e] } = [] := by
      rw [events_cancel]
      show (if (!c.world.canceled e && c.world.canceled e) = true then _ else _) = _
      cases c.world.canceled e <;> rfl
    rw [hnone, List.append_nil]
    exact h.keep hready hstored rfl rfl (Nat.le_refl _) (fun _ _ => rfl) (fun _ _ => rfl)
      (fun _ _ => rfl) (show c.events = c.events ++ [] from (List.append_nil _).symm) rfl
      (fun _ _ => by simp [TimerManager.canceled])
  | push hidle _ _ => exact absurd hidle hbusy
  | runCancel hidle _ => exact absurd hidle hbusy
  | enter hidle => exact absurd hidle hbusy
  | leave hphase hroot =>
    obtain rfl := h.now_eq hphase
    rw [show c.world.events .iterate { c.world with phase := .idle } = [] from rfl,
      List.append_nil]
    exact h.leave hphase fun r hr => (hroot r hr).2
  | drop hphase hcons hflag hpop =>
    rename_i n r rest heap
    obtain rfl := h.now_eq hphase
    have hnone : c.world.events .iterate { c.world with heap } = [] := by
      unfold TimerManager.events
      rw [show ({ c.world with heap } : TimerManager).phase = c.world.phase from rfl, hphase]
    rw [hnone, List.append_nil]
    exact h.drop hphase hcons hflag hpop
  | start hphase hcons hflag hdue =>
    obtain rfl := h.now_eq hphase
    exact h.start hphase hcons hflag hdue
  | again hphase ht hrep hdown =>
    rename_i n clock e t heap
    obtain ⟨rfl, _, _⟩ := h.root hphase
    have hone : ∀ w', c.world.events (.callbackReturns clock) w' = [.restarted e clock] := by
      intro w'
      unfold TimerManager.events
      rw [hphase]
      show (if ((c.world.timers[e]?).elim false Timer.repeats) = true then _ else _) = _
      rw [ht]
      exact if_pos hrep
    rw [hone]
    exact h.again hready hphase ht hrep hdown hok hfits
  | finish hphase ht hrep hpop =>
    rename_i n clock e t heap
    obtain ⟨rfl, _, _⟩ := h.root hphase
    have hnone : ∀ w', c.world.events (.callbackReturns clock) w' = [] := by
      intro w'
      unfold TimerManager.events
      rw [hphase]
      show (if ((c.world.timers[e]?).elim false Timer.repeats) = true then _ else _) = _
      rw [ht]
      exact if_neg (by simp [hrep])
    rw [hnone, List.append_nil]
    exact h.finish hphase ht hrep hpop

theorem ran_append {w : TimerManager} {l evs : List ExpiredEvent} :
    ran { world := w, events := l ++ evs }
      = ran { world := w, events := l } ++ ran { world := w, events := evs } := by
  unfold ran
  rw [List.filterMap_append]

/-- The heap does not grow in a call. -/
theorem heap_length_le {w w' : TimerManager} {a : Label} (hs : TimerStep w a w')
    (hbusy : w.phase ≠ .idle) (hadd : ∀ when interval, a ≠ .addTimer true when interval) :
    w'.heap.length ≤ w.heap.length := by
  cases hs with
  | add _ _ => exact absurd rfl (hadd _ _)
  | queueAdd => exact Nat.le_refl _
  | cancel _ he =>
    rcases cancelNow_cases w he with ⟨_, heq⟩ | ⟨_, _, heq⟩ | ⟨_, _, heq⟩
    · rw [heq]
    · rw [heq]
    · rw [heq]
      exact Nat.le_refl _
  | queueCancel _ => exact Nat.le_refl _
  | push hidle _ _ => exact absurd hidle hbusy
  | runCancel hidle _ => exact absurd hidle hbusy
  | enter hidle => exact absurd hidle hbusy
  | leave _ _ => exact Nat.le_refl _
  | drop _ _ _ hpop => exact TimerHeap.popInHeap_length_le hpop
  | start _ _ _ _ => exact Nat.le_refl _
  | again _ _ _ hdown => exact (TimerHeap.downInHeap_length hdown).le
  | finish _ _ _ hpop => exact TimerHeap.popInHeap_length_le hpop

/-- An iteration is the last one, or drops an entry, or runs a timer. -/
theorem iterate_length {w₀ : TimerManager} {now : Timestamp} {c c' : ExpiredCall}
    (h : Inv w₀ now c) (hs : c.step .iterate = some c') :
    c'.world.phase = .idle ∨ c'.world.heap.length + 1 ≤ c.world.heap.length
      ∨ c'.ran.length = c.ran.length + 1 := by
  obtain ⟨w, hw, rfl⟩ := Option.map_eq_some_iff.mp hs
  cases step_cases h.stored hw with
  | leave _ _ => exact .inl rfl
  | drop hphase hcons hflag hpop =>
    rename_i n r rest heap
    refine .inr (.inl ?_)
    show heap.length + 1 ≤ c.world.heap.length
    rw [hcons] at hpop ⊢
    rw [TimerHeap.popInHeap_length hpop]
    rfl
  | start hphase hcons hflag hdue =>
    rename_i n r rest
    refine .inr (.inr ?_)
    rw [ran_append, List.length_append]
    rfl

/-- How many iterations there have been. -/
def iterations (as : List Label) : Nat := (as.filter (· = .iterate)).length

theorem inv_run {w₀ : TimerManager} {now : Timestamp} {c : ExpiredCall} {as : List Label}
    (hready : Ready w₀)
    (hr : Run (machine w₀ now) (fun c a => c.During a ∧ c.Fits a) (enter w₀ now) as c) :
    Inv w₀ now c
      ∧ iterations as + c.world.heap.length
        ≤ w₀.heap.length + c.ran.length + (if c.world.phase = .idle then 1 else 0) := by
  induction hr with
  | nil =>
    refine ⟨inv_enter hready now, ?_⟩
    show 0 + w₀.heap.length ≤ w₀.heap.length + 0 + 0
    omega
  | tail hr hok hs ih =>
    rename_i as c c' a
    obtain ⟨hinv, hcount⟩ := ih
    obtain ⟨⟨hbusy, hduring⟩, hfits⟩ := hok
    refine ⟨inv_step hinv hready ⟨hbusy, hduring⟩ hfits hs, ?_⟩
    rw [if_neg hbusy] at hcount
    obtain ⟨w, hw, hc'⟩ := Option.map_eq_some_iff.mp hs
    have hran : c.ran.length ≤ c'.ran.length := by
      rw [← hc', ran_append, List.length_append]
      exact Nat.le_add_right _ _
    have hheap : c'.world.heap.length ≤ c.world.heap.length := by
      rw [← hc']
      refine heap_length_le (step_cases hinv.stored hw) hbusy ?_
      rintro when interval rfl
      exact absurd hduring (by simp)
    have hiter : iterations (as ++ [a]) = iterations as + (if a = .iterate then 1 else 0) := by
      unfold iterations
      rw [List.filter_append, List.length_append]
      by_cases ha : a = .iterate
      · rw [if_pos ha, ha]
        rfl
      · rw [if_neg ha, List.filter_cons_of_neg (by simpa using ha)]
        rfl
    rw [hiter]
    by_cases ha : a = .iterate
    · subst ha
      rw [if_pos rfl]
      rcases iterate_length hinv hs with hidle | hdrop | hrun
      · rw [if_pos hidle]
        omega
      · omega
      · omega
    · rw [if_neg ha]
      omega

/-! ## The call as a whole -/

/-- What a call leaves behind. -/
structure Completed (w₀ : TimerManager) (now : Timestamp) (c : ExpiredCall) : Prop where
  /-- The timers that were due and not cancelled before their turn have run, and no others. -/
  exactly : ∀ e, e ∈ c.ran ↔ e ∈ w₀.heap ∧ w₀.when e ≤ now ∧ ¬ CanceledFirst w₀ c e
  /-- Heap order. -/
  ordered : TimerHeap.Ordered c.world.when c.world.heap
  /-- Each timer is there once. -/
  nodup : c.world.heap.Nodup
  /-- None is due that is not cancelled. -/
  late : ∀ e ∈ c.world.heap, c.world.canceled e = false → now < c.world.when e
  /-- Nothing was added. -/
  sub : ∀ e ∈ c.world.heap, e ∈ w₀.heap
  /-- What is gone was cancelled, or had run and does not repeat. -/
  lost : ∀ e ∈ w₀.heap, e ∉ c.world.heap →
    c.world.canceled e = true ∨ e ∈ c.ran ∧ c.world.repeats e = false
  /-- What has run and stays has its next deadline. -/
  restarted : ∀ e ∈ c.world.heap, e ∈ c.ran → c.world.repeats e = true
    ∧ ∃ clock, ExpiredEvent.restarted e clock ∈ c.events ∧ now ≤ clock
      ∧ c.world.when e = clock.add (w₀.interval e)

theorem Inv.completed {w₀ : TimerManager} {now : Timestamp} {c : ExpiredCall} (h : Inv w₀ now c)
    (hidle : c.world.phase = .idle) : Completed w₀ now c where
  exactly := by
    intro e
    refine ⟨fun he => ⟨(h.due e he).1, (h.due e he).2, h.turn e he⟩, ?_⟩
    rintro ⟨he, hdue, hnot⟩
    by_contra hran
    by_cases hmem : e ∈ c.world.heap
    · -- it would be due still
      have hlate := h.left hidle e hmem
      rw [h.waits e hmem hran, Timestamp.lt_iff] at hlate
      rw [Timestamp.le_iff] at hdue
      omega
    · -- it was cancelled while it waited
      rcases h.lost e he hmem with hflag | ⟨hran', _⟩
      · rcases (h.flags e he).mp hflag with hold | hev
        · exact hnot (.inl hold)
        · obtain ⟨l₁, l₂, hsplit⟩ := List.append_of_mem hev
          refine hnot (.inr ⟨l₁, l₂, hsplit, fun hin => hran (mem_ran.mpr ?_)⟩)
          rw [hsplit]
          exact List.mem_append_left _ hin
      · exact hran hran'
  ordered := h.ordered
  nodup := (List.nodup_append.mp h.stored.nodup).1
  late := fun e he _ => h.left hidle e he
  sub := h.sub
  lost := h.lost
  restarted := by
    intro e he hran
    obtain ⟨hrep, _, clock, hev, hclock, heq⟩ :=
      h.rerun e he hran (TimerManager.not_running_of_idle hidle e)
    rw [h.interval e (h.sub e he)] at heq
    exact ⟨hrep, clock, hev, hclock, heq⟩

/-- The loop can always go on. -/
theorem progress {w₀ : TimerManager} {now : Timestamp} {c : ExpiredCall} (h : Inv w₀ now c)
    (hfault : c.world.fault = none) (hbusy : c.world.phase ≠ .idle) :
    (c.step .iterate).isSome = true ∨ ∀ clock, (c.step (.callbackReturns clock)).isSome = true := by
  unfold step TimerManager.step
  rw [hfault]
  rcases h.phase with hp | hp | ⟨e, hp, _⟩
  · exact absurd hp hbusy
  · left
    simp [hp]
  · right
    intro clock
    simp [hp]

/-- The assertion of `Timer::Cancel` holds while second cancels find the timer freed. -/
theorem fault_run {w₀ : TimerManager} {now : Timestamp} {c : ExpiredCall} {as : List Label}
    (h : Ready w₀) (hr : Run (machine w₀ now) (fun c a => c.world.CancelsFreed a)
      (enter w₀ now) as c) : c.world.fault = none := by
  refine (hr.invariant (I := fun c => c.world.Stored ∧ c.world.fault = none)
    ⟨stored_step h.stored (.enter h.idle), h.running⟩ ?_).2
  rintro c a c' ⟨hstored, hfault⟩ hok hs
  obtain ⟨w, hw, rfl⟩ := Option.map_eq_some_iff.mp hs
  exact ⟨stored_step hstored (step_cases hstored hw),
    TimerManager.fault_step hstored hfault hok hw⟩

/-- **One call of `HandleExpired`.** As long as every new deadline fits into the `int64_t`, it ends
after at most two iterations for each entry and one more, it runs every timer at most once, in the
order of the deadlines, and when it has returned the timers that were due and not cancelled before
their turn have run, and the others wait. No access is out of bounds, and the loop can always go on
as long as no second cancel of a callback finds its timer still there. -/
theorem handleExpired_runs_due (w₀ : TimerManager) (now : Timestamp) (as : List Label)
    (c : ExpiredCall) (hready : Ready w₀)
    (hr : Run (machine w₀ now) (fun c a => c.During a ∧ c.Fits a) (enter w₀ now) as c) :
    (iterations as ≤ 2 * w₀.heap.length + 1
        ∧ c.world.fault ≠ some .outOfBounds
        ∧ (c.world.fault = none → c.world.phase ≠ .idle →
          (c.step .iterate).isSome = true
            ∨ ∀ clock, (c.step (.callbackReturns clock)).isSome = true)
        ∧ (Run (machine w₀ now) (fun c a => c.world.CancelsFreed a) (enter w₀ now) as c →
          c.world.fault = none))
      ∧ c.ran.Nodup ∧ (c.ran.Pairwise fun a b => w₀.when a ≤ w₀.when b)
      ∧ (c.world.phase = .idle → Completed w₀ now c) := by
  obtain ⟨hinv, hcount⟩ := inv_run hready hr
  have hlen : c.ran.length ≤ w₀.heap.length :=
    (List.subperm_of_subset hinv.once fun e he => (hinv.due e he).1).length_le
  refine ⟨⟨?_, hinv.stored.bounds, progress hinv, fault_run hready⟩, hinv.once, hinv.sorted,
    hinv.completed⟩
  split at hcount <;> omega

/-- A one-shot timer cancels the next one, and a repeating one runs once. -/
theorem handleExpired_runs_due_small : ∃ w₀ c as,
    Run (machine w₀ ⟨100⟩) (fun c a => c.During a ∧ c.Fits a) (enter w₀ ⟨100⟩) as c
      ∧ c.world.phase = .idle ∧ c.ran = [0, 2] ∧ c.world.heap = [2, 3] ∧ c.ran.Nodup
      ∧ Completed w₀ ⟨100⟩ c := by
  have hexec : ((TimerManager.machine.exec TimerManager.AddsNotBefore TimerManager.create
      [.addTimer true ⟨50⟩ ⟨0⟩, .addTimer true ⟨55⟩ ⟨0⟩, .addTimer true ⟨60⟩ ⟨7⟩,
        .addTimer true ⟨500⟩ ⟨0⟩]).bind fun w₀ =>
      ((machine w₀ ⟨100⟩).exec (fun c a => c.During a ∧ c.Fits a) (enter w₀ ⟨100⟩)
        [.iterate, .cancel true 1, .callbackReturns ⟨101⟩, .iterate, .iterate,
          .callbackReturns ⟨102⟩, .iterate]).map fun c =>
        decide ((w₀.phase = .idle ∧ w₀.fault = none
            ∧ ∀ e ∈ w₀.heap, w₀.repeats e = true → 0 < (w₀.interval e).nanosecond.toInt)
          ∧ c.world.phase = .idle ∧ c.ran = [0, 2] ∧ c.world.heap = [2, 3])) = some true := by
    decide +kernel
  obtain ⟨w₀, hw₀, hexec⟩ := Option.bind_eq_some_iff.mp hexec
  obtain ⟨c, hc, hexec⟩ := Option.map_eq_some_iff.mp hexec
  obtain ⟨⟨hidle₀, hfault, hpositive⟩, hidle, hran, hheap⟩ := of_decide_eq_true hexec
  have hreach : Reachable TimerManager.machine TimerManager.AddsNotBefore w₀ :=
    (Reachable.init rfl).run (Machine.exec_run _ hw₀)
  have hready : Ready w₀ :=
    { stored := TimerManager.stored_reachable hreach, idle := hidle₀, running := hfault
      ordered := (TimerManager.inv_reachable hreach).ordered, positive := hpositive }
  have hr := Machine.exec_run _ hc
  obtain ⟨_, hnodup, _, hend⟩ := handleExpired_runs_due w₀ ⟨100⟩ _ c hready hr
  exact ⟨w₀, c, _, hr, hidle, hran, hheap, hnodup, hend hidle⟩

/-- A deadline that does not fit is in the past, and the timer runs again in the same call. -/
theorem overflowing_timer_runs_twice : ¬ ∀ w₀ now as c, Ready w₀ →
    Run (machine w₀ now) During (enter w₀ now) as c → c.ran.Nodup := by
  intro hall
  have hexec : ((TimerManager.machine.exec TimerManager.AddsNotBefore TimerManager.create
      [.addTimer true ⟨50⟩ ⟨9223372036854775807⟩]).bind fun w₀ =>
      ((machine w₀ ⟨100⟩).exec During (enter w₀ ⟨100⟩)
        [.iterate, .callbackReturns ⟨101⟩, .iterate]).map fun c =>
        decide ((w₀.phase = .idle ∧ w₀.fault = none
            ∧ ∀ e ∈ w₀.heap, w₀.repeats e = true → 0 < (w₀.interval e).nanosecond.toInt)
          ∧ ¬ c.ran.Nodup)) = some true := by
    decide +kernel
  obtain ⟨w₀, hw₀, hexec⟩ := Option.bind_eq_some_iff.mp hexec
  obtain ⟨c, hc, hexec⟩ := Option.map_eq_some_iff.mp hexec
  obtain ⟨⟨hidle₀, hfault, hpositive⟩, htwice⟩ := of_decide_eq_true hexec
  have hreach : Reachable TimerManager.machine TimerManager.AddsNotBefore w₀ :=
    (Reachable.init rfl).run (Machine.exec_run _ hw₀)
  have hready : Ready w₀ :=
    { stored := TimerManager.stored_reachable hreach, idle := hidle₀, running := hfault
      ordered := (TimerManager.inv_reachable hreach).ordered, positive := hpositive }
  exact htwice (hall w₀ ⟨100⟩ _ c hready (Machine.exec_run _ hc))

end ExpiredCall

end Windz
