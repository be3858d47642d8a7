import Windz.Net.TimerProof

/-!
# One step of the timers

The invariant of `TimerProof` is about runs in which no callback adds an earlier
timer. What is said here holds of every run: a timer is stored at most once, no
access is out of bounds, and a step has one of the shapes below. From them follows
what a step may do to a timer that exists: a flag that is set stays set, a timer
that nothing holds any more is not held again, and only a timer that is held and
not cancelled is started.
-/

namespace Windz

open Lib

namespace TimerManager

/-- `canceled_`. -/
def canceled (w : TimerManager) (e : TimerEntry) : Bool :=
  (w.timers[e]?).elim false Timer.canceled

/-- How often the callback was called. -/
def started (w : TimerManager) (e : TimerEntry) : Nat :=
  (w.timers[e]?).elim 0 Timer.started

/-- The invariant of all runs. -/
structure Stored (w : TimerManager) : Prop where
  nodup : (w.heap ++ w.queued).Nodup
  known : ∀ e ∈ w.heap ++ w.queued, e < w.timers.length
  asked : ∀ e, TimerFunctor.cancel e ∈ w.functors → e < w.timers.length
  running : ∀ e, w.Running e → e < w.timers.length ∧ w.heap ≠ []
  bounds : w.fault ≠ some .outOfBounds

theorem canceled_eq {w : TimerManager} {e : TimerEntry} {t : Timer} (ht : w.timers[e]? = some t) :
    w.canceled e = t.canceled := by
  unfold canceled
  rw [ht]
  rfl

theorem started_eq {w : TimerManager} {e : TimerEntry} {t : Timer} (ht : w.timers[e]? = some t) :
    w.started e = t.started := by
  unfold started
  rw [ht]
  rfl

theorem when_eq {w : TimerManager} {e : TimerEntry} {t : Timer} (ht : w.timers[e]? = some t) :
    w.when e = t.when := by
  unfold when
  rw [ht]

theorem when_congr {w w' : TimerManager} {e : TimerEntry} (h : w'.timers[e]? = w.timers[e]?) :
    w'.when e = w.when e := by
  unfold when
  rw [h]

theorem modify_elim {β : Type} {w : TimerManager} {e : TimerEntry} {f : Timer → Timer} (b : β)
    {g : Timer → β} (hf : ∀ t, g (f t) = g t) (k : TimerEntry) :
    ((w.modify e f).timers[k]?).elim b g = (w.timers[k]?).elim b g := by
  rw [modify_timers]
  split
  · cases w.timers[k]? with
    | none => rfl
    | some t => exact hf t
  · rfl

theorem modify_canceled {w : TimerManager} {e : TimerEntry} {f : Timer → Timer}
    (hf : ∀ t, (f t).canceled = t.canceled) : (w.modify e f).canceled = w.canceled :=
  funext (modify_elim false hf)

theorem modify_started {w : TimerManager} {e : TimerEntry} {f : Timer → Timer}
    (hf : ∀ t, (f t).started = t.started) : (w.modify e f).started = w.started :=
  funext (modify_elim 0 hf)

theorem modify_length (w : TimerManager) (e : TimerEntry) (f : Timer → Timer) :
    (w.modify e f).timers.length = w.timers.length := List.length_modify ..

theorem alive_iff {w : TimerManager} {e : TimerEntry} :
    w.alive e = true ↔ e ∈ w.heap ∨ TimerFunctor.push e ∈ w.functors ∨ w.Running e := by
  have hcalls : w.phase.calls e = true ↔ w.Running e := by
    unfold TimerPhase.calls Running
    cases w.phase with
    | idle => simp
    | expiring now => simp
    | running now e' => simp [eq_comm]
  rw [← hcalls]
  exact decide_eq_true_iff

/-- The functor of a cancel: the timer is gone, or the assertion fails, or the flag is set. -/
theorem cancelNow_cases (w : TimerManager) {e : TimerEntry} (he : e < w.timers.length) :
    w.alive e = false ∧ w.cancelNow e = w
      ∨ w.alive e = true ∧ w.canceled e = true
        ∧ w.cancelNow e = { w with fault := some .alreadyCanceled }
      ∨ w.alive e = true ∧ w.canceled e = false
        ∧ w.cancelNow e = w.modify e fun t => { t with canceled := true } := by
  have ht := List.getElem?_eq_getElem he
  unfold cancelNow
  rw [canceled_eq ht, ht]
  cases w.alive e with
  | false => exact .inl ⟨rfl, rfl⟩
  | true =>
    refine .inr ?_
    cases hc : w.timers[e].canceled with
    | true => exact .inl ⟨rfl, rfl, by simp [hc]⟩
    | false => exact .inr ⟨rfl, rfl, by simp [hc]⟩

/-! ## The shapes of a step -/

/-- What a step does when no access is out of bounds. -/
inductive TimerStep (w : TimerManager) : Label → TimerManager → Prop where
  | add {when : Timestamp} {interval : Duration} {heap : TimerHeap} :
      w.userCode = true → heap.Perm (w.timers.length :: w.heap) →
      TimerStep w (.addTimer true when interval)
        { w with timers := w.timers ++ [Timer.create when interval], heap }
  | queueAdd {when : Timestamp} {interval : Duration} :
      TimerStep w (.addTimer false when interval)
        { w with
          timers := w.timers ++ [Timer.create when interval]
          functors := w.functors ++ [.push w.timers.length] }
  | cancel {e : TimerEntry} :
      w.userCode = true → e < w.timers.length → TimerStep w (.cancel true e) (w.cancelNow e)
  | queueCancel {e : TimerEntry} :
      e < w.timers.length →
      TimerStep w (.cancel false e) { w with functors := w.functors ++ [.cancel e] }
  | push {e : TimerEntry} {rest : List TimerFunctor} {heap : TimerHeap} :
      w.phase = .idle → w.functors = .push e :: rest → heap.Perm (e :: w.heap) →
      TimerStep w .functor { w with functors := rest, heap }
  | runCancel {e : TimerEntry} {rest : List TimerFunctor} :
      w.phase = .idle → w.functors = .cancel e :: rest →
      TimerStep w .functor ({ w with functors := rest }.cancelNow e)
  | enter {now : Timestamp} :
      w.phase = .idle → TimerStep w (.handleExpired now) { w with phase := .expiring now }
  | leave {now : Timestamp} :
      w.phase = .expiring now →
      (∀ r, w.heap[0]? = some r → w.canceled r = false ∧ ¬ w.when r ≤ now) →
      TimerStep w .iterate { w with phase := .idle }
  | drop {now : Timestamp} {r : TimerEntry} {rest heap : TimerHeap} :
      w.phase = .expiring now → w.heap = r :: rest → w.canceled r = true →
      w.heap.popInHeap w.when = some heap → TimerStep w .iterate { w with heap }
  | start {now : Timestamp} {r : TimerEntry} {rest : TimerHeap} :
      w.phase = .expiring now → w.heap = r :: rest → w.canceled r = false → w.when r ≤ now →
      TimerStep w .iterate
        { w.modify r fun t => { t with started := t.started + 1 } with phase := .running now r }
  | again {now clock : Timestamp} {e : TimerEntry} {t : Timer} {heap : TimerHeap} :
      w.phase = .running now e → w.timers[e]? = some t → t.repeats = true →
      w.heap.downInHeap ((w.returned now e).modify e (Timer.restart clock)).when 0 = some heap →
      TimerStep w (.callbackReturns clock)
        { (w.returned now e).modify e (Timer.restart clock) with heap }
  | finish {now clock : Timestamp} {e : TimerEntry} {t : Timer} {heap : TimerHeap} :
      w.phase = .running now e → w.timers[e]? = some t → t.repeats = false →
      w.heap.popInHeap w.when = some heap →
      TimerStep w (.callbackReturns clock) { w.returned now e with heap }

theorem iterate_cases {w : TimerManager} (h : Stored w) {now : Timestamp}
    (hphase : w.phase = .expiring now) : TimerStep w .iterate (w.iterate now) := by
  unfold iterate
  split
  · rename_i hheap
    refine .leave hphase fun r hr => ?_
    rw [hheap] at hr
    exact absurd hr (by simp)
  · rename_i r rest hheap
    have hr : r < w.timers.length := h.known r (by rw [hheap]; exact List.mem_cons_self)
    have ht := List.getElem?_eq_getElem hr
    rw [ht]
    dsimp only
    have hflag := canceled_eq ht
    have hwhen := when_eq ht
    split
    · rename_i hcanceled
      obtain ⟨heap, hpop, _⟩ := TimerHeap.popInHeap_perm w.when r rest
      rw [← hheap] at hpop
      rw [hpop]
      exact .drop hphase hheap (hflag.trans hcanceled) hpop
    · rename_i hcanceled
      have hcanceled := hflag.trans (Bool.eq_false_iff.mpr hcanceled)
      split
      · rename_i hdue
        exact .start hphase hheap hcanceled (by rw [hwhen]; exact hdue)
      · rename_i hdue
        refine .leave hphase fun r' hr' => ?_
        rw [hheap] at hr'
        obtain rfl := Option.some.inj hr'
        exact ⟨hcanceled, by rw [hwhen]; exact hdue⟩

/-- What `finished` is not part of is what it was before the callback returned. -/
theorem returned_elim {β : Type} {w : TimerManager} (now : Timestamp) {e : TimerEntry} (b : β)
    {g : Timer → β} (hf : ∀ t, g { t with finished := t.finished + 1 } = g t) (k : TimerEntry) :
    ((w.returned now e).timers[k]?).elim b g = (w.timers[k]?).elim b g :=
  modify_elim (w := w) (e := e) (f := fun t => { t with finished := t.finished + 1 }) b hf k

theorem returned_when (w : TimerManager) (now : Timestamp) (e : TimerEntry) :
    (w.returned now e).when = w.when :=
  modify_when (w := w) (e := e) (f := fun t => { t with finished := t.finished + 1 }) fun _ => rfl

theorem afterRun_cases {w : TimerManager} (h : Stored w) {now : Timestamp} {e : TimerEntry}
    (hphase : w.phase = .running now e) (clock : Timestamp) :
    TimerStep w (.callbackReturns clock) ((w.returned now e).afterRun e clock) := by
  obtain ⟨he, hne⟩ := h.running e ⟨now, hphase⟩
  have ht := List.getElem?_eq_getElem he
  have hret : (w.returned now e).timers[e]?
      = some { w.timers[e] with finished := w.timers[e].finished + 1 } := by
    show (w.modify e _).timers[e]? = _
    rw [modify_timers, if_pos rfl, ht]
    rfl
  unfold afterRun
  rw [hret]
  dsimp only
  split
  · rename_i hrep
    obtain ⟨heap, hdown, _⟩ := TimerHeap.downInHeap_perm
      ((w.returned now e).modify e (Timer.restart clock)).when w.heap 0
    change TimerStep w _ (((w.returned now e).modify e (Timer.restart clock)).setHeap
      (w.heap.downInHeap ((w.returned now e).modify e (Timer.restart clock)).when 0))
    rw [hdown]
    exact .again hphase ht hrep hdown
  · rename_i hrep
    obtain ⟨r, rest, hheap⟩ := List.exists_cons_of_ne_nil hne
    obtain ⟨heap, hpop, _⟩ := TimerHeap.popInHeap_perm w.when r rest
    rw [← hheap] at hpop
    change TimerStep w _ ((w.returned now e).setHeap
      (w.heap.popInHeap (w.returned now e).when))
    rw [returned_when, hpop]
    exact .finish hphase ht (Bool.eq_false_iff.mpr hrep) hpop

theorem addTimer_cases {w : TimerManager} {inLoop : Bool} (when : Timestamp) (interval : Duration)
    (huser : inLoop = true → w.userCode = true) :
    TimerStep w (.addTimer inLoop when interval) (w.addTimer inLoop when interval) := by
  cases inLoop with
  | false => exact .queueAdd
  | true =>
    obtain ⟨heap, hpush, hperm⟩ := TimerHeap.pushInHeap_perm
      ({ w with timers := w.timers ++ [Timer.create when interval] } : TimerManager).when w.heap
      w.timers.length
    have hadd : w.addTimer true when interval
        = { w with timers := w.timers ++ [Timer.create when interval], heap } := by
      unfold addTimer push
      dsimp only
      rw [if_pos rfl, hpush]
      rfl
    rw [hadd]
    exact .add (huser rfl) hperm

theorem step_cases {w w' : TimerManager} {a : Label} (h : Stored w) (hs : w.step a = some w') :
    TimerStep w a w' := by
  unfold step at hs
  split at hs
  · exact absurd hs (by simp)
  · cases a with
    | addTimer inLoop when interval =>
      dsimp only at hs
      split at hs
      · exact absurd hs (by simp)
      · rename_i hguard
        rw [Option.some.injEq] at hs
        subst hs
        exact addTimer_cases when interval (by intro hin; simpa [hin] using hguard)
    | cancel inLoop e =>
      dsimp only at hs
      split at hs
      · exact absurd hs (by simp)
      · rename_i hguard
        rw [Option.some.injEq] at hs
        subst hs
        obtain ⟨huser, he⟩ : (inLoop = true → w.userCode = true) ∧ e < w.timers.length := by
          simpa using hguard
        cases inLoop with
        | false => exact .queueCancel he
        | true => exact .cancel (huser rfl) he
    | functor =>
      obtain ⟨hidle, hs⟩ := Option.ite_none_right_eq_some.mp hs
      unfold runFunctor at hs
      split at hs
      · exact absurd hs (by simp)
      · rename_i e rest hfunctors
        rw [Option.some.injEq] at hs
        subst hs
        obtain ⟨heap, hpush, hperm⟩ := TimerHeap.pushInHeap_perm w.when w.heap e
        have hpushed : ({ w with functors := rest } : TimerManager).push e
            = { w with functors := rest, heap } := by
          show TimerManager.setHeap _ (w.heap.pushInHeap w.when e) = _
          rw [hpush]
          rfl
        rw [hpushed]
        exact .push hidle hfunctors hperm
      · rename_i e rest hfunctors
        rw [Option.some.injEq] at hs
        subst hs
        exact .runCancel hidle hfunctors
    | handleExpired now =>
      obtain ⟨hidle, hs⟩ := Option.ite_none_right_eq_some.mp hs
      rw [Option.some.injEq] at hs
      subst hs
      exact .enter hidle
    | iterate =>
      dsimp only at hs
      split at hs
      · rename_i now hphase
        rw [Option.some.injEq] at hs
        subst hs
        exact iterate_cases h hphase
      · exact absurd hs (by simp)
      · exact absurd hs (by simp)
    | callbackReturns clock =>
      dsimp only at hs
      split at hs
      · rename_i now e hphase
        rw [Option.some.injEq] at hs
        subst hs
        exact afterRun_cases h hphase clock
      · exact absurd hs (by simp)
      · exact absurd hs (by simp)

/-! ## What a step does to a timer -/

/-- What a step may do to a timer that exists. -/
structure Keeps (w w' : TimerManager) (e : TimerEntry) : Prop where
  known : e < w'.timers.length
  held : w'.alive e = true → w.alive e = true
  flag : w.canceled e = true → w'.canceled e = true
  count : w'.started e = w.started e
    ∨ w.canceled e = false ∧ w.alive e = true ∧ w'.started e = w.started e + 1

/-- A step that leaves the timer as it is only has to keep it from being held again. -/
theorem Keeps.same {w w' : TimerManager} {e : TimerEntry} (he : e < w.timers.length)
    (htimer : w'.timers[e]? = w.timers[e]?) (held : w'.alive e = true → w.alive e = true) :
    Keeps w w' e where
  known := by
    have hlt := List.getElem?_eq_getElem he
    rw [← htimer] at hlt
    exact (List.getElem?_eq_some_iff.mp hlt).1
  held := held
  flag := by
    intro h
    unfold canceled
    rw [htimer]
    exact h
  count := by
    left
    unfold started
    rw [htimer]

theorem keeps_cancelNow {w : TimerManager} {e k : TimerEntry} (he : e < w.timers.length)
    (hk : k < w.timers.length) : Keeps w (w.cancelNow e) k := by
  rcases cancelNow_cases w he with ⟨_, heq⟩ | ⟨_, _, heq⟩ | ⟨_, _, heq⟩
  · rw [heq]
    exact .same hk rfl id
  · rw [heq]
    exact .same hk rfl id
  · rw [heq]
    refine { known := ?_, held := id, flag := ?_, count := .inl ?_ }
    · rw [modify_length]
      exact hk
    · intro hflag
      unfold canceled
      rw [modify_timers]
      split
      · rw [List.getElem?_eq_getElem hk]
        rfl
      · exact hflag
    · rw [modify_started]
      intro _
      rfl

/-- Forgetting functors and changing the phase does not make a timer held. -/
theorem alive_of_heap {w w' : TimerManager} {e : TimerEntry}
    (hheap : ∀ k ∈ w'.heap, k ∈ w.heap ∨ TimerFunctor.push k ∈ w.functors)
    (hfunctors : ∀ f ∈ w'.functors, f = .push e → f ∈ w.functors)
    (hrunning : ∀ k, w'.Running k → w.alive k = true) (h : w'.alive e = true) :
    w.alive e = true := by
  rcases alive_iff.mp h with h | h | h
  · rcases hheap e h with h | h
    · exact alive_iff.mpr (.inl h)
    · exact alive_iff.mpr (.inr (.inl h))
  · exact alive_iff.mpr (.inr (.inl (hfunctors _ h rfl)))
  · exact hrunning e h

theorem not_running_of_idle {w : TimerManager} (h : w.phase = .idle) (e : TimerEntry) :
    ¬ w.Running e := by
  rintro ⟨now, hrun⟩
  exact TimerPhase.noConfusion (h.symm.trans hrun)

theorem not_running_of_expiring {w : TimerManager} {now : Timestamp} (h : w.phase = .expiring now)
    (e : TimerEntry) : ¬ w.Running e := by
  rintro ⟨n, hrun⟩
  exact TimerPhase.noConfusion (h.symm.trans hrun)

/-- **One step, one timer.** -/
theorem keeps_step {w w' : TimerManager} {a : Label} {e : TimerEntry}
    (hs : TimerStep w a w') (hasked : ∀ k, TimerFunctor.cancel k ∈ w.functors → k < w.timers.length)
    (he : e < w.timers.length) : Keeps w w' e := by
  have hrunning : ∀ k, w.Running k → w.alive k = true := fun k hk => alive_iff.mpr (.inr (.inr hk))
  have hfunctors : ∀ f ∈ w.functors, f = .push e → f ∈ w.functors := fun _ hf _ => hf
  have hheap : ∀ k ∈ w.heap, k ∈ w.heap ∨ TimerFunctor.push k ∈ w.functors := fun _ hk => .inl hk
  cases hs with
  | add _ hperm =>
    refine .same he (List.getElem?_append_left he) fun h => ?_
    rcases alive_iff.mp h with h | h
    · rcases List.mem_cons.mp (hperm.mem_iff.mp h) with h | h
      · exact absurd h he.ne
      · exact alive_iff.mpr (.inl h)
    · exact alive_iff.mpr (.inr h)
  | queueAdd =>
    refine .same he (List.getElem?_append_left he) (alive_of_heap hheap ?_ hrunning)
    intro f hf hfe
    rcases List.mem_append.mp hf with hf | hf
    · exact hf
    · have hnew : e = w.timers.length :=
        TimerFunctor.push.inj (hfe.symm.trans (List.mem_singleton.mp hf))
      exact absurd hnew he.ne
  | cancel _ hk => exact keeps_cancelNow hk he
  | queueCancel _ =>
    refine .same he rfl (alive_of_heap hheap ?_ hrunning)
    intro f hf hfe
    rcases List.mem_append.mp hf with hf | hf
    · exact hf
    · rw [hfe] at hf
      exact absurd hf (by simp)
  | push hidle hqueue hperm =>
    refine .same he rfl (alive_of_heap ?_ ?_ hrunning)
    · intro k hk
      rcases List.mem_cons.mp (hperm.mem_iff.mp hk) with hk | hk
      · right
        rw [hk, hqueue]
        exact List.mem_cons_self
      · exact .inl hk
    · intro f hf _
      rw [hqueue]
      exact List.mem_cons_of_mem _ hf
  | runCancel hidle hqueue =>
    rename_i k rest
    have hrest : ({ w with functors := rest } : TimerManager).alive e = true →
        w.alive e = true := by
      refine alive_of_heap hheap ?_ hrunning
      intro f hf _
      rw [hqueue]
      exact List.mem_cons_of_mem _ hf
    have hk : k < w.timers.length := hasked k (by rw [hqueue]; exact List.mem_cons_self)
    have hkeeps := keeps_cancelNow (w := { w with functors := rest }) hk he
    refine { known := hkeeps.known, held := fun h => hrest (hkeeps.held h), flag := hkeeps.flag
             count := ?_ }
    rcases hkeeps.count with hcount | ⟨hc, hheld, hcount⟩
    · exact .inl hcount
    · exact .inr ⟨hc, hrest hheld, hcount⟩
  | enter hidle =>
    refine .same he rfl (alive_of_heap hheap hfunctors ?_)
    rintro k ⟨n, hn⟩
    exact TimerPhase.noConfusion hn
  | leave hphase _ =>
    refine .same he rfl (alive_of_heap hheap hfunctors ?_)
    rintro k ⟨n, hn⟩
    exact TimerPhase.noConfusion hn
  | drop hphase hcons hcanceled hpop =>
    refine .same he rfl (alive_of_heap ?_ hfunctors hrunning)
    intro k hk
    exact .inl (TimerHeap.popInHeap_mem hpop hk)
  | start hphase hcons hcanceled hdue =>
    rename_i now r rest
    have hr : r ∈ w.heap := by rw [hcons]; exact List.mem_cons_self
    refine { known := ?_, held := alive_of_heap hheap hfunctors ?_, flag := ?_, count := ?_ }
    · show e < (w.modify r _).timers.length
      rw [modify_length]
      exact he
    · rintro k ⟨n, hn⟩
      rw [← (TimerPhase.running.inj hn).2]
      exact alive_iff.mpr (.inl hr)
    · intro h
      rw [← modify_canceled (w := w) (e := r)
        (f := fun t => { t with started := t.started + 1 }) fun _ => rfl] at h
      exact h
    · show (w.modify r _).started e = _ ∨ _ ∧ _ ∧ (w.modify r _).started e = _
      by_cases hre : r = e
      · right
        subst hre
        have ht := List.getElem?_eq_getElem he
        refine ⟨hcanceled, alive_iff.mpr (.inl hr), ?_⟩
        rw [started_eq ht, started_eq (w := w.modify r _) (by
          rw [modify_timers, if_pos rfl, ht]; rfl)]
      · left
        unfold started
        rw [modify_timers, if_neg hre]
  | again hphase ht hrep hdown =>
    rename_i now clock k t heap
    have hcanceled : ((w.returned now k).modify k (Timer.restart clock)).canceled = w.canceled :=
      (modify_canceled (Timer.restart_canceled clock)).trans (modify_canceled (w := w) fun _ => rfl)
    have hstarted : ((w.returned now k).modify k (Timer.restart clock)).started = w.started :=
      (modify_started (Timer.restart_started clock)).trans (modify_started (w := w) fun _ => rfl)
    refine { known := ?_, held := alive_of_heap ?_ hfunctors ?_, flag := ?_, count := .inl ?_ }
    · show e < ((w.returned now k).modify k _).timers.length
      rw [modify_length]
      show e < (w.modify k _).timers.length
      rw [modify_length]
      exact he
    · intro k' hk'
      exact .inl ((TimerHeap.downInHeap_mem hdown).mp hk')
    · rintro k' ⟨n, hn⟩
      exact TimerPhase.noConfusion hn
    · intro h
      rw [← hcanceled] at h
      exact h
    · rw [← hstarted]
      rfl
  | finish hphase ht hrep hpop =>
    rename_i now clock k t heap
    refine { known := ?_, held := alive_of_heap ?_ hfunctors ?_, flag := ?_, count := .inl ?_ }
    · show e < (w.modify k _).timers.length
      rw [modify_length]
      exact he
    · intro k' hk'
      exact .inl (TimerHeap.popInHeap_mem hpop hk')
    · rintro k' ⟨n, hn⟩
      exact TimerPhase.noConfusion hn
    · intro h
      rw [← modify_canceled (w := w) (e := k)
        (f := fun t => { t with finished := t.finished + 1 }) fun _ => rfl] at h
      exact h
    · rw [← modify_started (w := w) (e := k)
        (f := fun t => { t with finished := t.finished + 1 }) fun _ => rfl]
      rfl

/-! ## The invariant of all runs -/

theorem queued_append (w : TimerManager) (f : List TimerFunctor) :
    queued { w with functors := w.functors ++ f }
      = w.queued ++ queued { w with functors := f } := by
  unfold queued
  rw [List.filterMap_append]

/-- A step that stores nothing new. -/
theorem Stored.next {w w' : TimerManager} (h : Stored w)
    (hlen : w.timers.length ≤ w'.timers.length)
    (hpool : (w'.heap ++ w'.queued).Subperm (w.heap ++ w.queued))
    (hasked : ∀ e, TimerFunctor.cancel e ∈ w'.functors →
      TimerFunctor.cancel e ∈ w.functors ∨ e < w'.timers.length)
    (hrunning : ∀ e, w'.Running e → e < w'.timers.length ∧ w'.heap ≠ [])
    (hbounds : w'.fault ≠ some .outOfBounds) : Stored w' where
  nodup := by
    obtain ⟨l, hperm, hsub⟩ := hpool
    exact hperm.nodup_iff.mp (h.nodup.sublist hsub)
  known := fun e he => (h.known e (hpool.subset he)).trans_le hlen
  asked := by
    intro e he
    rcases hasked e he with he | he
    · exact (h.asked e he).trans_le hlen
    · exact he
  running := hrunning
  bounds := hbounds

/-- A step that stores the timer just made. -/
theorem Stored.make {w w' : TimerManager} (h : Stored w)
    (hlen : w'.timers.length = w.timers.length + 1)
    (hpool : (w'.heap ++ w'.queued).Perm (w.timers.length :: (w.heap ++ w.queued)))
    (hasked : ∀ e, TimerFunctor.cancel e ∈ w'.functors → TimerFunctor.cancel e ∈ w.functors)
    (hphase : w'.phase = w.phase) (hheap : w.heap ≠ [] → w'.heap ≠ [])
    (hfault : w'.fault = w.fault) : Stored w' where
  nodup := by
    rw [hpool.nodup_iff, List.nodup_cons]
    exact ⟨fun hmem => Nat.lt_irrefl _ (h.known _ hmem), h.nodup⟩
  known := by
    intro e he
    rw [hlen]
    rcases List.mem_cons.mp (hpool.mem_iff.mp he) with he | he
    · rw [he]
      exact Nat.lt_succ_self _
    · exact (h.known e he).trans (Nat.lt_succ_self _)
  asked := by
    intro e he
    rw [hlen]
    exact (h.asked e (hasked e he)).trans (Nat.lt_succ_self _)
  running := by
    rintro e ⟨now, hrun⟩
    rw [hphase] at hrun
    obtain ⟨he, hne⟩ := h.running e ⟨now, hrun⟩
    rw [hlen]
    exact ⟨he.trans (Nat.lt_succ_self _), hheap hne⟩
  bounds := by
    rw [hfault]
    exact h.bounds

theorem stored_cancelNow {w : TimerManager} (h : Stored w) {e : TimerEntry}
    (he : e < w.timers.length) : Stored (w.cancelNow e) := by
  rcases cancelNow_cases w he with ⟨_, heq⟩ | ⟨_, _, heq⟩ | ⟨_, _, heq⟩
  · rw [heq]
    exact h
  · rw [heq]
    exact h.next (Nat.le_refl _) (List.Subperm.refl _) (fun _ hk => .inl hk) h.running (by simp)
  · rw [heq]
    have hlen := modify_length w e fun t => { t with canceled := true }
    refine h.next hlen.ge (List.Subperm.refl _) (fun _ hk => .inl hk) ?_ h.bounds
    intro k hk
    rw [hlen]
    exact h.running k hk

theorem stored_step {w w' : TimerManager} {a : Label} (h : Stored w) (hs : TimerStep w a w') :
    Stored w' := by
  cases hs with
  | add huser hperm =>
    refine h.make (by simp) (hperm.append_right w.queued) (fun _ hk => hk) rfl (fun _ => ?_) rfl
    rintro rfl
    exact absurd hperm.length_eq (by simp)
  | queueAdd =>
    refine h.make (by simp) ?_ (fun e he => ?_) rfl id rfl
    · show (w.heap ++ queued { w with functors := w.functors ++ [.push w.timers.length] }).Perm _
      rw [queued_append, ← List.append_assoc]
      exact List.perm_append_singleton _ _
    · rcases List.mem_append.mp he with he | he
      · exact he
      · exact absurd (List.mem_singleton.mp he) (by simp)
  | cancel huser he => exact stored_cancelNow h he
  | queueCancel he =>
    rename_i e
    refine h.next (Nat.le_refl _) ?_ (fun k hk => ?_) h.running h.bounds
    · rw [show queued _ = w.queued ++ [] from queued_append w [.cancel e], List.append_nil]
    · rcases List.mem_append.mp hk with hk | hk
      · exact .inl hk
      · rw [TimerFunctor.cancel.inj (List.mem_singleton.mp hk)]
        exact .inr he
  | push hidle hqueue hperm =>
    rename_i e rest heap
    refine h.next (Nat.le_refl _) ?_ (fun k hk => ?_)
      (fun k hk => absurd hk (not_running_of_idle hidle k)) h.bounds
    · have hqueued : w.queued = e :: queued { w with functors := rest } := by
        unfold queued
        rw [hqueue]
        rfl
      rw [hqueued]
      exact ((hperm.append_right _).trans List.perm_middle.symm).subperm
    · left
      rw [hqueue]
      exact List.mem_cons_of_mem _ hk
  | runCancel hidle hqueue =>
    rename_i e rest
    have he : e < w.timers.length := h.asked e (by rw [hqueue]; exact List.mem_cons_self)
    have hqueued : w.queued = queued { w with functors := rest } := by
      unfold queued
      rw [hqueue]
      rfl
    have hrest : Stored { w with functors := rest } := by
      refine h.next (Nat.le_refl _) ?_ (fun k hk => ?_)
        (fun k hk => absurd hk (not_running_of_idle hidle k)) h.bounds
      · rw [hqueued]
      · left
        rw [hqueue]
        exact List.mem_cons_of_mem _ hk
    exact stored_cancelNow hrest he
  | enter hidle =>
    refine h.next (Nat.le_refl _) (List.Subperm.refl _) (fun _ hk => .inl hk) ?_ h.bounds
    intro e he
    exact absurd he (not_running_of_expiring rfl e)
  | leave hphase hroot =>
    refine h.next (Nat.le_refl _) (List.Subperm.refl _) (fun _ hk => .inl hk) ?_ h.bounds
    intro e he
    exact absurd he (not_running_of_idle rfl e)
  | drop hphase hcons hcanceled hpop =>
    rename_i now r rest heap
    obtain ⟨heap', hpop', hperm⟩ := TimerHeap.popInHeap_perm w.when r rest
    rw [hcons, hpop', Option.some.injEq] at hpop
    refine h.next (Nat.le_refl _) ?_ (fun _ hk => .inl hk)
      (fun k hk => absurd hk (not_running_of_expiring hphase k)) h.bounds
    rw [hcons]
    show (heap ++ w.queued).Subperm _
    rw [← hpop]
    exact (hperm.append_right _).subperm.trans (List.sublist_cons_self r _).subperm
  | start hphase hcons hcanceled hdue =>
    rename_i now r rest
    have hlen := modify_length w r fun t => { t with started := t.started + 1 }
    refine h.next hlen.ge (List.Subperm.refl _) (fun _ hk => .inl hk) ?_ h.bounds
    rintro e ⟨n, hn⟩
    obtain ⟨_, rfl⟩ := TimerPhase.running.inj hn
    refine ⟨?_, ?_⟩
    · show r < (w.modify r _).timers.length
      rw [hlen]
      exact h.known r (by rw [hcons]; exact List.mem_cons_self)
    · show w.heap ≠ []
      rw [hcons]
      exact List.cons_ne_nil r rest
  | again hphase ht hrep hdown =>
    rename_i now clock e t heap
    obtain ⟨heap', hdown', hperm⟩ := TimerHeap.downInHeap_perm
      ((w.returned now e).modify e (Timer.restart clock)).when w.heap 0
    rw [hdown', Option.some.injEq] at hdown
    refine h.next ?_ ?_ (fun _ hk => .inl hk) (fun k hk => ?_) h.bounds
    · show _ ≤ ((w.returned now e).modify e (Timer.restart clock)).timers.length
      rw [modify_length]
      exact (modify_length w e _).ge
    · show (heap ++ w.queued).Subperm _
      rw [← hdown]
      exact (hperm.append_right _).subperm
    · exact absurd hk (not_running_of_expiring rfl k)
  | finish hphase ht hrep hpop =>
    rename_i now clock e t heap
    obtain ⟨r, rest, hcons⟩ := List.exists_cons_of_ne_nil (h.running e ⟨now, hphase⟩).2
    obtain ⟨heap', hpop', hperm⟩ := TimerHeap.popInHeap_perm w.when r rest
    rw [hcons, hpop', Option.some.injEq] at hpop
    refine h.next (modify_length w e _).ge ?_ (fun _ hk => .inl hk) (fun k hk => ?_) h.bounds
    · show (heap ++ w.queued).Subperm _
      rw [← hpop, hcons]
      exact (hperm.append_right _).subperm.trans (List.sublist_cons_self r _).subperm
    · exact absurd hk (not_running_of_expiring rfl k)

theorem stored_init : Stored create where
  nodup := List.nodup_nil
  known := fun _ he => absurd he List.not_mem_nil
  asked := fun _ he => absurd he List.not_mem_nil
  running := by
    rintro e ⟨now, hrun⟩
    exact TimerPhase.noConfusion hrun
  bounds := fun h => absurd h (by simp [create])

theorem stored_reachable {ok : TimerManager → Label → Prop} {w : TimerManager}
    (h : Reachable machine ok w) : Stored w := by
  refine h.invariant ?_ ?_
  · rintro _ rfl
    exact stored_init
  · intro w a w' _ hstored _ hs
    exact stored_step hstored (step_cases hstored hs)

end TimerManager

end Windz
