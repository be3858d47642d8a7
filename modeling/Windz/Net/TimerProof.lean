import Windz.Net.TimerHeap

/-!
# Timers over whole runs

`PopInHeap` and `DownInHeap(0)` act on the first entry of the heap, and
`HandleExpired` means them to act on the timer whose callback it has just called.
The two are the same as long as no callback adds a timer that is earlier than the
one running. Under this condition the invariant below holds of every state, and
with it what the heap is for: it is in order, a one-shot timer runs at most once,
and a timer leaves the heap only when it is done.
-/

namespace Windz

open Lib Lib.BinaryHeap

namespace TimerManager

/-- The timers in functors that have not run. -/
def queued (w : TimerManager) : List TimerEntry :=
  w.functors.filterMap fun
    | .push e => some e
    | .cancel _ => none

/-- The callback of `e` is running. -/
def Running (w : TimerManager) (e : TimerEntry) : Prop := ∃ now, w.phase = .running now e

/-- The timer was cancelled, or it is one-shot and its callback has returned. -/
def Done (w : TimerManager) (e : TimerEntry) : Prop :=
  ∃ t, w.timers[e]? = some t ∧ (t.canceled = true ∨ t.repeats = false ∧ 0 < t.finished)

/-- No callback is running that was due only after `when`. -/
def NotBefore (w : TimerManager) (when : Timestamp) : Prop :=
  match w.phase with
  | .running _ e => w.when e ≤ when
  | .idle | .expiring _ => True

instance (w : TimerManager) (when : Timestamp) : Decidable (w.NotBefore when) := by
  unfold NotBefore
  split <;> infer_instance

/-- No callback adds a timer that is earlier than the one running. -/
def AddsNotBefore (w : TimerManager) : Label → Prop
  | .addTimer inLoop when _ => inLoop = true → w.NotBefore when
  | .cancel _ _ | .functor | .handleExpired _ | .iterate | .callbackReturns _ => True

instance (w : TimerManager) (a : Label) : Decidable (w.AddsNotBefore a) :=
  match a with
  | .addTimer inLoop when _ => inferInstanceAs (Decidable (inLoop = true → w.NotBefore when))
  | .cancel _ _ | .functor | .handleExpired _ | .iterate | .callbackReturns _ => .isTrue trivial

/-- The invariant of runs whose steps satisfy `AddsNotBefore`. -/
structure Inv (w : TimerManager) : Prop where
  ordered : TimerHeap.Ordered w.when w.heap
  /-- A timer is in the heap or in one functor, once. -/
  nodup : (w.heap ++ w.queued).Nodup
  known : ∀ e ∈ w.heap ++ w.queued, e < w.timers.length
  /-- The timer running is the first entry. -/
  root : ∀ e, w.Running e → w.heap[0]? = some e
  bounds : w.fault ≠ some .outOfBounds
  /-- A one-shot timer that waits has not run. -/
  waits : ∀ e ∈ w.heap ++ w.queued, ¬ w.Running e →
    ∀ t, w.timers[e]? = some t → t.repeats = false → t.started = 0
  once : ∀ t ∈ w.timers, t.repeats = false → t.started ≤ 1

/-- What becomes of a timer over time. -/
structure Later (t t' : Timer) : Prop where
  repeats : t'.repeats = t.repeats
  canceled : t.canceled = true → t'.canceled = true
  finished : t.finished ≤ t'.finished

/-- What one step does: the invariant is kept, an entry leaves the heap only when it is done, and
what a timer has done is not undone. -/
structure Advance (w w' : TimerManager) : Prop where
  inv : Inv w'
  leaves : ∀ e ∈ w.heap, e ∈ w'.heap ∨ w'.Done e
  later : ∀ (e : TimerEntry) (t : Timer), w.timers[e]? = some t →
    ∃ t', w'.timers[e]? = some t' ∧ Later t t'

theorem Later.refl (t : Timer) : Later t t := ⟨rfl, id, Nat.le_refl _⟩

theorem Done.advance {w w' : TimerManager} (h : Advance w w') {e : TimerEntry} (hd : w.Done e) :
    w'.Done e := by
  obtain ⟨t, ht, hdone⟩ := hd
  obtain ⟨t', ht', hl⟩ := h.later e t ht
  refine ⟨t', ht', ?_⟩
  rcases hdone with hc | ⟨hr, hf⟩
  · exact .inl (hl.canceled hc)
  · exact .inr ⟨hl.repeats.trans hr, hf.trans_le hl.finished⟩

theorem Later.trans {t u v : Timer} (h : Later t u) (h' : Later u v) : Later t v :=
  ⟨h'.repeats.trans h.repeats, fun hc => h'.canceled (h.canceled hc), h.finished.trans h'.finished⟩

theorem Advance.trans {w v w' : TimerManager} (h : Advance w v) (h' : Advance v w') :
    Advance w w' where
  inv := h'.inv
  leaves := by
    intro e he
    rcases h.leaves e he with he | hd
    · exact h'.leaves e he
    · exact .inr (hd.advance h')
  later := by
    intro e t ht
    obtain ⟨u, hu, hl⟩ := h.later e t ht
    obtain ⟨v, hv, hl'⟩ := h'.later e u hu
    exact ⟨v, hv, hl.trans hl'⟩

/-- A step that keeps heap and timers only has to keep the invariant. -/
theorem Advance.same {w w' : TimerManager} (h : Inv w') (hheap : w'.heap = w.heap)
    (htimers : w'.timers = w.timers) : Advance w w' where
  inv := h
  leaves := fun e he => .inl (by rw [hheap]; exact he)
  later := fun e t ht => ⟨t, by rw [htimers]; exact ht, Later.refl t⟩

/-! ## Changing one timer -/

theorem modify_timers (w : TimerManager) (e : TimerEntry) (f : Timer → Timer) (k : Nat) :
    (w.modify e f).timers[k]? = if e = k then (w.timers[k]?).map f else w.timers[k]? := by
  show (w.timers.modify e f)[k]? = _
  rw [List.getElem?_modify]
  split
  · rfl
  · rw [Option.map_eq_map, Option.map_id']

theorem modify_when {w : TimerManager} {e : TimerEntry} {f : Timer → Timer}
    (hf : ∀ t, (f t).when = t.when) : (w.modify e f).when = w.when := by
  funext k
  unfold when
  rw [modify_timers]
  by_cases hek : e = k
  · rw [if_pos hek]
    cases w.timers[k]? with
    | none => rfl
    | some t => exact hf t
  · rw [if_neg hek]

theorem modify_mem {w : TimerManager} {e : TimerEntry} {f : Timer → Timer} {t' : Timer}
    (h : t' ∈ (w.modify e f).timers) :
    t' ∈ w.timers ∨ ∃ t, w.timers[e]? = some t ∧ t' = f t := by
  obtain ⟨k, hk⟩ := List.mem_iff_getElem?.mp h
  rw [modify_timers] at hk
  split at hk
  · rename_i hek
    obtain ⟨t, ht, rfl⟩ := Option.map_eq_some_iff.mp hk
    exact .inr ⟨t, by rw [hek]; exact ht, rfl⟩
  · exact .inl (List.mem_of_getElem? hk)

theorem modify_later {w : TimerManager} {e : TimerEntry} {f : Timer → Timer}
    (hf : ∀ t, Later t (f t)) (k : Nat) (t : Timer) (ht : w.timers[k]? = some t) :
    ∃ t', (w.modify e f).timers[k]? = some t' ∧ Later t t' := by
  rw [modify_timers, ht]
  split
  · exact ⟨f t, rfl, hf t⟩
  · exact ⟨t, rfl, Later.refl t⟩

/-- A change that keeps the deadline and the count of runs keeps the invariant. -/
theorem inv_modify {w : TimerManager} (h : Inv w) {e : TimerEntry} {f : Timer → Timer}
    (hwhen : ∀ t, (f t).when = t.when) (hrepeats : ∀ t, (f t).repeats = t.repeats)
    (hstarted : ∀ t, (f t).started = t.started) : Inv (w.modify e f) where
  ordered := by rw [modify_when hwhen]; exact h.ordered
  nodup := h.nodup
  known := by
    intro k hk
    show k < (w.timers.modify e f).length
    rw [List.length_modify]
    exact h.known k hk
  root := h.root
  bounds := h.bounds
  waits := by
    intro k hk hrun t ht hr
    rw [modify_timers] at ht
    split at ht
    · obtain ⟨u, hu, rfl⟩ := Option.map_eq_some_iff.mp ht
      rw [hstarted]
      exact h.waits k hk hrun u hu (by rw [← hrepeats]; exact hr)
    · exact h.waits k hk hrun t ht hr
  once := by
    intro t ht hr
    rcases modify_mem ht with ht | ⟨u, hu, rfl⟩
    · exact h.once t ht hr
    · rw [hstarted]
      exact h.once u (List.mem_of_getElem? hu) (by rw [← hrepeats]; exact hr)

/-! ## Pushing -/

/-- A timer that is nowhere yet may be pushed, if it is not earlier than the one running. -/
theorem advance_push {w : TimerManager} (h : Inv w) {e : TimerEntry}
    (hnew : e ∉ w.heap ++ w.queued) (hknown : e < w.timers.length) (hrun : ¬ w.Running e)
    (hfresh : ∀ t, w.timers[e]? = some t → t.repeats = false → t.started = 0)
    (hlate : ∀ r, w.Running r → w.when r ≤ w.when e) : Advance w (w.push e) := by
  obtain ⟨heap', hpush, hperm, hord, hroot⟩ := TimerHeap.pushInHeap_spec h.ordered e
  have hmem : ∀ k, k ∈ heap' ++ w.queued ↔ k = e ∨ k ∈ w.heap ++ w.queued := by
    intro k
    rw [List.mem_append, hperm.mem_iff, List.mem_cons, List.mem_append, or_assoc]
  unfold push
  rw [hpush]
  refine { inv :=
             { ordered := hord, nodup := ?_, known := ?_, root := ?_, bounds := h.bounds,
               waits := ?_, once := h.once }
           leaves := fun k hk => .inl ?_
           later := fun k t ht => ⟨t, ht, Later.refl t⟩ }
  · show (heap' ++ w.queued).Nodup
    rw [(hperm.append_right w.queued).nodup_iff, List.cons_append, List.nodup_cons]
    exact ⟨hnew, h.nodup⟩
  · intro k hk
    rcases (hmem k).mp hk with rfl | hk
    · exact hknown
    · exact h.known k hk
  · intro r hr
    exact hroot r (h.root r hr) (Timestamp.le_iff.mp (hlate r hr))
  · intro k hk hkr t ht hr
    rcases (hmem k).mp hk with rfl | hk
    · exact hfresh t ht hr
    · exact h.waits k hk hkr t ht hr
  · exact hperm.mem_iff.mpr (List.mem_cons_of_mem e hk)

/-- A timer that is nowhere yet may be left to a functor. -/
theorem inv_enqueue {w : TimerManager} (h : Inv w) {e : TimerEntry}
    (hnew : e ∉ w.heap ++ w.queued) (hknown : e < w.timers.length)
    (hfresh : ∀ t, w.timers[e]? = some t → t.repeats = false → t.started = 0) :
    Inv { w with functors := w.functors ++ [.push e] } := by
  have hqueued : queued { w with functors := w.functors ++ [.push e] } = w.queued ++ [e] := by
    show List.filterMap _ (w.functors ++ [.push e]) = _
    rw [List.filterMap_append]
    rfl
  have hmem : ∀ k, k ∈ w.heap ++ queued { w with functors := w.functors ++ [.push e] } →
      k = e ∨ k ∈ w.heap ++ w.queued := by
    intro k hk
    rw [hqueued, ← List.append_assoc] at hk
    rcases List.mem_append.mp hk with hk | hk
    · exact .inr hk
    · exact .inl (List.mem_singleton.mp hk)
  refine { ordered := h.ordered, nodup := ?_, known := ?_, root := h.root, bounds := h.bounds,
           waits := ?_, once := h.once }
  · rw [hqueued, ← List.append_assoc]
    rw [(List.perm_append_singleton e (w.heap ++ w.queued)).nodup_iff, List.nodup_cons]
    exact ⟨hnew, h.nodup⟩
  · intro k hk
    rcases hmem k hk with rfl | hk
    · exact hknown
    · exact h.known k hk
  · intro k hk hrun t ht hr
    rcases hmem k hk with rfl | hk
    · exact hfresh t ht hr
    · exact h.waits k hk hrun t ht hr

/-- `AddTimer` makes a timer that is nowhere yet. -/
theorem advance_make {w : TimerManager} (h : Inv w) (when : Timestamp) (interval : Duration) :
    Advance w { w with timers := w.timers ++ [Timer.create when interval] } := by
  have hsame : ∀ k, k < w.timers.length →
      (w.timers ++ [Timer.create when interval])[k]? = w.timers[k]? := by
    intro k hk
    exact List.getElem?_append_left hk
  refine { inv := ?_, leaves := fun e he => .inl he, later := fun e t ht => ⟨t, ?_, Later.refl t⟩ }
  · refine { ordered := ?_, nodup := h.nodup, known := ?_, root := h.root, bounds := h.bounds,
             waits := ?_, once := ?_ }
    · refine BinaryHeap.Ordered.congr h.ordered fun k hk => ?_
      have hk' := h.known k (List.mem_append_left _ hk)
      show (TimerManager.when { w with timers := _ } k).unixNano = (w.when k).unixNano
      unfold TimerManager.when
      rw [hsame k hk']
    · intro k hk
      have hlt := h.known k hk
      show k < (w.timers ++ [_]).length
      rw [List.length_append]
      exact Nat.lt_add_right _ hlt
    · intro k hk hrun t ht hr
      rw [hsame k (h.known k hk)] at ht
      exact h.waits k hk hrun t ht hr
    · intro t ht hr
      rcases List.mem_append.mp ht with ht | ht
      · exact h.once t ht hr
      · rw [List.mem_singleton.mp ht]
        exact Nat.zero_le 1
  · have hk := (List.getElem?_eq_some_iff.mp ht).1
    exact (hsame e hk).trans ht

theorem advance_addTimer {w : TimerManager} (h : Inv w) {inLoop : Bool} {when : Timestamp}
    {interval : Duration} (hok : AddsNotBefore w (.addTimer inLoop when interval)) :
    Advance w (w.addTimer inLoop when interval) := by
  have hmake := advance_make h when interval
  have hnew : ∀ k, k ∈ w.heap ++ w.queued → k ≠ w.timers.length := by
    rintro k hk rfl
    exact absurd (h.known _ hk) (Nat.lt_irrefl _)
  have hfresh : ∀ t, (w.timers ++ [Timer.create when interval])[w.timers.length]? = some t →
      t.repeats = false → t.started = 0 := by
    intro t ht _
    rw [List.getElem?_append_right (Nat.le_refl _), Nat.sub_self] at ht
    rw [← Option.some.inj ht]
    rfl
  unfold addTimer
  dsimp only
  split
  · rename_i hin
    refine hmake.trans (advance_push hmake.inv (fun hk => hnew _ hk rfl) (by simp) ?_ hfresh ?_)
    · rintro ⟨now, hrun⟩
      have hroot := h.root _ ⟨now, hrun⟩
      exact hnew _ (List.mem_append_left _ (List.mem_of_getElem? hroot)) rfl
    · rintro r ⟨now, hrun⟩
      have hroot := h.root _ ⟨now, hrun⟩
      have hr := h.known _ (List.mem_append_left _ (List.mem_of_getElem? hroot))
      have hle := hok hin
      rw [NotBefore, hrun] at hle
      unfold TimerManager.when at hle ⊢
      rw [List.getElem?_append_left hr, List.getElem?_append_right (Nat.le_refl _), Nat.sub_self]
      exact hle
  · exact hmake.trans (.same (inv_enqueue hmake.inv (fun hk => hnew _ hk rfl) (by simp)
      hfresh) rfl rfl)

/-! ## Cancelling -/

theorem advance_cancelNow {w : TimerManager} (h : Inv w) (e : TimerEntry) :
    Advance w (w.cancelNow e) := by
  have hself : Advance w w := .same h rfl rfl
  unfold cancelNow
  split
  · split
    · split
      · exact .same { h with bounds := fun hf => TimerFault.noConfusion (Option.some.inj hf) }
          rfl rfl
      · exact { inv := inv_modify h (fun _ => rfl) (fun _ => rfl) (fun _ => rfl)
                leaves := fun k hk => .inl hk
                later := modify_later fun t => ⟨rfl, fun _ => rfl, Nat.le_refl _⟩ }
    · exact hself
  · exact hself

theorem inv_enqueue_cancel {w : TimerManager} (h : Inv w) (e : TimerEntry) :
    Inv { w with functors := w.functors ++ [.cancel e] } := by
  have hqueued : queued { w with functors := w.functors ++ [.cancel e] } = w.queued := by
    show List.filterMap _ (w.functors ++ [.cancel e]) = _
    rw [List.filterMap_append]
    exact List.append_nil _
  exact { h with
    nodup := by rw [hqueued]; exact h.nodup
    known := by rw [hqueued]; exact h.known
    waits := by rw [hqueued]; exact h.waits }

/-! ## Functors -/

theorem advance_runFunctor {w w' : TimerManager} (h : Inv w) (hidle : w.phase = .idle)
    (hs : w.runFunctor = some w') : Advance w w' := by
  have hrun : ∀ e, ¬ w.Running e := by
    rintro e ⟨now, hrun⟩
    exact TimerPhase.noConfusion (hidle.symm.trans hrun)
  unfold runFunctor at hs
  split at hs
  · exact absurd hs (by simp)
  · rename_i e rest hf
    rw [Option.some.injEq] at hs
    subst hs
    -- without its functor, the timer is nowhere
    have hqueued : w.queued = e :: queued { w with functors := rest } := by
      unfold queued
      rw [hf]
      rfl
    have hnd := h.nodup
    rw [hqueued, List.perm_middle.nodup_iff, List.nodup_cons] at hnd
    have hsub : ∀ k, k ∈ w.heap ++ queued { w with functors := rest } →
        k ∈ w.heap ++ w.queued := by
      intro k hk
      rw [hqueued]
      rcases List.mem_append.mp hk with hk | hk
      · exact List.mem_append_left _ hk
      · exact List.mem_append_right _ (List.mem_cons_of_mem e hk)
    have he : e ∈ w.heap ++ w.queued := by
      rw [hqueued]
      exact List.mem_append_right _ List.mem_cons_self
    have hrest : Inv { w with functors := rest } :=
      { h with
        nodup := hnd.2
        known := fun k hk => h.known k (hsub k hk)
        waits := fun k hk => h.waits k (hsub k hk) }
    have hstep : Advance w { w with functors := rest } := .same hrest rfl rfl
    exact hstep.trans
      (advance_push hrest hnd.1 (h.known e he) (hrun e) (h.waits e he (hrun e))
        fun r hr => absurd hr (hrun r))
  · rename_i e rest hf
    rw [Option.some.injEq] at hs
    subst hs
    have hqueued : w.queued = queued { w with functors := rest } := by
      unfold queued
      rw [hf]
      rfl
    have hrest : Inv { w with functors := rest } :=
      { h with
        nodup := by rw [← hqueued]; exact h.nodup
        known := by rw [← hqueued]; exact h.known
        waits := by rw [← hqueued]; exact h.waits }
    have hstep : Advance w { w with functors := rest } := .same hrest rfl rfl
    exact hstep.trans (advance_cancelNow hrest e)

/-! ## `HandleExpired` -/

/-- Moving from one place where no callback runs to another. -/
theorem inv_phase {w : TimerManager} (h : Inv w) (hrun : ∀ e, ¬ w.Running e) {phase : TimerPhase}
    (hphase : ∀ now e, phase ≠ .running now e) : Inv { w with phase } where
  ordered := h.ordered
  nodup := h.nodup
  known := h.known
  root := by
    rintro e ⟨now, hr⟩
    exact absurd hr (hphase now e)
  bounds := h.bounds
  waits := fun e he _ => h.waits e he (hrun e)
  once := h.once

/-- No callback runs, `r` is the first entry, and of the other entries the invariant holds: the
state between two iterations, and behind the callback of `r`. -/
structure Between (w : TimerManager) (r : TimerEntry) (rest : TimerHeap) : Prop where
  heap : w.heap = r :: rest
  ordered : TimerHeap.Ordered w.when w.heap
  nodup : (w.heap ++ w.queued).Nodup
  known : ∀ e ∈ w.heap ++ w.queued, e < w.timers.length
  stopped : ∀ e, ¬ w.Running e
  bounds : w.fault ≠ some .outOfBounds
  waits : ∀ e ∈ rest ++ w.queued, ∀ t, w.timers[e]? = some t → t.repeats = false → t.started = 0
  once : ∀ t ∈ w.timers, t.repeats = false → t.started ≤ 1

theorem Inv.between {w : TimerManager} (h : Inv w) {r : TimerEntry} {rest : TimerHeap}
    (hheap : w.heap = r :: rest) (hrun : ∀ e, ¬ w.Running e) : Between w r rest where
  heap := hheap
  ordered := h.ordered
  nodup := h.nodup
  known := h.known
  stopped := hrun
  bounds := h.bounds
  waits := fun e he => h.waits e (by rw [hheap]; exact List.mem_cons_of_mem r he) (hrun e)
  once := h.once

/-- `PopInHeap` removes the first entry, whatever it has done. -/
theorem Between.pop {w : TimerManager} {r : TimerEntry} {rest : TimerHeap} (h : Between w r rest) :
    ∃ heap', w.heap.popInHeap w.when = some heap' ∧ heap'.Perm rest
      ∧ Inv { w with heap := heap' } := by
  have hord := h.ordered
  have hnodup := h.nodup
  have hknown := h.known
  rw [h.heap] at hord hnodup hknown
  obtain ⟨heap', hpop, hperm, hord'⟩ := TimerHeap.popInHeap_spec hord
  have hmem : ∀ e, e ∈ heap' ++ w.queued → e ∈ rest ++ w.queued := by
    intro e he
    exact (hperm.append_right w.queued).mem_iff.mp he
  rw [List.cons_append, List.nodup_cons] at hnodup
  refine ⟨heap', by rw [h.heap]; exact hpop, hperm, ?_⟩
  exact { ordered := hord'
          nodup := (hperm.append_right w.queued).nodup_iff.mpr hnodup.2
          known := fun e he => hknown e (List.mem_cons_of_mem r (hmem e he))
          root := fun e hr => absurd hr (h.stopped e)
          bounds := h.bounds
          waits := fun e he _ => h.waits e (hmem e he)
          once := h.once }

/-- `Restart` of a repeating timer that is the first entry, and `DownInHeap(0)`. -/
theorem Between.restart {w : TimerManager} {r : TimerEntry} {rest : TimerHeap}
    (h : Between w r rest) {t : Timer} (ht : w.timers[r]? = some t) (hrep : t.repeats = true)
    (clock : Timestamp) :
    ∃ heap', w.heap.downInHeap (w.modify r (Timer.restart clock)).when 0 = some heap'
      ∧ heap'.Perm w.heap ∧ Inv { w.modify r (Timer.restart clock) with heap := heap' } := by
  have hother : ∀ e, e ≠ r → (w.modify r (Timer.restart clock)).timers[e]? = w.timers[e]? := by
    intro e hne
    rw [modify_timers, if_neg hne.symm]
  -- only the deadline of the first entry has changed
  have hkey : ∀ e, e ≠ r → TimerHeap.key (w.modify r (Timer.restart clock)).when e
      = TimerHeap.key w.when e := by
    intro e hne
    unfold TimerHeap.key when
    rw [hother e hne]
  have hroot : w.heap[0]? = some r := by rw [h.heap]; rfl
  obtain ⟨heap', hdown, hperm, hord⟩ := TimerHeap.downInHeap_spec
    (BinaryHeap.Ordered.root_changed h.ordered hroot (List.nodup_append.mp h.nodup).1 hkey)
  have hmem : ∀ e, e ∈ heap' ++ w.queued → e ∈ w.heap ++ w.queued := by
    intro e he
    exact (hperm.append_right w.queued).mem_iff.mp he
  refine ⟨heap', hdown, hperm, ?_⟩
  refine { ordered := hord, nodup := (hperm.append_right w.queued).nodup_iff.mpr h.nodup
           known := ?_, root := fun e hr => absurd hr (h.stopped e), bounds := h.bounds
           waits := ?_, once := ?_ }
  · intro e he
    show e < (w.timers.modify r _).length
    rw [List.length_modify]
    exact h.known e (hmem e he)
  · intro e he _ u hu hur
    change (w.modify r (Timer.restart clock)).timers[e]? = some u at hu
    by_cases hne : e = r
    · rw [hne, modify_timers, if_pos rfl, ht, Option.map_some, Option.some.injEq] at hu
      rw [← hu, Timer.restart_repeats, hrep] at hur
      exact absurd hur.symm Bool.false_ne_true
    · rw [hother e hne] at hu
      have he' := hmem e he
      rw [h.heap] at he'
      rcases List.mem_cons.mp he' with he' | he'
      · exact absurd he' hne
      · exact h.waits e he' u hu hur
  · intro u hu hur
    rcases modify_mem hu with hu | ⟨v, hv, hu⟩
    · exact h.once u hu hur
    · rw [hu, Timer.restart_repeats] at hur
      rw [hu, Timer.restart_started]
      exact h.once v (List.mem_of_getElem? hv) hur

/-- A callback that returns is the one of the first entry, which has run then. -/
theorem between_returned {w : TimerManager} (h : Inv w) {now : Timestamp} {entry : TimerEntry}
    (hphase : w.phase = .running now entry) :
    ∃ rest t, Between (w.returned now entry) entry rest
      ∧ (w.returned now entry).timers[entry]? = some t ∧ 0 < t.finished := by
  have hroot := h.root entry ⟨now, hphase⟩
  obtain ⟨rest, hheap⟩ : ∃ rest, w.heap = entry :: rest := by
    cases hw : w.heap with
    | nil => rw [hw] at hroot; exact absurd hroot (by simp)
    | cons r rest => rw [hw] at hroot; exact ⟨rest, by rw [Option.some.inj hroot]⟩
  have hmem : entry ∈ w.heap ++ w.queued := by
    rw [hheap]
    exact List.mem_cons_self
  obtain ⟨t, ht⟩ : ∃ t, w.timers[entry]? = some t :=
    ⟨_, List.getElem?_eq_getElem (h.known entry hmem)⟩
  have hmod : Inv (w.modify entry fun t => { t with finished := t.finished + 1 }) :=
    inv_modify h (fun _ => rfl) (fun _ => rfl) (fun _ => rfl)
  refine ⟨rest, { t with finished := t.finished + 1 }, ?_, ?_, Nat.succ_pos _⟩
  · refine { heap := hheap, ordered := hmod.ordered, nodup := h.nodup, known := hmod.known
             stopped := ?_, bounds := h.bounds, waits := ?_, once := hmod.once }
    · intro e hrun
      obtain ⟨n, hn⟩ := hrun
      exact TimerPhase.noConfusion hn
    · -- the others were waiting while this one ran
      intro e he
      have hnd := h.nodup
      rw [hheap, List.cons_append, List.nodup_cons] at hnd
      have hne : ¬ w.Running e := by
        intro hrun
        obtain ⟨n, hn⟩ := hrun
        rw [(TimerPhase.running.inj (hn.symm.trans hphase)).2] at he
        exact hnd.1 he
      refine hmod.waits e ?_ hne
      show e ∈ w.heap ++ w.queued
      rw [hheap]
      exact List.mem_cons_of_mem entry he
  · show (w.modify entry _).timers[entry]? = _
    rw [modify_timers, if_pos rfl, ht]
    rfl

theorem advance_iterate {w : TimerManager} (h : Inv w) {now : Timestamp}
    (hphase : w.phase = .expiring now) : Advance w (w.iterate now) := by
  have hrun : ∀ e, ¬ w.Running e := by
    rintro e ⟨n, hrun⟩
    exact TimerPhase.noConfusion (hphase.symm.trans hrun)
  have hidle : Advance w { w with phase := .idle } :=
    .same (inv_phase h hrun fun _ _ => TimerPhase.noConfusion) rfl rfl
  unfold iterate
  split
  · exact hidle
  · rename_i r rest hheap
    have hmem : r ∈ w.heap ++ w.queued := by
      rw [hheap]
      exact List.mem_cons_self
    have hr := h.known r hmem
    obtain ⟨t, ht⟩ : ∃ t, w.timers[r]? = some t := ⟨_, List.getElem?_eq_getElem hr⟩
    rw [ht]
    dsimp only
    split
    · rename_i hcanceled
      obtain ⟨heap', hpop, hperm, hinv⟩ := (h.between hheap hrun).pop
      rw [hpop]
      refine { inv := hinv, leaves := ?_, later := fun e t ht => ⟨t, ht, Later.refl t⟩ }
      intro e he
      rw [hheap] at he
      rcases List.mem_cons.mp he with rfl | he
      · exact .inr ⟨t, ht, .inl hcanceled⟩
      · exact .inl (hperm.mem_iff.mpr he)
    · split
      · -- the callback starts
        have hwhen : (w.modify r fun t => { t with started := t.started + 1 }).when = w.when :=
          modify_when fun _ => rfl
        refine { inv := ?_, leaves := fun e he => .inl he
                 later := modify_later fun t => ⟨rfl, id, Nat.le_refl _⟩ }
        refine { ordered := ?_, nodup := h.nodup, known := ?_, root := ?_, bounds := h.bounds
                 waits := ?_, once := ?_ }
        · have hord := h.ordered
          rw [← hwhen] at hord
          exact hord
        · intro e he
          show e < (w.timers.modify r _).length
          rw [List.length_modify]
          exact h.known e he
        · rintro e ⟨n, hn⟩
          obtain ⟨_, rfl⟩ := TimerPhase.running.inj hn
          show w.heap[0]? = _
          rw [hheap]
          rfl
        · intro e he hnot u hu hrep
          have hne : r ≠ e := by
            rintro rfl
            exact hnot ⟨now, rfl⟩
          change (w.modify r _).timers[e]? = some u at hu
          rw [modify_timers, if_neg hne] at hu
          exact h.waits e he (hrun e) u hu hrep
        · intro u hu hrep
          rcases modify_mem hu with hu | ⟨v, hv, rfl⟩
          · exact h.once u hu hrep
          · have hzero := h.waits r hmem (hrun r) v hv hrep
            show v.started + 1 ≤ 1
            rw [hzero]
      · exact hidle

theorem advance_afterRun {w : TimerManager} (h : Inv w) {now : Timestamp} {entry : TimerEntry}
    (hphase : w.phase = .running now entry) (clock : Timestamp) :
    Advance w ((w.returned now entry).afterRun entry clock) := by
  obtain ⟨rest, t, hbetween, ht, hfinished⟩ := between_returned h hphase
  have hheap : w.heap = entry :: rest := hbetween.heap
  have hlater : ∀ (e : TimerEntry) (u : Timer), w.timers[e]? = some u →
      ∃ u', (w.returned now entry).timers[e]? = some u' ∧ Later u u' :=
    modify_later fun t => ⟨rfl, id, Nat.le_succ _⟩
  unfold afterRun
  rw [ht]
  dsimp only
  split
  · rename_i hrep
    obtain ⟨heap', hdown, hperm, hinv⟩ := hbetween.restart ht hrep clock
    change ((w.returned now entry).modify entry (Timer.restart clock)).heap.downInHeap
      ((w.returned now entry).modify entry (Timer.restart clock)).when 0 = some heap' at hdown
    rw [hdown]
    refine { inv := hinv, leaves := fun e he => .inl (hperm.mem_iff.mpr he), later := ?_ }
    intro e t' ht'
    obtain ⟨t1, ht1, hl1⟩ := hlater e t' ht'
    have hrestart : ∀ u : Timer, Later u (u.restart clock) :=
      fun u => ⟨u.restart_repeats clock, by simp, by simp⟩
    obtain ⟨t2, ht2, hl2⟩ := modify_later hrestart e t1 ht1
    exact ⟨t2, ht2, hl1.trans hl2⟩
  · rename_i hrep
    obtain ⟨heap', hpop, hperm, hinv⟩ := hbetween.pop
    rw [hpop]
    refine { inv := hinv, leaves := ?_, later := hlater }
    intro e he
    rw [hheap] at he
    rcases List.mem_cons.mp he with he | he
    · rw [he]
      exact .inr ⟨t, ht, .inr ⟨Bool.eq_false_iff.mpr hrep, hfinished⟩⟩
    · exact .inl (hperm.mem_iff.mpr he)

/-! ## Runs -/

theorem advance_step {w w' : TimerManager} {a : Label} (h : Inv w) (hok : AddsNotBefore w a)
    (hs : w.step a = some w') : Advance w w' := by
  unfold step at hs
  split at hs
  · exact absurd hs (by simp)
  · cases a with
    | addTimer inLoop when interval =>
      dsimp only at hs
      split at hs
      · exact absurd hs (by simp)
      · rw [Option.some.injEq] at hs
        subst hs
        exact advance_addTimer h hok
    | cancel inLoop entry =>
      dsimp only at hs
      split at hs
      · exact absurd hs (by simp)
      · rw [Option.some.injEq] at hs
        subst hs
        unfold cancel
        split
        · exact advance_cancelNow h entry
        · exact .same (inv_enqueue_cancel h entry) rfl rfl
    | functor =>
      obtain ⟨hidle, hs⟩ := Option.ite_none_right_eq_some.mp hs
      exact advance_runFunctor h hidle hs
    | handleExpired now =>
      obtain ⟨hidle, hs⟩ := Option.ite_none_right_eq_some.mp hs
      rw [Option.some.injEq] at hs
      subst hs
      refine .same (inv_phase h ?_ fun _ _ => TimerPhase.noConfusion) rfl rfl
      rintro e ⟨n, hrun⟩
      exact TimerPhase.noConfusion (hidle.symm.trans hrun)
    | iterate =>
      dsimp only at hs
      split at hs
      · rename_i now hphase
        rw [Option.some.injEq] at hs
        subst hs
        exact advance_iterate h hphase
      · exact absurd hs (by simp)
      · exact absurd hs (by simp)
    | callbackReturns clock =>
      dsimp only at hs
      split at hs
      · rename_i now entry hphase
        rw [Option.some.injEq] at hs
        subst hs
        exact advance_afterRun h hphase clock
      · exact absurd hs (by simp)
      · exact absurd hs (by simp)

theorem inv_init : Inv create where
  ordered := ordered_nil
  nodup := List.nodup_nil
  known := fun _ he => absurd he List.not_mem_nil
  root := by
    rintro e ⟨now, hrun⟩
    exact TimerPhase.noConfusion hrun
  bounds := fun h => absurd h (by simp [create])
  waits := fun _ he => absurd he List.not_mem_nil
  once := fun _ ht => absurd ht List.not_mem_nil

theorem inv_reachable {w : TimerManager} (h : Reachable machine AddsNotBefore w) : Inv w := by
  refine h.invariant ?_ ?_
  · rintro _ rfl
    exact inv_init
  · intro w a w' _ hinv hok hs
    exact (advance_step hinv hok hs).inv

/-- **The heap keeps its promises as long as no callback adds an earlier timer.** In every state a
one-shot timer has run at most once, and outside of `HandleExpired` the heap is in order;
and a timer that is in the heap stays there until it was cancelled or, being one-shot, its
callback has returned. -/
theorem heap_keeps_timers (w : TimerManager) (h : Reachable machine AddsNotBefore w) :
    (∀ t ∈ w.timers, t.repeats = false → t.started ≤ 1)
      ∧ (w.phase = .idle → TimerHeap.Ordered w.when w.heap)
      ∧ ∀ as w', Run machine AddsNotBefore w as w' → ∀ e ∈ w.heap, e ∈ w'.heap ∨ w'.Done e := by
  have hinv := inv_reachable h
  refine ⟨hinv.once, fun _ => hinv.ordered, fun as w' hrun e he => ?_⟩
  have hend : Inv w' ∧ (e ∈ w'.heap ∨ w'.Done e) := by
    refine hrun.invariant (I := fun v => Inv v ∧ (e ∈ v.heap ∨ v.Done e)) ⟨hinv, .inl he⟩ ?_
    rintro u a u' ⟨hu, hin⟩ hok hs
    have hadv := advance_step hu hok hs
    refine ⟨hadv.inv, ?_⟩
    rcases hin with hin | hdone
    · exact hadv.leaves e hin
    · exact .inr (hdone.advance hadv)
  exact hend.2

/-- A callback cancels a timer and adds a later one, which runs in the same call. -/
theorem heap_keeps_timers_small : ∃ w, Reachable machine AddsNotBefore w
    ∧ w.timers.map Timer.started = [1, 0, 1] ∧ w.heap = []
    ∧ (∀ t ∈ w.timers, t.repeats = false → t.started ≤ 1)
    ∧ (w.phase = .idle → TimerHeap.Ordered w.when w.heap) := by
  have hexec : (machine.exec AddsNotBefore create
      [.addTimer true ⟨50⟩ ⟨0⟩, .addTimer false ⟨60⟩ ⟨7⟩, .functor, .handleExpired ⟨100⟩, .iterate,
        .cancel true 1, .addTimer true ⟨55⟩ ⟨0⟩, .callbackReturns ⟨101⟩, .iterate,
        .callbackReturns ⟨102⟩, .iterate, .iterate]).map (fun w =>
          decide (w.timers.map Timer.started = [1, 0, 1] ∧ w.heap = [])) = some true := by
    decide +kernel
  obtain ⟨w, hr, hp⟩ := Machine.exec_reachable rfl hexec
  obtain ⟨hstarted, hheap⟩ := of_decide_eq_true hp
  have hkeeps := heap_keeps_timers w hr
  exact ⟨w, hr, hstarted, hheap, hkeeps.1, hkeeps.2.1⟩

/-- A callback that adds an earlier timer makes `PopInHeap` drop that one, and runs again. -/
theorem earlier_timer_runs_twice : ¬ ∀ w, Reachable machine (fun _ _ => True) w →
    (∀ t ∈ w.timers, t.repeats = false → t.started ≤ 1)
      ∧ (w.phase = .idle → TimerHeap.Ordered w.when w.heap)
      ∧ ∀ as w', Run machine (fun _ _ => True) w as w' →
          ∀ e ∈ w.heap, e ∈ w'.heap ∨ w'.Done e := by
  intro hall
  have hexec : (machine.exec (fun _ _ => True) create
      [.addTimer true ⟨50⟩ ⟨0⟩, .handleExpired ⟨100⟩, .iterate, .addTimer true ⟨10⟩ ⟨0⟩,
        .callbackReturns ⟨101⟩, .iterate]).map (fun w =>
          decide (∃ t ∈ w.timers, t.repeats = false ∧ ¬ t.started ≤ 1)) = some true := by
    decide +kernel
  obtain ⟨w, hr, hp⟩ := Machine.exec_reachable rfl hexec
  obtain ⟨t, ht, hrep, htwice⟩ := of_decide_eq_true hp
  exact htwice ((hall w hr).1 t ht hrep)

end TimerManager

end Windz
