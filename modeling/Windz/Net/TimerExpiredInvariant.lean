import Windz.Net.TimerExpired

/-!
# Inside a call of `HandleExpired`

The invariant of a call: what has run was due and is due no more, what has not run has the
deadline it had, and the timers that have run come before those that wait. Each step of the
loop keeps it.
-/

namespace Windz

open Lib

open TimerManager (Label TimerStep step_cases stored_step not_running_of_expiring modify_timers
  modify_elim modify_canceled modify_length canceled_eq cancelNow_cases returned_when
  events_cancel returned_elim repeats_eq add_others sameTimers_modify sameTimers_returned
  restarted_returned)

namespace ExpiredCall

/-! ## The invariant of a call -/

/-- What holds between two steps of a call. -/
structure Inv (w₀ : TimerManager) (now : Timestamp) (c : ExpiredCall) : Prop where
  stored : c.world.Stored
  ordered : TimerHeap.Ordered c.world.when c.world.heap
  older : w₀.timers.length ≤ c.world.timers.length
  phase : c.world.phase = .idle ∨ c.world.phase = .expiring now
    ∨ ∃ e, c.world.phase = .running now e ∧ c.world.heap[0]? = some e ∧ e ∈ c.ran
  /-- Nothing is added. -/
  sub : ∀ e ∈ c.world.heap, e ∈ w₀.heap
  repeats : ∀ e ∈ w₀.heap, c.world.repeats e = w₀.repeats e
  interval : ∀ e ∈ w₀.heap, c.world.interval e = w₀.interval e
  /-- A timer that has not run has its old deadline. -/
  waits : ∀ e ∈ c.world.heap, e ∉ c.ran → c.world.when e = w₀.when e
  /-- One that has run and is still there is due after `now`. -/
  rerun : ∀ e ∈ c.world.heap, e ∈ c.ran → ¬ c.world.Running e →
    c.world.repeats e = true ∧ now < c.world.when e
      ∧ ∃ clock, ExpiredEvent.restarted e clock ∈ c.events ∧ now ≤ clock
        ∧ c.world.when e = clock.add (c.world.interval e)
  once : c.ran.Nodup
  sorted : c.ran.Pairwise fun a b => w₀.when a ≤ w₀.when b
  due : ∀ e ∈ c.ran, e ∈ w₀.heap ∧ w₀.when e ≤ now
  /-- What has run was due no later than what has not. -/
  before : ∀ a ∈ c.ran, ∀ e ∈ c.world.heap, e ∉ c.ran → w₀.when a ≤ w₀.when e
  lost : ∀ e ∈ w₀.heap, e ∉ c.world.heap →
    c.world.canceled e = true ∨ e ∈ c.ran ∧ c.world.repeats e = false
  flags : ∀ e ∈ w₀.heap, c.world.canceled e = true ↔
    w₀.canceled e = true ∨ ExpiredEvent.canceled e ∈ c.events
  turn : ∀ e ∈ c.ran, ¬ CanceledFirst w₀ c e
  left : c.world.phase = .idle → ∀ e ∈ c.world.heap, now < c.world.when e

theorem inv_enter {w₀ : TimerManager} (h : Ready w₀) (now : Timestamp) :
    Inv w₀ now (enter w₀ now) where
  stored := stored_step h.stored (.enter h.idle)
  ordered := h.ordered
  older := Nat.le_refl _
  phase := .inr (.inl rfl)
  sub := fun _ he => he
  repeats := fun _ _ => rfl
  interval := fun _ _ => rfl
  waits := fun _ _ _ => rfl
  rerun := fun _ _ he => absurd he List.not_mem_nil
  once := List.nodup_nil
  sorted := List.Pairwise.nil
  due := fun _ he => absurd he List.not_mem_nil
  before := fun _ he => absurd he List.not_mem_nil
  lost := fun _ he hnot => absurd he hnot
  flags := by
    intro e _
    constructor
    · exact .inl
    · rintro (h | h)
      · exact h
      · exact absurd h List.not_mem_nil
  turn := fun _ he => absurd he List.not_mem_nil
  left := fun hidle => TimerPhase.noConfusion hidle

/-- A timer that has run before cannot be cancelled before its turn any more. -/
theorem turn_append {w₀ : TimerManager} {c c' : ExpiredCall} {e : TimerEntry}
    {evs : List ExpiredEvent} (hevents : c'.events = c.events ++ evs)
    (hran : ExpiredEvent.started e ∈ c.events) (h : ¬ CanceledFirst w₀ c e) :
    ¬ CanceledFirst w₀ c' e := by
  rintro (hflag | ⟨l₁, l₂, hsplit, hnot⟩)
  · exact h (.inl hflag)
  · rw [hevents, List.append_eq_append_iff] at hsplit
    rcases hsplit with ⟨m, hl₁, _⟩ | ⟨m, hc, hl₂⟩
    · -- the flag would be set behind what happened so far
      refine hnot ?_
      rw [hl₁]
      exact List.mem_append_left m hran
    · cases m with
      | nil =>
        refine hnot ?_
        rw [List.append_nil] at hc
        rw [← hc]
        exact hran
      | cons ev m =>
        rw [List.cons_append, List.cons.injEq] at hl₂
        rw [← hl₂.1] at hc
        exact h (.inr ⟨l₁, m, hc, hnot⟩)

/-- A step that leaves heap and deadlines alone. -/
theorem Inv.keep {w₀ : TimerManager} {now : Timestamp} {c c' : ExpiredCall} (h : Inv w₀ now c)
    (hready : Ready w₀) (hstored : c'.world.Stored) (hheap : c'.world.heap = c.world.heap)
    (hphase : c'.world.phase = c.world.phase)
    (hlen : c.world.timers.length ≤ c'.world.timers.length)
    (hwhen : ∀ e < c.world.timers.length, c'.world.when e = c.world.when e)
    (hrepeats : ∀ e < c.world.timers.length, c'.world.repeats e = c.world.repeats e)
    (hinterval : ∀ e < c.world.timers.length, c'.world.interval e = c.world.interval e)
    {evs : List ExpiredEvent} (hevents : c'.events = c.events ++ evs)
    (hran : c'.ran = c.ran)
    (hflags : ∀ e < c.world.timers.length, c'.world.canceled e = true ↔
      c.world.canceled e = true ∨ ExpiredEvent.canceled e ∈ evs) : Inv w₀ now c' := by
  have hin : ∀ e ∈ c.world.heap, e < c.world.timers.length := fun e he =>
    h.stored.known e (List.mem_append_left _ he)
  have hin₀ : ∀ e ∈ w₀.heap, e < c.world.timers.length := fun e he =>
    (hready.stored.known e (List.mem_append_left _ he)).trans_le h.older
  have hrunning : ∀ e, c'.world.Running e ↔ c.world.Running e := by
    intro e
    unfold TimerManager.Running
    rw [hphase]
  refine { stored := hstored, ordered := ?_, older := h.older.trans hlen, phase := ?_, sub := ?_
           repeats := ?_, interval := ?_, waits := ?_, rerun := ?_, once := ?_, sorted := ?_
           due := ?_, before := ?_, lost := ?_, flags := ?_, turn := ?_, left := ?_ }
  · rw [hheap]
    refine BinaryHeap.Ordered.congr h.ordered fun e he => ?_
    unfold TimerHeap.key
    rw [hwhen e (hin e he)]
  · rw [hphase, hheap, hran]
    exact h.phase
  · rw [hheap]
    exact h.sub
  · intro e he
    rw [hrepeats e (hin₀ e he)]
    exact h.repeats e he
  · intro e he
    rw [hinterval e (hin₀ e he)]
    exact h.interval e he
  · intro e he hnot
    rw [hheap] at he
    rw [hran] at hnot
    rw [hwhen e (hin e he)]
    exact h.waits e he hnot
  · intro e he hmem hnot
    rw [hheap] at he
    rw [hran] at hmem
    rw [hwhen e (hin e he), hrepeats e (hin e he), hinterval e (hin e he), hevents]
    obtain ⟨hrep, hlate, clock, hev, hclock⟩ := h.rerun e he hmem ((hrunning e).not.mp hnot)
    exact ⟨hrep, hlate, clock, List.mem_append_left _ hev, hclock⟩
  · rw [hran]
    exact h.once
  · rw [hran]
    exact h.sorted
  · rw [hran]
    exact h.due
  · rw [hran, hheap]
    exact h.before
  · intro e he hnot
    rw [hheap] at hnot
    rw [hran, hrepeats e (hin₀ e he), hflags e (hin₀ e he)]
    rcases h.lost e he hnot with hc | hone
    · exact .inl (.inl hc)
    · exact .inr hone
  · intro e he
    rw [hflags e (hin₀ e he), h.flags e he, hevents, List.mem_append, or_assoc]
  · rw [hran]
    intro e he
    exact turn_append hevents (mem_ran.mp he) (h.turn e he)
  · rw [hphase, hheap]
    intro hidle e he
    rw [hwhen e (hin e he)]
    exact h.left hidle e he

theorem Inv.known {w₀ : TimerManager} {now : Timestamp} {c : ExpiredCall} (h : Inv w₀ now c)
    {e : TimerEntry} (he : e ∈ c.world.heap) : e < c.world.timers.length :=
  h.stored.known e (List.mem_append_left _ he)

theorem Inv.now_eq {w₀ : TimerManager} {now n : Timestamp} {c : ExpiredCall} (h : Inv w₀ now c)
    (hphase : c.world.phase = .expiring n) : n = now := by
  rcases h.phase with hp | hp | ⟨e, hp, _⟩
  · exact absurd (hphase.symm.trans hp) (by simp)
  · exact TimerPhase.expiring.inj (hphase.symm.trans hp)
  · exact absurd (hphase.symm.trans hp) (by simp)

/-- The timer running is the first entry. -/
theorem Inv.root {w₀ : TimerManager} {now n : Timestamp} {c : ExpiredCall} {e : TimerEntry}
    (h : Inv w₀ now c) (hphase : c.world.phase = .running n e) :
    n = now ∧ c.world.heap[0]? = some e ∧ e ∈ c.ran := by
  rcases h.phase with hp | hp | ⟨e', hp, hroot, hran⟩
  · exact absurd (hphase.symm.trans hp) (by simp)
  · exact absurd (hphase.symm.trans hp) (by simp)
  · obtain ⟨rfl, rfl⟩ := TimerPhase.running.inj (hphase.symm.trans hp)
    exact ⟨rfl, hroot, hran⟩

/-- The loop is left at a timer that is not due, so none is. -/
theorem Inv.leave {w₀ : TimerManager} {now : Timestamp} {c : ExpiredCall} (h : Inv w₀ now c)
    (hphase : c.world.phase = .expiring now)
    (hroot : ∀ r, c.world.heap[0]? = some r → ¬ c.world.when r ≤ now) :
    Inv w₀ now { world := { c.world with phase := .idle }, events := c.events } where
  stored := h.stored.next (Nat.le_refl _) (List.Subperm.refl _) (fun _ hk => .inl hk)
    (by rintro e ⟨n, hn⟩; exact TimerPhase.noConfusion hn) h.stored.bounds
  ordered := h.ordered
  older := h.older
  phase := .inl rfl
  sub := h.sub
  repeats := h.repeats
  interval := h.interval
  waits := h.waits
  rerun := fun e he hmem _ => h.rerun e he hmem (not_running_of_expiring hphase e)
  once := h.once
  sorted := h.sorted
  due := h.due
  before := h.before
  lost := h.lost
  flags := h.flags
  turn := h.turn
  left := by
    intro _ e he
    have hpos : 0 < c.world.heap.length := List.length_pos_of_mem he
    have hr := List.getElem?_eq_getElem hpos
    have hle := BinaryHeap.Ordered.root_le h.ordered hr he
    have hlate := hroot _ hr
    rw [Timestamp.le_iff, not_le] at hlate
    exact Timestamp.lt_iff.mpr (hlate.trans_le hle)

/-- The first entry is dropped, because it is cancelled. -/
theorem Inv.drop {w₀ : TimerManager} {now : Timestamp} {w : TimerManager} {evs : List ExpiredEvent}
    {r : TimerEntry} {rest heap : TimerHeap} (h : Inv w₀ now { world := w, events := evs })
    (hphase : w.phase = .expiring now) (hcons : w.heap = r :: rest) (hflag : w.canceled r = true)
    (hpop : w.heap.popInHeap w.when = some heap) :
    Inv w₀ now { world := { w with heap }, events := evs } := by
  have hord := h.ordered
  change TimerHeap.Ordered w.when w.heap at hord
  rw [hcons] at hord
  obtain ⟨heap', hpop', hperm, hord'⟩ := TimerHeap.popInHeap_spec hord
  rw [hcons, hpop', Option.some.injEq] at hpop
  subst hpop
  have hsub : ∀ e ∈ heap', e ∈ w.heap := by
    intro e he
    rw [hcons]
    exact List.mem_cons_of_mem r (hperm.mem_iff.mp he)
  refine { h with stored := ?_, ordered := hord', phase := .inr (.inl hphase)
                  sub := fun e he => h.sub e (hsub e he)
                  waits := fun e he => h.waits e (hsub e he)
                  rerun := fun e he => h.rerun e (hsub e he)
                  before := fun a ha e he => h.before a ha e (hsub e he)
                  lost := ?_, left := ?_ }
  · refine h.stored.next (Nat.le_refl _) ?_ (fun _ hk => .inl hk)
      (fun e he => absurd he (not_running_of_expiring hphase e)) h.stored.bounds
    show (heap' ++ w.queued).Subperm (w.heap ++ w.queued)
    rw [hcons]
    exact (hperm.append_right _).subperm.trans (List.sublist_cons_self r _).subperm
  · intro e he hnot
    by_cases her : e = r
    · rw [her]
      exact .inl hflag
    · refine h.lost e he fun hmem => hnot ?_
      change e ∈ w.heap at hmem
      rw [hcons] at hmem
      rcases List.mem_cons.mp hmem with hmem | hmem
      · exact absurd hmem her
      · exact hperm.mem_iff.mpr hmem
  · intro hidle
    exact TimerPhase.noConfusion (hphase.symm.trans hidle)

/-- The callback of the first entry starts. It has not run before: it would be due later. -/
theorem Inv.start {w₀ : TimerManager} {now : Timestamp} {c : ExpiredCall} {r : TimerEntry}
    {rest : TimerHeap} (h : Inv w₀ now c) (hphase : c.world.phase = .expiring now)
    (hcons : c.world.heap = r :: rest) (hflag : c.world.canceled r = false)
    (hdue : c.world.when r ≤ now) :
    Inv w₀ now
      { world := { c.world.modify r fun t => { t with started := t.started + 1 } with
          phase := .running now r }
        events := c.events ++ [.started r] } := by
  have hr : c.world.heap[0]? = some r := by rw [hcons]; rfl
  have hmem : r ∈ c.world.heap := List.mem_of_getElem? hr
  have hnot : r ∉ c.ran := by
    intro hran
    obtain ⟨_, hlate, _⟩ := h.rerun r hmem hran (not_running_of_expiring hphase r)
    rw [Timestamp.le_iff] at hdue
    rw [Timestamp.lt_iff] at hlate
    omega
  have hcanceled : (c.world.modify r fun t => { t with started := t.started + 1 }).canceled
      = c.world.canceled := modify_canceled fun _ => rfl
  obtain ⟨hwhen, hrepeats, hinterval, hlength⟩ := sameTimers_modify c.world r
    (f := fun t => { t with started := t.started + 1 }) (fun _ => rfl) (fun _ => rfl) fun _ => rfl
  have hran : ran { world := { c.world.modify r fun t => { t with started := t.started + 1 } with
      phase := .running now r }, events := c.events ++ [.started r] } = c.ran ++ [r] := by
    unfold ran
    rw [List.filterMap_append]
    rfl
  have hroot : ∀ e ∈ c.world.heap, e ∉ c.ran → w₀.when r ≤ w₀.when e := by
    intro e he hne
    rw [← h.waits r hmem hnot, ← h.waits e he hne, Timestamp.le_iff]
    exact BinaryHeap.Ordered.root_le h.ordered hr he
  refine { stored := stored_step h.stored (.start hphase hcons hflag hdue), ordered := ?_
           older := ?_, phase := ?_, sub := h.sub, repeats := ?_, interval := ?_, waits := ?_
           rerun := ?_, once := ?_, sorted := ?_, due := ?_, before := ?_, lost := ?_, flags := ?_
           turn := ?_, left := fun hidle => TimerPhase.noConfusion hidle }
  · have hord := h.ordered
    rw [← hwhen] at hord
    exact hord
  · exact h.older.trans hlength.ge
  · rw [hran]
    exact .inr (.inr ⟨r, rfl, hr, by simp⟩)
  · intro e he
    exact (congrFun hrepeats e).trans (h.repeats e he)
  · intro e he
    exact (congrFun hinterval e).trans (h.interval e he)
  · intro e he hne
    rw [hran] at hne
    exact (congrFun hwhen e).trans (h.waits e he fun hm => hne (List.mem_append_left _ hm))
  · intro e he hm hrunning
    rw [hran] at hm
    have hne : e ≠ r := by
      rintro rfl
      exact hrunning ⟨now, rfl⟩
    have hm' : e ∈ c.ran := by
      rcases List.mem_append.mp hm with hm | hm
      · exact hm
      · exact absurd (List.mem_singleton.mp hm) hne
    obtain ⟨hrep, hlate, clock, hev, hclock, heq⟩ :=
      h.rerun e he hm' (not_running_of_expiring hphase e)
    have hw := congrFun hwhen e
    refine ⟨(congrFun hrepeats e).trans hrep, hw.symm ▸ hlate, clock,
      List.mem_append_left _ hev, hclock, ?_⟩
    refine hw.trans (heq.trans ?_)
    exact congrArg clock.add (congrFun hinterval e).symm
  · rw [hran]
    exact List.nodup_append.mpr ⟨h.once, List.nodup_singleton r, by
      intro a ha b hb hab
      rw [List.mem_singleton.mp hb] at hab
      exact hnot (hab ▸ ha)⟩
  · rw [hran, List.pairwise_append]
    refine ⟨h.sorted, List.pairwise_singleton _ r, fun a ha b hb => ?_⟩
    rw [List.mem_singleton.mp hb]
    exact h.before a ha r hmem hnot
  · rw [hran]
    intro e he
    rcases List.mem_append.mp he with he | he
    · exact h.due e he
    · rw [List.mem_singleton.mp he, ← h.waits r hmem hnot]
      exact ⟨h.sub r hmem, hdue⟩
  · rw [hran]
    intro a ha e he hne
    have hne' : e ∉ c.ran := fun hm => hne (List.mem_append_left _ hm)
    rcases List.mem_append.mp ha with ha | ha
    · exact h.before a ha e he hne'
    · rw [List.mem_singleton.mp ha]
      exact hroot e he hne'
  · intro e he hm
    rw [hran]
    rcases h.lost e he hm with hc | ⟨hm', hrep⟩
    · exact .inl ((congrFun hcanceled e).trans hc)
    · exact .inr ⟨List.mem_append_left _ hm', (congrFun hrepeats e).trans hrep⟩
  · intro e he
    show (c.world.modify r _).canceled e = true ↔ _
    rw [hcanceled, h.flags e he]
    simp
  · rw [hran]
    intro e he
    rcases List.mem_append.mp he with he | he
    · exact turn_append rfl (mem_ran.mp he) (h.turn e he)
    · rw [List.mem_singleton.mp he]
      have hflags := (h.flags r (h.sub r hmem)).not.mp (by rw [hflag]; simp)
      rintro (hc | ⟨l₁, l₂, hsplit, _⟩)
      · exact hflags (.inl hc)
      · have hin : ExpiredEvent.canceled r ∈ l₁ ++ .canceled r :: l₂ := by simp
        rw [← hsplit] at hin
        rcases List.mem_append.mp hin with hin | hin
        · exact hflags (.inr hin)
        · exact absurd hin (by simp)

/-- A new deadline that fits is behind `now`. -/
theorem add_late {now clock : Timestamp} {d : Duration} (hnow : now ≤ clock)
    (hpos : 0 < d.nanosecond.toInt)
    (hfits : clock.unixNano + d.nanosecond.toInt ≤ Int64.maxValue.toInt) : now < clock.add d := by
  rw [Timestamp.le_iff] at hnow
  rw [Timestamp.lt_iff, (Timestamp.add_exact_iff (Int.le_of_lt hpos)).mpr hfits]
  omega

/-- The loop is behind the callback of `e`, which is gone or due again only after `now`. -/
theorem Inv.after {w₀ w : TimerManager} {now : Timestamp} {c : ExpiredCall} {e : TimerEntry}
    (h : Inv w₀ now c) (hphase : c.world.phase = .running now e) (hstored : w.Stored)
    (hord : TimerHeap.Ordered w.when w.heap) (hphase' : w.phase = .expiring now)
    (hlen : w.timers.length = c.world.timers.length)
    (hwhen : ∀ k, k ≠ e → w.when k = c.world.when k)
    (hcanceled : ∀ k, w.canceled k = c.world.canceled k)
    (hrepeats : w.repeats = c.world.repeats) (hinterval : w.interval = c.world.interval)
    (hsub : ∀ k ∈ w.heap, k ∈ c.world.heap)
    (hlost : ∀ k ∈ c.world.heap, k ∉ w.heap → k = e ∧ c.world.repeats e = false)
    {evs : List ExpiredEvent} (hevs : ∀ ev ∈ evs, ∃ k clock, ev = .restarted k clock)
    (hagain : e ∈ w.heap → c.world.repeats e = true ∧ now < w.when e
      ∧ ∃ clock, ExpiredEvent.restarted e clock ∈ evs ∧ now ≤ clock
        ∧ w.when e = clock.add (c.world.interval e)) :
    Inv w₀ now { world := w, events := c.events ++ evs } := by
  obtain ⟨_, hroot, hran⟩ := h.root hphase
  have hsame : ran { world := w, events := c.events ++ evs } = c.ran := by
    have hnone : ran { world := w, events := evs } = [] := by
      rw [List.eq_nil_iff_forall_not_mem]
      intro k hk
      obtain ⟨k', clock, hev⟩ := hevs _ (mem_ran.mp hk)
      exact ExpiredEvent.noConfusion hev
    show List.filterMap _ (c.events ++ evs) = _
    rw [List.filterMap_append, show List.filterMap _ evs = [] from hnone, List.append_nil]
    rfl
  refine { stored := hstored, ordered := hord, older := hlen.symm ▸ h.older
           phase := .inr (.inl hphase'), sub := fun k hk => h.sub k (hsub k hk), repeats := ?_
           interval := ?_, waits := ?_, rerun := ?_, once := hsame.symm ▸ h.once
           sorted := hsame.symm ▸ h.sorted, due := hsame.symm ▸ h.due, before := ?_, lost := ?_
           flags := ?_, turn := ?_, left := ?_ }
  · intro k hk
    exact (congrFun hrepeats k).trans (h.repeats k hk)
  · intro k hk
    exact (congrFun hinterval k).trans (h.interval k hk)
  · intro k hk hnot
    rw [hsame] at hnot
    have hne : k ≠ e := by
      rintro rfl
      exact hnot hran
    exact (hwhen k hne).trans (h.waits k (hsub k hk) hnot)
  · intro k hk hmem _
    rw [hsame] at hmem
    by_cases hke : k = e
    · subst hke
      obtain ⟨hrep, hlate, clock, hev, hclock, heq⟩ := hagain hk
      refine ⟨(congrFun hrepeats k).trans hrep, hlate, clock, List.mem_append_right _ hev,
        hclock, ?_⟩
      exact heq.trans (congrArg clock.add (congrFun hinterval k).symm)
    · have hnot : ¬ c.world.Running k := by
        rintro ⟨n, hn⟩
        exact hke (TimerPhase.running.inj (hn.symm.trans hphase)).2
      obtain ⟨hrep, hlate, clock, hev, hclock, heq⟩ := h.rerun k (hsub k hk) hmem hnot
      refine ⟨(congrFun hrepeats k).trans hrep, (hwhen k hke).symm ▸ hlate, clock,
        List.mem_append_left _ hev, hclock, ?_⟩
      exact (hwhen k hke).trans (heq.trans (congrArg clock.add (congrFun hinterval k).symm))
  · rw [hsame]
    exact fun a ha k hk => h.before a ha k (hsub k hk)
  · intro k hk hnot
    rw [hsame]
    by_cases hmem : k ∈ c.world.heap
    · obtain ⟨rfl, hrep⟩ := hlost k hmem hnot
      exact .inr ⟨hran, (congrFun hrepeats k).trans hrep⟩
    · rcases h.lost k hk hmem with hc | ⟨hm, hrep⟩
      · exact .inl ((hcanceled k).trans hc)
      · exact .inr ⟨hm, (congrFun hrepeats k).trans hrep⟩
  · intro k hk
    have hnew : ExpiredEvent.canceled k ∉ evs := by
      intro hev
      obtain ⟨k', clock, heq⟩ := hevs _ hev
      exact ExpiredEvent.noConfusion heq
    show w.canceled k = true ↔ _ ∨ _ ∈ c.events ++ evs
    rw [hcanceled k, h.flags k hk, List.mem_append, or_iff_left hnew]
  · rw [hsame]
    intro k hk
    exact turn_append rfl (mem_ran.mp hk) (h.turn k hk)
  · intro hidle
    exact TimerPhase.noConfusion (hphase'.symm.trans hidle)

/-- `Restart` of the timer that has run, and `DownInHeap(0)`. -/
theorem Inv.again {w₀ : TimerManager} {now clock : Timestamp} {c : ExpiredCall} {e : TimerEntry}
    {t : Timer} {heap : TimerHeap} (h : Inv w₀ now c) (hready : Ready w₀)
    (hphase : c.world.phase = .running now e) (ht : c.world.timers[e]? = some t)
    (hrep : t.repeats = true)
    (hdown : c.world.heap.downInHeap
      ((c.world.returned now e).modify e (Timer.restart clock)).when 0 = some heap)
    (hclock : c.world.ClockAfter clock) (hfits : c.world.DeadlineFits clock) :
    Inv w₀ now
      { world := { (c.world.returned now e).modify e (Timer.restart clock) with heap }
        events := c.events ++ [.restarted e clock] } := by
  obtain ⟨_, hroot, _⟩ := h.root hphase
  have hmem : e ∈ c.world.heap := List.mem_of_getElem? hroot
  have hrepeats : c.world.repeats e = true := (repeats_eq ht).trans hrep
  have hnow : now ≤ clock := by
    unfold TimerManager.ClockAfter at hclock
    rw [hphase] at hclock
    exact hclock
  have hfits : clock.unixNano + (c.world.interval e).nanosecond.toInt ≤ Int64.maxValue.toInt := by
    unfold TimerManager.DeadlineFits at hfits
    rw [hphase] at hfits
    exact hfits hrepeats
  have hpos : 0 < (c.world.interval e).nanosecond.toInt := by
    rw [h.interval e (h.sub e hmem)]
    exact hready.positive e (h.sub e hmem) ((h.repeats e (h.sub e hmem)).symm.trans hrepeats)
  have hagain := restarted_returned now clock ht hrep
  have hkey : ∀ k, k ≠ e →
      TimerHeap.key ((c.world.returned now e).modify e (Timer.restart clock)).when k
        = TimerHeap.key c.world.when k := by
    intro k hke
    unfold TimerHeap.key
    rw [hagain.others k hke]
  obtain ⟨heap', hdown', hperm, hord⟩ := TimerHeap.downInHeap_spec
    (BinaryHeap.Ordered.root_changed h.ordered hroot (List.nodup_append.mp h.stored.nodup).1 hkey)
  have heq : heap' = heap := Option.some.inj (hdown'.symm.trans hdown)
  subst heq
  refine h.after hphase (stored_step h.stored (.again hphase ht hrep hdown)) hord rfl hagain.length
    hagain.others (fun k => ?_) hagain.repeats hagain.interval (fun k hk => hperm.mem_iff.mp hk)
    (fun k hk hnot => absurd (hperm.mem_iff.mpr hk) hnot) (by simp)
    (fun _ => ⟨hrepeats, ?_, clock, List.mem_singleton_self _, hnow, hagain.when⟩)
  · refine (modify_elim (w := c.world.returned now e) (e := e) false
      (Timer.restart_canceled clock) k).trans ?_
    exact returned_elim now false (fun _ => rfl) k
  · have hlate := add_late hnow hpos hfits
    rw [← hagain.when] at hlate
    exact hlate

/-- A one-shot timer that has run is popped. -/
theorem Inv.finish {w₀ : TimerManager} {now : Timestamp} {c : ExpiredCall} {e : TimerEntry}
    {t : Timer} {heap : TimerHeap} (h : Inv w₀ now c) (hphase : c.world.phase = .running now e)
    (ht : c.world.timers[e]? = some t) (hrep : t.repeats = false)
    (hpop : c.world.heap.popInHeap c.world.when = some heap) :
    Inv w₀ now { world := { c.world.returned now e with heap }, events := c.events } := by
  obtain ⟨_, hroot, _⟩ := h.root hphase
  obtain ⟨rest, hcons⟩ : ∃ rest, c.world.heap = e :: rest := by
    cases hw : c.world.heap with
    | nil => rw [hw] at hroot; exact absurd hroot (by simp)
    | cons r rest => rw [hw] at hroot; exact ⟨rest, by rw [Option.some.inj hroot]⟩
  have hord := h.ordered
  rw [hcons] at hord
  obtain ⟨heap', hpop', hperm, hord'⟩ := TimerHeap.popInHeap_spec hord
  have heq : heap' = heap := by
    rw [hcons] at hpop
    exact Option.some.inj (hpop'.symm.trans hpop)
  subst heq
  have hgone : e ∉ heap' := by
    intro hmem
    have hnodup := h.stored.nodup
    rw [hcons, List.cons_append, List.nodup_cons] at hnodup
    exact hnodup.1 (List.mem_append_left _ (hperm.mem_iff.mp hmem))
  have hrepeats : c.world.repeats e = false := (repeats_eq ht).trans hrep
  have hsame := sameTimers_returned c.world now e
  rw [← List.append_nil c.events]
  have hstored := stored_step (a := .callbackReturns now) h.stored (.finish hphase ht hrep hpop)
  refine h.after hphase hstored ?_ rfl hsame.length (fun k _ => congrFun hsame.when k)
    (returned_elim now false fun _ => rfl) hsame.repeats hsame.interval (fun k hk => ?_)
    (fun k hk hnot => ?_) (fun _ hev => absurd hev List.not_mem_nil) (fun hmem => absurd hmem hgone)
  · rw [← hsame.when] at hord'
    exact hord'
  · rw [hcons]
    exact List.mem_cons_of_mem e (hperm.mem_iff.mp hk)
  · rw [hcons] at hk
    rcases List.mem_cons.mp hk with hk | hk
    · exact ⟨hk, hrepeats⟩
    · exact absurd (hperm.mem_iff.mpr hk) hnot

end ExpiredCall

end Windz
