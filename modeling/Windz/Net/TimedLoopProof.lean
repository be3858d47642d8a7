import Windz.Net.TimedLoop

/-!
# Functors queued while the loop is not running

`QueueInLoop` leaves out the `WakeUp` when the loop's own thread calls it, except inside
`CallPendingFunctors`: inside of `Loop` the functor is then called in the same iteration.
While `Loop` is not running it is not: the next run comes to `epoll_wait` first. From
there on all is well again, since the first batch holds all such functors.
-/

namespace Windz

open Lib

/-! ## `NextTimeout` -/

namespace TimerManager

/-- A loop does not wait exactly when the timer on top is due. -/
theorem nextTimeout_due {w : TimerManager} {now : Timestamp} :
    min 10000 (w.nextTimeout now) = 0 ↔ Due w now := by
  unfold nextTimeout Due
  cases w.heap with
  | nil =>
    constructor
    · intro h
      have hmax : min 10000 Int64.maxValue.toInt ≠ 0 := by decide
      exact absurd h hmax
    · rintro ⟨entry, hmem, -⟩
      cases hmem
  | cons entry rest =>
    generalize ht : (w.when entry).sub now = timeout
    have hdue : (∃ e ∈ (entry :: rest).head?, (w.when e).sub now < ⟨Duration.kMillisecond⟩)
        ↔ timeout.nanosecond.toInt < 1000000 := by
      rw [← ht]
      constructor
      · rintro ⟨e, hmem, hlt⟩
        cases hmem
        exact Int64.lt_iff_toInt_lt.mp hlt
      · intro hlt
        exact ⟨entry, rfl, Int64.lt_iff_toInt_lt.mpr hlt⟩
    rw [hdue]
    dsimp only
    rw [ht]
    by_cases hneg : timeout < ⟨0⟩
    · have hlt : timeout.nanosecond.toInt < 0 := Int64.lt_iff_toInt_lt.mp hneg
      rw [if_pos hneg]
      omega
    · have hge : ¬ timeout.nanosecond.toInt < 0 := fun hlt => hneg (Int64.lt_iff_toInt_lt.mpr hlt)
      rw [if_neg hneg]
      show min 10000 (timeout.nanosecond.toInt / 1000000) = 0 ↔ _
      omega

end TimerManager

namespace TimedLoop

/-- The functor was queued before the batch of the first iteration, and will be in it. -/
def Early (first : Bool) (w : EventLoop) (f : Functor) : Prop :=
  match w.pc with
  | .check | .poll => first = true
  | .popping _ | .inFunctor _ => f < w.sized
  | .outside | .waiting _ | .handling _ | .inHandler _ | .expiring | .calling | .sizing => True

/-- The invariant of a loop with its timers. -/
structure Inv (s : TimedLoop) : Prop where
  counted : s.loop.Counted
  woken : s.wokenUp = true ↔ s.loop.wakeupFd ≠ 0
  known : ∀ f ∈ s.outside, f < s.loop.pushers.length
  early : ∀ f ∈ s.loop.pendingFunctors.queue, f ∈ s.outside → Early s.first s.loop f

theorem setLoop_loop (s : TimedLoop) (a : EventLoop.Label) (loop : EventLoop) :
    (s.setLoop a loop).loop = loop := by
  cases a <;> rfl

open EventLoop in
theorem woken_next {s : TimedLoop} {loop : EventLoop} (h : Inv s) (hs : NextStep s.loop loop) :
    (s.wokenUp && !s.loop.readsWakeUp) = true ↔ loop.wakeupFd ≠ 0 := by
  have hw := h.woken
  cases hs with
  | reads hpc =>
    show (s.wokenUp && !s.loop.readsWakeUp) = true ↔ (0 : Nat) ≠ 0
    simp [readsWakeUp, hpc]
  | handles hpc hread hpc' =>
    rw [hread, Bool.not_false, Bool.and_true]
    exact hw
  | check hpc _ | expired hpc | calls hpc | sizes hpc | pops hpc _ | batchOver hpc
  | functorReturns hpc =>
    rw [readsWakeUp, hpc, Bool.not_false, Bool.and_true]
    exact hw

open EventLoop in
theorem woken_step {s : TimedLoop} {a : EventLoop.Label} {loop : EventLoop} (h : Inv s)
    (hs : LoopStep s.loop a loop) :
    (s.setLoop a loop).wokenUp = true ↔ loop.wakeupFd ≠ 0 := by
  have hw := h.woken
  cases hs with
  | @afterQueue t n hpc hn =>
    show (s.wokenUp || s.loop.wakesUp t) = true ↔ n ≠ 0
    by_cases hwakes : s.loop.wakesUp t = true
    · rw [if_pos hwakes] at hn
      simp [hwakes, hn]
    · rw [if_neg hwakes] at hn
      rw [Bool.eq_false_iff.mpr hwakes, Bool.or_false, hn]
      exact hw
  | next hidle hs => exact woken_next h hs
  | queueInLoop | quit | loop | epollWait | epollReturns => exact hw

open EventLoop in
theorem known_step {s : TimedLoop} {a : EventLoop.Label} {loop : EventLoop} (h : Inv s)
    (hs : LoopStep s.loop a loop) :
    ∀ f ∈ (s.setLoop a loop).outside, f < loop.pushers.length := by
  cases hs with
  | @queueInLoop t hidle huser =>
    intro f hf
    show f < (s.loop.pushers ++ [t]).length
    rw [List.length_append, List.length_singleton]
    rcases List.mem_append.mp hf with hold | hnew
    · exact Nat.lt_succ_of_lt (h.known f hold)
    · split at hnew
      · rw [List.mem_singleton.mp hnew]
        exact Nat.lt_succ_self _
      · cases hnew
  | next hidle hs =>
    rw [hs.frame.2.2]
    exact h.known
  | quit | afterQueue | loop | epollWait | epollReturns => exact h.known

open EventLoop in
theorem early_next {s : TimedLoop} {loop : EventLoop} (h : Inv s) (hs : NextStep s.loop loop) :
    ∀ f ∈ loop.pendingFunctors.queue, f ∈ s.outside → Early s.first loop f := by
  intro f hf hout
  cases hs with
  | check hpc hpc' =>
    rcases hpc' with he | he
    · rw [he]
      trivial
    · have hfirst := h.early f hf hout
      rw [Early, hpc] at hfirst
      rw [he]
      exact hfirst
  | reads hpc => trivial
  | handles hpc hread hpc' => rcases hpc' with he | ⟨active, he | he⟩ <;> rw [he] <;> trivial
  | expired hpc => trivial
  | calls hpc => trivial
  | sizes hpc => exact (h.counted.queued_bounds hf).2
  | @pops left func rest hpc hq =>
    have hlt := h.early f (by rw [hq]; exact List.mem_cons_of_mem _ hf) hout
    rw [Early, hpc] at hlt
    exact hlt
  | batchOver hpc =>
    -- the batch is over when all of its functors have been called
    have hlt := h.early f hf hout
    rw [Early, hpc] at hlt
    have hsized : s.loop.called.length = s.loop.sized := (h.counted.batch 0 (.inl hpc)).1
    have hge := (h.counted.queued_bounds hf).1
    rw [hsized] at hge
    exact absurd hlt (Nat.not_lt.mpr hge)
  | functorReturns hpc =>
    have hlt := h.early f hf hout
    rw [Early, hpc] at hlt
    exact hlt

open EventLoop in
/-- **The functors queued outside are called in the first iteration.** -/
theorem early_step {s : TimedLoop} {a : EventLoop.Label} {loop : EventLoop} (h : Inv s)
    (hs : LoopStep s.loop a loop) :
    ∀ f ∈ loop.pendingFunctors.queue, f ∈ (s.setLoop a loop).outside →
      Early (s.setLoop a loop).first loop f := by
  intro f hf hout
  cases hs with
  | @queueInLoop t hidle huser =>
    rcases List.mem_append.mp hf with hold | hnew
    · refine h.early f hold ?_
      rcases List.mem_append.mp hout with hout | hout
      · exact hout
      · -- the number of the new functor is not in the queue
        split at hout
        · rw [List.mem_singleton.mp hout] at hold
          exact absurd (h.counted.queued_bounds hold).2 (Nat.lt_irrefl _)
        · cases hout
    · rw [List.mem_singleton.mp hnew] at hout ⊢
      rcases List.mem_append.mp hout with hout | hout
      · exact absurd (h.known _ hout) (Nat.lt_irrefl _)
      · split at hout
        · rename_i hown
          show match s.loop.pc with | _ => _
          unfold Early
          dsimp only [setLoop, EventLoop.setThread]
          rw [hown.2]
          trivial
        · cases hout
  | quit hidle hthreads => exact h.early f hf hout
  | afterQueue hpc hn => exact h.early f hf hout
  | loop hidle hpc => exact rfl
  | epollWait hpc => trivial
  | epollReturns hpc => trivial
  | next hidle hs => exact early_next h hs f hf hout

open EventLoop in
theorem inv_setLoop {s : TimedLoop} {a : EventLoop.Label} {loop : EventLoop} (h : Inv s)
    (hs : s.loop.step a = some loop) : Inv (s.setLoop a loop) := by
  have hstep := step_cases h.counted hs
  refine ⟨?_, ?_, ?_, ?_⟩
  · rw [setLoop_loop]
    exact counted_step h.counted hstep
  · rw [setLoop_loop]
    exact woken_step h hstep
  · rw [setLoop_loop]
    exact known_step h hstep
  · rw [setLoop_loop]
    exact early_step h hstep

/-! ## What a step can do -/

/-- A step of the loop, or one of its timers; `epoll_wait` is entered with what `NextTimeout`
gives. -/
inductive TimedStep (s : TimedLoop) : Label → TimedLoop → Prop where
  | loop {a : EventLoop.Label} {loop : EventLoop} (ha : ∀ n, a ≠ .epollWait n)
      (hs : s.loop.step a = some loop) : TimedStep s (.loop a) (s.setLoop a loop)
  | timers {b : TimerManager.Label} {timers : TimerManager} :
      TimedStep s (.timers b) { s with timers }
  | epollWait {now : Timestamp} {loop : EventLoop}
      (hs : s.loop.step (.epollWait (s.timers.nextTimeout now)) = some loop) :
      TimedStep s (.epollWait now) (s.setLoop (.epollWait (s.timers.nextTimeout now)) loop)
  | handleExpired {now : Timestamp} {timers : TimerManager} {loop : EventLoop}
      (hs : s.loop.step .next = some loop) :
      TimedStep s (.handleExpired now) ({ s with timers }.setLoop .next loop)

theorem timed_cases {s s' : TimedLoop} {a : Label} (hs : s.step a = some s') :
    TimedStep s a s' := by
  unfold step at hs
  split at hs
  · cases hs
  cases a with
  | loop a =>
    obtain ⟨hmay, hs⟩ := Option.ite_none_right_eq_some.mp hs
    obtain ⟨loop, hs, he⟩ := Option.map_eq_some_iff.mp hs
    rw [← he]
    refine .loop (fun n ha => ?_) hs
    rw [ha] at hmay
    cases hmay
  | timers b =>
    obtain ⟨-, hs⟩ := Option.ite_none_right_eq_some.mp hs
    obtain ⟨timers, -, he⟩ := Option.map_eq_some_iff.mp hs
    rw [← he]
    exact .timers
  | epollWait now =>
    obtain ⟨loop, hs, he⟩ := Option.map_eq_some_iff.mp hs
    rw [← he]
    exact .epollWait hs
  | handleExpired now =>
    obtain ⟨-, hs⟩ := Option.ite_none_right_eq_some.mp hs
    obtain ⟨timers, -, hs⟩ := Option.bind_eq_some_iff.mp hs
    obtain ⟨loop, hs, he⟩ := Option.map_eq_some_iff.mp hs
    rw [← he]
    exact .handleExpired hs

theorem inv_init (tid : ThreadId) : Inv (create tid) where
  counted := EventLoop.counted_init tid
  woken := ⟨fun h => absurd h Bool.false_ne_true, fun h => absurd rfl h⟩
  known := fun _ hf => absurd hf List.not_mem_nil
  early := fun _ hf => absurd hf List.not_mem_nil

theorem inv_step {s s' : TimedLoop} {a : Label} (h : Inv s) (hs : TimedStep s a s') : Inv s' := by
  cases hs with
  | loop ha hs => exact inv_setLoop h hs
  | timers => exact { h with }
  | epollWait hs => exact inv_setLoop h hs
  | @handleExpired now timers loop hs =>
    have htimers : Inv { s with timers } := { h with }
    exact inv_setLoop htimers hs

/-! ## Entering `epoll_wait` -/

/-- A functor that the loop's own thread queued while `Loop` was not running is still there. -/
def Waits (s : TimedLoop) : Prop := ∃ f ∈ s.loop.pendingFunctors.queue, f ∈ s.outside

/-- At the first `epoll_wait` of a run of `Loop`, with such a functor in the queue: somebody has
performed a `WakeUp` that the loop has not yet read, or the timer on top of the heap is due. -/
def WokenOrDue (s : TimedLoop) : Label → Prop
  | .epollWait now => s.first = true → s.Waits → s.wokenUp = true ∨ s.timers.Due now
  | .loop _ | .timers _ | .handleExpired _ => True

/-- From the second `epoll_wait` on, no such functor is left. -/
theorem Inv.waits_first {s : TimedLoop} (h : Inv s) (hpc : s.loop.pc = .poll) (hw : s.Waits) :
    s.first = true := by
  obtain ⟨f, hf, hout⟩ := hw
  have hearly := h.early f hf hout
  rw [Early, hpc] at hearly
  exact hearly

theorem mayBlock_iff {s : TimedLoop} (h : Inv s) {now : Timestamp} {loop : EventLoop}
    (hs : s.loop.step (.epollWait (s.timers.nextTimeout now)) = some loop) :
    mayBlock loop = true ↔ ¬ (s.wokenUp = true ∨ s.timers.Due now) := by
  rw [h.woken, ← TimerManager.nextTimeout_due]
  obtain ⟨-, hs⟩ := Option.ite_none_right_eq_some.mp hs
  cases hs
  unfold mayBlock
  dsimp only
  rw [decide_eq_true_iff]
  tauto

theorem blocked_step {s s' : TimedLoop} {a : Label} (h : Inv s) (hs : TimedStep s a s') :
    s'.blocked = [] ↔ s.blocked = [] ∧ WokenOrDue s a := by
  have hsame : s.blocked = [] ↔ s.blocked = [] ∧ True := (iff_of_eq (and_true _)).symm
  cases hs with
  | @loop a loop ha hs =>
    cases a with
    | epollWait n => exact absurd rfl (ha n)
    | _ => exact hsame
  | timers => exact hsame
  | handleExpired hs => exact hsame
  | @epollWait now loop hs =>
    have hmay := mayBlock_iff h hs
    obtain ⟨hpc, he⟩ := Option.ite_none_right_eq_some.mp hs
    have hqueue : loop.pendingFunctors = s.loop.pendingFunctors := by
      cases he
      rfl
    show s.blocked ++ _ = [] ↔ _
    rw [List.append_eq_nil_iff]
    refine and_congr_right fun _ => ?_
    by_cases hb : mayBlock loop = true
    · rw [if_pos hb, List.filter_eq_nil_iff, hqueue]
      constructor
      · rintro hnone - ⟨f, hf, hout⟩
        exact absurd (decide_eq_true hout) (hnone f hf)
      · intro hok f hf hout
        have hw : s.Waits := ⟨f, hf, of_decide_eq_true hout⟩
        exact hmay.mp hb (hok (h.waits_first hpc hw) hw)
    · rw [if_neg hb]
      refine ⟨fun _ _ _ => ?_, fun _ => rfl⟩
      by_contra hnot
      exact hb (hmay.mpr hnot)

theorem run_inv {tid : ThreadId} {s : TimedLoop} {as : List Label}
    (h : Run (machine tid) (fun _ _ => True) (create tid) as s) : Inv s :=
  h.invariant (inv_init tid) fun _ _ _ hu _ hs => inv_step hu (timed_cases hs)

/-- **When functors queued outside of `Loop` wait for it.** For any number of functors, any timers
and every order of the steps of all threads: no run of `Loop` enters `epoll_wait` with a time to
wait, an eventfd that is not readable and a functor in the queue that its own thread queued while
`Loop` was not running, exactly when at the first `epoll_wait` of each run that begins with such a
functor a `WakeUp` has been performed that the loop has not yet read, or the timer on top of the
heap is less than a millisecond ahead. At any later `epoll_wait` of the run none of them is left. -/
theorem outside_functors_iff {tid : ThreadId} {s : TimedLoop} {as : List Label}
    (h : Run (machine tid) (fun _ _ => True) (create tid) as s) :
    (s.blocked = [] ↔ Run (machine tid) WokenOrDue (create tid) as s)
    ∧ (s.loop.pc = .poll → s.first = false → ¬ s.Waits) := by
  refine ⟨?_, ?_⟩
  · induction h with
    | nil => exact ⟨fun _ => .nil, fun _ => rfl⟩
    | tail hr _ hs ih =>
      rw [hr.concat_iff hs, ← ih]
      exact blocked_step (run_inv hr) (timed_cases hs)
  · intro hpc hfirst hw
    have htrue := (run_inv h).waits_first hpc hw
    rw [hfirst] at htrue
    cases htrue

instance (s : TimedLoop) : Decidable s.Waits :=
  inferInstanceAs (Decidable (∃ f ∈ s.loop.pendingFunctors.queue, f ∈ s.outside))

instance (w : TimerManager) (now : Timestamp) : Decidable (w.Due now) :=
  inferInstanceAs (Decidable (∃ entry ∈ w.heap.head?, _))

instance (s : TimedLoop) (a : Label) : Decidable (WokenOrDue s a) :=
  match a with
  | .epollWait _ => inferInstanceAs (Decidable (_ → _ → _))
  | .loop _ | .timers _ | .handleExpired _ => isTrue trivial

/-- A functor is queued before the first run and one between two runs. At the first run a timer is
due, at the second another thread has woken the loop up. -/
theorem outside_functors_iff_small : ∃ as s,
    Run (machine 0) (fun _ _ => True) (create 0) as s
    ∧ s.outside = [0, 1] ∧ s.loop.called = [0, 1] ∧ s.loop.pc = .inFunctor 1
    ∧ s.blocked = [] := by
  have hexec : ((machine 0).exec WokenOrDue (create 0)
      [.loop (.queueInLoop 0), .loop (.afterQueue 0), .timers (.addTimer true ⟨5⟩ ⟨0⟩), .loop .loop,
        .loop .next, .epollWait ⟨900⟩, .loop (.epollReturns []), .handleExpired ⟨901⟩,
        .timers .iterate, .timers (.callbackReturns ⟨902⟩), .timers .iterate, .loop .next,
        .loop .next, .loop .next, .loop .next, .loop (.quit 0), .loop .next, .loop .next,
        .loop .next, .loop (.queueInLoop 0), .loop (.afterQueue 0), .loop .loop,
        .loop (.queueInLoop 7), .loop (.afterQueue 7), .loop .next, .epollWait ⟨1000⟩,
        .loop (.epollReturns [.wakeup]), .loop .next, .handleExpired ⟨1001⟩, .timers .iterate,
        .loop .next, .loop .next, .loop .next, .loop .next]).map
      (fun s => decide (s.outside = [0, 1] ∧ s.loop.called = [0, 1] ∧ s.loop.pc = .inFunctor 1))
        = some true := by
    decide +kernel
  obtain ⟨s, hs, hp⟩ := Option.map_eq_some_iff.mp hexec
  obtain ⟨hout, hcalled, hpc⟩ := of_decide_eq_true hp
  have hrun := Machine.exec_run _ hs
  have hall : Run (machine 0) (fun _ _ => True) (create 0) _ s := hrun.mono fun _ _ _ => trivial
  exact ⟨_, s, hall, hout, hcalled, hpc, (outside_functors_iff hall).1.mpr hrun⟩

/-- One functor, queued before the first run, no timer, and nobody else: the loop waits ten seconds
before it calls it. -/
theorem outside_functor_is_delayed :
    ¬ ∀ (tid : ThreadId) (as : List Label) (s : TimedLoop),
      Run (machine tid) (fun _ _ => True) (create tid) as s → s.blocked = [] := by
  intro hclaim
  have hexec : ((machine 0).exec (fun _ _ => True) (create 0)
      [.loop (.queueInLoop 0), .loop (.afterQueue 0), .loop .loop, .loop .next,
        .epollWait ⟨1000⟩]).map
      (fun s => decide (s.loop.pc = .waiting 10000 ∧ s.loop.wakeupFd = 0
        ∧ s.loop.pendingFunctors.queue = [0] ∧ s.blocked = [0])) = some true := by
    decide +kernel
  obtain ⟨s, hs, hp⟩ := Option.map_eq_some_iff.mp hexec
  obtain ⟨-, -, -, hblocked⟩ := of_decide_eq_true hp
  have hnone := hclaim 0 _ s (Machine.exec_run _ hs)
  rw [hnone] at hblocked
  cases hblocked

end TimedLoop

end Windz
