import Windz.Net.TimerSteps

/-!
# One call of `HandleExpired`

The call begins with a heap in order and ends when the loop comes to a timer that
is not due, or to an empty heap. Until then its callbacks, and other threads, may
cancel timers and other threads may queue new ones; what happens is recorded as a
list of events. A repeating timer that has run is due again only behind `now`, so
no timer runs twice, as long as its new deadline fits into the `int64_t`.
-/

namespace Windz

open Lib

/-- What happens to the timers in a call of `HandleExpired`. -/
inductive ExpiredEvent where
  /-- The callback is called. -/
  | started (entry : TimerEntry)
  /-- The flag is set. -/
  | canceled (entry : TimerEntry)
  /-- `Restart` with the clock read behind the callback. -/
  | restarted (entry : TimerEntry) (clock : Timestamp)
deriving DecidableEq

namespace TimerManager

/-- `repeat_`. -/
def repeats (w : TimerManager) (e : TimerEntry) : Bool :=
  (w.timers[e]?).elim false Timer.repeats

/-- `interval_`. -/
def interval (w : TimerManager) (e : TimerEntry) : Duration :=
  (w.timers[e]?).elim ⟨0⟩ Timer.interval

/-- The events of the step from `w` to `w'`. -/
def events (w : TimerManager) (a : Label) (w' : TimerManager) : List ExpiredEvent :=
  match a with
  | .iterate =>
      match w'.phase with
      | .running _ e => [.started e]
      | .idle | .expiring _ => []
  | .cancel _ e => if !w.canceled e && w'.canceled e then [.canceled e] else []
  | .callbackReturns clock =>
      match w.phase with
      | .running _ e => if w.repeats e then [.restarted e clock] else []
      | .idle | .expiring _ => []
  | .addTimer _ _ _ | .functor | .handleExpired _ => []

theorem events_cancel (w : TimerManager) (inLoop : Bool) (e : TimerEntry) (w' : TimerManager) :
    w.events (.cancel inLoop e) w'
      = if (!w.canceled e && w'.canceled e) = true then [.canceled e] else [] := rfl

/-- The clock read behind the callback is not earlier than the one read at the start. -/
def ClockAfter (w : TimerManager) (clock : Timestamp) : Prop :=
  match w.phase with
  | .running now _ => now ≤ clock
  | .idle | .expiring _ => True

/-- The new deadline of a repeating timer that has run fits into the `int64_t`. -/
def DeadlineFits (w : TimerManager) (clock : Timestamp) : Prop :=
  match w.phase with
  | .running _ e =>
      w.repeats e = true → clock.unixNano + (w.interval e).nanosecond.toInt ≤ Int64.maxValue.toInt
  | .idle | .expiring _ => True

instance (w : TimerManager) (clock : Timestamp) : Decidable (w.ClockAfter clock) :=
  match hphase : w.phase with
  | .running now _ =>
      decidable_of_iff (now ≤ clock) (by unfold ClockAfter; rw [hphase])
  | .idle | .expiring _ => .isTrue (by unfold ClockAfter; rw [hphase]; trivial)

instance (w : TimerManager) (clock : Timestamp) : Decidable (w.DeadlineFits clock) :=
  match hphase : w.phase with
  | .running _ e =>
      decidable_of_iff (w.repeats e = true →
        clock.unixNano + (w.interval e).nanosecond.toInt ≤ Int64.maxValue.toInt)
        (by unfold DeadlineFits; rw [hphase])
  | .idle | .expiring _ => .isTrue (by unfold DeadlineFits; rw [hphase]; trivial)

/-! ## What happens to a timer -/

theorem repeats_eq {w : TimerManager} {e : TimerEntry} {t : Timer} (ht : w.timers[e]? = some t) :
    w.repeats e = t.repeats := by
  unfold repeats
  rw [ht]
  rfl

theorem interval_eq {w : TimerManager} {e : TimerEntry} {t : Timer} (ht : w.timers[e]? = some t) :
    w.interval e = t.interval := by
  unfold interval
  rw [ht]
  rfl

/-- The other timers, after one was added. -/
theorem add_others {w w' : TimerManager} {t : Timer} {e : TimerEntry}
    (htimers : w'.timers = w.timers ++ [t]) (he : e < w.timers.length) :
    w'.when e = w.when e ∧ w'.repeats e = w.repeats e ∧ w'.interval e = w.interval e := by
  have hold : w'.timers[e]? = w.timers[e]? := by
    rw [htimers]
    exact List.getElem?_append_left he
  refine ⟨when_congr hold, ?_, ?_⟩
  · unfold repeats
    rw [hold]
  · unfold interval
    rw [hold]

/-- The timers are as they were, but for flags and counts. -/
structure SameTimers (w w' : TimerManager) : Prop where
  when : w'.when = w.when
  repeats : w'.repeats = w.repeats
  interval : w'.interval = w.interval
  length : w'.timers.length = w.timers.length

theorem sameTimers_of_eq {w w' : TimerManager} (h : w'.timers = w.timers) : SameTimers w w' := by
  refine ⟨funext fun k => when_congr (by rw [h]), funext fun k => ?_, funext fun k => ?_, by rw [h]⟩
  · unfold repeats
    rw [h]
  · unfold interval
    rw [h]

theorem sameTimers_modify (w : TimerManager) (e : TimerEntry) {f : Timer → Timer}
    (hwhen : ∀ t, (f t).when = t.when) (hrepeats : ∀ t, (f t).repeats = t.repeats)
    (hinterval : ∀ t, (f t).interval = t.interval) : SameTimers w (w.modify e f) :=
  ⟨modify_when hwhen, funext (modify_elim (w := w) false hrepeats),
    funext (modify_elim (w := w) (⟨0⟩ : Duration) hinterval), modify_length w e f⟩

theorem SameTimers.trans {u v w : TimerManager} (h : SameTimers u v) (h' : SameTimers v w) :
    SameTimers u w :=
  ⟨h'.when.trans h.when, h'.repeats.trans h.repeats, h'.interval.trans h.interval,
    h'.length.trans h.length⟩

theorem sameTimers_returned (w : TimerManager) (now : Timestamp) (e : TimerEntry) :
    SameTimers w (w.returned now e) :=
  (sameTimers_modify w e (f := fun t => { t with finished := t.finished + 1 }) (fun _ => rfl)
    (fun _ => rfl) fun _ => rfl).trans (sameTimers_of_eq rfl)

/-- The timer of the callback has a new deadline. -/
structure Restarted (w w' : TimerManager) (e : TimerEntry) (clock : Timestamp) : Prop where
  when : w'.when e = clock.add (w.interval e)
  others : ∀ k, k ≠ e → w'.when k = w.when k
  repeats : w'.repeats = w.repeats
  interval : w'.interval = w.interval
  length : w'.timers.length = w.timers.length

theorem Restarted.heap {w w' : TimerManager} {e : TimerEntry} {clock : Timestamp}
    (h : Restarted w w' e clock) (heap : TimerHeap) : Restarted w { w' with heap } e clock :=
  ⟨h.when, h.others, h.repeats, h.interval, h.length⟩

/-- `Restart` behind the callback. -/
theorem restarted_returned {w : TimerManager} {e : TimerEntry} {t : Timer} (now clock : Timestamp)
    (ht : w.timers[e]? = some t) (hrep : t.repeats = true) :
    Restarted w ((w.returned now e).modify e (Timer.restart clock)) e clock := by
  have hret := sameTimers_returned w now e
  have hget : (w.returned now e).timers[e]? = some { t with finished := t.finished + 1 } := by
    show (w.modify e _).timers[e]? = _
    rw [modify_timers, if_pos rfl, ht]
    rfl
  refine ⟨?_, fun k hk => ?_, ?_, ?_, ?_⟩
  · rw [interval_eq ht]
    refine (when_eq (t := Timer.restart clock { t with finished := t.finished + 1 }) ?_).trans ?_
    · rw [modify_timers, if_pos rfl, hget]
      rfl
    · unfold Timer.restart
      rw [if_pos hrep]
  · refine (when_congr ?_).trans (congrFun hret.when k)
    rw [modify_timers, if_neg (Ne.symm hk)]
  · exact (funext (modify_elim (w := w.returned now e) false
      (Timer.restart_repeats clock))).trans hret.repeats
  · exact (funext (modify_elim (w := w.returned now e) (⟨0⟩ : Duration)
      (Timer.restart_interval clock))).trans hret.interval
  · exact (modify_length (w.returned now e) e _).trans hret.length

end TimerManager

open TimerManager (Label)

/-- A call of `HandleExpired` and what happened in it. -/
structure ExpiredCall where
  /-- The timers. -/
  world : TimerManager
  /-- The events so far, in order. -/
  events : List ExpiredEvent
deriving DecidableEq

namespace ExpiredCall

/-- The timers that were run, in order. -/
def ran (c : ExpiredCall) : List TimerEntry :=
  c.events.filterMap fun
    | .started e => some e
    | .canceled _ | .restarted _ _ => none

/-- The timer was cancelled before the call, or in it before its turn. -/
def CanceledFirst (w₀ : TimerManager) (c : ExpiredCall) (e : TimerEntry) : Prop :=
  w₀.canceled e = true
    ∨ ∃ l₁ l₂, c.events = l₁ ++ .canceled e :: l₂ ∧ ExpiredEvent.started e ∉ l₁

/-- A step with its events. -/
def step (c : ExpiredCall) (a : Label) : Option ExpiredCall :=
  (c.world.step a).map fun w => { world := w, events := c.events ++ c.world.events a w }

/-- The call with the clock reading `now`. -/
def enter (w₀ : TimerManager) (now : Timestamp) : ExpiredCall :=
  { world := { w₀ with phase := .expiring now }, events := [] }

/-- The runs of one call. -/
def machine (w₀ : TimerManager) (now : Timestamp) : Machine ExpiredCall Label where
  init := (· = enter w₀ now)
  step := step

/-- The steps of a call: it has not returned, no callback adds a timer, and the clock does not go
back. -/
def During (c : ExpiredCall) (a : Label) : Prop :=
  c.world.phase ≠ .idle ∧
  match a with
  | .addTimer inLoop _ _ => inLoop = false
  | .callbackReturns clock => c.world.ClockAfter clock
  | .cancel _ _ | .functor | .handleExpired _ | .iterate => True

/-- A new deadline fits. -/
def Fits (c : ExpiredCall) : Label → Prop
  | .callbackReturns clock => c.world.DeadlineFits clock
  | .addTimer _ _ _ | .cancel _ _ | .functor | .handleExpired _ | .iterate => True

instance (c : ExpiredCall) (a : Label) : Decidable (c.During a) :=
  match a with
  | .addTimer inLoop _ _ => inferInstanceAs (Decidable (_ ∧ inLoop = false))
  | .callbackReturns clock => inferInstanceAs (Decidable (_ ∧ c.world.ClockAfter clock))
  | .cancel _ _ | .functor | .handleExpired _ | .iterate => inferInstanceAs (Decidable (_ ∧ True))

instance (c : ExpiredCall) (a : Label) : Decidable (c.Fits a) :=
  match a with
  | .callbackReturns clock => inferInstanceAs (Decidable (c.world.DeadlineFits clock))
  | .addTimer _ _ _ | .cancel _ _ | .functor | .handleExpired _ | .iterate => .isTrue trivial

/-- Where a call begins: the heap is in order, and its repeating timers have positive intervals. -/
structure Ready (w₀ : TimerManager) : Prop where
  /-- The heap has each timer once, and only timers that were made. -/
  stored : w₀.Stored
  /-- No call is under way. -/
  idle : w₀.phase = .idle
  /-- No assertion has failed. -/
  running : w₀.fault = none
  /-- Heap order. -/
  ordered : TimerHeap.Ordered w₀.when w₀.heap
  /-- Of the repeating timers. -/
  positive : ∀ e ∈ w₀.heap, w₀.repeats e = true → 0 < (w₀.interval e).nanosecond.toInt

theorem mem_ran {c : ExpiredCall} {e : TimerEntry} :
    e ∈ c.ran ↔ ExpiredEvent.started e ∈ c.events := by
  unfold ran
  rw [List.mem_filterMap]
  constructor
  · rintro ⟨ev, hev, he⟩
    cases ev with
    | started e' => rw [← Option.some.inj he]; exact hev
    | canceled e' => exact absurd he (by simp)
    | restarted e' clock => exact absurd he (by simp)
  · intro h
    exact ⟨_, h, rfl⟩

end ExpiredCall

end Windz
