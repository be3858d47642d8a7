import Windz.Net.TimerExpired

/-!
# Delays

`RunAt`, `RunAfter` and `RunEvery` of `net/EventLoop.cpp` over the timers: the last two read
the clock and ask for a deadline that lies a delay behind what they read, and a repeating
timer that has run asks for the next one in the same way. Deadlines are sums of an
`int64_t`, which wrap. The ghosts: the last reading of the clock, and for each timer what
was read and the delay when its deadline was last asked for.
-/

namespace Windz

open Lib

/-- A deadline asked for: the clock then, and the delay. -/
structure Asked where
  /-- The clock. -/
  since : Timestamp
  /-- The delay. -/
  delay : Duration
deriving DecidableEq

/-- The deadline meant. -/
def Asked.due (a : Asked) : Int := a.since.unixNano + a.delay.nanosecond.toInt

/-- Timers and the clock they go by. -/
structure DelayedTimers where
  /-- The timers. -/
  world : TimerManager
  /-- The clock. -/
  clock : Timestamp
  /-- What was asked for each timer, nothing for those of `RunAt`. -/
  asked : List (Option Asked)
deriving DecidableEq

namespace DelayedTimers

/-- No timer is made yet. -/
def create : DelayedTimers := { world := .create, clock := ⟨0⟩, asked := [] }

/-- The calls of the loop's user, each with the clock it reads, and the steps of the loop. -/
inductive Label where
  | runAt (inLoop : Bool) (when : Timestamp)
  | runAfter (inLoop : Bool) (delay : Duration) (clock : Timestamp)
  | runEvery (inLoop : Bool) (interval : Duration) (clock : Timestamp)
  | cancel (inLoop : Bool) (entry : TimerEntry)
  | functor
  | handleExpired (clock : Timestamp)
  | iterate
  | callbackReturns (clock : Timestamp)

/-- What `TimerManager` is called with. -/
def Label.call : Label → TimerManager.Label
  | .runAt inLoop when => .addTimer inLoop when ⟨0⟩
  | .runAfter inLoop delay clock => .addTimer inLoop (clock.add delay) ⟨0⟩
  | .runEvery inLoop interval clock => .addTimer inLoop (clock.add interval) interval
  | .cancel inLoop entry => .cancel inLoop entry
  | .functor => .functor
  | .handleExpired clock => .handleExpired clock
  | .iterate => .iterate
  | .callbackReturns clock => .callbackReturns clock

/-- What the clock reads in the step. -/
def Label.reading : Label → Option Timestamp
  | .runAfter _ _ clock | .runEvery _ _ clock | .handleExpired clock | .callbackReturns clock =>
      some clock
  | .runAt _ _ | .cancel _ _ | .functor | .iterate => none

/-- What is asked for behind the step. -/
def asks (s : DelayedTimers) : Label → List (Option Asked)
  | .runAt _ _ => s.asked ++ [none]
  | .runAfter _ delay clock => s.asked ++ [some ⟨clock, delay⟩]
  | .runEvery _ interval clock => s.asked ++ [some ⟨clock, interval⟩]
  | .callbackReturns clock =>
      match s.world.phase with
      | .running _ e =>
          if s.world.repeats e then
            s.asked.modify e fun a => a.map fun a => { a with since := clock }
          else s.asked
      | .idle | .expiring _ => s.asked
  | .cancel _ _ | .functor | .handleExpired _ | .iterate => s.asked

/-- One step, `none` where it is not enabled. -/
def step (s : DelayedTimers) (a : Label) : Option DelayedTimers :=
  (s.world.step a.call).map fun world =>
    { world, clock := a.reading.getD s.clock, asked := s.asks a }

/-- The timers of a loop, with the clock. -/
def machine : Machine DelayedTimers Label where
  init := (· = create)
  step := step

/-- The clock does not go back, and delays are not negative, those of `RunEvery` positive. -/
def Steady (s : DelayedTimers) (a : Label) : Prop :=
  (∀ c ∈ a.reading, s.clock ≤ c) ∧
  match a with
  | .runAfter _ delay _ => 0 ≤ delay.nanosecond.toInt
  | .runEvery _ interval _ => 0 < interval.nanosecond.toInt
  | .runAt _ _ | .cancel _ _ | .functor | .handleExpired _ | .iterate | .callbackReturns _ => True

/-- The sum of the step fits into the `int64_t`. -/
def Fits (s : DelayedTimers) : Label → Prop
  | .runAfter _ delay clock | .runEvery _ delay clock =>
      clock.unixNano + delay.nanosecond.toInt ≤ Int64.maxValue.toInt
  | .callbackReturns clock => s.world.DeadlineFits clock
  | .runAt _ _ | .cancel _ _ | .functor | .handleExpired _ | .iterate => True

instance (s : DelayedTimers) (a : Label) : Decidable (s.Steady a) :=
  match a with
  | .runAfter _ delay _ => inferInstanceAs (Decidable (_ ∧ 0 ≤ delay.nanosecond.toInt))
  | .runEvery _ interval _ => inferInstanceAs (Decidable (_ ∧ 0 < interval.nanosecond.toInt))
  | .runAt _ _ | .cancel _ _ | .functor | .handleExpired _ | .iterate | .callbackReturns _ =>
      inferInstanceAs (Decidable (_ ∧ True))

instance (s : DelayedTimers) (a : Label) : Decidable (s.Fits a) :=
  match a with
  | .runAfter _ delay clock | .runEvery _ delay clock =>
      inferInstanceAs (Decidable
        (clock.unixNano + delay.nanosecond.toInt ≤ Int64.maxValue.toInt))
  | .callbackReturns clock => inferInstanceAs (Decidable (s.world.DeadlineFits clock))
  | .runAt _ _ | .cancel _ _ | .functor | .handleExpired _ | .iterate => .isTrue trivial

/-- Each deadline is the one meant. -/
def Exact (s : DelayedTimers) : Prop :=
  ∀ e a, s.asked[e]? = some (some a) → (s.world.when e).unixNano = a.due

/-- A callback that runs was started when its delay had passed. -/
def Punctual (s : DelayedTimers) : Prop :=
  ∀ now e a, s.world.phase = .running now e → s.asked[e]? = some (some a) →
    a.due ≤ now.unixNano ∧ now ≤ s.clock

end DelayedTimers

/-! ## What a step does to the deadlines -/

namespace TimerManager

theorem sameTimers_cancelNow (w : TimerManager) (e : TimerEntry) :
    SameTimers w (w.cancelNow e) := by
  unfold cancelNow
  split
  · split
    · split
      · exact sameTimers_of_eq rfl
      · exact sameTimers_modify w e (fun _ => rfl) (fun _ => rfl) fun _ => rfl
    · exact sameTimers_of_eq rfl
  · exact sameTimers_of_eq rfl

theorem addTimer_timers {w w' : TimerManager} {inLoop : Bool} {when : Timestamp}
    {interval : Duration} (h : TimerStep w (.addTimer inLoop when interval) w') :
    w'.timers = w.timers ++ [Timer.create when interval] := by
  cases h with
  | add _ _ => rfl
  | queueAdd => rfl

theorem callbackReturns_timers {w w' : TimerManager} {clock : Timestamp}
    (h : TimerStep w (.callbackReturns clock) w') :
    ∃ now e, w.phase = .running now e ∧ e < w.timers.length
      ∧ (w.repeats e = true ∧ Restarted w w' e clock ∨ w.repeats e = false ∧ SameTimers w w') := by
  cases h with
  | @again now _ e t heap hphase ht hrep _ =>
    refine ⟨now, e, hphase, (List.getElem?_eq_some_iff.mp ht).1, .inl ⟨?_, ?_⟩⟩
    · exact (repeats_eq ht).trans hrep
    · exact (restarted_returned now clock ht hrep).heap heap
  | @finish now _ e t heap hphase ht hrep _ =>
    refine ⟨now, e, hphase, (List.getElem?_eq_some_iff.mp ht).1, .inr ⟨?_, ?_⟩⟩
    · exact (repeats_eq ht).trans hrep
    · exact (sameTimers_returned w now e).trans (sameTimers_of_eq rfl)

/-- No other step changes a deadline. -/
theorem other_timers {w w' : TimerManager} {a : Label} (h : TimerStep w a w')
    (hadd : ∀ inLoop when interval, a ≠ .addTimer inLoop when interval)
    (hback : ∀ clock, a ≠ .callbackReturns clock) : SameTimers w w' := by
  cases h with
  | add _ _ => exact absurd rfl (hadd _ _ _)
  | queueAdd => exact absurd rfl (hadd _ _ _)
  | cancel _ _ => exact sameTimers_cancelNow w _
  | queueCancel _ => exact sameTimers_of_eq rfl
  | push _ _ _ => exact sameTimers_of_eq rfl
  | @runCancel e rest _ _ =>
    have hrest : SameTimers w { w with functors := rest } := sameTimers_of_eq rfl
    exact hrest.trans (sameTimers_cancelNow _ e)
  | enter _ => exact sameTimers_of_eq rfl
  | leave _ _ => exact sameTimers_of_eq rfl
  | drop _ _ _ _ => exact sameTimers_of_eq rfl
  | @start now r rest _ _ _ _ =>
    exact (sameTimers_modify w r (f := fun t => { t with started := t.started + 1 })
      (fun _ => rfl) (fun _ => rfl) fun _ => rfl).trans (sameTimers_of_eq rfl)
  | again _ _ _ _ => exact absurd rfl (hback _)
  | finish _ _ _ _ => exact absurd rfl (hback _)

theorem cancelNow_phase (w : TimerManager) (e : TimerEntry) :
    (w.cancelNow e).phase = w.phase := by
  unfold cancelNow
  split
  · split
    · split
      · rfl
      · rfl
    · rfl
  · rfl

/-- The time that `HandleExpired` goes by. -/
def expiredAt (w : TimerManager) : Option Timestamp :=
  match w.phase with
  | .idle => none
  | .expiring now | .running now _ => some now

/-- It was read at the beginning. -/
theorem step_expiredAt {w w' : TimerManager} {a : Label} {now : Timestamp} (h : TimerStep w a w')
    (hnow : w'.expiredAt = some now) : w.expiredAt = some now ∨ a = .handleExpired now := by
  unfold expiredAt at hnow ⊢
  cases h with
  | add _ _ => exact .inl hnow
  | queueAdd => exact .inl hnow
  | cancel _ _ =>
    rw [cancelNow_phase] at hnow
    exact .inl hnow
  | queueCancel _ => exact .inl hnow
  | push _ _ _ => exact .inl hnow
  | runCancel _ _ =>
    rw [cancelNow_phase] at hnow
    exact .inl hnow
  | enter _ => exact .inr (congrArg Label.handleExpired (Option.some.inj hnow))
  | leave _ _ => exact absurd hnow (by simp)
  | drop _ _ _ _ => exact .inl hnow
  | start hphase _ _ _ =>
    rw [hphase]
    exact .inl hnow
  | again hphase _ _ _ =>
    rw [hphase]
    exact .inl hnow
  | finish hphase _ _ _ =>
    rw [hphase]
    exact .inl hnow

/-- A callback runs since the step that found its timer due. -/
theorem step_running {w w' : TimerManager} {a : Label} {now : Timestamp} {e : TimerEntry}
    (h : TimerStep w a w') (hphase : w'.phase = .running now e) :
    w.phase = .running now e ∧ (∀ clock, a ≠ .callbackReturns clock)
      ∨ a = .iterate ∧ w.when e ≤ now := by
  cases h with
  | add _ _ => exact .inl ⟨hphase, fun _ => nofun⟩
  | queueAdd => exact .inl ⟨hphase, fun _ => nofun⟩
  | cancel _ _ =>
    rw [cancelNow_phase] at hphase
    exact .inl ⟨hphase, fun _ => nofun⟩
  | queueCancel _ => exact .inl ⟨hphase, fun _ => nofun⟩
  | push _ _ _ => exact .inl ⟨hphase, fun _ => nofun⟩
  | runCancel _ _ =>
    rw [cancelNow_phase] at hphase
    exact .inl ⟨hphase, fun _ => nofun⟩
  | enter _ => exact absurd hphase (by simp)
  | leave _ _ => exact absurd hphase (by simp)
  | drop _ _ _ _ => exact .inl ⟨hphase, fun _ => nofun⟩
  | start _ _ _ hdue =>
    obtain ⟨rfl, rfl⟩ := TimerPhase.running.inj hphase
    exact .inr ⟨rfl, hdue⟩
  | again _ _ _ _ => exact absurd hphase (by simp [returned, modify])
  | finish _ _ _ _ => exact absurd hphase (by simp [returned])

end TimerManager

namespace DelayedTimers

open TimerManager (TimerStep SameTimers Restarted step_cases stored_step expiredAt step_expiredAt
  step_running addTimer_timers callbackReturns_timers other_timers add_others when_eq repeats_eq
  interval_eq)

/-- `x` is what was asked for the timer. -/
def AskedFor (w : TimerManager) (e : TimerEntry) : Option Asked → Prop
  | none => w.repeats e = false
  | some a =>
      0 ≤ a.delay.nanosecond.toInt ∧ (w.repeats e = true → a.delay = w.interval e)

/-- What holds between two steps, also where a deadline has wrapped. -/
structure Kept (s : DelayedTimers) : Prop where
  stored : s.world.Stored
  /-- `HandleExpired` goes by a reading of the past. -/
  now : ∀ now, s.world.expiredAt = some now → now ≤ s.clock
  length : s.asked.length = s.world.timers.length
  asked : ∀ e x, s.asked[e]? = some x → AskedFor s.world e x

theorem kept_create : Kept create where
  stored := TimerManager.stored_init
  now := fun _ h => absurd h (by simp [create, TimerManager.create, expiredAt])
  length := rfl
  asked := fun _ _ h => absurd h (by simp [create])

/-- What every step does. -/
theorem step_spec {s s' : DelayedTimers} {a : Label} (h : Kept s) (hs : s.step a = some s') :
    TimerStep s.world a.call s'.world ∧ s'.clock = a.reading.getD s.clock
      ∧ s'.asked = s.asks a := by
  obtain ⟨world, hw, rfl⟩ := Option.map_eq_some_iff.mp hs
  exact ⟨step_cases h.stored hw, rfl, rfl⟩

theorem Steady.clock_le {s : DelayedTimers} {a : Label} (h : s.Steady a) :
    s.clock ≤ a.reading.getD s.clock := by
  cases hread : a.reading with
  | none => exact Timestamp.le_iff.mpr (Int.le_refl _)
  | some c => exact h.1 c hread

/-- The timer that is added, and what is asked for it. -/
def Label.adds : Label → Option (Timer × Option Asked)
  | .runAt _ when => some (.create when ⟨0⟩, none)
  | .runAfter _ delay clock => some (.create (clock.add delay) ⟨0⟩, some ⟨clock, delay⟩)
  | .runEvery _ interval clock =>
      some (.create (clock.add interval) interval, some ⟨clock, interval⟩)
  | .cancel _ _ | .functor | .handleExpired _ | .iterate | .callbackReturns _ => none

/-- A step adds a timer, or restarts the one that has run, or leaves the deadlines alone. -/
inductive DelayStep (s : DelayedTimers) (a : Label) (s' : DelayedTimers) : Prop where
  | add {t : Timer} {x : Option Asked} :
      a.adds = some (t, x) → s'.world.timers = s.world.timers ++ [t] → s'.asked = s.asked ++ [x] →
      DelayStep s a s'
  | restart {clock now : Timestamp} {e : TimerEntry} :
      a = .callbackReturns clock → s.world.phase = .running now e → s.world.repeats e = true →
      e < s.world.timers.length → Restarted s.world s'.world e clock →
      s'.asked = s.asked.modify e (fun x => x.map fun a => { a with since := clock }) →
      DelayStep s a s'
  | same : SameTimers s.world s'.world → s'.asked = s.asked → s.Fits a → DelayStep s a s'

theorem delay_cases {s s' : DelayedTimers} {a : Label} (h : Kept s) (hs : s.step a = some s') :
    DelayStep s a s' := by
  obtain ⟨hstep, _, hasked⟩ := step_spec h hs
  cases a with
  | runAt inLoop when => exact .add rfl (addTimer_timers hstep) hasked
  | runAfter inLoop delay clock => exact .add rfl (addTimer_timers hstep) hasked
  | runEvery inLoop interval clock => exact .add rfl (addTimer_timers hstep) hasked
  | cancel inLoop e =>
    exact .same (other_timers hstep (fun _ _ _ => nofun) fun _ => nofun) hasked trivial
  | functor => exact .same (other_timers hstep (fun _ _ _ => nofun) fun _ => nofun) hasked trivial
  | handleExpired now =>
    exact .same (other_timers hstep (fun _ _ _ => nofun) fun _ => nofun) hasked trivial
  | iterate => exact .same (other_timers hstep (fun _ _ _ => nofun) fun _ => nofun) hasked trivial
  | callbackReturns clock =>
    obtain ⟨now, e, hphase, he, ⟨hrep, hagain⟩ | ⟨hrep, hsame⟩⟩ := callbackReturns_timers hstep
    · refine .restart rfl hphase hrep he hagain (hasked.trans ?_)
      unfold asks
      rw [hphase]
      exact if_pos hrep
    · refine .same hsame (hasked.trans ?_) ?_
      · unfold asks
        rw [hphase]
        exact if_neg (by simp [hrep])
      · show s.world.DeadlineFits clock
        unfold TimerManager.DeadlineFits
        rw [hphase]
        intro hrep'
        exact absurd (hrep.symm.trans hrep') (by simp)

/-! ## What every step keeps -/

theorem AskedFor.congr {w w' : TimerManager} {e : TimerEntry} {x : Option Asked}
    (h : AskedFor w e x) (hrepeats : w'.repeats e = w.repeats e)
    (hinterval : w'.interval e = w.interval e) : AskedFor w' e x := by
  unfold AskedFor at h ⊢
  rw [hrepeats, hinterval]
  exact h

/-- The entry of a timer, after one was added. -/
theorem asked_add {s s' : DelayedTimers} {x y : Option Asked} {e : TimerEntry} (h : Kept s)
    (hasked : s'.asked = s.asked ++ [x]) (he : s'.asked[e]? = some y) :
    e < s.world.timers.length ∧ s.asked[e]? = some y ∨ e = s.world.timers.length ∧ y = x := by
  rw [hasked] at he
  rcases Nat.lt_trichotomy e s.asked.length with hlt | heq | hgt
  · rw [List.getElem?_append_left hlt] at he
    exact .inl ⟨h.length ▸ hlt, he⟩
  · rw [heq, List.getElem?_concat_length] at he
    exact .inr ⟨heq.trans h.length, (Option.some.inj he).symm⟩
  · rw [List.getElem?_eq_none (by rw [List.length_append]; exact hgt)] at he
    exact absurd he (by simp)

/-- The one that was added. -/
theorem add_new {w w' : TimerManager} {t : Timer} (htimers : w'.timers = w.timers ++ [t]) :
    w'.when w.timers.length = t.when ∧ w'.repeats w.timers.length = t.repeats
      ∧ w'.interval w.timers.length = t.interval := by
  have hnew : w'.timers[w.timers.length]? = some t := by
    rw [htimers]
    exact List.getElem?_concat_length
  exact ⟨when_eq hnew, repeats_eq hnew, interval_eq hnew⟩

/-- The entry of a timer, after `e` was restarted. -/
theorem asked_restart {l : List (Option Asked)} {clock : Timestamp} {e k : TimerEntry}
    {y : Option Asked}
    (hk : (l.modify e fun x => x.map fun a => { a with since := clock })[k]? = some y) :
    k ≠ e ∧ l[k]? = some y
      ∨ k = e ∧ ∃ x, l[e]? = some x ∧ y = x.map fun a => { a with since := clock } := by
  by_cases hne : k = e
  · subst hne
    rw [List.getElem?_modify_eq] at hk
    obtain ⟨x, hx, rfl⟩ := Option.map_eq_some_iff.mp hk
    exact .inr ⟨rfl, x, hx, rfl⟩
  · rw [List.getElem?_modify_ne _ _ (Ne.symm hne)] at hk
    exact .inl ⟨hne, hk⟩

/-- What is asked for a new timer is as it should be. -/
theorem adds_askedFor {s s' : DelayedTimers} {a : Label} {t : Timer} {x : Option Asked}
    (hsteady : s.Steady a) (hadds : a.adds = some (t, x))
    (htimers : s'.world.timers = s.world.timers ++ [t]) :
    AskedFor s'.world s.world.timers.length x := by
  obtain ⟨_, hrepeats, hinterval⟩ := add_new htimers
  cases a with
  | runAt inLoop when =>
    obtain ⟨rfl, rfl⟩ := Prod.mk.inj (Option.some.inj hadds)
    exact hrepeats.trans rfl
  | runAfter inLoop delay clock =>
    obtain ⟨rfl, rfl⟩ := Prod.mk.inj (Option.some.inj hadds)
    refine ⟨hsteady.2, fun hrep => ?_⟩
    exact absurd (hrepeats.symm.trans hrep) Bool.false_ne_true
  | runEvery inLoop interval clock =>
    obtain ⟨rfl, rfl⟩ := Prod.mk.inj (Option.some.inj hadds)
    exact ⟨Int.le_of_lt hsteady.2, fun _ => hinterval.symm⟩
  | cancel _ _ | functor | handleExpired _ | iterate | callbackReturns _ =>
    exact absurd hadds (by simp [Label.adds])

theorem asked_step {s s' : DelayedTimers} {a : Label} (h : Kept s) (hsteady : s.Steady a)
    (hs : s.step a = some s') :
    s'.asked.length = s'.world.timers.length
      ∧ ∀ e x, s'.asked[e]? = some x → AskedFor s'.world e x := by
  cases delay_cases h hs with
  | add hadds htimers hasked =>
    refine ⟨by rw [hasked, htimers, List.length_append, List.length_append, h.length]; rfl, ?_⟩
    intro e y he
    rcases asked_add h hasked he with ⟨hlt, hold⟩ | ⟨rfl, rfl⟩
    · obtain ⟨_, hrepeats, hinterval⟩ := add_others htimers hlt
      exact (h.asked e y hold).congr hrepeats hinterval
    · exact adds_askedFor hsteady hadds htimers
  | @restart clock now e ha hphase hrep _ hagain hasked =>
    refine ⟨by rw [hasked, List.length_modify, h.length, hagain.length], ?_⟩
    intro k y hk
    rw [hasked] at hk
    rcases asked_restart hk with ⟨_, hold⟩ | ⟨rfl, x, hx, rfl⟩
    · exact (h.asked k y hold).congr (congrFun hagain.repeats k) (congrFun hagain.interval k)
    · have hold := (h.asked k x hx).congr (congrFun hagain.repeats k) (congrFun hagain.interval k)
      cases x with
      | none => exact hold
      | some b => exact hold
  | same hsame hasked _ =>
    refine ⟨by rw [hasked, h.length, hsame.length], fun e x he => ?_⟩
    rw [hasked] at he
    exact (h.asked e x he).congr (congrFun hsame.repeats e) (congrFun hsame.interval e)

theorem kept_step {s s' : DelayedTimers} {a : Label} (h : Kept s) (hsteady : s.Steady a)
    (hs : s.step a = some s') : Kept s' := by
  obtain ⟨hstep, hclock, _⟩ := step_spec h hs
  obtain ⟨hlength, hasked⟩ := asked_step h hsteady hs
  have hle := hsteady.clock_le
  rw [← hclock] at hle
  refine { stored := stored_step h.stored hstep, now := ?_, length := hlength, asked := hasked }
  intro now hnow
  rcases step_expiredAt hstep hnow with hold | ha
  · exact Timestamp.le_iff.mpr
      ((Timestamp.le_iff.mp (h.now now hold)).trans (Timestamp.le_iff.mp hle))
  · cases a with
    | handleExpired clock =>
      obtain rfl := TimerManager.Label.handleExpired.inj ha
      rw [hclock]
      exact Timestamp.le_iff.mpr (Int.le_refl _)
    | runAt _ _ | runAfter _ _ _ | runEvery _ _ _ | cancel _ _ | functor | iterate
    | callbackReturns _ => exact absurd ha (by simp [Label.call])

/-! ## Deadlines are as meant if the sums fit -/

/-- The new timer's deadline is the one meant exactly if the sum fits. -/
theorem adds_exact_iff {s : DelayedTimers} {a : Label} {t : Timer} {x : Option Asked}
    (hsteady : s.Steady a) (hadds : a.adds = some (t, x)) :
    (∀ b, x = some b → t.when.unixNano = b.due) ↔ s.Fits a := by
  cases a with
  | runAt inLoop when =>
    obtain ⟨rfl, rfl⟩ := Prod.mk.inj (Option.some.inj hadds)
    exact ⟨fun _ => trivial, fun _ _ hb => absurd hb (by simp)⟩
  | runAfter inLoop delay clock =>
    obtain ⟨rfl, rfl⟩ := Prod.mk.inj (Option.some.inj hadds)
    refine Iff.trans ?_ (Timestamp.add_exact_iff hsteady.2)
    exact ⟨fun hall => hall _ rfl, fun heq b hb => by rw [← Option.some.inj hb]; exact heq⟩
  | runEvery inLoop interval clock =>
    obtain ⟨rfl, rfl⟩ := Prod.mk.inj (Option.some.inj hadds)
    refine Iff.trans ?_ (Timestamp.add_exact_iff (Int.le_of_lt hsteady.2))
    exact ⟨fun hall => hall _ rfl, fun heq b hb => by rw [← Option.some.inj hb]; exact heq⟩
  | cancel _ _ | functor | handleExpired _ | iterate | callbackReturns _ =>
    exact absurd hadds (by simp [Label.adds])

theorem exact_step {s s' : DelayedTimers} {a : Label} (h : Kept s) (hexact : Exact s)
    (hsteady : s.Steady a) (hs : s.step a = some s') : Exact s' ↔ s.Fits a := by
  cases delay_cases h hs with
  | @add t x hadds htimers hasked =>
    obtain ⟨hnew, _, _⟩ := add_new htimers
    refine Iff.trans ?_ (adds_exact_iff hsteady hadds)
    constructor
    · rintro hall b rfl
      rw [← hnew]
      refine hall s.world.timers.length b ?_
      rw [hasked, ← h.length]
      exact List.getElem?_concat_length
    · intro hall e b he
      rcases asked_add h hasked he with ⟨hlt, hold⟩ | ⟨rfl, rfl⟩
      · rw [(add_others htimers hlt).1]
        exact hexact e b hold
      · rw [hnew]
        exact hall b rfl
  | @restart clock now e ha hphase hrep he hagain hasked =>
    subst ha
    -- a repeating timer was asked for with its interval
    obtain ⟨b, hb⟩ : ∃ b, s.asked[e]? = some (some b) := by
      have hlt : e < s.asked.length := h.length ▸ he
      have hx := List.getElem?_eq_getElem hlt
      cases hcase : s.asked[e] with
      | none =>
        rw [hcase] at hx
        exact absurd ((h.asked e none hx).symm.trans hrep) Bool.false_ne_true
      | some b => exact ⟨b, by rw [hx, hcase]⟩
    obtain ⟨hdelay, hinterval⟩ := h.asked e (some b) hb
    have hinterval := hinterval hrep
    have hfits : s.Fits (.callbackReturns clock)
        ↔ clock.unixNano + b.delay.nanosecond.toInt ≤ Int64.maxValue.toInt := by
      show s.world.DeadlineFits clock ↔ _
      unfold TimerManager.DeadlineFits
      rw [hphase, hinterval]
      exact ⟨fun himp => himp hrep, fun hle _ => hle⟩
    rw [hfits, ← Timestamp.add_exact_iff hdelay]
    constructor
    · intro hall
      have hnew := hall e { b with since := clock } (by
        rw [hasked, List.getElem?_modify_eq, hb]
        rfl)
      rw [hagain.when, ← hinterval] at hnew
      exact hnew
    · intro heq k d hk
      rw [hasked] at hk
      rcases asked_restart hk with ⟨hne, hold⟩ | ⟨rfl, x, hx, hd⟩
      · rw [hagain.others k hne]
        exact hexact k d hold
      · rw [hb] at hx
        obtain rfl := Option.some.inj hx
        obtain rfl := Option.some.inj hd
        rw [hagain.when, ← hinterval]
        exact heq
  | same hsame hasked hfits =>
    refine ⟨fun _ => hfits, fun _ e b he => ?_⟩
    rw [hsame.when]
    rw [hasked] at he
    exact hexact e b he

/-- A callback is started by its deadline, so it is punctual where deadlines are exact. -/
theorem punctual_step {s s' : DelayedTimers} {a : Label} (h : Kept s) (hexact : Exact s)
    (hpunctual : Punctual s) (hsteady : s.Steady a) (hs : s.step a = some s') : Punctual s' := by
  intro now e b hphase hb
  obtain ⟨hstep, _, hasks⟩ := step_spec h hs
  have hkept := kept_step h hsteady hs
  have hnow : now ≤ s'.clock := hkept.now now (by unfold expiredAt; rw [hphase])
  refine ⟨?_, hnow⟩
  rcases step_running hstep hphase with ⟨hold, hother⟩ | ⟨ha, hdue⟩
  · -- the timer that runs is neither new nor restarted
    have hlt := (h.stored.running e ⟨now, hold⟩).1
    have hasked : s.asked[e]? = some (some b) := by
      cases delay_cases h hs with
      | add _ _ hasked =>
        rcases asked_add h hasked hb with ⟨_, hold⟩ | ⟨heq, _⟩
        · exact hold
        · exact absurd heq hlt.ne
      | @restart clock _ _ ha _ _ _ _ _ =>
        subst ha
        exact absurd rfl (hother clock)
      | same _ hasked _ =>
        rw [hasked] at hb
        exact hb
    exact (hpunctual now e b hold hasked).1
  · cases a with
    | iterate =>
      rw [hasks] at hb
      rw [← hexact e b hb]
      exact Timestamp.le_iff.mp hdue
    | runAt _ _ | runAfter _ _ _ | runEvery _ _ _ | cancel _ _ | functor | handleExpired _
    | callbackReturns _ => exact absurd ha (by simp [Label.call])

theorem kept_run {s : DelayedTimers} {as : List Label} (hr : Run machine Steady create as s) :
    Kept s :=
  hr.invariant kept_create fun _ _ _ h hsteady hs => kept_step h hsteady hs

theorem exact_create : Exact create := fun _ _ h => absurd h (by simp [create])

theorem punctual_create : Punctual create :=
  fun _ _ _ h => absurd h (by simp [create, TimerManager.create])

/-- Every sum of a run fits. -/
def AllFit (as : List Label) (s : DelayedTimers) : Prop :=
  Run machine (fun s a => s.Steady a ∧ s.Fits a) create as s

theorem exact_of_allFit {s : DelayedTimers} {as : List Label} (hr : AllFit as s) :
    Exact s ∧ Punctual s := by
  have hall : Kept s ∧ Exact s ∧ Punctual s := by
    refine Run.invariant (I := fun s => Kept s ∧ Exact s ∧ Punctual s) hr
      ⟨kept_create, exact_create, punctual_create⟩ ?_
    rintro s a s' ⟨hkept, hexact, hpunctual⟩ ⟨hsteady, hfits⟩ hs
    exact ⟨kept_step hkept hsteady hs, (exact_step hkept hexact hsteady hs).mpr hfits,
      punctual_step hkept hexact hpunctual hsteady hs⟩
  exact hall.2

/-- **Delays.** In every run with a clock that does not go back, all deadlines are the exact sums of
what the clock read and the delay, and no callback is started before its delay has passed, exactly
if every such sum fits into the `int64_t`. -/
theorem delays_exact_iff (as : List Label) (s : DelayedTimers)
    (hr : Run machine Steady create as s) :
    (∀ bs cs u, as = bs ++ cs → Run machine Steady create bs u → u.Exact ∧ u.Punctual)
      ↔ AllFit as s := by
  constructor
  · intro hall
    induction hr with
    | nil => exact .nil
    | @tail as s s' a hr hsteady hs ih =>
      have hbefore : AllFit as s := by
        refine ih fun bs cs u has hu => hall bs (cs ++ [a]) u ?_ hu
        rw [has, List.append_assoc]
      obtain ⟨hexact, _⟩ := exact_of_allFit hbefore
      obtain ⟨hexact', _⟩ := hall (as ++ [a]) [] s' (List.append_nil _).symm (hr.tail hsteady hs)
      exact Run.tail hbefore
        ⟨hsteady, (exact_step (kept_run hr) hexact hsteady hs).mp hexact'⟩ hs
  · intro hfit bs cs u has hu
    subst has
    obtain ⟨v, hv⟩ := Run.of_append hfit
    rw [hu.unique hv]
    exact exact_of_allFit hv

/-- A timer that repeats runs for the second time, and another one waits. -/
theorem delays_exact_small : ∃ as s, Run machine Steady create as s
    ∧ s.world.phase = .running ⟨130⟩ 0 ∧ s.world.when 1 = ⟨615⟩
    ∧ ((∀ bs cs u, as = bs ++ cs → Run machine Steady create bs u → u.Exact ∧ u.Punctual)
      ↔ AllFit as s)
    ∧ s.Exact ∧ s.Punctual := by
  have hexec : (machine.exec (fun s a => s.Steady a ∧ s.Fits a) create
      [.runEvery true ⟨10⟩ ⟨100⟩, .runAfter false ⟨500⟩ ⟨115⟩, .functor, .handleExpired ⟨115⟩,
        .iterate, .callbackReturns ⟨120⟩, .iterate, .handleExpired ⟨130⟩, .iterate]).map
      (fun s => decide (s.world.phase = .running ⟨130⟩ 0 ∧ s.world.when 1 = ⟨615⟩))
        = some true := by
    decide +kernel
  obtain ⟨s, hs, hexec⟩ := Option.map_eq_some_iff.mp hexec
  obtain ⟨hphase, hwhen⟩ := of_decide_eq_true hexec
  have hfit := Machine.exec_run _ hs
  have hr : Run machine Steady create _ s := hfit.mono fun _ _ h => h.1
  have hiff := delays_exact_iff _ s hr
  exact ⟨_, s, hr, hphase, hwhen, hiff, hiff.mpr hfit _ [] s (List.append_nil _).symm hr⟩

/-- A deadline behind the largest `int64_t` is in the past, and the callback is started at once. -/
theorem longest_delay_runs_at_once : ∃ s,
    Run machine Steady create
      [.runAfter true ⟨9223372036854775807⟩ ⟨1⟩, .handleExpired ⟨1⟩, .iterate] s
      ∧ ¬ s.Exact ∧ ¬ s.Punctual := by
  have hexec : (machine.exec Steady create
      [.runAfter true ⟨9223372036854775807⟩ ⟨1⟩, .handleExpired ⟨1⟩, .iterate]).map
      (fun s => decide (s.world.phase = .running ⟨1⟩ 0 ∧ (s.world.when 0).unixNano < 0
        ∧ s.asked[0]? = some (some ⟨⟨1⟩, ⟨9223372036854775807⟩⟩))) = some true := by
    decide +kernel
  obtain ⟨s, hs, hexec⟩ := Option.map_eq_some_iff.mp hexec
  obtain ⟨hphase, hwhen, hasked⟩ := of_decide_eq_true hexec
  refine ⟨s, Machine.exec_run _ hs, fun hexact => ?_, fun hpunctual => ?_⟩
  · have hdue := hexact 0 _ hasked
    rw [hdue] at hwhen
    exact absurd hwhen (by decide)
  · exact absurd (hpunctual ⟨1⟩ 0 _ hphase hasked).1 (by decide)

end DelayedTimers

end Windz
