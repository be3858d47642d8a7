import Mathlib.Algebra.Group.Nat.Defs
import Windz.Base.Timestamp
import Windz.Lib.BinaryHeap
import Windz.Lib.Machine

/-!
# Timers

`TimerManager` of `net/Timer.cpp` with its binary heap. A `shared_ptr<Timer>` is
the position of the timer in the list of all timers ever made; a `weak_ptr` of a
`TimerId` is the same position, and it is expired when no `shared_ptr` is left: in
the heap, in a queued functor, or in the local of `HandleExpired`.

`heap_` is accessed through `operator[]` with `size_t` arithmetic, so an access
out of bounds is a fault, and `0 - 1` is the largest `size_t`.

What callbacks and other code do is left open: between two iterations of the loop
in `HandleExpired`, while a callback runs, and outside of `HandleExpired`, any
timer may be added or cancelled. Code in another thread queues a functor, code in
the loop thread acts at once.
-/

namespace Windz

open Lib

/-! ## `Timer` -/

/-- `Timer` without its callback. -/
structure Timer where
  /-- `when_`. -/
  when : Timestamp
  /-- `interval_`. -/
  interval : Duration
  /-- `repeat_`. -/
  repeats : Bool
  /-- `canceled_`. -/
  canceled : Bool
  /-- Ghost: how often the callback was called. -/
  started : Nat
  /-- Ghost: how often it has returned. -/
  finished : Nat
  /-- A timer repeats if it has an interval. -/
  repeats_eq : repeats = !interval.isZero
deriving DecidableEq

namespace Timer

/-- The constructor. -/
def create (when : Timestamp) (interval : Duration) : Timer :=
  { when, interval, repeats := !interval.isZero, canceled := false, started := 0, finished := 0
    repeats_eq := rfl }

/-- `Restart`. -/
def restart (now : Timestamp) (t : Timer) : Timer :=
  if t.repeats then { t with when := now.add t.interval } else { t with when := ⟨0⟩ }

@[simp] theorem restart_repeats (now : Timestamp) (t : Timer) :
    (t.restart now).repeats = t.repeats := by unfold restart; split <;> rfl

@[simp] theorem restart_interval (now : Timestamp) (t : Timer) :
    (t.restart now).interval = t.interval := by unfold restart; split <;> rfl

@[simp] theorem restart_canceled (now : Timestamp) (t : Timer) :
    (t.restart now).canceled = t.canceled := by unfold restart; split <;> rfl

@[simp] theorem restart_started (now : Timestamp) (t : Timer) :
    (t.restart now).started = t.started := by unfold restart; split <;> rfl

@[simp] theorem restart_finished (now : Timestamp) (t : Timer) :
    (t.restart now).finished = t.finished := by unfold restart; split <;> rfl

end Timer

/-! ## The heap -/

/-- `std::shared_ptr<Timer>`. -/
abbrev TimerEntry := Nat

/-- `heap_`. -/
abbrev TimerHeap := List TimerEntry

/-- `n - 1` of a `size_t`. -/
def sizeDec (n : Nat) : Nat := if n = 0 then 2 ^ 64 - 1 else n - 1

theorem sizeDec_pos {n : Nat} (h : 0 < n) : sizeDec n = n - 1 := if_neg h.ne'

namespace TimerHeap

/-- `SwapInHeap`. -/
def swapInHeap (heap : TimerHeap) (l r : Nat) : Option TimerHeap := BinaryHeap.swap heap l r

/-- `UpInHeap`, its loop with `parent` as `(index - 1) / 2`. -/
def upInHeap (when : TimerEntry → Timestamp) (heap : TimerHeap) (index : Nat) :
    Option TimerHeap :=
  if _h : 0 < index then
    match heap[index]?, heap[sizeDec index / 2]? with
    | some entry, some parent =>
        if when entry < when parent then
          match heap.swapInHeap index (sizeDec index / 2) with
          | some heap => upInHeap when heap (sizeDec index / 2)
          | none => none
        else some heap
    | _, _ => none
  else some heap
termination_by index
decreasing_by rw [sizeDec_pos _h]; omega

/-- The child to go down to, from `child` on the left. -/
def minChild (when : TimerEntry → Timestamp) (heap : TimerHeap) (child : Nat) : Option Nat :=
  if child < sizeDec heap.length then
    match heap[child]?, heap[child + 1]? with
    | some l, some r => some (if when l < when r then child else child + 1)
    | _, _ => none
  else some child

theorem minChild_ge {when : TimerEntry → Timestamp} {heap : TimerHeap} {child m : Nat}
    (h : minChild when heap child = some m) : m = child ∨ m = child + 1 := by
  unfold minChild at h
  split at h
  · split at h
    · rw [Option.some.injEq] at h
      split at h
      · exact .inl h.symm
      · exact .inr h.symm
    · exact absurd h (by simp)
  · exact .inl (Option.some.inj h).symm

/-- `DownInHeap`. -/
def downInHeap (when : TimerEntry → Timestamp) (heap : TimerHeap) (index : Nat) :
    Option TimerHeap :=
  if _hlt : index * 2 + 1 < heap.length then
    match _hm : minChild when heap (index * 2 + 1) with
    | none => none
    | some m =>
      match heap[index]?, heap[m]? with
      | some entry, some child =>
          if when entry ≤ when child then some heap
          else
            match _hs : heap.swapInHeap index m with
            | some heap => downInHeap when heap m
            | none => none
      | _, _ => none
  else some heap
termination_by heap.length - index
decreasing_by
  have := BinaryHeap.swap_length _hs
  have := minChild_ge _hm
  omega

/-- `PushInHeap`. -/
def pushInHeap (when : TimerEntry → Timestamp) (heap : TimerHeap) (entry : TimerEntry) :
    Option TimerHeap :=
  upInHeap when (heap ++ [entry]) (sizeDec (heap ++ [entry]).length)

/-- `PopInHeap`. -/
def popInHeap (when : TimerEntry → Timestamp) (heap : TimerHeap) : Option TimerHeap :=
  match swapInHeap heap 0 (sizeDec heap.length) with
  | some heap => downInHeap when heap.dropLast 0
  | none => none

end TimerHeap

/-! ## `TimerManager` -/

/-- A functor that a call in another thread has left to the loop. -/
inductive TimerFunctor where
  | push (entry : TimerEntry)
  | cancel (entry : TimerEntry)
deriving DecidableEq

/-- Where the loop thread stands. -/
inductive TimerPhase where
  /-- Outside of `HandleExpired`. -/
  | idle
  /-- At the test of its loop. -/
  | expiring (now : Timestamp)
  /-- In the callback of `entry`. -/
  | running (now : Timestamp) (entry : TimerEntry)
deriving DecidableEq

/-- The local of `HandleExpired` holds `entry`. -/
def TimerPhase.calls (entry : TimerEntry) : TimerPhase → Bool
  | .running _ e => e = entry
  | .idle | .expiring _ => false

/-- What stops the program. -/
inductive TimerFault where
  | outOfBounds
  /-- `assert(!canceled_)`. -/
  | alreadyCanceled
deriving DecidableEq

/-- A `TimerManager` and the functors its calls have queued. -/
structure TimerManager where
  /-- Every timer made. -/
  timers : List Timer
  /-- `heap_`. -/
  heap : TimerHeap
  /-- The functors queued by `RunInLoop` in other threads. -/
  functors : List TimerFunctor
  /-- Where the loop thread stands in `HandleExpired`. -/
  phase : TimerPhase
  /-- An access was out of bounds, or an assertion has failed. -/
  fault : Option TimerFault
deriving DecidableEq

namespace TimerManager

/-- The constructor. -/
def create : TimerManager :=
  { timers := [], heap := [], functors := [], phase := .idle, fault := none }

/-- `entry->when()`. -/
def when (w : TimerManager) (entry : TimerEntry) : Timestamp :=
  match w.timers[entry]? with
  | some t => t.when
  | none => ⟨0⟩

/-- Some `shared_ptr` to the timer is left. -/
def alive (w : TimerManager) (entry : TimerEntry) : Bool :=
  entry ∈ w.heap ∨ TimerFunctor.push entry ∈ w.functors ∨ w.phase.calls entry

/-- Replace the heap by the result of one of its operations. -/
def setHeap (w : TimerManager) : Option TimerHeap → TimerManager
  | some heap => { w with heap }
  | none => { w with fault := some .outOfBounds }

/-- The timer of `entry` is changed by `f`. -/
def modify (w : TimerManager) (entry : TimerEntry) (f : Timer → Timer) : TimerManager :=
  { w with timers := w.timers.modify entry f }

/-- `PushInHeap` as a functor of the loop. -/
def push (w : TimerManager) (entry : TimerEntry) : TimerManager :=
  w.setHeap (w.heap.pushInHeap w.when entry)

/-- The functor of `TimerManager::Cancel`. -/
def cancelNow (w : TimerManager) (entry : TimerEntry) : TimerManager :=
  if w.alive entry then
    match w.timers[entry]? with
    | some t =>
        if t.canceled then { w with fault := some .alreadyCanceled }
        else w.modify entry fun t => { t with canceled := true }
    | none => w
  else w

/-- `AddTimer`, in the loop thread or in another one. -/
def addTimer (w : TimerManager) (inLoop : Bool) (when : Timestamp) (interval : Duration) :
    TimerManager :=
  let entry := w.timers.length
  let w := { w with timers := w.timers ++ [Timer.create when interval] }
  if inLoop then w.push entry else { w with functors := w.functors ++ [.push entry] }

/-- `Cancel`, in the loop thread or in another one. -/
def cancel (w : TimerManager) (inLoop : Bool) (entry : TimerEntry) : TimerManager :=
  if inLoop then w.cancelNow entry else { w with functors := w.functors ++ [.cancel entry] }

/-- The body of the loop in `HandleExpired` up to the callback, and all of it when there is none. -/
def iterate (w : TimerManager) (now : Timestamp) : TimerManager :=
  match w.heap with
  | [] => { w with phase := .idle }
  | entry :: _ =>
    match w.timers[entry]? with
    | none => { w with fault := some .outOfBounds }
    | some t =>
      if t.canceled then w.setHeap (w.heap.popInHeap w.when)
      else if t.when ≤ now then
        { w.modify entry fun t => { t with started := t.started + 1 } with
          phase := .running now entry }
      else { w with phase := .idle }

/-- The body of the loop behind the callback; `clock` is what the second `Timestamp::Now()` reads. -/
def afterRun (w : TimerManager) (entry : TimerEntry) (clock : Timestamp) : TimerManager :=
  match w.timers[entry]? with
  | none => { w with fault := some .outOfBounds }
  | some t =>
    if t.repeats then
      let w := w.modify entry (Timer.restart clock)
      w.setHeap (w.heap.downInHeap w.when 0)
    else w.setHeap (w.heap.popInHeap w.when)

/-- The callback of `entry` has returned. -/
def returned (w : TimerManager) (now : Timestamp) (entry : TimerEntry) : TimerManager :=
  { w.modify entry fun t => { t with finished := t.finished + 1 } with phase := .expiring now }

/-! ## The machine -/

/-- The steps of those that call the manager and of its loop. -/
inductive Label where
  -- `inLoop` when the call is made in the loop thread
  | addTimer (inLoop : Bool) (when : Timestamp) (interval : Duration)
  | cancel (inLoop : Bool) (entry : TimerEntry)
  /-- The loop runs the oldest queued functor. -/
  | functor
  -- `HandleExpired` is called, its clock reading `now`
  | handleExpired (now : Timestamp)
  | iterate
  | callbackReturns (clock : Timestamp)
deriving DecidableEq

/-- Code of the user runs in the loop thread: in a callback or outside of `HandleExpired`. -/
def userCode (w : TimerManager) : Bool :=
  match w.phase with
  | .idle | .running _ _ => true
  | .expiring _ => false

/-- The loop runs the oldest functor. -/
def runFunctor (w : TimerManager) : Option TimerManager :=
  match w.functors with
  | [] => none
  | .push entry :: rest => some ({ w with functors := rest }.push entry)
  | .cancel entry :: rest => some ({ w with functors := rest }.cancelNow entry)

/-- One step, `none` where it is not enabled. -/
def step (w : TimerManager) (a : Label) : Option TimerManager :=
  if w.fault.isSome then none else
  match a with
  | .addTimer inLoop when interval =>
      if inLoop && !w.userCode then none else some (w.addTimer inLoop when interval)
  | .cancel inLoop entry =>
      if (inLoop && !w.userCode) || w.timers.length ≤ entry then none
      else some (w.cancel inLoop entry)
  | .functor => if w.phase = .idle then w.runFunctor else none
  | .handleExpired now => if w.phase = .idle then some { w with phase := .expiring now } else none
  | .iterate =>
      match w.phase with
      | .expiring now => some (w.iterate now)
      | .idle | .running _ _ => none
  | .callbackReturns clock =>
      match w.phase with
      | .running now entry => some ((w.returned now entry).afterRun entry clock)
      | .idle | .expiring _ => none

/-- A manager from its constructor on. -/
def machine : Machine TimerManager Label where
  init := (· = create)
  step := step

end TimerManager

end Windz
