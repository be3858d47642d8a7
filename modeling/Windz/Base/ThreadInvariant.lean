import Windz.Base.Thread

/-!
# What a thread and its object share

What the two threads share ends with the count-down: the new thread touches the `Thread`
only before it, and the owner can leave `Start`, and so destroy the object, only behind it.
The `ThreadData` has one owner at a time, `Start` until the thread is there and the new
thread from then on. The invariant says so by the places of the two.
-/

namespace Windz

open Lib Lib.Monitor

/-! ## The latch of a thread -/

/-- The latch before or behind its only count-down, with the owner in `Wait` or not. -/
structure LatchAt (down waits : Bool) (l : CountDownLatch.Calls ThreadParty) : Prop where
  count : l.shared.count = if down then 0 else 1
  calls : l.calls = if waits then [(.owner, .wait)] else []
  free : down = true → l.waiting = []

namespace LatchAt

variable {down waits : Bool} {l l' : CountDownLatch.Calls ThreadParty} {r : Option Unit}

theorem init : LatchAt false false (.init (.create 1)) where
  count := rfl
  calls := rfl
  free := fun h => by cases h

/-- A step of the owner in `Wait`: behind the count-down it returns, before it goes on waiting. -/
theorem attempt (hcount : l.shared.count = if down then 0 else 1) (hcalls : l.calls = [])
    (h : Attempt CountDownLatch.monitor l .owner .wait l' r) :
    (r = none ∧ LatchAt down true l') ∨ (r = some () ∧ down = true ∧ LatchAt true false l') := by
  obtain ⟨hw, hk⟩ := List.append_eq_nil_iff.mp hcalls
  cases h with
  | waits hrun =>
    have hpos := (CountDownLatch.waits_cases hrun).2
    rw [hcount] at hpos
    cases down with
    | true => exact absurd hpos (by decide)
    | false =>
      refine .inl ⟨rfl, hcount, ?_, fun h => by cases h⟩
      show l.waiting ++ [_] ++ l.woken = _
      rw [hw, hk]
      rfl
  | @runs shared x n l' hrun hn =>
    cases CountDownLatch.critical_cases hrun with
    | passed hle =>
      rw [hcount] at hle
      cases down with
      | false => exact absurd hle (by decide)
      | true =>
        cases hn
        exact .inr ⟨rfl, rfl, hcount, hcalls, fun _ => hw⟩

theorem wait (h : LatchAt down false l)
    (hs : CountDownLatch.monitor.step l (.call .owner .wait none) = some (l', r)) :
    (r = none ∧ LatchAt down true l') ∨ (r = some () ∧ down = true ∧ LatchAt true false l') := by
  cases step_cases hs with
  | call hb ha => exact attempt h.count h.calls ha

theorem resume (h : LatchAt down true l)
    (hs : CountDownLatch.monitor.step l (.resume .owner none) = some (l', r)) :
    (r = none ∧ LatchAt down true l') ∨ (r = some () ∧ down = true ∧ LatchAt true false l') := by
  have hcalls : l.waiting ++ l.woken = [(.owner, .wait)] := h.calls
  cases step_cases hs with
  | @resume t c u rest s' r hw ha =>
    -- the only call in progress was woken
    have hlen := congrArg List.length hcalls
    have hlen' := hw.length_eq
    rw [List.length_append, List.length_singleton] at hlen
    rw [List.length_cons] at hlen'
    have hwaiting : l.waiting = [] := List.length_eq_zero_iff.mp (by omega)
    have hrest : rest = [] := List.length_eq_zero_iff.mp (by omega)
    rw [hwaiting, List.nil_append] at hcalls
    rw [hcalls, hrest, List.perm_singleton, List.cons.injEq, Prod.mk.injEq] at hw
    obtain ⟨⟨-, hc⟩, -⟩ := hw
    rw [← hc] at ha
    have hempty : ({ l with woken := rest } : CountDownLatch.Calls ThreadParty).calls = [] := by
      show l.waiting ++ rest = []
      rw [hwaiting, hrest]
      rfl
    refine attempt ?_ hempty ha
    exact h.count

theorem spurious (h : LatchAt down true l)
    (hs : CountDownLatch.monitor.step l (.spurious .owner) = some (l', r)) :
    r = none ∧ LatchAt down true l' := by
  have hcalls : l.waiting ++ l.woken = [(.owner, .wait)] := h.calls
  cases step_cases hs with
  | @spurious t c rest hw =>
    refine ⟨rfl, h.count, ?_, fun hd => ?_⟩
    · have hlen := congrArg List.length hcalls
      have hlen' := hw.length_eq
      rw [List.length_append, List.length_singleton] at hlen
      rw [List.length_cons] at hlen'
      have hwoken : l.woken = [] := List.length_eq_zero_iff.mp (by omega)
      have hrest : rest = [] := List.length_eq_zero_iff.mp (by omega)
      rw [hwoken, List.append_nil] at hcalls
      rw [hcalls, hrest, List.perm_singleton, List.cons.injEq] at hw
      show rest ++ (l.woken ++ [_]) = _
      rw [hwoken, hrest, ← hw.1]
      rfl
    · rw [h.free hd] at hw
      exact absurd hw.nil_eq (List.cons_ne_nil _ _).symm

/-- The count-down wakes the owner. -/
theorem countDown (h : LatchAt false waits l)
    (hs : CountDownLatch.monitor.step l (.call .runner .countDown none) = some (l', r)) :
    LatchAt true waits l' := by
  have hcount : l.shared.count = 1 := h.count
  have hcalls := h.calls
  cases step_cases hs with
  | call hb ha =>
    cases ha with
    | waits hrun => exact absurd (CountDownLatch.waits_cases hrun).1 (by decide)
    | @runs shared x n l' hrun hn =>
      cases CountDownLatch.critical_cases hrun with
      | counted hne => exact absurd hcount hne
      | last _ =>
        cases hn with
        | all =>
          refine ⟨rfl, ?_, fun _ => rfl⟩
          show [] ++ (l.woken ++ l.waiting) = _
          rw [← hcalls, List.nil_append]
          -- at most one call is in progress
          unfold State.calls at hcalls ⊢
          have hlen := congrArg List.length hcalls
          rw [List.length_append] at hlen
          rcases hw : l.waiting with _ | ⟨p, ps⟩
          · rw [List.append_nil, List.nil_append]
          · have hk : l.woken = [] := by
              apply List.length_eq_zero_iff.mp
              rw [hw, List.length_cons] at hlen
              cases waits <;> simp at hlen; omega
            rw [hk, List.nil_append, List.append_nil]

theorem countDown_enabled (h : LatchAt false waits l) :
    ∃ l', CountDownLatch.monitor.step l (.call .runner .countDown none) = some (l', some ()) := by
  have hbusy : l.busy .runner = false := by
    show (l.calls.any fun p => p.1 = .runner) = false
    rw [h.calls]
    cases waits <;> rfl
  have hcount : l.shared.count = 1 := h.count
  have hrun : CountDownLatch.monitor.run l.shared .countDown = some (⟨0⟩, (), .all) := by
    show some (_, _, if l.shared.count - 1 = 0 then _ else _) = _
    rw [hcount]
    rfl
  unfold Monitor.step Monitor.attempt
  dsimp only
  rw [hbusy, if_neg Bool.false_ne_true, hrun]
  exact ⟨_, rfl⟩

/-- Behind the count-down the owner's next step in `Wait` is its last. -/
theorem wait_enabled (h : LatchAt true false l) :
    ∃ l', CountDownLatch.monitor.step l (.call .owner .wait none) = some (l', some ()) := by
  have hbusy : l.busy .owner = false := by
    show (l.calls.any fun p => p.1 = .owner) = false
    rw [h.calls]
    rfl
  have hcount : l.shared.count = 0 := h.count
  have hrun : CountDownLatch.monitor.run l.shared .wait = some (l.shared, (), .none) :=
    if_pos (Int.le_of_eq hcount)
  unfold Monitor.step Monitor.attempt
  dsimp only
  rw [hbusy, if_neg Bool.false_ne_true, hrun]
  exact ⟨_, rfl⟩

theorem resume_enabled (h : LatchAt true true l) :
    ∃ l', CountDownLatch.monitor.step l (.resume .owner none) = some (l', some ()) := by
  have hcount : l.shared.count = 0 := h.count
  refine CountDownLatch.resume_returns (c := .wait) (Int.le_of_eq hcount) ?_
  have hcalls : l.waiting ++ l.woken = [(.owner, .wait)] := h.calls
  rw [h.free rfl, List.nil_append] at hcalls
  rw [hcalls]
  exact List.mem_singleton_self _

end LatchAt

/-! ## The two threads and what they share -/

/-- The count-down is still to come. -/
def RunnerPc.early : RunnerPc → Bool
  | .storing | .counting => true
  | .notCreated | .naming | .calling | .inFunc | .lastNaming | .deleting | .gone => false

/-- The count-down is done. -/
def RunnerPc.counted : RunnerPc → Bool
  | .notCreated | .storing | .counting => false
  | .naming | .calling | .inFunc | .lastNaming | .deleting | .gone => true

/-- The new thread has its `ThreadData`. -/
def RunnerPc.hasData : RunnerPc → Bool
  | .notCreated | .gone => false
  | .storing | .counting | .naming | .calling | .inFunc | .lastNaming | .deleting => true

/-- `func_` has been called. -/
def RunnerPc.called : RunnerPc → Bool
  | .notCreated | .storing | .counting | .naming | .calling => false
  | .inFunc | .lastNaming | .deleting | .gone => true

/-- `t_name` may point into the `ThreadData`. -/
def RunnerPc.named : RunnerPc → Bool
  | .calling | .inFunc | .lastNaming => true
  | .notCreated | .storing | .counting | .naming | .deleting | .gone => false

/-- The owner is in `latch_.Wait()`, or about to call it. -/
def StarterPc.waits : StarterPc → Bool
  | .beforeWait | .inWait => true
  | .outside | .creating | .joining | .destroyed => false

/-- **Where the two can be at one time.** Until the count-down the owner is in `Start`. -/
def inPhase : StarterPc → RunnerPc → Bool
  | .creating, runner => runner = .notCreated
  | .beforeWait, runner | .inWait, runner => runner ≠ .notCreated
  | .joining, runner => runner.counted
  | .outside, runner | .destroyed, runner => !runner.early

theorem phase_early {starter : StarterPc} {runner : RunnerPc}
    (hp : inPhase starter runner = true) (he : runner.early = true) :
    starter = .beforeWait ∨ starter = .inWait := by
  cases starter <;> cases runner <;> first
    | exact .inl rfl
    | exact .inr rfl
    | exact absurd hp (by decide)
    | exact absurd he (by decide)

/-- Behind the count-down the new thread goes on whatever the owner does. -/
theorem phase_counted {starter : StarterPc} {runner runner' : RunnerPc}
    (hp : inPhase starter runner = true) (hc : runner.counted = true)
    (hnew : runner'.counted = true) : inPhase starter runner' = true := by
  cases starter <;> cases runner' <;> first
    | rfl
    | exact absurd hnew (by decide)
    | (cases runner <;> first | exact absurd hp (by decide) | exact absurd hc (by decide))

/-- Somebody has the last `ThreadData` to delete. -/
def owned (starter : StarterPc) (runner : RunnerPc) : Bool :=
  (starter = .creating : Bool) || runner.hasData

namespace ThreadRun

variable {w w' : ThreadRun} {th : Thread}

/-- The `Thread` while it is there. -/
structure Object (starter : StarterPc) (runner : RunnerPc) (runnerTid released : Nat)
    (th : Thread) : Prop where
  latch : LatchAt runner.counted (starter = .inWait) th.latch
  started : th.started = true ↔ starter = .creating ∨ runner ≠ .notCreated
  tid : runner ≠ .notCreated → runner ≠ .storing → th.tid = runnerTid
  joined : th.joined = true → starter = .outside ∧ runner = .gone ∨ starter = .joining
  joining : starter = .joining → th.joined = true
  released : released = if th.joined = true ∧ starter ≠ .joining then 1 else 0

/-- The invariant of a `Thread` and the thread it runs. -/
structure Inv (w : ThreadRun) : Prop where
  noFault : w.fault = none
  failed : w.failed = true → w.starter = .outside
  phase : inPhase w.starter w.runner = true
  /-- One `ThreadData` at a time. -/
  heap : ∃ k, w.heap = List.replicate k false ++ if owned w.starter w.runner then [true] else []
  gone : w.thread = none ↔ w.starter = .destroyed
  object : ∀ th, w.thread = some th → Object w.starter w.runner w.runnerTid w.released th
  created : w.created = if w.runner = .notCreated then 0 else 1
  destroyed : w.starter = .destroyed → w.released = w.created
  name : w.tName = .data → w.runner.named = true
  /-- `Start` has returned true. -/
  results : true ∈ w.results ↔ w.runner ≠ .notCreated ∧ w.starter.waits = false
  calls : w.calls = if w.runner.called then 1 else 0

theorem inv_create (named : Bool) : Inv (create named) where
  noFault := rfl
  failed := nofun
  phase := rfl
  heap := ⟨0, rfl⟩
  gone := ⟨nofun, nofun⟩
  object := by
    intro th hth
    cases hth
    refine ⟨LatchAt.init, ⟨nofun, ?_⟩, fun h => absurd rfl h, nofun, nofun, rfl⟩
    rintro (h | h)
    · cases h
    · exact absurd rfl h
  created := rfl
  destroyed := nofun
  name := nofun
  results := ⟨nofun, fun h => absurd rfl h.1⟩
  calls := rfl

/-- The last `ThreadData` is there while somebody has to delete it. -/
theorem Inv.onData (h : Inv w) (ho : owned w.starter w.runner = true) {next : Option ThreadRun} :
    w.onData next = next := by
  obtain ⟨k, hk⟩ := h.heap
  unfold ThreadRun.onData
  rw [if_pos]
  rw [hk, ho, if_pos rfl, List.getLast?_append]
  rfl

/-- Deleted, it leaves nothing behind. -/
theorem Inv.deleted (h : Inv w) (ho : owned w.starter w.runner = true) :
    ∃ k, w.deleteData.heap = List.replicate k false ++ if false then [true] else [] := by
  obtain ⟨k, hk⟩ := h.heap
  refine ⟨k + 1, ?_⟩
  show w.heap.dropLast ++ [false] = _
  rw [hk, ho, if_pos rfl, List.dropLast_concat, if_neg Bool.false_ne_true, List.append_nil]
  exact List.replicate_succ'.symm

end ThreadRun

end Windz
