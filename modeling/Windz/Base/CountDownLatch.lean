import Mathlib.Data.List.TakeWhile
import Windz.Lib.Monitor

/-!
# `CountDownLatch`

`base/CountDownLatch.h` with any number of threads at it. `Wait` returns behind a count
that is down; `CountDown` notifies when it brings the count to 0, and only then. The
count is an `int` in the source; the 2^31 calls that would take it below its range are
not made.
-/

namespace Windz

open Lib Lib.Monitor

/-- `count_` of a latch. -/
structure CountDownLatch where
  /-- `count_`. -/
  count : Int
deriving DecidableEq

/-- The functions of a latch. -/
inductive LatchCall where
  | wait
  | countDown
deriving DecidableEq

namespace CountDownLatch

/-- The constructor. -/
def create (count : Int) : CountDownLatch := ⟨count⟩

/-- The critical section of a call behind its wait. -/
def criticalSection (l : CountDownLatch) :
    LatchCall → Option (CountDownLatch × Unit × Notice Unit)
  | .wait => if l.count ≤ 0 then some (l, (), .none) else none
  | .countDown =>
      let count := l.count - 1
      some ({ l with count }, (), if count = 0 then .all else .none)

/-- The latch has the one condition `cond_`. -/
def monitor : Monitor CountDownLatch LatchCall Unit Unit where
  cond := fun _ => ()
  run := criticalSection

/-- A latch and the threads in a call of it. -/
abbrev Calls (τ : Type) := State CountDownLatch LatchCall Unit τ

/-- The calls of `CountDown` among those made. -/
def countDowns {τ : Type} (log : List (τ × LatchCall × Unit)) : Nat :=
  log.countP fun p => p.2.1 = .countDown

/-- What a critical section does. -/
inductive Critical (l : CountDownLatch) : LatchCall → CountDownLatch → Notice Unit → Prop where
  | passed (h : l.count ≤ 0) : Critical l .wait l .none
  | last (h : l.count = 1) : Critical l .countDown ⟨0⟩ .all
  | counted (h : l.count ≠ 1) : Critical l .countDown ⟨l.count - 1⟩ .none

theorem critical_cases {l l' : CountDownLatch} {c : LatchCall} {n : Notice Unit}
    (h : monitor.run l c = some (l', (), n)) : Critical l c l' n := by
  cases c with
  | wait =>
    change (if l.count ≤ 0 then _ else _) = _ at h
    split at h
    · rename_i hcount
      cases h
      exact .passed hcount
    · cases h
  | countDown =>
    change some (_, _, if l.count - 1 = 0 then _ else _) = _ at h
    by_cases hcount : l.count = 1
    · rw [if_pos (by omega)] at h
      cases h
      rw [hcount]
      exact .last hcount
    · rw [if_neg (by omega)] at h
      cases h
      exact .counted hcount

theorem waits_cases {l : CountDownLatch} {c : LatchCall} (h : monitor.run l c = none) :
    c = .wait ∧ 0 < l.count := by
  cases c with
  | wait =>
    change (if l.count ≤ 0 then _ else _) = _ at h
    split at h
    · cases h
    · rename_i hcount
      exact ⟨rfl, by omega⟩
  | countDown => cases h

/-- The latch is a gate that opens at 0. -/
theorem gates : Gates monitor (fun _ => True) fun l => l.count ≤ 0 where
  blocks := by
    intro l c _ hrun hopen
    have hcount := (waits_cases hrun).2
    omega
  opens := by
    intro l c l' r n _ hrun hopen
    cases critical_cases hrun with
    | passed h => exact .inl h
    | last h => exact .inr rfl
    | counted h =>
      dsimp only at hopen
      exact .inl (by omega)

section Threads

variable {τ : Type} [DecidableEq τ] {count : Int} {s : Calls τ}

/-- A latch at which any threads call. -/
def machine (τ : Type) [DecidableEq τ] (count : Int) : Machine (Calls τ) (Move LatchCall τ) :=
  monitor.machine τ (create count)

/-- The count, and that each `Wait` has returned behind enough calls of `CountDown`. -/
structure Counted (count : Int) (l : CountDownLatch) (log : List (τ × LatchCall × Unit)) :
    Prop where
  left : l.count = count - countDowns log
  behind : ∀ i p, log[i]? = some p → p.2.1 = .wait → count ≤ countDowns (log.take i)

omit [DecidableEq τ] in
theorem countDowns_concat (log : List (τ × LatchCall × Unit)) (t : τ) (c : LatchCall) :
    countDowns (log ++ [(t, c, ())]) = countDowns log + if c = .countDown then 1 else 0 := by
  unfold countDowns
  rw [List.countP_append, List.countP_singleton]
  simp

omit [DecidableEq τ] in
theorem Counted.run {l l' : CountDownLatch} {log : List (τ × LatchCall × Unit)} {t : τ}
    {c : LatchCall} {n : Notice Unit} (h : Counted count l log)
    (hrun : monitor.run l c = some (l', (), n)) : Counted count l' (log ++ [(t, c, ())]) where
  left := by
    have hleft := h.left
    rw [countDowns_concat]
    cases critical_cases hrun <;> simp <;> omega
  behind := by
    intro i p hp hwait
    by_cases hi : i < log.length
    · rw [List.getElem?_append_left hi] at hp
      rw [List.take_append_of_le_length (by omega)]
      exact h.behind i p hp hwait
    · -- the call that returns now
      rw [List.getElem?_append_right (by omega)] at hp
      have hlt := (List.getElem?_eq_some_iff.mp hp).1
      rw [List.length_singleton] at hlt
      obtain rfl : i = log.length := by omega
      rw [Nat.sub_self, List.getElem?_cons_zero, Option.some.injEq] at hp
      rw [List.take_left]
      rw [← hp] at hwait
      have hleft := h.left
      cases critical_cases hrun with
      | passed hcount => omega
      | last _ => cases hwait
      | counted _ => cases hwait

theorem reachable_only (h : Reachable (machine τ count) (fun _ _ => True) s) :
    Reachable (machine τ count) (Only fun _ => True) s :=
  h.mono fun _ a _ => by cases a <;> trivial

theorem reachable_counted (h : Reachable (machine τ count) (fun _ _ => True) s) :
    Counted count s.shared s.log :=
  Monitor.reachable_sections (J := Counted count)
    ⟨by simp [create, countDowns], fun i p hp => by simp at hp⟩
    (fun _ _ _ _ _ _ _ hc _ hrun => hc.run hrun) (reachable_only h)

/-- With the count down, every call goes through. -/
theorem run_open {l : CountDownLatch} (h : l.count ≤ 0) (c : LatchCall) :
    ∃ l', monitor.run l c = some (l', (), .none) := by
  cases c with
  | wait => exact ⟨l, if_pos h⟩
  | countDown =>
    refine ⟨⟨l.count - 1⟩, ?_⟩
    change some (_, _, if l.count - 1 = 0 then _ else _) = _
    rw [if_neg (by omega)]

/-- A woken thread returns from its call in its next step. -/
theorem resume_returns (hopen : s.shared.count ≤ 0) {t : τ} {c : LatchCall}
    (hw : (t, c) ∈ s.woken) : ∃ s', monitor.step s (.resume t none) = some (s', some ()) := by
  obtain ⟨d, rest, htake⟩ := takeOut_mem hw
  obtain ⟨l', hrun⟩ := run_open hopen d
  unfold Monitor.step Monitor.attempt
  dsimp only
  rw [htake]
  dsimp only
  rw [hrun]
  exact ⟨_, rfl⟩

/-- **A latch lets everybody through behind the last `CountDown`, and nobody before.** Whatever the
count and however many threads wait, count down and wake up for no reason: a `Wait` has returned
only behind `count` calls of `CountDown`; and when these have been made no thread is blocked, and
each one that was woken returns from its call in its next step. -/
theorem latch_opens_once_counted (h : Reachable (machine τ count) (fun _ _ => True) s) :
    (∀ i p, s.log[i]? = some p → p.2.1 = .wait → count ≤ countDowns (s.log.take i))
    ∧ (count ≤ countDowns s.log → s.waiting = []
      ∧ ∀ t c, (t, c) ∈ s.woken → ∃ s', monitor.step s (.resume t none) = some (s', some ())) := by
  have hc := reachable_counted h
  refine ⟨hc.behind, fun hcount => ?_⟩
  have hopen : s.shared.count ≤ 0 := by
    have hleft := hc.left
    omega
  exact ⟨reachable_gate gates (reachable_only h) hopen, fun _ _ hw => resume_returns hopen hw⟩

end Threads

/-- A `Wait` that wakes up in vain between the two calls that it waits for, and one behind them. -/
theorem latch_opens_once_counted_small : ∃ s, Reachable (machine Nat 2) (fun _ _ => True) s
    ∧ s.log.map (fun p => (p.1, p.2.1)) = [(1, .countDown), (2, .countDown), (3, .wait)]
    ∧ s.woken = [(0, .wait)] ∧ s.waiting = [] ∧ 2 ≤ countDowns (s.log.take 2) := by
  have hexec : ((machine Nat 2).exec (fun _ _ => True) (.init (create 2))
      [.call 0 .wait none, .call 1 .countDown none, .spurious 0, .resume 0 none,
        .call 2 .countDown none, .call 3 .wait none]).map (fun s => decide
          (s.log = [(1, .countDown, ()), (2, .countDown, ()), (3, .wait, ())]
            ∧ s.woken = [(0, .wait)])) = some true := by decide +kernel
  obtain ⟨s, hr, hp⟩ := Machine.exec_reachable rfl hexec
  obtain ⟨hlog, hwoken⟩ := of_decide_eq_true hp
  have hmain := latch_opens_once_counted hr
  have hcount : (2 : Int) ≤ countDowns s.log := by rw [hlog]; decide
  refine ⟨s, hr, by rw [hlog]; rfl, hwoken, (hmain.2 hcount).1, ?_⟩
  have hwait := hmain.1 2 (3, .wait, ()) (by rw [hlog]; rfl) rfl
  omega

end CountDownLatch

end Windz
