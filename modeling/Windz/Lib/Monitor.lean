import Mathlib.Data.List.Basic
import Mathlib.Data.List.Nodup
import Mathlib.Data.List.Perm.Basic
import Windz.Lib.Machine

/-!
# Monitors

Shared state behind a mutex, with condition variables. A call takes the mutex and
tests its predicate; as long as that fails it waits on its condition, which releases
the mutex, and tests again when it has been woken. Then it runs its critical section,
which may signal a condition.

A signal reaches any one thread that waits on the condition, and is lost when there is
none; a thread may also wake up for no reason. A woken thread takes the mutex again
some time later, when another thread may have been there first.

Three rules. What every critical section preserves, every run preserves. Signals are
enough (`Fed`) when a section signals for each unit that it makes available. And nobody is
left behind a gate (`Gates`) when the section that opens it wakes everybody.
-/

namespace Windz.Lib

variable {σ γ κ ρ τ : Type}

/-- Whom a critical section signals: nobody, one thread on a condition, or all threads. -/
inductive Notice (κ : Type) where
  | none
  | one (k : κ)
  | all
deriving DecidableEq

/-- A monitor over states `σ`: calls `γ` wait on conditions `κ` and return a `ρ`. -/
structure Monitor (σ γ κ ρ : Type) where
  /-- The condition a call waits on. -/
  cond : γ → κ
  /-- The critical section behind the wait; `none` is a wait that goes on. -/
  run : σ → γ → Option (σ × ρ × Notice κ)

namespace Monitor

/-- The state of a monitor with threads `τ` at it. -/
structure State (σ γ ρ τ : Type) where
  /-- What the monitor protects. -/
  shared : σ
  /-- The threads blocked on a condition. -/
  waiting : List (τ × γ)
  /-- Those that were woken and have not yet run. -/
  woken : List (τ × γ)
  /-- Ghost: the calls that ran their critical section, in order. -/
  log : List (τ × γ × ρ)

/-- Nobody is at the monitor. -/
def State.init (shared : σ) : State σ γ ρ τ := ⟨shared, [], [], []⟩

section Steps

variable [DecidableEq τ] [DecidableEq κ] (M : Monitor σ γ κ ρ)

/-- The call of thread `t` in the list, and the list without it. -/
def takeOut (t : τ) : List (τ × γ) → Option (γ × List (τ × γ))
  | [] => none
  | (u, c) :: l => if u = t then some (c, l) else (takeOut t l).map fun (d, rest) => (d, (u, c) :: rest)

/-- Thread `t` is in a call. -/
def State.busy (s : State σ γ ρ τ) (t : τ) : Bool :=
  (s.waiting ++ s.woken).any fun p => p.1 = t

/-- Deliver a signal, `u` being the thread it reaches. -/
def notify (s : State σ γ ρ τ) (n : Notice κ) (u : Option τ) : Option (State σ γ ρ τ) :=
  match n, u with
  | .none, none => some s
  | .one k, none => if s.waiting.any (fun p => M.cond p.2 = k) then none else some s
  | .one k, some t =>
      match takeOut t s.waiting with
      | some (c, rest) =>
          if M.cond c = k then some { s with waiting := rest, woken := s.woken ++ [(t, c)] } else none
      | none => none
  | .all, none => some { s with waiting := [], woken := s.woken ++ s.waiting }
  | _, some _ => none

/-- Thread `t` holds the mutex in its call: it waits, or runs its section and returns. -/
def attempt (s : State σ γ ρ τ) (t : τ) (c : γ) (u : Option τ) :
    Option (State σ γ ρ τ × Option ρ) :=
  match M.run s.shared c with
  | some (shared, r, n) =>
      (M.notify { s with shared, log := s.log ++ [(t, c, r)] } n u).map fun s => (s, some r)
  | none => if u = none then some ({ s with waiting := s.waiting ++ [(t, c)] }, none) else none

/-- A step of thread `t`, `u` being the thread that its signal reaches. -/
inductive Move (γ τ : Type) where
  | call (t : τ) (c : γ) (u : Option τ)
  | resume (t : τ) (u : Option τ)
  /-- The thread wakes up for no reason. -/
  | spurious (t : τ)
deriving DecidableEq

/-- The thread that moves. -/
def Move.thread : Move γ τ → τ
  | .call t _ _ | .resume t _ | .spurious t => t

/-- The state after a step, with what the call returns if it does. -/
def step (s : State σ γ ρ τ) : Move γ τ → Option (State σ γ ρ τ × Option ρ)
  | .call t c u => if s.busy t then none else M.attempt s t c u
  | .resume t u =>
      match takeOut t s.woken with
      | some (c, rest) => M.attempt { s with woken := rest } t c u
      | none => none
  | .spurious t =>
      match takeOut t s.waiting with
      | some (c, rest) => some ({ s with waiting := rest, woken := s.woken ++ [(t, c)] }, none)
      | none => none

/-- The monitor as a machine of its own, its shared state being `shared` in the beginning. -/
def machine (τ : Type) [DecidableEq τ] (shared : σ) : Machine (State σ γ ρ τ) (Move γ τ) where
  init := (· = .init shared)
  step := fun s a => (M.step s a).map (·.1)

end Steps

/-! ## What a step can do -/

variable (M : Monitor σ γ κ ρ)

/-- A signal is delivered. -/
inductive Notified (s : State σ γ ρ τ) : Notice κ → State σ γ ρ τ → Prop where
  | none : Notified s .none s
  | lost {k : κ} (h : ∀ p ∈ s.waiting, M.cond p.2 ≠ k) : Notified s (.one k) s
  | one {k : κ} {t : τ} {c : γ} {rest : List (τ × γ)} (hk : M.cond c = k)
      (h : s.waiting.Perm ((t, c) :: rest)) :
      Notified s (.one k) { s with waiting := rest, woken := s.woken ++ [(t, c)] }
  | all : Notified s .all { s with waiting := [], woken := s.woken ++ s.waiting }

/-- Thread `t` waits, or runs its section. -/
inductive Attempt (s : State σ γ ρ τ) (t : τ) (c : γ) : State σ γ ρ τ → Option ρ → Prop where
  | waits (h : M.run s.shared c = none) :
      Attempt s t c { s with waiting := s.waiting ++ [(t, c)] } none
  | runs {shared : σ} {x : ρ} {n : Notice κ} {s' : State σ γ ρ τ}
      (h : M.run s.shared c = some (shared, x, n))
      (hn : Notified M { s with shared, log := s.log ++ [(t, c, x)] } n s') :
      Attempt s t c s' (some x)

/-- One move, with what the call returns if it returns. -/
inductive Step (s : State σ γ ρ τ) : Move γ τ → State σ γ ρ τ → Option ρ → Prop where
  | call {t : τ} {c : γ} {u : Option τ} {s' : State σ γ ρ τ} {r : Option ρ}
      (hb : ∀ p ∈ s.waiting ++ s.woken, p.1 ≠ t) (h : Attempt M s t c s' r) :
      Step s (.call t c u) s' r
  | resume {t : τ} {c : γ} {u : Option τ} {rest : List (τ × γ)} {s' : State σ γ ρ τ} {r : Option ρ}
      (hw : s.woken.Perm ((t, c) :: rest)) (h : Attempt M { s with woken := rest } t c s' r) :
      Step s (.resume t u) s' r
  | spurious {t : τ} {c : γ} {rest : List (τ × γ)} (hw : s.waiting.Perm ((t, c) :: rest)) :
      Step s (.spurious t) { s with waiting := rest, woken := s.woken ++ [(t, c)] } none

variable {M} {s s' : State σ γ ρ τ}

section Cases

variable [DecidableEq τ]

theorem takeOut_perm {t : τ} {c : γ} : ∀ {l rest : List (τ × γ)},
    takeOut t l = some (c, rest) → l.Perm ((t, c) :: rest)
  | [], _, h => by cases h
  | (u, d) :: l, rest, h => by
      rw [takeOut] at h
      by_cases hu : u = t
      · rw [if_pos hu] at h
        obtain ⟨hc, hl⟩ := Prod.mk.inj (Option.some.inj h)
        rw [hu, hc, hl]
      · rw [if_neg hu] at h
        obtain ⟨⟨c', l'⟩, hrec, heq⟩ := Option.map_eq_some_iff.mp h
        obtain ⟨hc, hl⟩ := Prod.mk.inj heq
        rw [← hl, ← hc]
        exact ((takeOut_perm hrec).cons (u, d)).trans (List.Perm.swap _ _ _)

theorem takeOut_mem {t : τ} {c : γ} : ∀ {l : List (τ × γ)}, (t, c) ∈ l →
    ∃ d rest, takeOut t l = some (d, rest)
  | (u, d) :: l, h => by
      rw [takeOut]
      by_cases hu : u = t
      · rw [if_pos hu]
        exact ⟨d, l, rfl⟩
      · rw [if_neg hu]
        rcases List.mem_cons.mp h with he | h
        · exact absurd (Prod.mk.inj he).1.symm hu
        · obtain ⟨d', rest, hrec⟩ := takeOut_mem h
          rw [hrec]
          exact ⟨d', _, rfl⟩

variable [DecidableEq κ]

theorem notify_cases {n : Notice κ} {u : Option τ} (h : M.notify s n u = some s') :
    Notified M s n s' := by
  cases n with
  | none =>
    cases u with
    | none => cases h; exact .none
    | some t => cases h
  | one k =>
    cases u with
    | none =>
      rw [notify] at h
      split at h
      · cases h
      · rename_i hany
        cases h
        refine .lost fun p hp hk => hany ?_
        exact List.any_eq_true.mpr ⟨p, hp, decide_eq_true hk⟩
    | some t =>
      rw [notify] at h
      split at h
      · rename_i c rest htake
        split at h
        · rename_i hk
          cases h
          exact .one hk (takeOut_perm htake)
        · cases h
      · cases h
  | all =>
    cases u with
    | none => cases h; exact .all
    | some t => cases h

theorem attempt_cases {t : τ} {c : γ} {u : Option τ} {r : Option ρ}
    (h : M.attempt s t c u = some (s', r)) : Attempt M s t c s' r := by
  unfold attempt at h
  split at h
  · rename_i shared x n hrun
    obtain ⟨s'', hn, heq⟩ := Option.map_eq_some_iff.mp h
    obtain ⟨hs, hr⟩ := Prod.mk.inj heq
    rw [← hs, ← hr]
    exact .runs hrun (notify_cases hn)
  · rename_i hrun
    split at h
    · obtain ⟨hs, hr⟩ := Prod.mk.inj (Option.some.inj h)
      rw [← hs, ← hr]
      exact .waits hrun
    · cases h

theorem step_cases {a : Move γ τ} {r : Option ρ} (h : M.step s a = some (s', r)) :
    Step M s a s' r := by
  cases a with
  | call t c u =>
    rw [step] at h
    split at h
    · cases h
    · rename_i hb
      refine .call (fun p hp ht => hb ?_) (attempt_cases h)
      exact List.any_eq_true.mpr ⟨p, hp, decide_eq_true ht⟩
  | resume t u =>
    rw [step] at h
    split at h
    · rename_i c rest htake
      exact .resume (takeOut_perm htake) (attempt_cases h)
    · cases h
  | spurious t =>
    rw [step] at h
    split at h
    · rename_i c rest htake
      cases h
      exact .spurious (takeOut_perm htake)
    · cases h

end Cases

/-! ## Critical sections -/

theorem Notified.shared {n : Notice κ} (h : Notified M s n s') :
    s'.shared = s.shared ∧ s'.log = s.log := by
  cases h <;> exact ⟨rfl, rfl⟩

/-- A thread waits and the shared state stays, or it returns and has run its section. -/
theorem Attempt.section {t : τ} {c : γ} {r : Option ρ} (h : Attempt M s t c s' r) :
    (r = none ∧ s'.shared = s.shared ∧ s'.log = s.log)
    ∨ ∃ x n, M.run s.shared c = some (s'.shared, x, n) ∧ r = some x
      ∧ s'.log = s.log ++ [(t, c, x)] := by
  cases h with
  | waits h => exact .inl ⟨rfl, rfl, rfl⟩
  | @runs shared x n s' h hn =>
    refine .inr ⟨x, n, ?_, rfl, hn.shared.2⟩
    rw [hn.shared.1]
    exact h

/-- The calls in progress, those that wait and those that were woken. -/
def State.calls (s : State σ γ ρ τ) : List (τ × γ) := s.waiting ++ s.woken

/-- **A step runs at most one critical section**, that of a call in progress or just made. -/
theorem Step.section {a : Move γ τ} {r : Option ρ} (h : Step M s a s' r) :
    (r = none ∧ s'.shared = s.shared ∧ s'.log = s.log)
    ∨ ∃ c, ((a.thread, c) ∈ s.calls ∨ ∃ u, a = .call a.thread c u)
      ∧ ∃ x n, M.run s.shared c = some (s'.shared, x, n) ∧ r = some x
        ∧ s'.log = s.log ++ [(a.thread, c, x)] := by
  cases h with
  | @call t c u s' r hb h =>
    rcases h.section with hsame | hrun
    · exact .inl hsame
    · exact .inr ⟨c, .inr ⟨u, rfl⟩, hrun⟩
  | @resume t c u rest s' r hw h =>
    rcases h.section with hsame | hrun
    · exact .inl hsame
    · refine .inr ⟨c, .inl ?_, hrun⟩
      exact List.mem_append_right _ (hw.mem_iff.mpr List.mem_cons_self)
  | spurious hw => exact .inl ⟨rfl, rfl, rfl⟩

/-! ## Calls in progress -/

theorem Notified.calls {n : Notice κ} (h : Notified M s n s') : s'.calls.Perm s.calls := by
  unfold State.calls
  cases h with
  | none => exact List.Perm.refl _
  | lost h => exact List.Perm.refl _
  | @one k t c rest hk h =>
    refine List.Perm.trans ?_ (h.symm.append_right _)
    rw [← List.append_assoc]
    exact List.perm_append_comm
  | all =>
    rw [List.nil_append]
    exact List.perm_append_comm

theorem Attempt.calls {t : τ} {c : γ} {r : Option ρ} (h : Attempt M s t c s' r) :
    (r = none ∧ s'.calls.Perm ((t, c) :: s.calls)) ∨ ((∃ x, r = some x) ∧ s'.calls.Perm s.calls) := by
  cases h with
  | waits h =>
    refine .inl ⟨rfl, ?_⟩
    unfold State.calls
    rw [List.append_assoc]
    exact List.perm_middle
  | runs h hn => exact .inr ⟨⟨_, rfl⟩, hn.calls⟩

/-- What a step does to the calls in progress: the thread makes a call and waits, returns at once,
goes on waiting, or returns. -/
theorem Step.calls {a : Move γ τ} {r : Option ρ} (h : Step M s a s' r) :
    (∃ c u, a = .call a.thread c u ∧ (∀ p ∈ s.calls, p.1 ≠ a.thread)
      ∧ ((r = none ∧ s'.calls.Perm ((a.thread, c) :: s.calls))
        ∨ ((∃ x, r = some x) ∧ s'.calls.Perm s.calls)))
    ∨ (r = none ∧ s'.calls.Perm s.calls)
    ∨ ((∃ x, r = some x) ∧ ∃ c, s.calls.Perm ((a.thread, c) :: s'.calls)) := by
  cases h with
  | @call t c u s' r hb h => exact .inl ⟨c, u, rfl, hb, h.calls⟩
  | @resume t c u rest s' r hw h =>
    have hcalls : s.calls.Perm ((t, c) :: { s with woken := rest }.calls) :=
      (hw.append_left s.waiting).trans List.perm_middle
    rcases h.calls with ⟨hr, hp⟩ | ⟨hr, hp⟩
    · exact .inr (.inl ⟨hr, hp.trans hcalls.symm⟩)
    · exact .inr (.inr ⟨hr, c, hcalls.trans (hp.symm.cons _)⟩)
  | @spurious t c rest hw =>
    refine .inr (.inl ⟨rfl, ?_⟩)
    unfold State.calls
    refine List.Perm.trans ?_ (hw.symm.append_right _)
    rw [← List.append_assoc]
    exact List.perm_append_comm

/-- A call in progress was so before, or has just been made. -/
theorem Step.mem_calls {a : Move γ τ} {r : Option ρ} (h : Step M s a s' r) {p : τ × γ}
    (hp : p ∈ s'.calls) : p ∈ s.calls ∨ r = none ∧ ∃ u, a = .call p.1 p.2 u := by
  rcases h.calls with ⟨c, u, ha, -, ⟨hr, hperm⟩ | ⟨-, hperm⟩⟩ | ⟨-, hperm⟩ | ⟨-, c, hperm⟩
  · rcases List.mem_cons.mp (hperm.mem_iff.mp hp) with he | hold
    · rw [he]
      exact .inr ⟨hr, u, ha⟩
    · exact .inl hold
  · exact .inl (hperm.mem_iff.mp hp)
  · exact .inl (hperm.mem_iff.mp hp)
  · exact .inl (hperm.mem_iff.mpr (List.mem_cons_of_mem _ hp))

/-- Who is in a call, or makes it, is in it behind the step unless it returns. -/
theorem Step.still_in_call {a : Move γ τ} {r : Option ρ} (h : Step M s a s' r) {t : τ} {c : γ}
    (hin : (t, c) ∈ s.calls ∨ ∃ u, a = .call t c u) (hr : a.thread = t → r = none) :
    (t, c) ∈ s'.calls := by
  rcases hin with hin | ⟨u, rfl⟩
  · rcases h.calls with ⟨d, u, -, -, ⟨-, hperm⟩ | ⟨-, hperm⟩⟩ | ⟨-, hperm⟩ | ⟨⟨x, hx⟩, d, hperm⟩
    · exact hperm.mem_iff.mpr (List.mem_cons_of_mem _ hin)
    · exact hperm.mem_iff.mpr hin
    · exact hperm.mem_iff.mpr hin
    · rcases List.mem_cons.mp (hperm.mem_iff.mp hin) with he | hstill
      · have hnone := hr (Prod.mk.inj he).1.symm
        rw [hx] at hnone
        cases hnone
      · exact hstill
  · have hnone := hr rfl
    cases h with
    | call hb hattempt =>
      cases hattempt with
      | waits hrun =>
        exact List.mem_append_left _ (List.mem_append_right _ (List.mem_singleton_self _))
      | runs hrun hn => cases hnone

theorem Notified.waiting {n : Notice κ} (h : Notified M s n s') {p : τ × γ}
    (hp : p ∈ s'.waiting) : p ∈ s.waiting := by
  cases h with
  | none => exact hp
  | lost h => exact hp
  | one hk h => exact h.mem_iff.mpr (List.mem_cons_of_mem _ hp)
  | all => exact absurd hp List.not_mem_nil

theorem Attempt.waiting {t : τ} {c : γ} {r : Option ρ} (h : Attempt M s t c s' r) {p : τ × γ}
    (hp : p ∈ s'.waiting) : p ∈ s.waiting ∨ p = (t, c) ∧ M.run s.shared c = none := by
  cases h with
  | waits hrun =>
    rcases List.mem_append.mp hp with hold | hnew
    · exact .inl hold
    · exact .inr ⟨List.mem_singleton.mp hnew, hrun⟩
  | runs hrun hn => exact .inl (hn.waiting hp)

/-- A thread that is blocked was so before, or has just made its call, or has tested its predicate
again in vain. -/
theorem Step.mem_waiting {a : Move γ τ} {r : Option ρ} (h : Step M s a s' r) {p : τ × γ}
    (hp : p ∈ s'.waiting) :
    p ∈ s.waiting ∨ (∀ q ∈ s.calls, q.1 ≠ p.1)
      ∨ (∃ u, a = .resume p.1 u) ∧ p ∈ s.woken ∧ M.run s.shared p.2 = none := by
  cases h with
  | @call t c u s' r hb h =>
    rcases h.waiting hp with hold | ⟨he, -⟩
    · exact .inl hold
    · rw [he]
      exact .inr (.inl hb)
  | @resume t c u rest s' r hw h =>
    rcases h.waiting hp with hold | ⟨he, hrun⟩
    · exact .inl hold
    · rw [he]
      exact .inr (.inr ⟨⟨u, rfl⟩, hw.mem_iff.mpr List.mem_cons_self, hrun⟩)
  | spurious hw => exact .inl (hw.mem_iff.mpr (List.mem_cons_of_mem _ hp))

theorem Notified.mem_woken {n : Notice κ} (h : Notified M s n s') {p : τ × γ}
    (hp : p ∈ s.woken) : p ∈ s'.woken := by
  cases h with
  | none => exact hp
  | lost h => exact hp
  | one hk h => exact List.mem_append_left _ hp
  | all => exact List.mem_append_left _ hp

theorem Attempt.mem_woken {t : τ} {c : γ} {r : Option ρ} (h : Attempt M s t c s' r) {p : τ × γ}
    (hp : p ∈ s.woken) : p ∈ s'.woken := by
  cases h with
  | waits hrun => exact hp
  | runs hrun hn => exact hn.mem_woken hp

/-- A woken thread stays woken until it takes the mutex. -/
theorem Step.mem_woken {a : Move γ τ} {r : Option ρ} (h : Step M s a s' r) {p : τ × γ}
    (hp : p ∈ s.woken) (ha : ∀ u, a ≠ .resume p.1 u) : p ∈ s'.woken := by
  cases h with
  | call hb h => exact h.mem_woken hp
  | @resume t c u rest s' r hw h =>
    refine h.mem_woken ?_
    rcases List.mem_cons.mp (hw.mem_iff.mp hp) with he | hrest
    · exact absurd (by rw [he]) (ha u)
    · exact hrest
  | spurious hw => exact List.mem_append_left _ hp

/-- Each thread is in one call at most. -/
def State.Single (s : State σ γ ρ τ) : Prop := (s.calls.map Prod.fst).Nodup

theorem State.Single.unique (hs : s.Single) {t : τ} {c c' : γ} (h : (t, c) ∈ s.calls)
    (h' : (t, c') ∈ s.calls) : c' = c :=
  (Prod.mk.inj (List.inj_on_of_nodup_map hs h' h rfl)).2

theorem Step.single {a : Move γ τ} {r : Option ρ} (hs : s.Single) (h : Step M s a s' r) :
    s'.Single := by
  unfold State.Single at *
  rcases h.calls with ⟨c, u, -, hout, ⟨-, hp⟩ | ⟨-, hp⟩⟩ | ⟨-, hp⟩ | ⟨-, c, hp⟩
  · rw [(hp.map _).nodup_iff, List.map_cons, List.nodup_cons]
    refine ⟨fun hmem => ?_, hs⟩
    obtain ⟨p, hp, he⟩ := List.mem_map.mp hmem
    exact hout p hp he
  · rw [(hp.map _).nodup_iff]
    exact hs
  · rw [(hp.map _).nodup_iff]
    exact hs
  · rw [(hp.map _).nodup_iff, List.map_cons, List.nodup_cons] at hs
    exact hs.2

/-- A thread that returns is in no call. -/
theorem Step.returned {a : Move γ τ} {x : ρ} (hs : s.Single) (h : Step M s a s' (some x)) :
    ∀ p ∈ s'.calls, p.1 ≠ a.thread := by
  rcases h.calls with ⟨c, u, -, hout, ⟨hr, -⟩ | ⟨-, hp⟩⟩ | ⟨hr, -⟩ | ⟨-, c, hp⟩
  · cases hr
  · exact fun p hmem => hout p (hp.mem_iff.mp hmem)
  · cases hr
  · intro p hmem he
    unfold State.Single at hs
    rw [(hp.map _).nodup_iff, List.map_cons, List.nodup_cons] at hs
    exact hs.1 (List.mem_map.mpr ⟨p, hmem, he⟩)

/-- Only calls that satisfy `P` are made. -/
def Only (P : γ → Prop) (_ : State σ γ ρ τ) : Move γ τ → Prop
  | .call _ c _ => P c
  | _ => True

theorem Step.only {P : γ → Prop} {a : Move γ τ} {r : Option ρ} (h : Step M s a s' r)
    (hcalls : ∀ p ∈ s.calls, P p.2) (hnew : Only P s a) : ∀ p ∈ s'.calls, P p.2 := by
  intro p hp
  rcases h.mem_calls hp with hold | ⟨-, u, ha⟩
  · exact hcalls p hold
  · rw [ha] at hnew
    exact hnew

/-! ## Signals -/

variable [DecidableEq κ]

/-- The number of threads woken from condition `k` that have not yet run. -/
def State.wokenOn (M : Monitor σ γ κ ρ) (k : κ) (s : State σ γ ρ τ) : Nat :=
  s.woken.countP fun p => M.cond p.2 = k

/-- Whenever a thread waits on `k`, at least as many woken threads have yet to run as there are
units that such a thread can use. -/
def State.Fed (M : Monitor σ γ κ ρ) (k : κ) (units : σ → Nat) (s : State σ γ ρ τ) : Prop :=
  (∃ p ∈ s.waiting, M.cond p.2 = k) → units s.shared ≤ s.wokenOn M k

/-- The calls that satisfy `P` signal `k` for each unit they make available and take one for each
wait on `k`, in states where `I` holds. -/
structure Supplies (M : Monitor σ γ κ ρ) (k : κ) (units : σ → Nat) (P : γ → Prop) (I : σ → Prop) :
    Prop where
  keeps : ∀ s c s' r n, I s → P c → M.run s c = some (s', r, n) → I s'
  blocks : ∀ s c, I s → P c → M.cond c = k → M.run s c = none → units s = 0
  uses : ∀ s c s' r n, I s → P c → M.cond c = k → M.run s c = some (s', r, n) →
    units s' + 1 ≤ units s
  gives : ∀ s c s' r n, I s → P c → M.cond c ≠ k → M.run s c = some (s', r, n) →
    units s' ≤ units s + if n = .one k then 1 else 0

variable {k : κ} {units : σ → Nat} {P : γ → Prop} {I : σ → Prop}

theorem Notified.wokenOn {n : Notice κ} (h : Notified M s n s')
    (hk : ∃ p ∈ s'.waiting, M.cond p.2 = k) :
    (∃ p ∈ s.waiting, M.cond p.2 = k)
      ∧ s.wokenOn M k + (if n = .one k then 1 else 0) ≤ s'.wokenOn M k := by
  unfold State.wokenOn
  cases h with
  | none => exact ⟨hk, by simp⟩
  | @lost k' h =>
    obtain ⟨p, hp, he⟩ := hk
    have hne : k' ≠ k := fun heq => h p hp (he.trans heq.symm)
    exact ⟨⟨p, hp, he⟩, by simp [hne]⟩
  | @one k' t c rest hc h =>
    obtain ⟨p, hp, he⟩ := hk
    refine ⟨⟨p, h.mem_iff.mpr (List.mem_cons_of_mem _ hp), he⟩, ?_⟩
    dsimp only
    rw [List.countP_append, List.countP_singleton, hc]
    by_cases hkk : k' = k
    · simp [hkk]
    · simp [hkk]
  | all =>
    obtain ⟨p, hp, he⟩ := hk
    exact absurd hp List.not_mem_nil

/-- A thread that holds the mutex in its call keeps the condition fed; it may itself be one of those
the signals were for. -/
theorem Attempt.fed (hsup : Supplies M k units P I) {t : τ} {c : γ} {r : Option ρ}
    (h : Attempt M s t c s' r) (hI : I s.shared) (hP : P c)
    (hfed : (∃ p ∈ s.waiting, M.cond p.2 = k) →
      units s.shared ≤ s.wokenOn M k + if M.cond c = k then 1 else 0) : s'.Fed M k units := by
  intro hk
  cases h with
  | waits hrun =>
    by_cases hc : M.cond c = k
    · -- it waits because there is nothing for it
      rw [show units s.shared = 0 from hsup.blocks _ _ hI hP hc hrun]
      exact Nat.zero_le _
    · obtain ⟨p, hp, he⟩ := hk
      rcases List.mem_append.mp hp with hp | hp
      · have hle := hfed ⟨p, hp, he⟩
        rw [if_neg hc] at hle
        exact hle
      · rw [List.mem_singleton.mp hp] at he
        exact absurd he hc
  | runs hrun hn =>
    obtain ⟨hk, hwoken⟩ := hn.wokenOn hk
    rw [hn.shared.1]
    dsimp only [State.wokenOn] at hk hwoken ⊢
    have hle := hfed hk
    unfold State.wokenOn at hle
    by_cases hc : M.cond c = k
    · have huses := hsup.uses _ _ _ _ _ hI hP hc hrun
      rw [if_pos hc] at hle
      omega
    · have hgives := hsup.gives _ _ _ _ _ hI hP hc hrun
      rw [if_neg hc] at hle
      omega

/-- **No signal is lost.** -/
theorem Step.fed (hsup : Supplies M k units P I) {a : Move γ τ} {r : Option ρ}
    (h : Step M s a s' r) (hI : I s.shared) (hcalls : ∀ p ∈ s.calls, P p.2)
    (hnew : ∀ t c u, a = .call t c u → P c) (hfed : s.Fed M k units) : s'.Fed M k units := by
  cases h with
  | @call t c u s' r hb h =>
    exact h.fed hsup hI (hnew t c u rfl) fun hk => Nat.le_add_right_of_le (hfed hk)
  | @resume t c u rest s' r hw h =>
    have hmem : (t, c) ∈ s.calls := List.mem_append_right _ (hw.mem_iff.mpr List.mem_cons_self)
    refine h.fed hsup hI (hcalls _ hmem) fun hk => ?_
    have hle := hfed hk
    unfold State.wokenOn at *
    rw [hw.countP_eq, List.countP_cons] at hle
    simpa using hle
  | @spurious t c rest hw =>
    rintro ⟨p, hp, he⟩
    have hle := hfed ⟨p, hw.mem_iff.mpr (List.mem_cons_of_mem _ hp), he⟩
    unfold State.wokenOn at *
    dsimp only
    rw [List.countP_append]
    omega

/-! ## Gates -/

/-- The calls that satisfy `P` wait only while the gate is shut, and the one that opens it wakes
everybody. -/
structure Gates (M : Monitor σ γ κ ρ) (P : γ → Prop) (gate : σ → Prop) : Prop where
  blocks : ∀ s c, P c → M.run s c = none → ¬ gate s
  opens : ∀ s c s' r n, P c → M.run s c = some (s', r, n) → gate s' → gate s ∨ n = .all

section Gates

variable {gate : σ → Prop}

omit [DecidableEq κ] in
theorem Attempt.behind_gate (hg : Gates M P gate) {t : τ} {c : γ} {r : Option ρ}
    (h : Attempt M s t c s' r) (hP : P c) (hfree : gate s.shared → s.waiting = [])
    (hopen : gate s'.shared) : s'.waiting = [] := by
  cases h with
  | waits hrun => exact absurd hopen (hg.blocks _ _ hP hrun)
  | runs hrun hn =>
    rw [hn.shared.1] at hopen
    rcases hg.opens _ _ _ _ _ hP hrun hopen with hold | hall
    · refine List.eq_nil_iff_forall_not_mem.mpr fun p hp => ?_
      have hmem := hn.waiting hp
      rw [show s.waiting = [] from hfree hold] at hmem
      exact List.not_mem_nil hmem
    · subst hall
      cases hn
      rfl

omit [DecidableEq κ] in
/-- **Behind an open gate nobody waits.** -/
theorem Step.behind_gate (hg : Gates M P gate) {a : Move γ τ} {r : Option ρ} (h : Step M s a s' r)
    (hcalls : ∀ p ∈ s.calls, P p.2) (hnew : Only P s a) (hfree : gate s.shared → s.waiting = [])
    (hopen : gate s'.shared) : s'.waiting = [] := by
  cases h with
  | call hb h => exact h.behind_gate hg hnew hfree hopen
  | @resume t c u rest s' r hw h =>
    have hmem : (t, c) ∈ s.calls := List.mem_append_right _ (hw.mem_iff.mpr List.mem_cons_self)
    exact h.behind_gate hg (hcalls _ hmem) hfree hopen
  | spurious hw =>
    rw [hfree hopen] at hw
    exact absurd hw.nil_eq (List.cons_ne_nil _ _).symm

end Gates

/-! ## Runs -/

section Reachable

variable [DecidableEq τ] {shared : σ}

/-- A step of the machine. -/
theorem machine_cases {a : Move γ τ} (h : (M.machine τ shared).step s a = some s') :
    ∃ r, Step M s a s' r := by
  obtain ⟨⟨s'', r⟩, hs, he⟩ := Option.map_eq_some_iff.mp h
  exact ⟨r, by rw [← he]; exact step_cases hs⟩

theorem reachable_single {ok : State σ γ ρ τ → Move γ τ → Prop}
    (h : Reachable (M.machine τ shared) ok s) : s.Single := by
  refine h.invariant (I := State.Single) ?_ ?_
  · intro s hs
    rw [show s = .init shared from hs]
    exact List.nodup_nil
  · intro s a s' _ hi _ hs
    obtain ⟨r, hstep⟩ := machine_cases hs
    exact hstep.single hi

theorem reachable_only (h : Reachable (M.machine τ shared) (Only P) s) : ∀ p ∈ s.calls, P p.2 := by
  refine h.invariant (I := fun s => ∀ p ∈ s.calls, P p.2) ?_ ?_
  · intro s hs
    rw [show s = .init shared from hs]
    exact fun p hp => absurd hp List.not_mem_nil
  · intro s a s' _ hi hok hs
    obtain ⟨r, hstep⟩ := machine_cases hs
    exact hstep.only hi hok

/-- **The section rule.** What holds of the state and the log in the beginning and is kept by each
critical section holds in every reachable state. -/
theorem reachable_sections {J : σ → List (τ × γ × ρ) → Prop} (hinit : J shared [])
    (hrun : ∀ s l t c s' x n, J s l → P c → M.run s c = some (s', x, n) → J s' (l ++ [(t, c, x)]))
    (h : Reachable (M.machine τ shared) (Only P) s) : J s.shared s.log := by
  refine h.invariant (I := fun s => J s.shared s.log) ?_ ?_
  · intro s hs
    rw [show s = .init shared from hs]
    exact hinit
  · intro s a s' hr hi hok hs
    obtain ⟨r, hstep⟩ := machine_cases hs
    rcases hstep.section with ⟨-, hs, hl⟩ | ⟨c, hc, x, n, hsection, -, hl⟩
    · rw [hs, hl]
      exact hi
    · rw [hl]
      refine hrun _ _ _ _ _ _ _ hi ?_ hsection
      rcases hc with hc | ⟨u, hc⟩
      · exact reachable_only hr _ hc
      · rw [hc] at hok
        exact hok

/-- **The signal rule.** -/
theorem reachable_fed (hsup : Supplies M k units P I) (hinit : I shared)
    (h : Reachable (M.machine τ shared) (Only P) s) : s.Fed M k units := by
  have hI : ∀ {s}, Reachable (M.machine τ shared) (Only P) s → I s.shared :=
    reachable_sections (J := fun s _ => I s) hinit fun s _ _ c _ _ _ hs hc hrun =>
      hsup.keeps s c _ _ _ hs hc hrun
  refine h.invariant (I := State.Fed M k units) ?_ ?_
  · intro s hs
    rw [show s = .init shared from hs]
    rintro ⟨p, hp, -⟩
    exact absurd hp List.not_mem_nil
  · intro s a s' hr hi hok hs
    obtain ⟨r, hstep⟩ := machine_cases hs
    refine hstep.fed hsup (hI hr) (reachable_only hr) (fun t c u ha => ?_) hi
    rw [ha] at hok
    exact hok

/-- **The gate rule.** -/
theorem reachable_gate {gate : σ → Prop} (hg : Gates M P gate)
    (h : Reachable (M.machine τ shared) (Only P) s) (hopen : gate s.shared) : s.waiting = [] := by
  refine h.invariant (I := fun s => gate s.shared → s.waiting = []) ?_ ?_ hopen
  · intro s hs _
    rw [show s = .init shared from hs]
    rfl
  · intro s a s' hr hi hok hs
    obtain ⟨r, hstep⟩ := machine_cases hs
    exact hstep.behind_gate hg (reachable_only hr) hok hi

end Reachable

end Monitor

end Windz.Lib
