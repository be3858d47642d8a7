import Windz.Base.ThreadInvariant

/-!
# The owner of a thread

`Start`, `Join` and the destructor keep the invariant, whatever `pthread_create` answers
and however the wait for the latch ends.
-/

namespace Windz

open Lib Lib.Monitor

namespace ThreadRun

variable {w w' : ThreadRun} {th : Thread}

theorem Inv.fail (h : Inv w) (hs : w.starter = .outside) : Inv { w with failed := true } where
  noFault := h.noFault
  failed := fun _ => hs
  phase := h.phase
  heap := h.heap
  gone := h.gone
  object := h.object
  created := h.created
  destroyed := h.destroyed
  name := h.name
  results := h.results
  calls := h.calls

theorem Inv.start (h : Inv w) (hf : w.failed = false) (hs : w.starter = .outside)
    (hth : w.thread = some th) : Inv (w.start th) := by
  have ho := h.object th hth
  unfold ThreadRun.start
  by_cases hst : th.started = true
  · rw [if_pos hst]
    exact h.fail hs
  · rw [if_neg hst]
    -- no thread was made so far
    have hr : w.runner = .notCreated := by
      by_contra hne
      exact hst (ho.started.mpr (.inr hne))
    have hlatch := ho.latch
    have hjoin : th.joined = false := by
      cases hj : th.joined with
      | false => rfl
      | true =>
        rcases ho.joined hj with ⟨-, hg⟩ | hj
        · rw [hr] at hg; cases hg
        · rw [hs] at hj; cases hj
    rw [hs, hr] at hlatch
    constructor
    case noFault => exact h.noFault
    case failed => rw [hf]; exact nofun
    case phase => rw [hr]; rfl
    case heap =>
      obtain ⟨k, hk⟩ := h.heap
      rw [hs, hr] at hk
      exact ⟨k, by rw [hk, List.append_assoc, hr]; rfl⟩
    case gone => exact ⟨nofun, nofun⟩
    case object =>
      intro th' he
      cases he
      rw [hr]
      exact ⟨hlatch, ⟨fun _ => .inl rfl, fun _ => rfl⟩, fun hne => absurd rfl hne,
        fun hj => absurd (hjoin.symm.trans hj) Bool.false_ne_true, nofun, by
          rw [ho.released, hjoin]; rfl⟩
    case created => exact h.created
    case destroyed => exact nofun
    case name => exact h.name
    case results =>
      have hresults := h.results
      rw [hs] at hresults
      exact hresults
    case calls => exact h.calls

theorem Inv.not_called (h : Inv w) (hr : w.runner = .notCreated) :
    w.calls = 0 ∧ w.created = 0 ∧ true ∉ w.results := by
  refine ⟨?_, ?_, fun hm => (h.results.mp hm).1 hr⟩
  · rw [h.calls, hr]; rfl
  · rw [h.created, hr]; rfl

theorem Inv.pthreadCreate (h : Inv w) (hf : w.failed = false) (hs : w.starter = .creating)
    (hth : w.thread = some th) {tid : Option Nat} (hw : w.pthreadCreate th tid = some w') :
    Inv w' := by
  have ho := h.object th hth
  have hr : w.runner = .notCreated := by
    have hp := h.phase
    rw [hs] at hp
    exact of_decide_eq_true hp
  have hown : owned w.starter w.runner = true := by rw [hs]; rfl
  obtain ⟨hcalls, hcreated, hresults⟩ := h.not_called hr
  have hlatch := ho.latch
  rw [hs, hr] at hlatch
  have hjoin : th.joined = false := by
    cases hj : th.joined with
    | false => rfl
    | true => rcases ho.joined hj with ⟨hj, -⟩ | hj <;> rw [hs] at hj <;> cases hj
  have hrel : w.released = 0 := by rw [ho.released, hjoin]; rfl
  cases tid with
  | some tid =>
    cases hw
    constructor
    case noFault => exact h.noFault
    case failed => rw [hf]; exact nofun
    case phase => rfl
    case heap =>
      obtain ⟨k, hk⟩ := h.heap
      rw [hown] at hk
      exact ⟨k, hk⟩
    case gone =>
      exact ⟨fun hg => absurd (hth.symm.trans hg) (Option.some_ne_none th), nofun⟩
    case object =>
      intro th' he
      cases hth.symm.trans he
      exact ⟨hlatch, ⟨fun _ => .inr nofun, fun _ => ho.started.mpr (.inl hs)⟩,
        fun _ hne => absurd rfl hne, fun hj => absurd (hjoin.symm.trans hj) Bool.false_ne_true,
        nofun, by rw [hrel, hjoin]; rfl⟩
    case created => exact congrArg (· + 1) hcreated
    case destroyed => exact nofun
    case name => exact nofun
    case results => exact ⟨fun hm => absurd hm hresults, fun hr => absurd hr.2 nofun⟩
    case calls => exact hcalls
  | none =>
    unfold ThreadRun.pthreadCreate at hw
    dsimp only at hw
    rw [h.onData hown] at hw
    cases hw
    constructor
    case noFault => exact h.noFault
    case failed => rw [show w.deleteData.failed = w.failed from rfl, hf]; exact nofun
    case phase => show inPhase .outside w.runner = true; rw [hr]; rfl
    case heap =>
      rw [show owned .outside w.deleteData.runner = false by
        show owned .outside w.runner = false
        rw [hr]
        rfl]
      exact h.deleted hown
    case gone => exact ⟨nofun, nofun⟩
    case object =>
      intro th' he
      cases he
      show Object .outside w.runner _ w.released _
      rw [hr]
      refine ⟨hlatch, ⟨nofun, ?_⟩, fun hne => absurd rfl hne,
        fun hj => absurd (hjoin.symm.trans hj) Bool.false_ne_true, nofun, by rw [hrel, hjoin]; rfl⟩
      rintro (hc | hc)
      · cases hc
      · exact absurd rfl hc
    case created => exact h.created
    case destroyed => exact nofun
    case name =>
      intro hn
      have hd := h.name hn
      rw [hr] at hd
      cases hd
    case results =>
      refine ⟨fun hm => ?_, fun hne => absurd hr hne.1⟩
      rcases List.mem_append.mp hm with hm | hm
      · exact absurd hm hresults
      · cases List.mem_singleton.mp hm
    case calls => exact h.calls

/-- In `latch_.Wait()` the owner stays there, or returns from `Start` behind the count-down. -/
theorem Inv.latch (h : Inv w) (hf : w.failed = false)
    (hs : w.starter = .beforeWait ∨ w.starter = .inWait) (hth : w.thread = some th)
    {m : Move LatchCall ThreadParty}
    (hm : ∀ l' r, CountDownLatch.monitor.step th.latch m = some (l', r) →
      (r = none ∧ LatchAt w.runner.counted true l')
        ∨ (r = some () ∧ w.runner.counted = true ∧ LatchAt true false l'))
    (hw : w.latchStep th m = some w') : Inv w' := by
  have ho := h.object th hth
  have hr : w.runner ≠ .notCreated := by
    have hp := h.phase
    rcases hs with hs | hs <;> rw [hs] at hp <;> exact of_decide_eq_true hp
  have hjoin : th.joined = false := by
    cases hj : th.joined with
    | false => rfl
    | true =>
      rcases ho.joined hj with ⟨hj, -⟩ | hj <;> rcases hs with hs | hs <;>
        rw [hs] at hj <;> cases hj
  have hrel : w.released = 0 := by rw [ho.released, hjoin]; rfl
  have hown : owned w.starter w.runner = w.runner.hasData := by
    rcases hs with hs | hs <;> rw [hs] <;> rfl
  obtain ⟨⟨l', r⟩, hstep, he⟩ := Option.map_eq_some_iff.mp hw
  rcases hm l' r hstep with ⟨hr', hl⟩ | ⟨hr', hcounted, hl⟩
  · subst hr'
    cases he
    constructor
    case noFault => exact h.noFault
    case failed => rw [hf]; exact nofun
    case phase => exact decide_eq_true hr
    case heap =>
      rw [show owned .inWait w.runner = owned w.starter w.runner from hown.symm]
      exact h.heap
    case gone => exact ⟨nofun, nofun⟩
    case object =>
      intro th' he
      cases he
      exact ⟨hl, ⟨fun _ => .inr hr, fun _ => ho.started.mpr (.inr hr)⟩, ho.tid,
        fun hj => absurd (hjoin.symm.trans hj) Bool.false_ne_true, nofun,
        by rw [hrel, hjoin]; rfl⟩
    case created => exact h.created
    case destroyed => exact nofun
    case name => exact h.name
    case results =>
      refine ⟨fun hm => ?_, fun hr => absurd hr.2 nofun⟩
      have hwait := (h.results.mp hm).2
      rcases hs with hs | hs <;> rw [hs] at hwait <;> cases hwait
    case calls => exact h.calls
  · subst hr'
    cases he
    constructor
    case noFault => exact h.noFault
    case failed => rw [hf]; exact nofun
    case phase =>
      show (!w.runner.early) = true
      cases hp : w.runner <;> rw [hp] at hcounted <;> first | rfl | cases hcounted
    case heap =>
      rw [show owned .outside w.runner = owned w.starter w.runner from hown.symm]
      exact h.heap
    case gone => exact ⟨nofun, nofun⟩
    case object =>
      intro th' he
      cases he
      refine ⟨?_, ⟨fun _ => .inr hr, fun _ => ho.started.mpr (.inr hr)⟩, ho.tid,
        fun hj => absurd (hjoin.symm.trans hj) Bool.false_ne_true, nofun,
        by rw [hrel, hjoin]; rfl⟩
      rw [hcounted]
      exact hl
    case created => exact h.created
    case destroyed => exact nofun
    case name => exact h.name
    case results =>
      exact ⟨fun _ => ⟨hr, rfl⟩, fun _ => List.mem_append_right _ (List.mem_singleton_self _)⟩
    case calls => exact h.calls

/-- Outside of `Start` the count-down is done, unless there is no new thread. -/
theorem counted_outside {runner : RunnerPc} (hp : inPhase .outside runner = true)
    (hne : runner ≠ .notCreated) : runner.counted = true := by
  cases runner <;> first | rfl | exact absurd rfl hne | cases hp

theorem Inv.join (h : Inv w) (hf : w.failed = false) (hs : w.starter = .outside)
    (hth : w.thread = some th) : Inv (w.join th) := by
  have ho := h.object th hth
  unfold ThreadRun.join
  split
  · rename_i hj
    have hjoin : th.joined = false := by simpa using hj.2
    have hr : w.runner ≠ .notCreated := (ho.started.mp hj.1).resolve_left (by rw [hs]; exact nofun)
    have hp := h.phase
    rw [hs] at hp
    have hlatch := ho.latch
    rw [hs] at hlatch
    constructor
    case noFault => exact h.noFault
    case failed => rw [hf]; exact nofun
    case phase => exact counted_outside hp hr
    case heap =>
      obtain ⟨k, hk⟩ := h.heap
      rw [hs] at hk
      exact ⟨k, hk⟩
    case gone => exact ⟨nofun, nofun⟩
    case object =>
      intro th' he
      cases he
      exact ⟨hlatch, ⟨fun _ => .inr hr, fun _ => hj.1⟩, ho.tid, fun _ => .inr rfl, fun _ => rfl, by
        rw [ho.released, hjoin]; rfl⟩
    case created => exact h.created
    case destroyed => exact nofun
    case name => exact h.name
    case results =>
      have hresults := h.results
      rw [hs] at hresults
      exact hresults
    case calls => exact h.calls
  · exact h.fail hs

theorem Inv.joinReturns (h : Inv w) (hf : w.failed = false) (hs : w.starter = .joining)
    (hr : w.runner = .gone) :
    Inv { w with starter := .outside, released := w.released + 1 } := by
  constructor
  case noFault => exact h.noFault
  case failed => rw [hf]; exact nofun
  case phase => show inPhase .outside w.runner = true; rw [hr]; rfl
  case heap =>
    obtain ⟨k, hk⟩ := h.heap
    rw [hs] at hk
    exact ⟨k, hk⟩
  case gone =>
    refine ⟨fun hg => ?_, nofun⟩
    rw [h.gone.mp hg] at hs
    cases hs
  case object =>
    intro th' hth
    have ho := h.object th' hth
    have hj := ho.joining hs
    have hlatch := ho.latch
    rw [hs] at hlatch
    have hne : w.runner ≠ .notCreated := by rw [hr]; exact nofun
    exact ⟨hlatch, ⟨fun _ => .inr hne, fun _ => ho.started.mpr (.inr hne)⟩, ho.tid,
      fun _ => .inl ⟨rfl, hr⟩, nofun, by
        show w.released + 1 = _
        rw [ho.released, hs, hj]; rfl⟩
  case created => exact h.created
  case destroyed => exact nofun
  case name => exact h.name
  case results =>
    have hresults := h.results
    rw [hs] at hresults
    exact hresults
  case calls => exact h.calls

theorem Inv.destroy (h : Inv w) (hf : w.failed = false) (hs : w.starter = .outside)
    (hth : w.thread = some th) : Inv (w.destroy th) := by
  have ho := h.object th hth
  have hp := h.phase
  rw [hs] at hp
  constructor
  case noFault => exact h.noFault
  case failed => rw [show (w.destroy th).failed = w.failed from rfl, hf]; exact nofun
  case phase => exact hp
  case heap =>
    obtain ⟨k, hk⟩ := h.heap
    rw [hs] at hk
    exact ⟨k, hk⟩
  case gone => exact ⟨fun _ => rfl, fun _ => rfl⟩
  case object => exact nofun
  case created => exact h.created
  case destroyed =>
    -- the thread was joined before, or is detached now, or there is none
    intro _
    show (if th.started ∧ !th.joined then w.released + 1 else w.released) = w.created
    have hrel := ho.released
    rw [h.created]
    by_cases hr : w.runner = .notCreated
    · have hst : ¬ th.started = true := by
        rw [ho.started, hs, hr]
        rintro (hc | hc)
        · cases hc
        · exact hc rfl
      have hjoin : ¬ th.joined = true := by
        intro hj
        rcases ho.joined hj with ⟨-, hg⟩ | hj
        · rw [hr] at hg; cases hg
        · rw [hs] at hj; cases hj
      rw [if_neg fun hc => hst hc.1, if_pos hr, hrel, if_neg fun hc => hjoin hc.1]
    · have hst : th.started = true := ho.started.mpr (.inr hr)
      rw [if_neg hr, hrel, hst, hs]
      cases th.joined <;> rfl
  case name => exact h.name
  case results =>
    have hresults := h.results
    rw [hs] at hresults
    exact hresults
  case calls => exact h.calls

end ThreadRun

end Windz
