import Windz.Base.ThreadProof

/-!
# `Start` returns behind a thread that runs

Up to the count-down the new thread can always go on, and behind it the owner returns from
`latch_.Wait()` in its next step.
-/

namespace Windz

open Lib

namespace ThreadRun

variable {w w' : ThreadRun}

/-- Steps of the new thread, and of the owner in `latch_.Wait()`. -/
def GoesOn (_ : ThreadRun) : Label → Prop
  | .runner | .wait | .resumeWait => True
  | _ => False

/-- Nothing has failed while the owner is in `Start`. -/
theorem Inv.ok (hi : Inv w) (hs : w.starter.waits = true) :
    ¬ (w.failed = true ∨ w.fault.isSome = true) := by
  rintro (hf | hf)
  · rw [hi.failed hf] at hs
    cases hs
  · rw [hi.noFault] at hf
    cases hf

/-- Behind the count-down the owner returns from `Start` in its next step. -/
theorem Inv.wait_returns (hi : Inv w) (hs : w.starter.waits = true)
    (hc : w.runner.counted = true) : ∃ a w', GoesOn w a ∧ machine.step w a = some w'
      ∧ w'.results = w.results ++ [true] := by
  have hok := hi.ok hs
  obtain ⟨th, hth⟩ := hi.there hs
  have hlatch := (hi.object th hth).latch
  rw [hc] at hlatch
  cases hst : w.starter with
  | beforeWait =>
    rw [hst] at hlatch
    obtain ⟨l', hl⟩ := hlatch.wait_enabled
    refine ⟨.wait, { w with
      thread := some { th with latch := l' }, starter := .outside
      results := w.results ++ [true] }, trivial, ?_, rfl⟩
    show w.step .wait = some _
    unfold ThreadRun.step ThreadRun.onThread ThreadRun.latchStep
    rw [if_neg hok]
    dsimp only
    rw [if_pos hst, hth]
    dsimp only
    rw [hl]
    rfl
  | inWait =>
    rw [hst] at hlatch
    obtain ⟨l', hl⟩ := hlatch.resume_enabled
    refine ⟨.resumeWait, { w with
      thread := some { th with latch := l' }, starter := .outside
      results := w.results ++ [true] }, trivial, ?_, rfl⟩
    show w.step .resumeWait = some _
    unfold ThreadRun.step ThreadRun.onThread ThreadRun.latchStep
    rw [if_neg hok]
    dsimp only
    rw [if_pos hst, hth]
    dsimp only
    rw [hl]
    rfl
  | outside | creating | joining | destroyed => rw [hst] at hs; cases hs

/-- Before it the new thread can go on. -/
theorem Inv.runner_goes_on (hi : Inv w) (he : w.runner.early = true) :
    ∃ w', machine.step w .runner = some w' ∧ w'.starter = w.starter ∧ w'.results = w.results
      ∧ ((w.runner = .storing ∧ w'.runner = .counting) ∨ w'.runner.counted = true) := by
  have hs := hi.waits he
  have hok := hi.ok hs
  obtain ⟨th, hth⟩ := hi.there hs
  have hd : w.runner.hasData = true := by
    cases hr : w.runner <;> rw [hr] at he <;> first | rfl | exact absurd he (by decide)
  have hdata : ∀ {next}, w.onData next = next := hi.onData (owned_of_hasData hd)
  have hstep : w.step .runner = w.runnerStep := if_neg hok
  cases hr : w.runner with
  | storing =>
    refine ⟨{ w with thread := some { th with tid := w.runnerTid }, runner := .counting }, ?_, rfl,
      rfl, .inl ⟨rfl, rfl⟩⟩
    show w.step .runner = some _
    rw [hstep]
    unfold ThreadRun.runnerStep ThreadRun.onThread
    rw [hr]
    dsimp only
    rw [hdata, hth]
  | counting =>
    have hlatch := (hi.object th hth).latch
    rw [hr] at hlatch
    obtain ⟨l', hl⟩ := hlatch.countDown_enabled
    refine ⟨{ w with thread := some { th with latch := l' }, runner := .naming }, ?_, rfl, rfl,
      .inr rfl⟩
    show w.step .runner = some _
    rw [hstep]
    unfold ThreadRun.runnerStep ThreadRun.onThread
    rw [hr]
    dsimp only
    rw [hdata, hth]
    dsimp only
    rw [hl]
    rfl
  | notCreated | naming | calling | inFunc | lastNaming | deleting | gone => rw [hr] at he; cases he

/-- Within two of its steps the new thread has counted down. -/
theorem Inv.counts_down (hi : Inv w) (hs : w.starter.waits = true) :
    ∃ as w', Run machine GoesOn w as w' ∧ as.length ≤ 2 ∧ Inv w' ∧ w'.starter = w.starter
      ∧ w'.results = w.results ∧ w'.runner.counted = true := by
  have hp := hi.phase
  by_cases hc : w.runner.counted = true
  · exact ⟨[], w, .nil, Nat.zero_le _, hi, rfl, rfl, hc⟩
  · have he : w.runner.early = true := by
      cases hst : w.starter <;> rw [hst] at hs hp <;> first
        | exact absurd hs (by decide)
        | (cases hr : w.runner <;> rw [hr] at hc hp <;> first
            | rfl | exact absurd rfl hc | exact absurd hp (by decide))
    obtain ⟨u, hu, hst, hres, hrun⟩ := hi.runner_goes_on he
    have hiu : Inv u := inv_step (a := .runner) hi hu
    rcases hrun with ⟨-, hru⟩ | hcu
    · obtain ⟨v, hv, hst', hres', hrun'⟩ := hiu.runner_goes_on (by rw [hru]; rfl)
      have hiv : Inv v := inv_step (a := .runner) hiu hv
      refine ⟨[.runner, .runner], v, (Run.one trivial hu).append (Run.one trivial hv),
        Nat.le_refl 2, hiv, hst'.trans hst, hres'.trans hres, ?_⟩
      exact hrun'.resolve_left fun hs => by rw [hs.1] at hru; cases hru
    · exact ⟨[.runner], u, Run.one trivial hu, by decide, hiu, hst, hres, hcu⟩

/-- **`Start` returns, and then the thread is there.** Whenever the owner waits in `Start`, three
steps at most, of the new thread and its own, let it return true, whatever happened before.
Behind such a `Start` the new thread has stored its id in the object and is on its way to its
function; while no call of `Start` has returned true the object is not started, so it may be
called again; the function is called at most once, and `Join` returns behind its end. -/
theorem start_means_running (h : Reachable machine (fun _ _ => True) w) :
    (w.starter.waits = true → ∃ as w', Run machine GoesOn w as w' ∧ as.length ≤ 3
      ∧ w'.results = w.results ++ [true])
    ∧ (true ∈ w.results → w.runner.counted = true
      ∧ ∀ th, w.thread = some th → th.started = true ∧ th.tid = w.runnerTid)
    ∧ (w.starter = .outside → true ∉ w.results →
      w.runner = .notCreated ∧ ∀ th, w.thread = some th → th.started = false)
    ∧ w.calls ≤ 1
    ∧ (∀ th, w.thread = some th → w.starter = .outside → th.joined = true →
      w.runner = .gone ∧ w.calls = 1) := by
  have hi := inv_reachable h
  have hp := hi.phase
  refine ⟨fun hs => ?_, fun hm => ?_, fun hs hm => ?_, ?_, fun th hth hs hj => ?_⟩
  · obtain ⟨as, u, hrun, hlen, hiu, hst, hres, hc⟩ := hi.counts_down hs
    obtain ⟨a, w', hok, hstep, hres'⟩ := hiu.wait_returns (by rw [hst]; exact hs) hc
    refine ⟨as ++ [a], w', hrun.tail hok hstep, ?_, by rw [hres', hres]⟩
    rw [List.length_append, List.length_singleton]
    omega
  · obtain ⟨hne, hw⟩ := hi.results.mp hm
    have hc : w.runner.counted = true := by
      cases hst : w.starter <;> rw [hst] at hw hp
      case joining => exact hp
      case outside | destroyed => exact counted_outside hp hne
      case creating => exact absurd (of_decide_eq_true hp) hne
      case beforeWait | inWait => cases hw
    refine ⟨hc, fun th hth => ⟨(hi.object th hth).started.mpr (.inr hne), ?_⟩⟩
    exact (hi.object_counted hc w.runner hc hth).1
  · have hr : w.runner = .notCreated := by
      by_contra hne
      exact hm (hi.results.mpr ⟨hne, by rw [hs]; rfl⟩)
    refine ⟨hr, fun th hth => ?_⟩
    cases hst : th.started with
    | false => rfl
    | true =>
      rcases (hi.object th hth).started.mp hst with hc | hne
      · rw [hs] at hc; cases hc
      · exact absurd hr hne
  · rw [hi.calls]
    split <;> decide
  · have hr : w.runner = .gone := by
      rcases (hi.object th hth).joined hj with ⟨-, hg⟩ | hj
      · exact hg
      · rw [hs] at hj; cases hj
    refine ⟨hr, ?_⟩
    rw [hi.calls, hr]
    rfl

/-- A thread that is joined, behind a `Start` that waited in vain once. -/
theorem start_means_running_small : ∃ w, Reachable machine (fun _ _ => True) w
    ∧ w.results = [true] ∧ w.runner = .gone ∧ w.calls = 1
    ∧ ∀ th, w.thread = some th → th.tid = 7 := by
  have hinit : machine.init (create false) := ⟨false, rfl⟩
  have hexec : (machine.exec (fun _ _ => True) (create false)
      [.start, .pthreadCreate (some 7), .wait, .spurious, .resumeWait, .runner, .runner,
        .resumeWait, .join, .runner, .runner, .funcReturns, .runner, .runner, .joinReturns]).map
          (fun w => decide (w.results = [true] ∧ w.starter = .outside ∧ w.runnerTid = 7
            ∧ w.thread.map (·.joined) = some true)) = some true := by decide +kernel
  obtain ⟨w, hr, hp⟩ := Machine.exec_reachable hinit hexec
  obtain ⟨hres, hstarter, htid, hjoined⟩ := of_decide_eq_true hp
  obtain ⟨th, hth, hj⟩ := Option.map_eq_some_iff.mp hjoined
  obtain ⟨-, hstarted, -, -, hjoin⟩ := start_means_running hr
  obtain ⟨hgone, hcalls⟩ := hjoin th hth hstarter hj
  refine ⟨w, hr, hres, hgone, hcalls, fun th' hth' => ?_⟩
  rw [((hstarted (by rw [hres]; decide)).2 th' hth').2, htid]

end ThreadRun

end Windz
