import Windz.Base.ThreadOwner

/-!
# A thread and its object

The new thread keeps the invariant too, in its function as well as before and behind it;
so in every run nothing is used behind its end, and nothing is left over.
-/

namespace Windz

open Lib Lib.Monitor

namespace ThreadRun

variable {w w' : ThreadRun} {th : Thread}

/-! ## The new thread -/

/-- It goes on, behind the count-down or not, and changes the `Thread` as given. -/
theorem Inv.run (h : Inv w) {runner : RunnerPc} (hne : w.runner ≠ .notCreated)
    (hnew : runner ≠ .notCreated) (hgone : w.runner ≠ .gone)
    (hp : inPhase w.starter runner = true) (hd : runner.hasData = true)
    {thread : Option Thread} {tName : NamePtr} {calls : Nat}
    (hcalls : calls = if runner.called then 1 else 0)
    (hname : tName = .data → runner.named = true) (hgo : thread = none ↔ w.starter = .destroyed)
    (hth : ∀ th', thread = some th' → ∃ th, w.thread = some th ∧ th'.started = th.started
      ∧ th'.joined = th.joined ∧ (runner ≠ .storing → th'.tid = w.runnerTid)
      ∧ LatchAt runner.counted (w.starter = .inWait) th'.latch) :
    Inv { w with thread, runner, tName, calls } := by
  constructor
  case noFault => exact h.noFault
  case failed => exact h.failed
  case phase => exact hp
  case heap =>
    obtain ⟨k, hk⟩ := h.heap
    have hold : w.runner.hasData = true := by
      cases hr : w.runner <;> first | rfl | exact absurd hr hne | exact absurd hr hgone
    unfold owned at hk ⊢
    rw [hold] at hk
    rw [hd]
    exact ⟨k, hk⟩
  case gone => exact hgo
  case object =>
    intro th' he
    obtain ⟨th, hold, hst, hj, htid, hlatch⟩ := hth th' he
    have ho := h.object th hold
    refine ⟨hlatch, ?_, fun _ => htid, fun hjoin => ?_, fun hs => hj.trans (ho.joining hs), ?_⟩
    · rw [hst]
      exact ⟨fun _ => .inr hnew, fun _ => ho.started.mpr (.inr hne)⟩
    · rcases ho.joined (hj.symm.trans hjoin) with ⟨-, hg⟩ | hs
      · exact absurd hg hgone
      · exact .inr hs
    · rw [hj]
      exact ho.released
  case created =>
    show w.created = if runner = .notCreated then 0 else 1
    rw [h.created, if_neg hne, if_neg hnew]
  case destroyed => exact h.destroyed
  case name => exact hname
  case results => exact h.results.trans ⟨fun hr => ⟨hnew, hr.2⟩, fun hr => ⟨hne, hr.2⟩⟩
  case calls => exact hcalls

theorem counted_ne {runner : RunnerPc} (hc : runner.counted = true) : runner ≠ .notCreated := by
  intro he
  rw [he] at hc
  cases hc

/-- What the object looks like to the new thread behind the count-down. -/
theorem Inv.object_counted (h : Inv w) (hc : w.runner.counted = true) (runner : RunnerPc)
    (hnew : runner.counted = true) (hth : w.thread = some th) :
    th.tid = w.runnerTid ∧ LatchAt runner.counted (w.starter = .inWait) th.latch := by
  have ho := h.object th hth
  refine ⟨ho.tid (counted_ne hc) fun hs => ?_, ?_⟩
  · rw [hs] at hc
    cases hc
  · rw [hnew, ← hc]
    exact ho.latch

/-- It goes on behind the count-down, away from the `Thread`. -/
theorem Inv.runApart (h : Inv w) {runner : RunnerPc} (hc : w.runner.counted = true)
    (hnew : runner.counted = true) (hgone : w.runner ≠ .gone) (hd : runner.hasData = true)
    {tName : NamePtr} {calls : Nat} (hcalls : calls = if runner.called then 1 else 0)
    (hname : tName = .data → runner.named = true) : Inv { w with runner, tName, calls } := by
  refine h.run (counted_ne hc) (counted_ne hnew) hgone (phase_counted h.phase hc hnew) hd
    hcalls hname h.gone ?_
  intro th hth
  obtain ⟨htid, hlatch⟩ := h.object_counted hc runner hnew hth
  exact ⟨th, hth, rfl, rfl, fun _ => htid, hlatch⟩

/-- While the owner waits the `Thread` is there. -/
theorem Inv.there (h : Inv w) (hs : w.starter.waits = true) : ∃ th, w.thread = some th := by
  cases hth : w.thread with
  | some th => exact ⟨th, rfl⟩
  | none =>
    rw [h.gone.mp hth] at hs
    cases hs

/-- Up to the count-down the owner waits. -/
theorem Inv.waits (h : Inv w) (he : w.runner.early = true) : w.starter.waits = true := by
  rcases phase_early h.phase he with hs | hs <;> rw [hs] <;> rfl

/-- It goes on up to the count-down, and changes the `Thread`. -/
theorem Inv.runAt (h : Inv w) (he : w.runner.early = true) {th th' : Thread} {runner : RunnerPc}
    (hth : w.thread = some th) (hnew : runner = .counting ∨ runner = .naming)
    (hst : th'.started = th.started) (hj : th'.joined = th.joined) (htid : th'.tid = w.runnerTid)
    (hlatch : LatchAt runner.counted (w.starter = .inWait) th'.latch) :
    Inv { w with thread := some th', runner } := by
  have hs := phase_early h.phase he
  have hne : w.runner ≠ .notCreated ∧ w.runner ≠ .gone ∧ w.runner.called = false
      ∧ w.runner.named = false := by
    cases hr : w.runner <;> rw [hr] at he <;> first
      | exact absurd he (by decide)
      | exact ⟨nofun, nofun, rfl, rfl⟩
  refine h.run hne.1 ?_ hne.2.1 ?_ ?_ ?_ ?_ ⟨nofun, ?_⟩ ?_
  · rcases hnew with hnew | hnew <;> rw [hnew] <;> exact nofun
  · rcases hnew with hnew | hnew <;> rcases hs with hs | hs <;> rw [hnew, hs] <;> rfl
  · rcases hnew with hnew | hnew <;> rw [hnew] <;> rfl
  · rw [h.calls, hne.2.2.1]
    rcases hnew with hnew | hnew <;> rw [hnew] <;> rfl
  · intro hn
    rw [h.name hn] at hne
    cases hne.2.2.2
  · intro hg
    rcases hs with hs | hs <;> rw [hs] at hg <;> cases hg
  · intro th'' he
    cases he
    exact ⟨th, hth, hst, hj, fun _ => htid, hlatch⟩

theorem owned_of_hasData (hd : w.runner.hasData = true) : owned w.starter w.runner = true := by
  unfold owned
  rw [hd, Bool.or_true]

/-- `delete data`, the last thing it does. -/
theorem Inv.deletes (h : Inv w) (hr : w.runner = .deleting) :
    Inv { w.deleteData with runner := .gone } := by
  have hd : w.runner.hasData = true := by rw [hr]; rfl
  have hc : w.runner.counted = true := by rw [hr]; rfl
  have hp : inPhase w.starter .gone = true := phase_counted h.phase hc rfl
  constructor
  case noFault => exact h.noFault
  case failed => exact h.failed
  case phase => exact hp
  case heap =>
    have hown : owned w.starter .gone = false := by
      cases hs : w.starter <;> rw [hs] at hp <;> first | rfl | cases hp
    rw [show owned w.deleteData.starter .gone = false from hown]
    exact h.deleted (owned_of_hasData hd)
  case gone => exact h.gone
  case object =>
    intro th hth
    have ho := h.object th hth
    obtain ⟨htid, hlatch⟩ := h.object_counted hc .gone rfl hth
    refine ⟨hlatch, ?_, fun _ _ => htid, fun hj => ?_, ho.joining, ho.released⟩
    · exact ⟨fun _ => .inr nofun, fun _ => ho.started.mpr (.inr (counted_ne hc))⟩
    · rcases ho.joined hj with ⟨-, hg⟩ | hs
      · rw [hr] at hg; cases hg
      · exact .inr hs
  case created =>
    show w.created = 1
    rw [h.created, if_neg (counted_ne hc)]
  case destroyed => exact h.destroyed
  case name =>
    intro hn
    have hnamed := h.name hn
    rw [hr] at hnamed
    cases hnamed
  case results => exact h.results.trans ⟨fun hr => ⟨nofun, hr.2⟩, fun hr => ⟨counted_ne hc, hr.2⟩⟩
  case calls =>
    show w.calls = 1
    rw [h.calls, hr]
    rfl

theorem Inv.runner (h : Inv w) (hw : w.runnerStep = some w') : Inv w' := by
  unfold ThreadRun.runnerStep at hw
  cases hr : w.runner with
  | notCreated | inFunc | gone => rw [hr] at hw; cases hw
  | storing =>
    have hd : w.runner.hasData = true := by rw [hr]; rfl
    have he : w.runner.early = true := by rw [hr]; rfl
    obtain ⟨th, hth⟩ := h.there (h.waits he)
    have hlatch := (h.object th hth).latch
    rw [hr] at hw hlatch
    dsimp only at hw
    rw [h.onData (owned_of_hasData hd), onThread, hth] at hw
    cases hw
    exact h.runAt he hth (.inl rfl) rfl rfl rfl hlatch
  | counting =>
    have hd : w.runner.hasData = true := by rw [hr]; rfl
    have he : w.runner.early = true := by rw [hr]; rfl
    obtain ⟨th, hth⟩ := h.there (h.waits he)
    have ho := h.object th hth
    have hlatch := ho.latch
    have htid : th.tid = w.runnerTid := ho.tid (by rw [hr]; exact nofun) (by rw [hr]; exact nofun)
    rw [hr] at hw hlatch
    dsimp only at hw
    rw [h.onData (owned_of_hasData hd), onThread, hth] at hw
    obtain ⟨⟨latch, r⟩, hstep, hw⟩ := Option.map_eq_some_iff.mp hw
    cases hw
    exact h.runAt he hth (.inr rfl) rfl rfl htid (hlatch.countDown hstep)
  | naming =>
    have hd : w.runner.hasData = true := by rw [hr]; rfl
    have hcalls := h.calls
    rw [hr] at hw hcalls
    dsimp only at hw
    rw [h.onData (owned_of_hasData hd)] at hw
    cases hw
    exact h.runApart (by rw [hr]; rfl) rfl (by rw [hr]; exact nofun) rfl hcalls fun _ => rfl
  | calling =>
    have hd : w.runner.hasData = true := by rw [hr]; rfl
    have hcalls := h.calls
    rw [hr] at hw hcalls
    dsimp only at hw
    rw [h.onData (owned_of_hasData hd)] at hw
    cases hw
    exact h.runApart (by rw [hr]; rfl) rfl (by rw [hr]; exact nofun) rfl
      (congrArg (· + 1) hcalls) fun _ => rfl
  | lastNaming =>
    have hcalls := h.calls
    rw [hr] at hw hcalls
    cases hw
    exact h.runApart (by rw [hr]; rfl) rfl (by rw [hr]; exact nofun) rfl hcalls nofun
  | deleting =>
    have hd : w.runner.hasData = true := by rw [hr]; rfl
    have hdel := h.deletes hr
    rw [hr] at hw
    dsimp only at hw
    rw [h.onData (owned_of_hasData hd)] at hw
    cases hw
    exact hdel

theorem Inv.funcReturns (h : Inv w) (hr : w.runner = .inFunc) :
    Inv { w with runner := .lastNaming } := by
  have hcalls := h.calls
  rw [hr] at hcalls
  exact h.runApart (by rw [hr]; rfl) rfl (by rw [hr]; exact nofun) rfl hcalls fun _ => rfl

/-! ## Runs -/

/-- The `Thread` is there for the owner unless it has destroyed it. -/
theorem Inv.onThread (h : Inv w) (hs : w.starter ≠ .destroyed) {next : Thread → Option ThreadRun}
    (hw : w.onThread next = some w') : ∃ th, w.thread = some th ∧ next th = some w' := by
  unfold ThreadRun.onThread at hw
  split at hw
  · rename_i th hth
    exact ⟨th, hth, hw⟩
  · rename_i hth
    exact absurd (h.gone.mp hth) hs

theorem inv_step (h : Inv w) {a : Label} (hw : w.step a = some w') : Inv w' := by
  unfold ThreadRun.step at hw
  split at hw
  · cases hw
  · rename_i hok
    have hf : w.failed = false := by
      cases hf : w.failed with
      | false => rfl
      | true => exact absurd (.inl hf) hok
    have hcounted : ∀ {th}, w.thread = some th →
        LatchAt w.runner.counted (w.starter = .inWait) th.latch := fun hth => (h.object _ hth).latch
    cases a with
    | start | join | destroy =>
      obtain ⟨hs, hw⟩ := Option.ite_none_right_eq_some.mp hw
      obtain ⟨th, hth, he⟩ := h.onThread (by rw [hs]; exact nofun) hw
      cases he
      first
        | exact h.start hf hs hth
        | exact h.join hf hs hth
        | exact h.destroy hf hs hth
    | pthreadCreate tid =>
      obtain ⟨hs, hw⟩ := Option.ite_none_right_eq_some.mp hw
      obtain ⟨th, hth, he⟩ := h.onThread (by rw [hs]; exact nofun) hw
      exact h.pthreadCreate hf hs hth he
    | wait =>
      obtain ⟨hs, hw⟩ := Option.ite_none_right_eq_some.mp hw
      obtain ⟨th, hth, he⟩ := h.onThread (by rw [hs]; exact nofun) hw
      have hlatch := hcounted hth
      rw [hs] at hlatch
      exact h.latch hf (.inl hs) hth (fun _ _ hstep => hlatch.wait hstep) he
    | resumeWait =>
      obtain ⟨hs, hw⟩ := Option.ite_none_right_eq_some.mp hw
      obtain ⟨th, hth, he⟩ := h.onThread (by rw [hs]; exact nofun) hw
      have hlatch := hcounted hth
      rw [hs] at hlatch
      exact h.latch hf (.inr hs) hth (fun _ _ hstep => hlatch.resume hstep) he
    | spurious =>
      obtain ⟨hs, hw⟩ := Option.ite_none_right_eq_some.mp hw
      obtain ⟨th, hth, he⟩ := h.onThread (by rw [hs]; exact nofun) hw
      have hlatch := hcounted hth
      rw [hs] at hlatch
      exact h.latch hf (.inr hs) hth (fun _ _ hstep => .inl (hlatch.spurious hstep)) he
    | joinReturns =>
      obtain ⟨⟨hs, hr⟩, hw⟩ := Option.ite_none_right_eq_some.mp hw
      cases hw
      exact h.joinReturns hf hs hr
    | runner => exact h.runner hw
    | funcReturns =>
      obtain ⟨hr, hw⟩ := Option.ite_none_right_eq_some.mp hw
      cases hw
      exact h.funcReturns hr

theorem inv_reachable {ok : ThreadRun → Label → Prop} (h : Reachable machine ok w) : Inv w := by
  refine h.invariant (I := Inv) ?_ fun w a w' _ hi _ hs => inv_step hi hs
  rintro _ ⟨named, rfl⟩
  exact inv_create named

/-- **Nothing is used behind its end, and nothing is left over.** In every run in which the owner
keeps to the assertions of `Start` and `Join`, may destroy the `Thread` whenever it is in none of
its functions, and `pthread_create` may fail: neither thread uses the `Thread` behind its
destructor or a `ThreadData` behind its `delete`, none is deleted twice, and `t_name` points to
one that is there; each is deleted by the time `Start` has failed or the new thread has ended; and
when the `Thread` is destroyed, the thread that was created is joined or detached, once. -/
theorem objects_outlive_uses (h : Reachable machine (fun _ _ => True) w) :
    w.fault = none
    ∧ (w.tName = .data → w.heap.getLast? = some true)
    ∧ w.heap.count true = (if owned w.starter w.runner then 1 else 0)
    ∧ w.created ≤ 1
    ∧ (w.starter = .destroyed → w.thread = none ∧ w.released = w.created) := by
  have hi := inv_reachable h
  obtain ⟨k, hk⟩ := hi.heap
  refine ⟨hi.noFault, fun hn => ?_, ?_, ?_, fun hs => ⟨hi.gone.mpr hs, hi.destroyed hs⟩⟩
  · have hd : w.runner.hasData = true := by
      have hnamed := hi.name hn
      cases hr : w.runner <;> rw [hr] at hnamed <;> first | rfl | exact absurd hnamed (by decide)
    rw [hk, owned_of_hasData hd, if_pos rfl, List.getLast?_append]
    rfl
  · have hnone : (List.replicate k false).count true = 0 := List.count_eq_zero.mpr (by simp)
    rw [hk, List.count_append, hnone, Nat.zero_add]
    split <;> rfl
  · rw [hi.created]
    split <;> decide

/-- A thread whose object is destroyed while its function runs, behind a `Start` that failed. -/
theorem objects_outlive_uses_small : ∃ w, Reachable machine (fun _ _ => True) w
    ∧ w.runner = .inFunc ∧ w.tName = .data ∧ w.fault = none ∧ w.thread = none
    ∧ w.heap.count true = 1 ∧ w.released = w.created := by
  have hinit : machine.init (create true) := ⟨true, rfl⟩
  have hexec : (machine.exec (fun _ _ => True) (create true)
      [.start, .pthreadCreate none, .start, .pthreadCreate (some 7), .runner, .wait, .runner,
        .resumeWait, .destroy, .runner, .runner]).map (fun w => decide (w.runner = .inFunc
          ∧ w.tName = .data ∧ w.starter = .destroyed)) = some true := by decide +kernel
  obtain ⟨w, hr, hp⟩ := Machine.exec_reachable hinit hexec
  obtain ⟨hrunner, hname, hstarter⟩ := of_decide_eq_true hp
  obtain ⟨hfault, -, hcount, -, hgone⟩ := objects_outlive_uses hr
  rw [hrunner, hstarter] at hcount
  exact ⟨w, hr, hrunner, hname, hfault, (hgone hstarter).1, hcount, (hgone hstarter).2⟩

end ThreadRun

end Windz
