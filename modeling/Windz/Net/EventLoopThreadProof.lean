import Windz.Net.EventLoopThread

/-!
# A `Quit` and the flag it sets

The thread publishes the pointer to its loop before it calls `Loop`, and `Loop` begins
by clearing `quit_`. So a `Quit` that comes in between is forgotten, and whoever joins
the thread waits for a loop that does not end. Behind that point nothing clears `quit_`
any more.
-/

namespace Windz

open Lib

/-! ## Steps of the loop -/

namespace EventLoop

theorem wakeUp_fields (w : EventLoop) : w.wakeUp.tid = w.tid ∧ w.wakeUp.quit = w.quit
    ∧ w.wakeUp.pc = w.pc ∧ w.wakeUp.threads = w.threads := by
  unfold wakeUp
  split <;> exact ⟨rfl, rfl, rfl, rfl⟩

/-- A thread in `QueueInLoop` or `Quit`. -/
def Label.caller : Label → Option ThreadId
  | .queueInLoop t | .afterQueue t | .quit t => some t
  | .loop | .epollWait _ | .epollReturns _ | .next => none

/-- What a call of thread `t` leaves alone. -/
theorem call_frame {w w' : EventLoop} {a : Label} {t : ThreadId} (ha : a.caller = some t)
    (h : w.step a = some w') :
    w'.tid = w.tid ∧ w'.pc = w.pc ∧ (w.quit = true → w'.quit = true)
      ∧ ∀ u, u ≠ t → w'.threads u = w.threads u := by
  cases a with
  | queueInLoop t' =>
    cases ha
    rw [step] at h
    split at h
    · obtain ⟨q, -, he⟩ := Option.map_eq_some_iff.mp h
      rw [← he]
      exact ⟨rfl, rfl, id, fun u hu => Function.update_of_ne hu _ _⟩
    · cases h
  | afterQueue t' =>
    cases ha
    rw [step, afterQueue] at h
    have hset : ∀ u, u ≠ t → (w.setThread t .idle).threads u = w.threads u :=
      fun u hu => Function.update_of_ne hu _ _
    obtain ⟨htid, hquit, hpc, hthreads⟩ := wakeUp_fields (w.setThread t .idle)
    split at h
    · cases h
    · dsimp only at h
      split at h
      · cases h
        exact ⟨htid, hpc, fun hq => hquit.trans hq, fun u hu => by rw [hthreads]; exact hset u hu⟩
      · cases h
        exact ⟨rfl, rfl, id, hset⟩
    · cases h
      exact ⟨htid, hpc, fun hq => hquit.trans hq, fun u hu => by rw [hthreads]; exact hset u hu⟩
  | quit t' =>
    cases ha
    rw [step] at h
    split at h
    · cases h
      unfold setQuit
      dsimp only
      split
      · exact ⟨rfl, rfl, fun _ => rfl, fun u hu => Function.update_of_ne hu _ _⟩
      · exact ⟨rfl, rfl, fun _ => rfl, fun _ _ => rfl⟩
    · cases h
  | _ => cases ha

theorem loopStep_keeps {w w' : EventLoop} (h : w.loopStep = some w') :
    w'.tid = w.tid ∧ w'.quit = w.quit := by
  unfold loopStep at h
  split at h
  case h_10 =>
    obtain ⟨p, -, he⟩ := Option.map_eq_some_iff.mp h
    rw [← he]
    exact ⟨rfl, rfl⟩
  all_goals cases h
  all_goals exact ⟨rfl, rfl⟩

/-- Only the call of `Loop` clears `quit_`. -/
theorem step_keeps {w w' : EventLoop} {a : Label} (ha : a ≠ .loop) (h : w.step a = some w') :
    w'.tid = w.tid ∧ (w.quit = true → w'.quit = true) := by
  cases a with
  | loop => exact absurd rfl ha
  | epollWait n =>
    rw [step] at h
    split at h
    · cases h; exact ⟨rfl, id⟩
    · cases h
  | epollReturns active =>
    rw [step] at h
    split at h
    · split at h
      · cases h; exact ⟨rfl, id⟩
      · cases h
    · cases h
  | next =>
    rw [step] at h
    split at h
    · obtain ⟨htid, hquit⟩ := loopStep_keeps h
      exact ⟨htid, fun hq => hquit.trans hq⟩
    · cases h
  | queueInLoop t => exact ⟨(call_frame rfl h).1, (call_frame rfl h).2.2.1⟩
  | afterQueue t => exact ⟨(call_frame rfl h).1, (call_frame rfl h).2.2.1⟩
  | quit t => exact ⟨(call_frame rfl h).1, (call_frame rfl h).2.2.1⟩

end EventLoop

namespace EventLoopThread

/-! ## Steps of the thread and its owner -/

/-- What a step does. -/
inductive ThreadStep (w : EventLoopThread) : Label → EventLoopThread → Prop where
  | start (ho : w.owner = .created) :
      ThreadStep w .start { w with owner := .waiting, pc := .publishing }
  | startReturns (ho : w.owner = .waiting) (hl : w.hasLoop = true) :
      ThreadStep w .startReturns { w with owner := .started, returned := true }
  | destroy (ho : w.owner = .created ∨ w.owner = .started) :
      ThreadStep w .destroy { w with owner := .testing }
  | testLoop (ho : w.owner = .testing) :
      ThreadStep w .testLoop { w with owner := if w.hasLoop then .quitting else .destroyed }
  | ownerQuit (ho : w.owner = .quitting) (hl : w.hasLoop = true) {loop : EventLoop}
      (h : w.loop.step (.quit w.ownerTid) = some loop) :
      ThreadStep w .ownerQuit { w with owner := .joining, loop }
  | join (ho : w.owner = .joining) (hi : w.loop.threads w.ownerTid = .idle)
      (hpc : w.pc = .finished) : ThreadStep w .join { w with owner := .destroyed }
  | publish (hpc : w.pc = .publishing) :
      ThreadStep w .publish { w with hasLoop := true, pc := .entering }
  | enterLoop (hpc : w.pc = .entering) {loop : EventLoop} (h : w.loop.step .loop = some loop) :
      ThreadStep w .enterLoop { w with pc := .looping, loop }
  | loopReturns (hpc : w.pc = .looping) (ho : w.loop.pc = .outside) :
      ThreadStep w .loopReturns { w with pc := .clearing }
  | clear (hpc : w.pc = .clearing) :
      ThreadStep w .clear { w with hasLoop := false, pc := .finished }
  | loop {a : EventLoop.Label} (hc : w.canStep a = true) {loop : EventLoop}
      (h : w.loop.step a = some loop) : ThreadStep w (.loop a) { w with loop }
  | quit {t : ThreadId} (hc : w.canCall t = true) {loop : EventLoop}
      (h : w.loop.step (.quit t) = some loop) : ThreadStep w (.quit t) { w with loop }

theorem step_cases {w w' : EventLoopThread} {a : Label} (h : w.step a = some w') :
    ThreadStep w a w' := by
  unfold step at h
  cases a with
  | start =>
    obtain ⟨ho, h⟩ := Option.ite_none_right_eq_some.mp h
    cases h
    exact .start ho
  | startReturns =>
    obtain ⟨ho, h⟩ := Option.ite_none_right_eq_some.mp h
    cases h
    exact .startReturns ho.1 ho.2
  | destroy =>
    obtain ⟨ho, h⟩ := Option.ite_none_right_eq_some.mp h
    cases h
    exact .destroy ho
  | testLoop =>
    obtain ⟨ho, h⟩ := Option.ite_none_right_eq_some.mp h
    cases h
    exact .testLoop ho
  | ownerQuit =>
    obtain ⟨ho, h⟩ := Option.ite_none_right_eq_some.mp h
    obtain ⟨loop, hl, he⟩ := Option.map_eq_some_iff.mp h
    rw [← he]
    exact .ownerQuit ho.1 ho.2 hl
  | join =>
    obtain ⟨ho, h⟩ := Option.ite_none_right_eq_some.mp h
    cases h
    exact .join ho.1 ho.2.1 ho.2.2
  | publish =>
    obtain ⟨hpc, h⟩ := Option.ite_none_right_eq_some.mp h
    cases h
    exact .publish hpc
  | enterLoop =>
    obtain ⟨hpc, h⟩ := Option.ite_none_right_eq_some.mp h
    obtain ⟨loop, hl, he⟩ := Option.map_eq_some_iff.mp h
    rw [← he]
    exact .enterLoop hpc hl
  | loopReturns =>
    obtain ⟨hpc, h⟩ := Option.ite_none_right_eq_some.mp h
    cases h
    exact .loopReturns hpc.1 hpc.2
  | clear =>
    obtain ⟨hpc, h⟩ := Option.ite_none_right_eq_some.mp h
    cases h
    exact .clear hpc
  | loop a =>
    obtain ⟨hc, h⟩ := Option.ite_none_right_eq_some.mp h
    obtain ⟨loop, hl, he⟩ := Option.map_eq_some_iff.mp h
    rw [← he]
    exact .loop hc hl
  | quit t =>
    obtain ⟨hc, h⟩ := Option.ite_none_right_eq_some.mp h
    obtain ⟨loop, hl, he⟩ := Option.map_eq_some_iff.mp h
    rw [← he]
    exact .quit hc hl

/-! ## The invariant -/

/-- `Loop` has yet to be called, or is running. -/
def LoopGoesOn (w : EventLoopThread) : Prop :=
  w.pc = .entering ∨ w.pc = .looping ∧ w.loop.pc ≠ .outside

/-- The step in which a `Quit` sets `quit_`. -/
def IsQuit : Label → Prop
  | .ownerQuit | .quit _ => True
  | _ => False

/-- The thread of the loop has published the pointer. -/
def Published (w : EventLoopThread) : Prop :=
  w.pc = .entering ∨ w.pc = .looping ∨ w.pc = .clearing ∨ w.pc = .finished

/-- The invariant of an `EventLoopThread`. -/
structure Inv (w : EventLoopThread) : Prop where
  tids : w.ownerTid ≠ w.loop.tid
  /-- Until it calls `Loop` the new thread does nothing at the loop. -/
  outside : w.pc ≠ .looping → w.loop.pc = .outside
  idle : w.pc = .notStarted ∨ w.pc = .publishing ∨ w.pc = .entering →
    w.loop.threads w.loop.tid = .idle
  published : w.hasLoop = true ∨ w.returned = true → Published w
  started : w.owner = .created → w.pc = .notStarted

theorem inv_init {tid ownerTid : ThreadId} (hne : ownerTid ≠ tid) : Inv (create tid ownerTid) := by
  refine ⟨hne, fun _ => rfl, fun _ => rfl, ?_, fun _ => rfl⟩
  rintro (h | h) <;> exact absurd h Bool.false_ne_true

/-- A call of another thread, or of the loop thread inside `Loop`, keeps the invariant. -/
theorem Inv.call {w : EventLoopThread} (h : Inv w) {a : EventLoop.Label} {t : ThreadId}
    (ha : a.caller = some t) {loop : EventLoop} (hs : w.loop.step a = some loop)
    (ht : t = w.loop.tid → w.pc = .looping ∨ w.loop.threads w.loop.tid ≠ .idle) :
    Inv { w with loop } := by
  obtain ⟨htid, hpc, -, hthreads⟩ := EventLoop.call_frame ha hs
  refine ⟨?_, fun hl => hpc.trans (h.outside hl), fun hearly => ?_, h.published, h.started⟩
  · show w.ownerTid ≠ loop.tid
    rw [htid]
    exact h.tids
  · have hidle := h.idle hearly
    have hne : w.loop.tid ≠ t := by
      intro he
      rcases ht he.symm with hl | hbusy
      · rw [show w.pc = .looping from hl] at hearly
        rcases hearly with he | he | he <;> cases he
      · exact hbusy hidle
    show loop.threads loop.tid = .idle
    rw [htid, hthreads _ hne]
    exact hidle

theorem canCall_looping {w : EventLoopThread} {t : ThreadId} (h : w.canCall t = true) :
    w.returned = true ∧ (t = w.loop.tid → w.pc = .looping) := by
  unfold canCall at h
  rw [decide_eq_true_eq] at h
  exact ⟨h.1, h.2.2⟩

/-- The owner goes on, and the rest stays. -/
theorem Inv.owner {w : EventLoopThread} (h : Inv w) {owner : LoopOwnerPc}
    (ho : owner ≠ .created) : Inv { w with owner } :=
  { h with started := fun he => absurd he ho }

/-- The new thread goes on: the owner has called `Start`. -/
theorem Inv.not_created {w : EventLoopThread} (h : Inv w) {pc : ThreadFuncPc} (hpc : w.pc = pc)
    (hne : pc ≠ .notStarted) : w.owner ≠ .created :=
  fun ho => hne (hpc.symm.trans (h.started ho))

theorem inv_loop {w : EventLoopThread} (h : Inv w) {a : EventLoop.Label}
    (hc : w.canStep a = true) {loop : EventLoop} (hl : w.loop.step a = some loop) :
    Inv { w with loop } := by
  have hinside : w.pc = .looping → a ≠ .loop → Inv { w with loop } := by
    intro hpc hne
    obtain ⟨htid, -⟩ := EventLoop.step_keeps hne hl
    refine ⟨?_, fun hn => absurd hpc hn, ?_, h.published, h.started⟩
    · show w.ownerTid ≠ loop.tid
      rw [htid]
      exact h.tids
    · show w.pc = _ ∨ w.pc = _ ∨ w.pc = _ → _
      rw [hpc]
      rintro (he | he | he) <;> cases he
  cases a with
  | queueInLoop t => exact h.call rfl hl fun he => .inl ((canCall_looping hc).2 he)
  | afterQueue t =>
    refine h.call rfl hl fun he => .inr fun hidle => ?_
    rw [EventLoop.step, EventLoop.afterQueue, he, hidle] at hl
    cases hl
  | loop => cases hc
  | quit t => cases hc
  | epollWait n => exact hinside (of_decide_eq_true hc) (by simp)
  | epollReturns active => exact hinside (of_decide_eq_true hc) (by simp)
  | next => exact hinside (of_decide_eq_true hc) (by simp)

theorem inv_step {w w' : EventLoopThread} {a : Label} (h : Inv w) (hs : w.step a = some w') :
    Inv w' := by
  cases step_cases hs with
  | start ho =>
    have hpc := h.started ho
    refine ⟨h.tids, fun _ => h.outside (by rw [hpc]; simp), fun _ => h.idle (.inl hpc), ?_,
      fun he => by cases he⟩
    intro hp
    have hpub := h.published hp
    unfold Published at hpub
    rw [hpc] at hpub
    simp at hpub
  | startReturns ho hl =>
    exact { h with
      published := fun _ => h.published (.inl hl)
      started := fun he => by cases he }
  | destroy ho => exact h.owner (by simp)
  | testLoop ho => exact h.owner (by split <;> simp)
  | ownerQuit ho hl hq =>
    have hi : Inv { w with owner := .joining } := h.owner (by simp)
    exact hi.call rfl hq fun he => absurd he h.tids
  | join ho hi hpc => exact h.owner (by simp)
  | publish hpc =>
    exact ⟨h.tids, fun _ => h.outside (by rw [hpc]; simp), fun _ => h.idle (.inr (.inl hpc)),
      fun _ => .inl rfl, fun ho => absurd ho (h.not_created hpc (by simp))⟩
  | @enterLoop hpc loop hl =>
    have htid : loop.tid = w.loop.tid := by
      rw [EventLoop.step] at hl
      split at hl
      · cases hl; rfl
      · cases hl
    refine ⟨?_, fun hne => absurd rfl hne, ?_, fun _ => .inr (.inl rfl),
      fun ho => absurd ho (h.not_created hpc (by simp))⟩
    · show w.ownerTid ≠ loop.tid
      rw [htid]
      exact h.tids
    · rintro (he | he | he) <;> cases he
  | loopReturns hpc hout =>
    refine ⟨h.tids, fun _ => hout, ?_, fun _ => .inr (.inr (.inl rfl)),
      fun ho => absurd ho (h.not_created hpc (by simp))⟩
    rintro (he | he | he) <;> cases he
  | clear hpc =>
    refine ⟨h.tids, fun _ => h.outside (by rw [hpc]; simp), ?_, fun _ => .inr (.inr (.inr rfl)),
      fun ho => absurd ho (h.not_created hpc (by simp))⟩
    rintro (he | he | he) <;> cases he
  | loop hc hl => exact inv_loop h hc hl
  | quit hc hl => exact h.call rfl hl fun he => .inl ((canCall_looping hc).2 he)

theorem inv_reachable {tid ownerTid : ThreadId} {w : EventLoopThread}
    (h : Reachable (machine tid ownerTid) (fun _ _ => True) w) : Inv w := by
  refine h.invariant (I := Inv) ?_ ?_
  · rintro w ⟨hw, hne⟩
    rw [hw]
    exact inv_init hne
  · intro w a w' _ hi _ hs
    exact inv_step hi hs

/-! ## When the flag is kept -/

/-- `Loop` has been called, and while it runs `quit_` is set. -/
def Kept (w : EventLoopThread) : Prop :=
  (w.pc = .looping ∧ w.loop.quit = true) ∨ w.pc = .clearing ∨ w.pc = .finished

theorem Kept.goesOn {w : EventLoopThread} (h : Kept w) (hl : LoopGoesOn w) : w.loop.quit = true := by
  rcases h with ⟨-, h⟩ | h | h
  · exact h
  · rcases hl with hl | ⟨hl, -⟩ <;> rw [h] at hl <;> cases hl
  · rcases hl with hl | ⟨hl, -⟩ <;> rw [h] at hl <;> cases hl

theorem Kept.loop {w : EventLoopThread} (h : Kept w) {loop : EventLoop}
    (hquit : w.loop.quit = true → loop.quit = true) : Kept { w with loop } := by
  rcases h with ⟨hpc, hq⟩ | h
  · exact .inl ⟨hpc, hquit hq⟩
  · exact .inr h

/-- **Behind the point where `Loop` clears it, nothing clears `quit_`.** -/
theorem Kept.step {w w' : EventLoopThread} {a : Label} (hi : Inv w) (h : Kept w)
    (hs : w.step a = some w') : Kept w' := by
  have hnot : ∀ {pc : ThreadFuncPc}, w.pc = pc → pc ≠ .looping → pc ≠ .clearing → pc ≠ .finished →
      Kept w' := by
    intro pc hpc hl hc hf
    rcases h with ⟨h, -⟩ | h | h
    · exact absurd (hpc.symm.trans h) hl
    · exact absurd (hpc.symm.trans h) hc
    · exact absurd (hpc.symm.trans h) hf
  cases step_cases hs with
  | start ho => exact hnot (hi.started ho) (by simp) (by simp) (by simp)
  | startReturns ho hl => exact h
  | destroy ho => exact h
  | testLoop ho => exact h
  | ownerQuit ho hl hq =>
    have hk : Kept { w with owner := .joining } := h
    exact hk.loop (EventLoop.step_keeps (by simp) hq).2
  | join ho hidle hpc => exact h
  | publish hpc => exact hnot hpc (by simp) (by simp) (by simp)
  | enterLoop hpc hl => exact hnot hpc (by simp) (by simp) (by simp)
  | loopReturns hpc hout => exact .inr (.inl rfl)
  | clear hpc => exact .inr (.inr rfl)
  | loop hc hl =>
    refine h.loop (EventLoop.step_keeps (fun ha => ?_) hl).2
    rw [ha] at hc
    cases hc
  | quit hc hl => exact h.loop (EventLoop.step_keeps (by simp) hl).2

/-- The step in which `Quit` sets the flag: the thread stays where it is. -/
theorem quit_cases {w w' : EventLoopThread} {a : Label} (hi : Inv w) (ha : IsQuit a)
    (hs : w.step a = some w') : Published w ∧ w'.pc = w.pc ∧ w'.loop.quit = true
      ∧ (w.pc = .entering → w'.loop.pc = .outside
        ∧ w'.loop.threads w'.loop.tid = .idle) := by
  have hset : ∀ {v : EventLoopThread} {t : ThreadId} {loop : EventLoop}, Inv v →
      v.loop.step (.quit t) = some loop → (v.pc = .entering → t ≠ v.loop.tid) →
      loop.quit = true ∧ (v.pc = .entering → loop.pc = .outside ∧ loop.threads loop.tid = .idle) := by
    intro v t loop hv hl ht
    obtain ⟨htid, hpc, -, hthreads⟩ := EventLoop.call_frame rfl hl
    refine ⟨?_, fun he => ⟨?_, ?_⟩⟩
    · rw [EventLoop.step] at hl
      split at hl
      · cases hl
        unfold EventLoop.setQuit
        dsimp only
        split <;> rfl
      · cases hl
    · rw [hpc]
      exact hv.outside (by rw [he]; simp)
    · rw [htid, hthreads _ (ht he).symm]
      exact hv.idle (.inr (.inr he))
  cases step_cases hs with
  | ownerQuit ho hl hq =>
    have hv : Inv { w with owner := .joining } := hi.owner (by simp)
    obtain ⟨hset, henter⟩ := hset hv hq fun _ => hi.tids
    exact ⟨hi.published (.inl hl), rfl, hset, henter⟩
  | quit hc hl =>
    obtain ⟨hret, htid⟩ := canCall_looping hc
    obtain ⟨hset, henter⟩ := hset hi hl fun hpc he => by
      have hl := htid he
      rw [hpc] at hl
      cases hl
    exact ⟨hi.published (.inr hret), rfl, hset, henter⟩
  | _ => exact ha.elim

/-- **When a `Quit` is remembered.** Whoever makes it and whatever happens then, `quit_` stays set
as long as the run of `Loop` goes on if and only if the thread was not between publishing the
pointer and the point where `Loop` clears `quit_`. -/
theorem quit_is_kept_iff {tid ownerTid : ThreadId} {w w₁ : EventLoopThread} {a : Label}
    (h : Reachable (machine tid ownerTid) (fun _ _ => True) w) (ha : IsQuit a)
    (hs : w.step a = some w₁) :
    (∀ as w', Run (machine tid ownerTid) (fun _ _ => True) w₁ as w' → LoopGoesOn w' →
      w'.loop.quit = true) ↔ w.pc ≠ .entering := by
  have hi := inv_reachable h
  obtain ⟨hpub, hpc, hquit, henter⟩ := quit_cases hi ha hs
  constructor
  · intro hall he
    -- the thread goes on: it enters `Loop`
    obtain ⟨hout, hidle⟩ := henter he
    have hstep : w₁.step .enterLoop
        = some { w₁ with pc := .looping, loop := { w₁.loop with quit := false, pc := .check } } := by
      rw [EventLoopThread.step, if_pos (hpc.trans he), stepLoop, EventLoop.step,
        if_pos ⟨hidle, hout⟩]
      rfl
    have hrun : Run (machine tid ownerTid) (fun _ _ => True) w₁ [.enterLoop] _ :=
      Run.one trivial hstep
    exact Bool.false_ne_true (hall _ _ hrun (.inr ⟨rfl, by simp⟩))
  · intro hne as w' hrun hl
    have hkept : Kept w₁ := by
      unfold Kept
      rw [hpc]
      rcases hpub with he | he | he
      · exact absurd he hne
      · exact .inl ⟨he, hquit⟩
      · exact .inr he
    have hrun' := hrun.invariant (I := fun u => Inv u ∧ Kept u) ⟨inv_step hi hs, hkept⟩
      fun u b u' hu _ hb => ⟨inv_step hu.1 hb, hu.2.step hu.1 hb⟩
    exact hrun'.2.goesOn hl

/-- The destructor asks a loop that runs to quit. -/
theorem quit_is_kept_iff_small : ∃ w w₁ : EventLoopThread, w.pc = .looping
    ∧ w.step .ownerQuit = some w₁
    ∧ ((∀ as w', Run (machine 1 0) (fun _ _ => True) w₁ as w' → LoopGoesOn w' →
      w'.loop.quit = true) ↔ w.pc ≠ .entering) := by
  have hexec : ((machine 1 0).exec (fun _ _ => True) (create 1 0)
      [.start, .publish, .startReturns, .enterLoop, .loop .next, .destroy, .testLoop]).map (fun w =>
        decide (w.pc = .looping) && (w.step .ownerQuit).isSome) = some true := by decide +kernel
  obtain ⟨w, hr, hp⟩ := Machine.exec_reachable (M := machine 1 0) ⟨rfl, by decide⟩ hexec
  rw [Bool.and_eq_true] at hp
  obtain ⟨w₁, hs⟩ := Option.isSome_iff_exists.mp hp.2
  have ha : IsQuit .ownerQuit := trivial
  exact ⟨w, w₁, of_decide_eq_true hp.1, hs, quit_is_kept_iff hr ha hs⟩

/-- The owner destroys a thread that has just been started: `Quit` comes before `Loop` clears the
flag, and then the loop waits for events while the owner waits in `Join`. -/
theorem quit_is_forgotten : ¬ ∀ w a w₁, Reachable (machine 1 0) (fun _ _ => True) w → IsQuit a →
    w.step a = some w₁ → ∀ as w', Run (machine 1 0) (fun _ _ => True) w₁ as w' → LoopGoesOn w' →
      w'.loop.quit = true := by
  intro hall
  have hexec : ((machine 1 0).exec (fun _ _ => True) (create 1 0)
      [.start, .publish, .startReturns, .destroy, .testLoop]).any (fun w =>
        (w.step .ownerQuit).any fun w₁ => ((machine 1 0).exec (fun _ _ => True) w₁
          [.loop (.afterQueue 0), .enterLoop, .loop .next, .loop (.epollWait 10000),
            .loop (.epollReturns [.wakeup]), .loop .next, .loop .next, .loop .next, .loop .next,
            .loop .next, .loop .next, .loop .next, .loop (.epollWait 10000)]).any fun w' =>
              decide (w'.pc = .looping ∧ w'.loop.pc = .waiting 10000 ∧ w'.loop.quit = false
                ∧ w'.loop.wakeupFd = 0 ∧ w'.owner = .joining)) = true := by decide +kernel
  obtain ⟨w, hw, hrest⟩ := (Option.any_eq_true _ _).mp hexec
  obtain ⟨w₁, hs, hrest⟩ := (Option.any_eq_true _ _).mp hrest
  obtain ⟨w', hw', hrest⟩ := (Option.any_eq_true _ _).mp hrest
  obtain ⟨hpc, hwait, hquit, -, -⟩ := of_decide_eq_true hrest
  have hr : Reachable (machine 1 0) (fun _ _ => True) w :=
    (Reachable.init (M := machine 1 0) ⟨rfl, by decide⟩).run (Machine.exec_run _ hw)
  have htrue := hall w .ownerQuit w₁ hr trivial hs _ w' (Machine.exec_run _ hw')
    (.inr ⟨hpc, by rw [hwait]; simp⟩)
  rw [hquit] at htrue
  exact Bool.false_ne_true htrue

end EventLoopThread

end Windz
