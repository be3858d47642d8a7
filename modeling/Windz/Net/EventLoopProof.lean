import Windz.Net.EventLoopSteps

/-!
# No functor waits for a wake-up that does not come

Whether a push needs a `WakeUp` depends on where the loop thread is. The
invariant says of each functor in the queue why it will not be forgotten: the
eventfd is readable, or the thread that pushed it has its `WakeUp` before it, or
the loop thread is on its way to a batch that will hold it. The last reason ends
with the batch, and the batch ends only when each functor it was for has been
called; so when the loop thread comes to `epoll_wait`, one of the first two is
left.
-/

namespace Windz

open Lib

namespace EventLoop

/-- A functor in the queue will be called before `epoll_wait` is entered again. -/
def WillRun (w : EventLoop) (f : Functor) : Prop :=
  match w.pc with
  | .outside | .check | .poll | .waiting _ => False
  | .handling _ | .inHandler _ | .expiring | .calling | .sizing => True
  | .popping _ | .inFunctor _ => f < w.sized

/-- The thread that pushed the functor has its `WakeUp` before it. -/
def AwaitsWakeUp (w : EventLoop) (f : Functor) : Prop :=
  ∃ t, w.pushers[f]? = some t ∧ w.threads t = .pushed f

/-- The functor will not be forgotten. -/
def Covered (w : EventLoop) (f : Functor) : Prop :=
  w.wakeupFd ≠ 0 ∨ AwaitsWakeUp w f ∨ WillRun w f

/-- The loop thread is in a handler, a timer callback or a functor. -/
def InCallback (w : EventLoop) : Prop :=
  (∃ active, w.pc = .inHandler active) ∨ w.pc = .expiring ∨ ∃ left, w.pc = .inFunctor left

/-- Where `pending_functors_calling_` is set. -/
def flagSet : LoopPc → Bool
  | .sizing | .popping _ | .inFunctor _ => true
  | .outside | .check | .poll | .waiting _ | .handling _ | .inHandler _ | .expiring
  | .calling => false

/-- The loop's own thread pushes only inside `Loop`. -/
def PushesInside (w : EventLoop) : Label → Prop
  | .queueInLoop t => t = w.tid → w.pc ≠ .outside
  | .quit _ | .afterQueue _ | .loop | .epollWait _ | .epollReturns _ | .next => True

instance (w : EventLoop) (a : Label) : Decidable (PushesInside w a) :=
  match a with
  | .queueInLoop t => inferInstanceAs (Decidable (t = w.tid → w.pc ≠ .outside))
  | .quit _ | .afterQueue _ | .loop | .epollWait _ | .epollReturns _ | .next => .isTrue trivial

/-- The invariant of a loop and its callers. -/
structure Inv (w : EventLoop) : Prop where
  queue : w.pendingFunctors.Unbounded
  /-- Functors are called in the order of the pushes. -/
  order : w.called ++ w.pendingFunctors.queue = List.range w.pushers.length
  flag : w.pendingFunctorsCalling = flagSet w.pc
  /-- The rounds left are those for the functors that were there when the size was read. -/
  batch : ∀ left, w.pc = .popping left ∨ w.pc = .inFunctor left →
    w.called.length + left = w.sized ∧ w.sized ≤ w.pushers.length
  own : w.threads w.tid ≠ .idle → InCallback w
  covered : ∀ f ∈ w.pendingFunctors.queue, Covered w f

/-! ## Numbers of functors -/

theorem Inv.counted {w : EventLoop} (h : Inv w) : Counted w := ⟨h.queue, h.order, h.batch⟩

/-- The functors called are the first ones pushed. -/
theorem Inv.called_lt {w : EventLoop} (h : Inv w) {f : Functor} (hf : f ∈ w.called) :
    f < w.called.length := by
  have hcalled : w.called = List.range w.called.length := by
    have htake := congrArg (List.take w.called.length) h.order
    have hle : w.called.length ≤ w.pushers.length := by
      rw [← h.counted.lengths]
      exact Nat.le_add_right _ _
    rwa [List.take_left', List.take_range, Nat.min_eq_left hle] at htake
    rfl
  rw [hcalled] at hf
  exact List.mem_range.mp hf

/-! ## One step -/

/-- Inside `Loop`, user code runs in callbacks. -/
theorem inCallback_of_userCode {w : EventLoop} (hu : w.userCode = true)
    (hout : w.pc ≠ .outside) : InCallback w := by
  cases hpc : w.pc with
  | outside => exact absurd hpc hout
  | inHandler active => exact .inl ⟨active, hpc⟩
  | expiring => exact .inr (.inl hpc)
  | inFunctor left => exact .inr (.inr ⟨left, hpc⟩)
  | _ => rw [userCode, hpc] at hu; exact absurd hu Bool.false_ne_true

/-- Outside of callbacks the loop thread has no push of its own to finish. -/
theorem Inv.idle_of {w : EventLoop} (h : Inv w) (hnot : ¬ InCallback w) :
    w.threads w.tid = .idle :=
  Decidable.not_not.mp fun hne => hnot (h.own hne)

/-- A thread that was idle has pushed nothing that awaits its `WakeUp`. -/
theorem AwaitsWakeUp.other {w : EventLoop} {t : ThreadId} {f : Functor} (h : AwaitsWakeUp w f)
    (hidle : w.threads t = .idle) (pc : QueuePc) : AwaitsWakeUp (w.setThread t pc) f := by
  obtain ⟨u, hu, hpushed⟩ := h
  have hut : u ≠ t := by
    intro hut
    rw [hut, hidle] at hpushed
    exact QueuePc.noConfusion hpushed
  exact ⟨u, hu, (Function.update_of_ne hut _ _).trans hpushed⟩

theorem flag_next {w w' : EventLoop} (h : Inv w) (hs : NextStep w w') :
    w'.pendingFunctorsCalling = flagSet w'.pc := by
  have hflag := h.flag
  cases hs with
  | check hpc hpc' =>
    rw [hpc] at hflag
    rcases hpc' with he | he
    · rw [he]
      exact hflag
    · rw [he]
      exact hflag
  | handles hpc hread hpc' =>
    have hfalse : w.pendingFunctorsCalling = false := by
      obtain ⟨active, he | he⟩ := hpc
      · rw [hflag, he]
        rfl
      · rw [hflag, he]
        rfl
    rcases hpc' with he | ⟨active, he | he⟩
    · rw [he]
      exact hfalse
    · rw [he]
      exact hfalse
    · rw [he]
      exact hfalse
  | calls hpc => rfl
  | batchOver hpc => rfl
  | reads hpc => rw [hpc] at hflag; exact hflag
  | expired hpc => rw [hpc] at hflag; exact hflag
  | sizes hpc => rw [hpc] at hflag; exact hflag
  | pops hpc hq => rw [hpc] at hflag; exact hflag
  | functorReturns hpc => rw [hpc] at hflag; exact hflag

theorem flag_step {w w' : EventLoop} {a : Label} (h : Inv w) (hs : LoopStep w a w') :
    w'.pendingFunctorsCalling = flagSet w'.pc := by
  have hflag := h.flag
  cases hs with
  | queueInLoop hidle huser => exact hflag
  | quit hidle hthreads => exact hflag
  | afterQueue hpc hn => exact hflag
  | loop hidle hpc => rw [hpc] at hflag; exact hflag
  | epollWait hpc => rw [hpc] at hflag; exact hflag
  | epollReturns hpc => rw [hpc] at hflag; exact hflag
  | next hidle hs => exact flag_next h hs

theorem own_step {w w' : EventLoop} {a : Label} (h : Inv w) (hok : PushesInside w a)
    (hs : LoopStep w a w') (hown : w'.threads w'.tid ≠ .idle) : InCallback w' := by
  cases hs with
  | @queueInLoop t hidle huser =>
    change Function.update w.threads t _ w.tid ≠ .idle at hown
    by_cases ht : t = w.tid
    · exact inCallback_of_userCode (huser ht) (hok ht)
    · rw [Function.update_of_ne (Ne.symm ht)] at hown
      exact h.own hown
  | @quit t threads hidle hthreads =>
    rcases hthreads with he | ⟨ht, he⟩
    · rw [he] at hown
      exact h.own hown
    · rw [he] at hown
      change Function.update w.threads t _ w.tid ≠ .idle at hown
      rw [Function.update_of_ne (Ne.symm ht)] at hown
      exact h.own hown
  | @afterQueue t n hpc hn =>
    change Function.update w.threads t _ w.tid ≠ .idle at hown
    by_cases ht : t = w.tid
    · rw [ht, Function.update_self] at hown
      exact absurd rfl hown
    · rw [Function.update_of_ne (Ne.symm ht)] at hown
      exact h.own hown
  | loop hidle hpc => exact absurd hidle hown
  | epollWait hpc => exact absurd (h.idle_of (by simp [InCallback, hpc])) hown
  | epollReturns hpc => exact absurd (h.idle_of (by simp [InCallback, hpc])) hown
  | next hidle hs =>
    obtain ⟨hthreads, htid, -⟩ := hs.frame
    rw [hthreads, htid] at hown
    exact absurd hidle hown

/-- What keeps a functor covered when the loop thread goes on: the first two reasons stay, and the
third if it applies where it goes. -/
theorem Covered.goto {w : EventLoop} {f : Functor} (h : Covered w f) (pc : LoopPc)
    (hwill : WillRun w f → WillRun { w with pc } f) : Covered { w with pc } f := by
  rcases h with hc | hc | hc
  · exact .inl hc
  · exact .inr (.inl hc)
  · exact .inr (.inr (hwill hc))

theorem covered_next {w w' : EventLoop} (h : Inv w) (hs : NextStep w w') :
    ∀ f ∈ w'.pendingFunctors.queue, Covered w' f := by
  intro f hf
  cases hs with
  | check hpc hpc' =>
    refine (h.covered f hf).goto _ fun hw => ?_
    rw [WillRun, hpc] at hw
    exact hw.elim
  -- the eventfd is reset, but the batch is still to come
  | reads hpc => exact .inr (.inr trivial)
  | handles hpc hread hpc' =>
    refine .inr (.inr ?_)
    rcases hpc' with he | ⟨active, he | he⟩ <;> rw [he] <;> trivial
  | expired hpc => exact .inr (.inr trivial)
  | calls hpc => exact .inr (.inr trivial)
  | sizes hpc => exact .inr (.inr (h.counted.queued_bounds hf).2)
  | @pops left func rest hpc hq =>
    have hold : f ∈ w.pendingFunctors.queue := by
      rw [hq]
      exact List.mem_cons_of_mem func hf
    rcases h.covered f hold with hc | hc | hc
    · exact .inl hc
    · exact .inr (.inl hc)
    · rw [WillRun, hpc] at hc
      exact .inr (.inr hc)
  | batchOver hpc =>
    have hbatch := h.batch 0 (.inl hpc)
    rcases h.covered f hf with hc | hc | hc
    · exact .inl hc
    · exact .inr (.inl hc)
    · -- the batch is over, and all it was for are called
      rw [WillRun, hpc] at hc
      have hle : w.sized ≤ f := by
        rw [← hbatch.1]
        exact (h.counted.queued_bounds hf).1
      exact absurd hc (Nat.not_lt.mpr hle)
  | functorReturns hpc =>
    refine (h.covered f hf).goto _ fun hw => ?_
    rw [WillRun, hpc] at hw
    exact hw

/-- The loop thread leaves its `WakeUp` out only where the next batch is still to come. -/
theorem willRun_of_quiet {w : EventLoop} (h : Inv w) {t : ThreadId} (hpc : w.threads t ≠ .idle)
    (hquiet : ¬ w.wakesUp t = true) (f : Functor) : WillRun w f := by
  obtain ⟨ht, hcalling⟩ : t = w.tid ∧ w.pendingFunctorsCalling = false := by
    unfold wakesUp at hquiet
    cases hthread : w.threads t with
    | idle => exact absurd hthread hpc
    | quitting =>
      rw [hthread] at hquiet
      exact absurd rfl hquiet
    | pushed g =>
      rw [hthread] at hquiet
      dsimp only at hquiet
      rw [decide_eq_true_iff, not_or, Decidable.not_not] at hquiet
      exact ⟨hquiet.1, Bool.eq_false_iff.mpr hquiet.2⟩
  rw [ht] at hpc
  have hflag := h.flag
  rw [hcalling] at hflag
  rcases h.own hpc with ⟨active, hp⟩ | hp | ⟨left, hp⟩
  · rw [WillRun, hp]; trivial
  · rw [WillRun, hp]; trivial
  · rw [hp] at hflag
    exact absurd hflag Bool.false_ne_true

theorem covered_step {w w' : EventLoop} {a : Label} (h : Inv w) (hs : LoopStep w a w') :
    ∀ f ∈ w'.pendingFunctors.queue, Covered w' f := by
  intro f hf
  cases hs with
  | @queueInLoop t hidle huser =>
    rcases List.mem_append.mp hf with hf | hf
    · rcases h.covered f hf with hc | hc | hc
      · exact .inl hc
      · -- the pusher is another thread, for this one was idle
        obtain ⟨u, hu, hpushed⟩ := hc.other hidle (.pushed w.pushers.length)
        refine .inr (.inl ⟨u, ?_, hpushed⟩)
        exact (List.getElem?_append_left (h.counted.queued_bounds hf).2).trans hu
      · exact .inr (.inr hc)
    · rw [List.mem_singleton.mp hf]
      refine .inr (.inl ⟨t, ?_, Function.update_self ..⟩)
      exact List.getElem?_concat_length ..
  | @quit t threads hidle hthreads =>
    rcases h.covered f hf with hc | hc | hc
    · exact .inl hc
    · rcases hthreads with he | ⟨-, he⟩
      · rw [he]
        exact .inr (.inl hc)
      · rw [he]
        exact .inr (.inl (hc.other hidle .quitting))
    · exact .inr (.inr hc)
  | @afterQueue t n hpc hn =>
    by_cases hwakes : w.wakesUp t = true
    · -- whoever wakes the loop up covers all functors
      rw [if_pos hwakes] at hn
      exact .inl hn
    · exact .inr (.inr (willRun_of_quiet h hpc hwakes f))
  | loop hidle hpc =>
    have hcovered := (h.covered f hf).goto .check fun hw => by
      rw [WillRun, hpc] at hw
      exact hw.elim
    exact hcovered
  | epollWait hpc =>
    refine (h.covered f hf).goto _ fun hw => ?_
    rw [WillRun, hpc] at hw
    exact hw.elim
  | epollReturns hpc => exact .inr (.inr trivial)
  | next hidle hs => exact covered_next h hs f hf

theorem inv_step {w w' : EventLoop} {a : Label} (h : Inv w) (hok : PushesInside w a)
    (hs : w.step a = some w') : Inv w' := by
  have hstep := step_cases h.counted hs
  have hcounted := counted_step h.counted hstep
  exact
    { queue := hcounted.queue
      order := hcounted.order
      flag := flag_step h hstep
      batch := hcounted.batch
      own := own_step h hok hstep
      covered := covered_step h hstep }

theorem inv_init (tid : ThreadId) : Inv (create tid) where
  queue := BlockingQueue.create_unbounded
  order := rfl
  flag := rfl
  batch := by
    intro left hp
    rcases hp with hp | hp <;> exact LoopPc.noConfusion hp
  own := fun hown => absurd rfl hown
  covered := fun _ hf => absurd hf List.not_mem_nil

theorem inv_reachable {tid : ThreadId} {w : EventLoop}
    (h : Reachable (machine tid) PushesInside w) : Inv w := by
  refine h.invariant ?_ ?_
  · intro s hs
    rw [show s = create tid from hs]
    exact inv_init tid
  · intro s a s' _ hinv hok hs
    exact inv_step hinv hok hs

/-! ## The queue over whole runs -/

/-- **The queue never forgets a functor.** In every state: the functors called and then those in the
queue are all that were pushed, in the order of the pushes; in a batch, only functors that
were there when the size was read are called; `Pop` does not block; and at `epoll_wait`, for
each functor in the queue, the eventfd is readable or the pusher has its `WakeUp` before
it. -/
theorem loop_forgets_no_functor (tid : ThreadId) (w : EventLoop)
    (h : Reachable (machine tid) PushesInside w) :
    w.called ++ w.pendingFunctors.queue = List.range w.pushers.length
      ∧ (∀ left, w.pc = .popping left ∨ w.pc = .inFunctor left → ∀ f ∈ w.called, f < w.sized)
      ∧ (∀ left, w.pc = .popping (left + 1) → w.pendingFunctors.pop ≠ none)
      ∧ (w.pc = .poll ∨ (∃ waitms, w.pc = .waiting waitms) →
          ∀ f ∈ w.pendingFunctors.queue, w.wakeupFd ≠ 0 ∨ AwaitsWakeUp w f) := by
  have hinv := inv_reachable h
  refine ⟨hinv.order, ?_, ?_, ?_⟩
  · intro left hpc f hf
    have hbatch := (hinv.batch left hpc).1
    have hle : w.called.length ≤ w.sized := by
      rw [← hbatch]
      exact Nat.le_add_right _ _
    exact Nat.lt_of_lt_of_le (hinv.called_lt hf) hle
  · intro left hpc
    obtain ⟨f, rest, _, hpop⟩ := hinv.counted.pop hpc
    rw [hpop]
    exact Option.some_ne_none _
  · intro hpc f hf
    rcases hinv.covered f hf with hc | hc | hc
    · exact .inl hc
    · exact .inr hc
    · rcases hpc with hp | ⟨ms, hp⟩ <;> (rw [WillRun, hp] at hc; exact hc.elim)

/-- A functor of another thread is called; it pushes one itself, with which `epoll_wait` is
entered. -/
theorem loop_forgets_no_functor_small : ∃ w, Reachable (machine 0) PushesInside w
    ∧ w.called = [0] ∧ w.pendingFunctors.queue = [1] ∧ w.pc = .waiting 10000
    ∧ ∀ f ∈ w.pendingFunctors.queue, w.wakeupFd ≠ 0 ∨ AwaitsWakeUp w f := by
  have hexec : ((machine 0).exec PushesInside (create 0)
      [.loop, .next, .queueInLoop 7, .epollWait 20000, .afterQueue 7, .epollReturns [.wakeup],
        .next, .next, .next, .next, .next, .next, .queueInLoop 0, .afterQueue 0, .next, .next,
        .next, .epollWait 20000]).map (fun w =>
          decide (w.called = [0] ∧ w.pendingFunctors.queue = [1] ∧ w.pc = .waiting 10000))
        = some true := by decide +kernel
  obtain ⟨w, hr, hp⟩ := Machine.exec_reachable rfl hexec
  obtain ⟨hcalled, hqueue, hpc⟩ := of_decide_eq_true hp
  exact ⟨w, hr, hcalled, hqueue, hpc,
    (loop_forgets_no_functor 0 w hr).2.2.2 (.inr ⟨10000, hpc⟩)⟩

/-- A functor pushed between the entry of `CallPendingFunctors` and `Size()` is called in that
batch. -/
theorem pushed_before_size_runs : ¬ ∀ w, Reachable (machine 0) PushesInside w →
    ∀ left, w.pc = .popping left ∨ w.pc = .inFunctor left → ∀ f ∈ w.called, f < w.entered := by
  intro hall
  have hexec : ((machine 0).exec PushesInside (create 0)
      [.loop, .next, .epollWait 5, .epollReturns [], .next, .next, .next, .queueInLoop 7, .next,
        .next]).map (fun w =>
          decide (w.pc = .inFunctor 0 ∧ 0 ∈ w.called ∧ ¬ 0 < w.entered)) = some true := by
    decide +kernel
  obtain ⟨w, hr, hp⟩ := Machine.exec_reachable rfl hexec
  obtain ⟨hpc, hmem, hlate⟩ := of_decide_eq_true hp
  exact hlate (hall w hr 0 (.inr hpc) 0 hmem)

end EventLoop

end Windz
