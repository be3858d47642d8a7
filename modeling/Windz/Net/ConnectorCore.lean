import Windz.Net.ConnectorSteps

/-!
# The channel and the functor of `ResetChannel`

The channel of a connector is there for the socket being connected, or because the
functor of `ResetChannel` has not run: one of the two, never both. `assert(!channel_)`
guards this, so it holds as long as that assertion does, and the assertion fails
exactly when `Connecting` comes before the functor.
-/

namespace Windz

open Lib

namespace ConnectorLoop

/-- What a frame on the stack says. -/
def FrameFits (l : ConnectorLoop) : ConnectorFrame → Prop
  | .connect | .retryTest | .restartTest => l.connector.state = .kDisconnected
  | .connected _ => l.connector.state = .kConnected ∧ l.opened = 0
  | .start | .stop | .retryTimer | .handleWrite | .handleError => True

/-- `channel_` is the registered channel of the last socket, waiting for it to become writable. -/
structure Attempts (c : Connector) (ch : ConnectorChannel) : Prop where
  fd : ch.fd + 1 = c.sockets
  registered : ch.channel.registered = true
  handlers : ch.channel.handlers = true
  writeEnabled : ch.channel.writeEnabled = true

/-- The invariant of a connector in its loop. -/
structure Core (l : ConnectorLoop) : Prop where
  /-- Only `HandleWrite` lies under another frame. -/
  tail : ∀ f ∈ l.connector.stack.tail, f = .handleWrite
  frames : ∀ f ∈ l.connector.stack, l.FrameFits f
  opened : l.opened ≤ 1 ∧ (l.opened ≠ 0 → l.connector.state = .kConnected)
  /-- There is a channel for an attempt, or as long as a functor of `ResetChannel` is to come. -/
  owed : l.queue.count .resetChannel + (if l.connector.state = .kConnecting then 1 else 0)
    = if l.connector.channel.isSome then 1 else 0
  attempt : ∀ ch, l.connector.channel = some ch → l.connector.state = .kConnecting →
    Attempts l.connector ch
  closed : ∀ ch, l.connector.channel = some ch → l.connector.state ≠ .kConnecting →
    ch.channel.registered = false ∧ ch.channel.handlers = false
  notNull : l.connector.failed ≠ some .nullChannel

theorem core_create (now : Timestamp) : Core (create now) where
  tail := by simp [create, Connector.create]
  frames := by simp [create, Connector.create]
  opened := by simp [create]
  owed := by simp [create, Connector.create]
  attempt := by simp [create, Connector.create]
  closed := by simp [create, Connector.create]
  notNull := by simp [create, Connector.create]

theorem Core.rest {l : ConnectorLoop} (h : Core l) {f : ConnectorFrame}
    {rest : List ConnectorFrame} (hs : l.connector.stack = f :: rest) :
    ∀ g ∈ rest, g = .handleWrite := by
  have htail := h.tail
  rw [hs] at htail
  exact htail

theorem Core.frame {l : ConnectorLoop} (h : Core l) {f : ConnectorFrame}
    {rest : List ConnectorFrame} (hs : l.connector.stack = f :: rest) : l.FrameFits f :=
  h.frames f (by rw [hs]; exact List.mem_cons_self)

theorem fits_handleWrite {l : ConnectorLoop} {rest : List ConnectorFrame}
    (h : ∀ g ∈ rest, g = .handleWrite) : ∀ g ∈ rest, l.FrameFits g := by
  intro g hg
  rw [h g hg]
  trivial

theorem fits_cons {l : ConnectorLoop} {f : ConnectorFrame} {rest : List ConnectorFrame}
    (hf : l.FrameFits f) (h : ∀ g ∈ rest, g = .handleWrite) : ∀ g ∈ f :: rest, l.FrameFits g :=
  List.forall_mem_cons.mpr ⟨hf, fits_handleWrite h⟩

theorem tail_handleWrite {rest : List ConnectorFrame} (h : ∀ g ∈ rest, g = .handleWrite) :
    ∀ g ∈ rest.tail, g = .handleWrite := fun g hg => h g (List.mem_of_mem_tail hg)

/-- A connection is open only in `kConnected`. -/
theorem Core.not_opened {l : ConnectorLoop} (h : Core l) (hst : l.connector.state ≠ .kConnected) :
    l.opened = 0 := by
  by_contra ho
  exact hst (h.opened.2 ho)

/-- An attempt has its channel. -/
theorem Core.has_channel {l : ConnectorLoop} (h : Core l)
    (hst : l.connector.state = .kConnecting) : l.connector.channel ≠ none := by
  intro hch
  have howed := h.owed
  rw [if_pos hst, hch] at howed
  simp at howed

/-- During an attempt no functor of `ResetChannel` is to come. -/
theorem Core.no_reset {l : ConnectorLoop} (h : Core l)
    (hst : l.connector.state = .kConnecting) : .resetChannel ∉ l.queue := by
  have howed := h.owed
  rw [if_pos hst] at howed
  rw [← List.count_eq_zero]
  split at howed <;> omega

/-- The handlers of the channel are set only during an attempt. -/
theorem Core.connecting {l : ConnectorLoop} (h : Core l)
    (hset : l.connector.handlersSet = true) : l.connector.state = .kConnecting := by
  obtain ⟨ch, hch, hh⟩ := (Option.any_eq_true _ _).mp hset
  by_contra hst
  exact Bool.false_ne_true ((h.closed ch hch hst).2.symm.trans hh)

/-- Outside of an attempt there is a channel exactly as long as a functor is to come. -/
theorem Core.channel_none_iff {l : ConnectorLoop} (h : Core l)
    (hst : l.connector.state ≠ .kConnecting) :
    l.connector.channel = none ↔ .resetChannel ∉ l.queue := by
  have howed := h.owed
  rw [if_neg hst] at howed
  rw [← List.count_eq_zero]
  cases hch : l.connector.channel with
  | none =>
    rw [hch] at howed
    simpa using howed
  | some ch =>
    rw [hch] at howed
    simp only [Option.isSome_some, if_true] at howed
    simp only [reduceCtorEq, false_iff]
    omega

/-- The stack and `start_` change, and with them the duration and the trace. -/
theorem Core.restack {l : ConnectorLoop} (h : Core l) {stack : List ConnectorFrame}
    {start : Bool} {duration : Duration} {trace : List ConnectorEvent}
    (htail : ∀ f ∈ stack.tail, f = .handleWrite) (hframes : ∀ f ∈ stack, l.FrameFits f) :
    Core { l with connector := { l.connector with
      start, stack, retryDuration := duration, trace } } where
  tail := htail
  frames := hframes
  opened := h.opened
  owed := h.owed
  attempt := fun ch hch hst => { h.attempt ch hch hst with }
  closed := h.closed
  notNull := h.notNull

/-- A frame is left. -/
theorem Core.pop {l : ConnectorLoop} (h : Core l) {f : ConnectorFrame}
    {rest : List ConnectorFrame} (hs : l.connector.stack = f :: rest) {duration : Duration}
    {trace : List ConnectorEvent} :
    Core { l with connector := { l.connector with
      stack := rest, retryDuration := duration, trace } } :=
  h.restack (tail_handleWrite (h.rest hs)) (fits_handleWrite (h.rest hs))

/-- An assertion fails that is not about the channel. -/
theorem Core.fail {l : ConnectorLoop} (h : Core l) {e : ConnectorAssert} (he : e ≠ .nullChannel) :
    Core { l with connector := { l.connector with failed := some e } } :=
  { h with
    attempt := fun ch hch hst => { h.attempt ch hch hst with }
    notNull := by simpa using he }

/-- An attempt ends: the channel is closed, and the functor queued. -/
theorem Core.endAttempt {l : ConnectorLoop} (h : Core l) {ch : ConnectorChannel}
    (hch : l.connector.channel = some ch) (hst : l.connector.state = .kConnecting)
    {state : ConnectorState} {stack : List ConnectorFrame} {trace : List ConnectorEvent}
    (hne : state ≠ .kConnecting) (htail : ∀ f ∈ stack.tail, f = .handleWrite)
    (hframes : ∀ f ∈ stack, FrameFits { l with connector := { l.connector with state } } f) :
    Core { l with
      connector := { l.connector with state, channel := some ch.reset, stack, trace }
      queue := l.queue ++ [.resetChannel] } := by
  have hopened := h.not_opened (by rw [hst]; simp)
  have howed := h.owed
  rw [if_pos hst, hch] at howed
  refine ⟨htail, hframes, ⟨h.opened.1, fun ho => absurd hopened ho⟩, ?_, ?_, ?_, h.notNull⟩
  · dsimp only
    rw [if_neg hne, List.count_append, List.count_singleton]
    simp only [Option.isSome_some, if_true, beq_self_eq_true] at howed ⊢
    omega
  · exact fun _ _ hc => absurd hc hne
  · intro ch' hch' _
    rw [← Option.some.inj hch']
    exact ⟨rfl, rfl⟩

/-- A socket was made and nothing came of it. -/
theorem Core.noAttempt {l : ConnectorLoop} (h : Core l)
    (hst : l.connector.state = .kDisconnected) {stack : List ConnectorFrame}
    {trace : List ConnectorEvent} (htail : ∀ f ∈ stack.tail, f = .handleWrite)
    (hframes : ∀ f ∈ stack, l.FrameFits f) :
    Core { l with connector := { l.connector with
      state := .kDisconnected, sockets := l.connector.sockets + 1, stack, trace } } := by
  have hsame : ({ l with connector := { l.connector with state := .kDisconnected } }
      : ConnectorLoop) = l := by
    rw [← hst]
  have h' := hsame ▸ h
  refine ⟨htail, ?_, h'.opened, h'.owed, ?_, h'.closed, h'.notNull⟩
  · intro f hf
    have hfits := hframes f hf
    rw [← hsame] at hfits
    exact hfits
  · exact fun _ _ hc => absurd hc (by simp)

/-- **A step inside the connector**, as long as `assert(!channel_)` holds. -/
theorem core_run {l : ConnectorLoop} {a : Connector.Label} {c : Connector}
    {out : Option ConnectorOutgoing} (h : Core l) (hs : ConnectorStep l.connector a c out) :
    c.failed = some .connecting ∨ Core ({ l with connector := c }.emit out) := by
  cases hs with
  | skip hstk hne => exact .inr (h.pop hstk)
  | @test f rest hstk ht hstart =>
    have hst : l.connector.state = .kDisconnected := by
      rcases ht with ⟨_, hst⟩ | hr
      · exact hst
      · have hfits := h.frame hstk
        rw [hr] at hfits
        exact hfits
    exact .inr (h.restack (h.rest hstk) (fits_cons hst (h.rest hstk)))
  | startFails hstk hst => exact .inr (h.fail (by simp))
  | timerFails hstk hst => exact .inr (h.fail (by simp))
  | noChannel hst hch => exact absurd hch (h.has_channel hst)
  | stop hstk hst hch =>
    exact .inr (h.endAttempt hch hst (by simp) (tail_handleWrite (h.rest hstk))
      (fits_handleWrite (h.rest hstk)))
  | runAfter hstk hstart =>
    exact .inr { h.pop hstk with }
  | @connCb socket rest hstk hstart =>
    have hfits := h.frame hstk
    refine .inr { h.pop hstk with
      frames := fits_handleWrite (h.rest hstk)
      opened := ?_ }
    show l.opened + 1 ≤ 1 ∧ (l.opened + 1 ≠ 0 → l.connector.state = .kConnected)
    exact ⟨by have := hfits.2; omega, fun _ => hfits.1⟩
  | closeConnected hstk hstart => exact .inr (h.pop hstk)
  | @handlerRetries a f rest ch hstk hset hch _ =>
    exact .inr (h.endAttempt hch (h.connecting hset) (by simp) (h.rest hstk)
      (fits_cons rfl (h.rest hstk)))
  | @connected rest ch hstk hset hch =>
    have hst := h.connecting hset
    exact .inr (h.endAttempt hch hst (by simp) (h.rest hstk)
      (fits_cons ⟨rfl, h.not_opened (by rw [hst]; simp)⟩ (h.rest hstk)))
  | @connecting errno rest hstk hc hch =>
    have hst : l.connector.state = .kDisconnected := h.frame hstk
    have hopened := h.not_opened (by rw [hst]; simp)
    have hreset := (h.channel_none_iff (by rw [hst]; simp)).mp hch
    refine .inr ⟨tail_handleWrite (h.rest hstk), fits_handleWrite (h.rest hstk),
      ⟨h.opened.1, fun ho => absurd hopened ho⟩, ?_, ?_, ?_, h.notNull⟩
    · simpa [emit] using List.count_eq_zero.mpr hreset
    · intro ch hch' _
      rw [← Option.some.inj hch']
      exact ⟨rfl, rfl, rfl, by simp⟩
    · exact fun _ _ hne => absurd rfl hne
  | connectingFails hstk hc hch => exact .inl rfl
  | connectRetries hstk hc =>
    have hst : l.connector.state = .kDisconnected := h.frame hstk
    exact .inr (h.noAttempt hst (h.rest hstk) (fits_cons hst (h.rest hstk)))
  | @connectCloses errno rest hstk hc =>
    have hst : l.connector.state = .kDisconnected := h.frame hstk
    have hcore : Core { l with connector := { l.connector with
        state := .kDisconnected
        sockets := l.connector.sockets + 1
        trace := l.connector.logged [.socket l.connector.sockets] ++ [.close l.connector.sockets]
        stack := rest } } :=
      h.noAttempt hst (tail_handleWrite (h.rest hstk)) (fits_handleWrite (h.rest hstk))
    rw [← hst] at hcore
    exact .inr hcore

/-- The loop thread comes into the connector. -/
theorem Core.enter {l : ConnectorLoop} (h : Core l) {start : Bool} {stack : List ConnectorFrame}
    (htail : ∀ f ∈ stack.tail, f = .handleWrite) (hframes : ∀ f ∈ stack, l.FrameFits f) :
    Core { l with connector := { l.connector with start, stack } } :=
  h.restack htail hframes

/-- The queue and what belongs to the loop change, but for the functors of `ResetChannel`. -/
theorem Core.requeue {l : ConnectorLoop} (h : Core l) {queue : List ConnectorFunctor}
    (hq : queue.count .resetChannel = l.queue.count .resetChannel) {phase : LoopPhase}
    {now : Timestamp} {timers : List Timestamp} :
    Core { l with queue, phase, now, timers } where
  tail := h.tail
  frames := h.frames
  opened := h.opened
  owed := by
    show queue.count .resetChannel + _ = _
    rw [hq]
    exact h.owed
  attempt := h.attempt
  closed := h.closed
  notNull := h.notNull

/-- **A step keeps this**, as long as `assert(!channel_)` holds. -/
theorem core_step {l l' : ConnectorLoop} {a : Label} (h : Core l) (hs : ConnectorLoopStep l a l') :
    l'.connector.failed = some .connecting ∨ Core l' := by
  cases hs with
  | run hs =>
    rcases core_run h hs with hf | hcore
    · refine .inl ?_
      rename_i out
      rcases out with _ | out
      · exact hf
      · cases out <;> exact hf
    · exact .inr hcore
  | start hstk => exact .inr (h.enter (by simp) (by simp [FrameFits]))
  | stop hstk => exact .inr (h.enter (by simp) (by simp [FrameFits]))
  | closed ho =>
    have hfits : ∀ f ∈ l.connector.stack,
        FrameFits { l with opened := l.opened - 1 } f := by
      intro f hf
      have hf := h.frames f hf
      cases f with
      | connected socket => exact ⟨hf.1, by have := hf.2; show l.opened - 1 = 0; omega⟩
      | _ => exact hf
    exact .inr { h with
      frames := hfits
      opened := ⟨by have := h.opened.1; show l.opened - 1 ≤ 1; omega, fun _ => h.opened.2 ho⟩ }
  | restart ho hstk =>
    have hst := h.opened.2 ho
    have howed := h.owed
    rw [if_neg (by rw [hst]; simp)] at howed
    refine .inr ⟨by simp, by simp [FrameFits, Connector.restart], ?_, howed, ?_, ?_, h.notNull⟩
    · have hone := h.opened.1
      exact ⟨by show l.opened - 1 ≤ 1; omega, fun hne => absurd (show l.opened - 1 = 0 by omega) hne⟩
    · exact fun _ _ hc => absurd hc (by simp [Connector.restart])
    · exact fun ch hch _ => h.closed ch hch (by rw [hst]; simp)
  | threadAssign start => exact .inr (h.enter h.tail h.frames)
  | threadQueue start =>
    have hcount : (l.queue ++ [if start then ConnectorFunctor.start else .stop]).count .resetChannel
        = l.queue.count .resetChannel := by
      cases start <;> simp [List.count_append]
    exact .inr (h.requeue hcount)
  | clock hle => exact .inr (h.requeue rfl)
  | phase hstk => exact .inr (h.requeue rfl)
  | @functor f g rest left hq hstk hg =>
    have hcount : rest.count .resetChannel = l.queue.count .resetChannel := by
      rw [hq]
      rcases hg with ⟨hg, _⟩ | ⟨hg, _⟩ <;> simp [hg]
    refine .inr ((h.requeue hcount).enter (by simp) ?_)
    intro f' hf'
    rw [List.mem_singleton.mp hf']
    rcases hg with ⟨_, hf⟩ | ⟨_, hf⟩ <;> rw [hf] <;> trivial
  | @reset rest left hq hstk =>
    -- the functor is the one that the channel waits for
    have hst : l.connector.state ≠ .kConnecting :=
      fun hst => h.no_reset hst (by rw [hq]; exact List.mem_cons_self)
    have howed := h.owed
    rw [hq, List.count_cons_self] at howed
    refine .inr ⟨by simp, by simp, h.opened, ?_, by simp, by simp, h.notNull⟩
    rw [if_neg hst] at howed
    show rest.count .resetChannel + (if l.connector.state = .kConnecting then 1 else 0) = 0
    rw [if_neg hst]
    split at howed <;> omega
  | timer hk hstk =>
    have hin : Core { l with connector := { l.connector with stack := [.retryTimer] } } :=
      h.enter (by simp) (by simp [FrameFits])
    exact .inr (hin.requeue rfl)
  | @event error writable hstk hr =>
    refine .inr (h.enter ?_ ?_)
    · cases error <;> cases writable <;> simp [Connector.eventFrames]
    · cases error <;> cases writable <;> simp [Connector.eventFrames, FrameFits]

theorem core_reachable {ok : ConnectorLoop → Label → Prop} {l : ConnectorLoop}
    (h : Reachable machine ok l) : l.connector.failed = some .connecting ∨ Core l := by
  refine h.invariant (I := fun l => l.connector.failed = some .connecting ∨ Core l) ?_ ?_
  · rintro l ⟨now, rfl⟩
    exact .inr (core_create now)
  · intro l a l' _ hi _ hs
    obtain ⟨hf, hstep⟩ := step_cases hs
    rcases hi with hfail | hcore
    · exact absurd (hf.symm.trans hfail) (by simp)
    · exact core_step hcore hstep

/-- The owner calls in the loop thread, and `Start` only in `kDisconnected`. -/
def InOrder (l : ConnectorLoop) : Label → Prop
  | .start => l.connector.state = .kDisconnected
  | .threadAssign _ | .threadQueue _ => False
  | .stop | .closed _ | .run _ | .clock _ | .next | .timer _ | .event _ _ => True

/-- `Connect` does not go on to `Connecting` while a functor of `ResetChannel` is to come. -/
def AfterReset (l : ConnectorLoop) : Label → Prop
  | .run (.connect errno) => connectCase errno = .connecting → .resetChannel ∉ l.queue
  | _ => True

instance (l : ConnectorLoop) (a : Label) : Decidable (l.InOrder a) := by
  cases a <;> unfold InOrder <;> infer_instance

instance (l : ConnectorLoop) (a : Label) : Decidable (l.AfterReset a) := by
  unfold AfterReset
  split <;> infer_instance

/-- `assert(!channel_)` has not failed in `Connecting`, and during an attempt `channel_` is the
registered channel of its socket, which no queued functor is going to reset. -/
def ChannelKept (l : ConnectorLoop) : Prop :=
  l.connector.failed ≠ some .connecting
    ∧ (l.connector.state = .kConnecting →
      (∃ ch, l.connector.channel = some ch ∧ Attempts l.connector ch)
        ∧ .resetChannel ∉ l.queue)

theorem Core.kept {l : ConnectorLoop} (h : Core l) (hf : l.connector.failed ≠ some .connecting) :
    l.ChannelKept := by
  refine ⟨hf, fun hst => ⟨?_, h.no_reset hst⟩⟩
  obtain ⟨ch, hch⟩ := Option.ne_none_iff_exists'.mp (h.has_channel hst)
  exact ⟨ch, hch, h.attempt ch hch hst⟩

/-- `assert(!channel_)` fails in the steps that come before the functor of `ResetChannel`. -/
theorem connecting_fails_iff {l l' : ConnectorLoop} {a : Label} (h : Core l)
    (hs : l.step a = some l') : l'.connector.failed = some .connecting ↔ ¬ l.AfterReset a := by
  obtain ⟨hf, hstep⟩ := step_cases hs
  -- other steps neither fail there nor are restricted
  have hother : l'.connector.failed ≠ some .connecting → l.AfterReset a →
      (l'.connector.failed = some .connecting ↔ ¬ l.AfterReset a) := by
    exact fun hne hok => ⟨fun he => absurd he hne, fun hn => absurd hok hn⟩
  have hnone : l.connector.failed ≠ some .connecting := by rw [hf]; simp
  cases hstep with
  | @run b c out hrun =>
    cases hrun with
    | noChannel hst hch => exact absurd hch (h.has_channel hst)
    | connecting hstk hc hch =>
      have hst : l.connector.state = .kDisconnected := h.frame hstk
      have hreset := (h.channel_none_iff (by rw [hst]; simp)).mp hch
      exact hother hnone fun _ => hreset
    | connectingFails hstk hc hch =>
      have hst : l.connector.state = .kDisconnected := h.frame hstk
      refine ⟨fun _ hok => ?_, fun _ => rfl⟩
      have hnull := (h.channel_none_iff (by rw [hst]; simp)).mpr (hok hc)
      exact absurd (hch.symm.trans hnull) (by simp)
    | connectRetries hstk hc =>
      exact hother hnone fun hc' => absurd (hc.symm.trans hc') (by simp)
    | connectCloses hstk hc =>
      exact hother hnone fun hc' => absurd (hc.symm.trans hc') (by simp)
    | handlerRetries hstk hset hch hframe =>
      refine hother hnone ?_
      rcases hframe with ⟨_, hb⟩ | ⟨_, status, hb⟩ <;> rw [hb] <;> trivial
    | startFails hstk hst => exact hother (by simp [emit]) trivial
    | timerFails hstk hst => exact hother (by simp [emit]) trivial
    | _ => exact hother hnone trivial
  | _ => exact hother hnone trivial

/-- **When the channel is that of the attempt.** For every run of the owner's calls in the loop
thread: the run is one in which `assert(!channel_)` has held and `channel_` is, during an attempt,
the registered channel of its socket, if and only if none of its steps goes on to `Connecting` while
a functor of `ResetChannel` is still queued. -/
theorem channel_kept_iff {l : ConnectorLoop} (h : Reachable machine InOrder l) :
    l.ChannelKept ↔ Reachable machine (fun l a => l.InOrder a ∧ l.AfterReset a) l := by
  constructor
  · intro hkept
    induction h with
    | init h0 => exact .init h0
    | @tail l l' a hr hok hs ih =>
      have hf := (step_cases hs).1
      have hcore : Core l := (core_reachable hr).resolve_left (by rw [hf]; simp)
      have hafter : l.AfterReset a := by
        by_contra hn
        exact hkept.1 ((connecting_fails_iff hcore hs).mpr hn)
      exact (ih (hcore.kept (by rw [hf]; simp))).tail ⟨hok, hafter⟩ hs
  · intro hr
    have hcore := core_reachable hr
    have hf : l.connector.failed ≠ some .connecting := by
      induction hr with
      | init h0 =>
        obtain ⟨now, rfl⟩ := h0
        simp [create, Connector.create]
      | @tail l l' a hr hok hs ih =>
        have hf := (step_cases hs).1
        have hcore : Core l := (core_reachable hr).resolve_left (by rw [hf]; simp)
        exact fun he => (connecting_fails_iff hcore hs).mp he hok.2
    exact (hcore.resolve_left hf).kept hf

/-- A socket fails, its functor runs, and the timer connects another one. -/
theorem channel_kept_small : ∃ l, Reachable machine InOrder l ∧ l.connector.sockets = 2
    ∧ l.connector.state = .kConnecting
    ∧ (l.ChannelKept ↔ Reachable machine (fun l a => l.InOrder a ∧ l.AfterReset a) l) := by
  have hexec : (machine.exec InOrder (create ⟨0⟩)
      [.start, .run .next, .run (.connect (some .EINPROGRESS)), .event false true,
        .run (.socket .error), .run .next, .next, .next, .next, .next, .clock ⟨100000000⟩, .next,
        .timer 0, .run .next, .run (.connect none)]).map (fun l => decide
          (l.connector.sockets = 2 ∧ l.connector.state = .kConnecting)) = some true := by
    decide +kernel
  obtain ⟨l, hr, hp⟩ := Machine.exec_reachable (M := machine) ⟨⟨0⟩, rfl⟩ hexec
  have hp := of_decide_eq_true hp
  exact ⟨l, hr, hp.1, hp.2, channel_kept_iff hr⟩

/-- A handler takes longer than the retry delay: the timer comes before the functor. -/
theorem channel_not_kept : ∃ l, Reachable machine InOrder l ∧ ¬ l.ChannelKept := by
  have hexec : (machine.exec InOrder (create ⟨0⟩)
      [.start, .run .next, .run (.connect (some .EINPROGRESS)), .event false true,
        .run (.socket .error), .run .next, .clock ⟨200000000⟩, .next, .timer 0, .run .next,
        .run (.connect (some .EINPROGRESS))]).map (fun l => decide
          (l.connector.failed = some .connecting)) = some true := by decide +kernel
  obtain ⟨l, hr, hp⟩ := Machine.exec_reachable (M := machine) ⟨⟨0⟩, rfl⟩ hexec
  exact ⟨l, hr, fun hk => hk.1 (of_decide_eq_true hp)⟩

end ConnectorLoop

end Windz
