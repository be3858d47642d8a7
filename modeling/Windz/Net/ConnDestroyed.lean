import Windz.Net.ConnLifecycle
import Windz.Net.ConnOnce

/-!
# A connection whose owner destroys it

The owner may call `DestroyConnection` before the connection has closed, and in the
loop thread he may do so from a callback of the connection itself, on top of what it
has still to do. From then on the connection does not call `close_cb_` any more: what
was waiting under the call finds the handlers of the channel cleared.

Each call of `close_cb_` that is answered leads to one call of `DestroyConnection`; it
is a functor, then a frame, then an event of the trace.
-/

namespace Windz

open Lib

namespace ConnWorld

/-! ## Draining is not interrupted -/

/-- Between the test of `kDisconnecting` and that of `kDisconnected`, only `Shutdown` runs. -/
def Drains (c : TcpConnection) : Prop :=
  .drainedClose ∈ c.stack → c.stack = [.drainedClose]
    ∨ c.stack = [.drainedShutdown, .drainedClose] ∨ c.stack = [.shutdownInLoop, .drainedClose]

/-- What stands on the second test. -/
theorem Drains.under {c : TcpConnection} (h : Drains c) {f : Frame} {rest : List Frame}
    (hstk : c.stack = f :: rest) (hmem : .drainedClose ∈ rest) :
    (f = .drainedShutdown ∨ f = .shutdownInLoop) ∧ rest = [.drainedClose] := by
  rcases h (by rw [hstk]; exact List.mem_cons_of_mem _ hmem) with he | he | he
  · rw [hstk] at he
    rw [(List.cons.inj he).2] at hmem
    exact absurd hmem (by simp)
  · rw [hstk] at he
    exact ⟨.inl (List.cons.inj he).1, (List.cons.inj he).2⟩
  · rw [hstk] at he
    exact ⟨.inr (List.cons.inj he).1, (List.cons.inj he).2⟩

/-- Any other frame on top may make way for frames that are not the second test. -/
theorem Drains.replace {c c' : TcpConnection} (h : Drains c) (new : List Frame) {f : Frame}
    {rest : List Frame} (hstk : c.stack = f :: rest) (hf : f ≠ .drainedShutdown ∧ f ≠ .shutdownInLoop)
    (hnew : .drainedClose ∉ new) (hstk' : c'.stack = new ++ rest) : Drains c' := by
  intro hmem
  rw [hstk'] at hmem
  rcases List.mem_append.mp hmem with hmem | hmem
  · exact absurd hmem hnew
  · rcases (h.under hstk hmem).1 with he | he
    · exact absurd he hf.1
    · exact absurd he hf.2

theorem Drains.pop {c c' : TcpConnection} (h : Drains c) {f : Frame} {rest : List Frame}
    (hstk : c.stack = f :: rest) (hstk' : c'.stack = rest) : Drains c' := by
  intro hmem
  rw [hstk'] at hmem ⊢
  exact .inl (h.under hstk hmem).2

/-- User code is not called in between. -/
theorem Drains.user {c : TcpConnection} (h : Drains c) (hu : c.atUser = true) :
    .drainedClose ∉ c.stack := by
  intro hmem
  unfold TcpConnection.atUser at hu
  rcases h hmem with he | he | he
  · rw [he] at hu
    exact Bool.false_ne_true hu
  · rw [he] at hu
    exact Bool.false_ne_true hu
  · rw [he] at hu
    exact Bool.false_ne_true hu

theorem Drains.push {c c' : TcpConnection} (h : Drains c) (hu : c.atUser = true) {f : Frame}
    (hf : f ≠ .drainedClose) (hstk : c'.stack = f :: c.stack) : Drains c' := by
  intro hmem
  rw [hstk] at hmem
  rcases List.mem_cons.mp hmem with he | hmem
  · exact absurd he.symm hf
  · exact absurd hmem (h.user hu)

theorem drains_of_not_mem {c : TcpConnection} (h : .drainedClose ∉ c.stack) : Drains c :=
  fun hmem => absurd hmem h

theorem drains_localStep {c c' : TcpConnection} {a : LocalLabel} {out : Option Outgoing}
    (hn : Nested c.stack) (h : Drains c) (hs : TcpConnection.LocalStep c a c' out) : Drains c' := by
  -- `SendInLoop` waits to buffer the rest
  have hbuffer : ∀ {f : Frame} {pre rest : List Frame} {call : SendCall} {remain : List OutByte}
      {c' : TcpConnection}, c.stack = f :: rest → f ≠ .drainedShutdown ∧ f ≠ .shutdownInLoop →
      pre = [] ∨ pre = [.user] → c'.stack = pre ++ .bufferRest call remain :: rest → Drains c' := by
    intro f pre rest call remain c' hstk hf hp hstk'
    refine h.replace (pre ++ [.bufferRest call remain]) hstk hf ?_ (by rw [hstk']; simp)
    rcases hp with hp | hp <;> simp [hp]
  cases hs with
  | control hc =>
    cases hc with
    | ignored hu => exact h
    | shutdown hu hs => exact h.push hu (by simp) rfl
    | forceClose hu hs => exact h.push hu (by simp) rfl
    | skip hstk hf => exact h.pop hstk rfl
    | forceCloseInLoop hstk hs => exact h.replace [.handleClose] hstk (by simp) (by simp) rfl
    | @drainedShutdown rest hstk hs =>
      intro hmem
      rcases List.mem_cons.mp hmem with he | hmem
      · exact absurd he (by simp)
      · exact .inr (.inr (by dsimp only; rw [(h.under hstk hmem).2]))
    | drainedClose hstk hs => exact h.replace [.handleClose] hstk (by simp) (by simp) rfl
    | eof hstk => exact h.replace [.handleClose] hstk (by simp) (by simp) rfl
    | notWritten hstk hne hp => exact hbuffer hstk (by simp) hp rfl
  | send hu hs => exact h.push hu (by simp) rfl
  | forceCloseAfter hu => exact h
  | establish hstk hs =>
    rw [TcpConnection.establishConnection, if_pos hs]
    dsimp only
    split
    · exact h.replace [.user] hstk (by simp) (by simp) rfl
    · exact h.pop hstk rfl
  | establishFails hstk hs => exact h
  | destroy hstk =>
    unfold TcpConnection.destroyConnection
    dsimp only
    split
    · exact h.replace [.user, .destroyClose] hstk (by simp) (by simp) rfl
    · exact h.replace [.destroyClose] hstk (by simp) (by simp) rfl
  | closeFails hstk => exact h
  | direct hstk hs hw ho => exact h.replace [.directWrite _] hstk (by simp) (by simp) rfl
  | queue hstk hs hne hp => exact hbuffer hstk (by simp) hp rfl
  | wrote hstk hshut hne hp hlow => exact hbuffer hstk (by simp) hp rfl
  | buffer hstk =>
    unfold TcpConnection.bufferRest
    exact h.pop hstk rfl
  | shutdownAssign hstk => exact h.replace [.shutdownInLoop] hstk (by simp) (by simp) rfl
  | handleCloseFails hstk hs => exact h
  | handleRead hstk => exact h.replace [.readSocket] hstk (by simp) (by simp) rfl
  | data hstk => exact h.replace [.user] hstk (by simp) (by simp) rfl
  | handleWrite hstk hp =>
    rcases hp with ⟨hp, _⟩ | ⟨hp, _⟩
    · exact h.pop hstk (by rw [hp]; rfl)
    · exact h.replace [.writeOutput] hstk (by simp) (by simp) (by rw [hp])
  | drained hstk hshut hout hlow =>
    -- `writeOutput` is the last frame
    rw [hstk] at hn
    rw [hn.alone fun _ hg => hg]
    exact fun _ => .inr (.inl rfl)
  | _ hstk => exact h.pop hstk rfl

/-! ## Behind `DestroyConnection` -/

/-- A frame that comes to nothing in a connection that is disconnected, its handlers being
cleared. -/
def Harmless : Frame → Prop
  | .directWrite _ | .shutdownAssign | .readSocket | .writeOutput | .drainedShutdown
  | .drainedClose | .handleClose => False
  | .user | .establishConnection | .destroyConnection | .destroyClose | .sendInLoop _
  | .bufferRest _ _ | .shutdownInLoop | .forceCloseAssign | .forceCloseInLoop | .handleError
  | .handleRead | .handleWrite => True

/-- `DestroyConnection` has disconnected the connection and called `connection_cb_`. -/
structure Finished (c : TcpConnection) : Prop where
  state : c.state = .kDisconnected
  frames : ∀ f ∈ c.stack, Harmless f
  /-- The handlers are cleared, or that comes next. -/
  handlers : c.channel.handlers = false
    ∨ ∃ rest, c.stack = .destroyClose :: rest ∨ c.stack = .user :: .destroyClose :: rest

theorem Finished.closed {c : TcpConnection} (h : Finished c) : c.isOpen = false := by
  unfold TcpConnection.isOpen
  rw [h.state]
  rfl

theorem Finished.rest {c : TcpConnection} (h : Finished c) {f : Frame} {rest : List Frame}
    (hstk : c.stack = f :: rest) : ∀ g ∈ rest, Harmless g :=
  fun g hg => h.frames g (by rw [hstk]; exact List.mem_cons_of_mem _ hg)

/-- A frame is left. -/
theorem Finished.pop {c c' : TcpConnection} (h : Finished c) {f : Frame} {rest : List Frame}
    (hstk : c.stack = f :: rest) (hf : f ≠ .destroyClose) (hs : c'.state = .kDisconnected)
    (hstk' : c'.stack = rest) (hh : c'.channel.handlers = c.channel.handlers) : Finished c' := by
  refine ⟨hs, by rw [hstk']; exact h.rest hstk, ?_⟩
  rcases h.handlers with hc | ⟨r, he | he⟩
  · exact .inl (hh.trans hc)
  · rw [hstk] at he
    exact absurd (List.cons.inj he).1 hf
  · rw [hstk] at he
    exact .inr ⟨r, .inl (hstk'.trans (List.cons.inj he).2)⟩

theorem finished_destroy {c : TcpConnection} {rest : List Frame}
    (hrest : ∀ f ∈ rest, Harmless f) : Finished (c.destroyConnection rest) := by
  unfold TcpConnection.destroyConnection
  dsimp only
  split
  · exact ⟨rfl, List.forall_mem_cons.mpr ⟨trivial, List.forall_mem_cons.mpr ⟨trivial, hrest⟩⟩,
      .inr ⟨rest, .inr rfl⟩⟩
  · exact ⟨rfl, List.forall_mem_cons.mpr ⟨trivial, hrest⟩, .inr ⟨rest, .inl rfl⟩⟩

/-- A cleared handler does nothing. -/
theorem handler_skips {c c' : TcpConnection} {f : Frame} {rest : List Frame}
    {out : Option Outgoing} (hstk : c.stack = f :: rest) (hf : f = .handleRead ∨ f = .handleWrite)
    (hh : c.channel.handlers = false) (hs : c.localStep .next = some (c', out)) :
    c'.stack = rest ∧ c'.trace = c.trace := by
  rcases hf with hf | hf <;>
    simp only [TcpConnection.localStep, TcpConnection.next, hstk, hf, hh, Bool.false_eq_true,
      if_false, Option.some.injEq, Prod.mk.injEq] at hs <;>
    exact ⟨by rw [← hs.1], by rw [← hs.1]⟩

/-- **A step inside a finished connection.** -/
theorem finished_localStep {c c' : TcpConnection} {a : LocalLabel} {out : Option Outgoing}
    (h : Finished c) (hl : c.localStep a = some (c', out)) :
    Finished c' ∧ out ≠ some .closeCb := by
  have hno : ∀ {f : Frame} {rest : List Frame} {p : Prop}, c.stack = f :: rest →
      ¬ Harmless f → p :=
    fun hstk hf => absurd (h.frames _ (by rw [hstk]; exact List.mem_cons_self)) hf
  have hstate : ∀ {s : ConnState} {p : Prop}, c.state = s → s ≠ .kDisconnected → p :=
    fun he hne => absurd (he.symm.trans h.state) hne
  -- a handler can only be left
  have hcleared : ∀ {f : Frame} {rest : List Frame}, c.stack = f :: rest →
      f = .handleRead ∨ f = .handleWrite → c.channel.handlers = false := by
    intro f rest hstk hf
    rcases h.handlers with hc | ⟨r, he | he⟩
    · exact hc
    · rw [hstk] at he
      rcases hf with hf | hf <;> exact absurd (hf.symm.trans (List.cons.inj he).1) (by simp)
    · rw [hstk] at he
      rcases hf with hf | hf <;> exact absurd (hf.symm.trans (List.cons.inj he).1) (by simp)
  cases TcpConnection.localStep_cases hl with
  | control hc =>
    refine ⟨?_, by simp⟩
    cases hc with
    | ignored hu => exact h
    | shutdown hu hs => exact hstate hs (by simp)
    | forceClose hu hs => exact absurd (h.closed.symm.trans hs) (by simp)
    | @skip a f rest hstk hf =>
      refine h.pop hstk ?_ h.state rfl rfl
      rintro rfl
      exact hf
    | forceCloseInLoop hstk hs => exact absurd (h.closed.symm.trans hs) (by simp)
    | drainedShutdown hstk hs => exact hno hstk id
    | drainedClose hstk hs => exact hno hstk id
    | eof hstk => exact hno hstk id
    | notWritten hstk hne hpre => exact hno hstk id
  | send hu hs => exact hstate hs (by simp)
  | forceCloseAfter hu => exact ⟨h, by simp⟩
  | establish hstk hs => exact hstate hs (by simp)
  | establishFails hstk hs => exact ⟨⟨h.state, h.frames, h.handlers⟩, by simp⟩
  | destroy hstk => exact ⟨finished_destroy (h.rest hstk), by simp⟩
  | destroyClose hstk => exact ⟨⟨h.state, h.rest hstk, .inl rfl⟩, by simp⟩
  | closeFails hstk => exact ⟨⟨h.state, h.frames, h.handlers⟩, by simp⟩
  | discard hstk hs => exact ⟨h.pop hstk (by simp) h.state rfl rfl, by simp⟩
  | direct hstk hs => exact absurd h.state hs
  | queue hstk hs => exact absurd h.state hs
  | queueEmpty hstk hs => exact absurd h.state hs
  | buffer hstk =>
    refine ⟨h.pop hstk (by simp) ?_ ?_ ?_, by simp⟩
    · unfold TcpConnection.bufferRest
      dsimp only
      split <;> exact h.state
    · unfold TcpConnection.bufferRest
      rfl
    · unfold TcpConnection.bufferRest
      dsimp only
      split <;> rfl
  | shut hstk hw => exact ⟨h.pop hstk (by simp) h.state rfl rfl, by simp⟩
  | forceCloseAssign hstk => exact ⟨h.pop hstk (by simp) rfl rfl rfl, by simp⟩
  | handleRead hstk =>
    have hskip := (handler_skips hstk (.inl rfl) (hcleared hstk (.inl rfl)) hl).1
    exact absurd hskip (by simp)
  | handleWrite hstk hpre =>
    have htrace := (handler_skips hstk (.inr rfl) (hcleared hstk (.inr rfl)) hl).2
    exact absurd htrace (by simp [TcpConnection.logged])
  | _ hstk => exact hno hstk id

/-! ## Calls of `DestroyConnection` -/

/-- `DestroyConnection` is neither called nor run. -/
def SameDestroys (c c' : TcpConnection) : Prop :=
  c'.trace.count .destroyConnection = c.trace.count .destroyConnection
    ∧ c'.stack.count .destroyConnection = c.stack.count .destroyConnection

theorem sameDestroys_replace {c c' : TcpConnection} (new : List Frame) {f : Frame}
    {rest : List Frame} (hstk : c.stack = f :: rest) (hf : f ≠ .destroyConnection)
    (hnew : .destroyConnection ∉ new) (hstk' : c'.stack = new ++ rest)
    (ht : c'.trace.count .destroyConnection = c.trace.count .destroyConnection) :
    SameDestroys c c' := by
  refine ⟨ht, ?_⟩
  rw [hstk', hstk, List.count_append, List.count_eq_zero.mpr hnew, List.count_cons_of_ne hf,
    Nat.zero_add]

theorem sameDestroys_push {c c' : TcpConnection} {f : Frame} (hf : f ≠ .destroyConnection)
    (hstk : c'.stack = f :: c.stack) (ht : c'.trace = c.trace) : SameDestroys c c' :=
  ⟨by rw [ht], by rw [hstk, List.count_cons_of_ne hf]⟩

theorem count_logged {c : TcpConnection} {e : ConnEvent} (he : e ≠ .destroyConnection) :
    (c.logged e).count .destroyConnection = c.trace.count .destroyConnection := by
  rw [TcpConnection.logged, List.count_append, List.count_singleton, if_neg (by simpa using he)]
  rfl

/-- **`DestroyConnection` runs, or nothing of it changes**; no step inside the connection calls
it. -/
theorem destroys_localStep {c c' : TcpConnection} {a : LocalLabel} {out : Option Outgoing}
    (h : TcpConnection.LocalStep c a c' out) :
    (∃ rest, c.stack = .destroyConnection :: rest ∧ c' = c.destroyConnection rest ∧ out = none)
      ∨ SameDestroys c c' ∧ ∀ f, out = some (.queueInLoop f) → f ≠ .destroyConnection := by
  have hbuffer : ∀ {f : Frame} {pre rest : List Frame} {call : SendCall} {remain : List OutByte}
      {c' : TcpConnection}, c.stack = f :: rest → f ≠ .destroyConnection →
      pre = [] ∨ pre = [.user] → c'.stack = pre ++ .bufferRest call remain :: rest →
      c'.trace = c.trace → SameDestroys c c' := by
    intro f pre rest call remain c' hstk hf hp hstk' ht
    refine sameDestroys_replace (pre ++ [.bufferRest call remain]) hstk hf ?_
      (by rw [hstk']; simp) (by rw [ht])
    rcases hp with hp | hp <;> simp [hp]
  have hpop : ∀ {f : Frame} {rest : List Frame} {c' : TcpConnection}, c.stack = f :: rest →
      f ≠ .destroyConnection → c'.stack = rest → c'.trace = c.trace → SameDestroys c c' :=
    fun hstk hf hstk' ht => sameDestroys_replace [] hstk hf (by simp) hstk' (by rw [ht])
  have hlow : ∀ {low : Option Outgoing}, low = none ∨ low = some (.queueInLoop .lowWatermark) →
      ∀ f, low = some (.queueInLoop f) → f ≠ .destroyConnection := by
    intro low hlow f hf
    rcases hlow with hl | hl
    · rw [hl] at hf
      exact absurd hf (by simp)
    · rw [hl] at hf
      rw [← Outgoing.queueInLoop.inj (Option.some.inj hf)]
      simp
  cases h with
  | control hc =>
    refine .inr ⟨?_, by simp⟩
    cases hc with
    | ignored hu => exact ⟨rfl, rfl⟩
    | shutdown hu hs => exact sameDestroys_push (by simp) rfl rfl
    | forceClose hu hs => exact sameDestroys_push (by simp) rfl rfl
    | skip hstk hf =>
      refine hpop hstk ?_ rfl rfl
      rintro rfl
      exact hf
    | forceCloseInLoop hstk hs =>
      exact sameDestroys_replace [.handleClose] hstk (by simp) (by simp) rfl rfl
    | drainedShutdown hstk hs =>
      exact sameDestroys_replace [.shutdownInLoop] hstk (by simp) (by simp) rfl rfl
    | drainedClose hstk hs =>
      exact sameDestroys_replace [.handleClose] hstk (by simp) (by simp) rfl rfl
    | eof hstk => exact sameDestroys_replace [.handleClose] hstk (by simp) (by simp) rfl rfl
    | notWritten hstk hne hp => exact hbuffer hstk (by simp) hp rfl rfl
  | send hu hs => exact .inr ⟨sameDestroys_push (by simp) rfl rfl, by simp⟩
  | forceCloseAfter hu => exact .inr ⟨⟨rfl, rfl⟩, by simp⟩
  | establish hstk hs =>
    refine .inr ⟨?_, by simp⟩
    rw [TcpConnection.establishConnection, if_pos hs]
    dsimp only
    split
    · refine sameDestroys_replace [.user] hstk (by simp) (by simp) rfl ?_
      rw [count_logged (by simp)]
      exact count_logged (by simp)
    · exact sameDestroys_replace [] hstk (by simp) (by simp) rfl (count_logged (by simp))
  | establishFails hstk hs => exact .inr ⟨⟨rfl, rfl⟩, by simp⟩
  | destroy hstk => exact .inl ⟨_, hstk, rfl, rfl⟩
  | closeFails hstk => exact .inr ⟨⟨rfl, rfl⟩, by simp⟩
  | direct hstk hs hw ho =>
    exact .inr ⟨sameDestroys_replace [.directWrite _] hstk (by simp) (by simp) rfl rfl, by simp⟩
  | queue hstk hs hne hp => exact .inr ⟨hbuffer hstk (by simp) hp rfl rfl, by simp⟩
  | wrote hstk hshut hne hp hl => exact .inr ⟨hbuffer hstk (by simp) hp rfl rfl, hlow hl⟩
  | wroteAll hstk hshut hl => exact .inr ⟨hpop hstk (by simp) rfl rfl, hlow hl⟩
  | buffer hstk =>
    refine .inr ⟨hpop hstk (by simp) rfl ?_, by simp⟩
    unfold TcpConnection.bufferRest
    dsimp only
    split <;> rfl
  | shutdownAssign hstk =>
    exact .inr ⟨sameDestroys_replace [.shutdownInLoop] hstk (by simp) (by simp) rfl rfl, by simp⟩
  | handleClosePending hstk hs hw =>
    exact .inr ⟨sameDestroys_replace [] hstk (by simp) (by simp) rfl (count_logged (by simp)),
      by simp⟩
  | handleClose hstk hs hw =>
    refine .inr ⟨sameDestroys_replace [] hstk (by simp) (by simp) rfl ?_, by simp⟩
    rw [List.count_append]
    rfl
  | handleCloseFails hstk hs => exact .inr ⟨⟨rfl, rfl⟩, by simp⟩
  | handleRead hstk =>
    exact .inr ⟨sameDestroys_replace [.readSocket] hstk (by simp) (by simp) rfl
      (count_logged (by simp)), by simp⟩
  | data hstk =>
    exact .inr ⟨sameDestroys_replace [.user] hstk (by simp) (by simp) rfl
      (count_logged (by simp)), by simp⟩
  | @handleWrite pre rest hstk hp =>
    refine .inr ⟨sameDestroys_replace pre hstk (by simp) ?_ rfl (count_logged (by simp)), by simp⟩
    rcases hp with ⟨hp, _⟩ | ⟨hp, _⟩ <;> simp [hp]
  | drained hstk hshut hout hl =>
    exact .inr ⟨sameDestroys_replace [.drainedShutdown, .drainedClose] hstk (by simp) (by simp) rfl
      rfl, hlow hl⟩
  | _ hstk => exact .inr ⟨hpop hstk (by simp) rfl rfl, by simp⟩

/-- The calls of `DestroyConnection` that the owner has made. -/
def destroys (w : ConnWorld) : Nat :=
  w.queue.count .destroyConnection + w.conn.stack.count .destroyConnection
    + w.conn.trace.count .destroyConnection

theorem destroys_run {c : TcpConnection} {rest : List Frame}
    (hstk : c.stack = .destroyConnection :: rest) :
    (c.destroyConnection rest).stack.count .destroyConnection + 1
        = c.stack.count .destroyConnection
      ∧ (c.destroyConnection rest).trace.count .destroyConnection
        = c.trace.count .destroyConnection + 1 := by
  rw [hstk]
  unfold TcpConnection.destroyConnection TcpConnection.logged
  dsimp only
  split <;> simp [List.count_append]

/-- **Only the owner's answers call `DestroyConnection`.** -/
theorem destroys_step {w w' : ConnWorld} {a : Label} (h : WorldStep w a w') :
    a = .ownerAnswers ∧ w'.destroys = w.destroys + 1
      ∨ a ≠ .ownerAnswers ∧ w'.destroys = w.destroys := by
  unfold destroys
  cases h with
  | @run a conn out hl =>
    refine .inr ⟨by simp, ?_⟩
    have hqueue : (∀ f : ConnFunctor, out = some (.queueInLoop f) → f ≠ .destroyConnection) →
        ({ w with conn }.emit out).queue.count ConnFunctor.destroyConnection
          = w.queue.count .destroyConnection := by
      intro hout
      cases out with
      | none => rfl
      | some out =>
        cases out with
        | queueInLoop f =>
          show (w.queue ++ [f]).count .destroyConnection = _
          rw [List.count_append, List.count_singleton, if_neg (by simpa using hout f rfl)]
          rfl
        | runAfter => rfl
        | closeCb => rfl
    rw [emit_conn]
    rcases destroys_localStep hl with ⟨rest, hstk, hc, ho⟩ | ⟨⟨ht, hs⟩, ho⟩
    · obtain ⟨hcount, htrace⟩ := destroys_run hstk
      rw [hqueue (by simp [ho]), hc]
      dsimp only
      omega
    · rw [hqueue ho]
      dsimp only
      omega
  | ownerAnswers hc =>
    refine .inl ⟨rfl, ?_⟩
    dsimp only
    rw [List.count_append, List.count_singleton_self]
    omega
  | establish he hs =>
    refine .inr ⟨by simp, ?_⟩
    rw [hs]
    rfl
  | @functor f rest hq hs =>
    refine .inr ⟨by simp, ?_⟩
    rw [hs, hq]
    cases f <;> simp [TcpConnection.functorFrames]
  | timer ht hs =>
    refine .inr ⟨by simp, ?_⟩
    rw [hs]
    rfl
  | @event error readable writable hr hs =>
    refine .inr ⟨by simp, ?_⟩
    rw [hs]
    cases error <;> cases readable <;> cases writable <;> rfl
  | pushSend hp =>
    refine .inr ⟨by simp, ?_⟩
    simp [List.count_append]
  | pushShutdown hp =>
    refine .inr ⟨by simp, ?_⟩
    simp [setThread, List.count_append]
  | pushForceClose hp =>
    refine .inr ⟨by simp, ?_⟩
    simp [setThread, List.count_append]
  | _ => exact .inr ⟨by simp, rfl⟩

/-! ## The way to the end -/

/-- How far `DestroyConnection` has got. -/
inductive Course (c : TcpConnection) : Prop where
  | running (nested : Nested c.stack) (drains : Drains c)
      (trace : .destroyConnection ∉ c.trace) : Course c
  -- the owner calls it in the loop thread, on top of what waits there
  | called {rest : List Frame} (stack : c.stack = .destroyConnection :: rest)
      (frames : ∀ f ∈ rest, Harmless f) (trace : .destroyConnection ∉ c.trace) : Course c
  | finished (h : Finished c) (trace : .destroyConnection ∈ c.trace) : Course c

/-- User code runs on harmless frames. -/
theorem harmless_of_user {c : TcpConnection} (hn : Nested c.stack) (hd : Drains c)
    (hu : c.atUser = true) : ∀ f ∈ c.stack, Harmless f := by
  intro f hf
  have hwaits := hn.waits hu f hf
  cases f with
  | user => trivial
  | bufferRest call remain => trivial
  | destroyClose => trivial
  | handleWrite => trivial
  | drainedClose => exact absurd hf (hd.user hu)
  | _ => exact hwaits.elim

theorem destroyed_trace {c : TcpConnection} (rest : List Frame) :
    .destroyConnection ∈ (c.destroyConnection rest).trace := by
  unfold TcpConnection.destroyConnection TcpConnection.logged
  dsimp only
  split <;> simp

/-- **A step inside a connection.** It calls `close_cb_` only while `DestroyConnection` has not
been called. -/
theorem course_localStep {c c' : TcpConnection} {a : LocalLabel} {out : Option Outgoing}
    (h : Course c) (hl : c.localStep a = some (c', out)) :
    Course c' ∧ (out = some .closeCb → .destroyConnection ∉ c.trace) := by
  have hstep := TcpConnection.localStep_cases hl
  cases h with
  | running hn hd ht =>
    refine ⟨?_, fun _ => ht⟩
    rcases destroys_localStep hstep with ⟨rest, hstk, hc, _⟩ | ⟨⟨hsame, _⟩, _⟩
    · rw [hstk] at hn
      have hrest : rest = [] := hn.alone fun _ hg => hg
      rw [hc, hrest]
      exact .finished (finished_destroy (by simp)) (destroyed_trace [])
    · refine .running (nested_localStep hn hstep) (drains_localStep hn hd hstep) fun hmem => ?_
      rw [← List.count_pos_iff] at hmem ht
      omega
  | @called rest hstk hrest ht =>
    cases a with
    | next =>
      simp only [TcpConnection.localStep, TcpConnection.next, hstk, Option.some.injEq,
        Prod.mk.injEq] at hl
      rw [← hl.1, ← hl.2]
      exact ⟨.finished (finished_destroy hrest) (destroyed_trace rest), by simp⟩
    | _ => exact absurd hl (by simp [TcpConnection.localStep, TcpConnection.atUser, hstk])
  | finished hf ht =>
    obtain ⟨hf', hout⟩ := finished_localStep hf hl
    exact ⟨.finished hf' (trace_localStep hstep ht), fun ho => absurd ho hout⟩

/-- The loop thread comes into the connection. -/
theorem Course.enter {c : TcpConnection} (h : Course c) (hstk : c.stack = [])
    {frames : List Frame} (hn : Nested frames) (hd : .drainedClose ∉ frames)
    (hf : ∀ f ∈ frames, Harmless f) : Course { c with stack := frames } := by
  cases h with
  | running _ _ ht => exact .running hn (drains_of_not_mem hd) ht
  | called hstk' => exact absurd (hstk.symm.trans hstk') (by simp)
  | finished hfin ht =>
    refine .finished ⟨hfin.state, hf, ?_⟩ ht
    rcases hfin.handlers with hc | ⟨rest, he | he⟩
    · exact .inl hc
    · exact absurd (hstk.symm.trans he) (by simp)
    · exact absurd (hstk.symm.trans he) (by simp)

/-- The owner calls `DestroyConnection` from a callback. -/
theorem Course.call {c : TcpConnection} (h : Course c) (hu : c.atUser = true)
    (ht : .destroyConnection ∉ c.trace) :
    Course { c with stack := .destroyConnection :: c.stack } := by
  cases h with
  | running hn hd _ => exact .called rfl (harmless_of_user hn hd hu) ht
  | called hstk =>
    rw [TcpConnection.atUser, hstk] at hu
    exact absurd hu (by simp)
  | finished _ hmem => exact absurd hmem ht

theorem destroys_call (w : ConnWorld) :
    { w with conn := { w.conn with
      stack := Frame.destroyConnection :: w.conn.stack } }.destroys = w.destroys + 1 := by
  unfold destroys
  dsimp only
  rw [List.count_cons_self]
  omega

theorem destroys_queue (w : ConnWorld) :
    { w with queue := w.queue ++ [ConnFunctor.destroyConnection] }.destroys = w.destroys + 1 := by
  unfold destroys
  dsimp only
  rw [List.count_append, List.count_singleton_self]
  omega

theorem not_mem_of_destroys {w : ConnWorld} (h : w.destroys = 0) :
    .destroyConnection ∉ w.conn.trace := by
  rw [← List.count_eq_zero]
  unfold destroys at h
  omega

/-- No other thread takes the connection out of `kDisconnected`. -/
def NoLateAssign (w : ConnWorld) (a : Label) : Prop := ∀ t, a = .threadNext t → w.NoRevival a

theorem noLateAssign_of_loopOnly (w : ConnWorld) (a : Label) (h : w.LoopOnly a) :
    w.NoLateAssign a := by
  rintro t rfl
  exact absurd h (by simp [LoopOnly, Label.ofOtherThread])

theorem noLateAssign_of_noRevival (w : ConnWorld) (a : Label) (h : w.NoRevival a) :
    w.NoLateAssign a := fun _ _ => h

/-- **A step.** Other threads only assign `state_`. -/
theorem course_step {w w' : ConnWorld} {a : Label} (h : Course w.conn) (hok : w.NoLateAssign a)
    (hs : w.step a = some w') : Course w'.conn := by
  cases (step_cases hs).2 with
  | run _ =>
    obtain ⟨out, hl⟩ := step_run hs
    exact (course_localStep h hl).1
  | establish he hstk => exact h.enter hstk (nested_single _) (by simp) (by simp [Harmless])
  | ownerAnswers hc => exact h
  | @functor f rest hq hstk =>
    refine h.enter hstk (nested_functorFrames f) ?_ ?_
    · cases f <;> simp [TcpConnection.functorFrames]
    · cases f <;> simp [TcpConnection.functorFrames, Harmless]
  | timer ht hstk => exact h.enter hstk (nested_single _) (by simp) (by simp [Harmless])
  | @event error readable writable hr hstk =>
    refine h.enter hstk (nested_eventFrames error readable writable) ?_ ?_
    · cases error <;> cases readable <;> cases writable <;> simp [TcpConnection.eventFrames]
    · cases error <;> cases readable <;> cases writable <;>
        simp [TcpConnection.eventFrames, Harmless]
  | threadShutdown | threadForceClose | threadForceCloseAfter | threadIgnored => exact h
  | pushShutdown | pushForceClose => exact h
  | threadSend | pushSend =>
    cases h with
    | running hn hd ht => exact .running hn hd ht
    | called hstk hf ht => exact .called hstk hf ht
    | finished hfin ht => exact .finished ⟨hfin.state, hfin.frames, hfin.handlers⟩ ht
  | assignForceClose =>
    cases h with
    | running hn hd ht => exact .running hn hd ht
    | called hstk hf ht => exact .called hstk hf ht
    | finished hfin ht => exact .finished ⟨rfl, hfin.frames, hfin.handlers⟩ ht
  | assignShutdown hp =>
    cases h with
    | running hn hd ht => exact .running hn hd ht
    | called hstk hf ht => exact .called hstk hf ht
    | finished hfin ht => exact absurd hfin.state (hok _ rfl hp)

theorem course_run {tid : ThreadId} {w w' : ConnWorld} {as : List Label} (h : Course w.conn)
    (hr : Run (machine tid) NoLateAssign w as w') : Course w'.conn :=
  hr.invariant (I := fun w => Course w.conn) h fun _ _ _ hc hok hs => course_step hc hok hs

theorem course_reachable {tid : ThreadId} {w : ConnWorld}
    (h : Reachable (machine tid) NoLateAssign w) : Course w.conn := by
  refine h.invariant (I := fun w => Course w.conn) ?_ ?_
  · rintro w ⟨cb, low, high, rfl⟩
    exact .running List.Pairwise.nil (drains_of_not_mem (by simp [create, TcpConnection.create]))
      (by simp [create, TcpConnection.create])
  · exact fun w a w' _ hc hok hs => course_step hc hok hs

/-! ## Answers -/

/-- **Each call of `close_cb_` is waiting for its answer, or has led to a call of
`DestroyConnection`.** -/
theorem closes_add_destroys {tid : ThreadId} {ok : ConnWorld → Label → Prop} {w : ConnWorld}
    (h : Reachable (machine tid) ok w) :
    w.closes + w.destroys = w.conn.trace.count .closeCb := by
  refine h.invariant (I := fun w => w.closes + w.destroys = w.conn.trace.count .closeCb) ?_ ?_
  · rintro w ⟨cb, low, high, rfl⟩
    rfl
  · intro w a w' _ hi _ hs
    have hstep := (step_cases hs).2
    rcases closes_step hstep with ⟨ha, hc, hconn⟩ | ⟨ha, _, hc, ht⟩ | ⟨ha, hc, ht⟩
    · rcases destroys_step hstep with ⟨_, hd⟩ | ⟨hne, _⟩
      · rw [hconn]
        omega
      · exact absurd ha hne
    · rcases destroys_step hstep with ⟨ha', _⟩ | ⟨_, hd⟩
      · exact absurd (ha.symm.trans ha') (by simp)
      · omega
    · rcases destroys_step hstep with ⟨ha', _⟩ | ⟨_, hd⟩
      · exact absurd ha' ha
      · omega

/-- With no answer owed and no call of `close_cb_`, the owner does nothing. -/
theorem unanswered_run {tid : ThreadId} {ok : ConnWorld → Label → Prop} {w w' : ConnWorld}
    {as : List Label} (hr : Run (machine tid) ok w as w') :
    w.conn.trace.count .closeCb ≤ w'.conn.trace.count .closeCb
      ∧ (w'.conn.trace.count .closeCb = w.conn.trace.count .closeCb → w.closes = 0 →
        w'.closes = 0 ∧ w'.destroys = w.destroys) := by
  induction hr with
  | nil => exact ⟨Nat.le_refl _, fun _ hz => ⟨hz, rfl⟩⟩
  | @tail as u u' a _ _ hs ih =>
    obtain ⟨hle, hkeep⟩ := ih
    have hstep := (step_cases hs).2
    rcases closes_step hstep with ⟨_, hc, hconn⟩ | ⟨_, _, _, ht⟩ | ⟨ha, hc, ht⟩
    · refine ⟨by rw [hconn]; exact hle, fun heq hz => ?_⟩
      rw [hconn] at heq
      have hzero := (hkeep heq hz).1
      omega
    · refine ⟨by omega, fun heq _ => ?_⟩
      omega
    · refine ⟨by omega, fun heq hz => ?_⟩
      obtain ⟨hzero, hd⟩ := hkeep (by omega) hz
      rcases destroys_step hstep with ⟨ha', _⟩ | ⟨_, hd'⟩
      · exact absurd ha' ha
      · exact ⟨by omega, by omega⟩

/-- Without an answer, nothing is destroyed. -/
theorem destroys_run_eq {tid : ThreadId} {ok : ConnWorld → Label → Prop} {w w' : ConnWorld}
    {as : List Label} (hr : Run (machine tid) ok w as w') (ha : .ownerAnswers ∉ as) :
    w'.destroys = w.destroys := by
  induction hr with
  | nil => rfl
  | @tail as u u' a _ _ hs ih =>
    rw [List.mem_append, not_or] at ha
    rcases destroys_step (step_cases hs).2 with ⟨he, _⟩ | ⟨_, hd⟩
    · exact absurd (by rw [he]; exact List.mem_singleton_self _) ha.2
    · exact hd.trans (ih ha.1)

/-! ## Reports -/

/-- `connection_cb_` is told of the end. -/
def reportsEnd : ConnEvent → Bool
  | .connectionCb .destroy _ => true
  | _ => false

/-- **The end is reported at most once for each `DestroyConnection`.** -/
theorem reports_localStep {c c' : TcpConnection} {a : LocalLabel} {out : Option Outgoing}
    (hs : TcpConnection.LocalStep c a c' out)
    (h : c.trace.countP reportsEnd ≤ c.trace.count .destroyConnection) :
    c'.trace.countP reportsEnd ≤ c'.trace.count .destroyConnection := by
  have hlogged : ∀ {e : ConnEvent}, reportsEnd e = false →
      (c.logged e).countP reportsEnd ≤ (c.logged e).count .destroyConnection := by
    intro e he
    rw [TcpConnection.logged, List.countP_append, List.count_append, List.countP_singleton, he]
    exact Nat.le_trans h (Nat.le_add_right _ _)
  cases hs with
  | establish hstk hs =>
    rw [TcpConnection.establishConnection, if_pos hs]
    unfold TcpConnection.logged
    dsimp only
    split
    · simp only [List.countP_append, List.count_append]
      exact h
    · simp only [List.countP_append, List.count_append]
      exact h
  | destroy hstk =>
    unfold TcpConnection.destroyConnection TcpConnection.logged
    dsimp only
    split
    · simp only [List.countP_append, List.count_append]
      exact Nat.succ_le_succ h
    · simp only [List.countP_append, List.count_append]
      exact Nat.le_succ_of_le h
  | handleClosePending hstk hs hw => exact hlogged rfl
  | handleClose hstk hs hw =>
    rw [List.countP_append, List.count_append]
    exact h
  | handleRead hstk => exact hlogged rfl
  | data hstk => exact hlogged rfl
  | handleWrite hstk hpre => exact hlogged rfl
  | buffer hstk =>
    unfold TcpConnection.bufferRest
    dsimp only
    split <;> exact h
  | _ => exact h

end ConnWorld

end Windz
