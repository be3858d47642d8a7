import Windz.Net.ConnWorld
import Windz.Net.TcpConnectionSteps

/-!
# What holds of a connection in every run

What a connection can do, as a list of steps, and two things that depend on no
assumption about what the threads do: which steps call `close_cb_`, or answer it,
and how the frames of the loop thread can lie on each other.
-/

namespace Windz

open Lib

namespace ConnWorld

/-! ## Steps of the world -/

/-- A step of a connection and what is around it. -/
inductive WorldStep (w : ConnWorld) : Label → ConnWorld → Prop where
  | run {a : LocalLabel} {conn : TcpConnection} {out : Option Outgoing}
      (h : TcpConnection.LocalStep w.conn a conn out) :
      WorldStep w (.run a) ({ w with conn }.emit out)
  | establish (he : w.established = false) (hs : w.conn.stack = []) :
      WorldStep w .establish
        { w with established := true, conn := { w.conn with stack := [.establishConnection] } }
  | ownerAnswers (hc : w.closes ≠ 0) :
      WorldStep w .ownerAnswers
        { w with closes := w.closes - 1, queue := w.queue ++ [.destroyConnection] }
  | functor {f : ConnFunctor} {rest : List ConnFunctor} (hq : w.queue = f :: rest)
      (hs : w.conn.stack = []) :
      WorldStep w .functor
        { w with
          queue := rest
          conn := { w.conn with stack := TcpConnection.functorFrames f } }
  | timer (ht : w.timers ≠ 0) (hs : w.conn.stack = []) :
      WorldStep w .timer
        { w with timers := w.timers - 1, conn := { w.conn with stack := [.forceCloseInLoop] } }
  | event {error readable writable : Bool} (hr : w.conn.reports readable writable = true)
      (hs : w.conn.stack = []) :
      WorldStep w (.event error readable writable)
        { w with conn :=
          { w.conn with stack := TcpConnection.eventFrames error readable writable } }
  -- other threads
  | threadSend {t : ThreadId} {message : List UInt8} (ht : t ≠ w.conn.tid)
      (hi : w.threads t = .idle) (hs : w.conn.state = .kConnected) :
      WorldStep w (.threadCall t (.send message))
        { w.setThread t (.sendTested (w.conn.nextCall t message)) with
          conn := { w.conn with calls := w.conn.calls ++ [w.conn.nextCall t message] } }
  | threadShutdown {t : ThreadId} (ht : t ≠ w.conn.tid) (hi : w.threads t = .idle)
      (hs : w.conn.state = .kConnected) :
      WorldStep w (.threadCall t .shutdown) (w.setThread t .shutdownTested)
  | threadForceClose {t : ThreadId} (ht : t ≠ w.conn.tid) (hi : w.threads t = .idle)
      (hs : w.conn.isOpen = true) :
      WorldStep w (.threadCall t .forceClose) (w.setThread t .forceCloseTested)
  | threadForceCloseAfter {t : ThreadId} (ht : t ≠ w.conn.tid) (hi : w.threads t = .idle) :
      WorldStep w (.threadCall t .forceCloseAfter) { w with timers := w.timers + 1 }
  | threadIgnored {t : ThreadId} {op : UserCall} : WorldStep w (.threadCall t op) w
  | pushSend {t : ThreadId} {call : SendCall} (hp : w.threads t = .sendTested call) :
      WorldStep w (.threadNext t)
        { w.setThread t .idle with
          queue := w.queue ++ [.sendInLoop call]
          conn := { w.conn with returned := w.conn.returned ++ [call] } }
  | assignShutdown {t : ThreadId} (hp : w.threads t = .shutdownTested) :
      WorldStep w (.threadNext t)
        { w.setThread t .shutdownAssigned with
          conn := { w.conn with state := .kDisconnecting } }
  | pushShutdown {t : ThreadId} (hp : w.threads t = .shutdownAssigned) :
      WorldStep w (.threadNext t)
        { w.setThread t .idle with queue := w.queue ++ [.shutdownInLoop] }
  | assignForceClose {t : ThreadId} (hp : w.threads t = .forceCloseTested) :
      WorldStep w (.threadNext t)
        { w.setThread t .forceCloseAssigned with
          conn := { w.conn with state := .kDisconnected } }
  | pushForceClose {t : ThreadId} (hp : w.threads t = .forceCloseAssigned) :
      WorldStep w (.threadNext t)
        { w.setThread t .idle with queue := w.queue ++ [.forceCloseInLoop] }

theorem enter_cases {w w' : ConnWorld} {frames : List Frame} (h : w.enter frames = some w') :
    w.conn.stack = [] ∧ w' = { w with conn := { w.conn with stack := frames } } := by
  unfold enter TcpConnection.enter at h
  split at h
  · rename_i hs
    exact ⟨hs, (Option.some.inj h).symm⟩
  · exact absurd h (by simp)

theorem threadCall_cases {w : ConnWorld} {t : ThreadId} (ht : t ≠ w.conn.tid)
    (hi : w.threads t = .idle) (op : UserCall) :
    WorldStep w (.threadCall t op) (w.threadCall t op) := by
  cases op with
  | send message =>
    unfold threadCall
    dsimp only
    split
    · rename_i hs
      exact .threadSend ht hi hs
    · exact .threadIgnored
  | shutdown =>
    unfold threadCall
    dsimp only
    split
    · rename_i hs
      exact .threadShutdown ht hi hs
    · exact .threadIgnored
  | forceClose =>
    unfold threadCall
    dsimp only
    split
    · rename_i hs
      exact .threadForceClose ht hi hs
    · exact .threadIgnored
  | forceCloseAfter => exact .threadForceCloseAfter ht hi

theorem threadNext_cases {w w' : ConnWorld} {t : ThreadId} (h : w.threadNext t = some w') :
    WorldStep w (.threadNext t) w' := by
  unfold threadNext at h
  split at h
  · exact absurd h (by simp)
  · rename_i call hp
    cases h
    exact .pushSend hp
  · rename_i hp
    cases h
    exact .assignShutdown hp
  · rename_i hp
    cases h
    exact .pushShutdown hp
  · rename_i hp
    cases h
    exact .assignForceClose hp
  · rename_i hp
    cases h
    exact .pushForceClose hp

/-- **A step of the world is one of the list.** -/
theorem step_cases {w w' : ConnWorld} {a : Label} (h : w.step a = some w') :
    w.conn.failed = none ∧ WorldStep w a w' := by
  unfold step at h
  split at h
  · exact absurd h (by simp)
  · rename_i hfailed
    refine ⟨by simpa using hfailed, ?_⟩
    cases a with
    | run a =>
      obtain ⟨⟨conn, out⟩, hs, he⟩ := Option.map_eq_some_iff.mp h
      dsimp only at he
      rw [← he]
      exact .run (TcpConnection.localStep_cases hs)
    | establish =>
      dsimp only at h
      split at h
      · exact absurd h (by simp)
      · rename_i he
        obtain ⟨hs, hw⟩ := enter_cases h
        rw [hw]
        exact .establish (Bool.eq_false_iff.mpr he) hs
    | ownerAnswers =>
      dsimp only at h
      split at h
      · exact absurd h (by simp)
      · rename_i hc
        cases h
        exact .ownerAnswers hc
    | functor =>
      dsimp only at h
      split at h
      · exact absurd h (by simp)
      · rename_i f rest hq
        obtain ⟨hs, hw⟩ := enter_cases h
        rw [hw]
        exact .functor hq hs
    | timer =>
      dsimp only at h
      split at h
      · exact absurd h (by simp)
      · rename_i ht
        obtain ⟨hs, hw⟩ := enter_cases h
        rw [hw]
        exact .timer ht hs
    | event error readable writable =>
      obtain ⟨hr, h⟩ := Option.ite_none_right_eq_some.mp h
      obtain ⟨hs, hw⟩ := enter_cases h
      rw [hw]
      exact .event hr hs
    | threadCall t op =>
      obtain ⟨ht, h⟩ := Option.ite_none_right_eq_some.mp h
      cases h
      exact threadCall_cases ht.1 ht.2 op
    | threadNext t => exact threadNext_cases h

@[simp] theorem emit_conn (w : ConnWorld) (out : Option Outgoing) : (w.emit out).conn = w.conn := by
  unfold emit
  split <;> rfl

/-- A step inside the connection is one of the connection. -/
theorem step_run {w w' : ConnWorld} {a : LocalLabel} (h : w.step (.run a) = some w') :
    ∃ out, w.conn.localStep a = some (w'.conn, out) := by
  unfold step at h
  split at h
  · exact absurd h (by simp)
  · obtain ⟨⟨conn, out⟩, hl, he⟩ := Option.map_eq_some_iff.mp h
    refine ⟨out, ?_⟩
    rw [hl, ← he, emit_conn]

theorem step_of_localStep {w : ConnWorld} {c : TcpConnection} {a : LocalLabel}
    {out : Option Outgoing} (hf : w.conn.failed = none) (h : w.conn.localStep a = some (c, out)) :
    w.step (.run a) = some ({ w with conn := c }.emit out) := by
  show (if w.conn.failed.isSome then none
    else (w.conn.localStep a).map fun p => { w with conn := p.1 }.emit p.2) = _
  rw [hf, h]
  rfl

/-! ## The calls of `close_cb_` -/

/-- The next step calls `close_cb_`. -/
def callsCloseCb (c : TcpConnection) : Bool :=
  match c.stack with
  | .handleClose :: _ => c.state ≠ .kConnecting ∧ !c.channel.writeEnabled
  | _ => false

theorem closeCb_localStep {c c' : TcpConnection} {a : LocalLabel} {out : Option Outgoing}
    (h : TcpConnection.LocalStep c a c' out) :
    out = some .closeCb ∧ a = .next ∧ callsCloseCb c = true
        ∧ c'.trace.count .closeCb = c.trace.count .closeCb + 1
      ∨ out ≠ some .closeCb ∧ c'.trace.count .closeCb = c.trace.count .closeCb := by
  have hlogged : ∀ e ≠ ConnEvent.closeCb,
      (c.logged e).count .closeCb = c.trace.count .closeCb := by
    intro e he
    rw [TcpConnection.logged, List.count_append, List.count_singleton, if_neg (by simpa using he)]
    rfl
  cases h with
  | handleClose h hs hw =>
    refine .inl ⟨rfl, rfl, ?_, ?_⟩
    · simp [callsCloseCb, h, hs, hw]
    · dsimp only
      rw [List.count_append]
      rfl
  | establish h hs =>
    refine .inr ⟨by simp, ?_⟩
    unfold TcpConnection.establishConnection TcpConnection.logged
    rw [if_pos hs]
    dsimp only
    split <;> simp [List.count_append]
  | destroy h =>
    refine .inr ⟨by simp, ?_⟩
    unfold TcpConnection.destroyConnection TcpConnection.logged
    dsimp only
    split <;> simp [List.count_append]
  | wrote h hshut hne hpre hlow => rcases hlow with hl | hl <;> exact .inr ⟨by simp [hl], rfl⟩
  | wroteAll h hshut hlow => rcases hlow with hl | hl <;> exact .inr ⟨by simp [hl], rfl⟩
  | drained h hshut hout hlow => rcases hlow with hl | hl <;> exact .inr ⟨by simp [hl], rfl⟩
  | handleClosePending h hs hw => exact .inr ⟨by simp, hlogged _ (by simp)⟩
  | handleRead h => exact .inr ⟨by simp, hlogged _ (by simp)⟩
  | data h => exact .inr ⟨by simp, hlogged _ (by simp)⟩
  | handleWrite h hpre => exact .inr ⟨by simp, hlogged _ (by simp)⟩
  | buffer h =>
    refine .inr ⟨by simp, ?_⟩
    unfold TcpConnection.bufferRest
    dsimp only
    split <;> rfl
  | _ => exact .inr ⟨by simp, rfl⟩

/-- How a step changes the calls that the owner has not answered. -/
theorem closes_step {w w' : ConnWorld} {a : Label} (h : WorldStep w a w') :
    a = .ownerAnswers ∧ w'.closes + 1 = w.closes ∧ w'.conn = w.conn
      ∨ a = .run .next ∧ callsCloseCb w.conn = true ∧ w'.closes = w.closes + 1
        ∧ w'.conn.trace.count .closeCb = w.conn.trace.count .closeCb + 1
      ∨ a ≠ .ownerAnswers ∧ w'.closes = w.closes
        ∧ w'.conn.trace.count .closeCb = w.conn.trace.count .closeCb := by
  cases h with
  | run h =>
    rename_i out
    rw [emit_conn]
    rcases closeCb_localStep h with ⟨ho, ha, hc, hcount⟩ | ⟨ho, hcount⟩
    · rw [ho, ha]
      exact .inr (.inl ⟨rfl, hc, rfl, hcount⟩)
    · refine .inr (.inr ⟨by simp, ?_, hcount⟩)
      unfold emit
      split <;> first | rfl | exact absurd rfl ho
  | ownerAnswers hc => exact .inl ⟨rfl, by show w.closes - 1 + 1 = w.closes; omega, rfl⟩
  | _ => exact .inr (.inr ⟨by simp, rfl, rfl⟩)

/-! ## Frames on frames -/

/-- A frame that can wait while user code, or what it calls, runs. -/
def Waits : Frame → Prop
  | .user | .bufferRest _ _ | .destroyClose | .handleWrite | .drainedClose => True
  | _ => False

/-- The frame `g` can lie under `f`. -/
def Under (f g : Frame) : Prop :=
  match f with
  | .user | .sendInLoop _ | .directWrite _ | .bufferRest _ _ | .shutdownAssign | .shutdownInLoop
  | .forceCloseAssign => Waits g
  | .handleError => g = .handleRead ∨ g = .handleWrite
  | .handleRead | .readSocket | .handleClose => g = .handleWrite
  | .drainedShutdown => g = .drainedClose
  | .handleWrite | .writeOutput | .drainedClose | .establishConnection | .destroyConnection
  | .destroyClose | .forceCloseInLoop => False

/-- Each frame lies only under frames it can lie under. -/
abbrev Nested (stack : List Frame) : Prop := stack.Pairwise Under

theorem Nested.rest {f : Frame} {rest : List Frame} (h : Nested (f :: rest)) : Nested rest :=
  (List.pairwise_cons.mp h).2

theorem Nested.under {f g : Frame} {rest : List Frame} (h : Nested (f :: rest)) (hg : g ∈ rest) :
    Under f g := (List.pairwise_cons.mp h).1 g hg

theorem Nested.cons {f : Frame} {rest : List Frame} (h : Nested rest)
    (hf : ∀ g ∈ rest, Under f g) : Nested (f :: rest) := List.pairwise_cons.mpr ⟨hf, h⟩

/-- A frame can be replaced by one that allows the same under it. -/
theorem Nested.replace {f f' : Frame} {rest : List Frame} (h : Nested (f :: rest))
    (hf : ∀ g, Under f g → Under f' g) : Nested (f' :: rest) :=
  h.rest.cons fun _ hg => hf _ (h.under hg)

/-- On user code, everything waits. -/
theorem Nested.waits {c : TcpConnection} (h : Nested c.stack) (hu : c.atUser = true) :
    ∀ g ∈ c.stack, Waits g := by
  intro g hg
  unfold TcpConnection.atUser at hu
  split at hu
  · rename_i hs
    rw [hs] at hg
    exact absurd hg List.not_mem_nil
  · rename_i rest hs
    rw [hs] at hg h
    rcases List.mem_cons.mp hg with hg | hg
    · rw [hg]; trivial
    · exact h.under hg
  · exact absurd hu Bool.false_ne_true

/-- A frame with nothing under it is the whole stack. -/
theorem Nested.alone {f : Frame} {rest : List Frame} (h : Nested (f :: rest))
    (hf : ∀ g, ¬ Under f g) : rest = [] := by
  cases rest with
  | nil => rfl
  | cons g rest => exact absurd (h.under List.mem_cons_self) (hf g)

theorem nested_single (f : Frame) : Nested [f] := List.pairwise_singleton _ f

/-- `SendInLoop` waits to buffer the rest, perhaps behind a callback. -/
theorem nested_bufferRest {f : Frame} {call : SendCall} {remain : List OutByte}
    {pre rest : List Frame} (h : Nested (f :: rest)) (hf : ∀ g, Under f g → Waits g)
    (hpre : pre = [] ∨ pre = [.user]) : Nested (pre ++ .bufferRest call remain :: rest) := by
  have hbase : Nested (.bufferRest call remain :: rest) := h.replace fun g hg => hf g hg
  rcases hpre with hp | hp
  · rw [hp]
    exact hbase
  · rw [hp]
    refine hbase.cons fun g hg => ?_
    rcases List.mem_cons.mp hg with hg | hg
    · rw [hg]; trivial
    · exact hf g (h.under hg)

theorem nested_control {c : TcpConnection} {a : LocalLabel} {stack : List Frame}
    (hn : Nested c.stack) (h : TcpConnection.Control c a stack) : Nested stack := by
  cases h with
  | ignored hu => exact hn
  | shutdown hu hs => exact hn.cons fun g hg => hn.waits hu g hg
  | forceClose hu hs => exact hn.cons fun g hg => hn.waits hu g hg
  | skip h hf => rw [h] at hn; exact hn.rest
  | forceCloseInLoop h hs => rw [h] at hn; exact hn.replace fun _ hg => hg.elim
  | drainedShutdown h hs =>
    rw [h] at hn
    refine hn.replace fun g hg => ?_
    rw [show g = .drainedClose from hg]; trivial
  | drainedClose h hs => rw [h] at hn; exact hn.replace fun _ hg => hg.elim
  | eof h => rw [h] at hn; exact hn.replace fun _ hg => hg
  | notWritten h hne hpre => rw [h] at hn; exact nested_bufferRest hn (fun _ hg => hg) hpre

theorem nested_localStep {c c' : TcpConnection} {a : LocalLabel} {out : Option Outgoing}
    (hn : Nested c.stack) (h : TcpConnection.LocalStep c a c' out) : Nested c'.stack := by
  cases h with
  | control h => exact nested_control hn h
  | send hu hs => exact hn.cons fun g hg => hn.waits hu g hg
  | forceCloseAfter hu => exact hn
  | establish h hs =>
    rw [h] at hn
    have hrest := hn.alone fun _ hg => hg
    rw [TcpConnection.establishConnection, if_pos hs, hrest]
    dsimp only
    split
    · exact nested_single _
    · exact List.Pairwise.nil
  | establishFails h hs => exact hn
  | destroy h =>
    rw [h] at hn
    have hrest := hn.alone fun _ hg => hg
    rw [TcpConnection.destroyConnection, hrest]
    dsimp only
    split
    · refine (nested_single _).cons fun g hg => ?_
      rw [List.mem_singleton.mp hg]; trivial
    · exact nested_single _
  | destroyClose h => rw [h] at hn; exact hn.rest
  | closeFails h => exact hn
  | discard h hs => rw [h] at hn; exact hn.rest
  | direct h hs hw ho => rw [h] at hn; exact hn.replace fun _ hg => hg
  | queue h hs hne hpre => rw [h] at hn; exact nested_bufferRest hn (fun _ hg => hg) hpre
  | queueEmpty h hs hne => rw [h] at hn; exact hn.rest
  | wrote h hshut hne hpre hlow => rw [h] at hn; exact nested_bufferRest hn (fun _ hg => hg) hpre
  | wroteAll h hshut hlow => rw [h] at hn; exact hn.rest
  | lost h hr => rw [h] at hn; exact hn.rest
  | buffer h =>
    rw [h] at hn
    unfold TcpConnection.bufferRest
    dsimp only
    exact hn.rest
  | shutdownAssign h => rw [h] at hn; exact hn.replace fun _ hg => hg
  | shut h hw => rw [h] at hn; exact hn.rest
  | forceCloseAssign h => rw [h] at hn; exact hn.rest
  | handleClosePending h hs hw => rw [h] at hn; exact hn.rest
  | handleClose h hs hw => rw [h] at hn; exact hn.rest
  | handleCloseFails h hs => exact hn
  | handleRead h => rw [h] at hn; exact hn.replace fun _ hg => hg
  | data h =>
    rw [h] at hn
    refine hn.replace fun g hg => ?_
    rw [show g = .handleWrite from hg]; trivial
  | handleWrite h hpre =>
    rw [h] at hn
    rcases hpre with ⟨hp, _⟩ | ⟨hp, _⟩
    · rw [hp]; exact hn.rest
    · rw [hp]; exact hn.replace fun _ hg => hg
  | wroteSome h hshut hout hne => rw [h] at hn; exact hn.rest
  | drained h hshut hout hlow =>
    rw [h] at hn
    have hrest := hn.alone fun _ hg => hg
    rw [hrest]
    refine (nested_single _).cons fun g hg => ?_
    rw [List.mem_singleton.mp hg]
    exact rfl

theorem nested_eventFrames (error readable writable : Bool) :
    Nested (TcpConnection.eventFrames error readable writable) := by
  cases error <;> cases readable <;> cases writable <;>
    simp [Nested, TcpConnection.eventFrames, Under]

theorem nested_functorFrames (f : ConnFunctor) : Nested (TcpConnection.functorFrames f) := by
  cases f <;> exact nested_single _

theorem nested_step {w w' : ConnWorld} {a : Label} (hn : Nested w.conn.stack)
    (h : WorldStep w a w') : Nested w'.conn.stack := by
  cases h with
  | run h => rw [emit_conn]; exact nested_localStep hn h
  | establish he hs => exact nested_single _
  | functor hq hs => exact nested_functorFrames _
  | timer ht hs => exact nested_single _
  | event hr hs => exact nested_eventFrames _ _ _
  | _ => exact hn

theorem nested_reachable {tid : ThreadId} {ok : ConnWorld → Label → Prop} {w : ConnWorld}
    (h : Reachable (machine tid) ok w) : Nested w.conn.stack := by
  refine h.invariant (I := fun w => Nested w.conn.stack) ?_ ?_
  · intro w hw
    obtain ⟨cb, low, high, hw⟩ := hw
    rw [hw]
    exact List.Pairwise.nil
  · intro w a w' _ hn _ hs
    exact nested_step hn (step_cases hs).2

end ConnWorld

end Windz
