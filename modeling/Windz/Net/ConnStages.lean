import Windz.Net.ConnInvariant
import Windz.Net.Lifecycle

/-!
# The stages of a connection

How the phase of the trace goes with `state_`, the interest of the channel, the frames the
loop thread can be in, and `DestroyConnection`, of which there is one to come from the call
of `close_cb_` until it runs: with the owner, in the queue, or on the stack.
-/

namespace Windz

open Lib

/-- The order in which `state_` goes. -/
def ConnState.rank : ConnState → Nat
  | .kConnecting => 0
  | .kConnected => 1
  | .kDisconnecting => 2
  | .kDisconnected => 3

namespace ConnWorld

/-- It is a step of another thread than the loop's. -/
def Label.ofOtherThread : Label → Bool
  | .threadCall _ _ | .threadNext _ => true
  | _ => false

/-- Everything happens in the loop thread. -/
def LoopOnly (_ : ConnWorld) (a : Label) : Prop := a.ofOtherThread = false

instance (w : ConnWorld) (a : Label) : Decidable (w.LoopOnly a) :=
  inferInstanceAs (Decidable (a.ofOtherThread = false))

theorem LoopOnly.not_thread {w : ConnWorld} {a : Label} (h : w.LoopOnly a)
    (ht : a.ofOtherThread = true) : False := Bool.false_ne_true (h.symm.trans ht)

/-- The frames that occur in a phase. -/
def FrameIn : Phase → Frame → Prop
  | .fresh, f => f = .user ∨ f = .forceCloseInLoop ∨ f = .establishConnection
  | .opened, f => f ≠ .establishConnection ∧ f ≠ .destroyConnection ∧ f ≠ .destroyClose
  | .closed, f =>
      f = .user ∨ f = .forceCloseInLoop ∨ f = .handleError ∨ f = .handleWrite
        ∨ f = .destroyConnection
  | .destroyed, f => f = .user ∨ f = .forceCloseInLoop ∨ f = .handleError ∨ f = .destroyClose
  | .announcing, _ | .announcingEnd, _ => False

/-- The functors that the loop thread pushes. -/
def LoopFunctor (f : ConnFunctor) : Prop :=
  f = .lowWatermark ∨ f = .forceCloseInLoop ∨ f = .destroyConnection

/-- The connection is in phase `p` of its life. -/
structure Stage (w : ConnWorld) (p : Phase) : Prop where
  life : Lifecycle w.conn.hasConnectionCb w.conn.trace p
  /-- `connection_cb_` is called in the step that changes the phase. -/
  settled : p ≠ .announcing ∧ p ≠ .announcingEnd
  frames : ∀ f ∈ w.conn.stack, FrameIn p f
  established : w.established = false → p = .fresh ∧ .establishConnection ∉ w.conn.stack
  connecting : w.conn.state = .kConnecting ↔ p = .fresh
  unregistered : p = .fresh → w.conn.channel.registered = false
  disconnected : p = .closed ∨ p = .destroyed → w.conn.state = .kDisconnected
    ∧ w.conn.channel.readEnabled = false ∧ w.conn.channel.writeEnabled = false
  /-- `Shutdown` assigns what its test found. -/
  assign : .shutdownAssign ∈ w.conn.stack → w.conn.state = .kConnected
  queue : ∀ f ∈ w.queue, LoopFunctor f
  /-- The `DestroyConnection` to come. -/
  owed : w.closes + w.queue.count .destroyConnection + w.conn.stack.count .destroyConnection
    = if p = .closed then 1 else 0
  failed : w.conn.failed = none ∨ w.conn.failed = some .channelClose

theorem Stage.top {w : ConnWorld} {p : Phase} (hs : Stage w p) {f : Frame} {rest : List Frame}
    (h : w.conn.stack = f :: rest) : FrameIn p f :=
  hs.frames f (by rw [h]; exact List.mem_cons_self)

theorem Stage.rest {w : ConnWorld} {p : Phase} (hs : Stage w p) {f : Frame} {rest : List Frame}
    (h : w.conn.stack = f :: rest) : ∀ g ∈ rest, FrameIn p g := by
  intro g hg
  exact hs.frames g (by rw [h]; exact List.mem_cons_of_mem _ hg)

/-- Most frames occur only in an open connection. -/
theorem Stage.opened_of_top {w : ConnWorld} {p : Phase} (hs : Stage w p) {f : Frame}
    {rest : List Frame} (h : w.conn.stack = f :: rest) (hf : ∀ q, FrameIn q f → q = .opened) :
    p = .opened := hf p (hs.top h)

theorem opened_of_frame {f : Frame} (h : f ≠ .user ∧ f ≠ .forceCloseInLoop ∧ f ≠ .establishConnection
    ∧ f ≠ .handleError ∧ f ≠ .handleWrite ∧ f ≠ .destroyConnection ∧ f ≠ .destroyClose) (q : Phase)
    (hf : FrameIn q f) : q = .opened := by
  obtain ⟨h1, h2, h3, h4, h5, h6, h7⟩ := h
  cases q with
  | opened => rfl
  | fresh => rcases hf with hf | hf | hf <;> contradiction
  | closed => rcases hf with hf | hf | hf | hf | hf <;> contradiction
  | destroyed => rcases hf with hf | hf | hf | hf <;> contradiction
  | announcing => exact hf.elim
  | announcingEnd => exact hf.elim

/-- A connection that is connected or disconnecting is in phase `opened`. -/
theorem Stage.opened_of_state {w : ConnWorld} {p : Phase} (hs : Stage w p)
    (h : w.conn.state = .kConnected ∨ w.conn.state = .kDisconnecting) : p = .opened := by
  have hnot : w.conn.state ≠ .kConnecting ∧ w.conn.state ≠ .kDisconnected := by
    rcases h with h | h
    · rw [h]; simp
    · rw [h]; simp
  cases p with
  | opened => rfl
  | fresh => exact absurd (hs.connecting.mpr rfl) hnot.1
  | closed => exact absurd (hs.disconnected (.inl rfl)).1 hnot.2
  | destroyed => exact absurd (hs.disconnected (.inr rfl)).1 hnot.2
  | announcing => exact absurd rfl hs.settled.1
  | announcingEnd => exact absurd rfl hs.settled.2

/-- Nothing lies on the assignment of `Shutdown`. -/
theorem not_assign {f : Frame} {rest : List Frame} (hn : Nested (f :: rest)) :
    .shutdownAssign ∉ rest := by
  intro hmem
  have hu := hn.under hmem
  cases f <;> simp [Under, Waits] at hu

theorem atUser_not_assign {c : TcpConnection} (hn : Nested c.stack) (hu : c.atUser = true) :
    .shutdownAssign ∉ c.stack := fun hmem => hn.waits hu _ hmem

theorem count_destroy_zero {stack : List Frame}
    (h : ∀ f ∈ stack, f ≠ .destroyConnection) : stack.count .destroyConnection = 0 := by
  rw [List.count_eq_zero]
  exact fun hmem => h _ hmem rfl

/-! ## Steps that stay in a phase -/

/-- The stack changes and nothing else. -/
theorem Stage.restack {w : ConnWorld} {p : Phase} (hs : Stage w p) {stack : List Frame}
    (hframes : ∀ f ∈ stack, FrameIn p f)
    (hest : .establishConnection ∈ stack → .establishConnection ∈ w.conn.stack)
    (hassign : .shutdownAssign ∈ stack → w.conn.state = .kConnected)
    (hcount : stack.count .destroyConnection = w.conn.stack.count .destroyConnection) :
    Stage { w with conn := { w.conn with stack } } p :=
  { hs with
    frames := hframes
    established := fun he => ⟨(hs.established he).1, fun hmem => (hs.established he).2 (hest hmem)⟩
    assign := hassign
    owed := by rw [← hs.owed, ← hcount] }

/-- The frame on top is left. -/
theorem Stage.pop {w : ConnWorld} {p : Phase} (hs : Stage w p) (hn : Nested w.conn.stack)
    {f : Frame} {rest : List Frame} (h : w.conn.stack = f :: rest) (hf : f ≠ .destroyConnection) :
    Stage { w with conn := { w.conn with stack := rest } } p := by
  refine hs.restack (hs.rest h) ?_ ?_ ?_
  · intro hmem
    rw [h]
    exact List.mem_cons_of_mem _ hmem
  · rw [h] at hn
    exact fun hmem => absurd hmem (not_assign hn)
  · rw [h, List.count_cons_of_ne hf]

/-- A step of an open connection. -/
theorem Stage.open {w : ConnWorld} (hs : Stage w .opened) {c : TcpConnection}
    (hlife : Lifecycle c.hasConnectionCb c.trace .opened)
    (hframes : ∀ f ∈ c.stack, FrameIn .opened f) (hstate : c.state ≠ .kConnecting)
    (hassign : .shutdownAssign ∈ c.stack → c.state = .kConnected)
    (hfailed : c.failed = w.conn.failed) : Stage { w with conn := c } .opened where
  life := hlife
  settled := hs.settled
  frames := hframes
  established := fun he => absurd (hs.established he).1 (by simp)
  connecting := ⟨fun h => absurd h hstate, fun h => absurd h (by simp)⟩
  unregistered := fun h => absurd h (by simp)
  disconnected := fun h => absurd h (by simp)
  assign := hassign
  queue := hs.queue
  owed := by
    have howed := hs.owed
    rw [count_destroy_zero fun f hf => (hs.frames f hf).2.1] at howed
    rw [count_destroy_zero fun f hf => (hframes f hf).2.1]
    exact howed
  failed := by
    show c.failed = none ∨ c.failed = some .channelClose
    rw [hfailed]
    exact hs.failed

/-- Something is handed out that is neither `close_cb_` nor `DestroyConnection`. -/
theorem Stage.emit {w : ConnWorld} {p : Phase} (hs : Stage w p) {out : Option Outgoing}
    (hout : out = none ∨ out = some .runAfter ∨ out = some (.queueInLoop .lowWatermark)
      ∨ out = some (.queueInLoop .forceCloseInLoop)) : Stage (w.emit out) p := by
  have hpush : ∀ f : ConnFunctor, LoopFunctor f → f ≠ .destroyConnection →
      Stage { w with queue := w.queue ++ [f] } p := by
    intro f hf hne
    refine { hs with queue := ?_, owed := ?_ }
    · intro g hg
      rcases List.mem_append.mp hg with hg | hg
      · exact hs.queue g hg
      · rw [List.mem_singleton.mp hg]
        exact hf
    · rw [← hs.owed, List.count_append, List.count_singleton, if_neg (by simpa using hne)]
      rfl
  rcases hout with ho | ho | ho | ho
  · rw [ho]
    exact hs
  · rw [ho]
    exact { hs with }
  · rw [ho]
    exact hpush _ (.inl rfl) (by simp)
  · rw [ho]
    exact hpush _ (.inr (.inl rfl)) (by simp)

theorem frames_cons {p : Phase} {f : Frame} {rest : List Frame} (hf : FrameIn p f)
    (h : ∀ g ∈ rest, FrameIn p g) : ∀ g ∈ f :: rest, FrameIn p g :=
  List.forall_mem_cons.mpr ⟨hf, h⟩

theorem frames_pre {pre rest : List Frame} {call : SendCall} {remain : List OutByte}
    (hpre : pre = [] ∨ pre = [.user]) (h : ∀ g ∈ rest, FrameIn .opened g) :
    ∀ g ∈ pre ++ .bufferRest call remain :: rest, FrameIn .opened g := by
  have hbase := frames_cons (f := .bufferRest call remain) (by simp [FrameIn]) h
  rcases hpre with hp | hp
  · rw [hp]
    exact hbase
  · rw [hp]
    exact frames_cons (by simp [FrameIn]) hbase

theorem not_assign_pre {pre rest : List Frame} {call : SendCall} {remain : List OutByte}
    (hpre : pre = [] ∨ pre = [.user]) (h : Frame.shutdownAssign ∉ rest) :
    Frame.shutdownAssign ∉ pre ++ .bufferRest call remain :: rest := by
  rcases hpre with hp | hp
  · rw [hp]
    simpa using h
  · rw [hp]
    simpa using h

/-- A frame is put on user code of an open connection. -/
theorem Stage.push {w : ConnWorld} (hs : Stage w .opened) {f : Frame} (hf : FrameIn .opened f)
    (hassign : .shutdownAssign ∈ f :: w.conn.stack → w.conn.state = .kConnected) :
    Stage { w with conn := { w.conn with stack := f :: w.conn.stack } } .opened :=
  hs.open hs.life (frames_cons hf hs.frames) (fun h => by simpa using hs.connecting.mp h) hassign rfl

theorem stage_control {w : ConnWorld} {p : Phase} {a : LocalLabel} {stack : List Frame}
    (hn : Nested w.conn.stack) (hs : Stage w p) (h : TcpConnection.Control w.conn a stack) :
    Stage { w with conn := { w.conn with stack } } p := by
  -- one frame of an open connection for another
  have hreplace : ∀ {f f' : Frame} {rest : List Frame}, w.conn.stack = f :: rest →
      p = .opened → FrameIn .opened f' → f' ≠ .shutdownAssign →
      Stage { w with conn := { w.conn with stack := f' :: rest } } p := by
    intro f f' rest h hp hf hne
    rw [hp] at hs ⊢
    have hnot : Frame.shutdownAssign ∉ f' :: rest := by
      rw [h] at hn
      exact fun hmem => (List.mem_cons.mp hmem).elim (fun he => hne he.symm) (not_assign hn)
    exact hs.open hs.life (frames_cons hf (hs.rest h))
      (fun hc => by simpa using hs.connecting.mp hc) (fun hmem => absurd hmem hnot) rfl
  cases h with
  | ignored hu => exact hs
  | shutdown hu hst =>
    have hp := hs.opened_of_state (.inl hst)
    rw [hp] at hs ⊢
    exact hs.push (by simp [FrameIn]) fun _ => hst
  | forceClose hu hopen =>
    have hp := hs.opened_of_state (by simpa [TcpConnection.isOpen] using hopen)
    rw [hp] at hs ⊢
    refine hs.push (by simp [FrameIn]) fun hmem => ?_
    rcases List.mem_cons.mp hmem with he | hmem
    · exact absurd he (by simp)
    · exact absurd hmem (atUser_not_assign hn hu)
  | skip h hf =>
    refine hs.pop hn h fun he => ?_
    rw [he] at hf
    exact hf
  | forceCloseInLoop h hopen =>
    have hp := hs.opened_of_state (by simpa [TcpConnection.isOpen] using hopen)
    exact hreplace h hp (by simp [FrameIn]) (by simp)
  | drainedShutdown h hst =>
    exact hreplace h (hs.opened_of_state (.inr hst)) (by simp [FrameIn]) (by simp)
  | drainedClose h hst =>
    exact hreplace h (hs.opened_of_top h (opened_of_frame (by simp))) (by simp [FrameIn]) (by simp)
  | eof h =>
    exact hreplace h (hs.opened_of_top h (opened_of_frame (by simp))) (by simp [FrameIn]) (by simp)
  | notWritten h hne hpre =>
    have hp := hs.opened_of_top h (opened_of_frame (by simp))
    rw [hp] at hs ⊢
    rw [h] at hn
    exact hs.open hs.life (frames_pre hpre (hs.rest h))
      (fun hc => by simpa using hs.connecting.mp hc)
      (fun hmem => absurd hmem (not_assign_pre hpre (not_assign hn))) rfl

/-! ## Steps to the next phase -/

theorem stage_establish {w : ConnWorld} {p : Phase} {rest : List Frame} (hn : Nested w.conn.stack)
    (hs : Stage w p) (h : w.conn.stack = .establishConnection :: rest)
    (hst : w.conn.state = .kConnecting) :
    Stage { w with conn := w.conn.establishConnection rest } .opened := by
  have hp := hs.connecting.mp hst
  rw [hp] at hs
  rw [h] at hn
  have hrest := hn.alone fun _ hg => hg
  have hest : w.established = true := by
    by_contra he
    exact (hs.established (Bool.eq_false_iff.mpr he)).2 (by rw [h]; exact List.mem_cons_self)
  have howed : w.closes + w.queue.count .destroyConnection = 0 := by
    have ho := hs.owed
    rw [h, hrest] at ho
    simpa using ho
  have hlife := hs.life
  cases hcb : w.conn.hasConnectionCb with
  | false =>
    rw [TcpConnection.establishConnection, if_pos hst, hrest]
    dsimp only
    rw [if_neg (by simp [hcb])]
    rw [hcb] at hlife
    refine ⟨?_, by simp, by simp, ?_, by simp, by simp, by simp, by simp, hs.queue, ?_, hs.failed⟩
    · dsimp only
      rw [hcb]
      exact hlife.snoc rfl
    · exact fun he => absurd (hest.symm.trans he) (by simp)
    · simpa using howed
  | true =>
    rw [TcpConnection.establishConnection, if_pos hst, hrest]
    dsimp only
    rw [if_pos hcb]
    rw [hcb] at hlife
    refine ⟨?_, by simp, ?_, ?_, by simp, by simp, by simp, by simp, hs.queue, ?_, hs.failed⟩
    · dsimp only
      rw [hcb]
      exact (hlife.snoc rfl).snoc rfl
    · exact frames_cons (by simp [FrameIn]) (fun _ hg => absurd hg List.not_mem_nil)
    · exact fun he => absurd (hest.symm.trans he) (by simp)
    · simpa using howed

theorem stage_close {w : ConnWorld} {p : Phase} {rest : List Frame} (hn : Nested w.conn.stack)
    (hs : Stage w p) (h : w.conn.stack = .handleClose :: rest) :
    Stage ({ w with conn := { w.conn with
      state := .kDisconnected
      channel := w.conn.channel.disableRead.disableWrite
      trace := w.conn.trace ++ [ConnEvent.handleClose, ConnEvent.closeCb]
      stack := rest } }.emit (some .closeCb)) .closed := by
  have hp := hs.opened_of_top h (opened_of_frame (by simp))
  rw [hp] at hs
  have howed := hs.owed
  rw [count_destroy_zero fun f hf => (hs.frames f hf).2.1] at howed
  rw [h] at hn
  have hrest : ∀ g ∈ rest, g = .handleWrite := fun g hg => hn.under hg
  refine ⟨?_, by simp, ?_, ?_, by simp, by simp, ?_, ?_, hs.queue, ?_, hs.failed⟩
  · have hlife := (hs.life.snoc (e := .handleClose) rfl).snoc (e := .closeCb) rfl
    rw [List.append_assoc] at hlife
    exact hlife
  · exact fun g hg => .inr (.inr (.inr (.inl (hrest g hg))))
  · exact fun he => absurd (hs.established he).1 (by simp)
  · exact fun _ => ⟨rfl, by simp [emit], by simp [emit]⟩
  · exact fun hmem => absurd hmem (not_assign hn)
  · have hcount : rest.count .destroyConnection = 0 :=
      count_destroy_zero fun g hg => by rw [hrest g hg]; simp
    simp only [emit, hcount] at howed ⊢
    simp at howed ⊢
    omega

theorem stage_destroy {w : ConnWorld} {p : Phase} {rest : List Frame} (hn : Nested w.conn.stack)
    (hs : Stage w p) (h : w.conn.stack = .destroyConnection :: rest) :
    Stage { w with conn := w.conn.destroyConnection rest } .destroyed := by
  have hp : p = .closed := by
    have htop := hs.top h
    cases p <;> simp [FrameIn] at htop ⊢
  rw [hp] at hs
  rw [h] at hn
  have hrest := hn.alone fun _ hg => hg
  have hest : w.established = true := by
    by_contra he
    exact absurd (hs.established (Bool.eq_false_iff.mpr he)).1 (by simp)
  have howed : w.closes + w.queue.count .destroyConnection = 0 := by
    have ho := hs.owed
    rw [h, hrest] at ho
    simpa using ho
  have hlife := hs.life
  cases hcb : w.conn.hasConnectionCb with
  | false =>
    unfold TcpConnection.destroyConnection
    dsimp only
    rw [if_neg (by simp [hcb]), hrest]
    rw [hcb] at hlife
    refine ⟨?_, by simp, ?_, ?_, by simp, by simp, by simp, by simp, hs.queue, ?_, hs.failed⟩
    · dsimp only
      rw [hcb]
      exact hlife.snoc rfl
    · exact frames_cons (by simp [FrameIn]) (fun _ hg => absurd hg List.not_mem_nil)
    · exact fun he => absurd (hest.symm.trans he) (by simp)
    · simpa using howed
  | true =>
    unfold TcpConnection.destroyConnection
    dsimp only
    rw [if_pos hcb, hrest]
    rw [hcb] at hlife
    refine ⟨?_, by simp, ?_, ?_, by simp, by simp, by simp, by simp, hs.queue, ?_, hs.failed⟩
    · dsimp only
      rw [hcb]
      exact (hlife.snoc rfl).snoc rfl
    · exact frames_cons (by simp [FrameIn])
        (frames_cons (by simp [FrameIn]) fun _ hg => absurd hg List.not_mem_nil)
    · exact fun he => absurd (hest.symm.trans he) (by simp)
    · simpa using howed

end ConnWorld

end Windz
