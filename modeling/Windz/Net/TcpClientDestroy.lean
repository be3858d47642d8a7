import Windz.Net.ConnForceClose
import Windz.Net.TcpClientStop

/-!
# What is left after `~TcpClient`

The callbacks of the connector and of the connections hold the client by a plain
pointer, and `~TcpClient` takes back neither. So it must be over when it returns: the
connector is not going to call `conn_cb_` again, and the connections have been closed.
A connection that is closed stays so; one that is still open, or that `ForceClose` has
only marked, calls its close callback when its peer closes.
-/

namespace Windz

open Lib

namespace ConnWorld

/-- The frame may go on to `HandleClose`, from itself or by what it makes the loop report. -/
def MayClose (c : TcpConnection) : Frame → Prop
  | .directWrite _ | .bufferRest _ _ | .handleRead | .readSocket | .writeOutput
  | .drainedShutdown | .drainedClose | .handleClose => True
  | .handleWrite => c.channel.writeEnabled = true
  | .user | .establishConnection | .destroyConnection | .destroyClose | .sendInLoop _
  | .shutdownAssign | .shutdownInLoop | .forceCloseAssign | .forceCloseInLoop | .handleError =>
      False

instance (c : TcpConnection) (f : Frame) : Decidable (MayClose c f) := by
  cases f <;> unfold MayClose <;> infer_instance

/-- Nothing in the connection leads to `close_cb_`. -/
structure Settled (c : TcpConnection) : Prop where
  state : c.state = .kDisconnected
  frames : ∀ f ∈ c.stack, ¬ MayClose c f

instance (c : TcpConnection) : Decidable (Settled c) :=
  decidable_of_iff (c.state = .kDisconnected ∧ ∀ f ∈ c.stack, ¬ MayClose c f)
    ⟨fun h => ⟨h.1, h.2⟩, fun h => ⟨h.state, h.frames⟩⟩

theorem Settled.closed {c : TcpConnection} (h : Settled c) : c.isOpen = false := by
  unfold TcpConnection.isOpen
  rw [h.state]
  rfl

/-- A frame is left. -/
theorem Settled.pop {c c' : TcpConnection} (h : Settled c) {f : Frame} {rest : List Frame}
    (hstk : c.stack = f :: rest) (hs : c'.state = .kDisconnected) (hstk' : c'.stack = rest)
    (hw : c'.channel.writeEnabled = true → c.channel.writeEnabled = true) : Settled c' := by
  refine ⟨hs, fun g hg hmay => ?_⟩
  rw [hstk'] at hg
  refine h.frames g (by rw [hstk]; exact List.mem_cons_of_mem _ hg) ?_
  cases g <;> first | exact hmay | exact hw hmay

/-- **A step inside a settled connection.** -/
theorem settled_localStep {w : ConnWorld} {c : TcpConnection} {a : LocalLabel}
    {out : Option Outgoing} (h : Settled w.conn) (hok : w.NoLateShutdown (.run a))
    (hs : TcpConnection.LocalStep w.conn a c out) : Settled c ∧ out ≠ some .closeCb := by
  have hno : ∀ {f : Frame} {rest : List Frame} {p : Prop}, w.conn.stack = f :: rest →
      MayClose w.conn f → p :=
    fun hstk hmay => absurd hmay (h.frames _ (by rw [hstk]; exact List.mem_cons_self))
  have hstate : ∀ {s : ConnState} {p : Prop}, w.conn.state = s → s ≠ .kDisconnected → p :=
    fun he hne => absurd (he.symm.trans h.state) hne
  cases hs with
  | control hc =>
    refine ⟨?_, by simp⟩
    cases hc with
    | ignored hu => exact h
    | shutdown hu hs => exact hstate hs (by simp)
    | forceClose hu hs => exact absurd (h.closed.symm.trans hs) (by simp)
    | skip hstk hf => exact h.pop hstk h.state rfl id
    | forceCloseInLoop hstk hs => exact absurd (h.closed.symm.trans hs) (by simp)
    | drainedShutdown hstk hs => exact hno hstk trivial
    | drainedClose hstk hs => exact hno hstk trivial
    | eof hstk => exact hno hstk trivial
    | notWritten hstk hne hpre => exact hno hstk trivial
  | send hu hs => exact hstate hs (by simp)
  | forceCloseAfter hu => exact ⟨h, by simp⟩
  | establish hstk hs => exact hstate hs (by simp)
  | establishFails hstk hs => exact ⟨⟨h.state, h.frames⟩, by simp⟩
  | @destroy rest hstk =>
    refine ⟨?_, by simp⟩
    have hrest : ∀ (c : TcpConnection), c.channel.writeEnabled = false →
        ∀ f ∈ rest, ¬ MayClose c f := by
      intro c hw f hf hmay
      refine h.frames f (by rw [hstk]; exact List.mem_cons_of_mem _ hf) ?_
      cases f <;> first | exact hmay | exact absurd (hw.symm.trans hmay) (by simp)
    have hw := Channel.disableReadWrite_writeEnabled w.conn.channel
    unfold TcpConnection.destroyConnection
    dsimp only
    split
    · exact ⟨rfl, List.forall_mem_cons.mpr ⟨id, List.forall_mem_cons.mpr ⟨id, hrest _ hw⟩⟩⟩
    · exact ⟨rfl, List.forall_mem_cons.mpr ⟨id, hrest _ hw⟩⟩
  | destroyClose hstk => exact ⟨h.pop hstk h.state rfl id, by simp⟩
  | closeFails hstk => exact ⟨⟨h.state, h.frames⟩, by simp⟩
  | discard hstk hs => exact ⟨h.pop hstk h.state rfl id, by simp⟩
  | shutdownAssign hstk => exact hstate (hok (by rw [hstk]; rfl)) (by simp)
  | shut hstk hw => exact ⟨h.pop hstk h.state rfl id, by simp⟩
  | forceCloseAssign hstk => exact ⟨h.pop hstk rfl rfl id, by simp⟩
  | direct hstk hs => exact absurd h.state hs
  | queue hstk hs => exact absurd h.state hs
  | queueEmpty hstk hs => exact absurd h.state hs
  | handleWrite hstk hpre =>
    rcases hpre with ⟨hpre, hw⟩ | ⟨_, hw⟩
    · exact ⟨h.pop hstk h.state (by rw [hpre]; rfl) id, by simp⟩
    · exact hno hstk hw
  | _ hstk => exact hno hstk trivial

/-- `epoll` reports neither input nor output. -/
def NoTraffic : Label → Prop
  | .event _ readable writable => readable = false ∧ writable = false
  | _ => True

instance (a : Label) : Decidable (NoTraffic a) :=
  match a with
  | .event _ readable writable => inferInstanceAs (Decidable (readable = false ∧ writable = false))
  | .run _ | .establish | .ownerAnswers | .functor | .timer | .threadCall _ _ | .threadNext _ =>
      .isTrue trivial

/-- **A step of a settled connection** does not call `close_cb_`. -/
theorem settled_step {w w' : ConnWorld} {a : Label} (h : Settled w.conn)
    (hok : w.NoLateShutdown a) (ht : NoTraffic a) (hs : WorldStep w a w') :
    Settled w'.conn ∧ w'.closes ≤ w.closes := by
  cases hs with
  | @run a conn out hl =>
    obtain ⟨hset, hout⟩ := settled_localStep h hok hl
    refine ⟨by rw [emit_conn]; exact hset, ?_⟩
    unfold emit
    split <;> first | exact Nat.le_refl _ | exact absurd rfl hout
  | establish he hstk => exact ⟨⟨h.state, by simp [MayClose]⟩, Nat.le_refl _⟩
  | ownerAnswers hc => exact ⟨h, Nat.sub_le _ _⟩
  | @functor f rest hq hstk =>
    refine ⟨⟨h.state, ?_⟩, Nat.le_refl _⟩
    cases f <;> simp [TcpConnection.functorFrames, MayClose]
  | timer hn hstk => exact ⟨⟨h.state, by simp [MayClose]⟩, Nat.le_refl _⟩
  | @event error readable writable hr hstk =>
    refine ⟨⟨h.state, ?_⟩, Nat.le_refl _⟩
    rw [ht.1, ht.2]
    cases error <;> simp [TcpConnection.eventFrames, MayClose]
  | assignShutdown hp => exact absurd ((hok hp).symm.trans h.state) (by simp)
  | assignForceClose hp => exact ⟨⟨rfl, h.frames⟩, Nat.le_refl _⟩
  | _ => exact ⟨⟨h.state, h.frames⟩, Nat.le_refl _⟩

end ConnWorld

namespace ConnectorLoop

instance (l : ConnectorLoop) : Decidable (Quiet l) :=
  decidable_of_iff (.connect ∉ l.connector.stack ∧ (l.connector.start = true →
      l.connector.state ≠ .kConnecting ∧ ¬ l.MayConnect ∧ ∀ f ∈ l.connector.stack, l.RestFrame f))
    ⟨fun h => ⟨h.1, h.2⟩, fun h => ⟨h.notConnecting, h.rest⟩⟩

/-- The connector is not going to call `conn_cb_`. -/
def Silenced (l : ConnectorLoop) : Prop := l.connector.start = false ∨ Quiet l

instance (l : ConnectorLoop) : Decidable (Silenced l) := by
  unfold Silenced
  infer_instance

theorem start_step {l l' : ConnectorLoop} {a : Label} (ha : KeepsStopped a)
    (hs : l.step a = some l') (h : l.connector.start = false) : l'.connector.start = false := by
  cases (step_cases hs).2 with
  | @run b c out hrun =>
    have hemit : ({ l with connector := c }.emit out).connector = c := by
      unfold emit
      split <;> rfl
    rw [hemit]
    cases hrun <;> exact h
  | start hstk => exact ha.elim
  | stop hstk => rfl
  | restart ho hstk => exact ha.elim
  | threadAssign start =>
    cases start with
    | true => exact ha.elim
    | false => rfl
  | _ => exact h

/-- **A step of a silenced connector** does not call `conn_cb_`. -/
theorem silenced_step {l l' : ConnectorLoop} {a : Label} (hcore : Core l) (h : Silenced l)
    (ha : KeepsStopped a) (hs : l.step a = some l') : Silenced l' ∧ l'.opened ≤ l.opened := by
  constructor
  · rcases h with h | h
    · exact .inl (start_step ha hs h)
    · exact .inr (quiet_step hcore h ha hs).1
  · rcases opened_step hs with ⟨_, ho⟩ | ⟨_, ho | ⟨_, _, hstart, socket, rest, hstk, _⟩⟩
    · omega
    · omega
    · have hstop : l.connector.start = false := by
        rcases h with h | h
        · exact h
        · exact h.start_false hstk (.inr (.inr ⟨socket, rfl⟩))
      exact absurd (hstop.symm.trans hstart) (by simp)

end ConnectorLoop

namespace TcpClient

variable {tid otherTid : ThreadId} {hasConnectionCb : Bool}

/-- `~TcpClient` returns, in the loop thread or in the other one. -/
def Returns (w : TcpClient) (a : Label) : Prop :=
  a = .next ∧ w.stack.head? = some .destructed ∨ a = .otherNext ∧ w.other = .destructing

/-- The client is over. -/
structure Over (w : TcpClient) : Prop where
  /-- The loop thread is in none of its functions, the destructor apart. -/
  stack : ∀ f ∈ w.stack, f = .destructed
  connector : w.connector.Silenced
  conns : ∀ cc ∈ w.conns, ConnWorld.Settled cc.world.conn

instance (w : TcpClient) (a : Label) : Decidable (w.Returns a) := by
  unfold Returns
  infer_instance

instance (w : TcpClient) : Decidable (Over w) :=
  decidable_of_iff ((∀ f ∈ w.stack, f = .destructed) ∧ w.connector.Silenced
      ∧ ∀ cc ∈ w.conns, ConnWorld.Settled cc.world.conn)
    ⟨fun h => ⟨h.1, h.2.1, h.2.2⟩, fun h => ⟨h.stack, h.connector, h.conns⟩⟩

/-- A connection that survives the client is left alone: no `Shutdown` of another thread assigns
`state_` late, and `epoll` reports no input or output. -/
def LeavesAlone (w : TcpClient) : Label → Prop
  | .conn i b => ∀ cc ∈ w.conns[i]?, cc.world.NoLateShutdown b ∧ ConnWorld.NoTraffic b
  | _ => True

instance (w : TcpClient) (a : Label) : Decidable (w.LeavesAlone a) :=
  match a with
  | .conn i b => inferInstanceAs (Decidable
      (∀ cc ∈ w.conns[i]?, cc.world.NoLateShutdown b ∧ ConnWorld.NoTraffic b))
  | .connect | .disconnect | .stop | .enableRetry | .destroy _ | .newTcpConnection _ _ | .next
  | .replace | .connector _ | .otherConnect | .otherDisconnect | .otherStop | .otherDestroy _
  | .otherNext => .isTrue trivial

/-- `~TcpClient` returns when the client is over, and its connections are left alone from then on. -/
def EndsOver (w : TcpClient) (a : Label) : Prop :=
  (w.Returns a → Over w) ∧ (w.life = .destroyed → w.LeavesAlone a)

instance (w : TcpClient) (a : Label) : Decidable (w.EndsOver a) := by
  unfold EndsOver
  infer_instance

/-! ## Where the destructor is -/

/-- The end of `~TcpClient` comes once. -/
structure Ending (w : TcpClient) : Prop where
  once : w.stack.count .destructed ≤ 1
  alive : w.life = .alive → .destructed ∉ w.stack
  /-- It is in one thread only. -/
  other : .destructed ∈ w.stack → w.other = .idle

theorem Ending.keep {w w' : TcpClient} (h : Ending w)
    (hcount : w'.stack.count .destructed ≤ w.stack.count .destructed)
    (hlife : w'.life = .alive → w.life = .alive)
    (ho : w'.other = w.other ∨ w.other ≠ .idle ∨ w.life = .alive) : Ending w' := by
  have hmem : .destructed ∈ w'.stack → .destructed ∈ w.stack := by
    intro hm
    have hpos := List.count_pos_iff.mpr hm
    exact List.count_pos_iff.mp (by omega)
  refine ⟨Nat.le_trans hcount h.once, fun ha hm => h.alive (hlife ha) (hmem hm), fun hm => ?_⟩
  rcases ho with ho | ho | ho
  · exact ho.trans (h.other (hmem hm))
  · exact absurd (h.other (hmem hm)) ho
  · exact absurd (hmem hm) (h.alive ho)

theorem ending_plain {w w' : TcpClient} {a : Label} (h : Ending w) (hs : PlainMove w a w') :
    Ending w' := by
  cases hs with
  | connect hcall hs => exact h.keep (by simp) id (.inl rfl)
  | stop hcall => exact h.keep (by simp) id (.inl rfl)
  | destroyStop hcall ho hc => exact ⟨by simp, by simp, fun _ => ho⟩
  | @destroy unique i cc hcall ho hc hcc =>
    refine ⟨?_, by simp, fun _ => ho⟩
    cases unique <;> simp
  | newTcpConnection hstk hlife hw =>
    exact h.keep (by rw [hstk]; exact List.count_le_count_cons) id (.inl rfl)
  | testRetry hstk hr =>
    exact h.keep (by rw [hstk]; simp) id (.inl rfl)
  | testStart hstk hs =>
    exact h.keep (by rw [hstk]; simp) id (.inl rfl)
  | destructed hstk hs =>
    exact h.keep (by rw [hstk]; exact List.count_le_count_cons) (by simp) (.inl rfl)
  | otherConnect ho hlife hs => exact h.keep (Nat.le_refl _) id (.inr (.inr hlife))
  | otherDisconnect ho hlife => exact h.keep (Nat.le_refl _) id (.inr (.inr hlife))
  | otherStop ho hlife => exact h.keep (Nat.le_refl _) id (.inr (.inr hlife))
  | otherDestroy ho hlife => exact h.keep (Nat.le_refl _) (by simp) (.inr (.inr hlife))
  | otherReturns ho =>
    refine h.keep (Nat.le_refl _) id (.inr (.inl ?_))
    rcases ho with ⟨ho | ho, _⟩ | ⟨ho, _⟩ <;> simp [ho]
  | otherReplaces ho => exact h.keep (Nat.le_refl _) id (.inr (.inl (by simp [ho])))
  | otherDestructed ho => exact h.keep (Nat.le_refl _) (by simp) (.inr (.inl (by simp [ho])))
  | _ => exact ⟨h.once, h.alive, h.other⟩

theorem ending_connector {w v : TcpClient} {a : Label} {b : ConnectorLoop.Label}
    {connector : ConnectorLoop} (h : Ending w) (hm : ConnectorMove w a v b) :
    Ending (v.afterConnector connector) := by
  have hafter : ∀ {v : TcpClient}, Ending v → Ending (v.afterConnector connector) := by
    intro v hv
    refine hv.keep ?_ id (.inl rfl)
    unfold afterConnector
    dsimp only
    split
    · exact Nat.le_of_eq (List.count_cons_of_ne (by simp))
    · exact Nat.le_refl _
  refine hafter ?_
  cases hm with
  | own hown => exact h
  | startConnector hstk hlife =>
    exact h.keep (by rw [hstk]; exact List.count_le_count_cons) id (.inl rfl)
  | stopConnector hstk hlife =>
    exact h.keep (by rw [hstk]; exact List.count_le_count_cons) id (.inl rfl)
  | removed hstk hf hlife =>
    exact h.keep (by rw [hstk]; exact List.count_le_count_cons) id (.inl rfl)
  | assignTrue ho => exact h.keep (Nat.le_refl _) id (.inr (.inl (by simp [ho])))
  | queueStart ho => exact h.keep (Nat.le_refl _) id (.inr (.inl (by simp [ho])))
  | assignFalse ho =>
    refine h.keep (Nat.le_refl _) id (.inr (.inl ?_))
    rcases ho with ⟨ho, _⟩ | ⟨⟨unique, ho⟩, _⟩ <;> simp [ho]
  | queueStop ho =>
    refine h.keep (Nat.le_refl _) id (.inr (.inl ?_))
    rcases ho with ⟨ho, _⟩ | ⟨ho, _⟩ <;> simp [ho]

theorem ending_conn {w v : TcpClient} {a : Label} {i : Nat} {b : ConnWorld.Label}
    {cc : ClientConn} {world : ConnWorld} (h : Ending w) (hm : ConnMove w a v i b) :
    Ending (v.afterConn i cc world) := by
  have hafter : ∀ {v : TcpClient}, Ending v → Ending (v.afterConn i cc world) := by
    intro v hv
    refine hv.keep ?_ id (.inl rfl)
    unfold afterConn closeCb
    dsimp only
    split
    · exact Nat.le_of_eq (List.count_cons_of_ne (by split <;> simp))
    · exact Nat.le_refl _
  refine hafter ?_
  cases hm with
  | own hown => exact h
  | disconnect hcall hc => exact ⟨h.once, h.alive, h.other⟩
  | remove hstk hlife hc => exact h.keep (by rw [hstk]; simp) id (.inl rfl)
  | closed hstk hlife =>
    exact h.keep (by rw [hstk]; exact List.count_le_count_cons) id (.inl rfl)
  | forceClose hstk hlife =>
    exact h.keep (by rw [hstk]; exact List.count_le_count_cons) id (.inl rfl)
  | other hb ho =>
    refine h.keep (Nat.le_refl _) id (.inr (.inl ?_))
    rcases ho with ⟨ho, _⟩ | ⟨ho, _⟩ | ⟨ho | ho, _⟩ <;> simp [ho]

theorem ending_reachable {ok : TcpClient → Label → Prop} {w : TcpClient}
    (h : Reachable (machine tid otherTid hasConnectionCb) ok w) : Ending w := by
  refine h.invariant (I := Ending) ?_ ?_
  · rintro w ⟨_, now, rfl⟩
    exact ⟨by simp [create], by simp [create], by simp [create]⟩
  · intro w a w' _ hi _ hs
    cases (step_cases hs).2 with
    | plain hm => exact ending_plain hi hm
    | connector hm _ => exact ending_connector hi hm
    | conn hm _ _ => exact ending_conn hi hm

/-! ## After the destructor -/

/-- After `~TcpClient`. -/
structure Dead (w : TcpClient) : Prop where
  stack : w.stack = []
  other : w.other = .idle
  connector : w.connector.Silenced
  conns : ∀ cc ∈ w.conns, ConnWorld.Settled cc.world.conn

/-- No member of the client was used after `~TcpClient`, nor is one going to be. -/
def Safe (w : TcpClient) : Prop := w.fault = false ∧ (w.life = .destroyed → Dead w)

theorem dead_plain {w w' : TcpClient} {a : Label} (hend : Ending w) (h : Safe w)
    (hok : w.EndsOver a) (hs : PlainMove w a w') : Safe w' := by
  have hno : ∀ {f : ClientFrame} {rest : List ClientFrame}, w.stack = f :: rest →
      w.life ≠ .destroyed := by
    intro f rest hstk hlife
    exact absurd (hstk.symm.trans (h.2 hlife).stack) (by simp)
  have halive : ∀ {p : Prop}, w.life = .alive → w.life = .destroyed → p :=
    fun ha hd => absurd (ha.symm.trans hd) (by simp)
  have hbusy : w.other ≠ .idle → w.life ≠ .destroyed := fun ho hd => ho (h.2 hd).other
  cases hs with
  | connect hcall hs => exact ⟨h.1, halive (canCall_stack hcall).1⟩
  | connectFails ha hs => exact ⟨h.1, fun hd => { h.2 hd with }⟩
  | disconnect hcall => exact ⟨h.1, halive (canCall_stack hcall).1⟩
  | stop hcall => exact ⟨h.1, halive (canCall_stack hcall).1⟩
  | enableRetry => exact ⟨h.1, fun hd => { h.2 hd with }⟩
  | destroyStop hcall ho hc => exact ⟨h.1, by simp⟩
  | destroy hcall ho hc hcc => exact ⟨h.1, by simp⟩
  | newTcpConnection hstk hlife hw => exact ⟨h.1, fun hd => absurd hd hlife⟩
  | fault hlife hstk ha => exact absurd (h.2 hlife).stack hstk
  | removeFails hstk hc => exact ⟨h.1, fun hd => absurd hd (hno hstk)⟩
  | testRetry hstk hr => exact ⟨h.1, fun hd => absurd hd (hno hstk)⟩
  | testStart hstk hs => exact ⟨h.1, fun hd => absurd hd (hno hstk)⟩
  | @destructed rest hstk hs =>
    have hover := hok.1 (.inl ⟨rfl, by rw [hstk]; rfl⟩)
    refine ⟨h.1, fun _ => ⟨?_, ?_, hover.connector, hover.conns⟩⟩
    · refine List.eq_nil_iff_forall_not_mem.mpr fun f (hf : f ∈ rest) => ?_
      have hf' := hover.stack f (by rw [hstk]; exact List.mem_cons_of_mem _ hf)
      have honce := hend.once
      rw [hstk, List.count_cons_self] at honce
      rw [hf', ← List.count_pos_iff] at hf
      omega
    · exact hend.other (by rw [hstk]; exact List.mem_cons_self)
  | replace hq hcc =>
    refine ⟨h.1, fun hd => { h.2 hd with conns := fun cc' hmem => ?_ }⟩
    rcases List.mem_or_eq_of_mem_set hmem with hmem | he
    · exact (h.2 hd).conns cc' hmem
    · have hsettled := (h.2 hd).conns _ (List.mem_of_getElem? hcc)
      rw [he]
      exact hsettled
  | otherConnect ho hlife hs => exact ⟨h.1, halive hlife⟩
  | otherDisconnect ho hlife => exact ⟨h.1, halive hlife⟩
  | otherStop ho hlife => exact ⟨h.1, halive hlife⟩
  | otherDestroy ho hlife => exact ⟨h.1, by simp⟩
  | otherReturns ho =>
    refine ⟨h.1, fun hd => absurd hd (hbusy ?_)⟩
    rcases ho with ⟨ho | ho, _⟩ | ⟨ho, _⟩ <;> simp [ho]
  | otherReplaces ho => exact ⟨h.1, fun hd => absurd hd (hbusy (by simp [ho]))⟩
  | otherDestructed ho =>
    have hover := hok.1 (.inr ⟨rfl, ho⟩)
    refine ⟨h.1, fun _ => ⟨?_, rfl, hover.connector, hover.conns⟩⟩
    refine List.eq_nil_iff_forall_not_mem.mpr fun f hf => ?_
    rw [hover.stack f hf] at hf
    exact absurd (ho.symm.trans (hend.other hf)) (by simp)

theorem dead_connector {w v : TcpClient} {a : Label} {b : ConnectorLoop.Label}
    {connector : ConnectorLoop} (hcore : w.connector.Core) (h : Safe w)
    (hm : ConnectorMove w a v b) (hs : w.connector.step b = some connector) :
    Safe (v.afterConnector connector) := by
  have hno : ∀ {f : ClientFrame} {rest : List ClientFrame} {p : Prop}, w.stack = f :: rest →
      w.life = .destroyed → p :=
    fun hstk hd => absurd (hstk.symm.trans (h.2 hd).stack) (by simp)
  have hbusy : ∀ {p : Prop}, w.other ≠ .idle → w.life = .destroyed → p :=
    fun ho hd => absurd (h.2 hd).other ho
  cases hm with
  | own hown =>
    refine ⟨h.1, fun hd => ?_⟩
    have hdead := h.2 hd
    have hkeeps := keepsStopped_of_own hown
    obtain ⟨hsilenced, ho⟩ := ConnectorLoop.silenced_step hcore hdead.connector hkeeps hs
    refine { hdead with stack := ?_, connector := hsilenced }
    unfold afterConnector
    dsimp only
    rw [if_neg (by omega)]
    exact hdead.stack
  | startConnector hstk hlife => exact ⟨h.1, hno hstk⟩
  | stopConnector hstk hlife => exact ⟨h.1, hno hstk⟩
  | removed hstk hf hlife => exact ⟨h.1, hno hstk⟩
  | assignTrue ho => exact ⟨h.1, hbusy (by simp [ho])⟩
  | queueStart ho => exact ⟨h.1, hbusy (by simp [ho])⟩
  | assignFalse ho =>
    refine ⟨h.1, hbusy ?_⟩
    rcases ho with ⟨ho, _⟩ | ⟨⟨unique, ho⟩, _⟩ <;> simp [ho]
  | queueStop ho =>
    refine ⟨h.1, hbusy ?_⟩
    rcases ho with ⟨ho, _⟩ | ⟨ho, _⟩ <;> simp [ho]

theorem dead_conn {w v : TcpClient} {a : Label} {i : Nat} {b : ConnWorld.Label}
    {cc : ClientConn} {world : ConnWorld} (h : Safe w) (hok : w.EndsOver a)
    (hm : ConnMove w a v i b) (hcc : w.conns[i]? = some cc) (hs : cc.world.step b = some world) :
    Safe (v.afterConn i cc world) := by
  have hno : ∀ {f : ClientFrame} {rest : List ClientFrame} {p : Prop}, w.stack = f :: rest →
      w.life = .destroyed → p :=
    fun hstk hd => absurd (hstk.symm.trans (h.2 hd).stack) (by simp)
  cases hm with
  | own hown =>
    refine ⟨h.1, fun hd => ?_⟩
    have hdead := h.2 hd
    obtain ⟨hlate, htraffic⟩ := hok.2 hd cc hcc
    obtain ⟨hsettled, hcloses⟩ := ConnWorld.settled_step
      (hdead.conns cc (List.mem_of_getElem? hcc)) hlate htraffic (ConnWorld.step_cases hs).2
    refine { hdead with stack := ?_, conns := fun cc' hmem => ?_ }
    · unfold afterConn
      dsimp only
      rw [if_neg (by omega)]
      exact hdead.stack
    · rcases List.mem_or_eq_of_mem_set hmem with hmem | he
      · exact hdead.conns cc' hmem
      · rw [he]
        exact hsettled
  | disconnect hcall hc =>
    exact ⟨h.1, fun hd => absurd ((canCall_stack hcall).1.symm.trans hd) (by simp)⟩
  | remove hstk hlife hc => exact ⟨h.1, hno hstk⟩
  | closed hstk hlife => exact ⟨h.1, hno hstk⟩
  | forceClose hstk hlife => exact ⟨h.1, hno hstk⟩
  | other hb ho =>
    refine ⟨h.1, fun hd => absurd (h.2 hd).other ?_⟩
    rcases ho with ⟨ho, _⟩ | ⟨ho, _⟩ | ⟨ho | ho, _⟩ <;> simp [ho]

/-- **When nothing uses a destroyed client.** The loop thread or the other one destroys the client. If
`~TcpClient` returns when the client is over, and its connections are left alone from then on, no
member of it is used after `~TcpClient` has returned. -/
theorem no_use_after_destructor {w : TcpClient}
    (h : Reachable (machine tid otherTid hasConnectionCb) EndsOver w) : w.fault = false := by
  suffices hsafe : Safe w from hsafe.1
  refine h.invariant (I := Safe) ?_ ?_
  · rintro w ⟨_, now, rfl⟩
    exact ⟨rfl, by simp [create]⟩
  · intro w a w' hr hi hok hs
    obtain ⟨hh, hstep⟩ := step_cases hs
    cases hstep with
    | plain hm => exact dead_plain (ending_reachable hr) hi hok hm
    | connector hm hb => exact dead_connector ((base_reachable hr).core hh) hi hm hb
    | conn hm hcc hb => exact dead_conn hi hok hm hcc hb

/-- The peer closes the connection, the client is destroyed, and then the connection. -/
theorem no_use_after_destructor_small : ∃ w, Reachable (machine 0 1 false) EndsOver w
    ∧ w.life = .destroyed ∧ (∃ cc ∈ w.conns, cc.world.conn.channel.registered = false)
    ∧ w.fault = false := by
  have hexec : ((machine 0 1 false).exec EndsOver (create 0 1 false ⟨0⟩)
      [.connect, .next, .connector (.run .next), .connector (.run (.connect none)),
        .connector (.event false true), .connector (.run (.socket .good)),
        .connector (.run .next), .newTcpConnection false false, .conn 0 (.run .next),
        .conn 0 (.event false true false), .conn 0 (.run .next), .conn 0 (.run (.read .eof)),
        .conn 0 (.run .next), .next, .next, .destroy true, .next, .connector (.run .next), .next,
        .conn 0 .functor, .conn 0 (.run .next), .conn 0 (.run .next)]).map (fun w => decide
          (w.life = .destroyed ∧ ∃ cc ∈ w.conns, cc.world.conn.channel.registered = false))
      = some true := by decide +kernel
  obtain ⟨w, hr, hp⟩ := Machine.exec_reachable (M := machine 0 1 false)
    ⟨by decide, ⟨0⟩, rfl⟩ hexec
  have hp := of_decide_eq_true hp
  exact ⟨w, hr, hp.1, hp.2, no_use_after_destructor hr⟩

/-- The user keeps the connection of a client that he destroys, and the peer closes it. -/
theorem use_after_destructor :
    ¬ ∀ w, Reachable (machine 0 1 false) (fun _ _ => True) w → w.fault = false := by
  intro hall
  have hexec : ((machine 0 1 false).exec (fun _ _ => True) (create 0 1 false ⟨0⟩)
      [.connect, .next, .connector (.run .next), .connector (.run (.connect none)),
        .connector (.event false true), .connector (.run (.socket .good)),
        .connector (.run .next), .newTcpConnection false false, .conn 0 (.run .next),
        .destroy false, .next, .conn 0 (.event false true false), .conn 0 (.run .next),
        .conn 0 (.run (.read .eof)), .conn 0 (.run .next), .next]).map (fun w => w.fault)
      = some true := by decide +kernel
  obtain ⟨w, hr, hp⟩ := Machine.exec_reachable (M := machine 0 1 false)
    ⟨by decide, ⟨0⟩, rfl⟩ hexec
  exact absurd ((hall w hr).symm.trans hp) (by simp)

end TcpClient

end Windz
