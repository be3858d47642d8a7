import Windz.Net.ConnLifecycle
import Windz.Net.TcpClientSteps

/-!
# What a client keeps

The connector is in `kConnected` as long as one of its sockets is with the client: a
connection in `connection_`, one that `NewTcpConnection` is about to make, or one that
`RemoveTcpConnection` is leaving. So there is one at most, and a new connection never
takes the place of another.

In runs of the loop thread the close callback of a connection is called while it is
still in `connection_`. What does fail there is the assertion of `Connector::Start`,
when `Connect` comes during an attempt or after one that succeeded.
-/

namespace Windz

open Lib

/-! ## The connector -/

namespace ConnectorLoop

/-- How a step changes the number of open connections. -/
theorem opened_step {l l' : ConnectorLoop} {a : Label} (h : l.step a = some l') :
    (∃ restart, a = .closed restart) ∧ l'.opened + 1 = l.opened
      ∨ (∀ restart, a ≠ .closed restart) ∧ (l'.opened = l.opened
        ∨ l'.opened = l.opened + 1 ∧ a = .run .next ∧ l.connector.start = true
          ∧ ∃ socket rest, l.connector.stack = .connected socket :: rest
            ∧ l'.connector.stack = rest) := by
  cases (step_cases h).2 with
  | @run b c out hrun =>
    refine .inr ⟨by simp, ?_⟩
    cases hrun with
    | connCb hstk hs => exact .inr ⟨rfl, rfl, hs, _, _, hstk, rfl⟩
    | _ => exact .inl rfl
  | closed ho => exact .inl ⟨⟨_, rfl⟩, by show l.opened - 1 + 1 = l.opened; omega⟩
  | restart ho hs => exact .inl ⟨⟨_, rfl⟩, by show l.opened - 1 + 1 = l.opened; omega⟩
  | _ => exact .inr ⟨by simp, .inl rfl⟩

end ConnectorLoop

namespace TcpClient

/-- The frames that hold a socket which the connector has handed over. -/
def holds : ClientFrame → Nat
  | .newTcpConnection | .testRetry | .testStart | .restart => 1
  | .startConnector | .stopConnector | .remove _ | .closed _ | .forceClose _ | .destructed => 0

/-- How many such frames there are. -/
def held : List ClientFrame → Nat
  | [] => 0
  | f :: rest => holds f + held rest

@[simp] theorem held_cons (f : ClientFrame) (rest : List ClientFrame) :
    held (f :: rest) = holds f + held rest := rfl

theorem holds_closeCb (cc : ClientConn) (i : Nat) : holds (closeCb cc i) = 0 := by
  unfold closeCb
  split <;> rfl

theorem held_afterConn {v : TcpClient} {i : Nat} {cc : ClientConn} {world : ConnWorld} :
    held (v.afterConn i cc world).stack = held v.stack := by
  unfold afterConn
  dsimp only
  split
  · rw [held_cons, holds_closeCb, Nat.zero_add]
  · rfl

theorem canCall_stack {w : TcpClient} (h : w.canCall = true) :
    w.life = .alive ∧ w.stack = [] ∧ w.connector.connector.stack = [] := by
  obtain ⟨hlife, huser⟩ := of_decide_eq_true h
  obtain ⟨hstk, hc, _⟩ := of_decide_eq_true huser
  exact ⟨hlife, hstk, hc⟩

theorem not_failed {w : TcpClient} (h : w.halted = false) :
    w.fault = false ∧ w.failed = none ∧ w.connector.connector.failed = none := by
  unfold halted at h
  simp only [decide_eq_false_iff_not, not_or] at h
  obtain ⟨h1, h2, h3, _⟩ := h
  exact ⟨by simpa using h1, by simpa using h2, by simpa using h3⟩

/-- What holds of a client in every run. -/
structure Base (w : TcpClient) : Prop where
  connector : Reachable ConnectorLoop.machine (fun _ _ => True) w.connector
  /-- The open connections of the connector are with the client. -/
  opened : w.connector.opened = (if w.connection.isSome then 1 else 0) + held w.stack

theorem base_create {tid otherTid : ThreadId} {hasConnectionCb : Bool} {now : Timestamp} :
    Base (create tid otherTid hasConnectionCb now) :=
  ⟨.init ⟨now, rfl⟩, rfl⟩

theorem Base.core {w : TcpClient} (h : Base w) (hh : w.halted = false) : w.connector.Core :=
  (ConnectorLoop.core_reachable h.connector).resolve_left (by rw [(not_failed hh).2.2]; simp)

theorem Base.history {w : TcpClient} (h : Base w) (hh : w.halted = false) :
    ConnectorLoop.History w.connector.connector :=
  (ConnectorLoop.history_reachable h.connector).resolve_left (by rw [(not_failed hh).2.2]; simp)

/-- When the connector hands over a socket, the client has none. -/
theorem Base.alone {w : TcpClient} (h : Base w) (hh : w.halted = false)
    {rest : List ClientFrame} (hstk : w.stack = .newTcpConnection :: rest) :
    w.connection = none ∧ held rest = 0 := by
  have hopened := h.opened
  have hone := (h.core hh).opened.1
  rw [hstk, held_cons] at hopened
  have hholds : holds .newTcpConnection = 1 := rfl
  cases hc : w.connection with
  | none =>
    rw [hc] at hopened
    exact ⟨rfl, by omega⟩
  | some i =>
    rw [hc] at hopened
    simp only [Option.isSome_some, if_true] at hopened
    omega

/-- The connector belongs to an open connection. -/
theorem Base.connected {w : TcpClient} (h : Base w) (hh : w.halted = false) {i : Nat}
    (hc : w.connection = some i) : w.connector.connector.state = .kConnected := by
  refine (h.core hh).opened.2 ?_
  rw [h.opened, hc]
  simp

theorem base_plain {w w' : TcpClient} {a : Label} (h : Base w) (hh : w.halted = false)
    (hs : PlainMove w a w') : Base w' := by
  have hcall : w.canCall = true → ∀ stack, held stack = 0 →
      w.connector.opened = (if w.connection.isSome then 1 else 0) + held stack := by
    intro hcall stack hstack
    rw [h.opened, (canCall_stack hcall).2.1, hstack]
    rfl
  cases hs with
  | connect hc hs => exact ⟨h.connector, hcall hc _ rfl⟩
  | stop hc => exact ⟨h.connector, hcall hc _ rfl⟩
  | destroyStop hc ho hn => exact ⟨h.connector, hcall hc _ rfl⟩
  | @destroy unique i cc hc ho hn hcc =>
    refine ⟨h.connector, hcall hc _ ?_⟩
    cases unique <;> rfl
  | newTcpConnection hstk hlife hw =>
    obtain ⟨hnone, hrest⟩ := h.alone hh hstk
    have hopened := h.opened
    rw [hstk, hnone, held_cons] at hopened
    exact ⟨h.connector, by simpa [holds, hrest] using hopened⟩
  | testRetry hstk hr =>
    have hopened := h.opened
    rw [hstk] at hopened
    exact ⟨h.connector, hopened⟩
  | testStart hstk hs =>
    have hopened := h.opened
    rw [hstk] at hopened
    exact ⟨h.connector, hopened⟩
  | destructed hstk hs =>
    have hopened := h.opened
    rw [hstk, held_cons] at hopened
    exact ⟨h.connector, by simpa [holds] using hopened⟩
  | _ => exact ⟨h.connector, h.opened⟩

theorem base_connector {w v : TcpClient} {a : Label} {b : ConnectorLoop.Label}
    {connector : ConnectorLoop} (h : Base w) (hm : ConnectorMove w a v b)
    (hs : w.connector.step b = some connector) :
    Base (v.afterConnector connector) := by
  refine ⟨h.connector.tail trivial hs, ?_⟩
  have hopened := h.opened
  have hstep := ConnectorLoop.opened_step hs
  -- what the step means for a client whose stack is `stack` before it
  have hafter : ∀ n stack, w.connector.opened = n + held stack → (∀ restart, b ≠ .closed restart) →
      connector.opened = n + held (if w.connector.opened < connector.opened
        then .newTcpConnection :: stack else stack) := by
    intro n stack he hb
    rcases hstep with ⟨⟨restart, hc⟩, _⟩ | ⟨_, hsame | ⟨hone, _⟩⟩
    · exact absurd hc (hb restart)
    · rw [if_neg (by omega)]
      omega
    · rw [if_pos (by omega), held_cons, hone]
      have hholds : holds .newTcpConnection = 1 := rfl
      omega
  cases hm with
  | own hown => exact hafter _ _ hopened (by rintro restart rfl; simp [canStepConnector] at hown)
  | startConnector hstk hlife =>
    rw [hstk, held_cons, show holds .startConnector = 0 from rfl, Nat.zero_add] at hopened
    exact hafter _ _ hopened (by simp)
  | stopConnector hstk hlife =>
    rw [hstk, held_cons, show holds .stopConnector = 0 from rfl, Nat.zero_add] at hopened
    exact hafter _ _ hopened (by simp)
  | @removed f rest restart hstk hf hlife =>
    have hholds : holds f = 1 := by rcases hf with ⟨hf | hf, _⟩ | ⟨hf, _⟩ <;> rw [hf] <;> rfl
    rw [hstk, held_cons, hholds] at hopened
    rcases hstep with ⟨_, hone⟩ | ⟨hne, _⟩
    · have hless : ¬ w.connector.opened < connector.opened := by omega
      show connector.opened = (if w.connection.isSome then 1 else 0)
        + held (if w.connector.opened < connector.opened then _ else rest)
      rw [if_neg hless]
      omega
    · exact absurd rfl (hne restart)
  | assignTrue ho => exact hafter _ _ hopened (by simp)
  | queueStart ho => exact hafter _ _ hopened (by simp)
  | assignFalse ho => exact hafter _ _ hopened (by simp)
  | queueStop ho => exact hafter _ _ hopened (by simp)

theorem base_conn {w v : TcpClient} {a : Label} {i : Nat} {b : ConnWorld.Label}
    {cc : ClientConn} {world : ConnWorld} (h : Base w) (hm : ConnMove w a v i b) :
    Base (v.afterConn i cc world) := by
  have hopened := h.opened
  -- a connection leaves the connector alone
  have hafter : ∀ v : TcpClient, v.connector = w.connector →
      w.connector.opened = (if v.connection.isSome then 1 else 0) + held v.stack →
      Base (v.afterConn i cc world) := by
    intro v hv he
    refine ⟨?_, ?_⟩
    · show Reachable ConnectorLoop.machine (fun _ _ => True) v.connector
      rw [hv]
      exact h.connector
    · rw [held_afterConn]
      show v.connector.opened = _
      rw [hv]
      exact he
  cases hm with
  | own hown => exact hafter _ rfl hopened
  | disconnect hcall hc => exact hafter _ rfl hopened
  | remove hstk hlife hc =>
    rw [hstk, hc, held_cons] at hopened
    exact hafter _ rfl (by simpa [holds] using hopened)
  | closed hstk hlife =>
    rw [hstk, held_cons] at hopened
    exact hafter _ rfl (by simpa [holds] using hopened)
  | forceClose hstk hlife =>
    rw [hstk, held_cons] at hopened
    exact hafter _ rfl (by simpa [holds] using hopened)
  | other hb ho => exact hafter _ rfl hopened

/-- **A step keeps this**, in whatever thread it is taken. -/
theorem base_step {w w' : TcpClient} {a : Label} (h : Base w) (hs : w.step a = some w') :
    Base w' := by
  obtain ⟨hh, hstep⟩ := step_cases hs
  cases hstep with
  | plain hm => exact base_plain h hh hm
  | connector hm hb => exact base_connector h hm hb
  | conn hm hcc _ => exact base_conn h hm

variable {tid otherTid : ThreadId} {hasConnectionCb : Bool}

theorem base_reachable {ok : TcpClient → Label → Prop} {w : TcpClient}
    (h : Reachable (machine tid otherTid hasConnectionCb) ok w) : Base w := by
  refine h.invariant (I := Base) ?_ ?_
  · rintro w ⟨_, now, rfl⟩
    exact base_create
  · exact fun w a w' _ hi _ hs => base_step hi hs

/-! ## In the loop thread -/

/-- Everything happens in the loop thread, nobody destroys the client, and `Connect` is called only
when `start_` is not set. -/
def InLoopThread (w : TcpClient) : Label → Prop
  | .connect => w.start = false
  | .conn _ b => b.ofOtherThread = false
  | .disconnect | .stop | .enableRetry | .newTcpConnection _ _ | .next | .replace | .connector _ =>
      True
  | .destroy _ | .otherConnect | .otherDisconnect | .otherStop | .otherDestroy _ | .otherNext =>
      False

instance (w : TcpClient) (a : Label) : Decidable (w.InLoopThread a) := by
  cases a <;> unfold InLoopThread <;> infer_instance

/-- What holds while the client is there: its connections are its own. -/
structure Kept (tid : ThreadId) (w : TcpClient) : Prop where
  loop : w.tid = tid
  conns : ∀ (i : Nat) (cc : ClientConn), w.conns[i]? = some cc →
    Reachable (ConnWorld.machine tid) ConnWorld.LoopOnly cc.world ∧ cc.replaced = false
  replacing : w.replacing = []
  /-- A connection that has not called its close callback is the one in `connection_`. -/
  current : ∀ (i : Nat) (cc : ClientConn), w.conns[i]? = some cc →
    cc.world.conn.trace.count .closeCb = 0 → w.connection = some i
  /-- So is one in `RemoveTcpConnection`. -/
  removing : ∀ i, .remove i ∈ w.stack → w.connection = some i
  closes : ∀ (i : Nat) (cc : ClientConn), w.conns[i]? = some cc →
    cc.world.closes = w.stack.count (.remove i)
  notReplaced : ∀ i, .closed i ∉ w.stack
  failed : w.failed ≠ some .remove

/-- A connection calls its close callback once, and answers are owed for no more. -/
theorem closes_le {tid : ThreadId} {v : ConnWorld}
    (h : Reachable (ConnWorld.machine tid) ConnWorld.LoopOnly v) :
    v.conn.trace.count .closeCb ≤ 1 ∧ v.closes ≤ v.conn.trace.count .closeCb := by
  obtain ⟨p, hs⟩ := ConnWorld.stage_reachable h
  have hcount := hs.life.counts.2.1
  have howed := hs.owed
  refine ⟨hs.life.closeCb_once, ?_⟩
  rw [hcount]
  by_cases hp : p = .closed
  · rw [hp] at howed ⊢
    rw [if_pos rfl] at howed
    show v.closes ≤ 1
    omega
  · rw [if_neg hp] at howed
    omega

theorem getElem?_set_cases {α : Type} {l : List α} {i j : Nat} {a b : α}
    (h : (l.set i a)[j]? = some b) : j = i ∧ b = a ∨ j ≠ i ∧ l[j]? = some b := by
  by_cases hj : j = i
  · rw [hj] at h
    have hlt : i < l.length := by
      have := (List.getElem?_eq_some_iff.mp h).1
      rwa [List.length_set] at this
    rw [List.getElem?_set_self hlt] at h
    exact .inl ⟨hj, (Option.some.inj h).symm⟩
  · rw [List.getElem?_set_ne (Ne.symm hj)] at h
    exact .inr ⟨hj, h⟩

/-- The stack changes, but for its calls of `RemoveTcpConnection`, and with it what these facts do
not speak of. -/
theorem Kept.restack {tid : ThreadId} {w : TcpClient} (h : Kept tid w) {stack : List ClientFrame}
    (hcount : ∀ i, stack.count (.remove i) = w.stack.count (.remove i))
    (hclosed : ∀ i, .closed i ∉ stack) {start retry fault : Bool} {connector : ConnectorLoop}
    {life : ClientLife} : Kept tid { w with stack, start, retry, fault, connector, life } :=
  { h with
    removing := by
      intro i hi
      refine h.removing i (List.count_pos_iff.mp ?_)
      rw [← hcount]
      exact List.count_pos_iff.mpr hi
    closes := fun i cc hcc => (h.closes i cc hcc).trans (hcount i).symm
    notReplaced := hclosed }

/-- A frame other than `RemoveTcpConnection` is left for frames that are none either. -/
theorem Kept.pop {tid : ThreadId} {w : TcpClient} (h : Kept tid w) {f : ClientFrame}
    {rest : List ClientFrame} (hstk : w.stack = f :: rest) (hf : ∀ i, f ≠ .remove i)
    {start retry fault : Bool} {connector : ConnectorLoop} {life : ClientLife} :
    Kept tid { w with stack := rest, start, retry, fault, connector, life } := by
  refine h.restack ?_ ?_
  · intro i
    rw [hstk, List.count_cons_of_ne (hf i)]
  · intro i hi
    exact h.notReplaced i (by rw [hstk]; exact List.mem_cons_of_mem _ hi)

/-- A frame takes the place of another. -/
theorem Kept.replace {tid : ThreadId} {w : TcpClient} (h : Kept tid w) {f f' : ClientFrame}
    {rest : List ClientFrame} (hstk : w.stack = f :: rest) (hf : ∀ i, f ≠ .remove i)
    (hf' : ∀ i, f' ≠ .remove i ∧ f' ≠ .closed i) : Kept tid { w with stack := f' :: rest } := by
  refine h.restack ?_ ?_
  · intro i
    rw [hstk, List.count_cons_of_ne (hf i), List.count_cons_of_ne (hf' i).1]
  · intro i hi
    rcases List.mem_cons.mp hi with he | hi
    · exact (hf' i).2 he.symm
    · exact h.notReplaced i (by rw [hstk]; exact List.mem_cons_of_mem _ hi)

/-- The user calls the client. -/
theorem Kept.call {tid : ThreadId} {w : TcpClient} (h : Kept tid w) (hcall : w.canCall = true)
    {f : ClientFrame} (hf : ∀ i, f ≠ .remove i ∧ f ≠ .closed i) {start : Bool} :
    Kept tid { w with stack := [f], start } := by
  refine h.restack ?_ ?_
  · intro i
    rw [(canCall_stack hcall).2.1, List.count_cons_of_ne (hf i).1]
  · intro i hi
    exact (hf i).2 (List.mem_singleton.mp hi).symm

/-- **A step of a connection** that is not its owner's answer. -/
theorem Kept.connSteps {tid : ThreadId} {v : TcpClient} (h : Kept tid v) {i : Nat}
    {b : ConnWorld.Label} {cc : ClientConn} {world : ConnWorld} (hcc : v.conns[i]? = some cc)
    (hs : cc.world.step b = some world) (hb : b.ofOtherThread = false)
    (hne : b ≠ .ownerAnswers) : Kept tid (v.afterConn i cc world) := by
  obtain ⟨hreach, hreplaced⟩ := h.conns i cc hcc
  have hreach' : Reachable (ConnWorld.machine tid) ConnWorld.LoopOnly world := hreach.tail hb hs
  have hconns : ∀ (j : Nat) (cc' : ClientConn), (v.conns.set i { cc with world })[j]? = some cc' →
      Reachable (ConnWorld.machine tid) ConnWorld.LoopOnly cc'.world ∧ cc'.replaced = false := by
    intro j cc' hj
    rcases getElem?_set_cases hj with ⟨_, he⟩ | ⟨_, hj⟩
    · rw [he]
      exact ⟨hreach', hreplaced⟩
    · exact h.conns j cc' hj
  rcases ConnWorld.closes_step (ConnWorld.step_cases hs).2 with
    ⟨ho, _⟩ | ⟨_, _, hcloses, hcount⟩ | ⟨_, hcloses, hcount⟩
  · exact absurd ho hne
  · -- the close callback is called: so it was not before
    have hfirst : cc.world.conn.trace.count .closeCb = 0 := by
      have hle := (closes_le hreach').1
      omega
    have hcurrent := h.current i cc hcc hfirst
    have hstack : (v.afterConn i cc world).stack = .remove i :: v.stack := by
      show (if cc.world.closes < world.closes then closeCb cc i :: v.stack else v.stack) = _
      rw [if_pos (by omega), closeCb, hreplaced]
      rfl
    refine ⟨h.loop, hconns, h.replacing, ?_, ?_, ?_, ?_, h.failed⟩
    · intro j cc' hj hzero
      rcases getElem?_set_cases hj with ⟨_, he⟩ | ⟨_, hj⟩
      · rw [he] at hzero
        exact absurd hzero (by dsimp only; omega)
      · exact h.current j cc' hj hzero
    · intro j hj
      rw [hstack] at hj
      rcases List.mem_cons.mp hj with he | hj
      · rw [ClientFrame.remove.inj he]
        exact hcurrent
      · exact h.removing j hj
    · intro j cc' hj
      rw [hstack]
      rcases getElem?_set_cases hj with ⟨he, hcc'⟩ | ⟨hne, hj⟩
      · rw [he, hcc', List.count_cons_self]
        have hold := h.closes i cc hcc
        show world.closes = _
        omega
      · rw [List.count_cons_of_ne (by simpa using Ne.symm hne)]
        exact h.closes j cc' hj
    · intro j hj
      rw [hstack] at hj
      rcases List.mem_cons.mp hj with he | hj
      · exact absurd he (by simp)
      · exact h.notReplaced j hj
  · have hstack : (v.afterConn i cc world).stack = v.stack := by
      show (if cc.world.closes < world.closes then closeCb cc i :: v.stack else v.stack) = _
      rw [if_neg (by omega)]
    refine ⟨h.loop, hconns, h.replacing, ?_, ?_, ?_, ?_, h.failed⟩
    · intro j cc' hj hzero
      rcases getElem?_set_cases hj with ⟨he, hcc'⟩ | ⟨_, hj⟩
      · rw [hcc'] at hzero
        rw [he]
        exact h.current i cc hcc (hcount.symm.trans hzero)
      · exact h.current j cc' hj hzero
    · rw [hstack]
      exact h.removing
    · intro j cc' hj
      rw [hstack]
      rcases getElem?_set_cases hj with ⟨he, hcc'⟩ | ⟨_, hj⟩
      · rw [he, hcc']
        exact hcloses.trans (h.closes i cc hcc)
      · exact h.closes j cc' hj
    · rw [hstack]
      exact h.notReplaced

/-- `RemoveTcpConnection` resets `connection_` and answers. -/
theorem Kept.remove {tid : ThreadId} {w : TcpClient} (h : Kept tid w) {i : Nat}
    {rest : List ClientFrame} {cc : ClientConn} {world : ConnWorld}
    (hstk : w.stack = .remove i :: rest) (hcc : w.conns[i]? = some cc)
    (hs : cc.world.step .ownerAnswers = some world) :
    Kept tid (afterConn { w with connection := none, stack := .testRetry :: rest } i cc world) := by
  obtain ⟨hreach, hreplaced⟩ := h.conns i cc hcc
  have hconn := h.removing i (by rw [hstk]; exact List.mem_cons_self)
  have hcloses := h.closes i cc hcc
  rw [hstk, List.count_cons_self] at hcloses
  obtain ⟨hone, hle⟩ := closes_le hreach
  have hnone : rest.count (.remove i) = 0 := by omega
  rcases ConnWorld.closes_step (ConnWorld.step_cases hs).2 with
    ⟨_, hanswer, hsame⟩ | ⟨ho, _⟩ | ⟨ho, _⟩
  · have hstack : (afterConn { w with connection := none, stack := .testRetry :: rest } i cc
        world).stack = .testRetry :: rest := by
      show (if cc.world.closes < world.closes then _ else _) = _
      rw [if_neg (by omega)]
    -- the callback of another connection is not being answered
    have hother : ∀ j, .remove j ∈ rest → j = i := by
      intro j hj
      have hc := h.removing j (by rw [hstk]; exact List.mem_cons_of_mem _ hj)
      exact Option.some.inj (hc.symm.trans hconn)
    refine ⟨h.loop, ?_, h.replacing, ?_, ?_, ?_, ?_, h.failed⟩
    · intro j cc' hj
      rcases getElem?_set_cases hj with ⟨_, he⟩ | ⟨_, hj⟩
      · rw [he]
        exact ⟨hreach.tail (a := .ownerAnswers) rfl hs, hreplaced⟩
      · exact h.conns j cc' hj
    · intro j cc' hj hzero
      rcases getElem?_set_cases hj with ⟨_, he⟩ | ⟨hne, hj⟩
      · rw [he] at hzero
        dsimp only at hzero
        rw [hsame] at hzero
        omega
      · exact absurd (Option.some.inj ((h.current j cc' hj hzero).symm.trans hconn)) hne
    · intro j hj
      rw [hstack] at hj
      rcases List.mem_cons.mp hj with he | hj
      · exact absurd he (by simp)
      · have he := hother j hj
        rw [he, ← List.count_pos_iff] at hj
        omega
    · intro j cc' hj
      rw [hstack, List.count_cons_of_ne (by simp)]
      rcases getElem?_set_cases hj with ⟨he, hcc'⟩ | ⟨hne, hj⟩
      · rw [he, hcc', hnone]
        show world.closes = 0
        omega
      · have hold := h.closes j cc' hj
        rw [hstk, List.count_cons_of_ne (by simpa using Ne.symm hne)] at hold
        exact hold
    · intro j hj
      rw [hstack] at hj
      rcases List.mem_cons.mp hj with he | hj
      · exact absurd he (by simp)
      · exact h.notReplaced j (by rw [hstk]; exact List.mem_cons_of_mem _ hj)
  · exact absurd ho (by simp)
  · exact absurd rfl ho

theorem kept_plain {tid : ThreadId} {w w' : TcpClient} {a : Label} (hbase : Base w)
    (hh : w.halted = false) (h : Kept tid w) (hok : w.InLoopThread a) (hs : PlainMove w a w') :
    Kept tid w' := by
  cases hs with
  | connect hcall hs => exact h.call hcall (by simp)
  | connectFails ha hs => exact { h with failed := by simp }
  | disconnect hcall => exact { h with }
  | stop hcall => exact h.call hcall (by simp)
  | enableRetry => exact { h with }
  | destroyStop hcall ho hc => exact hok.elim
  | destroy hcall ho hc hcc => exact hok.elim
  | @newTcpConnection low high rest world hstk hlife hw =>
    have hnone := (hbase.alone hh hstk).1
    -- nothing is being removed
    have hrest : ∀ i, .remove i ∉ rest := by
      intro i hi
      have hc := h.removing i (by rw [hstk]; exact List.mem_cons_of_mem _ hi)
      exact absurd (hnone.symm.trans hc) (by simp)
    have hcreate : Reachable (ConnWorld.machine tid) ConnWorld.LoopOnly
        (ConnWorld.create (.create w.tid w.hasConnectionCb low high)) :=
      .init ⟨w.hasConnectionCb, low, high, by rw [h.loop]⟩
    have hreach := hcreate.tail (show ConnWorld.LoopOnly _ .establish from rfl) hw
    have hworld : world.closes = 0 := by
      rcases ConnWorld.closes_step (ConnWorld.step_cases hw).2 with
        ⟨ho, _⟩ | ⟨ho, _⟩ | ⟨_, hcloses, _⟩
      · exact absurd ho (by simp)
      · exact absurd ho (by simp)
      · exact hcloses
    have hcases : ∀ (i : Nat) (cc : ClientConn),
        (w.conns ++ [{ world, replaced := false }])[i]? = some cc →
          i = w.conns.length ∧ cc = ⟨world, false⟩ ∨ w.conns[i]? = some cc := by
      intro i cc hi
      rcases Nat.lt_or_ge i w.conns.length with hlt | hge
      · rw [List.getElem?_append_left hlt] at hi
        exact .inr hi
      · have hi' := (List.getElem?_eq_some_iff.mp hi).1
        rw [List.length_append, List.length_singleton] at hi'
        have he : i = w.conns.length := by omega
        rw [he, List.getElem?_concat_length] at hi
        exact .inl ⟨he, (Option.some.inj hi).symm⟩
    refine ⟨h.loop, ?_, h.replacing, ?_, ?_, ?_, ?_, h.failed⟩
    · intro i cc hi
      rcases hcases i cc hi with ⟨_, he⟩ | hi
      · rw [he]
        exact ⟨hreach, rfl⟩
      · exact h.conns i cc hi
    · intro i cc hi hzero
      rcases hcases i cc hi with ⟨he, _⟩ | hi
      · rw [he]
      · exact absurd (hnone.symm.trans (h.current i cc hi hzero)) (by simp)
    · exact fun i hi => absurd hi (hrest i)
    · intro i cc hi
      rw [List.count_eq_zero.mpr (hrest i)]
      rcases hcases i cc hi with ⟨_, he⟩ | hi
      · rw [he]
        exact hworld
      · rw [h.closes i cc hi, hstk, List.count_cons_of_ne (by simp),
          List.count_eq_zero.mpr (hrest i)]
    · exact fun i hi => h.notReplaced i (by rw [hstk]; exact List.mem_cons_of_mem _ hi)
  | fault hlife hstk ha => exact { h with }
  | removeFails hstk hc =>
    exact absurd (h.removing _ (by rw [hstk]; exact List.mem_cons_self)) hc
  | testRetry hstk hr => exact h.replace hstk (by simp) (by simp)
  | testStart hstk hs => exact h.replace hstk (by simp) (by simp)
  | destructed hstk hs => exact h.pop hstk (by simp)
  | replace hq hcc => exact absurd (h.replacing.symm.trans hq) (by simp)
  | otherConnect ho hlife hs => exact hok.elim
  | otherDisconnect ho hlife => exact hok.elim
  | otherStop ho hlife => exact hok.elim
  | otherDestroy ho hlife => exact hok.elim
  | otherReturns ho => exact hok.elim
  | otherReplaces ho => exact hok.elim
  | otherDestructed ho => exact hok.elim

theorem kept_connector {tid : ThreadId} {w v : TcpClient} {a : Label} {b : ConnectorLoop.Label}
    {connector : ConnectorLoop} (h : Kept tid w) (hok : w.InLoopThread a)
    (hm : ConnectorMove w a v b) : Kept tid (v.afterConnector connector) := by
  have hafter : ∀ {v : TcpClient}, Kept tid v → Kept tid (v.afterConnector connector) := by
    intro v hv
    refine hv.restack ?_ ?_
    · intro i
      split
      · rw [List.count_cons_of_ne (by simp)]
      · rfl
    · intro i hi
      split at hi
      · rcases List.mem_cons.mp hi with he | hi
        · exact absurd he (by simp)
        · exact hv.notReplaced i hi
      · exact hv.notReplaced i hi
  cases hm with
  | own hown => exact hafter h
  | startConnector hstk hlife => exact hafter (h.pop hstk (by simp))
  | stopConnector hstk hlife => exact hafter (h.pop hstk (by simp))
  | removed hstk hf hlife =>
    refine hafter (h.pop hstk ?_)
    intro i
    rcases hf with ⟨hf | hf, _⟩ | ⟨hf, _⟩ <;> simp [hf]
  | assignTrue ho => exact hok.elim
  | queueStart ho => exact hok.elim
  | assignFalse ho => exact hok.elim
  | queueStop ho => exact hok.elim

theorem kept_conn {tid : ThreadId} {w v : TcpClient} {a : Label} {i : Nat} {b : ConnWorld.Label}
    {cc : ClientConn} {world : ConnWorld} (h : Kept tid w) (hok : w.InLoopThread a)
    (hm : ConnMove w a v i b) (hcc : w.conns[i]? = some cc) (hs : cc.world.step b = some world) :
    Kept tid (v.afterConn i cc world) := by
  cases hm with
  | own hown =>
    refine h.connSteps hcc hs hok ?_
    rintro rfl
    simp [canStepConn] at hown
  | disconnect hcall hc =>
    have hv : Kept tid { w with start := false } := { h with }
    exact hv.connSteps hcc hs rfl (by simp)
  | remove hstk hlife hc => exact h.remove hstk hcc hs
  | closed hstk hlife => exact absurd (by rw [hstk]; exact List.mem_cons_self) (h.notReplaced _)
  | forceClose hstk hlife => exact (h.pop hstk (by simp)).connSteps hcc hs rfl (by simp)
  | other hb ho => exact hok.elim

theorem kept_step {tid : ThreadId} {w w' : TcpClient} {a : Label} (hbase : Base w)
    (h : Kept tid w) (hok : w.InLoopThread a) (hs : w.step a = some w') : Kept tid w' := by
  obtain ⟨hh, hstep⟩ := step_cases hs
  cases hstep with
  | plain hm => exact kept_plain hbase hh h hok hm
  | connector hm _ => exact kept_connector h hok hm
  | conn hm hcc hb => exact kept_conn h hok hm hcc hb

theorem kept_reachable {w : TcpClient}
    (h : Reachable (machine tid otherTid hasConnectionCb) InLoopThread w) : Kept tid w := by
  refine h.invariant (I := Kept tid) ?_ ?_
  · rintro w ⟨_, now, rfl⟩
    refine ⟨rfl, ?_, rfl, ?_, ?_, ?_, ?_, ?_⟩ <;> simp [create]
  · exact fun w a w' hr hi hok hs => kept_step (base_reachable hr) hi hok hs

/-- The functor of `Start` runs when no attempt is under way and none has succeeded since the last
`Restart`. -/
def AfterAttempt (w : TcpClient) (a : Label) : Prop :=
  a = .connector (.run .next) → w.connector.connector.stack.head? = some .start →
    w.connector.connector.attempt = .none

/-- Neither the assertion of `Connector::Start` nor that of `RemoveTcpConnection` has failed, and
`connection_` is null whenever `NewTcpConnection` assigns it. -/
def Consistent (w : TcpClient) : Prop :=
  w.connector.connector.failed ≠ some .start ∧ w.failed ≠ some .remove
    ∧ ∀ low high w', w.step (.newTcpConnection low high) = some w' → w.connection = none

/-- The assertion of `Connector::Start` fails in the steps that come after such an attempt. -/
theorem start_fails_iff {w w' : TcpClient} {a : Label} (h : Base w) (hs : w.step a = some w') :
    w'.connector.connector.failed = some .start ↔ ¬ w.AfterAttempt a := by
  obtain ⟨hh, hstep⟩ := step_cases hs
  have hf := (not_failed hh).2.2
  have hother : w'.connector.connector.failed ≠ some .start → a ≠ .connector (.run .next) →
      (w'.connector.connector.failed = some .start ↔ ¬ w.AfterAttempt a) :=
    fun hne ha => ⟨fun he => absurd he hne, fun hn => absurd (fun he => absurd he ha) hn⟩
  cases hstep with
  | plain hm =>
    have hsame : w'.connector = w.connector := by cases hm <;> rfl
    refine hother (by rw [hsame, hf]; simp) ?_
    cases hm with
    | fault hlife hstk ha => rcases ha with ha | ⟨low, high, ha⟩ <;> simp [ha]
    | connectFails ha hstart => rcases ha with ha | ha <;> simp [ha]
    | _ => simp
  | @connector v b connector hm hb =>
    have hiff := ConnectorLoop.start_fails_iff (h.history hh) hb
    show connector.connector.failed = some .start ↔ _
    by_cases ha : a = .connector (.run .next)
    · have hbn : b = .run .next := by
        cases hm with
        | own hown => exact Label.connector.inj ha
        | _ => exact absurd ha (by simp)
      rw [hiff]
      unfold AfterAttempt
      simp [ha, hbn]
    · have hbn : b ≠ .run .next := by
        rintro rfl
        cases hm with
        | own hown => exact ha rfl
      exact hother (fun he => hbn (hiff.mp he).1) ha
  | @conn v i b cc world hm hcc hb =>
    have hsame : v.connector = w.connector := by cases hm <;> rfl
    have hne : (v.afterConn i cc world).connector.connector.failed ≠ some .start := by
      show v.connector.connector.failed ≠ _
      rw [hsame, hf]
      simp
    refine hother hne ?_
    cases hm <;> simp

/-- **When a client stays consistent.** For every run of the loop thread in which `Connect` is called
only when `start_` is not set: the run is one in which the assertions of `Connector::Start` and of
`RemoveTcpConnection` have held and `connection_` was null whenever it was assigned, if and only if
each functor of `Start` ran with no attempt under way and none that had succeeded since the last
`Restart`. -/
theorem consistent_iff {w : TcpClient}
    (h : Reachable (machine tid otherTid hasConnectionCb) InLoopThread w) :
    w.Consistent ↔ Reachable (machine tid otherTid hasConnectionCb)
      (fun w a => w.InLoopThread a ∧ w.AfterAttempt a) w := by
  have halways : w.failed ≠ some .remove
      ∧ ∀ low high w', w.step (.newTcpConnection low high) = some w' → w.connection = none := by
    refine ⟨(kept_reachable h).failed, fun low high w' hs => ?_⟩
    have hh := (step_cases hs).1
    unfold step at hs
    rw [if_neg (by rw [hh]; simp)] at hs
    dsimp only at hs
    split at hs
    · rename_i rest hstk
      exact ((base_reachable h).alone hh hstk).1
    · exact absurd hs (by simp)
  constructor
  · rintro ⟨hstart, -⟩
    clear halways
    induction h with
    | init h0 => exact .init h0
    | @tail w w' a hr hok hs ih =>
      have hf := (not_failed (step_cases hs).1).2.2
      have hafter : w.AfterAttempt a := by
        by_contra hn
        exact hstart ((start_fails_iff (base_reachable hr) hs).mpr hn)
      exact (ih (by rw [hf]; simp)).tail ⟨hok, hafter⟩ hs
  · intro hr
    refine ⟨?_, halways⟩
    clear halways h
    induction hr with
    | init h0 =>
      obtain ⟨_, now, rfl⟩ := h0
      simp [create, ConnectorLoop.create, Connector.create]
    | tail hr hok hs ih =>
      exact fun he => (start_fails_iff (base_reachable hr) hs).mp he hok.2

/-- The peer closes the first connection, and the client restarts. -/
theorem consistent_small : ∃ w, Reachable (machine 0 1 false) InLoopThread w
    ∧ w.conns.length = 1 ∧ w.connector.connector.state = .kConnecting
    ∧ (w.Consistent ↔ Reachable (machine 0 1 false)
      (fun w a => w.InLoopThread a ∧ w.AfterAttempt a) w) := by
  have hexec : ((machine 0 1 false).exec InLoopThread (create 0 1 false ⟨0⟩)
      [.enableRetry, .connect, .next, .connector (.run .next),
        .connector (.run (.connect (some .EINPROGRESS))), .connector (.event false true),
        .connector (.run (.socket .good)), .connector (.run .next), .newTcpConnection false false,
        .conn 0 (.run .next), .connector .next, .connector .next, .connector .next,
        .connector .next, .conn 0 (.event false true false), .conn 0 (.run .next),
        .conn 0 (.run (.read .eof)), .conn 0 (.run .next), .next, .next, .next, .next,
        .connector (.run .next), .connector (.run (.connect (some .EINPROGRESS)))]).map (fun w =>
          decide (w.conns.length = 1 ∧ w.connector.connector.state = .kConnecting))
      = some true := by decide +kernel
  obtain ⟨w, hr, hp⟩ := Machine.exec_reachable (M := machine 0 1 false)
    ⟨by decide, ⟨0⟩, rfl⟩ hexec
  have hp := of_decide_eq_true hp
  exact ⟨w, hr, hp.1, hp.2, consistent_iff hr⟩

/-- `Disconnect`, and then `Connect` again: the connector is still in `kConnected`. -/
theorem not_consistent : ∃ w, Reachable (machine 0 1 false) InLoopThread w ∧ ¬ w.Consistent := by
  have hexec : ((machine 0 1 false).exec InLoopThread (create 0 1 false ⟨0⟩)
      [.connect, .next, .connector (.run .next), .connector (.run (.connect none)),
        .connector (.event false true), .connector (.run (.socket .good)),
        .connector (.run .next), .newTcpConnection false false, .conn 0 (.run .next),
        .disconnect, .conn 0 (.run .next), .conn 0 (.run .next), .connect, .next,
        .connector (.run .next)]).map (fun w =>
          decide (w.connector.connector.failed = some .start)) = some true := by decide +kernel
  obtain ⟨w, hr, hp⟩ := Machine.exec_reachable (M := machine 0 1 false)
    ⟨by decide, ⟨0⟩, rfl⟩ hexec
  exact ⟨w, hr, fun hc => hc.1 (of_decide_eq_true hp)⟩

end TcpClient

end Windz
