import Windz.Net.ConnInvariant
import Windz.Net.ConnectorProof
import Windz.Net.TcpClient

/-!
# The steps of a client

A step of a client is one of three kinds: the connector takes a step, a connection
takes a step, or neither does. In the first two the client first changes itself, and
what it does is said by the state the component's step is taken from.
-/

namespace Windz

open Lib

namespace TcpClient

/-- The client before a step `b` of the connector. -/
inductive ConnectorMove (w : TcpClient) : Label → TcpClient → ConnectorLoop.Label → Prop where
  | own {b : ConnectorLoop.Label} (h : w.canStepConnector b = true) :
      ConnectorMove w (.connector b) w b
  | startConnector {rest : List ClientFrame} (hstk : w.stack = .startConnector :: rest)
      (hlife : w.life ≠ .destroyed) : ConnectorMove w .next { w with stack := rest } .start
  | stopConnector {rest : List ClientFrame} (hstk : w.stack = .stopConnector :: rest)
      (hlife : w.life ≠ .destroyed) : ConnectorMove w .next { w with stack := rest } .stop
  -- the end of `RemoveTcpConnection`
  | removed {f : ClientFrame} {rest : List ClientFrame} {restart : Bool}
      (hstk : w.stack = f :: rest)
      (hf : (f = .testRetry ∨ f = .testStart) ∧ restart = false ∨ f = .restart ∧ restart = true)
      (hlife : w.life ≠ .destroyed) :
      ConnectorMove w .next { w with stack := rest } (.closed restart)
  | assignTrue (ho : w.other = .connectAssigned) :
      ConnectorMove w .otherNext { w with other := .connectQueue } (.threadAssign true)
  | queueStart (ho : w.other = .connectQueue) :
      ConnectorMove w .otherNext { w with other := .idle } (.threadQueue true)
  | assignFalse {pc : ClientPc}
      (ho : w.other = .stopAssigned ∧ pc = .stopQueue
        ∨ (∃ unique, w.other = .destroying none unique) ∧ pc = .destroyQueue) :
      ConnectorMove w .otherNext { w with other := pc } (.threadAssign false)
  | queueStop {pc : ClientPc}
      (ho : w.other = .stopQueue ∧ pc = .idle ∨ w.other = .destroyQueue ∧ pc = .destructing) :
      ConnectorMove w .otherNext { w with other := pc } (.threadQueue false)

/-- The client before a step `b` of connection `i`. -/
inductive ConnMove (w : TcpClient) : Label → TcpClient → Nat → ConnWorld.Label → Prop where
  | own {i : Nat} {b : ConnWorld.Label} (h : w.canStepConn i b = true) :
      ConnMove w (.conn i b) w i b
  | disconnect {i : Nat} (hcall : w.canCall = true) (hc : w.connection = some i) :
      ConnMove w .disconnect { w with start := false } i (.run (.call .shutdown))
  | remove {i : Nat} {rest : List ClientFrame} (hstk : w.stack = .remove i :: rest)
      (hlife : w.life ≠ .destroyed) (hc : w.connection = some i) :
      ConnMove w .next { w with connection := none, stack := .testRetry :: rest } i .ownerAnswers
  | closed {i : Nat} {rest : List ClientFrame} (hstk : w.stack = .closed i :: rest)
      (hlife : w.life ≠ .destroyed) : ConnMove w .next { w with stack := rest } i .ownerAnswers
  | forceClose {i : Nat} {rest : List ClientFrame} (hstk : w.stack = .forceClose i :: rest)
      (hlife : w.life ≠ .destroyed) :
      ConnMove w .next { w with stack := rest } i (.run (.call .forceClose))
  | other {i : Nat} {b : ConnWorld.Label} {pc : ClientPc}
      (hb : (∃ op, b = .threadCall w.otherTid op) ∨ b = .threadNext w.otherTid)
      (ho : w.other = .disconnectAssigned ∧ pc = .shutdown i
        ∨ w.other = .shutdown i ∧ pc = .shutdown i
        ∨ (w.other = .forceClose i ∨ w.other = .forceClosing i) ∧ pc = .forceClosing i) :
      ConnMove w .otherNext { w with other := pc } i b

/-- The steps of the client itself. -/
inductive PlainMove (w : TcpClient) : Label → TcpClient → Prop where
  | connect (hcall : w.canCall = true) (hs : w.start = false) :
      PlainMove w .connect { w with start := true, stack := [.startConnector] }
  | connectFails {a : Label} (ha : a = .connect ∨ a = .otherConnect) (hs : w.start = true) :
      PlainMove w a { w with failed := some .connect }
  | disconnect (hcall : w.canCall = true) : PlainMove w .disconnect { w with start := false }
  | stop (hcall : w.canCall = true) :
      PlainMove w .stop { w with start := false, stack := [.stopConnector] }
  | enableRetry : PlainMove w .enableRetry { w with retry := true }
  | destroyStop {unique : Bool} (hcall : w.canCall = true) (ho : w.other = .idle)
      (hc : w.connection = none) :
      PlainMove w (.destroy unique)
        { w with life := .destroying, stack := [.stopConnector, .destructed] }
  | destroy {unique : Bool} {i : Nat} {cc : ClientConn} (hcall : w.canCall = true)
      (ho : w.other = .idle) (hc : w.connection = some i) (hcc : w.conns[i]? = some cc) :
      PlainMove w (.destroy unique) { w with
        life := .destroying
        conns := w.conns.set i { cc with replaced := true }
        stack := if unique then [.forceClose i, .destructed] else [.destructed] }
  | newTcpConnection {low high : Bool} {rest : List ClientFrame} {world : ConnWorld}
      (hstk : w.stack = .newTcpConnection :: rest) (hlife : w.life ≠ .destroyed)
      (hw : (ConnWorld.create (.create w.tid w.hasConnectionCb low high)).step .establish
        = some world) :
      PlainMove w (.newTcpConnection low high) { w with
        connection := some w.conns.length
        conns := w.conns ++ [{ world, replaced := false }]
        stack := rest }
  | fault {a : Label} (hlife : w.life = .destroyed) (hstk : w.stack ≠ [])
      (ha : a = .next ∨ ∃ low high, a = .newTcpConnection low high) :
      PlainMove w a { w with fault := true }
  | removeFails {i : Nat} {rest : List ClientFrame} (hstk : w.stack = .remove i :: rest)
      (hc : w.connection ≠ some i) : PlainMove w .next { w with failed := some .remove }
  | testRetry {rest : List ClientFrame} (hstk : w.stack = .testRetry :: rest)
      (hr : w.retry = true) : PlainMove w .next { w with stack := .testStart :: rest }
  | testStart {rest : List ClientFrame} (hstk : w.stack = .testStart :: rest)
      (hs : w.start = true) : PlainMove w .next { w with stack := .restart :: rest }
  | destructed {rest : List ClientFrame} (hstk : w.stack = .destructed :: rest)
      (hs : w.connector.connector.stack = []) :
      PlainMove w .next { w with stack := rest, life := .destroyed }
  | replace {i : Nat} {rest : List Nat} {cc : ClientConn} (hq : w.replacing = i :: rest)
      (hcc : w.conns[i]? = some cc) :
      PlainMove w .replace
        { w with conns := w.conns.set i { cc with replaced := true }, replacing := rest }
  | otherConnect (ho : w.other = .idle) (hlife : w.life = .alive) (hs : w.start = false) :
      PlainMove w .otherConnect { w with start := true, other := .connectAssigned }
  | otherDisconnect (ho : w.other = .idle) (hlife : w.life = .alive) :
      PlainMove w .otherDisconnect { w with start := false, other := .disconnectAssigned }
  | otherStop (ho : w.other = .idle) (hlife : w.life = .alive) :
      PlainMove w .otherStop { w with start := false, other := .stopAssigned }
  | otherDestroy {unique : Bool} (ho : w.other = .idle) (hlife : w.life = .alive) :
      PlainMove w (.otherDestroy unique)
        { w with life := .destroying, other := .destroying w.connection unique }
  | otherReturns {i : Nat} {pc : ClientPc}
      (ho : (w.other = .disconnectAssigned ∨ w.other = .shutdown i) ∧ pc = .idle
        ∨ w.other = .forceClosing i ∧ pc = .destructing) :
      PlainMove w .otherNext { w with other := pc }
  | otherReplaces {i : Nat} {unique : Bool} (ho : w.other = .destroying (some i) unique) :
      PlainMove w .otherNext { w with
        replacing := w.replacing ++ [i]
        other := if unique then .forceClose i else .destructing }
  | otherDestructed (ho : w.other = .destructing) :
      PlainMove w .otherNext { w with other := .idle, life := .destroyed }

/-- The client after a step of the connector, `v` being the client before it. -/
def afterConnector (v : TcpClient) (connector : ConnectorLoop) : TcpClient :=
  { v with
    connector
    stack := if v.connector.opened < connector.opened then .newTcpConnection :: v.stack
      else v.stack }

/-- The client after a step of connection `i`. -/
def afterConn (v : TcpClient) (i : Nat) (cc : ClientConn) (world : ConnWorld) : TcpClient :=
  { v with
    conns := v.conns.set i { cc with world }
    stack := if cc.world.closes < world.closes then closeCb cc i :: v.stack else v.stack }

/-- What a step does: one of the client itself, of its connector or of a connection. -/
inductive ClientStep (w : TcpClient) (a : Label) : TcpClient → Prop where
  | plain {w' : TcpClient} (h : PlainMove w a w') : ClientStep w a w'
  | connector {v : TcpClient} {b : ConnectorLoop.Label} {connector : ConnectorLoop}
      (h : ConnectorMove w a v b) (hs : w.connector.step b = some connector) :
      ClientStep w a (v.afterConnector connector)
  | conn {v : TcpClient} {i : Nat} {b : ConnWorld.Label} {cc : ClientConn} {world : ConnWorld}
      (h : ConnMove w a v i b) (hcc : w.conns[i]? = some cc) (hs : cc.world.step b = some world) :
      ClientStep w a (v.afterConn i cc world)

theorem ConnectorMove.connector {w v : TcpClient} {a : Label} {b : ConnectorLoop.Label}
    (h : ConnectorMove w a v b) : v.connector = w.connector := by
  cases h <;> rfl

theorem ConnMove.conns {w v : TcpClient} {a : Label} {i : Nat} {b : ConnWorld.Label}
    (h : ConnMove w a v i b) : v.conns = w.conns := by
  cases h <;> rfl

theorem stepConnector_eq {v w' : TcpClient} {b : ConnectorLoop.Label}
    (h : v.stepConnector b = some w') :
    ∃ connector, v.connector.step b = some connector ∧ w' = v.afterConnector connector := by
  obtain ⟨connector, hs, hw⟩ := Option.map_eq_some_iff.mp h
  refine ⟨connector, hs, ?_⟩
  rw [← hw]
  unfold afterConnector
  split <;> rfl

theorem stepConn_eq {v w' : TcpClient} {i : Nat} {b : ConnWorld.Label}
    (h : v.stepConn i b = some w') : ∃ cc world, v.conns[i]? = some cc
      ∧ cc.world.step b = some world ∧ w' = v.afterConn i cc world := by
  obtain ⟨cc, hcc, h⟩ := Option.bind_eq_some_iff.mp h
  obtain ⟨world, hs, hw⟩ := Option.map_eq_some_iff.mp h
  exact ⟨cc, world, hcc, hs, hw.symm⟩

theorem step_connector {w v w' : TcpClient} {a : Label} {b : ConnectorLoop.Label}
    (hm : ConnectorMove w a v b) (h : v.stepConnector b = some w') : ClientStep w a w' := by
  obtain ⟨connector, hs, he⟩ := stepConnector_eq h
  rw [he]
  exact .connector hm (by rw [← hm.connector]; exact hs)

theorem step_conn {w v w' : TcpClient} {a : Label} {i : Nat} {b : ConnWorld.Label}
    (hm : ConnMove w a v i b) (h : v.stepConn i b = some w') : ClientStep w a w' := by
  obtain ⟨cc, world, hcc, hs, he⟩ := stepConn_eq h
  rw [he]
  exact .conn hm (by rw [← hm.conns]; exact hcc) hs

theorem step_runFrame {w w' : TcpClient} {f : ClientFrame} {rest : List ClientFrame}
    (hstk : w.stack = f :: rest) (hlife : w.life ≠ .destroyed)
    (hs : w.connector.connector.stack = []) (h : w.runFrame f rest = some w') :
    ClientStep w .next w' := by
  cases f with
  | newTcpConnection => exact absurd h (by simp [runFrame])
  | startConnector => exact step_connector (.startConnector hstk hlife) h
  | stopConnector => exact step_connector (.stopConnector hstk hlife) h
  | remove i =>
    rw [runFrame, removeTcpConnection] at h
    split at h
    · rename_i hc
      exact step_conn (.remove hstk hlife hc) h
    · rename_i hc
      rw [← Option.some.inj h]
      exact .plain (.removeFails hstk hc)
  | testRetry =>
    rw [runFrame] at h
    split at h
    · rename_i hr
      rw [← Option.some.inj h]
      exact .plain (.testRetry hstk hr)
    · exact step_connector (.removed hstk (.inl ⟨.inl rfl, rfl⟩) hlife) h
  | testStart =>
    rw [runFrame] at h
    split at h
    · rename_i hstart
      rw [← Option.some.inj h]
      exact .plain (.testStart hstk hstart)
    · exact step_connector (.removed hstk (.inl ⟨.inr rfl, rfl⟩) hlife) h
  | restart => exact step_connector (.removed hstk (.inr ⟨rfl, rfl⟩) hlife) h
  | closed i => exact step_conn (.closed hstk hlife) h
  | forceClose i => exact step_conn (.forceClose hstk hlife) h
  | destructed =>
    rw [runFrame] at h
    split at h
    · rw [← Option.some.inj h]
      exact .plain (.destructed hstk hs)
    · exact absurd h (by simp)

theorem step_otherNext {w w' : TcpClient} (h : w.otherNext = some w') :
    ClientStep w .otherNext w' := by
  unfold otherNext at h
  split at h
  · exact absurd h (by simp)
  · rename_i ho
    exact step_connector (.assignTrue ho) h
  · rename_i ho
    exact step_connector (.queueStart ho) h
  · rename_i ho
    exact step_connector (.assignFalse (.inl ⟨ho, rfl⟩)) h
  · rename_i ho
    exact step_connector (.queueStop (.inl ⟨ho, rfl⟩)) h
  · rename_i ho
    split at h
    · rw [← Option.some.inj h]
      exact .plain (.otherReturns (i := 0) (.inl ⟨.inl ho, rfl⟩))
    · exact step_conn (.other (.inl ⟨_, rfl⟩) (.inl ⟨ho, rfl⟩)) h
  · rename_i i ho
    split at h
    · rw [← Option.some.inj h]
      exact .plain (.otherReturns (.inl ⟨.inr ho, rfl⟩))
    · have hsame : w = { w with other := .shutdown i } := by rw [← ho]
      rw [hsame] at h
      exact step_conn (.other (.inr rfl) (.inr (.inl ⟨ho, rfl⟩))) h
  · rename_i unique ho
    exact step_connector (.assignFalse (.inr ⟨⟨unique, ho⟩, rfl⟩)) h
  · rename_i ho
    exact step_connector (.queueStop (.inr ⟨ho, rfl⟩)) h
  · rename_i i unique ho
    rw [← Option.some.inj h]
    exact .plain (.otherReplaces ho)
  · rename_i i ho
    exact step_conn (.other (.inl ⟨_, rfl⟩) (.inr (.inr ⟨.inl ho, rfl⟩))) h
  · rename_i i ho
    split at h
    · rw [← Option.some.inj h]
      exact .plain (.otherReturns (.inr ⟨ho, rfl⟩))
    · have hsame : w = { w with other := .forceClosing i } := by rw [← ho]
      rw [hsame] at h
      exact step_conn (.other (.inr rfl) (.inr (.inr ⟨.inr ho, rfl⟩))) h
  · rename_i ho
    rw [← Option.some.inj h]
    exact .plain (.otherDestructed ho)

theorem useMember_eq {w w' : TcpClient} {v : Option TcpClient} (h : w.useMember v = some w') :
    w.life = .destroyed ∧ w' = { w with fault := true } ∨ w.life ≠ .destroyed ∧ v = some w' := by
  unfold useMember at h
  split at h
  · rename_i hlife
    exact .inl ⟨hlife, (Option.some.inj h).symm⟩
  · rename_i hlife
    exact .inr ⟨hlife, h⟩

/-- **What a step of a client can be**, and that the program has not ended. -/
theorem step_cases {w w' : TcpClient} {a : Label} (h : w.step a = some w') :
    w.halted = false ∧ ClientStep w a w' := by
  unfold step at h
  split at h
  · exact absurd h (by simp)
  · rename_i hhalt
    refine ⟨by simpa using hhalt, ?_⟩
    cases a with
    | connect =>
      obtain ⟨hcall, h⟩ := Option.ite_none_right_eq_some.mp h
      rw [connect] at h
      split at h
      · rename_i hs
        rw [← Option.some.inj h]
        exact .plain (.connectFails (.inl rfl) hs)
      · rename_i hs
        rw [← Option.some.inj h]
        exact .plain (.connect hcall (Bool.eq_false_iff.mpr hs))
    | disconnect =>
      obtain ⟨hcall, h⟩ := Option.ite_none_right_eq_some.mp h
      rw [disconnect] at h
      dsimp only at h
      split at h
      · rw [← Option.some.inj h]
        exact .plain (.disconnect hcall)
      · rename_i i hc
        exact step_conn (.disconnect hcall hc) h
    | stop =>
      obtain ⟨hcall, h⟩ := Option.ite_none_right_eq_some.mp h
      rw [← Option.some.inj h]
      exact .plain (.stop hcall)
    | enableRetry =>
      dsimp only at h
      split at h
      · rw [← Option.some.inj h]
        exact .plain .enableRetry
      · exact absurd h (by simp)
    | destroy unique =>
      obtain ⟨hcall, h⟩ := Option.ite_none_right_eq_some.mp h
      rw [destroy] at h
      dsimp only at h
      split at h
      · rename_i hc
        rw [← Option.some.inj h]
        exact .plain (.destroyStop hcall.1 hcall.2 hc)
      · rename_i i hc
        obtain ⟨cc, hcc, hw⟩ := Option.map_eq_some_iff.mp h
        rw [← hw]
        exact .plain (.destroy hcall.1 hcall.2 hc hcc)
    | newTcpConnection low high =>
      dsimp only at h
      split at h
      · rename_i rest hstk
        rcases useMember_eq h with ⟨hlife, he⟩ | ⟨hlife, h⟩
        · rw [he]
          exact .plain (.fault hlife (by rw [hstk]; simp) (.inr ⟨low, high, rfl⟩))
        · unfold TcpClient.newTcpConnection at h
          obtain ⟨world, hw, he⟩ := Option.map_eq_some_iff.mp h
          rw [← he]
          exact .plain (.newTcpConnection hstk hlife hw)
      · exact absurd h (by simp)
    | next =>
      dsimp only at h
      split at h
      · exact absurd h (by simp)
      · rename_i f rest hstk
        split at h
        · rename_i hs
          rcases useMember_eq h with ⟨hlife, he⟩ | ⟨hlife, h⟩
          · rw [he]
            exact .plain (.fault hlife (by rw [hstk]; simp) (.inl rfl))
          · exact step_runFrame hstk hlife hs h
        · exact absurd h (by simp)
    | replace =>
      dsimp only at h
      split at h
      · exact absurd h (by simp)
      · rename_i i rest hq
        split at h
        · obtain ⟨cc, hcc, hw⟩ := Option.map_eq_some_iff.mp h
          rw [← hw]
          exact .plain (.replace hq hcc)
        · exact absurd h (by simp)
    | connector b =>
      obtain ⟨hown, h⟩ := Option.ite_none_right_eq_some.mp h
      exact step_connector (.own hown) h
    | conn i b =>
      obtain ⟨hown, h⟩ := Option.ite_none_right_eq_some.mp h
      exact step_conn (.own hown) h
    | otherConnect =>
      obtain ⟨hcall, h⟩ := Option.ite_none_right_eq_some.mp h
      obtain ⟨hlife, ho⟩ := of_decide_eq_true hcall
      rw [← Option.some.inj h]
      split
      · rename_i hs
        exact .plain (.connectFails (.inr rfl) hs)
      · rename_i hs
        exact .plain (.otherConnect ho hlife (Bool.eq_false_iff.mpr hs))
    | otherDisconnect =>
      obtain ⟨hcall, h⟩ := Option.ite_none_right_eq_some.mp h
      obtain ⟨hlife, ho⟩ := of_decide_eq_true hcall
      rw [← Option.some.inj h]
      exact .plain (.otherDisconnect ho hlife)
    | otherStop =>
      obtain ⟨hcall, h⟩ := Option.ite_none_right_eq_some.mp h
      obtain ⟨hlife, ho⟩ := of_decide_eq_true hcall
      rw [← Option.some.inj h]
      exact .plain (.otherStop ho hlife)
    | otherDestroy unique =>
      obtain ⟨hcall, h⟩ := Option.ite_none_right_eq_some.mp h
      obtain ⟨hlife, ho⟩ := of_decide_eq_true hcall
      rw [← Option.some.inj h]
      exact .plain (.otherDestroy ho hlife)
    | otherNext => exact step_otherNext h

end TcpClient

end Windz
