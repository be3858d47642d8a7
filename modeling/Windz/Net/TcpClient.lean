import Windz.Net.ConnWorld
import Windz.Net.Connector

/-!
# `TcpClient`

The client of `net/TcpClient.cpp` with its connector, the connections it has made, and
the loop they all live in. A connector and a connection keep their own functors and
timers; nothing is assumed about the order among those of different objects, so more
runs are covered than `Loop` makes.

The loop thread comes into the client when the connector calls `conn_cb_` and when a
connection calls `close_cb_`, which runs `RemoveTcpConnection`, or what `~TcpClient` put
in its place. The user calls the client in the loop thread, from his own code, and in one
other thread, whose calls take their steps between those of the loop thread; each access
to a flag is a step of its own. Whether `connection_.unique()` holds is up to the run,
as it depends on the pointers that others keep.

`fault` says that the loop thread used a member of the client after `~TcpClient` had
returned. The run ends there, as it does at a failed assertion.
-/

namespace Windz

open Lib

/-- The calls that the loop thread is in, as far as they have got. -/
inductive ClientFrame where
  -- `connector_->Start()` and `connector_->Stop()`
  | startConnector
  | stopConnector
  | newTcpConnection
  -- `RemoveTcpConnection`, before its tests of `retry_` and `start_`, and before `Restart`
  | remove (i : Nat)
  | testRetry
  | testStart
  | restart
  /-- The close callback of `~TcpClient`. -/
  | closed (i : Nat)
  -- `~TcpClient` before `conn->ForceClose()`, and before it returns
  | forceClose (i : Nat)
  | destructed
deriving DecidableEq

/-- Where the other thread stands in a call. -/
inductive ClientPc where
  | idle
  -- behind the assignment to the client's `start_`, then to the connector's
  | connectAssigned
  | connectQueue
  | stopAssigned
  | stopQueue
  | disconnectAssigned
  /-- In `Shutdown` of connection `i`. -/
  | shutdown (i : Nat)
  -- in `~TcpClient`, behind its lock; in `ForceClose`; in `Connector::Stop`; before it returns
  | destroying (conn : Option Nat) (unique : Bool)
  | forceClose (i : Nat)
  | forceClosing (i : Nat)
  | destroyQueue
  | destructing
deriving DecidableEq

/-- How far the life of the client has got. -/
inductive ClientLife where
  | alive
  -- `~TcpClient` has begun, and has returned
  | destroying
  | destroyed
deriving DecidableEq

/-- The assertions of `Connect` and of `RemoveTcpConnection`. -/
inductive ClientAssert where
  | connect
  | remove
deriving DecidableEq

/-- A connection the client has made. -/
structure ClientConn where
  /-- The connection, and what is around it. -/
  world : ConnWorld
  /-- `~TcpClient` has replaced the close callback. -/
  replaced : Bool

/-- A client with its connector and the connections it has made. -/
structure TcpClient where
  /-- The thread of `loop_`. -/
  tid : ThreadId
  /-- The other thread. -/
  otherTid : ThreadId
  /-- `retry_`. -/
  retry : Bool
  /-- `start_`. -/
  start : Bool
  /-- `connection_`. -/
  connection : Option Nat
  /-- `connection_cb_` is set. -/
  hasConnectionCb : Bool
  /-- `connector_`, and the loop. -/
  connector : ConnectorLoop
  /-- The connections made so far. -/
  conns : List ClientConn
  /-- The functors of `~TcpClient` in the queue of the loop. -/
  replacing : List Nat
  /-- What the loop thread has to do in the client, innermost first. -/
  stack : List ClientFrame
  /-- Where the other thread stands. -/
  other : ClientPc
  /-- How far the client has come to its end. -/
  life : ClientLife
  /-- An assertion has failed. -/
  failed : Option ClientAssert
  /-- A member was used behind the destructor. -/
  fault : Bool

namespace TcpClient

/-- The constructor, the clock reading `now`. -/
def create (tid otherTid : ThreadId) (hasConnectionCb : Bool) (now : Timestamp) : TcpClient :=
  { tid, otherTid, retry := false, start := false, connection := none, hasConnectionCb
    connector := .create now, conns := [], replacing := [], stack := [], other := .idle
    life := .alive, failed := none, fault := false }

/-- The loop thread is in user code. -/
def userCode (w : TcpClient) : Bool :=
  w.stack = [] ∧ w.connector.connector.stack = [] ∧ w.conns.all fun cc => cc.world.conn.atUser

/-- The loop thread is out of the client and all that belongs to it. -/
def idle (w : TcpClient) : Bool :=
  w.stack = [] ∧ w.connector.connector.stack = []
    ∧ w.conns.all fun cc => cc.world.conn.stack = []

/-- The program has ended. -/
def halted (w : TcpClient) : Bool :=
  w.fault ∨ w.failed.isSome ∨ w.connector.connector.failed.isSome
    ∨ w.conns.any fun cc => cc.world.conn.failed.isSome

/-- A step of the connector; a call of `conn_cb_` is one of `NewTcpConnection`. -/
def stepConnector (w : TcpClient) (a : ConnectorLoop.Label) : Option TcpClient :=
  (w.connector.step a).map fun connector =>
    if w.connector.opened < connector.opened then
      { w with connector, stack := .newTcpConnection :: w.stack }
    else { w with connector }

/-- The frame of the close callback of connection `i`. -/
def closeCb (cc : ClientConn) (i : Nat) : ClientFrame := if cc.replaced then .closed i else .remove i

/-- A step of connection `i`, which may call its close callback. -/
def stepConn (w : TcpClient) (i : Nat) (a : ConnWorld.Label) : Option TcpClient :=
  w.conns[i]?.bind fun cc => (cc.world.step a).map fun world =>
    { w with
      conns := w.conns.set i { cc with world }
      stack := if cc.world.closes < world.closes then closeCb cc i :: w.stack else w.stack }

/-! ## The public functions, called in the loop thread -/

/-- `Connect` in the loop thread. -/
def connect (w : TcpClient) : Option TcpClient :=
  if w.start then some { w with failed := some .connect }
  else some { w with start := true, stack := [.startConnector] }

/-- `Disconnect` in the loop thread. -/
def disconnect (w : TcpClient) : Option TcpClient :=
  let w := { w with start := false }
  match w.connection with
  | none => some w
  | some i => w.stepConn i (.run (.call .shutdown))

/-- `Stop` in the loop thread. -/
def stop (w : TcpClient) : Option TcpClient :=
  some { w with start := false, stack := [.stopConnector] }

/-- `~TcpClient` up to `ForceClose`. -/
def destroy (w : TcpClient) (unique : Bool) : Option TcpClient :=
  let w := { w with life := .destroying }
  match w.connection with
  | none => some { w with stack := [.stopConnector, .destructed] }
  | some i =>
      w.conns[i]?.map fun cc =>
        { w with
          conns := w.conns.set i { cc with replaced := true }
          stack := if unique then [.forceClose i, .destructed] else [.destructed] }

/-! ## In the loop thread -/

/-- `NewTcpConnection`; the flags say which watermark callbacks the user sets. -/
def newTcpConnection (w : TcpClient) (hasLowWatermarkCb hasHighWatermarkCb : Bool)
    (rest : List ClientFrame) : Option TcpClient :=
  let conn := TcpConnection.create w.tid w.hasConnectionCb hasLowWatermarkCb hasHighWatermarkCb
  ((ConnWorld.create conn).step .establish).map fun world =>
    { w with
      connection := some w.conns.length
      conns := w.conns ++ [{ world, replaced := false }]
      stack := rest }

/-- `RemoveTcpConnection` up to its test of `retry_`. -/
def removeTcpConnection (w : TcpClient) (i : Nat) (rest : List ClientFrame) : Option TcpClient :=
  if w.connection = some i then
    { w with connection := none, stack := .testRetry :: rest }.stepConn i .ownerAnswers
  else some { w with failed := some .remove }

/-- The step of the frame `f` on top. -/
def runFrame (w : TcpClient) (f : ClientFrame) (rest : List ClientFrame) : Option TcpClient :=
  match f with
  | .newTcpConnection => none
  | .startConnector => { w with stack := rest }.stepConnector .start
  | .stopConnector => { w with stack := rest }.stepConnector .stop
  | .remove i => w.removeTcpConnection i rest
  | .testRetry =>
      if w.retry then some { w with stack := .testStart :: rest }
      else { w with stack := rest }.stepConnector (.closed false)
  | .testStart =>
      if w.start then some { w with stack := .restart :: rest }
      else { w with stack := rest }.stepConnector (.closed false)
  | .restart => { w with stack := rest }.stepConnector (.closed true)
  | .closed i => { w with stack := rest }.stepConn i .ownerAnswers
  | .forceClose i => { w with stack := rest }.stepConn i (.run (.call .forceClose))
  | .destructed =>
      if w.conns.all fun cc => cc.world.conn.atUser then
        some { w with stack := rest, life := .destroyed }
      else none

/-- The loop thread uses a member of the client. -/
def useMember (w : TcpClient) (v : Option TcpClient) : Option TcpClient :=
  if w.life = .destroyed then some { w with fault := true } else v

/-- The loop thread may go on in connection `i`. -/
def canRun (w : TcpClient) (i : Nat) : Bool :=
  w.connector.connector.stack = []
    ∧ (w.stack = [] ∨ w.stack = [.destructed] ∧ w.conns[i]?.all fun cc => !cc.world.conn.atUser)

/-- Who takes a step of connection `i`; its owner is the client. -/
def canStepConn (w : TcpClient) (i : Nat) : ConnWorld.Label → Bool
  | .establish | .ownerAnswers => false
  | .run _ => w.canRun i
  | .functor | .timer | .event _ _ _ => w.idle
  | .threadCall t _ => t = w.otherTid → w.other = .idle
  | .threadNext t => t = w.otherTid → w.other = .idle

/-- Who takes a step of the connector; its owner is the client. -/
def canStepConnector (w : TcpClient) : ConnectorLoop.Label → Bool
  | .start | .stop | .closed _ | .threadAssign _ | .threadQueue _ => false
  | .run _ | .clock _ => true
  | .next | .timer _ | .event _ _ => w.idle

/-! ## The other thread -/

/-- The other thread has left connection `i`. -/
def outOfConn (w : TcpClient) (i : Nat) : Bool :=
  w.conns[i]?.all fun cc => cc.world.threads w.otherTid = .idle

/-- The other thread goes on in its call. -/
def otherNext (w : TcpClient) : Option TcpClient :=
  match w.other with
  | .idle => none
  | .connectAssigned => { w with other := .connectQueue }.stepConnector (.threadAssign true)
  | .connectQueue => { w with other := .idle }.stepConnector (.threadQueue true)
  | .stopAssigned => { w with other := .stopQueue }.stepConnector (.threadAssign false)
  | .stopQueue => { w with other := .idle }.stepConnector (.threadQueue false)
  | .disconnectAssigned =>
      match w.connection with
      | none => some { w with other := .idle }
      | some i => { w with other := .shutdown i }.stepConn i (.threadCall w.otherTid .shutdown)
  | .shutdown i =>
      if w.outOfConn i then some { w with other := .idle }
      else w.stepConn i (.threadNext w.otherTid)
  | .destroying none _ => { w with other := .destroyQueue }.stepConnector (.threadAssign false)
  | .destroyQueue => { w with other := .destructing }.stepConnector (.threadQueue false)
  | .destroying (some i) unique =>
      some { w with
        replacing := w.replacing ++ [i]
        other := if unique then .forceClose i else .destructing }
  | .forceClose i =>
      { w with other := .forceClosing i }.stepConn i (.threadCall w.otherTid .forceClose)
  | .forceClosing i =>
      if w.outOfConn i then some { w with other := .destructing }
      else w.stepConn i (.threadNext w.otherTid)
  | .destructing => some { w with other := .idle, life := .destroyed }

/-- The steps of the user in either thread, of the loop, of the connector and of the connections. -/
inductive Label where
  -- the user in the loop thread
  | connect
  | disconnect
  | stop
  | enableRetry
  | destroy (unique : Bool)
  -- the loop thread inside the client
  | newTcpConnection (hasLowWatermarkCb hasHighWatermarkCb : Bool)
  | next
  /-- The loop runs a functor of `~TcpClient`. -/
  | replace
  -- a step of the connector and the loop, of connection `i`
  | connector (a : ConnectorLoop.Label)
  | conn (i : Nat) (a : ConnWorld.Label)
  -- the other thread makes a call, and goes on in it
  | otherConnect
  | otherDisconnect
  | otherStop
  | otherDestroy (unique : Bool)
  | otherNext
deriving DecidableEq

/-- The user can call the client in the loop thread. -/
def canCall (w : TcpClient) : Bool := w.life = .alive ∧ w.userCode

/-- And in the other thread. -/
def canCallOther (w : TcpClient) : Bool := w.life = .alive ∧ w.other = .idle

/-- One step, `none` where it is not enabled. -/
def step (w : TcpClient) (a : Label) : Option TcpClient :=
  if w.halted then none else
  match a with
  | .connect => if w.canCall then w.connect else none
  | .disconnect => if w.canCall then w.disconnect else none
  | .stop => if w.canCall then w.stop else none
  | .enableRetry => if w.life = .alive then some { w with retry := true } else none
  | .destroy unique => if w.canCall ∧ w.other = .idle then w.destroy unique else none
  | .newTcpConnection low high =>
      match w.stack with
      | .newTcpConnection :: rest => w.useMember (w.newTcpConnection low high rest)
      | _ => none
  | .next =>
      match w.stack with
      | [] => none
      | f :: rest =>
          if w.connector.connector.stack = [] then w.useMember (w.runFrame f rest) else none
  | .replace =>
      match w.replacing with
      | [] => none
      | i :: rest =>
          if w.idle then
            w.conns[i]?.map fun cc =>
              { w with conns := w.conns.set i { cc with replaced := true }, replacing := rest }
          else none
  | .connector a => if w.canStepConnector a then w.stepConnector a else none
  | .conn i a => if w.canStepConn i a then w.stepConn i a else none
  | .otherConnect =>
      if w.canCallOther then
        some (if w.start then { w with failed := some .connect }
          else { w with start := true, other := .connectAssigned })
      else none
  | .otherDisconnect =>
      if w.canCallOther then some { w with start := false, other := .disconnectAssigned } else none
  | .otherStop =>
      if w.canCallOther then some { w with start := false, other := .stopAssigned } else none
  | .otherDestroy unique =>
      if w.canCallOther then
        some { w with life := .destroying, other := .destroying w.connection unique }
      else none
  | .otherNext => w.otherNext

/-- A client from its constructor on. -/
def machine (tid otherTid : ThreadId) (hasConnectionCb : Bool) : Machine TcpClient Label where
  init := fun w => otherTid ≠ tid ∧ ∃ now, w = create tid otherTid hasConnectionCb now
  step := step

end TcpClient

end Windz
