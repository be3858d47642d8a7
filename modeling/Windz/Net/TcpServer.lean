import Windz.Net.ConnWorld

/-!
# `TcpServer`

The server of `net/TcpServer.cpp` with the loops it lives in. Loop 0 is the main
loop, which accepts and keeps `connections_`; loops 1, 2, … are those of the thread
pool, handed out in turn by `Next()`, and without a pool the main loop serves the
connections as well. Each loop has the queue of functors it has been given. A
functor is a `Task`, with the connection it is about.

What a connection does inside is `TcpConnection`; here is what it hands out. Its
`close_cb_` is `RemoveTcpConnection`, which runs in the main loop, at once or by a
functor, and leaves `DestroyConnection` to the loop of the connection.

A loop takes a functor, a timer, an event or a new connection only when it is out
of all its connections. In user code of one it may call another.
-/

namespace Windz

open Lib

/-- A loop, which is also the thread it runs in. -/
abbrev LoopId := ThreadId

/-- A connection, as its number in the order of acceptance. -/
abbrev ConnId := Nat

/-- A functor in the queue of a loop. -/
inductive Task where
  | establish (i : ConnId)
  | functor (i : ConnId) (f : ConnFunctor)
  /-- The functor of `RemoveTcpConnection`. -/
  | remove (i : ConnId)
deriving DecidableEq

/-- An accepted connection. -/
structure ServerConn where
  /-- Its name. -/
  name : String
  /-- Its loop. -/
  loop : LoopId
  /-- The connection. -/
  conn : TcpConnection
  /-- The timers of `ForceCloseAfter` that have not fired. -/
  timers : Nat
  /-- Ghost: the functor of `RemoveTcpConnection` has run. -/
  removed : Bool

/-- A server, its loops and the connections it has accepted. -/
structure TcpServer where
  /-- `name_`. -/
  name : String
  /-- `connection_cb_` is set. -/
  hasConnectionCb : Bool
  /-- The loops of `thread_pool_`, none without one. -/
  loops : Nat
  /-- Its `next_`. -/
  next : Nat
  /-- `next_connid_`. -/
  nextConnId : Int32
  /-- `connections_`. -/
  connections : String → Option ConnId
  /-- The functors that each loop has been given. -/
  queues : LoopId → List Task
  /-- Every connection accepted so far. -/
  conns : List ServerConn

namespace TcpServer

/-- The loop of the server itself; those of the pool follow. -/
def mainLoop : LoopId := 0

/-- A started server. -/
def create (name : String) (hasConnectionCb : Bool) (loops : Nat) : TcpServer :=
  { name, hasConnectionCb, loops, next := 0, nextConnId := 1, connections := fun _ => none
    queues := fun _ => [], conns := [] }

/-- `QueueInLoop` of a loop. -/
def queueInLoop (w : TcpServer) (loop : LoopId) (t : Task) : TcpServer :=
  { w with queues := Function.update w.queues loop (w.queues loop ++ [t]) }

/-- Connection `i` becomes `sc`. -/
def setConn (w : TcpServer) (i : ConnId) (sc : ServerConn) : TcpServer :=
  { w with conns := w.conns.set i sc }

/-- The loop is out of all its connections. -/
def idle (w : TcpServer) (loop : LoopId) : Bool :=
  w.conns.all fun sc => sc.loop ≠ loop ∨ sc.conn.stack = []

/-- `thread_pool_->Next()`, or `loop_` without a pool. -/
def nextLoop (w : TcpServer) : LoopId := if w.loops = 0 then mainLoop else w.next + 1

/-- `next_` after `Next()`. -/
def nextIndex (w : TcpServer) : Nat :=
  if w.loops = 0 then w.next else if w.next + 1 ≥ w.loops then 0 else w.next + 1

/-- `name_ + '#' + std::to_string(next_connid_)`. -/
def connName (w : TcpServer) : String := w.name ++ "#" ++ toString w.nextConnId.toInt

/-- The connection that `NewTcpConnection` makes; the flags say which watermark callbacks the user
sets. -/
def newConn (w : TcpServer) (hasLowWatermarkCb hasHighWatermarkCb : Bool) : ServerConn :=
  { name := w.connName, loop := w.nextLoop, timers := 0, removed := false
    conn := .create w.nextLoop w.hasConnectionCb hasLowWatermarkCb hasHighWatermarkCb }

/-- `NewTcpConnection`. -/
def newTcpConnection (w : TcpServer) (hasLowWatermarkCb hasHighWatermarkCb : Bool) : TcpServer :=
  let sc := w.newConn hasLowWatermarkCb hasHighWatermarkCb
  let i := w.conns.length
  let w := { w with
    next := w.nextIndex
    nextConnId := w.nextConnId + 1
    connections := Function.update w.connections sc.name (some i) }
  -- `RunInLoop` of `EstablishConnection`
  if sc.loop = mainLoop then
    { w with conns :=
      w.conns ++ [{ sc with conn := { sc.conn with stack := [.establishConnection] } }] }
  else { w with conns := w.conns ++ [sc] }.queueInLoop sc.loop (.establish i)

/-- What `RemoveTcpConnection` runs in the main loop. -/
def removeInLoop (w : TcpServer) (i : ConnId) : TcpServer :=
  match w.conns[i]? with
  | none => w
  | some sc =>
      { w.setConn i { sc with removed := true } with
        connections := Function.update w.connections sc.name none }.queueInLoop sc.loop
          (.functor i .destroyConnection)

/-- `RemoveTcpConnection`, called in the loop given. -/
def removeTcpConnection (w : TcpServer) (loop : LoopId) (i : ConnId) : TcpServer :=
  if loop = mainLoop then w.removeInLoop i else w.queueInLoop mainLoop (.remove i)

/-- What connection `i` hands out, `sc` being the connection after the step. -/
def emit (w : TcpServer) (i : ConnId) (sc : ServerConn) : Option Outgoing → TcpServer
  | none => w
  | some (.queueInLoop f) => w.queueInLoop sc.loop (.functor i f)
  | some .runAfter => w.setConn i { sc with timers := sc.timers + 1 }
  | some .closeCb => w.removeTcpConnection sc.loop i

/-- The loop thread comes into connection `i`. -/
def enter (w : TcpServer) (i : ConnId) (frames : List Frame) : Option TcpServer :=
  w.conns[i]?.bind fun sc => (sc.conn.enter frames).map fun conn => w.setConn i { sc with conn }

/-- A loop runs a task of its queue. -/
def runTask (w : TcpServer) : Task → Option TcpServer
  | .establish i => w.enter i [.establishConnection]
  | .functor i f => w.enter i (TcpConnection.functorFrames f)
  | .remove i => some (w.removeInLoop i)

/-- The steps of the main loop and of the loops of the connections. -/
inductive Label where
  /-- The main loop accepts. -/
  | accept (hasLowWatermarkCb hasHighWatermarkCb : Bool)
  /-- The loop of connection `i` inside it. -/
  | run (i : ConnId) (a : LocalLabel)
  /-- A loop runs the oldest functor. -/
  | functor (loop : LoopId)
  -- a timer of connection `i` fires, `epoll` reports events for it
  | timer (i : ConnId)
  | event (i : ConnId) (error readable writable : Bool)
deriving DecidableEq

/-- One step, `none` where it is not enabled. -/
def step (w : TcpServer) (a : Label) : Option TcpServer :=
  -- a failed assertion ends the program
  if w.conns.any (·.conn.failed.isSome) then none else
  match a with
  | .accept low high => if w.idle mainLoop then some (w.newTcpConnection low high) else none
  | .run i a =>
      w.conns[i]?.bind fun sc => (sc.conn.localStep a).map fun (conn, out) =>
        (w.setConn i { sc with conn }).emit i { sc with conn } out
  | .functor loop =>
      match w.queues loop with
      | [] => none
      | t :: rest =>
          if w.idle loop then
            { w with queues := Function.update w.queues loop rest }.runTask t
          else none
  | .timer i =>
      w.conns[i]?.bind fun sc =>
        if w.idle sc.loop ∧ sc.timers ≠ 0 then
          (w.setConn i { sc with timers := sc.timers - 1 }).enter i [.forceCloseInLoop]
        else none
  | .event i error readable writable =>
      w.conns[i]?.bind fun sc =>
        if w.idle sc.loop ∧ sc.conn.reports readable writable then
          w.enter i (TcpConnection.eventFrames error readable writable)
        else none

/-- A server with any number of loops. -/
def machine (name : String) (hasConnectionCb : Bool) (loops : Nat) : Machine TcpServer Label where
  init := (· = create name hasConnectionCb loops)
  step := step

end TcpServer

end Windz
