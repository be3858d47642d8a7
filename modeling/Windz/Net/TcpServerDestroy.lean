import Windz.Net.TcpServer

/-!
# `~TcpServer`

A server that is destroyed by user code of the main loop, which goes on afterwards. The
destructor calls `DestroyConnection` for each connection in `connections_`, at once for
those of the main loop and by a functor for the others; then the members are destroyed,
of which `thread_pool_` stops its loops and waits for their threads.

Which connection comes next, and when a loop that has been told to quit comes to its
end, is left open. While the destructor runs, the main loop does nothing else than what
`DestroyConnection` calls; in `connection_cb_` the destructor may go on to the next
connection, so more runs are covered than there are.

Users hold on to connections, so all the while other threads than a connection's own may
be in calls of it, in the steps that `ConnWorld` has for them.

`ranDead` says that a functor of `RemoveTcpConnection` ran after the server was
destroyed.
-/

namespace Windz

open Lib

/-- How far the server has come to its end. -/
inductive ServerLife where
  | alive
  | destroying
  | destroyed
deriving DecidableEq

/-- A server that may be destroyed, among threads that call its connections. -/
structure DyingServer where
  /-- Its members, and the connections. -/
  server : TcpServer
  /-- Whether the destructor has begun, and has returned. -/
  life : ServerLife
  /-- The connections the destructor has not come to. -/
  pending : List ConnId
  /-- The loops whose threads have ended. -/
  stopped : List LoopId
  /-- A functor of `RemoveTcpConnection` ran after the server was destroyed. -/
  ranDead : Bool
  /-- Where each other thread stands in a call of a connection. -/
  threads : ConnId → ThreadId → ThreadPc

namespace DyingServer

/-- A started server. -/
def create (name : String) (hasConnectionCb : Bool) (loops : Nat) : DyingServer :=
  { server := .create name hasConnectionCb loops, life := .alive, pending := [], stopped := []
    ranDead := false, threads := fun _ _ => .idle }

/-- The connections in `connections_`. -/
def inMap (w : TcpServer) : List ConnId :=
  (List.range w.conns.length).filter fun i =>
    w.conns[i]?.any fun sc => w.connections sc.name = some i

/-- The main loop is in user code. -/
def userCode (w : TcpServer) : Bool :=
  w.conns.all fun sc => sc.loop ≠ TcpServer.mainLoop ∨ sc.conn.atUser

/-- The destructor comes to connection `i`. -/
def destroyNext (w : TcpServer) (i : ConnId) : Option TcpServer :=
  w.conns[i]?.map fun sc =>
    let w := { w with connections := Function.update w.connections sc.name none }
    -- `RunInLoop` of `DestroyConnection`
    if sc.loop = TcpServer.mainLoop then
      w.setConn i { sc with conn := { sc.conn with stack := .destroyConnection :: sc.conn.stack } }
    else w.queueInLoop sc.loop (.functor i .destroyConnection)

/-- Connection `i` calls `close_cb_` in the step. -/
def closes (w : TcpServer) (i : ConnId) (a : LocalLabel) : Bool :=
  w.conns[i]?.any fun sc => (sc.conn.localStep a).any fun r => r.2 = some .closeCb

/-- The step runs the functor of `RemoveTcpConnection`. -/
def runsRemoval (w : TcpServer) : TcpServer.Label → Bool
  | .functor loop =>
      match w.queues loop with
      | .remove _ :: _ => true
      | _ => false
  | .run i a => closes w i a ∧ w.conns[i]?.any fun sc => sc.loop = TcpServer.mainLoop
  | .accept _ _ | .timer _ | .event _ _ _ _ => false

/-- The loop that takes the step. -/
def loopOf (w : TcpServer) : TcpServer.Label → Option LoopId
  | .accept _ _ => some TcpServer.mainLoop
  | .functor loop => some loop
  | .run i _ | .timer i | .event i _ _ _ => w.conns[i]?.map (·.loop)

/-- The step is one of `DestroyConnection`, called by the destructor in the main loop. -/
def inDestroy (w : TcpServer) : TcpServer.Label → Bool
  | .run i _ => w.conns[i]?.any fun sc =>
      match sc.conn.stack with
      | .user :: .destroyClose :: _ => true
      | _ => !sc.conn.atUser
  | _ => false

/-- The step accepts a connection. -/
def accepts : TcpServer.Label → Bool
  | .accept _ _ => true
  | _ => false

/-- The loop of the step is there, and free to take it. -/
def canStep (w : DyingServer) (a : TcpServer.Label) : Bool :=
  (loopOf w.server a).all fun loop =>
    match w.life with
    | .alive => true
    | .destroying =>
        if loop = TcpServer.mainLoop then inDestroy w.server a else loop ∉ w.stopped
    | .destroyed => loop ∉ w.stopped ∧ !accepts a

/-! ## Other threads -/

/-- Connection `i` as other threads come to it. -/
def calling (w : DyingServer) (i : ConnId) (sc : ServerConn) : ConnWorld :=
  { conn := sc.conn, queue := [], timers := sc.timers, closes := 0, established := true
    threads := w.threads i }

/-- What such a thread leaves behind: its functors go to the loop of the connection. -/
def called (w : DyingServer) (i : ConnId) (sc : ServerConn) (v : ConnWorld) : DyingServer :=
  { w with
    server := v.queue.foldl (fun server f => server.queueInLoop sc.loop (.functor i f))
      (w.server.setConn i { sc with conn := v.conn, timers := v.timers })
    threads := Function.update w.threads i v.threads }

/-- A step of another thread in connection `i`. -/
def threadStep (w : DyingServer) (i : ConnId) (a : ConnWorld.Label) : Option DyingServer :=
  -- a failed assertion ends the program
  if w.server.conns.any (·.conn.failed.isSome) then none else
  w.server.conns[i]?.bind fun sc => ((w.calling i sc).step a).map (w.called i sc)

/-! ## Steps -/

/-- The steps of the server, of its destructor, and of other threads. -/
inductive Label where
  /-- A step of a server that is there, or of what it leaves behind. -/
  | server (a : TcpServer.Label)
  /-- The destructor is called. -/
  | destroy
  /-- It comes to a connection in `connections_`. -/
  | destroyNext (i : ConnId)
  /-- It returns. -/
  | destructed
  /-- A loop of the pool returns from `Loop`. -/
  | loopEnds (loop : LoopId)
  /-- Thread `t`, not the loop's, calls connection `i`, and goes on in the call. -/
  | threadCall (i : ConnId) (t : ThreadId) (op : UserCall)
  | threadNext (i : ConnId) (t : ThreadId)
deriving DecidableEq

/-- The state after a step, if it is enabled. -/
def step (w : DyingServer) (a : Label) : Option DyingServer :=
  match a with
  | .server a =>
      if w.canStep a then
        (w.server.step a).map fun server =>
          { w with
            server
            ranDead := w.ranDead ∨ w.life = .destroyed ∧ runsRemoval w.server a }
      else none
  | .destroy =>
      if w.life = .alive ∧ userCode w.server then
        some { w with life := .destroying, pending := inMap w.server }
      else none
  | .destroyNext i =>
      if w.life = .destroying ∧ i ∈ w.pending ∧ userCode w.server then
        (destroyNext w.server i).map fun server => { w with server, pending := w.pending.erase i }
      else none
  | .loopEnds loop =>
      if w.life = .destroying ∧ w.pending = [] ∧ loop ≠ TcpServer.mainLoop
          ∧ w.server.idle loop then
        some { w with stopped := loop :: w.stopped }
      else none
  | .destructed =>
      if w.life = .destroying ∧ w.pending = [] ∧ userCode w.server
          ∧ ∀ k < w.server.loops, k + 1 ∈ w.stopped then
        some { w with life := .destroyed }
      else none
  | .threadCall i t op => w.threadStep i (.threadCall t op)
  | .threadNext i t => w.threadStep i (.threadNext t)

/-- A server with any number of loops. -/
def machine (name : String) (hasConnectionCb : Bool) (loops : Nat) : Machine DyingServer Label where
  init := (· = create name hasConnectionCb loops)
  step := step

end DyingServer

end Windz
