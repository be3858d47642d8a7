import Windz.Net.TcpConnection

/-!
# A connection among its loop, its owner and other threads

`TcpConnection` with what is around it: the functors its loop has been given, the
timers of `ForceCloseAfter`, the owner, and other threads in `Send`, `Shutdown` or
`ForceClose`, each of which tests `state_`, assigns it and queues its functor in
steps of its own. The loop thread comes into the connection only when it is out of
it, for the oldest functor, a timer or an event; nothing is assumed about the order
of these, so more runs are covered than `Loop` makes.

The owner calls `EstablishConnection` once, and answers each call of `close_cb_`,
at once or later, with a functor for `DestroyConnection`.
-/

namespace Windz

open Lib

/-- Where another thread stands in a call. -/
inductive ThreadPc where
  | idle
  -- behind the test of `state_` in `Send`, `Shutdown`, `ForceClose`
  | sendTested (call : SendCall)
  | shutdownTested
  | forceCloseTested
  -- behind the assignment to `state_`
  | shutdownAssigned
  | forceCloseAssigned
deriving DecidableEq

/-- A connection and what is around it. -/
structure ConnWorld where
  /-- The connection. -/
  conn : TcpConnection
  /-- Its functors in the queue of the loop. -/
  queue : List ConnFunctor
  /-- The timers of `ForceCloseAfter` that have not fired. -/
  timers : Nat
  /-- The calls of `close_cb_` that the owner has not answered. -/
  closes : Nat
  /-- The owner has called `EstablishConnection`. -/
  established : Bool
  /-- Where each other thread stands. -/
  threads : ThreadId → ThreadPc

namespace ConnWorld

/-- A new connection, which nobody has called. -/
def create (c : TcpConnection) : ConnWorld :=
  { conn := c, queue := [], timers := 0, closes := 0, established := false
    threads := fun _ => .idle }

/-- What a step hands out comes into the queue, to the timers or to the owner. -/
def emit (w : ConnWorld) : Option Outgoing → ConnWorld
  | none => w
  | some (.queueInLoop f) => { w with queue := w.queue ++ [f] }
  | some .runAfter => { w with timers := w.timers + 1 }
  | some .closeCb => { w with closes := w.closes + 1 }

/-- Thread `t` goes on to `pc`. -/
def setThread (w : ConnWorld) (t : ThreadId) (pc : ThreadPc) : ConnWorld :=
  { w with threads := Function.update w.threads t pc }

/-- Another thread calls the connection and tests `state_`. -/
def threadCall (w : ConnWorld) (t : ThreadId) (op : UserCall) : ConnWorld :=
  match op with
  | .send message =>
      if w.conn.state = .kConnected then
        let call := w.conn.nextCall t message
        { w.setThread t (.sendTested call) with
          conn := { w.conn with calls := w.conn.calls ++ [call] } }
      else w
  | .shutdown => if w.conn.state = .kConnected then w.setThread t .shutdownTested else w
  | .forceClose => if w.conn.isOpen then w.setThread t .forceCloseTested else w
  | .forceCloseAfter => { w with timers := w.timers + 1 }

/-- Another thread goes on in its call. -/
def threadNext (w : ConnWorld) (t : ThreadId) : Option ConnWorld :=
  match w.threads t with
  | .idle => none
  | .sendTested call =>
      some { w.setThread t .idle with
        queue := w.queue ++ [.sendInLoop call]
        conn := { w.conn with returned := w.conn.returned ++ [call] } }
  | .shutdownTested =>
      some { w.setThread t .shutdownAssigned with
        conn := { w.conn with state := .kDisconnecting } }
  | .shutdownAssigned => some { w.setThread t .idle with queue := w.queue ++ [.shutdownInLoop] }
  | .forceCloseTested =>
      some { w.setThread t .forceCloseAssigned with
        conn := { w.conn with state := .kDisconnected } }
  | .forceCloseAssigned =>
      some { w.setThread t .idle with queue := w.queue ++ [.forceCloseInLoop] }

/-- The loop thread comes into the connection. -/
def enter (w : ConnWorld) (frames : List Frame) : Option ConnWorld :=
  (w.conn.enter frames).map fun conn => { w with conn }

/-- The steps of the loop thread, of its loop and of the other threads. -/
inductive Label where
  /-- The loop thread inside the connection. -/
  | run (a : LocalLabel)
  -- the owner calls `EstablishConnection`, or answers a call of `close_cb_`
  | establish
  | ownerAnswers
  -- the loop runs the oldest functor, a timer fires, `epoll` reports events
  | functor
  | timer
  | event (error readable writable : Bool)
  -- thread `t`, not the loop's, makes a call, and goes on in it
  | threadCall (t : ThreadId) (op : UserCall)
  | threadNext (t : ThreadId)
deriving DecidableEq

/-- One step, `none` where it is not enabled. -/
def step (w : ConnWorld) (a : Label) : Option ConnWorld :=
  if w.conn.failed.isSome then none else
  match a with
  | .run a => (w.conn.localStep a).map fun (conn, out) => { w with conn }.emit out
  | .establish =>
      if w.established then none else { w with established := true }.enter [.establishConnection]
  | .ownerAnswers =>
      if w.closes = 0 then none
      else some { w with closes := w.closes - 1, queue := w.queue ++ [.destroyConnection] }
  | .functor =>
      match w.queue with
      | [] => none
      | f :: rest => { w with queue := rest }.enter (TcpConnection.functorFrames f)
  | .timer =>
      if w.timers = 0 then none
      else { w with timers := w.timers - 1 }.enter [.forceCloseInLoop]
  | .event error readable writable =>
      if w.conn.reports readable writable then
        w.enter (TcpConnection.eventFrames error readable writable)
      else none
  | .threadCall t op =>
      if t ≠ w.conn.tid ∧ w.threads t = .idle then some (w.threadCall t op) else none
  | .threadNext t => w.threadNext t

/-- The connection of loop thread `tid`, whatever callbacks the user sets. -/
def machine (tid : ThreadId) : Machine ConnWorld Label where
  init := fun w => ∃ cb low high, w = create (.create tid cb low high)
  step := step

end ConnWorld

end Windz
