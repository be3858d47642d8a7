import Windz.Base.Timestamp
import Windz.Lib.Machine
import Windz.Net.Channel

/-!
# `Connector`

A connector of `net/Connector.cpp` and the loop it lives in. As in `TcpConnection`,
the state holds a stack of what the loop thread has still to do in it; a function is
cut where `start_`, which other threads assign as well, is read again, and where the
system answers. What leaves it, the functor of `ResetChannel`, a timer, or the call of
`conn_cb_`, is returned beside the new state.

The loop goes round as `Loop` does: handlers, then the timers that `HandleExpired`
finds expired by the clock it reads once, then as many functors as `Size()` gave when
`CallPendingFunctors` began. Which expired timer comes first is left open. Time passes
at any point. The owner's code runs whenever the loop thread is out of the connector.

Ghosts: `trace` is what became of the sockets, in order; `opened` are the calls of
`conn_cb_` whose connection has not closed.
-/

namespace Windz

open Lib

/-- `Connector::State`. -/
inductive ConnectorState where
  | kDisconnected
  | kConnecting
  | kConnected
deriving DecidableEq

/-- `errno` after `connect`. -/
inductive Errno where
  | EINPROGRESS
  | EINTR
  | EISCONN
  | EADDRINUSE
  | EADDRNOTAVAIL
  | EAGAIN
  | ECONNREFUSED
  | ENETUNREACH
  | ETIMEDOUT
  | EACCES
  | EPERM
  | EAFNOSUPPORT
  | EALREADY
  | EBADF
  | EFAULT
  | ENOTSOCK
  | EPROTOTYPE
  | other
deriving DecidableEq

/-- What `Connect` does next with its socket. -/
inductive ConnectCase where
  | connecting
  | retry
  | close
deriving DecidableEq

/-- The `switch` of `Connect`, `none` being success. -/
def connectCase : Option Errno → ConnectCase
  | none | some .EINPROGRESS | some .EINTR | some .EISCONN => .connecting
  | some .EADDRINUSE | some .EADDRNOTAVAIL | some .EAGAIN | some .ECONNREFUSED
  | some .ENETUNREACH | some .ETIMEDOUT => .retry
  | some .EACCES | some .EPERM | some .EAFNOSUPPORT | some .EALREADY | some .EBADF
  | some .EFAULT | some .ENOTSOCK | some .EPROTOTYPE | some .other => .close

/-- A socket, as its number in the order of creation. -/
abbrev Socket := Nat

/-- What `HandleWrite` finds out about its socket. -/
inductive SocketStatus where
  | error
  | selfConnect
  | good
deriving DecidableEq

/-- `channel_`, with its descriptor. -/
structure ConnectorChannel where
  /-- `fd_`, the socket. -/
  fd : Socket
  /-- The channel. -/
  channel : Channel
deriving DecidableEq

/-- What `ResetChannel` does to the channel. -/
def ConnectorChannel.reset (ch : ConnectorChannel) : ConnectorChannel :=
  { ch with channel := ch.channel.disableReadWrite.close }

/-- The calls that the loop thread is in, as far as they have got. -/
inductive ConnectorFrame where
  -- the functors of `Start` and `Stop`, and the one `Retry` gives to a timer
  | start
  | stop
  | retryTimer
  /-- `Restart` before its test of `start_`. -/
  | restartTest
  /-- `Connect` before the answer of `connect`. -/
  | connect
  /-- `Retry` before its test of `start_`. -/
  | retryTest
  -- `HandleWrite`, and behind `state_ = kConnected`
  | handleWrite
  | connected (socket : Socket)
  | handleError
deriving DecidableEq

/-- The functors that the connector queues. -/
inductive ConnectorFunctor where
  | start
  | stop
  | resetChannel
deriving DecidableEq

/-- What can end the program: an assertion, or a null `channel_`. -/
inductive ConnectorAssert where
  | start
  | connecting
  | retryTimer
  | nullChannel
deriving DecidableEq

/-- What a step hands out. -/
inductive ConnectorOutgoing where
  | queueResetChannel
  | runAfter (delay : Duration)
  | connCb
deriving DecidableEq

/-- What the trace of a connector is made of. -/
inductive ConnectorEvent where
  -- `Connect` makes a socket
  | socket (socket : Socket)
  | connecting (socket : Socket)
  | retry (socket : Socket)
  | close (socket : Socket)
  -- `state_ = kConnected`
  | connected (socket : Socket)
  | connCb (socket : Socket)
  | restart
deriving DecidableEq

/-- A connector, with the calls that the loop thread is in. -/
structure Connector where
  /-- `start_`. -/
  start : Bool
  /-- `state_`. -/
  state : ConnectorState
  /-- `channel_`. -/
  channel : Option ConnectorChannel
  /-- `retry_duration_`. -/
  retryDuration : Duration
  /-- What the loop thread has to do in the connector, innermost first. -/
  stack : List ConnectorFrame
  /-- The sockets made so far. -/
  sockets : Nat
  /-- An assertion has failed. -/
  failed : Option ConnectorAssert
  /-- Ghost: what was done with the sockets. -/
  trace : List ConnectorEvent

namespace Connector

/-- `kMaxRetryDuration`: 30 s. -/
def kMaxRetryDuration : Duration := ⟨30000000000⟩

/-- `kInitRetryDuration`: 100 ms. -/
def kInitRetryDuration : Duration := ⟨100000000⟩

/-- The constructor. -/
def create : Connector :=
  { start := false, state := .kDisconnected, channel := none, retryDuration := kInitRetryDuration
    stack := [], sockets := 0, failed := none, trace := [] }

/-- `retry_duration_` after `Retry`. -/
def nextDuration (d : Duration) : Duration :=
  if kMaxRetryDuration < d.mul 2 then kMaxRetryDuration else d.mul 2

/-- The handlers of the channel in hand are set. -/
def handlersSet (c : Connector) : Bool := c.channel.any (·.channel.handlers)

/-- The trace with `es` at its end. -/
def logged (c : Connector) (es : List ConnectorEvent) : List ConnectorEvent := c.trace ++ es

/-- `ResetChannel` without its functor; what is left of the channel, and its socket. -/
def resetChannel (c : Connector) : Option (ConnectorChannel × Socket) :=
  c.channel.map fun ch => (ch.reset, ch.fd)

/-- `Connecting`. -/
def connecting (c : Connector) (socket : Socket) (rest : List ConnectorFrame) : Connector :=
  let c := { c with state := .kConnecting }
  match c.channel with
  | some _ => { c with failed := some .connecting }
  | none =>
      { c with
        channel := some ⟨socket, Channel.create.enableWrite⟩
        trace := c.logged [.connecting socket]
        stack := rest }

/-- `Retry` up to its test of `start_`. -/
def retry (c : Connector) (socket : Socket) (rest : List ConnectorFrame) : Connector :=
  { c with
    state := .kDisconnected
    trace := c.logged [.retry socket, .close socket]
    stack := .retryTest :: rest }

/-- `Connect`, with the answer of `connect`. -/
def connect (c : Connector) (errno : Option Errno) (rest : List ConnectorFrame) : Connector :=
  let socket := c.sockets
  let c := { c with sockets := c.sockets + 1, trace := c.logged [.socket socket] }
  match connectCase errno with
  | .connecting => c.connecting socket rest
  | .retry => c.retry socket rest
  | .close => { c with trace := c.logged [.close socket], stack := rest }

/-- `HandleWrite`, with what it finds out about the socket. -/
def handleWrite (c : Connector) (status : SocketStatus) (rest : List ConnectorFrame) :
    Connector × Option ConnectorOutgoing :=
  match c.resetChannel with
  | none => ({ c with failed := some .nullChannel }, none)
  | some (channel, socket) =>
      let c := { c with channel := some channel }
      match status with
      | .error | .selfConnect => (c.retry socket rest, some .queueResetChannel)
      | .good =>
          ({ c with
            state := .kConnected
            trace := c.logged [.connected socket]
            stack := .connected socket :: rest }, some .queueResetChannel)

/-- `HandleError`. -/
def handleError (c : Connector) (rest : List ConnectorFrame) :
    Connector × Option ConnectorOutgoing :=
  if c.state = .kConnecting then
    match c.resetChannel with
    | none => ({ c with failed := some .nullChannel }, none)
    | some (channel, socket) =>
        ({ c with channel := some channel }.retry socket rest, some .queueResetChannel)
  else ({ c with stack := rest }, none)

/-- The functor of `Stop`. -/
def stopInLoop (c : Connector) (rest : List ConnectorFrame) :
    Connector × Option ConnectorOutgoing :=
  if c.state = .kConnecting then
    let c := { c with state := .kDisconnected }
    match c.resetChannel with
    | none => ({ c with failed := some .nullChannel }, none)
    | some (channel, socket) =>
        ({ c with
          channel := some channel
          trace := c.logged [.close socket]
          stack := rest }, some .queueResetChannel)
  else ({ c with stack := rest }, none)

/-- `if (start_) Connect();`. -/
def testStart (c : Connector) (rest : List ConnectorFrame) : Connector :=
  { c with stack := if c.start then .connect :: rest else rest }

/-- `Restart` up to its test of `start_`. -/
def restart (c : Connector) : Connector :=
  { c with
    state := .kDisconnected
    retryDuration := kInitRetryDuration
    start := true
    trace := c.logged [.restart] }

/-- The step of a frame that waits for no answer. -/
def next (c : Connector) : Option (Connector × Option ConnectorOutgoing) :=
  match c.stack with
  | [] | .connect :: _ => none
  | .start :: rest =>
      some (if c.state = .kDisconnected then c.testStart rest else { c with failed := some .start },
        none)
  | .stop :: rest => some (c.stopInLoop rest)
  | .retryTimer :: rest =>
      some (if c.state = .kDisconnected then c.testStart rest
        else { c with failed := some .retryTimer }, none)
  | .restartTest :: rest => some (c.testStart rest, none)
  | .retryTest :: rest =>
      some (if c.start then
          ({ c with retryDuration := nextDuration c.retryDuration, stack := rest },
            some (.runAfter c.retryDuration))
        else ({ c with stack := rest }, none))
  | .connected socket :: rest =>
      some (if c.start then
          ({ c with trace := c.logged [.connCb socket], stack := rest }, some .connCb)
        else ({ c with trace := c.logged [.close socket], stack := rest }, none))
  -- the handlers of a closed channel are empty
  | .handleError :: rest =>
      some (if c.handlersSet then c.handleError rest else ({ c with stack := rest }, none))
  | .handleWrite :: rest =>
      if c.handlersSet then none else some ({ c with stack := rest }, none)

/-- A step of the loop thread inside the connector. -/
inductive Label where
  | next
  -- the answers of `connect`, and about the socket in `HandleWrite`
  | connect (errno : Option Errno)
  | socket (status : SocketStatus)
deriving DecidableEq

/-- The connector after a step of the loop thread inside it, and what the step hands out. -/
def step (c : Connector) (a : Label) : Option (Connector × Option ConnectorOutgoing) :=
  match a with
  | .next => c.next
  | .connect errno =>
      match c.stack with
      | .connect :: rest => some (c.connect errno rest, none)
      | _ => none
  | .socket status =>
      match c.stack with
      | .handleWrite :: rest => if c.handlersSet then some (c.handleWrite status rest) else none
      | _ => none

/-- The loop thread comes into the connector. -/
def enter (c : Connector) (frames : List ConnectorFrame) : Option Connector :=
  if c.stack = [] then some { c with stack := frames } else none

/-- What the loop runs for a functor. -/
def runFunctor (c : Connector) : ConnectorFunctor → Option Connector
  | .start => c.enter [.start]
  | .stop => c.enter [.stop]
  -- the functor of `ResetChannel`
  | .resetChannel => { c with channel := none }.enter []

/-- What `Channel::HandleEvents` runs for the events reported. -/
def eventFrames (error writable : Bool) : List ConnectorFrame :=
  (if error then [.handleError] else []) ++ if writable then [.handleWrite] else []

/-- `epoll` reports events of the registered channel. -/
def reports (c : Connector) (writable : Bool) : Bool :=
  c.channel.any fun ch => ch.channel.registered && (!writable || ch.channel.writeEnabled)

end Connector

/-- Where `Loop` stands. -/
inductive LoopPhase where
  /-- Among the handlers of the active channels, or before `Loop`. -/
  | handling
  /-- In `HandleExpired`, which has read the clock. -/
  | expiring (now : Timestamp)
  /-- In `CallPendingFunctors`, with `left` functors to call. -/
  | calling (left : Nat)
deriving DecidableEq

/-- A connector and the loop it is in. -/
structure ConnectorLoop where
  /-- The connector. -/
  connector : Connector
  /-- Where the loop stands. -/
  phase : LoopPhase
  /-- The clock. -/
  now : Timestamp
  /-- The connector's functors in the queue of the loop. -/
  queue : List ConnectorFunctor
  /-- When its timers are due. -/
  timers : List Timestamp
  /-- Ghost: the calls of `conn_cb_` whose connection has not closed. -/
  opened : Nat

namespace ConnectorLoop

/-- A new connector, the clock reading `now`. -/
def create (now : Timestamp) : ConnectorLoop :=
  { connector := .create, phase := .handling, now, queue := [], timers := [], opened := 0 }

/-- What a step hands out comes into the queue, to the timers or to the owner. -/
def emit (l : ConnectorLoop) : Option ConnectorOutgoing → ConnectorLoop
  | none => l
  | some .queueResetChannel => { l with queue := l.queue ++ [.resetChannel] }
  | some (.runAfter delay) => { l with timers := l.timers ++ [l.now.add delay] }
  | some .connCb => { l with opened := l.opened + 1 }

/-- The loop thread comes into the connector. -/
def enter (l : ConnectorLoop) (frames : List ConnectorFrame) : Option ConnectorLoop :=
  (l.connector.enter frames).map fun connector => { l with connector }

/-- `Loop` goes on. -/
def loopStep (l : ConnectorLoop) : Option ConnectorLoop :=
  match l.phase with
  | .handling => some { l with phase := .expiring l.now }
  | .expiring _ => some { l with phase := .calling l.queue.length }
  | .calling 0 => some { l with phase := .handling }
  | .calling (left + 1) =>
      match l.queue with
      | [] => none
      | f :: rest =>
          (l.connector.runFunctor f).map fun connector =>
            { l with connector, queue := rest, phase := .calling left }

/-- The steps of the owner, of the loop and of the connector. -/
inductive Label where
  -- the owner in the loop thread: `Start`, `Stop`; a connection of his closes, and he may `Restart`
  | start
  | stop
  | closed (restart : Bool)
  -- another thread in `Start` or `Stop`: the assignment to `start_`, the functor
  | threadAssign (start : Bool)
  | threadQueue (start : Bool)
  /-- The loop thread inside the connector. -/
  | run (a : Connector.Label)
  /-- Time passes. -/
  | clock (now : Timestamp)
  -- the loop goes on, a timer fires, `epoll` reports events
  | next
  | timer (k : Nat)
  | event (error writable : Bool)
deriving DecidableEq

/-- One step, `none` where it is not enabled. -/
def step (l : ConnectorLoop) (a : Label) : Option ConnectorLoop :=
  if l.connector.failed.isSome then none else
  match a with
  | .start => { l with connector := { l.connector with start := true } }.enter [.start]
  | .stop => { l with connector := { l.connector with start := false } }.enter [.stop]
  | .closed restart =>
      if l.opened = 0 then none
      else
        let l := { l with opened := l.opened - 1 }
        if restart then { l with connector := l.connector.restart }.enter [.restartTest] else some l
  | .threadAssign start => some { l with connector := { l.connector with start } }
  | .threadQueue start =>
      some { l with queue := l.queue ++ [if start then .start else .stop] }
  | .run a => (l.connector.step a).map fun (connector, out) => { l with connector }.emit out
  | .clock now => if l.now ≤ now then some { l with now } else none
  | .next => if l.connector.stack = [] then l.loopStep else none
  | .timer k =>
      match l.phase, l.timers[k]? with
      | .expiring now, some when =>
          if when ≤ now then { l with timers := l.timers.eraseIdx k }.enter [.retryTimer] else none
      | _, _ => none
  | .event error writable =>
      if l.phase = .handling ∧ l.connector.reports writable then
        l.enter (Connector.eventFrames error writable)
      else none

/-- A connector from its constructor on. -/
def machine : Machine ConnectorLoop Label where
  init := fun l => ∃ now, l = create now
  step := step

end ConnectorLoop

end Windz
