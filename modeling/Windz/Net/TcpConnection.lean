import Windz.Net.Channel
import Windz.Net.EventLoop
import Windz.Net.ValidBuffer

/-!
# `TcpConnection`

One connection of `net/TcpConnection.cpp`, as the code of its loop thread. A
callback may call back into the connection from inside any of its functions, so
the state holds a stack of what the loop thread has still to do, innermost first;
a step takes the frame on top. A function is cut into frames where `state_`, which
other threads assign as well, is read again, where a system call answers, and where
a callback of the user runs.

What leaves the connection (a functor for the loop, a timer, the call of
`close_cb_`, which belongs to the owner) is returned beside the new state.

Ghosts: a byte in `output_buf_` carries the call of `Send` it came from; `accepted`
are the bytes the socket took; `calls`, `ran` and `returned` are the calls of `Send`
that found the connection connected, those whose `SendInLoop` has run, with whether
it went past the test of `state_`, and those that have returned; `trace` is what
was called, in order.
-/

namespace Windz

/-- `TcpConnection::State`. -/
inductive ConnState where
  | kConnecting
  | kConnected
  | kDisconnected
  | kDisconnecting
deriving DecidableEq

/-- A call of `Send` that found the connection connected. -/
structure SendCall where
  /-- Its number. -/
  id : Nat
  /-- The thread that calls. -/
  thread : ThreadId
  /-- The bytes to send. -/
  message : List UInt8
deriving DecidableEq

/-- A byte on its way out, with the number of the call it belongs to. -/
structure OutByte where
  /-- The number of the call. -/
  call : Nat
  /-- The byte. -/
  byte : UInt8
deriving DecidableEq, Inhabited

/-- The bytes of a call of `Send`, each with the number of the call. -/
def SendCall.bytes (call : SendCall) : List OutByte := call.message.map (OutByte.mk call.id)

/-- What the connection leaves to its loop to run. -/
inductive ConnFunctor where
  | sendInLoop (call : SendCall)
  | shutdownInLoop
  | forceCloseInLoop
  | lowWatermark
  | destroyConnection
deriving DecidableEq

/-- The calls that the loop thread is in, as far as they have got. -/
inductive Frame where
  -- a callback of the user runs
  | user
  | establishConnection
  -- `DestroyConnection`, and its rest behind `connection_cb_`
  | destroyConnection
  | destroyClose
  -- `SendInLoop`: before the test of `state_`, before the direct write, and before
  -- `output_buf_.Write`
  | sendInLoop (call : SendCall)
  | directWrite (call : SendCall)
  | bufferRest (call : SendCall) (remain : List OutByte)
  -- `Shutdown` behind its test of `state_`
  | shutdownAssign
  | shutdownInLoop
  -- `ForceClose` behind its test of `state_`
  | forceCloseAssign
  | forceCloseInLoop
  | handleError
  -- `HandleRead`, and before its read
  | handleRead
  | readSocket
  -- `HandleWrite`, before its write, and behind it when the output is drained
  | handleWrite
  | writeOutput
  | drainedShutdown
  | drainedClose
  | handleClose
deriving DecidableEq

/-- Who calls `connection_cb_`. -/
inductive ConnCaller where
  | establish
  | destroy
deriving DecidableEq

/-- What the trace of a connection is made of. -/
inductive ConnEvent where
  | establishConnection
  | destroyConnection
  -- `connection_cb_` is called, `connected()` being as given
  | connectionCb (caller : ConnCaller) (connected : Bool)
  | handleRead
  | messageCb
  | handleWrite
  | handleClose
  | closeCb
deriving DecidableEq

/-- The assertions that can stop the program. -/
inductive ConnAssert where
  | establishConnection
  | handleClose
  | channelClose
deriving DecidableEq

/-- What a step hands out. -/
inductive Outgoing where
  | queueInLoop (functor : ConnFunctor)
  | runAfter
  | closeCb
deriving DecidableEq

/-- What `write` answers. -/
inductive WriteResult where
  | wrote (n : Nat)
  | wouldBlock
  | interrupted
  | pipe
  | connReset
  | otherError
deriving DecidableEq

/-- What the `read` of `HandleRead` answers. -/
inductive ReadResult where
  | data
  | eof
  | error
deriving DecidableEq

/-- The functions of a connection that its user calls. -/
inductive UserCall where
  | send (message : List UInt8)
  | shutdown
  | forceClose
  | forceCloseAfter
deriving DecidableEq

/-- A step of the loop thread inside the connection. -/
inductive LocalLabel where
  -- user code calls the connection, or returns
  | call (op : UserCall)
  | callbackReturns
  | next
  | write (r : WriteResult)
  | read (r : ReadResult)
deriving DecidableEq

/-- A connection, its channel and socket, and the calls that the loop thread is in. -/
structure TcpConnection where
  /-- The thread of `loop_`. -/
  tid : ThreadId
  /-- `state_`. -/
  state : ConnState
  /-- `channel_`. -/
  channel : Channel
  /-- `connection_cb_` is set. -/
  hasConnectionCb : Bool
  /-- `low_watermark_cb_` is set. -/
  hasLowWatermarkCb : Bool
  /-- `high_watermark_cb_` is set. -/
  hasHighWatermarkCb : Bool
  /-- `high_watermark_`. -/
  highWatermark : Nat
  /-- `output_buf_`. -/
  outputBuf : ValidBuffer OutByte
  /-- What the loop thread has to do in the connection, innermost first. -/
  stack : List Frame
  /-- The socket is shut down for writing. -/
  shutWrite : Bool
  /-- An assertion has failed. -/
  failed : Option ConnAssert
  /-- Ghost: the bytes that the socket has accepted. -/
  accepted : List OutByte
  /-- Ghost: the calls of `Send`, in order. -/
  calls : List SendCall
  /-- Ghost: those whose `SendInLoop` ran, and whether it kept the message. -/
  ran : List (SendCall × Bool)
  /-- Ghost: those that have returned. -/
  returned : List SendCall
  /-- Ghost: what the connection has done. -/
  trace : List ConnEvent

namespace TcpConnection

/-- The first value of `high_watermark_`: 64 MiB. -/
def kHighWatermark : Nat := 64 * 1024 * 1024

/-- The constructor; the flags say which callbacks the user sets. -/
def create (tid : ThreadId) (hasConnectionCb hasLowWatermarkCb hasHighWatermarkCb : Bool) :
    TcpConnection :=
  { tid, state := .kConnecting, channel := .create, hasConnectionCb, hasLowWatermarkCb
    hasHighWatermarkCb, highWatermark := kHighWatermark, outputBuf := .create, stack := []
    shutWrite := false, failed := none, accepted := [], calls := [], ran := [], returned := []
    trace := [] }

/-- The loop thread is in user code: in no function of the connection, or in a callback. -/
def atUser (c : TcpConnection) : Bool :=
  match c.stack with
  | [] | .user :: _ => true
  | _ => false

/-- `state_ == kConnected || state_ == kDisconnecting`. -/
def isOpen (c : TcpConnection) : Bool := c.state = .kConnected ∨ c.state = .kDisconnecting

/-- The trace with `e` at its end. -/
def logged (c : TcpConnection) (e : ConnEvent) : List ConnEvent := c.trace ++ [e]

/-- The call of `Send` that thread `t` makes now. -/
def nextCall (c : TcpConnection) (t : ThreadId) (message : List UInt8) : SendCall :=
  ⟨c.calls.length, t, message⟩

/-! ## The public functions, called in the loop thread -/

/-- A call by the user in the loop thread. -/
def call (c : TcpConnection) (op : UserCall) : TcpConnection × Option Outgoing :=
  match op with
  | .send message =>
      if c.state = .kConnected then
        let call := c.nextCall c.tid message
        ({ c with calls := c.calls ++ [call], stack := .sendInLoop call :: c.stack }, none)
      else (c, none)
  | .shutdown =>
      if c.state = .kConnected then ({ c with stack := .shutdownAssign :: c.stack }, none)
      else (c, none)
  | .forceClose =>
      if c.isOpen then ({ c with stack := .forceCloseAssign :: c.stack }, none) else (c, none)
  | .forceCloseAfter => (c, some .runAfter)

/-! ## `SendInLoop` -/

/-- `SendInLoop` returns; a call made in the loop thread returns with it. -/
def finishSend (c : TcpConnection) (call : SendCall) (rest : List Frame) : TcpConnection :=
  { c with
    stack := rest
    returned := if call.thread = c.tid then c.returned ++ [call] else c.returned }

/-- The part behind the direct write, `remain` being what was not written. -/
def appendRemain (c : TcpConnection) (call : SendCall) (remain : List OutByte)
    (rest : List Frame) : TcpConnection :=
  if remain = [] then c.finishSend call rest
  else
    let oldlen := c.outputBuf.readableBytes
    if oldlen ≤ c.highWatermark ∧ c.highWatermark < oldlen + remain.length
        ∧ c.hasHighWatermarkCb then
      { c with stack := .user :: .bufferRest call remain :: rest }
    else { c with stack := .bufferRest call remain :: rest }

/-- The part up to the direct write. -/
def sendInLoop (c : TcpConnection) (call : SendCall) (rest : List Frame) : TcpConnection :=
  if c.state = .kDisconnected then
    { c with ran := c.ran ++ [(call, false)] }.finishSend call rest
  else
    let c := { c with ran := c.ran ++ [(call, true)] }
    if !c.channel.writeEnabled ∧ c.outputBuf.readableBytes = 0 then
      { c with stack := .directWrite call :: rest }
    else c.appendRemain call call.bytes rest

/-- The `write` of `SendInLoop`, when nothing is buffered; `rest` is below it. `errno` is tested
behind the log message, whose own write is taken not to fail with `EPIPE` or `ECONNRESET`. -/
def directWrite (c : TcpConnection) (call : SendCall) (r : WriteResult) (rest : List Frame) :
    Option (TcpConnection × Option Outgoing) :=
  match r with
  | .wrote n =>
      if n ≤ call.bytes.length ∧ !c.shutWrite then
        let low := if n = call.bytes.length ∧ c.hasLowWatermarkCb
          then some (.queueInLoop .lowWatermark) else none
        some ({ c with accepted := c.accepted ++ call.bytes.take n }.appendRemain call
          (call.bytes.drop n) rest, low)
      else none
  | .pipe | .connReset => some (c.finishSend call rest, none)
  | .wouldBlock | .interrupted | .otherError => some (c.appendRemain call call.bytes rest, none)

/-- `output_buf_.Write` and what follows. -/
def bufferRest (c : TcpConnection) (call : SendCall) (remain : List OutByte)
    (rest : List Frame) : TcpConnection :=
  let c := { c with outputBuf := c.outputBuf.write remain }
  let c := if c.channel.writeEnabled then c else { c with channel := c.channel.enableWrite }
  c.finishSend call rest

/-! ## The handlers -/

/-- `EstablishConnection` up to `connection_cb_`. -/
def establishConnection (c : TcpConnection) (rest : List Frame) : TcpConnection :=
  if c.state = .kConnecting then
    let c := { c with
      state := .kConnected
      channel := c.channel.enableRead
      trace := c.logged .establishConnection }
    if c.hasConnectionCb then
      { c with
        trace := c.logged (.connectionCb .establish (c.state = .kConnected))
        stack := .user :: rest }
    else { c with stack := rest }
  else { c with failed := some .establishConnection }

/-- `DestroyConnection` up to `channel_->Close()`. -/
def destroyConnection (c : TcpConnection) (rest : List Frame) : TcpConnection :=
  let c := { c with
    state := .kDisconnected
    channel := c.channel.disableReadWrite
    trace := c.logged .destroyConnection }
  if c.hasConnectionCb then
    { c with
      trace := c.logged (.connectionCb .destroy (c.state = .kConnected))
      stack := .user :: .destroyClose :: rest }
  else { c with stack := .destroyClose :: rest }

/-- `channel_->Close()` at the end of `DestroyConnection`. -/
def destroyClose (c : TcpConnection) (rest : List Frame) : TcpConnection :=
  if c.channel.events = 0 then { c with channel := c.channel.close, stack := rest }
  else { c with failed := some .channelClose }

/-- `HandleClose` up to `close_cb_`. -/
def handleClose (c : TcpConnection) (rest : List Frame) : TcpConnection × Option Outgoing :=
  if c.state = .kConnecting then ({ c with failed := some .handleClose }, none)
  else
    let c := { c with
      state := .kDisconnected
      channel := c.channel.disableRead
      trace := c.logged .handleClose }
    if c.channel.writeEnabled then ({ c with stack := rest }, none)
    else
      ({ c with
        channel := c.channel.disableWrite
        trace := c.logged .closeCb
        stack := rest }, some .closeCb)

/-- The `read` of `HandleRead`. -/
def readSocket (c : TcpConnection) (r : ReadResult) (rest : List Frame) : TcpConnection :=
  match r with
  | .data => { c with trace := c.logged .messageCb, stack := .user :: rest }
  | .eof => { c with stack := .handleClose :: rest }
  | .error => { c with stack := rest }

/-- The `write` of `HandleWrite`. -/
def writeOutput (c : TcpConnection) (r : WriteResult) (rest : List Frame) :
    Option (TcpConnection × Option Outgoing) :=
  match r with
  | .wrote n =>
      if h : n ≤ c.outputBuf.readableBytes ∧ !c.shutWrite then
        if 0 < n then
          let c := { c with
            accepted := c.accepted ++ c.outputBuf.contents.take n
            outputBuf := c.outputBuf.release n h.1 }
          if c.outputBuf.readableBytes = 0 then
            some ({ c with
              channel := c.channel.disableWrite
              stack := .drainedShutdown :: .drainedClose :: rest },
              if c.hasLowWatermarkCb then some (.queueInLoop .lowWatermark) else none)
          else some ({ c with stack := rest }, none)
        else some ({ c with stack := rest }, none)
      else none
  | .pipe | .connReset | .wouldBlock | .interrupted | .otherError =>
      some ({ c with stack := rest }, none)

/-! ## Steps -/

/-- The step of a frame that waits for no answer. -/
def next (c : TcpConnection) : Option (TcpConnection × Option Outgoing) :=
  match c.stack with
  | [] | .user :: _ | .directWrite _ :: _ | .readSocket :: _ | .writeOutput :: _ => none
  | .establishConnection :: rest => some (c.establishConnection rest, none)
  | .destroyConnection :: rest => some (c.destroyConnection rest, none)
  | .destroyClose :: rest => some (c.destroyClose rest, none)
  | .sendInLoop call :: rest => some (c.sendInLoop call rest, none)
  | .bufferRest call remain :: rest => some (c.bufferRest call remain rest, none)
  | .shutdownAssign :: rest =>
      some ({ c with state := .kDisconnecting, stack := .shutdownInLoop :: rest }, none)
  | .shutdownInLoop :: rest =>
      some (if c.channel.writeEnabled then { c with stack := rest }
        else { c with shutWrite := true, stack := rest }, none)
  | .forceCloseAssign :: rest =>
      some ({ c with state := .kDisconnected, stack := rest },
        some (.queueInLoop .forceCloseInLoop))
  | .forceCloseInLoop :: rest =>
      some ({ c with stack := if c.isOpen then .handleClose :: rest else rest }, none)
  | .handleError :: rest => some ({ c with stack := rest }, none)
  -- the handlers of a closed channel are empty
  | .handleRead :: rest =>
      some (if c.channel.handlers then
          { c with trace := c.logged .handleRead, stack := .readSocket :: rest }
        else { c with stack := rest }, none)
  | .handleWrite :: rest =>
      some (if c.channel.handlers then
          { c with
            trace := c.logged .handleWrite
            stack := if c.channel.writeEnabled then .writeOutput :: rest else rest }
        else { c with stack := rest }, none)
  | .drainedShutdown :: rest =>
      some ({ c with
        stack := if c.state = .kDisconnecting then .shutdownInLoop :: rest else rest }, none)
  | .drainedClose :: rest =>
      some ({ c with
        stack := if c.state = .kDisconnected then .handleClose :: rest else rest }, none)
  | .handleClose :: rest => some (c.handleClose rest)

/-- A step inside the connection. -/
def localStep (c : TcpConnection) (a : LocalLabel) : Option (TcpConnection × Option Outgoing) :=
  match a with
  | .call op => if c.atUser then some (c.call op) else none
  | .callbackReturns =>
      match c.stack with
      | .user :: rest => some ({ c with stack := rest }, none)
      | _ => none
  | .next => c.next
  | .write r =>
      match c.stack with
      | .directWrite call :: rest => c.directWrite call r rest
      | .writeOutput :: rest => c.writeOutput r rest
      | _ => none
  | .read r =>
      match c.stack with
      | .readSocket :: rest => some (c.readSocket r rest, none)
      | _ => none

/-- The loop thread comes into the connection. -/
def enter (c : TcpConnection) (frames : List Frame) : Option TcpConnection :=
  if c.stack = [] then some { c with stack := frames } else none

/-- What the loop runs for a functor. -/
def functorFrames : ConnFunctor → List Frame
  | .sendInLoop call => [.sendInLoop call]
  | .shutdownInLoop => [.shutdownInLoop]
  | .forceCloseInLoop => [.forceCloseInLoop]
  | .lowWatermark => [.user]
  | .destroyConnection => [.destroyConnection]

/-- What `Channel::HandleEvents` runs for the events reported. -/
def eventFrames (error readable writable : Bool) : List Frame :=
  (if error then [.handleError] else []) ++ (if readable then [.handleRead] else [])
    ++ if writable then [.handleWrite] else []

/-- `epoll` reports events of a registered channel, in and out only where it is interested. -/
def reports (c : TcpConnection) (readable writable : Bool) : Bool :=
  c.channel.registered ∧ (readable → c.channel.readEnabled) ∧ (writable → c.channel.writeEnabled)

end TcpConnection

end Windz
