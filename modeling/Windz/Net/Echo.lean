import Windz.Net.ConnWorld

/-!
# The echo servers

A connection of `example/echo/echo.cpp` or of the server in `example/daemon/daemon.cpp`: a
`ConnWorld` whose only user code that calls the connection is the `message_cb_` of the
program. Here the bytes that `HandleRead` reads are given, and go to `input_buf_`.

Ghost: `received`, all bytes read from the socket.
-/

namespace Windz

open Lib

/-- The two echo servers, by what their `message_cb_` does. -/
inductive EchoProgram where
  /-- `msg = buffer.ReadAll()`, then `conn->Send(msg)`. -/
  | echo
  /-- `conn->Send(buf)`, which sends what is readable and then releases it. -/
  | daemon
deriving DecidableEq

/-- Where the loop thread stands in `message_cb_`. -/
inductive EchoPc where
  | outside
  | called
  /-- Behind `ReadAll`. -/
  | held (msg : List UInt8)
  /-- In `Send(Buffer &)`, behind the call of `Send` for what is readable. -/
  | sending
deriving DecidableEq

/-- In `message_cb_` the loop thread is in the program; no other thread calls the connection, and
the other callbacks do not. -/
def EchoPc.allows : EchoPc → ConnWorld.Label → Bool
  | _, .run (.call _) | _, .run (.read .data) | _, .threadCall _ _ | _, .threadNext _ => false
  | .outside, _ => true
  | .sending, .run .callbackReturns => false
  | .sending, _ => true
  | .called, .run _ | .held _, .run _ => false
  | .called, _ | .held _, _ => true

/-- An echo server and one of its connections. -/
structure EchoWorld where
  /-- Which of the two it is. -/
  program : EchoProgram
  /-- The connection, and what is around it. -/
  world : ConnWorld
  /-- Its `input_buf_`. -/
  inputBuf : ValidBuffer UInt8
  /-- Where the loop thread stands in `message_cb_`. -/
  pc : EchoPc
  /-- Ghost: the bytes that `HandleRead` has read. -/
  received : List UInt8

namespace EchoWorld

/-- The connection makes a step. -/
def stepWorld (e : EchoWorld) (a : ConnWorld.Label) (next : ConnWorld → EchoWorld) :
    Option EchoWorld :=
  (e.world.step a).map next

/-- The next thing that `message_cb_` does. -/
def messageCb (e : EchoWorld) : Option EchoWorld :=
  match e.program, e.pc with
  | .echo, .called =>
      let (msg, inputBuf) := e.inputBuf.readAll
      some { e with inputBuf, pc := .held msg }
  | .echo, .held msg =>
      e.stepWorld (.run (.call (.send msg))) fun world => { e with world, pc := .outside }
  | .daemon, .called =>
      e.stepWorld (.run (.call (.send e.inputBuf.contents))) fun world =>
        { e with world, pc := .sending }
  | .daemon, .sending =>
      match e.world.conn.stack with
      | .user :: _ => some { e with inputBuf := e.inputBuf.releaseAll, pc := .outside }
      | _ => none
  | _, _ => none

/-- The steps of the connection and of `message_cb_`. -/
inductive Label where
  | world (a : ConnWorld.Label)
  -- `HandleRead` reads these bytes and calls `message_cb_`
  | read (data : List UInt8)
  | messageCb
deriving DecidableEq

/-- One step, `none` where it is not enabled. -/
def step (e : EchoWorld) (a : Label) : Option EchoWorld :=
  match a with
  | .world a =>
      if e.pc.allows a then e.stepWorld a fun world => { e with world } else none
  | .read data =>
      if h : data ≠ [] ∧ data.length ≤ e.inputBuf.buffer.writableBytes + Buffer.extraBufSize then
        e.stepWorld (.run (.read .data)) fun world =>
          { e with
            world
            inputBuf := e.inputBuf.readSocket data h.2
            received := e.received ++ data
            pc := .called }
      else none
  | .messageCb => e.messageCb

/-- A connection of loop thread `tid`; neither program sets a watermark callback. -/
def create (program : EchoProgram) (tid : ThreadId) (hasConnectionCb : Bool) : EchoWorld :=
  { program, world := .create (.create tid hasConnectionCb false false), inputBuf := .create
    pc := .outside, received := [] }

/-- An echo server, its connection being in the loop of thread `tid`. -/
def machine (program : EchoProgram) (tid : ThreadId) : Machine EchoWorld Label where
  init := fun e => ∃ cb, e = create program tid cb
  step := step

end EchoWorld

end Windz
