import Mathlib.Logic.Function.Basic
import Windz.Net.TcpServer

/-!
# `TcpServer::Start`

How a server comes to serve: `Start` of `net/TcpServer.cpp`, called by any threads, and
the pool of `net/EventLoopThreadPool.cpp` that it makes, up to the call of `Next` for
each connection accepted. `started_` is a counter of 32 bits, and whoever finds 0 in it
starts the server. `thread_pool_` and `listenning_` are plain variables, which the main
loop reads when it accepts.

The main loop is that of thread 0. Each thread of the pool is an `EventLoopThread`; what
matters here is that its `Start` answers a loop of its own.
-/

namespace Windz

open Lib

/-- The assertions on the way, and a loop that is null where one is used. -/
inductive StartAssert where
  | listenning
  -- of the pool: `!started_` and the thread in `Start`, the thread and `started_` in `Next`
  | poolStarted
  | poolThread
  | nextThread
  | nextStarted
  | nullLoop
deriving DecidableEq

/-! ## `EventLoopThreadPool` -/

/-- A pool, its loops in the order of their threads. -/
structure EventLoopThreadPool where
  /-- `started_`. -/
  started : Bool
  /-- `next_`. -/
  next : Nat
  /-- The thread it was made in. -/
  tid : ThreadId
  /-- `loops_`. -/
  loops : List LoopId
deriving DecidableEq

namespace EventLoopThreadPool

/-- The constructor, in thread `tid`. -/
def create (tid : ThreadId) : EventLoopThreadPool :=
  { started := false, next := 0, tid, loops := [] }

/-- `Start` up to its loop. -/
def start (p : EventLoopThreadPool) (t : ThreadId) : Except StartAssert EventLoopThreadPool :=
  if p.started then .error .poolStarted
  else if p.tid ≠ t then .error .poolThread
  else .ok { p with started := true }

/-- One thread more, with its loop. -/
def addThread (p : EventLoopThreadPool) : EventLoopThreadPool :=
  { p with loops := p.loops ++ [p.loops.length + 1] }

/-- `Next`, `none` being the null pointer. -/
def nextLoop (p : EventLoopThreadPool) (t : ThreadId) :
    Except StartAssert (Option LoopId × EventLoopThreadPool) :=
  if p.tid ≠ t then .error .nextThread
  else if !p.started then .error .nextStarted
  else if p.loops.isEmpty then .ok (none, p)
  else .ok (p.loops[p.next]?,
    { p with next := if p.next + 1 ≥ p.loops.length then 0 else p.next + 1 })

end EventLoopThreadPool

/-! ## `Start` -/

/-- Where a thread stands in `Start`. -/
inductive StartPc where
  | idle
  /-- Before `started_.GetAndAdd(1)`. -/
  | adding (threadNum : Nat)
  -- having found 0: before the pool is made, and before its `Start`
  | making (threadNum : Nat)
  | starting (threadNum : Nat)
  /-- In the loop of that, with so many threads to go. -/
  | spawning (left : Nat)
  -- before the assertion, and before `RunInLoop`
  | asserting
  | running
deriving DecidableEq

/-- What `TcpServer::Start` is about, and the threads that call it. -/
structure ServerStart where
  /-- `started_`. -/
  started : Int32
  /-- `thread_pool_`. -/
  pool : Option EventLoopThreadPool
  /-- `listenning_` of the acceptor. -/
  listenning : Bool
  /-- The functors of `Listen` in the queue of the main loop. -/
  queue : Nat
  /-- Where each thread stands in `Start`. -/
  threads : ThreadId → StartPc
  /-- An assertion has failed. -/
  failed : Option StartAssert
  /-- Ghost: how often `GetAndAdd` was called. -/
  calls : Nat
  /-- Ghost: how often `Listen` was called. -/
  listens : Nat
  /-- Ghost: the call that last found 0. -/
  winner : Option (ThreadId × Nat)
  /-- Ghost: the loops that connections were given to. -/
  handed : List LoopId

namespace ServerStart

/-- The server has just been made. -/
def create : ServerStart :=
  { started := 0, pool := none, listenning := false, queue := 0, threads := fun _ => .idle
    failed := none, calls := 0, listens := 0, winner := none, handed := [] }

/-- Thread `t` goes on to `pc`. -/
def goto (s : ServerStart) (t : ThreadId) (pc : StartPc) : ServerStart :=
  { s with threads := Function.update s.threads t pc }

/-- `started_.GetAndAdd(1)` and the two tests behind it. -/
def getAndAdd (s : ServerStart) (t : ThreadId) (threadNum : Nat) : ServerStart :=
  let s' := { s with started := s.started + 1, calls := s.calls + 1 }
  if s.started = 0 then
    { s' with winner := some (t, threadNum) }.goto t
      (if threadNum > 0 then .making threadNum else .asserting)
  else s'.goto t .idle

/-- `acceptor_->Listen()`, in the main loop. -/
def listen (s : ServerStart) : ServerStart :=
  { s with listenning := true, listens := s.listens + 1 }

/-- Thread `t` goes on in `Start`. -/
def advance (s : ServerStart) (t : ThreadId) : Option ServerStart :=
  match s.threads t with
  | .idle => none
  | .adding threadNum => some (s.getAndAdd t threadNum)
  | .making threadNum => some ({ s with pool := some (.create t) }.goto t (.starting threadNum))
  | .starting threadNum =>
      s.pool.map fun p =>
        match p.start t with
        | .ok p => { s with pool := some p }.goto t (.spawning threadNum)
        | .error e => { s with failed := some e }
  | .spawning (left + 1) =>
      s.pool.map fun p => { s with pool := some p.addThread }.goto t (.spawning left)
  | .spawning 0 => some (s.goto t .asserting)
  | .asserting =>
      some (if s.listenning then { s with failed := some .listenning } else s.goto t .running)
  | .running =>
      some (if t = TcpServer.mainLoop then s.listen.goto t .idle
        else { s with queue := s.queue + 1 }.goto t .idle)

/-- `NewTcpConnection` up to the use of the loop. -/
def accept (s : ServerStart) : ServerStart :=
  match s.pool with
  | none => { s with handed := s.handed ++ [TcpServer.mainLoop] }
  | some p =>
      match p.nextLoop TcpServer.mainLoop with
      | .error e => { s with failed := some e }
      | .ok (none, _) => { s with failed := some .nullLoop }
      | .ok (some loop, p) => { s with pool := some p, handed := s.handed ++ [loop] }

/-- The steps of the threads in `Start` and of the main loop. -/
inductive Label where
  -- thread `t` calls `Start`, and goes on in it
  | start (t : ThreadId) (threadNum : Nat)
  | next (t : ThreadId)
  -- the main loop runs the functor of `Listen`, and accepts a connection
  | functor
  | accept
deriving DecidableEq

/-- One step, `none` where it is not enabled. -/
def step (s : ServerStart) (a : Label) : Option ServerStart :=
  -- a failed assertion ends the program
  if s.failed.isSome then none else
  match a with
  | .start t threadNum =>
      if s.threads t = .idle then some (s.goto t (.adding threadNum)) else none
  | .next t => s.advance t
  | .functor =>
      if s.queue ≠ 0 ∧ s.threads TcpServer.mainLoop = .idle then
        some { s with queue := s.queue - 1 }.listen
      else none
  | .accept =>
      if s.listenning ∧ s.threads TcpServer.mainLoop = .idle then some s.accept else none

/-- A server from its constructor on. -/
def machine : Machine ServerStart Label where
  init := (· = create)
  step := step

end ServerStart

end Windz
