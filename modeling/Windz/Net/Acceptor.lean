import Windz.Lib.Descriptors
import Windz.Lib.Machine

/-!
# `Acceptor`

`net/Acceptor.cpp` in its loop thread, one system call a step, with the descriptor table of
the process and the kernel's queue of connections not yet accepted. The rest of the process
opens descriptors, and closes its own and those it was handed, at any time; a system call
may also fail for a reason of its own, and what `errno` holds behind a log message is up to
the environment.

`idle_fd_` is a descriptor that is kept to be given up. When `accept4` finds the table full,
it is closed, so that the connection can be accepted and closed at once, and then opened
again.

Connections are numbered as they arrive. The ghosts are which of them were handed to
`conn_cb_` and with which descriptor, which were accepted and closed, and which the kernel
has dropped from its queue.
-/

namespace Windz

open Lib

/-- The values of `errno` that `HandleRead` tells apart. -/
inductive AcceptErrno where
  | EAGAIN
  | EMFILE
  | ENFILE
  | other
deriving DecidableEq

/-- What a descriptor of the process is used for. -/
inductive FdUse where
  | listener
  | idle
  /-- Accepted and still in the hands of the acceptor. -/
  | taken (conn : Nat)
  -- given to `conn_cb_`
  | handed (conn : Nat)
  | other
deriving DecidableEq

/-- Where the loop thread stands in the acceptor. -/
inductive AcceptorPc where
  | outside
  -- in `HandleRead`: before `accept4`, behind it with a valid socket, and in `conn_cb_`
  | accepting
  | accepted (fd conn : Nat)
  | inCallback
  /-- `accept4` has failed: before `errno` is looked at. -/
  | acceptFailed (errno : AcceptErrno)
  -- before `close(idle_fd_)`, the second `accept4`, the `Close` of what it gave, and `open`
  | relieving
  | acceptingAgain
  | acceptedAgain (socket : Option (Nat × Nat))
  | reopening
  -- in the destructor: before `socket_.Close()`, and before `close(idle_fd_)`
  | closingSocket
  | closingIdle
  | destroyed
deriving DecidableEq

/-- An acceptor, the descriptors of its process and the connections that arrive. -/
structure Acceptor where
  /-- `socket_`. -/
  socket : Nat
  /-- `idle_fd_`, with `none` for -1. -/
  idleFd : Option Nat
  /-- `listenning_`. -/
  listenning : Bool
  /-- `conn_cb_` is set. -/
  hasConnCb : Bool
  /-- Where the loop thread stands. -/
  pc : AcceptorPc
  /-- The descriptors of the process. -/
  table : Descriptors FdUse
  /-- The connections in the kernel's queue. -/
  backlog : List Nat
  /-- The number of the next connection. -/
  arrivals : Nat
  /-- A descriptor was closed that was not the acceptor's. -/
  fault : Bool
  /-- Ghost: the connections given to `conn_cb_`, with their descriptors. -/
  delivered : List (Nat × Nat)
  /-- Ghost: those accepted and closed. -/
  dropped : List Nat
  /-- Ghost: those the kernel gave up. -/
  aborted : List Nat
deriving DecidableEq

namespace Acceptor

/-- `accept4`: it looks for a free descriptor first, and then for a connection. -/
def accept4 (s : Acceptor) (fails : Option AcceptErrno) : Except AcceptErrno (Nat × Nat × Acceptor) :=
  match fails with
  | some e => .error e
  | none =>
      if s.table.full then .error .EMFILE
      else
        match s.backlog with
        | [] => .error .EAGAIN
        | conn :: rest =>
            match s.table.allocate (.taken conn) with
            | some (fd, table) => .ok (fd, conn, { s with table, backlog := rest })
            | none => .error .EMFILE

/-- `close(fd)` on a descriptor that should be in use as given; -1 is refused by the kernel. -/
def closeFd (s : Acceptor) (fd : Option Nat) (use : FdUse) : Acceptor :=
  match fd with
  | none => s
  | some fd =>
      if s.table[fd]? = some (some use) then { s with table := s.table.release fd }
      else { s with fault := true }

/-- `HandleRead` behind a valid socket. -/
def dispatch (s : Acceptor) (fd conn : Nat) : Acceptor :=
  if s.hasConnCb then
    { s with
      table := s.table.set fd (some (.handed conn))
      delivered := s.delivered ++ [(conn, fd)]
      pc := .inCallback }
  else
    { s.closeFd (some fd) (.taken conn) with
      dropped := s.dropped ++ [conn]
      pc := .outside }

/-- The close of what the second `accept4` gave. -/
def closeAgain (s : Acceptor) (socket : Option (Nat × Nat)) : Acceptor :=
  match socket with
  | some (fd, conn) =>
      { s.closeFd (some fd) (.taken conn) with
        dropped := s.dropped ++ [conn]
        pc := .reopening }
  | none => { s.closeFd none .other with pc := .reopening }

/-- `open("/dev/null", …)`. -/
def reopen (s : Acceptor) (fails : Bool) : Acceptor :=
  match if fails then none else s.table.allocate .idle with
  | some (fd, table) => { s with table, idleFd := some fd, pc := .outside }
  | none => { s with idleFd := none, pc := .outside }

/-- The step that waits for no answer. -/
def next (s : Acceptor) : Option Acceptor :=
  match s.pc with
  | .accepted fd conn => some (s.dispatch fd conn)
  | .relieving => some { s.closeFd s.idleFd .idle with pc := .acceptingAgain }
  | .acceptedAgain socket => some (s.closeAgain socket)
  | .closingSocket => some { s.closeFd (some s.socket) .listener with pc := .closingIdle }
  | .closingIdle => some { s.closeFd s.idleFd .idle with pc := .destroyed }
  | .outside | .accepting | .inCallback | .acceptFailed _ | .acceptingAgain | .reopening
  | .destroyed => none

/-- The steps of the acceptor and of all that is around it. -/
inductive Label where
  | setConnectionCallBack
  | listen
  /-- `epoll` reports the socket. -/
  | handleRead
  -- `accept4`, and `open`, with the errors of their own
  | accept (fails : Option AcceptErrno)
  | open (fails : Bool)
  -- what `errno` is behind the log messages
  | errno (e : AcceptErrno)
  | next
  | callbackReturns
  | destroy
  -- around the acceptor
  | arrive
  | abort (conn : Nat)
  | otherOpens
  | otherCloses (fd : Nat)
deriving DecidableEq

/-- One step, `none` where it is not enabled. -/
def step (s : Acceptor) (a : Label) : Option Acceptor :=
  if s.fault then none else
  match a with
  | .setConnectionCallBack => if s.pc = .outside then some { s with hasConnCb := true } else none
  | .listen => if s.pc = .outside then some { s with listenning := true } else none
  | .handleRead => if s.pc = .outside ∧ s.listenning then some { s with pc := .accepting } else none
  | .accept fails =>
      match s.pc, s.accept4 fails with
      | .accepting, .ok (fd, conn, s) => some { s with pc := .accepted fd conn }
      | .accepting, .error e => some { s with pc := .acceptFailed e }
      | .acceptingAgain, .ok (fd, conn, s) => some { s with pc := .acceptedAgain (some (fd, conn)) }
      | .acceptingAgain, .error _ => some { s with pc := .acceptedAgain none }
      | _, _ => none
  | .errno e =>
      match s.pc with
      | .acceptFailed _ =>
          some { s with pc := if e = .EMFILE ∨ e = .ENFILE then .relieving else .outside }
      | _ => none
  | .open fails => if s.pc = .reopening then some (s.reopen fails) else none
  | .next => s.next
  | .callbackReturns => if s.pc = .inCallback then some { s with pc := .outside } else none
  | .destroy => if s.pc = .outside then some { s with pc := .closingSocket } else none
  | .arrive =>
      if s.listenning then
        some { s with backlog := s.backlog ++ [s.arrivals], arrivals := s.arrivals + 1 }
      else none
  | .abort conn =>
      if conn ∈ s.backlog then
        some { s with backlog := s.backlog.erase conn, aborted := s.aborted ++ [conn] }
      else none
  | .otherOpens =>
      (s.table.allocate .other).map fun (_, table) => { s with table }
  | .otherCloses fd =>
      match s.table[fd]? with
      | some (some (.handed _)) | some (some .other) => some { s with table := s.table.release fd }
      | _ => none

/-- Behind the constructor: the socket and `idle_fd_` are open, and nothing else is its own. -/
structure Created (s : Acceptor) : Prop where
  socket : s.table[s.socket]? = some (some .listener)
  idle : ∃ fd, s.idleFd = some fd ∧ s.table[fd]? = some (some .idle)
  rest : ∀ (fd : Nat) (use : FdUse), s.table[fd]? = some (some use) →
    fd = s.socket ∨ s.idleFd = some fd ∨ use = .other
  quiet : s.listenning = false ∧ s.pc = .outside ∧ s.backlog = [] ∧ s.arrivals = 0
    ∧ s.fault = false ∧ s.delivered = [] ∧ s.dropped = [] ∧ s.aborted = []

/-- An acceptor from its constructor on. -/
def machine : Machine Acceptor Label where
  init := Created
  step := step

end Acceptor

end Windz
