import Mathlib.Data.Finset.Erase
import Mathlib.Data.Finset.Insert
import Mathlib.Logic.Function.Basic
import Windz.Lib.Machine
import Windz.Net.Channel

/-!
# Channels at an `EventLoop`

The channels of a loop, its set `channels_`, and the kernel's `epoll` set behind
`Epoller`, all in the loop thread. An `Enable` or `Disable` changes the mask of its
channel and then calls `Update`, which adds the channel when it is not in `channels_`
and modifies it when it is. `LoopOnce` turns what is ready into active channels, and
`HandleEvents` takes one step for each test of a handler and one for its return; user
code runs in handlers and between two iterations.

The channels are the elements of an arbitrary type. The kernel knows a channel by its
descriptor; it keeps the pointer that was registered with it.
-/

namespace Windz

open Lib

/-- `EPOLLPRI`. -/
def EPOLLPRI : BitVec 32 := 0x002

/-- `EPOLLERR`. -/
def EPOLLERR : BitVec 32 := 0x008

/-- `EPOLLHUP`. -/
def EPOLLHUP : BitVec 32 := 0x010

/-- `EPOLLRDHUP`. -/
def EPOLLRDHUP : BitVec 32 := 0x2000

/-- The handlers of a channel, in the order of `HandleEvents`. -/
inductive HandlerKind where
  | error
  | read
  | write
deriving DecidableEq

/-- The events a handler is called for. -/
def HandlerKind.wants : HandlerKind → BitVec 32
  | .error => EPOLLERR
  | .read => EPOLLIN ||| EPOLLPRI ||| EPOLLRDHUP
  | .write => EPOLLOUT

/-- `Channel` as its loop sees it. -/
structure LoopChannel where
  /-- `events_`. -/
  events : BitVec 32
  /-- `revents_`. -/
  revents : BitVec 32
  /-- The handlers that are set. -/
  handlers : HandlerKind → Bool
  /-- `tied_`. -/
  tied : Bool
  /-- Ghost: the last call of an `Enable`, a `Disable` or `Close` was `DisableReadWrite`. -/
  disabled : Bool

/-- `Channel(loop, fd)`. -/
def LoopChannel.create : LoopChannel := ⟨0, 0, fun _ => false, false, false⟩

/-- An `epoll_ctl`. -/
inductive EpollCtl where
  | add
  | mod
  | del
deriving DecidableEq

/-- Where the loop thread stands. -/
inductive DispatchPc (ι : Type) where
  /-- Not in a `HandleEvents`. -/
  | idle
  /-- Before the next of the active channels left. -/
  | dispatching (active : List ι)
  -- in `HandleEvents` of `c`, before the test for a handler, and in the handler
  | testing (c : ι) (kind : HandlerKind) (active : List ι)
  | inHandler (c : ι) (kind : HandlerKind) (active : List ι)
deriving DecidableEq

/-- Where `HandleEvents` goes on behind a handler. -/
def DispatchPc.behind {ι : Type} (c : ι) (kind : HandlerKind) (active : List ι) : DispatchPc ι :=
  match kind with
  | .error => .testing c .read active
  | .read => .testing c .write active
  | .write => .dispatching active

/-- A loop, the channels of the program and what the kernel has of them. -/
structure ChannelLoop (ι : Type) where
  /-- The channels of the program. -/
  chan : ι → LoopChannel
  /-- `channels_`. -/
  channels : Finset ι
  /-- The kernel: for a descriptor the pointer and the mask it was registered with. -/
  epoll : Int → Option (ι × BitVec 32)
  /-- Where the loop stands. -/
  pc : DispatchPc ι
  /-- An assertion has failed. -/
  failed : Bool
  /-- Ghost: the calls of `epoll_ctl`, and whether they succeeded. -/
  ctls : List (EpollCtl × Int × Bool)
  /-- Ghost: the handlers started. -/
  started : List (ι × HandlerKind)

namespace ChannelLoop

variable {ι : Type}

/-- A loop without channels. -/
def create (ι : Type) : ChannelLoop ι :=
  { chan := fun _ => .create, channels := ∅, epoll := fun _ => none, pc := .idle, failed := false
    ctls := [], started := [] }

variable [DecidableEq ι] (fd : ι → Int)

/-- Channel `c` is changed by `f`. -/
def modify (s : ChannelLoop ι) (c : ι) (f : LoopChannel → LoopChannel) : ChannelLoop ι :=
  { s with chan := Function.update s.chan c (f (s.chan c)) }

/-- `epoll_ctl` for a channel: `ADD` fails on a registered descriptor, the others on one that is
not. -/
def epollCtl (s : ChannelLoop ι) (ctl : EpollCtl) (c : ι) : ChannelLoop ι :=
  let entry := some (c, (s.chan c).events)
  match ctl, s.epoll (fd c) with
  | .add, none | .mod, some _ =>
      { s with
        epoll := Function.update s.epoll (fd c) entry
        ctls := s.ctls ++ [(ctl, fd c, true)] }
  | .del, some _ =>
      { s with
        epoll := Function.update s.epoll (fd c) none
        ctls := s.ctls ++ [(ctl, fd c, true)] }
  | .add, some _ | .mod, none | .del, none => { s with ctls := s.ctls ++ [(ctl, fd c, false)] }

/-! ## `EventLoop` -/

/-- `AddChannel`. -/
def addChannel (s : ChannelLoop ι) (c : ι) : ChannelLoop ι :=
  epollCtl fd { s with channels := insert c s.channels } .add c

/-- `HasChannel`. -/
def hasChannel (s : ChannelLoop ι) (c : ι) : Bool := c ∈ s.channels

/-- `UpdateChannel`, which adds a channel that is not there. -/
def updateChannel (s : ChannelLoop ι) (c : ι) : ChannelLoop ι :=
  if s.hasChannel c then epollCtl fd s .mod c else addChannel fd s c

/-- `RemoveChannel`. -/
def removeChannel (s : ChannelLoop ι) (c : ι) : ChannelLoop ι :=
  epollCtl fd { s with channels := s.channels.erase c } .del c

/-! ## `Channel` -/

/-- Set `events_` and call `Update`; `disabled` is the ghost. -/
def setEvents (s : ChannelLoop ι) (c : ι) (events : BitVec 32) (disabled : Bool) : ChannelLoop ι :=
  updateChannel fd (s.modify c fun ch => { ch with events, disabled }) c

/-- `EnableRead`. -/
def enableRead (s : ChannelLoop ι) (c : ι) : ChannelLoop ι :=
  setEvents fd s c ((s.chan c).events ||| EPOLLIN) false

/-- `DisableRead`. -/
def disableRead (s : ChannelLoop ι) (c : ι) : ChannelLoop ι :=
  setEvents fd s c ((s.chan c).events &&& ~~~EPOLLIN) false

/-- `EnableWrite`. -/
def enableWrite (s : ChannelLoop ι) (c : ι) : ChannelLoop ι :=
  setEvents fd s c ((s.chan c).events ||| EPOLLOUT) false

/-- `DisableWrite`. -/
def disableWrite (s : ChannelLoop ι) (c : ι) : ChannelLoop ι :=
  setEvents fd s c ((s.chan c).events &&& ~~~EPOLLOUT) false

/-- `EnableReadWrite`. -/
def enableReadWrite (s : ChannelLoop ι) (c : ι) : ChannelLoop ι :=
  setEvents fd s c ((s.chan c).events ||| (EPOLLIN ||| EPOLLOUT)) false

/-- `DisableReadWrite`. -/
def disableReadWrite (s : ChannelLoop ι) (c : ι) : ChannelLoop ι :=
  setEvents fd s c ((s.chan c).events &&& ~~~(EPOLLIN ||| EPOLLOUT)) true

/-- `Close`, with its assertion. -/
def close (s : ChannelLoop ι) (c : ι) : ChannelLoop ι :=
  -- `assert(events_ == 0)`
  if (s.chan c).events = 0 then
    removeChannel fd
      (s.modify c fun ch => { ch with handlers := fun _ => false, disabled := false }) c
  else { s with failed := true }

/-- The operations on a channel. -/
inductive ChannelOp where
  | enableRead
  | disableRead
  | enableWrite
  | disableWrite
  | enableReadWrite
  | disableReadWrite
  | close
deriving DecidableEq

/-- What each does. -/
def perform (s : ChannelLoop ι) (c : ι) : ChannelOp → ChannelLoop ι
  | .enableRead => enableRead fd s c
  | .disableRead => disableRead fd s c
  | .enableWrite => enableWrite fd s c
  | .disableWrite => disableWrite fd s c
  | .enableReadWrite => enableReadWrite fd s c
  | .disableReadWrite => disableReadWrite fd s c
  | .close => close fd s c

/-- The call as the owner of the channel sees it. -/
def ChannelOp.apply (ch : Channel) : ChannelOp → Channel
  | .enableRead => ch.enableRead
  | .disableRead => ch.disableRead
  | .enableWrite => ch.enableWrite
  | .disableWrite => ch.disableWrite
  | .enableReadWrite => ch.enableReadWrite
  | .disableReadWrite => ch.disableReadWrite
  | .close => ch.close

/-- What the owner of channel `c` sees of it. -/
def owned (s : ChannelLoop ι) (c : ι) : Channel where
  events := (s.chan c).events
  registered := s.hasChannel c
  handlers := [.error, .read, .write].any (s.chan c).handlers

/-! ## Dispatching -/

omit [DecidableEq ι] in
/-- What `epoll_wait` may report for a descriptor: of the events asked for, or an error. -/
def ready (s : ChannelLoop ι) (p : Int × BitVec 32) : Option (ι × BitVec 32) :=
  match s.epoll p.1 with
  | some (c, mask) =>
      if p.2 &&& ~~~(mask ||| EPOLLERR ||| EPOLLHUP) = 0 then some (c, p.2) else none
  | none => none

/-- `set_revents` for each channel that `LoopOnce` has found. -/
def setRevents (s : ChannelLoop ι) : List (ι × BitVec 32) → ChannelLoop ι
  | [] => s
  | (c, revents) :: rest => setRevents (s.modify c fun ch => { ch with revents }) rest

/-- A step of the loop thread in library code; `alive` is what `tie_.lock()` finds. -/
def dispatch (s : ChannelLoop ι) (alive : Bool) : Option (ChannelLoop ι) :=
  match s.pc with
  | .idle => none
  | .dispatching [] => some { s with pc := .idle }
  | .dispatching (c :: active) =>
      some { s with
        pc := if (s.chan c).tied && !alive then .dispatching active else .testing c .error active }
  | .testing c kind active =>
      if (s.chan c).revents &&& kind.wants ≠ 0 ∧ (s.chan c).handlers kind then
        some { s with pc := .inHandler c kind active, started := s.started ++ [(c, kind)] }
      else some { s with pc := .behind c kind active }
  | .inHandler c kind active => some { s with pc := .behind c kind active }

/-- Code outside of the loop runs: in a handler, or between two iterations. -/
def userCode (s : ChannelLoop ι) : Bool :=
  match s.pc with
  | .idle | .inHandler _ _ _ => true
  | .dispatching _ | .testing _ _ _ => false

/-- The steps of user code and of the loop. -/
inductive Label (ι : Type) where
  | op (c : ι) (op : ChannelOp)
  | setHandler (c : ι) (kind : HandlerKind)
  | tie (c : ι)
  -- `LoopOnce`, with the descriptors that are ready
  | loopOnce (found : List (Int × BitVec 32))
  | dispatch (alive : Bool)
deriving DecidableEq

/-- One step, `none` where it is not enabled. -/
def step (s : ChannelLoop ι) (a : Label ι) : Option (ChannelLoop ι) :=
  if s.failed then none else
  match a with
  | .op c op => if s.userCode then some (perform fd s c op) else none
  | .setHandler c kind =>
      if s.userCode then
        some (s.modify c fun ch => { ch with handlers := Function.update ch.handlers kind true })
      else none
  | .tie c => if s.userCode then some (s.modify c fun ch => { ch with tied := true }) else none
  | .loopOnce found =>
      if s.pc = .idle then
        (found.mapM s.ready).map fun active =>
          { s.setRevents active with pc := .dispatching (active.map Prod.fst) }
      else none
  | .dispatch alive => s.dispatch alive

/-- A loop, `fd` being the descriptors of the channels. -/
def machine : Machine (ChannelLoop ι) (Label ι) where
  init := (· = create ι)
  step := step fd

/-- A channel is closed only right behind its `DisableReadWrite`. -/
def ClosesDisabled (s : ChannelLoop ι) : Label ι → Prop
  | .op c .close => (s.chan c).disabled = true
  | _ => True

end ChannelLoop

end Windz
