import Mathlib.Init

/-!
# `Channel`

A channel's interest in events is a mask of epoll bits, kept in step with the
kernel by `Update`, which registers the descriptor the first time. `Close` takes
the descriptor out again and clears the handlers, so events still reported for
it do nothing.
-/

namespace Windz

/-- `EPOLLIN`. -/
def EPOLLIN : BitVec 32 := 0x001

/-- `EPOLLOUT`. -/
def EPOLLOUT : BitVec 32 := 0x004

/-- The part of `Channel` that its owner works with. -/
structure Channel where
  /-- `events_`. -/
  events : BitVec 32
  /-- The descriptor is in the loop's `epoll` set. -/
  registered : Bool
  /-- The handlers are set. -/
  handlers : Bool
deriving DecidableEq

namespace Channel

/-- A channel whose handlers were set by the constructor of its owner. -/
def create : Channel := ⟨0, false, true⟩

/-- `Update`: the loop is told. -/
def update (ch : Channel) : Channel := { ch with registered := true }

/-- `EnableRead`. -/
def enableRead (ch : Channel) : Channel := update { ch with events := ch.events ||| EPOLLIN }

/-- `DisableRead`. -/
def disableRead (ch : Channel) : Channel := update { ch with events := ch.events &&& ~~~EPOLLIN }

/-- `EnableWrite`. -/
def enableWrite (ch : Channel) : Channel := update { ch with events := ch.events ||| EPOLLOUT }

/-- `DisableWrite`. -/
def disableWrite (ch : Channel) : Channel :=
  update { ch with events := ch.events &&& ~~~EPOLLOUT }

/-- `EnableReadWrite`. -/
def enableReadWrite (ch : Channel) : Channel :=
  update { ch with events := ch.events ||| (EPOLLIN ||| EPOLLOUT) }

/-- `DisableReadWrite`. -/
def disableReadWrite (ch : Channel) : Channel :=
  update { ch with events := ch.events &&& ~~~(EPOLLIN ||| EPOLLOUT) }

/-- `ReadEnabled`. -/
def readEnabled (ch : Channel) : Bool := ch.events &&& EPOLLIN ≠ 0

/-- `WriteEnabled`. -/
def writeEnabled (ch : Channel) : Bool := ch.events &&& EPOLLOUT ≠ 0

/-- `Close` behind `assert(events_ == 0)`. -/
def close (ch : Channel) : Channel := { ch with registered := false, handlers := false }

/-! ## The two bits -/

theorem mask_clear {e m n : BitVec 32} (h : ~~~m &&& n = n) : e &&& ~~~m &&& n = e &&& n := by
  rw [BitVec.and_assoc, h]

theorem mask_cleared {e m n : BitVec 32} (h : ~~~m &&& n = 0) : e &&& ~~~m &&& n = 0 := by
  rw [BitVec.and_assoc, h]
  exact BitVec.and_zero

theorem mask_set {e m n : BitVec 32} (h : m &&& n = 0) : (e ||| m) &&& n = e &&& n := by
  have hdistrib : (e ||| m) &&& n = e &&& n ||| m &&& n := by
    ext i hi
    simp [Bool.and_or_distrib_right]
  rw [hdistrib, h]
  exact BitVec.or_zero

@[simp] theorem create_readEnabled : create.readEnabled = false := by decide

@[simp] theorem create_writeEnabled : create.writeEnabled = false := by decide

@[simp] theorem enableRead_readEnabled (ch : Channel) : ch.enableRead.readEnabled = true := by
  unfold readEnabled enableRead update
  rw [decide_eq_true_eq]
  intro h
  have hbit := congrArg (fun x => x.getLsbD 0) h
  simp [EPOLLIN] at hbit

@[simp] theorem enableRead_writeEnabled (ch : Channel) :
    ch.enableRead.writeEnabled = ch.writeEnabled := by
  unfold writeEnabled enableRead update
  rw [mask_set (by decide)]

@[simp] theorem disableRead_readEnabled (ch : Channel) : ch.disableRead.readEnabled = false := by
  unfold readEnabled disableRead update
  rw [mask_cleared (by decide)]
  rfl

@[simp] theorem disableRead_writeEnabled (ch : Channel) :
    ch.disableRead.writeEnabled = ch.writeEnabled := by
  unfold writeEnabled disableRead update
  rw [mask_clear (by decide)]

@[simp] theorem enableWrite_writeEnabled (ch : Channel) : ch.enableWrite.writeEnabled = true := by
  unfold writeEnabled enableWrite update
  rw [decide_eq_true_eq]
  intro h
  have hbit := congrArg (fun x => x.getLsbD 2) h
  simp [EPOLLOUT] at hbit

@[simp] theorem enableWrite_readEnabled (ch : Channel) :
    ch.enableWrite.readEnabled = ch.readEnabled := by
  unfold readEnabled enableWrite update
  rw [mask_set (by decide)]

@[simp] theorem disableWrite_writeEnabled (ch : Channel) :
    ch.disableWrite.writeEnabled = false := by
  unfold writeEnabled disableWrite update
  rw [mask_cleared (by decide)]
  rfl

@[simp] theorem disableWrite_readEnabled (ch : Channel) :
    ch.disableWrite.readEnabled = ch.readEnabled := by
  unfold readEnabled disableWrite update
  rw [mask_clear (by decide)]

@[simp] theorem disableReadWrite_readEnabled (ch : Channel) :
    ch.disableReadWrite.readEnabled = false := by
  unfold readEnabled disableReadWrite update
  rw [mask_cleared (by decide)]
  rfl

@[simp] theorem disableReadWrite_writeEnabled (ch : Channel) :
    ch.disableReadWrite.writeEnabled = false := by
  unfold writeEnabled disableReadWrite update
  rw [mask_cleared (by decide)]
  rfl

end Channel

end Windz
