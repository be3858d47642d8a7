import Mathlib.Algebra.Group.Nat.Defs
import Windz.Lib.Copy
import Windz.Lib.Retry

/-!
# `Writen`, `Readn` and `ReadFd`

`base/Util.cpp`: loops around `write` and `read`. What a call answers is up to the
environment: a count, which for `read` comes with the bytes, or an error. A buffer is the
memory behind its pointer, and `p` a position in it; a call that would access memory
outside is not answered. Sizes are `size_t` and sums `ssize_t`; a sum that a `ssize_t` does
not hold wraps.
-/

namespace Windz

open Lib

namespace Util

/-- What a system call answers. -/
inductive Answer (α : Type) where
  | ok (a : α)
  | eintr
  | ewouldblock
  | error
deriving DecidableEq

/-- A `std::string`. No object has 2^63 bytes. -/
structure StdString where
  /-- The characters. -/
  bytes : List UInt8
  /-- They are counted by a `ptrdiff_t`. -/
  length_lt : bytes.length < 2 ^ 63

/-- `size()`. -/
def StdString.size (s : StdString) : UInt64 := UInt64.ofNat s.bytes.length

/-- The bytes at `c_str()`, with the zero behind them. -/
def StdString.cStr (s : StdString) : List UInt8 := s.bytes ++ [0]

/-- `+=`, `none` when it throws. -/
def StdString.append (s : StdString) (bs : List UInt8) : Option StdString :=
  if h : (s.bytes ++ bs).length < 2 ^ 63 then some ⟨s.bytes ++ bs, h⟩ else none

/-! ## `Writen` -/

/-- The variables of `Writen`, and as a ghost what the descriptor has accepted. -/
structure WriteState where
  /-- The bytes still to be written. -/
  nleft : UInt64
  /-- Those that were written. -/
  writesum : Int64
  /-- The index of the next one. -/
  p : Nat
  /-- Ghost: the bytes that the descriptor has accepted. -/
  accepted : List UInt8

/-- The loop of `Writen`; `write` accepts as many bytes as it answers, from `p` on. -/
def writeLoop (buf : List UInt8) : Retry WriteState (Answer Nat) (Int64 × List UInt8) where
  done s := if s.nleft > 0 then none else some (s.writesum, s.accepted)
  answered s a :=
    match a with
    | .ok nwritten =>
        if nwritten ≤ s.nleft.toNat then
          (slice? buf s.p nwritten).map fun bs => .again
            { nleft := s.nleft - UInt64.ofNat nwritten
              writesum := s.writesum + Int64.ofNat nwritten
              p := s.p + nwritten
              accepted := s.accepted ++ bs }
        else none
    | .eintr => some (.again s)
    | .ewouldblock | .error => some (.stop (-1, s.accepted))

/-- `Writen`: what it returns, what was accepted, and the answers left. -/
def writen (buf : List UInt8) (n : UInt64) (as : List (Answer Nat)) :
    Option ((Int64 × List UInt8) × List (Answer Nat)) :=
  (writeLoop buf).run { nleft := n, writesum := 0, p := 0, accepted := [] } as

/-- `WriteFd`. -/
def writeFd (buf : StdString) (as : List (Answer Nat)) :
    Option ((Int64 × List UInt8) × List (Answer Nat)) :=
  writen buf.cStr buf.size as

/-! ## `Readn` -/

/-- The local variables of `Readn`, and the array it fills. -/
structure ReadState where
  /-- The bytes still to be read. -/
  nleft : UInt64
  /-- Those that were read. -/
  readsum : Int64
  /-- The index of the next one. -/
  p : Nat
  /-- The array. -/
  buf : List UInt8

/-- The loop of `Readn`; `read` stores what it answers at `p`, and answers nothing at the end of the
file. -/
def readLoop : Retry ReadState (Answer (List UInt8)) (Int64 × List UInt8) where
  done s := if s.nleft > 0 then none else some (s.readsum, s.buf)
  answered s a :=
    match a with
    | .ok bs =>
        if bs.length ≤ s.nleft.toNat ∧ s.p + bs.length ≤ s.buf.length then
          if bs = [] then some (.stop (s.readsum, s.buf))
          else some <| .again
            { nleft := s.nleft - UInt64.ofNat bs.length
              readsum := s.readsum + Int64.ofNat bs.length
              p := s.p + bs.length
              buf := overwrite s.buf s.p bs }
        else none
    | .eintr => some (.again s)
    | .ewouldblock => some (.stop (s.readsum, s.buf))
    | .error => some (.stop (-1, s.buf))

/-- `Readn`: what it returns, the buffer, and the answers left. -/
def readn (buf : List UInt8) (n : UInt64) (as : List (Answer (List UInt8))) :
    Option ((Int64 × List UInt8) × List (Answer (List UInt8))) :=
  readLoop.run { nleft := n, readsum := 0, p := 0, buf } as

/-! ## `ReadFd` -/

/-- The local variable of `ReadFd`, and its string. -/
structure ReadFdState where
  /-- The bytes that were read. -/
  readsum : Int64
  /-- The string. -/
  buf : StdString

/-- The size of the array of `ReadFd`. -/
def kBuffSize : Nat := 4096

/-- The loop of `ReadFd`, `none` standing for the exception of `+=`. -/
def readFdLoop : Retry ReadFdState (Answer (List UInt8)) (Option Int64 × StdString) where
  done _ := none
  answered s a :=
    match a with
    | .ok bs =>
        if bs.length ≤ kBuffSize then
          if bs = [] then some (.stop (some s.readsum, s.buf))
          else
            match s.buf.append bs with
            | none => some (.stop (none, s.buf))
            | some buf => some (.again { readsum := s.readsum + Int64.ofNat bs.length, buf })
        else none
    | .eintr => some (.again s)
    | .ewouldblock => some (.stop (some s.readsum, s.buf))
    | .error => some (.stop (some (-1), s.buf))

/-- `ReadFd`: what it returns, the string, and the answers left. -/
def readFd (buf : StdString) (as : List (Answer (List UInt8))) :
    Option ((Option Int64 × StdString) × List (Answer (List UInt8))) :=
  readFdLoop.run { readsum := 0, buf } as

end Util

end Windz
