import Mathlib.Logic.Function.Basic
import Windz.Lib.Machine
import Windz.Util.DaemonProof

/-!
# Processes that call `Start`

Any number of processes call `Start` on one pidfile, and each step is one system call of one of
them. The pidfile is a name for an inode, or for none; a process that has it open keeps the
inode. A lock belongs to a process and an inode and goes when the process closes the file or is
gone. A process may be killed anywhere, and its id may be used again.

The ghosts: which processes are writing, that is, between their `open` with truncation and
the end of their `Start`; how often that has begun or ended; where this count stood when a
process opened the pidfile for its check; and which process was the last to get true.
-/

namespace Windz

open Lib Config

namespace Daemon

/-- Where a process is in `Start`. -/
inductive Loc where
  /-- There is no such process. -/
  | gone
  /-- `Start` has been called. -/
  | calling
  /-- `GetPidFromFile` has opened the pidfile, if it could. -/
  | reading (fd : Option Nat)
  /-- It has returned what it read. -/
  | read (pid : Int)
  /-- No process with the id read is there. -/
  | checked
  /-- Behind the first `fork`, in the child. -/
  | session
  /-- Behind the second. -/
  | child
  /-- `WritePidFile` has opened the pidfile. -/
  | truncated (fd : Nat)
  /-- It has locked it. -/
  | locked (fd : Nat)
  /-- Behind the `write`, which has written everything or not. -/
  | written (fd : Nat) (ok : Bool)
  /-- `WritePidFile` has returned true. -/
  | closed
  /-- `Start` has returned true. -/
  | running
  /-- `Start` has returned false. -/
  | refused
  /-- Behind the `unlink` at its exit. -/
  | exiting
deriving DecidableEq

/-- The processes and the file system. -/
structure Sys where
  /-- The place of each process. -/
  loc : Pid → Loc
  /-- The inode of the pidfile. -/
  path : Option Nat
  /-- What is in each inode. -/
  content : Nat → Bytes
  /-- The process that has locked it. -/
  lock : Nat → Option Pid
  /-- The inode of the next file. -/
  next : Nat
  /-- Ghost: the processes between their `open` with truncation and the end of `Start`. -/
  writers : List Pid
  /-- Ghost: how often this list has changed. -/
  changes : Nat
  /-- Ghost: how often it had when the process opened the pidfile for its check. -/
  seen : Pid → Nat
  /-- Ghost: the process that got true and still runs. -/
  holder : Option Pid

/-- The system calls, and what the environment decides in them. -/
inductive Label where
  | call (p : Pid)
  /-- A `read` that fails is taken as an `open` that does. -/
  | openRead (p : Pid) (ok : Bool)
  | read (p : Pid) (stack : Vector UInt8 16)
  /-- `kill(pid, 0)`; a process that is there may be another one with that id. -/
  | check (p : Pid) (found : Bool)
  /-- `getppid` is 1, or a `fork` fails. -/
  | refuse (p : Pid)
  | fork (p q : Pid)
  | openTrunc (p : Pid) (ok : Bool)
  | lock (p : Pid) (ok : Bool)
  | write (p : Pid) (count : Nat)
  | close (p : Pid)
  | devNull (p : Pid) (ok : Bool)
  | exit (p : Pid)
  | die (p : Pid)

namespace Sys

/-- `p` goes on to `l`. -/
def goto (s : Sys) (p : Pid) (l : Loc) : Sys := { s with loc := Function.update s.loc p l }

/-- `p` is writing no more, and runs no more as a daemon. -/
def leave (s : Sys) (p : Pid) : Sys :=
  { s with
    writers := s.writers.filter (· ≠ p)
    changes := if p ∈ s.writers then s.changes + 1 else s.changes
    holder := if s.holder = some p then none else s.holder }

/-- `p` is done with `Start`, or gone. -/
def quit (s : Sys) (p : Pid) (l : Loc) : Sys := (s.leave p).goto p l

/-- The process with the id that was read. -/
def named (pid : Int) : Option Pid :=
  if h : 0 < pid ∧ pid < 2 ^ 31 then some ⟨pid.toNat, by omega, by omega⟩ else none

/-- The inode that `open` with truncation opens. -/
def opened (s : Sys) : Nat := s.path.getD s.next

/-- One system call. -/
def step (s : Sys) : Label → Option Sys
  | .call p =>
      match s.loc p with
      | .gone => some (s.goto p .calling)
      | _ => none
  | .openRead p ok =>
      match s.loc p with
      | .calling =>
          some { s.goto p (.reading (if ok then s.path else none)) with
            seen := Function.update s.seen p s.changes }
      | _ => none
  | .read p stack =>
      match s.loc p with
      | .reading fd => some (s.goto p (.read (getPidFromFile stack (fd.map s.content))))
      | _ => none
  | .check p found =>
      match s.loc p with
      | .read pid =>
          match named pid with
          | none => some (s.goto p .checked)
          | some q =>
              -- one of these processes is found
              if s.loc q ≠ .gone ∧ ¬ found then none
              else if found then some (s.quit p .refused) else some (s.goto p .checked)
      | _ => none
  | .refuse p =>
      match s.loc p with
      | .checked | .session => some (s.quit p .refused)
      | _ => none
  | .fork p q =>
      -- the child goes on, the parent exits
      if s.loc q ≠ .gone then none
      else
        match s.loc p with
        | .checked =>
            some { (s.quit p .gone).goto q .session with
              seen := Function.update s.seen q (s.seen p) }
        | .session =>
            some { (s.quit p .gone).goto q .child with
              seen := Function.update s.seen q (s.seen p) }
        | _ => none
  | .openTrunc p ok =>
      match s.loc p with
      | .child =>
          if ok then
            some { s.goto p (.truncated s.opened) with
              path := some s.opened
              content := Function.update s.content s.opened []
              next := s.next + 1
              writers := p :: s.writers
              changes := s.changes + 1 }
          else some (s.quit p .refused)
      | _ => none
  | .lock p ok =>
      match s.loc p with
      | .truncated fd =>
          if ok then
            if s.lock fd = none then
              some { s.goto p (.locked fd) with lock := Function.update s.lock fd (some p) }
            else none
          else some (s.quit p .refused)
      | _ => none
  | .write p count =>
      match s.loc p with
      | .locked fd =>
          let text := (writePidFile p).take count
          some { s.goto p (.written fd (text = writePidFile p)) with
            content := Function.update s.content fd (text ++ (s.content fd).drop text.length) }
      | _ => none
  | .close p =>
      match s.loc p with
      | .written fd ok =>
          let s := { s with lock := Function.update s.lock fd none }
          if ok then some (s.goto p .closed) else some (s.quit p .refused)
      | _ => none
  | .devNull p ok =>
      match s.loc p with
      | .closed =>
          if ok then some { s.quit p .running with holder := some p }
          else some (s.quit p .refused)
      | _ => none
  | .exit p =>
      match s.loc p with
      | .running => some { s.quit p .exiting with path := none }
      | _ => none
  | .die p =>
      match s.loc p with
      | .gone => none
      | _ =>
          some { s.quit p .gone with
            lock := fun i => if s.lock i = some p then none else s.lock i }

end Sys

/-- Nobody has called `Start` yet; there may be a pidfile from before. -/
structure Sys.Init (s : Sys) : Prop where
  /-- There are no processes, -/
  loc : ∀ p, s.loc p = .gone
  /-- no locks, -/
  lock : ∀ i, s.lock i = none
  /-- and the ghosts are at their beginning. -/
  writers : s.writers = []
  changes : s.changes = 0
  seen : ∀ p, s.seen p = 0
  holder : s.holder = none

/-- Any number of processes that call `Start`. -/
def starts : Machine Sys Label := ⟨Sys.Init, Sys.step⟩

/-- What keeps the processes apart. A pidfile that is there is opened for the check. The array read
into has no digits that matter behind the id of the process that runs. And when a process
has opened the pidfile with truncation, no other is writing, and none has been since the process
opened it for its check. -/
def Apart (s : Sys) : Label → Prop
  | .openRead _ ok => ok = true ∨ s.path = none
  | .read _ stack => ∀ h ∈ s.holder, Harmless stack h
  | .openTrunc p ok => ok = true → s.writers = [] ∧ s.seen p = s.changes
  | _ => True

instance (s : Sys) : (a : Label) → Decidable (Apart s a)
  | .openRead _ ok => inferInstanceAs (Decidable (ok = true ∨ s.path = none))
  | .read _ stack => inferInstanceAs (Decidable (∀ h ∈ s.holder, Harmless stack h))
  | .openTrunc p ok =>
      inferInstanceAs (Decidable (ok = true → s.writers = [] ∧ s.seen p = s.changes))
  | .call _ | .check _ _ | .refuse _ | .fork _ _ | .lock _ _ | .write _ _ | .close _
  | .devNull _ _ | .exit _ | .die _ => .isTrue trivial

end Daemon

end Windz
