import Mathlib.Data.List.TakeWhile
import Windz.Lib.Copy
import Windz.Lib.Numeral
import Windz.Util.Strtol

/-!
# The pidfile

`util/Daemon.cpp`: `WritePidFile` writes the decimal digits of the process id and nothing behind
them, `GetPidFromFile` reads up to 16 bytes of the file into an array on the stack, puts a
NUL into its last byte, and converts what is there. `Stop` and `Restart` signal the process read.
What the array held before is an argument, and what `kill` answers is up to the environment.
-/

namespace Windz

open Lib Config Strtol

namespace Daemon

/-- A process id: a positive `pid_t`. -/
structure Pid where
  /-- The number. -/
  val : Nat
  /-- 0 and negative numbers mean groups of processes to `kill`. -/
  pos : 0 < val
  /-- It is a `pid_t`. -/
  lt : val < 2 ^ 31
deriving DecidableEq

/-- `snprintf` of a process id with `%d`. -/
def pidText (p : Pid) : Bytes := (numeral 10 p.val).map fun d => zero + UInt8.ofNat d

/-- `WritePidFile` by process `p`: the file, which was truncated, behind the `write`. -/
def writePidFile (p : Pid) : Bytes := pidText p

/-- `GetPidFromFile`, `stack` being what `buf` held; the file is `none` when it cannot be opened. -/
def getPidFromFile (stack : Vector UInt8 16) (file : Option Bytes) : Int :=
  match file with
  | none => -1
  | some file =>
      let count := file.take 16
      if count = [] then -1
      else
        let buf := (overwrite stack.toList 0 count).set 15 nul
        atoi (buf.takeWhile fun c => c ≠ nul)

/-! ## Signals -/

/-- The signals that are sent. -/
inductive Signal where
  /-- Signal 0, which only asks whether the process is there. -/
  | none
  | quit
deriving DecidableEq

/-- What `kill` answers. -/
inductive KillResult where
  | ok
  | eperm
  | esrch
deriving DecidableEq

/-- A call of `kill`. -/
structure Kill where
  /-- What it is sent to. -/
  pid : Int
  /-- The signal. -/
  signal : Signal
deriving DecidableEq

/-- The loop of `Stop`, `n` passes of it, its next call of `kill` being the `k`-th. -/
def stopLoop (kill : Nat → KillResult) (pid : Int) : Nat → Nat → List Kill × Bool
  | 0, _ => ([], false)
  | n + 1, k =>
      if kill k ≠ .ok then ([⟨pid, .quit⟩], true)
      else
        let (calls, stopped) := stopLoop kill pid n (k + 1)
        (⟨pid, .quit⟩ :: calls, stopped)

/-- `Stop`: its calls of `kill`, and what it returns. -/
def stop (stack : Vector UInt8 16) (file : Option Bytes) (kill : Nat → KillResult) :
    List Kill × Bool :=
  let pid := getPidFromFile stack file
  if pid ≤ 0 then ([], false)
  else if kill 0 ≠ .ok then ([⟨pid, .quit⟩], false)
  else
    let (calls, stopped) := stopLoop kill pid 500 1
    (⟨pid, .quit⟩ :: calls, stopped)

/-- `Restart` up to its call of `Start`: its calls of `kill`, and whether it goes on to `Start`. The
array of the second reading is another one. -/
def restart (stack stack' : Vector UInt8 16) (file : Option Bytes) (kill : Nat → KillResult) :
    List Kill × Bool :=
  let pid := getPidFromFile stack file
  if pid > 0 then
    match kill 0 with
    | .ok =>
        let (calls, stopped) := stop stack' file fun k => kill (k + 1)
        (⟨pid, .none⟩ :: calls, stopped)
    | .eperm => ([⟨pid, .none⟩], false)
    | .esrch => ([⟨pid, .none⟩], true)
  else ([], true)

end Daemon

end Windz
