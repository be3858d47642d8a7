import Windz.Lib.Machine
import Windz.Log.FileUtil

/-!
# `LogFile`

`log/LogFile.cpp`. An `Append` is one step, under `mutex_` or in the only thread that
has the object. The calls of `time` are numbered, and the `k`-th reads `clock k`.

What the rest of the world decides of an `Append` is in its `LogCall`: what `fwrite`
takes, what the memory of a new `AppendFile` holds, and what `written_byte()` says of
the file, which is a parameter here.
-/

namespace Windz

open Lib

/-- `kRollPerSeconds`: a day. -/
def kRollPerSeconds : Int := 60 * 60 * 24

/-- `now / kRollPerSeconds * kRollPerSeconds` -/
def startOf (now : Int) : Int := now.tdiv kRollPerSeconds * kRollPerSeconds

/-- A `LogFile`, with the files it had before. -/
structure LogFile where
  /-- `roll_size_`. -/
  rollSize : Int64
  /-- `flush_interval_`. -/
  flushInterval : Int
  /-- `check_every_n_`. -/
  checkEveryN : Int
  /-- `count_`. -/
  count : Int
  /-- `start_of_day_`. -/
  startOfDay : Int
  /-- `last_roll_`. -/
  lastRoll : Int
  /-- `last_flush_`. -/
  lastFlush : Int
  /-- `file_`. -/
  file : Option AppendFile
  /-- The number of calls of `time` so far. -/
  reads : Nat
  /-- Ghost: the files before this one, oldest first. -/
  closed : List AppendFile
deriving DecidableEq

/-- A call of `Append`. -/
structure LogCall where
  /-- The bytes to append. -/
  line : List UInt8
  /-- What `fwrite_unlocked` takes of that many bytes. -/
  fwrite : Nat → Nat
  /-- What the memory of a new `AppendFile` holds. -/
  memory : Int64
  /-- `written_byte()`. -/
  writtenByte : AppendFile → Int64

/-- Which way an `Append` went: it asked for a roll by size, only counted, or checked the time. -/
inductive AppendOutcome where
  | sizeRoll
  | counted
  | checked (now : Int)
deriving DecidableEq

namespace LogFile

variable (clock : Nat → Int)

/-- `RollFile`; the name of the file is made from the time and is not modelled further. -/
def rollFile (memory : Int64) (w : LogFile) : Bool × LogFile :=
  let now := clock w.reads
  let w := { w with reads := w.reads + 1 }
  if w.lastRoll < now then
    (true,
      { w with
        lastRoll := now, lastFlush := now, startOfDay := startOf now
        file := some (.create memory now), closed := w.closed ++ w.file.toList })
  else (false, w)

/-- The constructor. -/
def create (rollSize : Int64) (flushInterval checkEveryN : Int) (memory : Int64) : LogFile :=
  (rollFile clock memory
    { rollSize, flushInterval, checkEveryN, count := 0, startOfDay := 0, lastRoll := 0
      lastFlush := 0, file := none, reads := 0, closed := [] }).2

/-- The time check of `AppendUnlocked`, on the file `f`. -/
def checkTime (memory : Int64) (f : AppendFile) (w : LogFile) : AppendOutcome × LogFile :=
  let now := clock w.reads
  let w := { w with count := 0, reads := w.reads + 1 }
  if startOf now ≠ w.startOfDay then (.checked now, (rollFile clock memory w).2)
  else if w.flushInterval ≤ now - w.lastFlush then
    (.checked now, { w with lastFlush := now, file := some (f.flush now) })
  else (.checked now, w)

/-- `AppendUnlocked`; without a file it would dereference null. -/
def appendUnlocked (a : LogCall) (w : LogFile) : Option (AppendOutcome × LogFile) :=
  w.file.map fun f =>
    let f := f.append a.fwrite a.line
    let w := { w with file := some f }
    if w.rollSize < a.writtenByte f then (.sizeRoll, (rollFile clock a.memory w).2)
    else
      let w := { w with count := w.count + 1 }
      if w.checkEveryN ≤ w.count then checkTime clock a.memory f w else (.counted, w)

/-- `Flush`, at the time `now`; without a file it would dereference null. -/
def flush (now : Int) (w : LogFile) : Option LogFile :=
  w.file.map fun f => { w with file := some (f.flush now) }

/-- The destructor, which closes the file. -/
def destroy (w : LogFile) : LogFile := { w with file := none, closed := w.closed ++ w.file.toList }

/-- A `LogFile` and the calls of `Append` on it. -/
def machine (rollSize : Int64) (flushInterval checkEveryN : Int) : Machine LogFile LogCall where
  init w := ∃ memory, w = create clock rollSize flushInterval checkEveryN memory
  step w a := (appendUnlocked clock a w).map Prod.snd

end LogFile

end Windz
