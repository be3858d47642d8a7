import Windz.Log.AsyncLoggingFile
import Windz.Log.LogFileProof

/-!
# From `AsyncLogging::Append` to the files

`ThreadFunc` of `log/AsyncLogging.cpp` with its local `output`, the `LogFile` that it makes
when it begins and that is destroyed when it returns. `LogFile` gets its defaults for
`flush_interval` and `check_every_n`; the object is used by the logging thread alone, and
so each step of that thread makes at most one call on it.

A call on a `LogFile` that is not there, or that has no file, has no step.
-/

namespace Windz

open Lib

/-- What the rest of the world decides of a call on the `LogFile`: what the memory of a new
`AppendFile` holds, what `fwrite` takes, what `written_byte()` says, and the time of a flush. -/
structure LogEnv where
  /-- What the memory of a new `AppendFile` holds. -/
  memory : Int64
  /-- What `fwrite_unlocked` takes of that many bytes. -/
  fwrite : Nat → Nat
  /-- `written_byte()`. -/
  writtenByte : AppendFile → Int64
  /-- The time of a flush. -/
  now : Int

/-- The logging threads and the files they write. -/
structure LogPipeline where
  /-- The buffers and the threads. -/
  front : AsyncLogging
  /-- `output` of `ThreadFunc`. -/
  file : Option LogFile
  /-- Ghost: the records given before the last `output.Flush()`. -/
  flushed : List LogRecord

namespace AsyncLogging

/-- The record that the next step of the logging thread gives to the `LogFile`. -/
def gives (w : AsyncLogging) : Option LogRecord :=
  match w.pc with
  | .trim =>
      if 25 < w.buffersToWrite.length then some (.notice (w.buffersToWrite.length - 2)) else none
  | .write i => (w.buffersToWrite[i]?.join).map fun b => .data b.buf.data
  | _ => none

end AsyncLogging

namespace LogPipeline

variable (clock : Nat → Int) (rollSize : Int64)

/-- No file is open yet. -/
def create : LogPipeline := ⟨.create, none, []⟩

/-- `output.Append(..)`. -/
def append (env : LogEnv) (r : LogRecord) (file : Option LogFile) : Option LogFile :=
  file.bind fun f =>
    (f.appendUnlocked clock ⟨r.bytes, env.fwrite, env.memory, env.writtenByte⟩).map Prod.snd

/-- The call on `output` in the next step of the logging thread, and the object after it. -/
def callOutput (env : LogEnv) (w : LogPipeline) : Option (Option LogFile) :=
  match w.front.pc with
  | .setup => some (some (.create clock rollSize 3 1024 env.memory))
  | .trim | .write _ =>
      match w.front.gives with
      | some r => (append clock env r w.file).map some
      | none => some w.file
  | .flush => (w.file.bind (LogFile.flush env.now)).map some
  -- and `ThreadFunc` returns
  | .finalFlush => (w.file.bind (LogFile.flush env.now)).map fun f => some f.destroy
  | _ => some w.file

/-- A step of the front end, with what becomes of the call on `output` that it makes. -/
def step (w : LogPipeline) : AsyncLogging.Label × LogEnv → Option LogPipeline
  | (.thread, env) =>
      (w.front.step .thread).bind fun front =>
        (w.callOutput clock rollSize env).map fun file =>
          { front, file
            flushed := match w.front.pc with
              | .flush | .finalFlush => front.output
              | _ => w.flushed }
  | (a, _) => (w.front.step a).map fun front => { w with front }

/-- The whole of it; each step comes with what its calls of `LogFile` meet. -/
def machine : Machine LogPipeline (AsyncLogging.Label × LogEnv) where
  init := (· = create)
  step := step clock rollSize

/-- The lines are shorter than a buffer, and the writes succeed. -/
def WritesFit (w : LogPipeline) (a : AsyncLogging.Label × LogEnv) : Prop :=
  w.front.LinesFit a.1
    ∧ ∀ r ∈ w.front.gives, AppendFile.handed a.2.fwrite r.bytes = r.bytes

instance (w : LogPipeline) (a : AsyncLogging.Label × LogEnv) : Decidable (WritesFit w a) :=
  inferInstanceAs (Decidable (_ ∧ _))

end LogPipeline

end Windz
