import Windz.Lib.Machine
import Windz.Log.LogStream

/-!
# `AsyncLogging`

The front and back end of `log/AsyncLogging.cpp` as a machine. `Append` runs
under `mutex_` in any thread, so one call is one step. The logging thread takes a
step for each stretch of `ThreadFunc` between two points where another thread can
be observed: the test of `running_`, taking the mutex, waiting on the condition,
the critical section itself, and each call on the `LogFile`. `Start` and `Stop`
are run by one further thread, an action at a time.

A `unique_ptr` is an `Option`; moving from it leaves `none`, and dereferencing
`none` or failing an `assert` is a fault, after which nothing runs.

Three fields are ghosts, never read by the code: the lines of each buffer, all
lines appended so far, and the batches the logging thread has swapped out.
-/

namespace Windz

open Lib

/-- The bytes of a line. -/
abbrev Line := List UInt8

/-- `AsyncLogging::Buffer`, with the lines whose bytes it holds. -/
structure LineBuffer where
  /-- The buffer. -/
  buf : FixBuffer kLargeBuffer
  /-- Ghost: the lines appended since the last reset. -/
  lines : List Line
  /-- Its bytes are theirs. -/
  holds : buf.data = lines.flatten
deriving DecidableEq

namespace LineBuffer

/-- `MakeUnique<Buffer>()`. -/
def create : LineBuffer := ⟨FixBuffer.create _, [], rfl⟩

/-- `FixBuffer::Append`; a line that does not fit leaves no trace. -/
def append (line : Line) (b : LineBuffer) : LineBuffer :=
  if h : line.length < b.buf.avail then
    ⟨b.buf.append line, b.lines ++ [line], by
      rw [FixBuffer.append_data h, b.holds]; simp⟩
  else b

/-- `FixBuffer::Reset`. -/
def reset (b : LineBuffer) : LineBuffer := ⟨b.buf.reset, [], rfl⟩

theorem append_lines {b : LineBuffer} {line : Line} (h : line.length < b.buf.avail) :
    (b.append line).lines = b.lines ++ [line] := by
  unfold append
  rw [dif_pos h]

end LineBuffer

/-- `AsyncLogging::BufferPtr`. -/
abbrev BufferPtr := Option LineBuffer

/-- The lines behind a pointer, none behind a null one. -/
def BufferPtr.lines (p : BufferPtr) : List Line := (p.map LineBuffer.lines).getD []

/-- One call of `LogFile::Append` by the logging thread: the message about `n` dropped buffers,
or the bytes of one buffer. -/
inductive LogRecord where
  | notice (n : Nat)
  | data (bytes : List UInt8)
deriving DecidableEq

/-- The bytes handed over. -/
def LogRecord.bytes : LogRecord → List UInt8
  | .notice n => ("Dropped log message, " ++ toString n ++ " buffers\n").toUTF8.toList
  | .data bytes => bytes

/-- Where the logging thread stands in `ThreadFunc`. -/
inductive LogPc where
  | notStarted
  -- before `assert(running_)`, and before `latch_.CountDown()`
  | entered
  | counting
  /-- Before the two spare buffers are made. -/
  | setup
  /-- Before `while (running_)`. -/
  | test
  -- inside the loop: before the mutex is taken, and in `cond_.TimedWait` with the mutex released
  | lock
  | wait
  /-- Behind the critical section. -/
  | trim
  -- at the `i`-th round of the loop over `buffers_to_write`, and behind that loop
  | write (i : Nat)
  | recycle
  -- before the two calls of `output.Flush()`
  | flush
  | finalFlush
  | finished
deriving DecidableEq

/-- Where the thread that owns the object stands in `Start` and `Stop`. -/
inductive OwnerPc where
  | idle
  /-- `running_` is set, the thread not created yet. -/
  | starting
  /-- In `latch_.Wait()`. -/
  | waiting
  /-- `Start` has returned. -/
  | started
  /-- `Stop` has cleared `running_`. -/
  | stopping
  /-- In `thread_.Join()`. -/
  | joining
  /-- `Stop` has returned. -/
  | stopped
deriving DecidableEq

/-- `AsyncLogging` with the locals of `ThreadFunc`. -/
structure AsyncLogging where
  /-- `running_`. -/
  running : Bool
  /-- `current_buffer_`. -/
  currentBuffer : BufferPtr
  /-- `next_buffer_`. -/
  nextBuffer : BufferPtr
  /-- `buffers_`. -/
  buffers : List BufferPtr
  /-- `latch_` has been counted down. -/
  latched : Bool
  /-- Where the logging thread stands. -/
  pc : LogPc
  /-- `new_buffer1` of `ThreadFunc`. -/
  newBuffer1 : BufferPtr
  /-- `new_buffer2`. -/
  newBuffer2 : BufferPtr
  /-- `buffers_to_write`. -/
  buffersToWrite : List BufferPtr
  /-- Where the thread that starts and stops it stands. -/
  owner : OwnerPc
  /-- The calls of `LogFile::Append`, oldest first. -/
  output : List LogRecord
  /-- A null pointer was dereferenced or an assertion failed. -/
  fault : Bool
  /-- Ghost: all lines appended, in the order the threads took `mutex_`. -/
  lines : List Line
  /-- Ghost: the batches swapped out, oldest first; of each buffer its lines. -/
  taken : List (List (List Line))
deriving DecidableEq

namespace AsyncLogging

/-- The constructor. -/
def create : AsyncLogging :=
  { running := false, currentBuffer := some .create, nextBuffer := some .create, buffers := []
    latched := false, pc := .notStarted, newBuffer1 := none, newBuffer2 := none
    buffersToWrite := [], owner := .idle, output := [], fault := false, lines := [], taken := [] }

/-- A null pointer is dereferenced, or an assertion fails. -/
def crash (w : AsyncLogging) : AsyncLogging := { w with fault := true }

/-- `AsyncLogging::Append`, the body under the lock. -/
def append (line : Line) (w : AsyncLogging) : AsyncLogging :=
  match w.currentBuffer with
  | none => w.crash
  | some b =>
    let w := { w with lines := w.lines ++ [line] }
    if line.length < b.buf.avail then
      { w with currentBuffer := some (b.append line) }
    else
      let w := { w with buffers := w.buffers ++ [w.currentBuffer] }
      match w.nextBuffer with
      | some next => { w with currentBuffer := some (next.append line), nextBuffer := none }
      | none => { w with currentBuffer := some (LineBuffer.create.append line) }

/-- The critical section of `ThreadFunc` behind the wait. -/
def swapOut (w : AsyncLogging) : AsyncLogging :=
  let buffers := w.buffers ++ [w.currentBuffer]
  let w := { w with
    currentBuffer := w.newBuffer1
    newBuffer1 := none
    buffersToWrite := buffers
    buffers := w.buffersToWrite
    taken := w.taken ++ [buffers.map BufferPtr.lines]
    pc := .trim }
  match w.nextBuffer with
  | some _ => w
  | none => { w with nextBuffer := w.newBuffer2, newBuffer2 := none }

/-- The drop of all but the first two buffers of a batch of more than 25. -/
def trim (w : AsyncLogging) : AsyncLogging :=
  if 25 < w.buffersToWrite.length then
    { w with
      output := w.output ++ [.notice (w.buffersToWrite.length - 2)]
      buffersToWrite := w.buffersToWrite.take 2 }
  else w

/-- Move the last buffer of a batch out and reset it, behind `assert(!empty())`. -/
def takeBack (bs : List BufferPtr) : Option (LineBuffer × List BufferPtr) :=
  match bs.getLast? with
  | some (some b) => some (b.reset, bs.dropLast)
  | _ => none

/-- The refill of the two spare buffers from what was written. -/
def recycle (w : AsyncLogging) : AsyncLogging :=
  let w := { w with buffersToWrite := w.buffersToWrite.take 2 }
  let refill1 : Option AsyncLogging :=
    match w.newBuffer1 with
    | some _ => some w
    | none => (takeBack w.buffersToWrite).map fun (b, bs) =>
        { w with newBuffer1 := some b, buffersToWrite := bs }
  let refill2 : Option AsyncLogging := refill1.bind fun w =>
    match w.newBuffer2 with
    | some _ => some w
    | none => (takeBack w.buffersToWrite).map fun (b, bs) =>
        { w with newBuffer2 := some b, buffersToWrite := bs }
  match refill2 with
  | some w => { w with buffersToWrite := [], pc := .flush }
  | none => w.crash

/-- The assertions at the top of the loop. -/
def loopAsserts (w : AsyncLogging) : Bool :=
  (w.newBuffer1.map (·.buf.length)) = some 0 ∧ (w.newBuffer2.map (·.buf.length)) = some 0
    ∧ w.buffersToWrite = []

/-- One step of the logging thread that waits for nothing. -/
def threadStep (w : AsyncLogging) : Option AsyncLogging :=
  match w.pc with
  | .entered => some (if w.running then { w with pc := .counting } else w.crash)
  | .counting => some { w with latched := true, pc := .setup }
  | .setup =>
      some { w with newBuffer1 := some .create, newBuffer2 := some .create, buffersToWrite := []
                    pc := .test }
  | .test =>
      some (if w.running then
          if w.loopAsserts then { w with pc := .lock } else w.crash
        else { w with pc := .finalFlush })
  | .lock => some (if w.buffers = [] then { w with pc := .wait } else w.swapOut)
  | .trim => some (if w.buffersToWrite = [] then w.crash else { w.trim with pc := .write 0 })
  | .write i =>
      match w.buffersToWrite[i]? with
      | some (some b) =>
          some { w with output := w.output ++ [.data b.buf.data], pc := .write (i + 1) }
      | some none => some w.crash
      | none => some { w with pc := .recycle }
  | .recycle => some w.recycle
  | .flush => some { w with pc := .test }
  | .finalFlush => some { w with pc := .finished }
  | .notStarted | .wait | .finished => none

/-- The return from `TimedWait`. -/
def wakeStep (w : AsyncLogging) : Option AsyncLogging :=
  if w.pc = .wait then some w.swapOut else none

/-- One action of the owning thread: `Start` is three, `Stop` is three. -/
def ownerStep (w : AsyncLogging) : Option AsyncLogging :=
  match w.owner with
  | .idle => some { w with running := true, owner := .starting }
  | .starting => some { w with pc := .entered, owner := .waiting }
  | .waiting => if w.latched then some { w with owner := .started } else none
  | .started => some { w with running := false, owner := .stopping }
  | .stopping => some { w with owner := .joining }
  | .joining => if w.pc = .finished then some { w with owner := .stopped } else none
  | .stopped => none

/-- What can happen next: some thread calls `Append`, the logging thread goes on, it comes back
from `TimedWait` (notified, timed out or for no reason), or the owning thread goes on. -/
inductive Label where
  | append (thread : Nat) (line : Line)
  | thread
  | wake
  | owner
deriving DecidableEq

/-- One step, `none` where it is not enabled. -/
def step (w : AsyncLogging) (a : Label) : Option AsyncLogging :=
  if w.fault then none else
  match a with
  | .append _ line => some (w.append line)
  | .thread => w.threadStep
  | .wake => w.wakeStep
  | .owner => w.ownerStep

/-- An `AsyncLogging` with all the threads that log. -/
def machine : Machine AsyncLogging Label where
  init := (· = create)
  step := step

/-- The lines appended are shorter than a buffer. -/
def LinesFit (_ : AsyncLogging) : Label → Prop
  | .append _ line => line.length < kLargeBuffer
  | .thread | .wake | .owner => True

instance (w : AsyncLogging) (a : Label) : Decidable (LinesFit w a) :=
  match a with
  | .append _ _ => inferInstanceAs (Decidable (_ < _))
  | .thread | .wake | .owner => .isTrue trivial

end AsyncLogging

end Windz
