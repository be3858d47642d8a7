import Windz.Log.AsyncLogging

/-!
# No line is lost on the way to the file

A line passes through the current buffer, `buffers_`, a batch and the file, while
four buffers circulate. Three invariants follow it:

* `Shape`: which pointers are null where, and that every buffer put in place to be
  filled is empty. This is what makes a line that does not fit the current buffer
  fit the next one.
* `Accounted`: all lines appended are those of the batches swapped out, of
  `buffers_` and of the current buffer, in this order.
* `WrittenOut`: what the file was given, followed by what the logging thread is
  about to give it, is what `batchRecords` says of the batches swapped out.
-/

namespace Windz

open Lib

namespace AsyncLogging

/-! ## The calls a batch turns into -/

/-- What is written of a batch: all its buffers, or the first two behind a notice. -/
def batchRecords (batch : List (List Line)) : List LogRecord :=
  if 25 < batch.length then
    .notice (batch.length - 2) :: (batch.take 2).map fun ls => .data ls.flatten
  else batch.map fun ls => .data ls.flatten

/-- The buffers of a batch that are written. -/
def keptBuffers (batch : List (List Line)) : List (List Line) :=
  if 25 < batch.length then batch.take 2 else batch

/-- What the logging thread will still write of the batch in its hands. -/
def unwritten (w : AsyncLogging) : List LogRecord :=
  match w.pc with
  | .trim => batchRecords (w.buffersToWrite.map BufferPtr.lines)
  | .write i => (w.buffersToWrite.drop i).map fun p => .data p.lines.flatten
  | _ => []

/-- The lines appended and not yet swapped out. -/
def pending (w : AsyncLogging) : List Line :=
  (w.buffers.map BufferPtr.lines).flatten ++ w.currentBuffer.lines

/-! ## The invariants -/

/-- A buffer that can be put in place to be filled. -/
def Fresh (p : BufferPtr) : Prop := ∃ b, p = some b ∧ b.lines = []

/-- The spare buffers, at each point of `ThreadFunc`. -/
def Spares (w : AsyncLogging) : Prop :=
  match w.pc with
  | .notStarted | .entered | .counting | .setup => w.buffersToWrite = []
  | .test | .lock | .wait | .flush | .finalFlush | .finished =>
      Fresh w.newBuffer1 ∧ Fresh w.newBuffer2 ∧ w.buffersToWrite = []
  | .trim | .write _ | .recycle =>
      w.newBuffer1 = none ∧ w.buffersToWrite ≠ []
        ∧ (Fresh w.newBuffer2 ∨ w.newBuffer2 = none ∧ 2 ≤ w.buffersToWrite.length)

/-- How far the owning thread can be ahead of the logging thread. -/
def OwnerInv (w : AsyncLogging) : Prop :=
  match w.owner with
  | .idle => w.running = false ∧ w.pc = .notStarted
  | .starting => w.running = true ∧ w.pc = .notStarted
  | .waiting => w.running = true ∧ w.pc ≠ .notStarted
  | .started => w.running = true ∧ w.pc ≠ .notStarted ∧ w.latched = true
  | .stopping | .joining | .stopped =>
      w.running = false ∧ w.pc ≠ .notStarted ∧ w.latched = true

/-- Which pointers are null, and which buffers are empty. -/
structure Shape (w : AsyncLogging) : Prop where
  /-- The code runs on. -/
  noFault : w.fault = false
  /-- There is always a buffer to append to. -/
  current : ∃ b, w.currentBuffer = some b
  /-- Only filled buffers are queued. -/
  queued : ∀ p ∈ w.buffers, ∃ b, p = some b
  /-- The batch holds no null pointer. -/
  batch : ∀ p ∈ w.buffersToWrite, ∃ b, p = some b
  /-- The next buffer is empty when there is one. -/
  next : Fresh w.nextBuffer ∨ w.nextBuffer = none ∧ w.buffers ≠ []
  spares : Spares w
  owner : OwnerInv w
  /-- The latch opens behind `assert(running_)`. -/
  latch : w.latched = true → w.pc ≠ .notStarted ∧ w.pc ≠ .entered ∧ w.pc ≠ .counting

/-- Every line is in its place, in order. -/
def Accounted (w : AsyncLogging) : Prop := w.lines = w.taken.flatten.flatten ++ w.pending

/-- Every batch is written the way `batchRecords` says. -/
def WrittenOut (w : AsyncLogging) : Prop :=
  w.output ++ w.unwritten = w.taken.flatMap batchRecords

/-! ## Buffers -/

theorem BufferPtr_lines_some (b : LineBuffer) : BufferPtr.lines (some b) = b.lines := rfl

theorem LineBuffer_data_nil {b : LineBuffer} (h : b.lines = []) : b.buf.data = [] := by
  rw [b.holds, h]; rfl

/-- A line shorter than a buffer fits an empty one. -/
theorem LineBuffer_append_empty {b : LineBuffer} (h : b.lines = []) {line : Line}
    (hfit : line.length < kLargeBuffer) : (b.append line).lines = [line] := by
  rw [LineBuffer.append_lines, h, List.nil_append]
  rw [FixBuffer.avail, FixBuffer.length, LineBuffer_data_nil h]
  exact hfit

theorem fresh_create : Fresh (some LineBuffer.create) := ⟨_, rfl, rfl⟩

theorem Fresh.length {p : BufferPtr} (h : Fresh p) : p.map (·.buf.length) = some 0 := by
  obtain ⟨b, rfl, hb⟩ := h
  rw [Option.map_some, FixBuffer.length, LineBuffer_data_nil hb]
  rfl

/-! ## `Append` -/

/-- What an append does: the line goes to the end of the pending lines, and nothing but the
current buffer, the next one and the queue is touched. -/
theorem append_spec {w : AsyncLogging} (h : Shape w) {line : Line}
    (hfit : line.length < kLargeBuffer) :
    ∃ cur next bufs, w.append line = { w with
        currentBuffer := some cur, nextBuffer := next, buffers := bufs, lines := w.lines ++ [line] }
      ∧ (∀ p ∈ bufs, ∃ b, p = some b)
      ∧ (Fresh next ∨ next = none ∧ bufs ≠ [])
      ∧ (bufs.map BufferPtr.lines).flatten ++ cur.lines = w.pending ++ [line] := by
  obtain ⟨b, hb⟩ := h.current
  -- the queue after the current buffer is moved to its end
  have hqueue : ∀ p ∈ w.buffers ++ [some b], ∃ b, p = some b := by
    intro p hp
    rcases List.mem_append.mp hp with hp | hp
    · exact h.queued p hp
    · exact ⟨b, List.mem_singleton.mp hp⟩
  have hpending : ((w.buffers ++ [some b]).map BufferPtr.lines).flatten = w.pending := by
    rw [pending, hb]; simp
  unfold append
  rw [hb]
  dsimp only
  split
  · rename_i hlt
    refine ⟨b.append line, w.nextBuffer, w.buffers, rfl, h.queued, h.next, ?_⟩
    rw [LineBuffer.append_lines hlt, pending, hb, BufferPtr_lines_some, List.append_assoc]
  · rcases h.next with hn | ⟨hn, _⟩
    · obtain ⟨nb, hnb, hempty⟩ := hn
      rw [hnb]
      refine ⟨nb.append line, none, w.buffers ++ [some b], rfl, hqueue, .inr ⟨rfl, by simp⟩, ?_⟩
      rw [hpending, LineBuffer_append_empty hempty hfit]
    · rw [hn]
      refine ⟨LineBuffer.create.append line, none, w.buffers ++ [some b], rfl, hqueue,
        .inr ⟨rfl, by simp⟩, ?_⟩
      rw [hpending, LineBuffer_append_empty rfl hfit]

theorem append_shape {w : AsyncLogging} (h : Shape w) {line : Line}
    (hfit : line.length < kLargeBuffer) : Shape (w.append line) := by
  obtain ⟨cur, next, bufs, he, hq, hn, _⟩ := append_spec h hfit
  rw [he]
  exact { h with current := ⟨cur, rfl⟩, queued := hq, next := hn }

theorem append_accounted {w : AsyncLogging} (h : Shape w) (ha : Accounted w) {line : Line}
    (hfit : line.length < kLargeBuffer) : Accounted (w.append line) := by
  obtain ⟨cur, next, bufs, he, _, _, hp⟩ := append_spec h hfit
  rw [he]
  show w.lines ++ [line]
    = w.taken.flatten.flatten ++ ((bufs.map BufferPtr.lines).flatten ++ cur.lines)
  rw [hp, ha, List.append_assoc]

theorem append_writtenOut {w : AsyncLogging} (h : Shape w) (hw : WrittenOut w) {line : Line}
    (hfit : line.length < kLargeBuffer) : WrittenOut (w.append line) := by
  obtain ⟨cur, next, bufs, he, _, _, _⟩ := append_spec h hfit
  rw [he]
  exact hw

/-! ## The critical section -/

/-- What the critical section does: the queue with the current buffer at its end becomes the
batch, and the spare buffers take their places. -/
theorem swapOut_spec {w : AsyncLogging} (h : Shape w) (h2 : Fresh w.newBuffer2)
    (hw : w.buffersToWrite = []) :
    ∃ next new2, w.swapOut = { w with
        currentBuffer := w.newBuffer1, nextBuffer := next, buffers := [], newBuffer1 := none,
        newBuffer2 := new2, buffersToWrite := w.buffers ++ [w.currentBuffer], pc := .trim,
        taken := w.taken ++ [(w.buffers ++ [w.currentBuffer]).map BufferPtr.lines] }
      ∧ Fresh next
      ∧ (Fresh new2 ∨ new2 = none ∧ 2 ≤ (w.buffers ++ [w.currentBuffer]).length) := by
  unfold swapOut
  dsimp only
  rcases h.next with hn | ⟨hn, hq⟩
  · obtain ⟨nb, hnb, hempty⟩ := hn
    rw [hnb, hw]
    exact ⟨some nb, w.newBuffer2, rfl, ⟨nb, rfl, hempty⟩, .inl h2⟩
  · rw [hn, hw]
    refine ⟨w.newBuffer2, none, rfl, h2, .inr ⟨rfl, ?_⟩⟩
    have := List.length_pos_iff.mpr hq
    rw [List.length_append, List.length_singleton]
    omega

/-- The logging thread keeps the owner's invariant by touching neither `running_` nor the owner,
and by not closing the latch. -/
theorem OwnerInv.advance {w w' : AsyncLogging} (h : OwnerInv w) (hpc : w.pc ≠ .notStarted)
    (hpc' : w'.pc ≠ .notStarted) (ho : w'.owner = w.owner) (hr : w'.running = w.running)
    (hl : w.latched = true → w'.latched = true) : OwnerInv w' := by
  unfold OwnerInv at h ⊢
  rw [ho, hr]
  cases hw : w.owner with
  | idle => rw [hw] at h; exact absurd h.2 hpc
  | starting => rw [hw] at h; exact absurd h.2 hpc
  | waiting => rw [hw] at h; exact ⟨h.1, hpc'⟩
  | started => rw [hw] at h; exact ⟨h.1, hpc', hl h.2.2⟩
  | stopping => rw [hw] at h; exact ⟨h.1, hpc', hl h.2.2⟩
  | joining => rw [hw] at h; exact ⟨h.1, hpc', hl h.2.2⟩
  | stopped => rw [hw] at h; exact ⟨h.1, hpc', hl h.2.2⟩

theorem swapOut_shape {w : AsyncLogging} (h : Shape w) (h1 : Fresh w.newBuffer1)
    (h2 : Fresh w.newBuffer2) (hw : w.buffersToWrite = []) (hpc : w.pc ≠ .notStarted) :
    Shape w.swapOut := by
  obtain ⟨next, new2, he, hn, h2'⟩ := swapOut_spec h h2 hw
  obtain ⟨b1, hb1, _⟩ := h1
  rw [he]
  refine { noFault := h.noFault, current := ⟨b1, hb1⟩, queued := ?_, batch := ?_,
           next := .inl hn, spares := ⟨rfl, by simp, h2'⟩, owner := ?_, latch := ?_ }
  · intro p hp; exact absurd hp (by simp)
  · intro p hp
    rcases List.mem_append.mp hp with hp | hp
    · exact h.queued p hp
    · obtain ⟨b, hb⟩ := h.current
      exact ⟨b, (List.mem_singleton.mp hp).trans hb⟩
  · exact h.owner.advance hpc LogPc.noConfusion rfl rfl id
  · intro _; exact ⟨LogPc.noConfusion, LogPc.noConfusion, LogPc.noConfusion⟩

theorem swapOut_accounted {w : AsyncLogging} (h : Shape w) (ha : Accounted w)
    (h1 : Fresh w.newBuffer1) (h2 : Fresh w.newBuffer2) (hw : w.buffersToWrite = []) :
    Accounted w.swapOut := by
  obtain ⟨next, new2, he, _, _⟩ := swapOut_spec h h2 hw
  obtain ⟨b1, hb1, hempty⟩ := h1
  rw [he]
  show w.lines = (w.taken ++ [(w.buffers ++ [w.currentBuffer]).map BufferPtr.lines]).flatten.flatten
    ++ ([] ++ BufferPtr.lines w.newBuffer1)
  rw [ha, hb1, BufferPtr_lines_some, hempty, pending]
  simp

theorem swapOut_writtenOut {w : AsyncLogging} (h : Shape w) (hwr : WrittenOut w)
    (h2 : Fresh w.newBuffer2) (hw : w.buffersToWrite = []) (hun : w.unwritten = []) :
    WrittenOut w.swapOut := by
  obtain ⟨next, new2, he, _, _⟩ := swapOut_spec h h2 hw
  rw [he]
  have hout : w.output = w.taken.flatMap batchRecords := by
    unfold WrittenOut at hwr
    rwa [hun, List.append_nil] at hwr
  show w.output ++ batchRecords _ = _
  rw [hout, List.flatMap_append, List.flatMap_singleton]

/-! ## Writing a batch -/

/-- What the trimming leaves to write is what `batchRecords` says of the whole batch. -/
theorem trim_spec (w : AsyncLogging) :
    w.trim.output ++ (w.trim.buffersToWrite.map fun p => LogRecord.data p.lines.flatten)
      = w.output ++ batchRecords (w.buffersToWrite.map BufferPtr.lines) := by
  unfold trim batchRecords
  rw [List.length_map]
  split
  · rw [List.append_assoc, ← List.map_take, List.map_map]; rfl
  · rw [List.map_map]; rfl

theorem trim_frame (w : AsyncLogging) :
    ∃ out bs, w.trim = { w with output := out, buffersToWrite := bs }
      ∧ (∀ p ∈ bs, p ∈ w.buffersToWrite) ∧ (w.buffersToWrite ≠ [] → bs ≠ [])
      ∧ (2 ≤ w.buffersToWrite.length → 2 ≤ bs.length) := by
  unfold trim
  split
  · rename_i hlt
    refine ⟨_, _, rfl, fun p hp => List.mem_of_mem_take hp, fun _ hnil => ?_, fun _ => ?_⟩
    · have := congrArg List.length hnil
      rw [List.length_take, List.length_nil] at this
      omega
    · rw [List.length_take]; omega
  · exact ⟨_, _, rfl, fun p hp => hp, id, id⟩

/-- A non-empty batch without null pointers gives a buffer back, emptied. -/
theorem takeBack_spec {bs : List BufferPtr} (hne : bs ≠ []) (h : ∀ p ∈ bs, ∃ b, p = some b) :
    ∃ b, takeBack bs = some (b, bs.dropLast) ∧ b.lines = [] := by
  obtain ⟨b, hb⟩ := h _ (List.getLast_mem hne)
  refine ⟨b.reset, ?_, rfl⟩
  unfold takeBack
  rw [List.getLast?_eq_getLast_of_ne_nil hne, hb]

/-- The refill finds a buffer for each spare that was given away. -/
theorem recycle_spec {w : AsyncLogging} (h1 : w.newBuffer1 = none) (hne : w.buffersToWrite ≠ [])
    (h2 : Fresh w.newBuffer2 ∨ w.newBuffer2 = none ∧ 2 ≤ w.buffersToWrite.length)
    (hb : ∀ p ∈ w.buffersToWrite, ∃ b, p = some b) :
    ∃ new1 new2, w.recycle = { w with
        newBuffer1 := new1, newBuffer2 := new2, buffersToWrite := [], pc := .flush }
      ∧ Fresh new1 ∧ Fresh new2 := by
  have htake : ∀ p ∈ w.buffersToWrite.take 2, ∃ b, p = some b :=
    fun p hp => hb p (List.mem_of_mem_take hp)
  have hpos := List.length_pos_iff.mpr hne
  have hne' : w.buffersToWrite.take 2 ≠ [] := by
    intro hnil
    have := congrArg List.length hnil
    rw [List.length_take, List.length_nil] at this
    omega
  obtain ⟨b1, ht1, he1⟩ := takeBack_spec hne' htake
  unfold recycle
  dsimp only
  rw [h1]
  dsimp only
  rw [ht1]
  rcases h2 with ⟨nb, hnb, hempty⟩ | ⟨hnone, hlen⟩
  · rw [Option.map_some, Option.bind_some, hnb]
    exact ⟨some b1, some nb, rfl, ⟨b1, rfl, he1⟩, ⟨nb, rfl, hempty⟩⟩
  · -- both spares were given away, and the batch holds at least two buffers
    have hne2 : (w.buffersToWrite.take 2).dropLast ≠ [] := by
      intro hnil
      have := congrArg List.length hnil
      rw [List.length_dropLast, List.length_take, List.length_nil] at this
      omega
    obtain ⟨b2, ht2, he2⟩ := takeBack_spec hne2
      (fun p hp => htake p (List.dropLast_subset _ hp))
    rw [Option.map_some, Option.bind_some, hnone]
    dsimp only
    rw [ht2]
    exact ⟨some b1, some b2, rfl, ⟨b1, rfl, he1⟩, ⟨b2, rfl, he2⟩⟩

/-! ## One step -/

/-- The three invariants together. -/
structure Inv (w : AsyncLogging) : Prop where
  shape : Shape w
  accounted : Accounted w
  written : WrittenOut w

theorem inv_init : Inv create where
  shape :=
    { noFault := rfl, current := ⟨_, rfl⟩, queued := fun _ hp => absurd hp List.not_mem_nil
      batch := fun _ hp => absurd hp List.not_mem_nil, next := .inl fresh_create, spares := rfl
      owner := ⟨rfl, rfl⟩, latch := fun h => absurd h Bool.false_ne_true }
  accounted := rfl
  written := rfl

/-- The logging thread moves on without touching anything the lines are in. -/
theorem Inv.goto {w : AsyncLogging} (h : Inv w) {pc : LogPc} (hpc : w.pc ≠ .notStarted)
    (hns : pc ≠ .notStarted) (hlatch : w.latched = true → pc ≠ .entered ∧ pc ≠ .counting)
    (hsp : Spares { w with pc }) (hun : unwritten { w with pc } = w.unwritten) :
    Inv { w with pc } where
  shape := { h.shape with
    spares := hsp
    latch := fun hl => ⟨hns, hlatch hl⟩
    owner := h.shape.owner.advance hpc hns rfl rfl id }
  accounted := h.accounted
  written := by
    have := h.written
    unfold WrittenOut at this ⊢
    rw [hun]
    exact this

theorem inv_trim {w : AsyncLogging} (h : Inv w) (hpc : w.pc = .trim) :
    w.buffersToWrite ≠ [] ∧ Inv { w.trim with pc := .write 0 } := by
  have hsp := h.shape.spares
  have hwr := h.written
  have hrec := trim_spec w
  rw [Spares, hpc] at hsp
  rw [WrittenOut, unwritten, hpc] at hwr
  obtain ⟨out, bs, he, hmem, hne, htwo⟩ := trim_frame w
  refine ⟨hsp.2.1, ?_⟩
  rw [he] at hrec ⊢
  dsimp only at hrec
  refine { shape := { h.shape with
             batch := fun p hp => h.shape.batch p (hmem p hp)
             spares := ⟨hsp.1, hne hsp.2.1, hsp.2.2.imp id fun h2 => ⟨h2.1, htwo h2.2⟩⟩
             owner := h.shape.owner.advance (by rw [hpc]; exact LogPc.noConfusion)
               LogPc.noConfusion rfl rfl id
             latch := fun _ => ⟨LogPc.noConfusion, LogPc.noConfusion, LogPc.noConfusion⟩ }
           accounted := h.accounted
           written := ?_ }
  show out ++ ((bs.drop 0).map fun p => LogRecord.data p.lines.flatten) = _
  rw [List.drop_zero, hrec]
  exact hwr

theorem inv_write {w : AsyncLogging} (h : Inv w) {i : Nat} (hpc : w.pc = .write i)
    {b : LineBuffer} (hb : w.buffersToWrite[i]? = some (some b)) :
    Inv { w with output := w.output ++ [.data b.buf.data], pc := .write (i + 1) } := by
  have hsp := h.shape.spares
  have hwr := h.written
  rw [Spares, hpc] at hsp
  rw [WrittenOut, unwritten, hpc] at hwr
  refine { shape := { h.shape with
             spares := hsp
             owner := h.shape.owner.advance (by rw [hpc]; exact LogPc.noConfusion)
               LogPc.noConfusion rfl rfl id
             latch := fun _ => ⟨LogPc.noConfusion, LogPc.noConfusion, LogPc.noConfusion⟩ }
           accounted := h.accounted
           written := ?_ }
  -- the buffer just written is the first of those that were still to be written
  obtain ⟨hi, hget⟩ := List.getElem?_eq_some_iff.mp hb
  have hdrop : w.buffersToWrite.drop i = some b :: w.buffersToWrite.drop (i + 1) := by
    rw [List.drop_eq_getElem_cons hi, hget]
  dsimp only at hwr
  rw [hdrop, List.map_cons, BufferPtr_lines_some, ← b.holds] at hwr
  show w.output ++ [LogRecord.data b.buf.data]
    ++ ((w.buffersToWrite.drop (i + 1)).map fun p => LogRecord.data p.lines.flatten) = _
  rw [List.append_assoc]
  exact hwr

theorem inv_recycle {w : AsyncLogging} (h : Inv w) (hpc : w.pc = .recycle) : Inv w.recycle := by
  have hsp := h.shape.spares
  have hwr := h.written
  rw [Spares, hpc] at hsp
  rw [WrittenOut, unwritten, hpc] at hwr
  obtain ⟨new1, new2, he, hf1, hf2⟩ := recycle_spec hsp.1 hsp.2.1 hsp.2.2 h.shape.batch
  rw [he]
  exact { shape := { h.shape with
            batch := fun p hp => absurd hp List.not_mem_nil
            spares := ⟨hf1, hf2, rfl⟩
            owner := h.shape.owner.advance (by rw [hpc]; exact LogPc.noConfusion)
              LogPc.noConfusion rfl rfl id
            latch := fun _ => ⟨LogPc.noConfusion, LogPc.noConfusion, LogPc.noConfusion⟩ }
          accounted := h.accounted
          written := hwr }

theorem inv_swapOut {w : AsyncLogging} (h : Inv w) (hpc : w.pc = .lock ∨ w.pc = .wait) :
    Inv w.swapOut := by
  have hsp : Fresh w.newBuffer1 ∧ Fresh w.newBuffer2 ∧ w.buffersToWrite = [] := by
    have := h.shape.spares
    rcases hpc with hp | hp <;> (rw [Spares, hp] at this; exact this)
  have hun : w.unwritten = [] := by
    rcases hpc with hp | hp <;> rw [unwritten, hp]
  have hns : w.pc ≠ .notStarted := by
    rcases hpc with hp | hp <;> (rw [hp]; exact LogPc.noConfusion)
  exact { shape := swapOut_shape h.shape hsp.1 hsp.2.1 hsp.2.2 hns
          accounted := swapOut_accounted h.shape h.accounted hsp.1 hsp.2.1 hsp.2.2
          written := swapOut_writtenOut h.shape h.written hsp.2.1 hsp.2.2 hun }

/-- The assertion at the start of `ThreadFunc` holds: `Stop` comes after the latch. -/
theorem entered_running {w : AsyncLogging} (h : Shape w) (hpc : w.pc = .entered) :
    w.running = true := by
  have ho := h.owner
  unfold OwnerInv at ho
  cases hw : w.owner with
  | idle => rw [hw] at ho; exact absurd (hpc.symm.trans ho.2) LogPc.noConfusion
  | starting => rw [hw] at ho; exact ho.1
  | waiting => rw [hw] at ho; exact ho.1
  | started => rw [hw] at ho; exact ho.1
  | stopping => rw [hw] at ho; exact absurd hpc (h.latch ho.2.2).2.1
  | joining => rw [hw] at ho; exact absurd hpc (h.latch ho.2.2).2.1
  | stopped => rw [hw] at ho; exact absurd hpc (h.latch ho.2.2).2.1

/-- **The logging thread keeps the invariants.** -/
theorem inv_threadStep {w w' : AsyncLogging} (h : Inv w) (hs : w.threadStep = some w') :
    Inv w' := by
  have hsp := h.shape.spares
  have hnl : ∀ pc : LogPc, pc ≠ .entered → pc ≠ .counting →
      w.latched = true → pc ≠ .entered ∧ pc ≠ .counting := fun _ h1 h2 _ => ⟨h1, h2⟩
  unfold Spares at hsp
  cases hpc : w.pc with
  | notStarted => rw [threadStep, hpc] at hs; exact absurd hs (by simp)
  | entered =>
    rw [threadStep, hpc] at hs
    rw [hpc] at hsp
    dsimp only at hs
    rw [if_pos (entered_running h.shape hpc), Option.some.injEq] at hs
    subst hs
    refine h.goto (by rw [hpc]; exact LogPc.noConfusion) LogPc.noConfusion ?_ hsp
      (by rw [unwritten, unwritten, hpc])
    intro hl; exact absurd hpc (h.shape.latch hl).2.1
  | counting =>
    rw [threadStep, hpc] at hs
    rw [hpc] at hsp
    dsimp only at hs
    rw [Option.some.injEq] at hs
    subst hs
    have hg := h.goto (by rw [hpc]; exact LogPc.noConfusion) LogPc.noConfusion
      (hnl .setup LogPc.noConfusion LogPc.noConfusion) hsp (by rw [unwritten, unwritten, hpc])
    exact { hg with shape := { hg.shape with
              owner := hg.shape.owner.advance LogPc.noConfusion LogPc.noConfusion rfl rfl
                fun _ => rfl
              latch := fun _ => ⟨LogPc.noConfusion, LogPc.noConfusion, LogPc.noConfusion⟩ } }
  | setup =>
    rw [threadStep, hpc] at hs
    dsimp only at hs
    rw [Option.some.injEq] at hs
    subst hs
    have hwr := h.written
    rw [WrittenOut, unwritten, hpc] at hwr
    exact { shape := { h.shape with
              batch := fun p hp => absurd hp List.not_mem_nil
              spares := ⟨fresh_create, fresh_create, rfl⟩
              owner := h.shape.owner.advance (by rw [hpc]; exact LogPc.noConfusion)
                LogPc.noConfusion rfl rfl id
              latch := fun _ => ⟨LogPc.noConfusion, LogPc.noConfusion, LogPc.noConfusion⟩ }
            accounted := h.accounted
            written := hwr }
  | test =>
    rw [threadStep, hpc] at hs
    rw [hpc] at hsp
    have hasserts : w.loopAsserts = true := by
      rw [loopAsserts, hsp.1.length, hsp.2.1.length, hsp.2.2]; decide
    dsimp only at hs
    rw [if_pos hasserts, Option.some.injEq] at hs
    subst hs
    split
    · exact h.goto (by rw [hpc]; exact LogPc.noConfusion) LogPc.noConfusion
        (hnl _ LogPc.noConfusion LogPc.noConfusion) hsp (by rw [unwritten, unwritten, hpc])
    · exact h.goto (by rw [hpc]; exact LogPc.noConfusion) LogPc.noConfusion
        (hnl _ LogPc.noConfusion LogPc.noConfusion) hsp (by rw [unwritten, unwritten, hpc])
  | lock =>
    rw [threadStep, hpc] at hs
    rw [hpc] at hsp
    dsimp only at hs
    rw [Option.some.injEq] at hs
    subst hs
    split
    · exact h.goto (by rw [hpc]; exact LogPc.noConfusion) LogPc.noConfusion
        (hnl _ LogPc.noConfusion LogPc.noConfusion) hsp (by rw [unwritten, unwritten, hpc])
    · exact inv_swapOut h (.inl hpc)
  | wait => rw [threadStep, hpc] at hs; exact absurd hs (by simp)
  | trim =>
    rw [threadStep, hpc] at hs
    obtain ⟨hne, hinv⟩ := inv_trim h hpc
    dsimp only at hs
    rw [if_neg hne, Option.some.injEq] at hs
    subst hs
    exact hinv
  | write i =>
    rw [threadStep, hpc] at hs
    rw [hpc] at hsp
    dsimp only at hs
    split at hs
    · rename_i b hb
      rw [Option.some.injEq] at hs
      subst hs
      exact inv_write h hpc hb
    · rename_i hb
      obtain ⟨b, hb'⟩ := h.shape.batch _ (List.mem_of_getElem? hb)
      exact absurd hb' (by simp)
    · rename_i hb
      rw [Option.some.injEq] at hs
      subst hs
      have hdrop : w.buffersToWrite.drop i = [] :=
        List.drop_eq_nil_of_le (List.getElem?_eq_none_iff.mp hb)
      exact h.goto (by rw [hpc]; exact LogPc.noConfusion) LogPc.noConfusion
        (hnl _ LogPc.noConfusion LogPc.noConfusion) hsp
        (by rw [unwritten, unwritten, hpc]; dsimp only; rw [hdrop, List.map_nil])
  | recycle =>
    rw [threadStep, hpc] at hs
    dsimp only at hs
    rw [Option.some.injEq] at hs
    subst hs
    exact inv_recycle h hpc
  | flush =>
    rw [threadStep, hpc] at hs
    rw [hpc] at hsp
    dsimp only at hs
    rw [Option.some.injEq] at hs
    subst hs
    exact h.goto (by rw [hpc]; exact LogPc.noConfusion) LogPc.noConfusion
      (hnl _ LogPc.noConfusion LogPc.noConfusion) hsp (by rw [unwritten, unwritten, hpc])
  | finalFlush =>
    rw [threadStep, hpc] at hs
    rw [hpc] at hsp
    dsimp only at hs
    rw [Option.some.injEq] at hs
    subst hs
    exact h.goto (by rw [hpc]; exact LogPc.noConfusion) LogPc.noConfusion
      (hnl _ LogPc.noConfusion LogPc.noConfusion) hsp (by rw [unwritten, unwritten, hpc])
  | finished => rw [threadStep, hpc] at hs; exact absurd hs (by simp)

/-- The owning thread keeps the invariants: it only touches `running_` and its own place, and
creates the logging thread. -/
theorem inv_ownerStep {w w' : AsyncLogging} (h : Inv w) (hs : w.ownerStep = some w') : Inv w' := by
  have ho := h.shape.owner
  have hsp := h.shape.spares
  have hwr := h.written
  unfold OwnerInv at ho
  cases hw : w.owner with
  | idle =>
    rw [ownerStep, hw] at hs
    rw [hw] at ho
    dsimp only at hs
    rw [Option.some.injEq] at hs
    subst hs
    exact { h with shape := { h.shape with owner := ⟨rfl, ho.2⟩ } }
  | starting =>
    rw [ownerStep, hw] at hs
    rw [hw] at ho
    rw [Spares, ho.2] at hsp
    rw [WrittenOut, unwritten, ho.2] at hwr
    dsimp only at hs
    rw [Option.some.injEq] at hs
    subst hs
    refine { shape := { h.shape with
               spares := hsp, owner := ⟨ho.1, LogPc.noConfusion⟩, latch := ?_ }
             accounted := h.accounted, written := hwr }
    -- nobody has counted the latch down yet
    intro hl
    exact absurd ho.2 (h.shape.latch hl).1
  | waiting =>
    rw [ownerStep, hw] at hs
    rw [hw] at ho
    obtain ⟨hl, hs⟩ := Option.ite_none_right_eq_some.mp hs
    rw [Option.some.injEq] at hs
    subst hs
    exact { h with shape := { h.shape with owner := ⟨ho.1, ho.2, hl⟩ } }
  | started =>
    rw [ownerStep, hw] at hs
    rw [hw] at ho
    dsimp only at hs
    rw [Option.some.injEq] at hs
    subst hs
    exact { h with shape := { h.shape with owner := ⟨rfl, ho.2⟩ } }
  | stopping =>
    rw [ownerStep, hw] at hs
    rw [hw] at ho
    dsimp only at hs
    rw [Option.some.injEq] at hs
    subst hs
    exact { h with shape := { h.shape with owner := ho } }
  | joining =>
    rw [ownerStep, hw] at hs
    rw [hw] at ho
    dsimp only at hs
    split at hs
    · rw [Option.some.injEq] at hs
      subst hs
      exact { h with shape := { h.shape with owner := ho } }
    · exact absurd hs (by simp)
  | stopped => rw [ownerStep, hw] at hs; exact absurd hs (by simp)

theorem inv_step {w w' : AsyncLogging} {a : Label} (h : Inv w) (hfit : LinesFit w a)
    (hs : w.step a = some w') : Inv w' := by
  unfold step at hs
  rw [h.shape.noFault, if_neg Bool.false_ne_true] at hs
  cases a with
  | append thread line =>
    dsimp only at hs
    rw [Option.some.injEq] at hs
    subst hs
    exact { shape := append_shape h.shape hfit
            accounted := append_accounted h.shape h.accounted hfit
            written := append_writtenOut h.shape h.written hfit }
  | thread => exact inv_threadStep h hs
  | wake =>
    dsimp only [wakeStep] at hs
    split at hs
    · rename_i hpc
      rw [Option.some.injEq] at hs
      subst hs
      exact inv_swapOut h (.inr hpc)
    · exact absurd hs (by simp)
  | owner => exact inv_ownerStep h hs

theorem inv_reachable {w : AsyncLogging} (h : Reachable machine LinesFit w) : Inv w := by
  refine h.invariant ?_ ?_
  · rintro _ rfl
    exact inv_init
  · intro w a w' _ hinv hfit hs
    exact inv_step hinv hfit hs

/-! ## The assertions -/

/-- The buffers that `recycle` has left when it comes to refill `new_buffer2`. -/
def afterRefill1 (w : AsyncLogging) : List BufferPtr :=
  if w.newBuffer1 = none then (w.buffersToWrite.take 2).dropLast else w.buffersToWrite.take 2

/--
**No assertion fails and no moved-out buffer is used.**

Whatever lines shorter than a buffer are appended, and whenever: the logging thread finds its two
spare buffers empty and no batch at the top of the loop, a batch behind the critical section, and a
buffer in it each time it takes one back; `current_buffer_` is never null outside the critical
sections, nor is a pointer that is queued or written.
-/
theorem buffers_in_place {w : AsyncLogging} (h : Reachable machine LinesFit w) :
    w.fault = false
    ∧ (∃ b, w.currentBuffer = some b)
    ∧ (w.pc = .test → w.loopAsserts = true)
    ∧ (w.pc = .trim → w.buffersToWrite ≠ [])
    ∧ (w.pc = .recycle → (w.newBuffer1 = none → w.buffersToWrite.take 2 ≠ [])
      ∧ (w.newBuffer2 = none → w.afterRefill1 ≠ []))
    ∧ ∀ p ∈ w.buffersToWrite ++ w.buffers, ∃ b, p = some b := by
  have hshape := (inv_reachable h).shape
  have hspares := hshape.spares
  refine ⟨hshape.noFault, hshape.current, fun hpc => ?_, fun hpc => ?_, fun hpc => ?_, ?_⟩
  · rw [Spares, hpc] at hspares
    obtain ⟨h1, h2, hbatch⟩ := hspares
    exact decide_eq_true ⟨h1.length, h2.length, hbatch⟩
  · rw [Spares, hpc] at hspares
    exact hspares.2.1
  · rw [Spares, hpc] at hspares
    obtain ⟨h1, hbatch, h2⟩ := hspares
    have hpos : 0 < w.buffersToWrite.length := List.length_pos_iff.mpr hbatch
    constructor
    · intro _ hnil
      have hlen := congrArg List.length hnil
      rw [List.length_take, List.length_nil] at hlen
      omega
    · intro hnone hnil
      rw [afterRefill1, if_pos h1] at hnil
      have hlen := congrArg List.length hnil
      rw [List.length_dropLast, List.length_take, List.length_nil] at hlen
      rcases h2 with ⟨b, hb, -⟩ | ⟨-, htwo⟩
      · rw [hnone] at hb
        cases hb
      · omega
  · intro p hp
    rcases List.mem_append.mp hp with hp | hp
    · exact hshape.batch p hp
    · exact hshape.queued p hp

/-- A line is written, and its buffer is about to become the first spare again. -/
theorem buffers_in_place_small : ∃ w, Reachable machine LinesFit w ∧ w.pc = .recycle
    ∧ w.newBuffer1 = none ∧ w.buffersToWrite.take 2 ≠ [] ∧ w.fault = false
    ∧ ∃ b, w.currentBuffer = some b := by
  have hexec : (machine.exec LinesFit create
      [.owner, .owner, .thread, .thread, .owner, .thread, .append 1 [104], .thread, .thread, .wake,
        .thread, .thread, .append 2 [105], .thread]).map
        (fun w => decide (w.pc = .recycle ∧ w.newBuffer1 = none)) = some true := by
    decide +kernel
  obtain ⟨w, hr, hp⟩ := Machine.exec_reachable rfl hexec
  obtain ⟨hpc, hnone⟩ := of_decide_eq_true hp
  obtain ⟨hfault, hcurrent, -, -, hrecycle, -⟩ := buffers_in_place hr
  exact ⟨w, hr, hpc, hnone, (hrecycle hpc).1 hnone, hfault, hcurrent⟩

end AsyncLogging

end Windz
