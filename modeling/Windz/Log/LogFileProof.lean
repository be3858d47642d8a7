import Windz.Log.LogFile

/-!
# The files of a `LogFile`

Three times, a count and a file change together. The invariant says which of them are
equal and which only bound each other; that every time it mentions was read from the
clock, and so lies behind whatever is read next, is what makes `RollFile` roll when the
day has changed.
-/

namespace Windz

open Lib

namespace LogFile

variable {clock : Nat → Int} {memory : Int64} {w : LogFile} {f : AppendFile}

/-- `time` never gives less than it gave before. -/
def NeverBack (clock : Nat → Int) : Prop := ∀ ⦃j k : Nat⦄, j ≤ k → clock j ≤ clock k

/-! ## One operation at a time -/

/-- `RollFile` opens a file, unless the clock stands in the second of the last roll or before. -/
theorem rollFile_cases (clock : Nat → Int) (memory : Int64) (w : LogFile) :
    (w.lastRoll < clock w.reads ∧ (rollFile clock memory w).2 = { w with
        reads := w.reads + 1, lastRoll := clock w.reads, lastFlush := clock w.reads
        startOfDay := startOf (clock w.reads), file := some (.create memory (clock w.reads))
        closed := w.closed ++ w.file.toList })
    ∨ (clock w.reads ≤ w.lastRoll
      ∧ (rollFile clock memory w).2 = { w with reads := w.reads + 1 }) := by
  unfold rollFile
  dsimp only
  by_cases hlt : w.lastRoll < clock w.reads
  · rw [if_pos hlt]
    exact .inl ⟨hlt, rfl⟩
  · rw [if_neg hlt]
    exact .inr ⟨by omega, rfl⟩

/-- What an append does behind the write to the file `f`. -/
inductive Appended (clock : Nat → Int) (a : LogCall) (w : LogFile) (f : AppendFile) :
    AppendOutcome → LogFile → Prop where
  | sizeRoll (hsize : w.rollSize < a.writtenByte f) :
      Appended clock a w f .sizeRoll (rollFile clock a.memory { w with file := some f }).2
  | counted (hsize : ¬ w.rollSize < a.writtenByte f) (hcount : w.count + 1 < w.checkEveryN) :
      Appended clock a w f .counted { w with file := some f, count := w.count + 1 }
  | newDay (hsize : ¬ w.rollSize < a.writtenByte f)
      (hday : startOf (clock w.reads) ≠ w.startOfDay) :
      Appended clock a w f (.checked (clock w.reads)) (rollFile clock a.memory
        { w with file := some f, count := 0, reads := w.reads + 1 }).2
  | flushed (hsize : ¬ w.rollSize < a.writtenByte f)
      (hday : startOf (clock w.reads) = w.startOfDay)
      (hflush : w.flushInterval ≤ clock w.reads - w.lastFlush) :
      Appended clock a w f (.checked (clock w.reads)) { w with
        file := some (f.flush (clock w.reads)), count := 0, reads := w.reads + 1
        lastFlush := clock w.reads }
  | recent (hsize : ¬ w.rollSize < a.writtenByte f)
      (hday : startOf (clock w.reads) = w.startOfDay)
      (hrecent : clock w.reads - w.lastFlush < w.flushInterval) :
      Appended clock a w f (.checked (clock w.reads))
        { w with file := some f, count := 0, reads := w.reads + 1 }

theorem append_cases {a : LogCall} {outcome : AppendOutcome} {w' : LogFile}
    (hf : w.file = some f) (h : appendUnlocked clock a w = some (outcome, w')) :
    Appended clock a w (f.append a.fwrite a.line) outcome w' := by
  rw [appendUnlocked, hf, Option.map_some, Option.some.injEq] at h
  dsimp only at h
  split at h
  · rename_i hsize
    cases h
    exact .sizeRoll hsize
  · rename_i hsize
    split at h
    · rename_i hcheck
      unfold checkTime at h
      dsimp only at h
      split at h
      · rename_i hday
        cases h
        exact .newDay hsize hday
      · rename_i hday
        split at h
        · rename_i hflush
          cases h
          exact .flushed hsize (not_not.mp hday) hflush
        · rename_i hflush
          cases h
          exact .recent hsize (not_not.mp hday) (by omega)
    · rename_i hcount
      cases h
      exact .counted hsize (by omega)

/-! ## The invariant -/

/-- The times of a `LogFile` with the file `f`. -/
structure Inv (clock : Nat → Int) (w : LogFile) (f : AppendFile) : Prop where
  file : w.file = some f
  /-- The current file was opened by the last roll. -/
  opened : f.openedAt = w.lastRoll
  positive : 0 < w.lastRoll
  day : w.startOfDay = startOf w.lastRoll
  /-- It was last flushed, or opened, at `last_flush_`. -/
  flushed : w.lastFlush ∈ f.openedAt :: f.flushes
  roll_le_flush : w.lastRoll ≤ w.lastFlush
  /-- The clock has passed both. -/
  past : ∀ k, w.reads ≤ k → w.lastFlush ≤ clock k
  count_nonneg : 0 ≤ w.count
  count_lt : w.count < w.checkEveryN
  /-- At most one file is opened in a second. -/
  order : (w.closed ++ [f]).Pairwise fun g h => g.openedAt < h.openedAt

theorem Inv.older (h : Inv clock w f) : ∀ g ∈ w.closed ++ [f], g.openedAt ≤ w.lastRoll := by
  intro g hg
  rcases List.mem_append.mp hg with hg | hg
  · have hlt := (List.pairwise_append.mp h.order).2.2 g hg f List.mem_cons_self
    have := h.opened
    omega
  · rw [List.mem_singleton.mp hg]
    exact Int.le_of_eq h.opened

/-- The current file may be written to and flushed. -/
theorem Inv.reorder (h : Inv clock w f) {f' : AppendFile} (he : f'.openedAt = f.openedAt) :
    (w.closed ++ [f']).Pairwise fun g h => g.openedAt < h.openedAt := by
  have horder := h.order
  rw [List.pairwise_append] at horder ⊢
  refine ⟨horder.1, List.pairwise_singleton _ _, fun g hg g' hg' => ?_⟩
  rw [List.mem_singleton.mp hg', he]
  exact horder.2.2 g hg f List.mem_cons_self

/-- Writing to the file changes no time. -/
theorem Inv.append (h : Inv clock w f) (fwrite : Nat → Nat) (line : List UInt8) :
    Inv clock { w with file := some (f.append fwrite line) } (f.append fwrite line) where
  file := rfl
  opened := h.opened
  positive := h.positive
  day := h.day
  flushed := h.flushed
  roll_le_flush := h.roll_le_flush
  past := h.past
  count_nonneg := h.count_nonneg
  count_lt := h.count_lt
  order := h.reorder rfl

/-- What a roll leaves. -/
theorem Inv.roll (hmono : NeverBack clock) (h : Inv clock w f) (memory : Int64) :
    ∃ f', Inv clock (rollFile clock memory w).2 f'
      ∧ ((w.lastRoll < clock w.reads ∧ f' = .create memory (clock w.reads)
          ∧ (rollFile clock memory w).2.closed = w.closed ++ [f])
        ∨ (clock w.reads ≤ w.lastRoll ∧ f' = f
          ∧ (rollFile clock memory w).2.closed = w.closed)) := by
  rcases rollFile_cases clock memory w with ⟨hlt, he⟩ | ⟨hle, he⟩
  · rw [h.file] at he
    rw [he]
    refine ⟨.create memory (clock w.reads), ?_, .inl ⟨hlt, rfl, rfl⟩⟩
    have hpositive := h.positive
    exact
      { file := rfl
        opened := rfl
        positive := Int.lt_trans hpositive hlt
        day := rfl
        flushed := List.mem_cons_self
        roll_le_flush := Int.le_refl _
        past := fun k hk => hmono (Nat.le_of_succ_le hk)
        count_nonneg := h.count_nonneg
        count_lt := h.count_lt
        order := by
          refine List.pairwise_append.mpr ⟨h.order, List.pairwise_singleton _ _, ?_⟩
          intro g hg g' hg'
          rw [List.mem_singleton.mp hg']
          exact Int.lt_of_le_of_lt (h.older g hg) hlt }
  · rw [he]
    refine ⟨f, ?_, .inr ⟨hle, rfl, rfl⟩⟩
    exact { h with past := fun k hk => h.past k (Nat.le_of_succ_le hk) }

/-- The count begins again with a reading of the clock. -/
theorem Inv.reset (h : Inv clock w f) : Inv clock { w with count := 0, reads := w.reads + 1 } f :=
  { h with
    past := fun k hk => h.past k (Nat.le_of_succ_le hk)
    count_nonneg := Int.le_refl 0
    count_lt := Int.lt_of_le_of_lt h.count_nonneg h.count_lt }

/-- The periodic flush. -/
theorem Inv.flush (hmono : NeverBack clock) (h : Inv clock w f) :
    Inv clock { w with
      file := some (f.flush (clock w.reads)), count := 0, reads := w.reads + 1
      lastFlush := clock w.reads } (f.flush (clock w.reads)) where
  file := rfl
  opened := h.opened
  positive := h.positive
  day := h.day
  flushed := List.mem_cons_of_mem _ (List.mem_append_right _ List.mem_cons_self)
  roll_le_flush := Int.le_trans h.roll_le_flush (h.past _ (Nat.le_refl _))
  past := fun _ hk => hmono (Nat.le_of_succ_le hk)
  count_nonneg := Int.le_refl 0
  count_lt := Int.lt_of_le_of_lt h.count_nonneg h.count_lt
  order := h.reorder rfl

/-! ## Days -/

theorem startOf_eq {t : Int} (h : 0 < t) : startOf t = t - t % kRollPerSeconds := by
  have hmod := Int.mul_ediv_add_emod t kRollPerSeconds
  rw [startOf, Int.tdiv_eq_ediv_of_nonneg (Int.le_of_lt h), Int.mul_comm]
  omega

theorem day_eq {t u : Int} (ht : 0 < t) (hu : 0 < u) (h : startOf t = startOf u) :
    t / kRollPerSeconds = u / kRollPerSeconds := by
  unfold startOf at h
  rw [Int.tdiv_eq_ediv_of_nonneg (Int.le_of_lt ht),
    Int.tdiv_eq_ediv_of_nonneg (Int.le_of_lt hu)] at h
  exact Int.eq_of_mul_eq_mul_right (by decide) h

/-! ## One append -/

/-- What holds of the current file when an append has checked the time and read `now`. -/
def FileFresh (w w' : LogFile) (f' : AppendFile) (now : Int) : Prop :=
  now / kRollPerSeconds ≤ f'.openedAt / kRollPerSeconds
  ∧ ((now ≤ f'.openedAt ∧ f'.lines = [] ∧ w'.closed.length = w.closed.length + 1)
    ∨ (∃ f, w.file = some f ∧ f'.flushes = f.flushes ++ [now])
    ∨ ∃ t ∈ f'.openedAt :: f'.flushes, now - t < w.flushInterval)

/-- **One append** keeps the invariant, and leaves a fresh file when it checks the time. -/
theorem Inv.step (hmono : NeverBack clock) (hpos : ∀ k, 0 < clock k) (h : Inv clock w f)
    {a : LogCall} {outcome : AppendOutcome} {w' : LogFile}
    (hs : appendUnlocked clock a w = some (outcome, w')) :
    ∃ f', Inv clock w' f'
      ∧ ((w'.closed = w.closed ∧ f'.lines = (f.append a.fwrite a.line).lines
          ∧ f'.stream = (f.append a.fwrite a.line).stream)
        ∨ (w'.closed = w.closed ++ [f.append a.fwrite a.line] ∧ f'.lines = [] ∧ f'.stream = []))
      ∧ ∀ now, outcome = .checked now → FileFresh w w' f' now := by
  have happend := h.append a.fwrite a.line
  cases append_cases h.file hs with
  | sizeRoll hsize =>
    obtain ⟨f', hinv, hroll⟩ := happend.roll hmono a.memory
    refine ⟨f', hinv, ?_, fun now hnow => by cases hnow⟩
    rcases hroll with ⟨-, he, hclosed⟩ | ⟨-, he, hclosed⟩
    · exact .inr ⟨hclosed, by rw [he]; rfl, by rw [he]; rfl⟩
    · exact .inl ⟨hclosed, by rw [he], by rw [he]⟩
  | counted hsize hcount =>
    have hnonneg := h.count_nonneg
    refine ⟨_, { happend with count_nonneg := ?_, count_lt := hcount }, .inl ⟨rfl, rfl, rfl⟩,
      fun now hnow => by cases hnow⟩
    dsimp only
    omega
  | newDay hsize hday =>
    obtain ⟨f', hinv, hroll⟩ := happend.reset.roll hmono a.memory
    have hle : clock w.reads ≤ clock (w.reads + 1) := hmono (Nat.le_succ _)
    rcases hroll with ⟨hlt, he, hclosed⟩ | ⟨hle', -, -⟩
    · refine ⟨f', hinv, .inr ⟨hclosed, by rw [he]; rfl, by rw [he]; rfl⟩, ?_⟩
      intro now hnow
      cases hnow
      rw [he]
      refine ⟨Int.ediv_le_ediv (by decide) hle, .inl ⟨hle, rfl, ?_⟩⟩
      rw [hclosed, List.length_append, List.length_singleton]
    · -- the clock has passed the last roll, so a refusal means that no second has gone by
      have hpast := h.past w.reads (Nat.le_refl _)
      have hflush := h.roll_le_flush
      have hnow : clock w.reads = w.lastRoll := by
        have hle'' : clock (w.reads + 1) ≤ w.lastRoll := hle'
        omega
      rw [hnow, h.day] at hday
      exact absurd rfl hday
  | flushed hsize hday hflush =>
    have hflushed := happend.flush hmono
    refine ⟨_, hflushed, .inl ⟨rfl, rfl, rfl⟩, ?_⟩
    intro now hnow
    cases hnow
    refine ⟨?_, .inr (.inl ⟨f, h.file, rfl⟩)⟩
    rw [day_eq (hpos _) h.positive (hday.trans h.day), ← h.opened]
    exact Int.le_refl _
  | recent hsize hday hrecent =>
    refine ⟨_, happend.reset, .inl ⟨rfl, rfl, rfl⟩, ?_⟩
    intro now hnow
    cases hnow
    refine ⟨?_, .inr (.inr ⟨_, happend.flushed, hrecent⟩)⟩
    refine Int.le_of_eq ?_
    rw [happend.opened, day_eq (hpos _) h.positive (hday.trans h.day)]

/-! ## Runs -/

/-- Every write succeeds: the whole record is taken. -/
def Succeeds (_ : LogFile) (a : LogCall) : Prop := AppendFile.handed a.fwrite a.line = a.line

instance (w : LogFile) (a : LogCall) : Decidable (Succeeds w a) :=
  inferInstanceAs (Decidable (_ = _))

/-- The records of a run are in the files, whole and in order. -/
structure Holds (records : List (List UInt8)) (w : LogFile) (f : AppendFile) : Prop where
  records : (w.closed ++ [f]).flatMap AppendFile.lines = records
  whole : ∀ g ∈ w.closed ++ [f], g.stream = g.lines.flatten

section Run

variable {rollSize : Int64} {flushInterval checkEveryN : Int}

theorem create_inv (hmono : NeverBack clock) (hpos : ∀ k, 0 < clock k) (hn : 1 ≤ checkEveryN) :
    ∃ f, Inv clock (create clock rollSize flushInterval checkEveryN memory) f
      ∧ Holds [] (create clock rollSize flushInterval checkEveryN memory) f := by
  have hnew : create clock rollSize flushInterval checkEveryN memory
      = { rollSize, flushInterval, checkEveryN, count := 0, startOfDay := startOf (clock 0)
          lastRoll := clock 0, lastFlush := clock 0, file := some (.create memory (clock 0))
          reads := 1, closed := [] } := by
    rcases rollFile_cases clock memory { rollSize, flushInterval, checkEveryN, count := 0
                                         startOfDay := 0, lastRoll := 0, lastFlush := 0
                                         file := none, reads := 0, closed := [] }
      with ⟨-, he⟩ | ⟨hle, -⟩
    · exact he
    · exact absurd (hpos 0) (Int.not_lt.mpr hle)
  rw [hnew]
  refine ⟨.create memory (clock 0), ?_, rfl, by simp [AppendFile.create]⟩
  exact
    { file := rfl
      opened := rfl
      positive := hpos 0
      day := rfl
      flushed := List.mem_cons_self
      roll_le_flush := Int.le_refl _
      past := fun k _ => hmono (Nat.zero_le k)
      count_nonneg := Int.le_refl 0
      count_lt := hn
      order := List.pairwise_singleton _ _ }

/-- The configuration of a `LogFile`. -/
def Configured (rollSize : Int64) (flushInterval checkEveryN : Int) (w : LogFile) : Prop :=
  w.rollSize = rollSize ∧ w.flushInterval = flushInterval ∧ w.checkEveryN = checkEveryN

theorem rollFile_configured (h : Configured rollSize flushInterval checkEveryN w) :
    Configured rollSize flushInterval checkEveryN (rollFile clock memory w).2 := by
  rcases rollFile_cases clock memory w with ⟨-, he⟩ | ⟨-, he⟩
  · rw [he]
    exact h
  · rw [he]
    exact h

theorem Appended.configured {a : LogCall} {outcome : AppendOutcome} {w' : LogFile}
    (hs : Appended clock a w f outcome w')
    (h : Configured rollSize flushInterval checkEveryN w) :
    Configured rollSize flushInterval checkEveryN w' := by
  cases hs with
  | sizeRoll => exact rollFile_configured h
  | newDay => exact rollFile_configured h
  | counted => exact h
  | flushed => exact h
  | recent => exact h

/-- A write that succeeds puts the record behind those of its file. -/
theorem Holds.append {records : List (List UInt8)} (h : Holds records w f) {fwrite : Nat → Nat}
    {line : List UInt8} (hline : AppendFile.handed fwrite line = line) :
    (w.closed ++ [f.append fwrite line]).flatMap AppendFile.lines = records ++ [line]
      ∧ ∀ g ∈ w.closed ++ [f.append fwrite line], g.stream = g.lines.flatten := by
  have hrecords := h.records
  rw [List.flatMap_append, List.flatMap_singleton] at hrecords ⊢
  refine ⟨?_, fun g hg => ?_⟩
  · show _ ++ (f.lines ++ [line]) = _
    rw [← List.append_assoc, hrecords]
  · rcases List.mem_append.mp hg with hg | hg
    · exact h.whole g (List.mem_append_left _ hg)
    · rw [List.mem_singleton.mp hg]
      show f.stream ++ AppendFile.handed fwrite line = (f.lines ++ [line]).flatten
      rw [hline, h.whole f (List.mem_append_right _ List.mem_cons_self), List.flatten_append,
        List.flatten_singleton]

/-- **What holds after every run.** -/
theorem run_inv (hmono : NeverBack clock) (hpos : ∀ k, 0 < clock k) (hn : 1 ≤ checkEveryN)
    {as : List LogCall} (h : Run (machine clock rollSize flushInterval checkEveryN) Succeeds
      (create clock rollSize flushInterval checkEveryN memory) as w) :
    Configured rollSize flushInterval checkEveryN w
      ∧ ∃ f, Inv clock w f ∧ Holds (as.map LogCall.line) w f := by
  induction h with
  | nil => exact ⟨rollFile_configured ⟨rfl, rfl, rfl⟩, create_inv hmono hpos hn⟩
  | @tail as w w' a _ hok hs ih =>
    obtain ⟨hconfig, f, hinv, hholds⟩ := ih
    obtain ⟨⟨outcome, w''⟩, happend, rfl⟩ := Option.map_eq_some_iff.mp hs
    obtain ⟨f', hinv', hfiles, -⟩ := hinv.step hmono hpos happend
    refine ⟨(append_cases hinv.file happend).configured hconfig, f', hinv', ?_⟩
    obtain ⟨hrecords, hwhole⟩ := hholds.append hok
    rw [List.map_append, List.map_singleton]
    rcases hfiles with ⟨hclosed, hlines, hstream⟩ | ⟨hclosed, hlines, hstream⟩
    · -- still the same file, perhaps flushed
      constructor
      · rw [hclosed, List.flatMap_append, List.flatMap_singleton, hlines]
        rw [List.flatMap_append, List.flatMap_singleton] at hrecords
        exact hrecords
      · intro g hg
        rw [hclosed] at hg
        rcases List.mem_append.mp hg with hg | hg
        · exact hwhole g (List.mem_append_left _ hg)
        · rw [List.mem_singleton.mp hg, hlines, hstream]
          exact hwhole _ (List.mem_append_right _ List.mem_cons_self)
    · constructor
      · rw [hclosed, List.flatMap_append, List.flatMap_singleton, hlines, List.append_nil]
        exact hrecords
      · intro g hg
        rw [hclosed] at hg
        rcases List.mem_append.mp hg with hg | hg
        · exact hwhole g hg
        · rw [List.mem_singleton.mp hg, hlines, hstream]
          rfl

/--
**The law of a `LogFile`.**

Let the clock be positive and never go back, let every write succeed, and let `written_byte()` say
what it likes. After any appends: `start_of_day_` is `last_roll_` rounded down to a whole day, and
`last_roll_ <= last_flush_`; the records lie whole and in order in the files, which were opened in
different seconds; and `count_` is below `check_every_n_`. An append that checks the time leaves a
file that was opened on that day or later, and that was just opened, just flushed, or opened or
flushed less than `flush_interval_` seconds ago.
-/
theorem logFile_law (hmono : NeverBack clock) (hpos : ∀ k, 0 < clock k) (hn : 1 ≤ checkEveryN)
    {as : List LogCall} (h : Run (machine clock rollSize flushInterval checkEveryN) Succeeds
      (create clock rollSize flushInterval checkEveryN memory) as w) :
    Configured rollSize flushInterval checkEveryN w
    ∧ w.startOfDay = w.lastRoll - w.lastRoll % kRollPerSeconds
    ∧ w.lastRoll ≤ w.lastFlush
    ∧ (0 ≤ w.count ∧ w.count < checkEveryN)
    ∧ (∃ f, w.file = some f
        ∧ (w.closed ++ [f]).flatMap AppendFile.lines = as.map LogCall.line
        ∧ (∀ g ∈ w.closed ++ [f], g.stream = g.lines.flatten)
        ∧ (w.closed ++ [f]).Pairwise fun g h => g.openedAt < h.openedAt)
    ∧ ∀ a, ∃ outcome w', appendUnlocked clock a w = some (outcome, w')
        ∧ ∀ now, outcome = .checked now → ∃ f', w'.file = some f' ∧ FileFresh w w' f' now := by
  obtain ⟨hconfig, f, hinv, hholds⟩ := run_inv hmono hpos hn h
  refine ⟨hconfig, ?_, hinv.roll_le_flush, ⟨hinv.count_nonneg, ?_⟩,
    ⟨f, hinv.file, hholds.records, hholds.whole, hinv.order⟩, fun a => ?_⟩
  · rw [hinv.day, startOf_eq hinv.positive]
  · have hlt := hinv.count_lt
    rwa [hconfig.2.2] at hlt
  · have hs : (appendUnlocked clock a w).isSome := by
      rw [appendUnlocked, hinv.file]
      rfl
    obtain ⟨⟨outcome, w'⟩, hs⟩ := Option.isSome_iff_exists.mp hs
    obtain ⟨f', hinv', -, hfresh⟩ := hinv.step hmono hpos hs
    exact ⟨outcome, w', hs, fun now hnow => ⟨f', hinv'.file, hfresh now hnow⟩⟩

end Run

/-- A clock that goes three seconds from one reading to the next, shortly before midnight. -/
def lateClock (k : Nat) : Int := 86395 + 3 * k

theorem lateClock_mono : NeverBack lateClock := by
  intro j k hjk
  unfold lateClock
  omega

theorem lateClock_pos (k : Nat) : 0 < lateClock k := by
  unfold lateClock
  omega

/-- An append that takes all it is given, after which `written_byte()` says `written`. -/
def exampleCall (line : List UInt8) (written : Int64) : LogCall :=
  { line, fwrite := fun _ => 9, memory := 0, writtenByte := fun _ => written }

/-- The time is checked in the same day, then after midnight, and then the file is too large. -/
theorem logFile_law_small : ∃ w, Run (machine lateClock 10 4 1) Succeeds
    (create lateClock 10 4 1 7)
      [exampleCall [1, 2] 2, exampleCall [3] 3, exampleCall [4] 11] w
    ∧ (w.closed.map fun f => (f.openedAt, f.stream)) = [(86395, [1, 2, 3]), (86404, [4])]
    ∧ w.startOfDay = w.lastRoll - w.lastRoll % kRollPerSeconds ∧ w.lastRoll ≤ w.lastFlush := by
  have hexec : ((machine lateClock 10 4 1).exec Succeeds (create lateClock 10 4 1 7)
      [exampleCall [1, 2] 2, exampleCall [3] 3, exampleCall [4] 11]).map
        (fun w => decide ((w.closed.map fun f => (f.openedAt, f.stream))
          = [(86395, [1, 2, 3]), (86404, [4])])) = some true := by decide +kernel
  obtain ⟨w, hexec, hfiles⟩ := Option.map_eq_some_iff.mp hexec
  have hrun := Machine.exec_run _ hexec
  obtain ⟨-, hday, hle, -⟩ := logFile_law lateClock_mono lateClock_pos (by decide) hrun
  exact ⟨w, hrun, of_decide_eq_true hfiles, hday, hle⟩

end LogFile

end Windz
