import Windz.Log.Logger
import Windz.Log.LogStreamProof

/-!
# How a log record ends

The destructor streams the trailer in five operands, each of which is dropped on its
own when it does not fit: the line number when fewer than 32 bytes are free, the others
when they are longer than what is free. So with enough room the record ends with the
trailer, and otherwise what is left of it depends on the fill of the buffer.
`Kept` lists what can be left.
-/

namespace Windz

open Lib FixBuffer LogStream
open Integer (toInt)

namespace CallSite

/-- What the destructor means to append. -/
def trailer (site : CallSite) : List UInt8 :=
  text " - " ++ site.baseName ++ text ":" ++ decimal (toInt site.line) ++ text "\n"

theorem baseName_no_nul (site : CallSite) : cString site.baseName = site.baseName := by
  have hall : (cString site.filename).all (· ≠ nul) = true := List.all_takeWhile
  refine List.takeWhile_eq_self_iff.mpr fun c hc => ?_
  exact List.all_eq_true.mp hall c ((List.rtakeWhile_suffix _ _).subset hc)

end CallSite

namespace Logger

variable {F : FloatFormat} {site : CallSite} {free : Nat}

/-- What the trailer leaves in a stream with `free` bytes to spare. -/
def kept (F : FloatFormat) (site : CallSite) (free : Nat) : List UInt8 :=
  (accepted free (trailer F site)).flatMap Operand.render

/-- What operands leave in a stream with `free` bytes to spare. -/
abbrev rendered (free : Nat) (ops : List (Operand F)) : List UInt8 :=
  (accepted free ops).flatMap Operand.render

/-- A text in front of others. -/
theorem rendered_text {op : Operand F} {s : List UInt8} (hn : op.isNumber = false)
    (hs : op.render = s) (free : Nat) (ops : List (Operand F)) :
    rendered free (op :: ops)
      = if s.length < free then s ++ rendered (free - s.length) ops else rendered free ops := by
  unfold rendered
  rw [accepted, Operand.fits, hn, hs]
  by_cases hfit : s.length < free
  · simp [hfit, hs]
  · simp [hfit]

/-- A number in front of others. -/
theorem rendered_number {op : Operand F} {s : List UInt8} (hn : op.isNumber = true)
    (hs : op.render = s) (free : Nat) (ops : List (Operand F)) :
    rendered free (op :: ops)
      = if 32 ≤ free then s ++ rendered (free - s.length) ops else rendered free ops := by
  unfold rendered
  rw [accepted, Operand.fits, hn, hs]
  by_cases hfit : 32 ≤ free
  · simp [hfit, hs, kMaxNumericSize]
  · simp [hfit, kMaxNumericSize]

theorem rendered_nil (free : Nat) : rendered free ([] : List (Operand F)) = [] := rfl

/-- The last three operands. -/
def lastThree (F : FloatFormat) (site : CallSite) : List (Operand F) :=
  [.char ':'.toUInt8, .integer .int site.line, .char '\n'.toUInt8]

/-- What the last three leave: all of them fit, or the line number does not. -/
inductive LastThree (site : CallSite) (free : Nat) : List UInt8 → Prop where
  | whole (h : 33 ≤ free) :
      LastThree site free (text ":" ++ (decimal (toInt site.line) ++ text "\n"))
  | nothing (h : free = 1) : LastThree site free []
  | colon (h1 : 1 < free) (h33 : free < 33) : LastThree site free (text ":")
  | colonAndEnd (h1 : 1 < free) (h33 : free < 33) : LastThree site free (text ":\n")

theorem lastThree_cases (F : FloatFormat) (site : CallSite) {free : Nat} (hfree : 0 < free) :
    LastThree site free (rendered free (lastThree F site)) := by
  have hlen : (decimal (toInt site.line)).length ≤ 21 := decimal_length_le _
  have hend : ∀ n : Nat, rendered n ([.char '\n'.toUInt8] : List (Operand F))
      = if 1 < n then text "\n" else [] := fun n => by
    rw [rendered_text rfl rfl, rendered_nil, rendered_nil]
    rfl
  have hnumber : ∀ n : Nat, rendered n ([.integer .int site.line, .char '\n'.toUInt8]
      : List (Operand F)) = if 32 ≤ n then decimal (toInt site.line)
        ++ (if 1 < n - (decimal (toInt site.line)).length then text "\n" else [])
      else if 1 < n then text "\n" else [] := fun n => by
    rw [rendered_number rfl rfl, hend, hend]
    rfl
  unfold lastThree
  rw [rendered_text (s := text ":") rfl rfl, hnumber, hnumber,
    show (text ":").length = 1 from rfl]
  by_cases h1 : 1 < free
  · rw [if_pos h1]
    by_cases h32 : 32 ≤ free - 1
    · rw [if_pos h32, if_pos (by omega)]
      exact .whole (by omega)
    · rw [if_neg h32]
      by_cases h2 : 1 < free - 1
      · rw [if_pos h2]
        exact .colonAndEnd h1 (by omega)
      · rw [if_neg h2]
        exact .colon h1 (by omega)
  · rw [if_neg h1, if_neg (by omega), if_neg h1]
    exact .nothing (by omega)

/-- What is left when not all of the trailer fits ends like this, and then not as the trailer
does. -/
def Torn (left : List UInt8) : Prop :=
  ∃ front, left = front ++ text ":" ∨ left = front ++ text ":\n" ∨ left = front ++ text " "

/-- What is left of the trailer, by the number of bytes that are free. -/
inductive Kept (site : CallSite) (free : Nat) : List UInt8 → Prop where
  | whole (h : site.baseName.length + 36 ≤ free) : Kept site free site.trailer
  | nothing (h : free = 1) : Kept site free []
  | name (h : free = site.baseName.length + 1) (h3 : free ≤ 3) : Kept site free site.baseName
  | dashAndName (h : free = site.baseName.length + 4) :
      Kept site free (text " - " ++ site.baseName)
  | noName (h : 36 ≤ free) (hle : free ≤ site.baseName.length + 3) :
      Kept site free (text " - " ++ (text ":" ++ decimal (toInt site.line) ++ text "\n"))
  | torn {left : List UInt8} (hroom : free < site.baseName.length + 36) (h1 : free ≠ 1)
      (hname : ¬ (free = site.baseName.length + 1 ∧ free ≤ 3))
      (hdash : free ≠ site.baseName.length + 4)
      (hlong : ¬ (36 ≤ free ∧ free ≤ site.baseName.length + 3)) (h : Torn left) :
      Kept site free left

/-- Behind `front` the last three leave a colon, and perhaps the end of the line. -/
theorem torn_colon (front : List UInt8) : Torn (front ++ text ":") := ⟨front, .inl rfl⟩

theorem torn_end (front : List UInt8) : Torn (front ++ text ":\n") := ⟨front, .inr (.inl rfl)⟩

theorem kept_eq (F : FloatFormat) (site : CallSite) (free : Nat) :
    kept F site free
      = if 3 < free then text " - "
          ++ (if site.baseName.length < free - 3 then
              site.baseName ++ rendered (free - 3 - site.baseName.length) (lastThree F site)
            else rendered (free - 3) (lastThree F site))
        else if site.baseName.length < free then
          site.baseName ++ rendered (free - site.baseName.length) (lastThree F site)
        else rendered free (lastThree F site) := by
  have hbase : (.cstr (some site.baseName) : Operand F).render = site.baseName :=
    site.baseName_no_nul
  show rendered free _ = _
  unfold trailer
  rw [rendered_text (s := text " - ") rfl rfl, rendered_text rfl hbase, rendered_text rfl hbase]
  rfl

/-- **What is left of the trailer.** -/
theorem kept_cases (F : FloatFormat) (site : CallSite) {free : Nat} (hfree : 0 < free) :
    Kept site free (kept F site free) := by
  rw [kept_eq]
  by_cases h3 : 3 < free
  · rw [if_pos h3]
    by_cases hfit : site.baseName.length < free - 3
    · -- both names fit; what follows decides
      rw [if_pos hfit]
      have hthree := lastThree_cases F site (show 0 < free - 3 - site.baseName.length by omega)
      generalize rendered (free - 3 - site.baseName.length) (lastThree F site) = rest at hthree
      cases hthree with
      | whole h =>
        have he : text " - " ++ (site.baseName ++ (text ":" ++ (decimal (toInt site.line)
            ++ text "\n"))) = site.trailer := by
          simp only [CallSite.trailer, List.append_assoc]
        rw [he]
        exact .whole (by omega)
      | nothing h =>
        rw [List.append_nil]
        exact .dashAndName (by omega)
      | colon h1 h33 =>
        rw [← List.append_assoc]
        exact .torn (by omega) (by omega) (by omega) (by omega) (by omega) (torn_colon _)
      | colonAndEnd h1 h33 =>
        rw [← List.append_assoc]
        exact .torn (by omega) (by omega) (by omega) (by omega) (by omega) (torn_end _)
    · rw [if_neg hfit]
      have hthree := lastThree_cases F site (show 0 < free - 3 by omega)
      generalize rendered (free - 3) (lastThree F site) = rest at hthree
      cases hthree with
      | whole h =>
        rw [← List.append_assoc (text ":")]
        exact .noName (by omega) (by omega)
      | nothing h =>
        exact .torn (by omega) (by omega) (by omega) (by omega) (by omega)
          ⟨text " -", .inr (.inr rfl)⟩
      | colon h1 h33 =>
        exact .torn (by omega) (by omega) (by omega) (by omega) (by omega) (torn_colon _)
      | colonAndEnd h1 h33 =>
        exact .torn (by omega) (by omega) (by omega) (by omega) (by omega) (torn_end _)
  · rw [if_neg h3]
    by_cases hfit : site.baseName.length < free
    · rw [if_pos hfit]
      have hthree := lastThree_cases F site (show 0 < free - site.baseName.length by omega)
      generalize rendered (free - site.baseName.length) (lastThree F site) = rest at hthree
      cases hthree with
      | whole h => omega
      | nothing h =>
        rw [List.append_nil]
        exact .name (by omega) (by omega)
      | colon h1 h33 =>
        exact .torn (by omega) (by omega) (by omega) (by omega) (by omega) (torn_colon _)
      | colonAndEnd h1 h33 =>
        exact .torn (by omega) (by omega) (by omega) (by omega) (by omega) (torn_end _)
    · rw [if_neg hfit]
      have hthree := lastThree_cases F site hfree
      generalize rendered free (lastThree F site) = rest at hthree
      cases hthree with
      | whole h => omega
      | nothing h => exact .nothing h
      | colon h1 h33 =>
        exact .torn (by omega) (by omega) (by omega) (by omega) (by omega) (torn_colon [])
      | colonAndEnd h1 h33 =>
        exact .torn (by omega) (by omega) (by omega) (by omega) (by omega) (torn_end [])

/-! ## The end of the record -/

/-- The trailer ends with a digit and the end of the line. -/
theorem trailer_eq_concat (site : CallSite) :
    ∃ front c, site.trailer = front ++ [c] ++ ['\n'.toUInt8] ∧ c ≠ ':'.toUInt8 := by
  have hdigit : ∀ d < 10, decimalChar d ≠ ':'.toUInt8 := by decide
  have hlast := numeral_eq_concat (b := 10) (by decide) (toInt site.line).natAbs
  generalize (if (toInt site.line).natAbs / 10 = 0 then [] else _) = high at hlast
  refine ⟨text " - " ++ site.baseName ++ text ":" ++ sign (toInt site.line)
    ++ high.map decimalChar, _, ?_, hdigit _ (Nat.mod_lt (toInt site.line).natAbs (by decide))⟩
  rw [CallSite.trailer, decimal, hlast, List.map_append, List.map_singleton]
  simp only [List.append_assoc]
  rfl

theorem last_eq {s t : List UInt8} {a b : UInt8} (h : s ++ [a] = t ++ [b]) : s = t ∧ a = b := by
  obtain ⟨hfront, hlast⟩ := List.append_inj' h rfl
  exact ⟨hfront, List.singleton_inj.mp hlast⟩

theorem torn_not_suffix {content left : List UInt8} (h : Torn left) :
    ¬ site.trailer <:+ content ++ left := by
  rintro ⟨t, ht⟩
  obtain ⟨front, c, htrailer, hc⟩ := trailer_eq_concat site
  obtain ⟨front', he⟩ := h
  rw [htrailer, ← List.append_assoc, ← List.append_assoc] at ht
  rcases he with he | he | he
  · rw [he, show text ":" = [':'.toUInt8] from rfl, ← List.append_assoc] at ht
    exact absurd (last_eq ht).2 (by decide)
  · rw [he, show text ":\n" = [':'.toUInt8] ++ ['\n'.toUInt8] from rfl, ← List.append_assoc,
      ← List.append_assoc] at ht
    exact hc (last_eq (last_eq ht).1).2
  · rw [he, show text " " = [' '.toUInt8] from rfl, ← List.append_assoc] at ht
    exact absurd (last_eq ht).2 (by decide)

/-- Not all of the trailer fits, but what was streamed before happens to end so that it is there,
by itself or with the parts that still fit. -/
def Coincides (site : CallSite) (free : Nat) (content : List UInt8) : Prop :=
  (free = 1 ∧ site.trailer <:+ content)
  ∨ (free = site.baseName.length + 1 ∧ free ≤ 3 ∧ site.trailer <:+ content ++ site.baseName)
  ∨ (free = site.baseName.length + 4
    ∧ site.trailer <:+ content ++ (text " - " ++ site.baseName))
  ∨ (36 ≤ free ∧ free ≤ site.baseName.length + 3
    ∧ text " - " ++ site.baseName <:+ content ++ text " - ")

theorem suffix_append_right {s t r : List UInt8} : s ++ r <:+ t ++ r ↔ s <:+ t := by
  constructor
  · rintro ⟨u, hu⟩
    rw [← List.append_assoc] at hu
    exact ⟨u, List.append_cancel_right hu⟩
  · rintro ⟨u, hu⟩
    exact ⟨u, by rw [← List.append_assoc, hu]⟩

/-- **When a record ends with its trailer.** -/
theorem trailer_suffix_iff (hfree : 0 < free) (content : List UInt8) :
    site.trailer <:+ content ++ kept F site free
      ↔ site.baseName.length + 36 ≤ free ∨ Coincides site free content := by
  have hsplit : site.trailer = text " - " ++ site.baseName
      ++ (text ":" ++ decimal (toInt site.line) ++ text "\n") := by
    simp only [CallSite.trailer, List.append_assoc]
  have hempty : site.baseName.length = 0 → content ++ site.baseName = content := fun h => by
    rw [List.length_eq_zero_iff.mp h, List.append_nil]
  have hkept := kept_cases F site hfree
  unfold Coincides
  generalize kept F site free = left at hkept
  cases hkept with
  | whole hroom => exact ⟨fun _ => .inl hroom, fun _ => List.suffix_append _ _⟩
  | nothing h1 =>
    rw [List.append_nil]
    constructor
    · exact fun h => .inr (.inl ⟨h1, h⟩)
    · rintro (h | ⟨-, h⟩ | ⟨hb, -, h⟩ | ⟨hb, -⟩ | ⟨hb, -⟩)
      · omega
      · exact h
      · rwa [hempty (by omega)] at h
      · omega
      · omega
  | name hbase h3 =>
    constructor
    · exact fun h => .inr (.inr (.inl ⟨hbase, h3, h⟩))
    · rintro (h | ⟨h1, h⟩ | ⟨-, -, h⟩ | ⟨hb, -⟩ | ⟨hb, -⟩)
      · omega
      · rwa [hempty (by omega)]
      · exact h
      · omega
      · omega
  | dashAndName hbase =>
    constructor
    · exact fun h => .inr (.inr (.inr (.inl ⟨hbase, h⟩)))
    · rintro (h | ⟨h1, h⟩ | ⟨hb, -⟩ | ⟨-, h⟩ | ⟨hb, hle, -⟩)
      · omega
      · omega
      · omega
      · exact h
      · omega
  | noName h36 hle =>
    rw [hsplit, ← List.append_assoc content, suffix_append_right]
    constructor
    · exact fun h => .inr (.inr (.inr (.inr ⟨h36, hle, h⟩)))
    · rintro (h | ⟨h1, h⟩ | ⟨hb, h3, -⟩ | ⟨hb, -⟩ | ⟨-, -, h⟩)
      · omega
      · omega
      · omega
      · omega
      · exact h
  | torn hroom h1 hname hdash hlong htorn =>
    constructor
    · exact fun h => absurd h (torn_not_suffix htorn)
    · rintro (h | ⟨h, -⟩ | ⟨hb, h3, -⟩ | ⟨hb, -⟩ | ⟨hb, hle, -⟩)
      · omega
      · exact absurd h h1
      · exact absurd ⟨hb, h3⟩ hname
      · exact absurd hb hdash
      · exact absurd ⟨hb, hle⟩ hlong

/-- What comes out of a `Logger`. -/
theorem log_spec (hF : F.Short) {data : List UInt8} (hdata : data.length = kSmallBuffer)
    (site : CallSite) (env : Surroundings) (ops : List (Operand F)) :
    ∃ stream, fill data site env ops = some stream
      ∧ stream.content = rendered kSmallBuffer (header F site env ++ ops)
      ∧ stream.length = stream.content.length ∧ stream.length < kSmallBuffer
      ∧ log data site env ops
        = some (.output (stream.content ++ kept F site (kSmallBuffer - stream.length))
          :: if site.level = .fatal then [.flush, .abort] else []) := by
  have hs : kSmallBuffer < 2 ^ 64 := by decide
  have hinit : Memory.Valid kSmallBuffer (.create data) :=
    ⟨hdata, Nat.zero_lt_of_lt (show 32 < kSmallBuffer by decide)⟩
  obtain ⟨stream, hfill, hv, hc⟩ := puts_spec hF hs (header F site env ++ ops) hinit
  obtain ⟨stream', htrailer, hv', hc'⟩ := puts_spec hF hs (trailer F site) hv
  rw [hinit.avail_eq hs, show (Memory.create data).content = [] from rfl, List.nil_append,
    show (Memory.create data).cur = 0 from rfl, Nat.sub_zero] at hc
  rw [hv.avail_eq hs] at hc'
  have hcur : stream.length < kSmallBuffer := hv.room
  refine ⟨stream, hfill, hc, hv.content_length.symm, hcur, ?_⟩
  have hrecord : stream'.data.take stream'.length
      = stream.content ++ kept F site (kSmallBuffer - stream.length) := hc'
  unfold log fill destroy
  rw [hfill, Option.bind_some, htrailer, Option.map_some, hrecord]

/--
**A record ends with its trailer exactly when there is room for it.**

Whatever is streamed: when the destructor is entered with at least 36 bytes and the length of the
base name free, the record is what was streamed and the whole trailer. Otherwise some of the trailer
is dropped, and the record does not end with it unless what was streamed already does.
-/
theorem record_ends_iff (hF : F.Short) {data : List UInt8} (hdata : data.length = kSmallBuffer)
    (site : CallSite) (env : Surroundings) (ops : List (Operand F)) :
    ∃ stream record, fill data site env ops = some stream
      ∧ stream.content = rendered kSmallBuffer (header F site env ++ ops)
      ∧ stream.length = stream.content.length
      ∧ log data site env ops
        = some (.output record :: if site.level = .fatal then [.flush, .abort] else [])
      ∧ (site.trailer <:+ record
        ↔ stream.length + site.baseName.length + 36 ≤ kSmallBuffer
          ∨ Coincides site (kSmallBuffer - stream.length) stream.content)
      ∧ (stream.length + site.baseName.length + 36 ≤ kSmallBuffer →
        record = stream.content ++ site.trailer) := by
  obtain ⟨stream, hfill, hc, hlen, hroom, hlog⟩ := log_spec hF hdata site env ops
  have hfree : 0 < kSmallBuffer - stream.length := by omega
  refine ⟨stream, _, hfill, hc, hlen, hlog, ?_, fun hle => ?_⟩
  · rw [trailer_suffix_iff hfree]
    refine or_congr_left ?_
    omega
  · have hkept := kept_cases F site hfree
    generalize kept F site (kSmallBuffer - stream.length) = left at hkept
    cases hkept with
    | whole h => rfl
    | nothing h1 => omega
    | name hbase h3 => omega
    | dashAndName hbase => omega
    | noName h36 hle' => omega
    | torn hroom' h1 hname hdash hlong htorn => omega

/-- A call in `a.cpp`. -/
def exampleSite : CallSite :=
  { filename := text "src/a.cpp", line := 12, level := .info, func := none, savedErrno := 0 }

/-- The time and the thread of an example. -/
def exampleSurroundings : Surroundings :=
  { now := ⟨2024, 2, 29, 23, 59, 58, 7⟩, tid := 4242, strerror := [] }

theorem record_ends_iff_small :
    ∃ record, log (F := wholeNumbers) (List.replicate kSmallBuffer 7) exampleSite
        exampleSurroundings [.integer .int (-5 : Int32)] = some [.output record]
      ∧ text " - a.cpp:12\n" <:+ record := by
  obtain ⟨stream, record, -, hc, hlen, hlog, hiff, -⟩ := record_ends_iff wholeNumbers_short
    (List.length_replicate (a := (7 : UInt8)) (n := kSmallBuffer)) exampleSite exampleSurroundings
    [.integer .int (-5 : Int32)]
  refine ⟨record, hlog, ?_⟩
  rw [show text " - a.cpp:12\n" = exampleSite.trailer by decide +kernel]
  refine hiff.mpr (.inl ?_)
  rw [hlen, hc]
  decide +kernel

/-- With a string that fills the buffer the record has no end of line at all. -/
theorem full_record_has_no_end :
    ∃ record, log (F := wholeNumbers) (List.replicate kSmallBuffer 7) exampleSite
        exampleSurroundings [.string (List.replicate 3962 'x'.toUInt8)] = some [.output record]
      ∧ record.length = 3999 ∧ '\n'.toUInt8 ∉ record ∧ ¬ exampleSite.trailer <:+ record := by
  obtain ⟨stream, -, hc, hlen, -, hlog⟩ := log_spec wholeNumbers_short
    (List.length_replicate (a := (7 : UInt8)) (n := kSmallBuffer)) exampleSite exampleSurroundings
    [.string (List.replicate 3962 'x'.toUInt8)]
  have hfull : stream.length = 3999 := by
    rw [hlen, hc]
    decide +kernel
  have hnone : '\n'.toUInt8 ∉ stream.content ++ kept wholeNumbers exampleSite 1 := by
    rw [hc]
    decide +kernel
  rw [hfull] at hlog
  refine ⟨_, hlog, ?_, hnone, fun hsuffix => ?_⟩
  · rw [List.length_append, ← hlen, hfull]
    decide +kernel
  · exact hnone (hsuffix.subset (by decide +kernel))

end Logger

end Windz
