import Windz.Lib.Logged
import Windz.Util.Config

/-!
# Where `Parse` moves the `LineParser`

`parseLineLogged` is the body of the loop in `Parse` with a log: each call it makes on
the `LineParser`, with `line_` before the call and behind it. The array holds a line up to its NUL
and anything behind that. Two runs are compared, on arrays that agree up to the NUL: they
are one and the same, so nothing behind the NUL is read, and in it each call returns
with `line_` at the NUL or before it.

`Skip` looks at nothing, so what keeps it on the line is what the calls before it have found.
-/

namespace Windz

open Lib Config

/-! ## The log -/

/-- A call of `Parse` on its `LineParser`, or the restoring of its copy. -/
inductive ParserCall where
  | peek
  | skip (n : Nat)
  | matchChar (c : UInt8)
  | till (c : UInt8)
  | tillEnd
  | tillSpace
  | restore
deriving DecidableEq

/-- A call made at `before`; `after` is where it leaves `line_`, if it returns. -/
structure Visit where
  /-- The function. -/
  made : ParserCall
  /-- `line_` when it is called. -/
  before : Nat
  /-- `line_` when it returns. -/
  after : Option Nat
deriving DecidableEq

namespace ParserCall

variable {α : Type}

/-- A call that gives something. -/
def visit (c : ParserCall) (line_ : Nat) (r : Option (α × Nat)) : Logged Visit (α × Nat) :=
  ⟨[⟨c, line_, r.map (·.2)⟩], r⟩

/-- `Skip`, or the restoring of the copy: `line_` becomes `i`. -/
def move (c : ParserCall) (line_ i : Nat) : Logged Visit Nat := ⟨[⟨c, line_, some i⟩], some i⟩

/-- What `Parse` itself reads of the array. -/
def read (r : Option α) : Logged Visit α := ⟨[], r⟩

@[simp] theorem result_visit (c : ParserCall) (i : Nat) (r : Option (α × Nat)) :
    (visit c i r).result = r := rfl

@[simp] theorem result_move (c : ParserCall) (i j : Nat) : (move c i j).result = some j := rfl

@[simp] theorem result_read (r : Option α) : (read r).result = r := rfl

end ParserCall

namespace Config

open LineParser Logged ParserCall

/-- `parseName` with its calls. -/
def parseNameLogged (line : Bytes) (line_ : Nat) : Logged Visit (Bytes × Bool × Nat) := do
  let backup := line_
  let (name, line_) ← visit (.till equals) line_ (till line line_ equals)
  let (found, line_) ← visit (.matchChar equals) line_ (matchChar line line_ equals)
  if found then pure (name, true, line_)
  else
    let line_ ← move .restore line_ backup
    let (name, line_) ← visit (.till colon) line_ (till line line_ colon)
    let (found, line_) ← visit (.matchChar colon) line_ (matchChar line line_ colon)
    pure (name, found, line_)

/-- `parseLine` with its calls. -/
def parseLineLogged (line : Bytes) (s : ParseState) : Logged Visit ParseState := do
  let (c, line_) ← visit .peek 0 (peek line 0)
  if c = hash ∨ c = nul then pure s
  else if c = lbracket then
    let line_ ← move (.skip 1) line_ (skip line_ 1)
    let (sect, line_) ← visit (.till rbracket) line_ (till line line_ rbracket)
    let (found, _) ← visit (.matchChar rbracket) line_ (matchChar line line_ rbracket)
    pure { s with sect, error := !found, name := [] }
  else
    let first ← read (load line 0)
    if isspace first then
      if s.name = [] then pure { s with error := true }
      else
        let (value, _) ← visit .tillEnd line_ (tillEnd line line_)
        pure (s.store value)
    else
      let (name, found, line_) ← parseNameLogged line line_
      if found then
        let line_ ← move (.skip 1) line_ (skip line_ 1)
        let (value, _) ← visit .tillSpace line_ (tillSpace line line_)
        pure ({ s with name, error := false }.store value)
      else pure { s with name, error := true }

theorem parseNameLogged_result (line : Bytes) (line_ : Nat) :
    (parseNameLogged line line_).result = parseName line line_ := by
  unfold parseNameLogged parseName
  simp only [result_bind, result_visit, Option.bind_eq_bind]
  refine congrArg _ (funext fun p => congrArg _ (funext fun q => ?_))
  split
  · rfl
  · simp only [result_bind, result_visit, result_move, result_pure, Option.bind_some]

/-- The log changes nothing. -/
theorem parseLineLogged_result (line : Bytes) (s : ParseState) :
    (parseLineLogged line s).result = parseLine line s := by
  unfold parseLineLogged parseLine
  simp only [result_bind, result_visit, Option.bind_eq_bind]
  refine congrArg _ (funext fun p => ?_)
  split
  · rfl
  split
  · simp only [result_bind, result_visit, result_move, result_pure, Option.bind_some]
  simp only [result_bind, result_read]
  refine congrArg _ (funext fun first => ?_)
  split
  · split
    · rfl
    · simp only [result_bind, result_visit, result_pure]
  · simp only [result_bind, parseNameLogged_result]
    refine congrArg _ (funext fun q => ?_)
    split
    · simp only [result_bind, result_visit, result_move, result_pure, Option.bind_some]
    · rfl

end Config

/-! ## Calls on a line and its NUL -/

/-- The call is made on the line or at its NUL, which is at `n`, and returns there. -/
def Visit.Inside (n : Nat) (v : Visit) : Prop := v.before ≤ n ∧ ∃ j ≤ n, v.after = some j

namespace LineParser

variable {text : Bytes} {i : Nat}

theorem skipSpace_marked (hi : i ≤ text.length) :
    ∃ j, i ≤ j ∧ j ≤ text.length ∧ ∀ rest, skipSpace (text ++ nul :: rest) i = some j :=
  seek_marked _ (by decide) hi

/-- Behind the blanks is a character of the line, or its NUL. -/
theorem peek_marked (hi : i ≤ text.length) :
    ∃ c j, j ≤ text.length ∧ (c ≠ nul → j < text.length)
      ∧ ∀ rest, peek (text ++ nul :: rest) i = some (c, j) := by
  obtain ⟨j, _, hj, hskip⟩ := skipSpace_marked hi
  obtain ⟨c, hc, hload⟩ := load_marked (m := nul) hj
  refine ⟨c, j, hj, hc, fun rest => ?_⟩
  unfold peek
  rw [hskip rest]
  simp only [Option.bind_eq_bind, Option.bind_some]
  rw [hload rest]
  rfl

theorem matchChar_marked {c : UInt8} (hc : c ≠ nul) (hi : i ≤ text.length) :
    ∃ b j, j ≤ text.length ∧ (b = true → j < text.length)
      ∧ ∀ rest, matchChar (text ++ nul :: rest) i c = some (b, j) := by
  obtain ⟨j, _, hj, hskip⟩ := skipSpace_marked hi
  obtain ⟨d, hd, hload⟩ := load_marked (m := nul) hj
  refine ⟨decide (d = c), j, hj, fun hb => ?_, fun rest => ?_⟩
  · -- what is found is not the NUL
    rw [decide_eq_true_iff] at hb
    rw [hb] at hd
    exact hd hc
  · unfold matchChar
    rw [hskip rest]
    simp only [Option.bind_eq_bind, Option.bind_some]
    rw [hload rest]
    rfl

theorem strip_marked {first last : Nat} (hle : first ≤ last) (hlast : last ≤ text.length) :
    ∃ s, ∀ rest, strip (text ++ nul :: rest) first last = some s := by
  obtain ⟨s, hslice⟩ := slice_marked (m := nul) hle hlast
  refine ⟨trim isspace s, fun rest => ?_⟩
  unfold strip
  rw [hslice rest]
  rfl

theorem till_marked (c : UInt8) (hi : i ≤ text.length) :
    ∃ s j, j ≤ text.length ∧ ∀ rest, till (text ++ nul :: rest) i c = some (s, j) := by
  obtain ⟨first, _, hfirst, hskip⟩ := skipSpace_marked hi
  obtain ⟨last, hle, hlast, hseek⟩ :=
    seek_marked (fun b => decide (b = nul ∨ b = c)) (m := nul) (by simp) hfirst
  obtain ⟨b, _, hload⟩ := load_marked (m := nul) hlast
  obtain ⟨s, hstrip⟩ := strip_marked hle hlast
  by_cases hb : b = c
  · refine ⟨s, last, hlast, fun rest => ?_⟩
    unfold till
    rw [hskip rest]
    simp only [Option.bind_eq_bind, Option.bind_some]
    rw [hseek rest]
    simp only [Option.bind_some]
    rw [hload rest]
    simp only [Option.bind_some]
    rw [if_neg (not_not_intro hb), hstrip rest]
    rfl
  · refine ⟨[], first, hfirst, fun rest => ?_⟩
    unfold till
    rw [hskip rest]
    simp only [Option.bind_eq_bind, Option.bind_some]
    rw [hseek rest]
    simp only [Option.bind_some]
    rw [hload rest]
    simp only [Option.bind_some]
    rw [if_pos hb]

theorem tillBlank_marked (ends : UInt8 → Bool) (hi : i ≤ text.length) :
    ∃ s j, j ≤ text.length ∧ ∀ rest, tillBlank (text ++ nul :: rest) i ends = some (s, j) := by
  obtain ⟨first, _, hfirst, hskip⟩ := skipSpace_marked hi
  obtain ⟨last, hle, hlast, hseek⟩ :=
    seek_marked (fun b => decide (b = nul ∨ isspace b ∨ ends b)) (m := nul) (by simp) hfirst
  obtain ⟨s, hstrip⟩ := strip_marked hle hlast
  refine ⟨s, last, hlast, fun rest => ?_⟩
  unfold tillBlank
  rw [hskip rest]
  simp only [Option.bind_eq_bind, Option.bind_some]
  rw [hseek rest]
  simp only [Option.bind_some]
  rw [hstrip rest]
  rfl

end LineParser

namespace Config

open LineParser Logged ParserCall

variable {text : Bytes} {i : Nat}

/-- A call that returns on the line, whatever is behind its NUL. -/
theorem visit_agree {α : Type} {P : α × Nat → Prop} {r : Bytes → Option (α × Nat)}
    (c : ParserCall) (junk : Bytes) (hi : i ≤ text.length)
    (h : ∃ a j, j ≤ text.length ∧ P (a, j) ∧ ∀ rest, r (text ++ nul :: rest) = some (a, j)) :
    Agree (Visit.Inside text.length) P (visit c i (r (text ++ nul :: junk)))
      (visit c i (r (text ++ [nul]))) := by
  obtain ⟨a, j, hj, hpost, hr⟩ := h
  rw [hr junk, hr []]
  refine ⟨rfl, fun v hv => ?_, (a, j), rfl, hpost⟩
  rw [List.mem_singleton.mp hv]
  exact ⟨hi, j, hj, rfl⟩

theorem move_agree {P : Nat → Prop} {j : Nat} (c : ParserCall) (hi : i ≤ text.length)
    (hj : j ≤ text.length) (hpost : P j) :
    Agree (Visit.Inside text.length) P (move c i j) (move c i j) := by
  refine ⟨rfl, fun v hv => ?_, j, rfl, hpost⟩
  rw [List.mem_singleton.mp hv]
  exact ⟨hi, j, hj, rfl⟩

/-- A separator that is found is on the line, so that `Skip` can pass it. -/
theorem parseNameLogged_agree (junk : Bytes) (hi : i ≤ text.length) :
    Agree (Visit.Inside text.length) (fun p => p.2.1 = true → p.2.2 < text.length)
      (parseNameLogged (text ++ nul :: junk) i) (parseNameLogged (text ++ [nul]) i) := by
  have htill : ∀ c, ∃ (s : Bytes) (j : Nat), j ≤ text.length ∧ (j ≤ text.length)
      ∧ ∀ rest, till (text ++ nul :: rest) i c = some (s, j) := by
    intro c
    obtain ⟨s, j, hj, hs⟩ := till_marked c hi
    exact ⟨s, j, hj, hj, hs⟩
  unfold parseNameLogged
  refine (visit_agree (r := fun line => till line i equals) (P := fun p => p.2 ≤ text.length)
    _ junk hi (htill equals)).bind fun p hp => ?_
  refine (visit_agree (r := fun line => matchChar line p.2 equals)
    (P := fun q => q.2 ≤ text.length ∧ (q.1 = true → q.2 < text.length)) _ junk hp ?_).bind
    fun q hq => ?_
  · obtain ⟨b, j, hj, hb, hs⟩ := matchChar_marked (c := equals) (by decide) hp
    exact ⟨b, j, hj, ⟨hj, hb⟩, hs⟩
  dsimp only
  split
  · rename_i hfound
    exact .pure fun _ => hq.2 hfound
  · refine (move_agree (P := fun k => k = i) _ hq.1 hi rfl).bind fun k hk => ?_
    rw [hk]
    refine (visit_agree (r := fun line => till line i colon) (P := fun p => p.2 ≤ text.length)
      _ junk hi (htill colon)).bind fun p' hp' => ?_
    refine (visit_agree (r := fun line => matchChar line p'.2 colon)
      (P := fun q => q.1 = true → q.2 < text.length) _ junk hp' ?_).bind fun q' hq' => .pure hq'
    obtain ⟨b, j, hj, hb, hs⟩ := matchChar_marked (c := colon) (by decide) hp'
    exact ⟨b, j, hj, hb, hs⟩

theorem parseLineLogged_agree (text junk : Bytes) (s : ParseState) :
    Agree (Visit.Inside text.length) (fun _ => True) (parseLineLogged (text ++ nul :: junk) s)
      (parseLineLogged (text ++ [nul]) s) := by
  unfold parseLineLogged
  refine (visit_agree (r := fun line => peek line 0)
    (P := fun p => p.2 ≤ text.length ∧ (p.1 ≠ nul → p.2 < text.length)) _ junk
    (Nat.zero_le _) ?_).bind fun p hp => ?_
  · obtain ⟨c, j, hj, hc, hs⟩ := peek_marked (Nat.zero_le text.length)
    exact ⟨c, j, hj, ⟨hj, hc⟩, hs⟩
  dsimp only
  split
  · exact .pure trivial
  split
  · -- `[` is not the NUL, so `Skip` stays on the line
    rename_i hbracket
    have hlt : p.2 < text.length := hp.2 (by rw [hbracket]; decide)
    refine (move_agree (P := fun k => k ≤ text.length) _ hp.1 hlt hlt).bind fun k hk => ?_
    refine (visit_agree (r := fun line => till line k rbracket)
      (P := fun q => q.2 ≤ text.length) _ junk hk ?_).bind fun q hq => ?_
    · obtain ⟨t, j, hj, hs⟩ := till_marked rbracket hk
      exact ⟨t, j, hj, hj, hs⟩
    refine (visit_agree (r := fun line => matchChar line q.2 rbracket) (P := fun _ => True)
      _ junk hq ?_).bind fun q' _ => .pure trivial
    obtain ⟨b, j, hj, _, hs⟩ := matchChar_marked (c := rbracket) (by decide) hq
    exact ⟨b, j, hj, trivial, hs⟩
  obtain ⟨first, _, hfirst⟩ := load_marked (m := nul) (Nat.zero_le text.length)
  rw [hfirst junk, hfirst []]
  refine (show Agree _ (fun _ => True) (read (some first)) (read (some first)) from
    ⟨rfl, fun _ hv => absurd hv List.not_mem_nil, first, rfl, trivial⟩).bind fun b _ => ?_
  split
  · split
    · exact .pure trivial
    · refine (visit_agree (r := fun line => tillEnd line p.2) (P := fun _ => True) _ junk hp.1
        ?_).bind fun q _ => .pure trivial
      obtain ⟨t, j, hj, hs⟩ := tillBlank_marked (fun b => b = hash) hp.1
      exact ⟨t, j, hj, trivial, hs⟩
  refine (parseNameLogged_agree junk hp.1).bind fun q hq => ?_
  split
  · rename_i hfound
    have hlt := hq hfound
    refine (move_agree (P := fun k => k ≤ text.length) _ (Nat.le_of_lt hlt) hlt hlt).bind
      fun k hk => ?_
    refine (visit_agree (r := fun line => tillSpace line k) (P := fun _ => True) _ junk hk
      ?_).bind fun q' _ => .pure trivial
    obtain ⟨t, j, hj, hs⟩ := tillBlank_marked (fun _ => false) hk
    exact ⟨t, j, hj, trivial, hs⟩
  · exact .pure trivial

/-- Each line is taken apart. -/
theorem parseLine_total (text : Bytes) (s : ParseState) :
    ∃ s', parseLine (text ++ [nul]) s = some s' := by
  obtain ⟨s', hs, _⟩ := (parseLineLogged_agree text [] s).returns
  rw [parseLineLogged_result] at hs
  exact ⟨s', hs⟩

/-- **Each call stays on the line.** For every line up to its NUL, whatever the array holds behind
it, and every section and name: the calls that `Parse` makes on its `LineParser` are those it makes
when nothing is behind the NUL, so that no position there is read; each of them is made with `line_`
on the line or at its NUL and returns with `line_` there; and the pass gives what `Parse` goes on
with. -/
theorem calls_stay_on_line (text junk : Bytes) (s : ParseState) :
    parseLineLogged (text ++ nul :: junk) s = parseLineLogged (text ++ [nul]) s
      ∧ (∀ v ∈ (parseLineLogged (text ++ nul :: junk) s).log, v.before ≤ text.length
          ∧ ∃ j ≤ text.length, v.after = some j)
      ∧ ∃ s', (parseLineLogged (text ++ nul :: junk) s).result = some s'
          ∧ parseLine (text ++ nul :: junk) s = some s' := by
  have hagree := parseLineLogged_agree text junk s
  refine ⟨hagree.same, fun v hv => hagree.log v hv, ?_⟩
  obtain ⟨s', hs, _⟩ := hagree.returns
  rw [← parseLineLogged_result, hs]
  exact ⟨s', rfl, rfl⟩

/-- `a:b`: `=` is looked for up to the NUL, and the copy is restored. -/
example : (parseLineLogged [97, 58, 98, 0] ⟨1, [], [], false, create⟩).log
    = [⟨.peek, 0, some 0⟩, ⟨.till equals, 0, some 0⟩, ⟨.matchChar equals, 0, some 0⟩,
      ⟨.restore, 0, some 0⟩, ⟨.till colon, 0, some 1⟩, ⟨.matchChar colon, 1, some 1⟩,
      ⟨.skip 1, 1, some 2⟩, ⟨.tillSpace, 2, some 3⟩] := by decide +kernel

end Config

end Windz
