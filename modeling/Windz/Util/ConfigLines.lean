import Windz.Util.Config

/-!
# What `Parse` makes of a line

One lemma for each function of `LineParser`, for a line of which it is known what lies
behind `line_`, and from these what a pass of the loop does with each kind of line.
-/

namespace Windz

open Lib Config

theorem isspace_nul : isspace nul = false := by decide

theorem ne_of_isspace {b c : UInt8} (hb : isspace b = true) (hc : isspace c = false) : b ≠ c := by
  intro he
  rw [he, hc] at hb
  exact Bool.false_ne_true hb

namespace LineParser

variable {line s blanks rest : Bytes} {b c : UInt8} {i : Nat}

/-! ## The functions of `LineParser` -/

theorem skipSpace_eq (h : line.drop i = s ++ c :: rest) (hs : ∀ b ∈ s, isspace b = true)
    (hc : isspace c = false) : skipSpace line i = some (i + s.length) := by
  refine seek_eq h (fun b hb => ?_) ?_
  · rw [hs b hb]
    rfl
  · rw [hc]
    rfl

/-- Of any text, `SkipSpace` passes the blanks in front. -/
theorem skipSpace_takeWhile (h : line.drop i = s ++ c :: rest) (hc : isspace c = false) :
    skipSpace line i = some (i + (s.takeWhile isspace).length)
      ∧ line.drop (i + (s.takeWhile isspace).length) = s.dropWhile isspace ++ c :: rest := by
  have hsplit : line.drop i = s.takeWhile isspace ++ (s.dropWhile isspace ++ c :: rest) := by
    rw [← List.append_assoc, List.takeWhile_append_dropWhile]
    exact h
  have hblank : ∀ b ∈ s.takeWhile isspace, isspace b = true :=
    fun b hb => List.mem_takeWhile_imp hb
  refine ⟨?_, drop_add hsplit⟩
  cases hd : s.dropWhile isspace with
  | nil =>
    rw [hd] at hsplit
    exact skipSpace_eq hsplit hblank hc
  | cons d ds =>
    rw [hd] at hsplit
    exact skipSpace_eq hsplit hblank (not_of_dropWhile hd)

theorem peek_eq (h : line.drop i = s ++ c :: rest) (hs : ∀ b ∈ s, isspace b = true)
    (hc : isspace c = false) : peek line i = some (c, i + s.length) := by
  unfold peek
  rw [skipSpace_eq h hs hc]
  simp only [Option.bind_eq_bind, Option.bind_some]
  rw [load_eq (drop_add h)]
  rfl

theorem matchChar_eq (h : line.drop i = b :: rest) (hb : isspace b = false) (c : UInt8) :
    matchChar line i c = some (decide (b = c), i) := by
  unfold matchChar
  rw [skipSpace_eq (s := []) h (by simp) hb]
  simp only [Option.bind_eq_bind, Option.bind_some, List.length_nil, Nat.add_zero]
  rw [load_eq h]
  rfl

/-- Where the scan of `Till` begins and ends: behind blanks, at the character or the end. -/
theorem till_seek {d : UInt8} (h : line.drop i = s ++ d :: rest) (hs : ∀ b ∈ s, b ≠ nul ∧ b ≠ c)
    (hspace : isspace d = false) (hd : d = nul ∨ d = c) :
    ∃ first, skipSpace line i = some first
      ∧ line.drop first = s.dropWhile isspace ++ d :: rest
      ∧ seek (fun b => decide (b = nul ∨ b = c)) line first
        = some (first + (s.dropWhile isspace).length)
      ∧ first + (s.dropWhile isspace).length = i + s.length := by
  obtain ⟨hskip, hdrop⟩ := skipSpace_takeWhile h hspace
  have hsub : ∀ b ∈ s.dropWhile isspace, b ≠ nul ∧ b ≠ c :=
    fun b hb => hs b ((List.dropWhile_suffix _).subset hb)
  refine ⟨_, hskip, hdrop, seek_eq hdrop (fun b hb => ?_) (decide_eq_true hd), ?_⟩
  · exact decide_eq_false fun he => he.elim (hsub b hb).1 (hsub b hb).2
  · rw [Nat.add_assoc, ← List.length_append, List.takeWhile_append_dropWhile]

/-- `Till` of a character that is there. -/
theorem till_eq (h : line.drop i = s ++ c :: rest) (hs : ∀ b ∈ s, b ≠ nul ∧ b ≠ c)
    (hc : isspace c = false) : till line i c = some (trim isspace s, i + s.length) := by
  obtain ⟨first, hskip, hdrop, hseek, hlast⟩ := till_seek h hs hc (.inr rfl)
  unfold till strip
  rw [hskip]
  simp only [Option.bind_eq_bind, Option.bind_some]
  rw [hseek]
  simp only [Option.bind_some]
  rw [load_eq (drop_add hdrop), slice_eq hdrop]
  simp only [Option.bind_some, Option.map_some]
  rw [if_neg (by simp), trim_dropWhile, hlast]

/-- `Till` of a character that is not on the line, and `Match` behind it. -/
theorem till_missing (h : line.drop i = s ++ nul :: rest) (hs : ∀ b ∈ s, b ≠ nul ∧ b ≠ c)
    (hc : c ≠ nul) :
    ∃ j, till line i c = some ([], j) ∧ ∃ k, matchChar line j c = some (false, k) := by
  obtain ⟨first, hskip, hdrop, hseek, _⟩ := till_seek h hs isspace_nul (.inl rfl)
  refine ⟨first, ?_, ?_⟩
  · unfold till
    rw [hskip]
    simp only [Option.bind_eq_bind, Option.bind_some]
    rw [hseek]
    simp only [Option.bind_some]
    rw [load_eq (drop_add hdrop)]
    simp only [Option.bind_some]
    rw [if_pos hc.symm]
  · -- the first character behind the blanks is another one
    cases hd : s.dropWhile isspace with
    | nil =>
      rw [hd] at hdrop
      rw [matchChar_eq hdrop isspace_nul, decide_eq_false hc.symm]
      exact ⟨_, rfl⟩
    | cons d ds =>
      rw [hd] at hdrop
      have hmem : d ∈ s := (List.dropWhile_suffix _).subset (by rw [hd]; exact List.mem_cons_self)
      rw [matchChar_eq hdrop (not_of_dropWhile hd), decide_eq_false (hs d hmem).2]
      exact ⟨_, rfl⟩

/-- `TillEnd` and `TillSpace` of a text behind blanks. -/
theorem tillBlank_eq {ends : UInt8 → Bool} {a d : UInt8}
    (h : line.drop i = blanks ++ (a :: s) ++ d :: rest)
    (hblanks : ∀ b ∈ blanks, isspace b = true)
    (hs : ∀ b ∈ a :: s, b ≠ nul ∧ isspace b = false ∧ ends b = false)
    (hd : d = nul ∨ isspace d = true ∨ ends d = true) :
    tillBlank line i ends = some (a :: s, i + blanks.length + (a :: s).length) := by
  have hdrop : line.drop (i + blanks.length) = (a :: s) ++ d :: rest := by
    rw [List.append_assoc] at h
    exact drop_add h
  have hskip : skipSpace line i = some (i + blanks.length) := by
    rw [List.append_assoc] at h
    exact skipSpace_eq h hblanks (hs a List.mem_cons_self).2.1
  have hpass : ∀ b ∈ a :: s, decide (b = nul ∨ isspace b = true ∨ ends b = true) = false := by
    intro b hb
    obtain ⟨hnul, hspace, hends⟩ := hs b hb
    rw [hspace, hends]
    simp [hnul]
  have hseek := seek_eq hdrop hpass (decide_eq_true hd)
  unfold tillBlank strip
  rw [hskip]
  simp only [Option.bind_eq_bind, Option.bind_some]
  rw [hseek]
  simp only [Option.bind_some]
  rw [slice_eq hdrop]
  simp only [Option.bind_some, Option.map_some]
  rw [trim_eq_self fun b hb => (hs b hb).2.1]

/-- `TillEnd` and `TillSpace` of blanks up to the NUL. -/
theorem tillBlank_nil {ends : UInt8 → Bool} (h : line.drop i = blanks ++ nul :: rest)
    (hblanks : ∀ b ∈ blanks, isspace b = true) :
    tillBlank line i ends = some ([], i + blanks.length) := by
  have hdrop : line.drop (i + blanks.length) = [] ++ nul :: rest := drop_add h
  have hseek : seek (fun b => decide (b = nul ∨ isspace b = true ∨ ends b = true)) line
      (i + blanks.length) = some (i + blanks.length) :=
    seek_eq hdrop (by simp) (decide_eq_true (.inl rfl))
  have hslice : slice line (i + blanks.length) (i + blanks.length) = some [] := slice_eq hdrop
  unfold tillBlank strip
  rw [skipSpace_eq h hblanks isspace_nul]
  simp only [Option.bind_eq_bind, Option.bind_some]
  rw [hseek]
  simp only [Option.bind_some]
  rw [hslice]
  rfl

end LineParser

namespace Config

open LineParser

variable {blanks text tail value : Bytes} {s : ParseState}

/-! ## A pass of the loop -/

/-- A line of blanks, or a comment. -/
theorem parseLine_skip {c : UInt8} (rest : Bytes) (hblanks : ∀ b ∈ blanks, isspace b = true)
    (hc : c = hash ∨ c = nul) : parseLine (blanks ++ c :: rest) s = some s := by
  have hspace : isspace c = false := by
    rcases hc with hc | hc
    · rw [hc]
      decide
    · rw [hc]
      decide
  unfold parseLine
  rw [peek_eq (i := 0) rfl hblanks hspace]
  simp only [Option.bind_eq_bind, Option.bind_some]
  rw [if_pos hc]

/-- A section. -/
theorem parseLine_sect (hblanks : ∀ b ∈ blanks, isspace b = true)
    (htext : ∀ b ∈ text, b ≠ nul ∧ b ≠ rbracket) :
    parseLine (blanks ++ lbracket :: (text ++ rbracket :: tail)) s
      = some { s with sect := trim isspace text, error := false, name := [] } := by
  have hline : (blanks ++ lbracket :: (text ++ rbracket :: tail)).drop 0
      = blanks ++ lbracket :: (text ++ rbracket :: tail) := rfl
  have htill := drop_succ (drop_add hline)
  unfold parseLine skip
  rw [peek_eq hline hblanks (by decide)]
  simp only [Option.bind_eq_bind, Option.bind_some]
  rw [if_neg (by decide), if_pos trivial]
  rw [till_eq htill htext (by decide)]
  simp only [Option.bind_some]
  rw [matchChar_eq (drop_add htill) (by decide)]
  rfl

/-- `[` without `]`. -/
theorem parseLine_sect_error (hblanks : ∀ b ∈ blanks, isspace b = true)
    (htext : ∀ b ∈ text, b ≠ nul ∧ b ≠ rbracket) :
    parseLine (blanks ++ lbracket :: (text ++ nul :: tail)) s
      = some { s with sect := [], error := true, name := [] } := by
  have hline : (blanks ++ lbracket :: (text ++ nul :: tail)).drop 0
      = blanks ++ lbracket :: (text ++ nul :: tail) := rfl
  obtain ⟨j, htill, k, hmatch⟩ := till_missing (drop_succ (drop_add hline)) htext (by decide)
  unfold parseLine skip
  rw [peek_eq hline hblanks (by decide)]
  simp only [Option.bind_eq_bind, Option.bind_some]
  rw [if_neg (by decide), if_pos trivial]
  rw [htill]
  simp only [Option.bind_some]
  rw [hmatch]
  rfl

/-- What is known of the first byte of a line that is neither blank, a comment nor a section. -/
def Plain (c : UInt8) : Prop :=
  c ≠ nul ∧ c ≠ hash ∧ c ≠ lbracket ∧ isspace c = false

/-- A line with a blank in front. -/
theorem parseLine_blank {a c : UInt8} {rest : Bytes}
    (hblanks : ∀ b ∈ a :: blanks, isspace b = true) (hc : Plain c) :
    parseLine (a :: blanks ++ c :: rest) s
      = if s.name = [] then some { s with error := true }
        else (tillEnd (a :: blanks ++ c :: rest) (a :: blanks).length).bind fun q =>
          some (s.store q.1) := by
  obtain ⟨hnul, hhash, hbracket, hspace⟩ := hc
  have hline : (a :: blanks ++ c :: rest).drop 0 = a :: blanks ++ c :: rest := rfl
  have hfirst : load (a :: blanks ++ c :: rest) 0 = some a := rfl
  unfold parseLine
  rw [peek_eq hline hblanks hspace]
  simp only [Option.bind_eq_bind, Option.bind_some]
  rw [if_neg (fun he => he.elim hhash hnul), if_neg hbracket, hfirst]
  simp only [Option.bind_some]
  rw [if_pos (hblanks a List.mem_cons_self), Nat.zero_add]

/-- There is no name to continue. -/
theorem parseLine_continuation_error {a c : UInt8} {rest : Bytes}
    (hblanks : ∀ b ∈ a :: blanks, isspace b = true) (hc : Plain c) (hname : s.name = []) :
    parseLine (a :: blanks ++ c :: rest) s = some { s with error := true } :=
  (parseLine_blank hblanks hc).trans (if_pos hname)

theorem parseLine_append {a c : UInt8} {rest : Bytes}
    (hblanks : ∀ b ∈ a :: blanks, isspace b = true) (hc : Plain c) (hname : s.name ≠ []) :
    parseLine (a :: blanks ++ c :: rest) s
      = (tillEnd (a :: blanks ++ c :: rest) (a :: blanks).length).bind fun q =>
          some (s.store q.1) :=
  (parseLine_blank hblanks hc).trans (if_neg hname)

/-- A continuation. -/
theorem parseLine_continuation {a c d : UInt8} {rest : Bytes}
    (hblanks : ∀ b ∈ a :: blanks, isspace b = true) (hc : Plain c)
    (hvalue : ∀ b ∈ c :: value, b ≠ nul ∧ b ≠ hash ∧ isspace b = false)
    (hd : d = nul ∨ d = hash ∨ isspace d = true) (hname : s.name ≠ []) :
    parseLine (a :: blanks ++ (c :: value) ++ d :: rest) s = some (s.store (c :: value)) := by
  have hends : d = nul ∨ isspace d = true ∨ decide (d = hash) = true := by
    rcases hd with hd | hd | hd
    · exact .inl hd
    · exact .inr (.inr (decide_eq_true hd))
    · exact .inr (.inl hd)
  have hdrop : (a :: blanks ++ c :: (value ++ d :: rest)).drop (a :: blanks).length
      = [] ++ (c :: value) ++ d :: rest := by
    rw [List.drop_left]
    rfl
  have htill := tillBlank_eq hdrop (by simp) (fun b hb => ⟨(hvalue b hb).1, (hvalue b hb).2.2,
    (decide_eq_false (hvalue b hb).2.1 : decide (b = hash) = false)⟩) hends
  rw [show a :: blanks ++ (c :: value) ++ d :: rest = a :: blanks ++ c :: (value ++ d :: rest) by
    simp, parseLine_append hblanks hc hname]
  unfold tillEnd
  rw [htill]
  rfl

/-- The beginning of a line that has no blank in front. -/
theorem parseLine_entry {c : UInt8} {rest : Bytes} (hc : Plain c) :
    parseLine (c :: rest) s = (parseName (c :: rest) 0).bind fun p =>
      if p.2.1 then
        (tillSpace (c :: rest) (skip p.2.2 1)).bind fun q =>
          some ({ s with name := p.1, error := false }.store q.1)
      else some { s with name := p.1, error := true } := by
  obtain ⟨hnul, hhash, hbracket, hspace⟩ := hc
  have hline : (c :: rest).drop 0 = [] ++ c :: rest := rfl
  have hfirst : load (c :: rest) 0 = some c := rfl
  unfold parseLine
  rw [peek_eq hline (by simp) hspace]
  simp only [Option.bind_eq_bind, Option.bind_some]
  rw [if_neg (fun he => he.elim hhash hnul), if_neg hbracket, hfirst]
  simp only [Option.bind_some]
  rw [if_neg (by rw [hspace]; exact Bool.false_ne_true)]
  rfl

/-- The name before `=`. -/
theorem parseName_equals {line name rest : Bytes} (h : line.drop 0 = name ++ equals :: rest)
    (hname : ∀ b ∈ name, b ≠ nul ∧ b ≠ equals) :
    parseName line 0 = some (trim isspace name, true, 0 + name.length) := by
  unfold parseName
  rw [till_eq h hname (by decide)]
  simp only [Option.bind_eq_bind, Option.bind_some]
  rw [matchChar_eq (drop_add h) (by decide)]
  rfl

/-- The name before `:`, when there is no `=`. -/
theorem parseName_colon {line name t rest : Bytes}
    (h : line.drop 0 = name ++ colon :: (t ++ nul :: rest))
    (hname : ∀ b ∈ name, b ≠ nul ∧ b ≠ colon)
    (hequals : ∀ b ∈ name ++ colon :: t, b ≠ nul ∧ b ≠ equals) :
    parseName line 0 = some (trim isspace name, true, 0 + name.length) := by
  have hline : line.drop 0 = (name ++ colon :: t) ++ nul :: rest := by
    rw [h, List.append_assoc, List.cons_append]
  obtain ⟨j, htill, k, hmatch⟩ := till_missing hline hequals (by decide)
  unfold parseName
  rw [htill]
  simp only [Option.bind_eq_bind, Option.bind_some]
  rw [hmatch]
  simp only [Option.bind_some]
  rw [if_neg Bool.false_ne_true, till_eq h hname (by decide)]
  simp only [Option.bind_some]
  rw [matchChar_eq (drop_add h) (by decide)]
  rfl

/-- Neither `=` nor `:`. -/
theorem parseName_missing {line text : Bytes} (h : line.drop 0 = text ++ nul :: tail)
    (htext : ∀ b ∈ text, b ≠ nul ∧ b ≠ equals ∧ b ≠ colon) :
    ∃ k, parseName line 0 = some ([], false, k) := by
  obtain ⟨j, htill, k, hmatch⟩ :=
    till_missing h (fun b hb => ⟨(htext b hb).1, (htext b hb).2.1⟩) (by decide : equals ≠ nul)
  obtain ⟨j', htill', k', hmatch'⟩ :=
    till_missing h (fun b hb => ⟨(htext b hb).1, (htext b hb).2.2⟩) (by decide : colon ≠ nul)
  refine ⟨k', ?_⟩
  unfold parseName
  rw [htill]
  simp only [Option.bind_eq_bind, Option.bind_some]
  rw [hmatch]
  simp only [Option.bind_some]
  rw [if_neg Bool.false_ne_true, htill']
  simp only [Option.bind_some]
  rw [hmatch']
  rfl

/-- What ends the word `w`: the NUL, behind blanks when there is no word, or a blank behind the
word. -/
def Stopped (w more : Bytes) : Prop :=
  (∃ blanks rest, more = blanks ++ nul :: rest ∧ ∀ b ∈ blanks, isspace b = true)
    ∨ w ≠ [] ∧ ∃ d rest, more = d :: rest ∧ isspace d = true

/-- The value behind the separator. -/
theorem tillSpace_value {line after w more : Bytes} {i : Nat} {sep : UInt8}
    (h : line.drop i = sep :: (after ++ w ++ more)) (hafter : ∀ b ∈ after, isspace b = true)
    (hw : ∀ b ∈ w, b ≠ nul ∧ isspace b = false) (hmore : Stopped w more) :
    ∃ j, tillSpace line (skip i 1) = some (w, j) := by
  have hdrop := drop_succ h
  cases w with
  | nil =>
    obtain ⟨blanks, rest, hm, hblanks⟩ := hmore.resolve_right fun hne => hne.1 rfl
    rw [hm, List.append_nil, ← List.append_assoc] at hdrop
    refine ⟨_, tillBlank_nil hdrop fun b hb => ?_⟩
    rcases List.mem_append.mp hb with hb | hb
    · exact hafter b hb
    · exact hblanks b hb
  | cons a w =>
    obtain ⟨d, rest, hm, hd⟩ : ∃ d rest, more = d :: rest ∧ (d = nul ∨ isspace d = true) := by
      rcases hmore with ⟨blanks, rest, hm, hblanks⟩ | ⟨-, d, rest, hm, hd⟩
      · cases blanks with
        | nil => exact ⟨nul, rest, hm, .inl rfl⟩
        | cons d blanks => exact ⟨d, _, hm, .inr (hblanks d List.mem_cons_self)⟩
      · exact ⟨d, rest, hm, .inr hd⟩
    rw [hm] at hdrop
    refine ⟨_, tillBlank_eq hdrop hafter (fun b hb => ⟨(hw b hb).1, (hw b hb).2, rfl⟩) ?_⟩
    exact hd.imp_right .inl

/-! ### Entries -/

variable {c : UInt8} {name before after w more : Bytes}

/-- An entry whose name has been found. -/
theorem parseLine_entry_of {line : Bytes} {sep : UInt8} (hc : Plain c)
    (hline : line = c :: name ++ before ++ sep :: (after ++ w ++ more))
    (hparse : parseName line 0
      = some (trim isspace (c :: name ++ before), true, 0 + (c :: name ++ before).length))
    (hbefore : ∀ b ∈ before, isspace b = true) (hafter : ∀ b ∈ after, isspace b = true)
    (hw : ∀ b ∈ w, b ≠ nul ∧ isspace b = false) (hmore : Stopped w more) :
    parseLine line s
      = some ({ s with name := trim isspace (c :: name), error := false }.store w) := by
  have hdrop : line.drop 0 = (c :: name ++ before) ++ sep :: (after ++ w ++ more) := hline
  obtain ⟨j, hvalue⟩ := tillSpace_value (drop_add hdrop) hafter hw hmore
  have hcons : line = c :: (name ++ before ++ sep :: (after ++ w ++ more)) := hline
  rw [trim_append hc.2.2.2 hbefore] at hparse
  rw [hcons] at hparse hvalue ⊢
  rw [parseLine_entry hc, hparse]
  simp only [Option.bind_some]
  rw [if_pos trivial, hvalue]
  rfl

/-- With `=`. -/
theorem parseLine_equals (hc : Plain c) (hname : ∀ b ∈ c :: name, b ≠ nul ∧ b ≠ equals)
    (hbefore : ∀ b ∈ before, isspace b = true) (hafter : ∀ b ∈ after, isspace b = true)
    (hw : ∀ b ∈ w, b ≠ nul ∧ isspace b = false) (hmore : Stopped w more) :
    parseLine (c :: name ++ before ++ equals :: (after ++ w ++ more)) s
      = some ({ s with name := trim isspace (c :: name), error := false }.store w) := by
  refine parseLine_entry_of hc rfl (parseName_equals rfl fun b hb => ?_) hbefore hafter hw hmore
  rcases List.mem_append.mp hb with hb | hb
  · exact hname b hb
  · exact ⟨ne_of_isspace (hbefore b hb) (by decide), ne_of_isspace (hbefore b hb) (by decide)⟩

/-- With `:`, when there is no `=` up to the NUL. -/
theorem parseLine_colon (rest : Bytes) (hc : Plain c)
    (hname : ∀ b ∈ c :: name, b ≠ nul ∧ b ≠ colon)
    (hbefore : ∀ b ∈ before, isspace b = true) (hafter : ∀ b ∈ after, isspace b = true)
    (hw : ∀ b ∈ w, b ≠ nul ∧ isspace b = false) (hmore : Stopped w (tail ++ nul :: rest))
    (hequals : ∀ b ∈ c :: name ++ before ++ colon :: (after ++ w ++ tail), b ≠ nul ∧ b ≠ equals) :
    parseLine (c :: name ++ before ++ colon :: (after ++ w ++ (tail ++ nul :: rest))) s
      = some ({ s with name := trim isspace (c :: name), error := false }.store w) := by
  refine parseLine_entry_of hc rfl (parseName_colon (t := after ++ w ++ tail)
    (show _ = (c :: name ++ before) ++ colon :: (after ++ w ++ tail ++ nul :: rest) by simp)
    (fun b hb => ?_) hequals) hbefore hafter hw hmore
  rcases List.mem_append.mp hb with hb | hb
  · exact hname b hb
  · exact ⟨ne_of_isspace (hbefore b hb) (by decide), ne_of_isspace (hbefore b hb) (by decide)⟩

end Config

end Windz
