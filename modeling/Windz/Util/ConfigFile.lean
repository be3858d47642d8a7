import Windz.Util.ConfigLines

/-!
# What `Parse` makes of a file

A configuration is a list of lines, each of one of five kinds, and a file is their
rendering. What it gives is a list of keys with values, which depends on the section
and the entry that the lines before leave: `Parse` stores exactly that.
-/

namespace Windz

open Lib

namespace Config

/-! ## Configurations -/

/-- Blanks that can stand on a line. -/
def Blanks (s : Bytes) : Prop := ∀ b ∈ s, isspace b = true ∧ b ≠ newline

/-- A text that can stand on a line. -/
def OneLine (s : Bytes) : Prop := ∀ b ∈ s, b ≠ nul ∧ b ≠ newline

/-- A text without blanks. -/
def Word (s : Bytes) : Prop := ∀ b ∈ s, b ≠ nul ∧ isspace b = false

instance (s : Bytes) : Decidable (Blanks s) := List.decidableBAll _ s

instance (s : Bytes) : Decidable (OneLine s) := List.decidableBAll _ s

instance (s : Bytes) : Decidable (Word s) := List.decidableBAll _ s

/-- What may stand behind a value. -/
def Tail (s : Bytes) : Prop := OneLine s ∧ ∀ b ∈ s.head?, isspace b = true

/-- What a line of a configuration can be, part by part. -/
inductive Line where
  | blank (blanks : Bytes)
  | comment (blanks text : Bytes)
  | sect (blanks name tail : Bytes)
  | entry (sep : UInt8) (name before after value tail : Bytes)
  | continuation (blanks value tail : Bytes)

namespace Line

/-- The text of a line, without its newline. -/
def render : Line → Bytes
  | blank blanks => blanks
  | comment blanks text => blanks ++ hash :: text
  | sect blanks name tail => blanks ++ lbracket :: (name ++ rbracket :: tail)
  | entry sep name before after value tail => name ++ before ++ sep :: (after ++ value ++ tail)
  | continuation blanks value tail => blanks ++ value ++ tail

/-- The lines in question. -/
inductive Ok : Line → Prop where
  | blank {blanks : Bytes} (hblanks : Blanks blanks) : Ok (.blank blanks)
  | comment {blanks text : Bytes} (hblanks : Blanks blanks) (htext : OneLine text) :
      Ok (.comment blanks text)
  | sect {blanks name tail : Bytes} (hblanks : Blanks blanks) (hname : OneLine name)
      (hbracket : rbracket ∉ name) (htail : OneLine tail) : Ok (.sect blanks name tail)
  | entry {sep c d : UInt8} {name before after value tail : Bytes} (hc : Plain c)
      (hname : OneLine (c :: name)) (hequals : equals ∉ c :: name)
      (hsep : sep = equals ∨ sep = colon ∧ colon ∉ c :: name
        ∧ equals ∉ after ++ (d :: value) ++ tail)
      (hbefore : Blanks before) (hafter : Blanks after)
      (hvalue : Word (d :: value)) (htail : Tail tail) :
      Ok (.entry sep (c :: name) before after (d :: value) tail)
  | continuation {a c : UInt8} {blanks value tail : Bytes} (hblanks : Blanks (a :: blanks))
      (hvalue : Word (c :: value)) (hhash : hash ∉ c :: value) (hbracket : c ≠ lbracket)
      (htail : Tail tail) :
      Ok (.continuation (a :: blanks) (c :: value) tail)

end Line

/-- The section and the entry that a line stands in. -/
structure Context where
  /-- The name of the section. -/
  sect : Bytes
  /-- The name of the entry, none at the beginning of a section. -/
  name : Option Bytes

namespace Context

/-- The beginning of a file is in the section without a name. -/
def start : Context := ⟨[], none⟩

/-- The context behind a line. The names are without the blanks at their ends. -/
def next (k : Context) : Line → Context
  | .blank _ | .comment _ _ | .continuation _ _ _ => k
  | .sect _ name _ => ⟨trim isspace name, none⟩
  | .entry _ name _ _ _ _ => ⟨k.sect, some (trim isspace name)⟩

/-- A continuation follows an entry of its section. -/
def Fits (k : Context) : Line → Prop
  | .continuation _ _ _ => k.name.isSome = true
  | _ => True

/-- The key and the value that a line gives. -/
def given (k : Context) : Line → List (Bytes × Bytes)
  | .entry _ name _ _ value _ => [(makeKey k.sect (trim isspace name), value)]
  | .continuation _ value _ => (k.name.map fun name => (makeKey k.sect name, value)).toList
  | _ => []

end Context

/-- The context behind all lines. -/
def contextAfter (k : Context) (ls : List Line) : Context := ls.foldl Context.next k

/-- All that the lines give, in the order of the file. -/
def givenBy : Context → List Line → List (Bytes × Bytes)
  | _, [] => []
  | k, l :: ls => k.given l ++ givenBy (k.next l) ls

/-- Every line is in order, and stands where it may. -/
def WellFormed : Context → List Line → Prop
  | _, [] => True
  | k, l :: ls => l.Ok ∧ k.Fits l ∧ WellFormed (k.next l) ls

/-- The text of all lines. -/
def renderLines (ls : List Line) : Bytes := ls.flatMap fun l => l.render ++ [newline]

/-- With its newline the line fits into the array. -/
def Short (l : Line) : Prop := l.render.length + 1 < MAXLINE

/-- The files of a configuration: the newline of the last line may be missing. -/
inductive Renders : List Line → Bytes → Prop where
  | ended {ls : List Line} (hshort : ∀ l ∈ ls, Short l) : Renders ls (renderLines ls)
  | unended {ls : List Line} {last : Line} (hshort : ∀ l ∈ ls, Short l)
      (hne : last.render ≠ []) (hlast : last.render.length < MAXLINE) :
      Renders (ls ++ [last]) (renderLines ls ++ last.render)

/-- The values given for a key. -/
def valuesOf (key : Bytes) (pairs : List (Bytes × Bytes)) : List Bytes :=
  (pairs.filter (·.1 = key)).map (·.2)

/-- The configuration read is what the pairs say, and nothing else. -/
structure Holds (c : Config) (pairs : List (Bytes × Bytes)) : Prop where
  list : ∀ sect name, c.getList sect name = valuesOf (makeKey sect name) pairs
  string : ∀ sect name default,
    c.getString sect name default = some ((valuesOf (makeKey sect name) pairs).headD default)
  only : ∀ key values, c.config.lookup key = some values →
    values ≠ [] ∧ values = valuesOf key pairs

/-- A line that is in error where it stands: a section without `]`, a continuation without an
entry, an entry without a separator. -/
inductive Malformed (k : Context) : Bytes → Prop where
  | sect {blanks text : Bytes} (hblanks : Blanks blanks) (htext : OneLine text)
      (hbracket : rbracket ∉ text) : Malformed k (blanks ++ lbracket :: text)
  | continuation {a c : UInt8} {blanks text : Bytes} (hname : k.name = none)
      (hblanks : Blanks (a :: blanks)) (hc : Plain c) (htext : OneLine (c :: text)) :
      Malformed k (a :: blanks ++ c :: text)
  | entry {c : UInt8} {text : Bytes} (hc : Plain c) (htext : OneLine (c :: text))
      (hequals : equals ∉ c :: text) (hcolon : colon ∉ c :: text) : Malformed k (c :: text)

/-! ## The map -/

theorem lookup_pushBack (c : Config) (key value key' : Bytes) :
    (c.pushBack key value).config.lookup key'
      = if key' = key then some ((c.config.lookup key).getD [] ++ [value])
        else c.config.lookup key' := by
  unfold pushBack
  by_cases hk : key' = key
  · rw [if_pos hk, hk]
    exact AList.lookup_insert _
  · rw [if_neg hk]
    exact AList.lookup_insert_ne hk

theorem valuesOf_append (key : Bytes) (ps qs : List (Bytes × Bytes)) :
    valuesOf key (ps ++ qs) = valuesOf key ps ++ valuesOf key qs := by
  unfold valuesOf
  rw [List.filter_append, List.map_append]

/-- A key is in the map as soon as it has a value. -/
def Stored (c : Config) (pairs : List (Bytes × Bytes)) : Prop :=
  ∀ key, c.config.lookup key = if valuesOf key pairs = [] then none else some (valuesOf key pairs)

theorem Stored.pushBack {c : Config} {pairs : List (Bytes × Bytes)} (h : Stored c pairs)
    (key value : Bytes) : Stored (c.pushBack key value) (pairs ++ [(key, value)]) := by
  intro key'
  rw [lookup_pushBack, valuesOf_append]
  by_cases hk : key' = key
  · have hone : valuesOf key' [(key, value)] = [value] := by simp [valuesOf, hk]
    rw [if_pos hk, hone, if_neg (by simp), h key, hk]
    by_cases hnil : valuesOf key pairs = []
    · rw [if_pos hnil, hnil]
      rfl
    · rw [if_neg hnil]
      rfl
  · have hnone : valuesOf key' [(key, value)] = [] := by simp [valuesOf, Ne.symm hk]
    rw [if_neg hk, hnone, List.append_nil]
    exact h key'

theorem Stored.holds {c : Config} {pairs : List (Bytes × Bytes)} (h : Stored c pairs) :
    Holds c pairs where
  list := by
    intro sect name
    unfold getList
    rw [h]
    by_cases hnil : valuesOf (makeKey sect name) pairs = []
    · rw [if_pos hnil, hnil]
    · rw [if_neg hnil]
  string := by
    intro sect name default
    unfold getString
    rw [h]
    by_cases hnil : valuesOf (makeKey sect name) pairs = []
    · rw [if_pos hnil, hnil]
      rfl
    · rw [if_neg hnil]
      obtain ⟨value, values, he⟩ := List.exists_cons_of_ne_nil hnil
      rw [he]
      rfl
  only := by
    intro key values he
    rw [h] at he
    obtain ⟨hne, he⟩ := Option.ite_none_left_eq_some.mp he
    rw [← Option.some.inj he]
    exact ⟨hne, rfl⟩

/-! ## Lines -/

/-- The variables of `Parse` behind lines that give `pairs`. -/
structure Reads (k : Context) (pairs : List (Bytes × Bytes)) (s : ParseState) : Prop where
  sect : s.sect = k.sect
  name : s.name = k.name.getD []
  named : k.name ≠ some []
  error : s.error = false
  stored : Stored s.config pairs

/-- The number of the line is not looked at. -/
theorem Reads.counted {k : Context} {pairs : List (Bytes × Bytes)} {s : ParseState}
    (h : Reads k pairs s) (lineNum : Nat) : Reads k pairs { s with lineNum } :=
  ⟨h.sect, h.name, h.named, h.error, h.stored⟩

/-- What ends a line in the array. -/
def Ending (e : Bytes) : Prop := e = [] ∨ e = [newline]

theorem Ending.blank {e : Bytes} (he : Ending e) : ∀ b ∈ e, isspace b = true := by
  intro b hb
  rcases he with he | he
  · rw [he] at hb
    exact absurd hb List.not_mem_nil
  · rw [he] at hb
    rw [List.mem_singleton.mp hb]
    decide

/-- Behind a value stands a blank or the end of the array. -/
theorem Tail.head {tail e : Bytes} (h : Tail tail) (he : Ending e) :
    ∃ d rest, tail ++ e ++ [nul] = d :: rest ∧ (d = nul ∨ isspace d = true) := by
  cases tail with
  | nil =>
    rcases he with he | he
    · exact ⟨nul, [], by rw [he]; rfl, .inl rfl⟩
    · exact ⟨newline, [nul], by rw [he]; rfl, .inr (by decide)⟩
  | cons d tail => exact ⟨d, tail ++ e ++ [nul], rfl, .inr (h.2 d rfl)⟩

theorem Reads.store {k : Context} {pairs : List (Bytes × Bytes)} {s : ParseState} {name : Bytes}
    (h : Reads k pairs s) (hname : s.name = name) (value : Bytes) :
    Stored (s.store value).config (pairs ++ [(makeKey k.sect name, value)]) := by
  unfold ParseState.store
  dsimp only
  rw [h.sect, hname]
  exact h.stored.pushBack _ _

/-- An entry line. -/
theorem parseLine_entry_ok {s : ParseState} {sep c d : UInt8}
    {name before after value tail e : Bytes} (hc : Plain c) (hname : OneLine (c :: name))
    (hequals : equals ∉ c :: name)
    (hsep : sep = equals ∨ sep = colon ∧ colon ∉ c :: name
      ∧ equals ∉ after ++ (d :: value) ++ tail)
    (hbefore : Blanks before) (hafter : Blanks after)
    (hvalue : Word (d :: value)) (htail : Tail tail) (he : Ending e) :
    parseLine ((c :: name) ++ before ++ sep :: (after ++ (d :: value) ++ tail) ++ e ++ [nul]) s
      = some ({ s with name := trim isspace (c :: name), error := false }.store (d :: value)) := by
  have hbefore' : ∀ b ∈ before, isspace b = true := fun b hb => (hbefore b hb).1
  have hafter' : ∀ b ∈ after, isspace b = true := fun b hb => (hafter b hb).1
  obtain ⟨d', rest, hrest, hd'⟩ := htail.head he
  have hmore : Stopped (d :: value) (tail ++ e ++ [nul]) := by
    rw [hrest]
    rcases hd' with hd' | hd'
    · exact .inl ⟨[], rest, by rw [hd']; rfl, by simp⟩
    · exact .inr ⟨List.cons_ne_nil _ _, d', rest, rfl, hd'⟩
  rcases hsep with hsep | ⟨hsep, hcolon, hvaluesep⟩
  · have hparse := parseLine_equals (s := s) hc
      (fun b hb => ⟨(hname b hb).1, fun hbe => hequals (hbe ▸ hb)⟩) hbefore' hafter' hvalue hmore
    rw [← hparse, hsep]
    simp only [List.append_assoc, List.cons_append]
  · have hnone : ∀ b ∈ c :: name ++ before ++ colon :: (after ++ (d :: value) ++ (tail ++ e)),
        b ≠ nul ∧ b ≠ equals := by
      intro b hb
      rcases List.mem_append.mp hb with hb | hb
      · rcases List.mem_append.mp hb with hb | hb
        · exact ⟨(hname b hb).1, fun hbe => hequals (hbe ▸ hb)⟩
        · exact ⟨ne_of_isspace (hbefore' b hb) (by decide),
            ne_of_isspace (hbefore' b hb) (by decide)⟩
      rcases List.mem_cons.mp hb with hb | hb
      · rw [hb]
        decide
      rw [← List.append_assoc] at hb
      rcases List.mem_append.mp hb with hb | hb
      · refine ⟨?_, fun hbe => hvaluesep (hbe ▸ hb)⟩
        rcases List.mem_append.mp hb with hb | hb
        · rcases List.mem_append.mp hb with hb | hb
          · exact ne_of_isspace (hafter' b hb) (by decide)
          · exact (hvalue b hb).1
        · exact (htail.1 b hb).1
      · exact ⟨ne_of_isspace (he.blank b hb) (by decide),
          ne_of_isspace (he.blank b hb) (by decide)⟩
    have hparse := parseLine_colon (s := s) [] hc
      (fun b hb => ⟨(hname b hb).1, fun hbe => hcolon (hbe ▸ hb)⟩) hbefore' hafter' hvalue hmore
      hnone
    rw [← hparse, hsep]
    simp only [List.append_assoc, List.cons_append]

/-- **What a pass of the loop does with a line in its context.** -/
theorem Reads.line {k : Context} {pairs : List (Bytes × Bytes)} {s : ParseState} {l : Line}
    {e : Bytes} (h : Reads k pairs s) (hl : l.Ok) (hfits : k.Fits l) (he : Ending e) :
    ∃ s', parseLine (l.render ++ e ++ [nul]) s = some s' ∧ Reads (k.next l) (pairs ++ k.given l) s'
      ∧ s'.lineNum = s.lineNum := by
  -- a line that gives nothing and changes nothing
  have hskip : ∀ {line : Bytes}, parseLine line s = some s → ∃ s', parseLine line s = some s'
      ∧ Reads k (pairs ++ []) s' ∧ s'.lineNum = s.lineNum := by
    intro line hs
    rw [List.append_nil]
    exact ⟨s, hs, h, rfl⟩
  cases hl with
  | @blank blanks hblanks =>
    refine hskip (parseLine_skip _ (fun b hb => ?_) (.inr rfl))
    rcases List.mem_append.mp hb with hb | hb
    · exact (hblanks b hb).1
    · exact he.blank b hb
  | @comment blanks text hblanks htext =>
    refine hskip ?_
    rw [show (Line.comment blanks text).render ++ e ++ [nul]
      = blanks ++ hash :: (text ++ e ++ [nul]) by simp [Line.render]]
    exact parseLine_skip _ (fun b hb => (hblanks b hb).1) (.inl rfl)
  | @sect blanks name tail hblanks hname hbracket htail =>
    refine ⟨{ s with sect := trim isspace name, error := false, name := [] }, ?_, ?_, rfl⟩
    · rw [show (Line.sect blanks name tail).render ++ e ++ [nul]
        = blanks ++ lbracket :: (name ++ rbracket :: (tail ++ e ++ [nul])) by simp [Line.render]]
      exact parseLine_sect (fun b hb => (hblanks b hb).1)
        fun b hb => ⟨(hname b hb).1, fun hbe => hbracket (hbe ▸ hb)⟩
    · refine ⟨rfl, rfl, by simp [Context.next], rfl, ?_⟩
      rw [show k.given (.sect blanks name tail) = [] from rfl, List.append_nil]
      exact h.stored
  | @entry sep c d name before after value tail hc hname hequals hsep hbefore hafter hvalue htail =>
    refine ⟨_, parseLine_entry_ok hc hname hequals hsep hbefore hafter hvalue htail he, ?_, rfl⟩
    refine ⟨h.sect, rfl, ?_, rfl, ?_⟩
    · exact fun hnil => trim_ne_nil hc.2.2.2 (Option.some.inj hnil)
    · have hreads : Reads ⟨k.sect, some (trim isspace (c :: name))⟩ pairs
          { s with name := trim isspace (c :: name), error := false } :=
        ⟨h.sect, rfl, fun hnil => trim_ne_nil hc.2.2.2 (Option.some.inj hnil), rfl, h.stored⟩
      exact hreads.store rfl (d :: value)
  | @continuation a c blanks value tail hblanks hvalue hhash hbracket htail =>
    obtain ⟨name, hk⟩ := Option.isSome_iff_exists.mp hfits
    have hname : s.name = name := by rw [h.name, hk]; rfl
    have hne : s.name ≠ [] := by
      intro hnil
      exact h.named (by rw [hk, ← hname, hnil])
    obtain ⟨d, rest, hrest, hd⟩ := htail.head he
    have hvalue' : ∀ b ∈ c :: value, b ≠ nul ∧ b ≠ hash ∧ isspace b = false :=
      fun b hb => ⟨(hvalue b hb).1, fun hbe => hhash (hbe ▸ hb), (hvalue b hb).2⟩
    have hc := hvalue' c List.mem_cons_self
    refine ⟨s.store (c :: value), ?_, ⟨h.sect, h.name, h.named, h.error, ?_⟩, rfl⟩
    · rw [show (Line.continuation (a :: blanks) (c :: value) tail).render ++ e ++ [nul]
        = a :: blanks ++ (c :: value) ++ d :: rest by simp [Line.render, ← hrest]]
      exact parseLine_continuation (fun b hb => (hblanks b hb).1) ⟨hc.1, hc.2.1, hbracket, hc.2.2⟩
        hvalue' (hd.imp_right .inr) hne
    · have hgiven : k.given (.continuation (a :: blanks) (c :: value) tail)
          = [(makeKey k.sect name, c :: value)] := by
        unfold Context.given
        rw [hk]
        rfl
      rw [hgiven]
      exact h.store hname _

/-- The variables behind a line in error. Its first byte and the first that is not blank tell what
the line was taken for. -/
def ParseState.failed (s : ParseState) (bad : Bytes) : ParseState :=
  if (bad.dropWhile isspace).head? = some lbracket then
    { s with sect := [], error := true, name := [] }
  else if bad.head?.any isspace then { s with error := true }
  else { s with name := [], error := true }

/-- A line in error. -/
theorem parseLine_malformed {k : Context} {s : ParseState} {bad e : Bytes}
    (hk : k.name = none → s.name = []) (hbad : Malformed k bad) (he : Ending e) :
    parseLine (bad ++ e ++ [nul]) s = some (s.failed bad) := by
  unfold ParseState.failed
  cases hbad with
  | @sect blanks text hblanks htext hbracket =>
    have hdrop : (blanks ++ lbracket :: text).dropWhile isspace = lbracket :: text := by
      rw [List.dropWhile_append_of_pos fun b hb => (hblanks b hb).1]
      exact List.dropWhile_cons_of_neg (by decide)
    rw [show blanks ++ lbracket :: text ++ e ++ [nul]
      = blanks ++ lbracket :: ((text ++ e) ++ nul :: []) by simp, hdrop,
      List.head?_cons, if_pos rfl]
    refine parseLine_sect_error (fun b hb => (hblanks b hb).1) fun b hb => ?_
    rcases List.mem_append.mp hb with hb | hb
    · exact ⟨(htext b hb).1, fun hbe => hbracket (hbe ▸ hb)⟩
    · exact ⟨ne_of_isspace (he.blank b hb) (by decide), ne_of_isspace (he.blank b hb) (by decide)⟩
  | @continuation a c blanks text hname hblanks hc htext =>
    have hdrop : (a :: blanks ++ c :: text).dropWhile isspace = c :: text := by
      rw [List.dropWhile_append_of_pos fun b hb => (hblanks b hb).1]
      exact List.dropWhile_cons_of_neg (by rw [hc.2.2.2]; exact Bool.false_ne_true)
    have hspace : (a :: blanks ++ c :: text).head?.any isspace = true :=
      (hblanks a List.mem_cons_self).1
    rw [show a :: blanks ++ c :: text ++ e ++ [nul]
      = a :: blanks ++ c :: (text ++ e ++ [nul]) by simp, hdrop, List.head?_cons, if_pos hspace,
      if_neg fun hb => hc.2.2.1 (Option.some.inj hb)]
    exact parseLine_continuation_error (fun b hb => (hblanks b hb).1) hc (hk hname)
  | @entry c text hc htext hequals hcolon =>
    have hdrop : (c :: text).dropWhile isspace = c :: text :=
      List.dropWhile_cons_of_neg (by rw [hc.2.2.2]; exact Bool.false_ne_true)
    have hspace : ¬ (c :: text).head?.any isspace = true := by
      show ¬ isspace c = true
      rw [hc.2.2.2]
      exact Bool.false_ne_true
    have hline : (c :: (text ++ e ++ [nul])).drop 0 = ((c :: text) ++ e) ++ nul :: [] := by simp
    have hnone : ∀ b ∈ (c :: text) ++ e, b ≠ nul ∧ b ≠ equals ∧ b ≠ colon := by
      intro b hb
      rcases List.mem_append.mp hb with hb | hb
      · exact ⟨(htext b hb).1, fun hbe => hequals (hbe ▸ hb), fun hbe => hcolon (hbe ▸ hb)⟩
      · exact ⟨ne_of_isspace (he.blank b hb) (by decide),
          ne_of_isspace (he.blank b hb) (by decide), ne_of_isspace (he.blank b hb) (by decide)⟩
    obtain ⟨j, hparse⟩ := parseName_missing hline hnone
    rw [hdrop, if_neg hspace, List.head?_cons,
      if_neg fun hb => hc.2.2.1 (Option.some.inj hb)]
    show parseLine (c :: (text ++ e ++ [nul])) s = _
    rw [parseLine_entry hc, hparse]
    rfl

theorem ParseState.failed_frame (s : ParseState) (bad : Bytes) :
    (s.failed bad).error = true ∧ (s.failed bad).config = s.config
      ∧ (s.failed bad).lineNum = s.lineNum := by
  unfold failed
  split
  · exact ⟨rfl, rfl, rfl⟩
  split
  · exact ⟨rfl, rfl, rfl⟩
  · exact ⟨rfl, rfl, rfl⟩

theorem Reads.malformed {k : Context} {pairs : List (Bytes × Bytes)} {s : ParseState}
    {bad e : Bytes} (h : Reads k pairs s) (hbad : Malformed k bad) (he : Ending e) :
    ∃ s', parseLine (bad ++ e ++ [nul]) s = some s' ∧ s'.error = true ∧ s'.config = s.config
      ∧ s'.lineNum = s.lineNum := by
  have hk : k.name = none → s.name = [] := by
    intro hname
    rw [h.name, hname]
    rfl
  exact ⟨_, parseLine_malformed hk hbad he, s.failed_frame bad⟩

/-! ## The file -/

/-- A line is read with its newline when there is room for it. -/
theorem takeLine_newline {line rest : Bytes} {room : Nat} (hline : newline ∉ line)
    (hlen : line.length < room) :
    takeLine room (line ++ newline :: rest) = (line ++ [newline], rest) := by
  induction line generalizing room with
  | nil =>
    cases room with
    | zero => exact absurd hlen (Nat.not_lt_zero _)
    | succ room => simp [takeLine]
  | cons c line ih =>
    cases room with
    | zero => exact absurd hlen (Nat.not_lt_zero _)
    | succ room =>
      have hne : c ≠ newline := fun hc => hline (by rw [hc]; exact List.mem_cons_self)
      have hrest := ih (fun hm => hline (List.mem_cons_of_mem _ hm))
        (Nat.lt_of_succ_lt_succ hlen)
      rw [List.cons_append, takeLine, if_neg hne, hrest]
      rfl

/-- The last line is read to the end of the file. -/
theorem takeLine_end {line : Bytes} {room : Nat} (hline : newline ∉ line)
    (hlen : line.length ≤ room) : takeLine room line = (line, []) := by
  induction line generalizing room with
  | nil => cases room <;> rfl
  | cons c line ih =>
    cases room with
    | zero => exact absurd hlen (Nat.not_succ_le_zero _)
    | succ room =>
      have hne : c ≠ newline := fun hc => hline (by rw [hc]; exact List.mem_cons_self)
      have hrest := ih (fun hm => hline (List.mem_cons_of_mem _ hm)) (Nat.le_of_succ_le_succ hlen)
      rw [takeLine, if_neg hne, hrest]

/-- A pass of the loop. -/
theorem parseLines_succ {fuel : Nat} {file line rest : Bytes} {s : ParseState}
    (hs : s.error = false) (hne : file ≠ []) (hline : takeLine (MAXLINE - 1) file = (line, rest)) :
    parseLines (fuel + 1) file s
      = (parseLine (line ++ [nul]) { s with lineNum := s.lineNum + 1 }).bind
        (parseLines fuel rest) := by
  rw [parseLines, fgets, hs, if_neg hne, hline]
  rfl

theorem Blanks.oneLine {s : Bytes} (h : Blanks s) : newline ∉ s := fun hm => (h _ hm).2 rfl

theorem OneLine.oneLine {s : Bytes} (h : OneLine s) : newline ∉ s := fun hm => (h _ hm).2 rfl

theorem Word.oneLine {s : Bytes} (h : Word s) : newline ∉ s := fun hm =>
  absurd (h _ hm).2 (by decide)

/-- A line of a configuration is one line of the file. -/
theorem Line.Ok.oneLine {l : Line} (h : l.Ok) : newline ∉ l.render := by
  have hcons : ∀ {c : UInt8} {s : Bytes}, newline ≠ c → newline ∉ s → newline ∉ c :: s :=
    fun hc hs => List.not_mem_cons_of_ne_of_not_mem hc hs
  cases h with
  | blank hb => exact hb.oneLine
  | comment hb ht => exact List.not_mem_append hb.oneLine (hcons (by decide) ht.oneLine)
  | sect hb hn hbracket ht =>
    exact List.not_mem_append hb.oneLine (hcons (by decide)
      (List.not_mem_append hn.oneLine (hcons (by decide) ht.oneLine)))
  | @entry sep c d name before after value tail hc hname hequals hsep hb ha hvalue htail =>
    have hsep' : newline ≠ sep := by
      rcases hsep with hsep | ⟨hsep, _⟩
      · rw [hsep]
        decide
      · rw [hsep]
        decide
    have hafter := List.not_mem_append ha.oneLine hvalue.oneLine
    exact List.not_mem_append (List.not_mem_append hname.oneLine hb.oneLine)
      (hcons hsep' (List.not_mem_append hafter htail.1.oneLine))
  | continuation hb hvalue hhash hbracket htail =>
    exact List.not_mem_append (List.not_mem_append hb.oneLine hvalue.oneLine) htail.1.oneLine

theorem Malformed.oneLine {k : Context} {bad : Bytes} (h : Malformed k bad) : newline ∉ bad := by
  cases h with
  | sect hb ht _ =>
    exact List.not_mem_append hb.oneLine
      (List.not_mem_cons_of_ne_of_not_mem (by decide) ht.oneLine)
  | continuation _ hb _ ht => exact List.not_mem_append hb.oneLine ht.oneLine
  | entry _ ht _ _ => exact ht.oneLine

/-- **The loop over whole lines.** -/
theorem parseLines_renderLines {ls : List Line} {k : Context} {pairs : List (Bytes × Bytes)}
    {s : ParseState} (rest : Bytes) (fuel : Nat) (h : Reads k pairs s) (hwf : WellFormed k ls)
    (hshort : ∀ l ∈ ls, Short l) :
    ∃ s', parseLines (ls.length + fuel) (renderLines ls ++ rest) s = parseLines fuel rest s'
      ∧ Reads (contextAfter k ls) (pairs ++ givenBy k ls) s'
      ∧ s'.lineNum = s.lineNum + ls.length := by
  induction ls generalizing k pairs s with
  | nil =>
    refine ⟨s, ?_, ?_, rfl⟩
    · rw [List.length_nil, Nat.zero_add]
      rfl
    · rw [givenBy, List.append_nil]
      exact h
  | cons l ls ih =>
    obtain ⟨hok, hfits, hwf⟩ := hwf
    obtain ⟨hl, hls⟩ := List.forall_mem_cons.mp hshort
    have hfile : renderLines (l :: ls) ++ rest
        = l.render ++ newline :: (renderLines ls ++ rest) := by
      simp [renderLines]
    have htake : takeLine (MAXLINE - 1) (renderLines (l :: ls) ++ rest)
        = (l.render ++ [newline], renderLines ls ++ rest) := by
      rw [hfile]
      exact takeLine_newline hok.oneLine (Nat.lt_sub_of_add_lt hl)
    obtain ⟨s', hparse, hreads, hnum⟩ := (h.counted (s.lineNum + 1)).line hok hfits (.inr rfl)
    obtain ⟨s'', hrest, hreads', hnum'⟩ := ih hreads hwf hls
    refine ⟨s'', ?_, ?_, ?_⟩
    · rw [List.length_cons, Nat.add_right_comm,
        parseLines_succ h.error (by rw [hfile]; simp) htake, hparse, Option.bind_some, hrest]
    · rw [givenBy, ← List.append_assoc]
      exact hreads'
    · rw [hnum', hnum, List.length_cons]
      show s.lineNum + 1 + ls.length = _
      omega

theorem parseLines_end {fuel : Nat} (s : ParseState) : parseLines (fuel + 1) [] s = some s := by
  unfold parseLines
  split <;> rfl

theorem parseLines_error {fuel : Nat} {s : ParseState} (file : Bytes) (h : s.error = true) :
    parseLines (fuel + 1) file s = some s := by
  unfold parseLines
  rw [if_pos h]

theorem length_renderLines (ls : List Line) : ls.length ≤ (renderLines ls).length := by
  induction ls with
  | nil => exact Nat.le_refl _
  | cons l ls ih =>
    unfold renderLines at ih ⊢
    rw [List.flatMap_cons, List.length_append, List.length_append, List.length_cons,
      List.length_singleton]
    omega

/-- `Parse` of whole lines and of what follows them. -/
theorem parse_renderLines {ls : List Line} (rest : Bytes) (hwf : WellFormed .start ls)
    (hshort : ∀ l ∈ ls, Short l) :
    ∃ fuel s, rest.length ≤ fuel ∧ create.parse (some (renderLines ls ++ rest))
        = (parseLines (fuel + 1) rest s).map ParseState.result
      ∧ Reads (contextAfter .start ls) (givenBy .start ls) s ∧ s.lineNum = ls.length := by
  have hstart : Reads .start []
      { lineNum := 0, sect := [], name := [], error := false, config := create } :=
    ⟨rfl, rfl, by simp [Context.start], rfl, fun key => rfl⟩
  have hfuel : (renderLines ls ++ rest).length + 1
      = ls.length + ((renderLines ls ++ rest).length - ls.length + 1) := by
    have hlen := length_renderLines ls
    rw [List.length_append]
    omega
  obtain ⟨s, hparse, hreads, hnum⟩ := parseLines_renderLines rest
    ((renderLines ls ++ rest).length - ls.length + 1) hstart hwf hshort
  refine ⟨(renderLines ls ++ rest).length - ls.length, s, ?_, ?_, hreads, ?_⟩
  · have hlen := length_renderLines ls
    rw [List.length_append]
    omega
  · unfold parse
    dsimp only
    rw [hfuel, hparse]
  · rw [hnum]
    exact Nat.zero_add _

theorem wellFormed_append {k : Context} {ls : List Line} {last : Line}
    (h : WellFormed k (ls ++ [last])) :
    WellFormed k ls ∧ last.Ok ∧ (contextAfter k ls).Fits last := by
  induction ls generalizing k with
  | nil => exact ⟨trivial, h.1, h.2.1⟩
  | cons l ls ih =>
    obtain ⟨hls, hlast⟩ := ih h.2.2
    exact ⟨⟨h.1, h.2.1, hls⟩, hlast⟩

theorem givenBy_append (k : Context) (ls : List Line) (last : Line) :
    givenBy k (ls ++ [last]) = givenBy k ls ++ (contextAfter k ls).given last := by
  induction ls generalizing k with
  | nil => exact List.append_nil _
  | cons l ls ih =>
    rw [List.cons_append, givenBy, givenBy, ih, List.append_assoc]
    rfl

theorem parse_renders {ls : List Line} {file : Bytes} (hwf : WellFormed .start ls)
    (h : Renders ls file) :
    ∃ c, create.parse (some file) = some (0, c) ∧ Stored c (givenBy .start ls) := by
  cases h with
  | ended hshort =>
    obtain ⟨fuel, s, _, hparse, hreads, _⟩ := parse_renderLines [] hwf hshort
    refine ⟨s.config, ?_, hreads.stored⟩
    rw [List.append_nil] at hparse
    rw [hparse, parseLines_end, Option.map_some, ParseState.result, hreads.error]
    rfl
  | @unended ls last hshort hne hlast =>
    obtain ⟨hwf, hok, hfits⟩ := wellFormed_append hwf
    obtain ⟨fuel, s, hfuel, hparse, hreads, _⟩ :=
      parse_renderLines last.render hwf hshort
    have htake : takeLine (MAXLINE - 1) last.render = (last.render ++ [], []) := by
      rw [List.append_nil]
      exact takeLine_end hok.oneLine (Nat.le_sub_one_of_lt hlast)
    obtain ⟨s', hline, hreads', _⟩ := (hreads.counted (s.lineNum + 1)).line hok hfits (.inl rfl)
    obtain ⟨n, rfl⟩ := Nat.exists_eq_add_of_lt
      (Nat.lt_of_lt_of_le (List.length_pos_of_ne_nil hne) hfuel)
    refine ⟨s'.config, ?_, ?_⟩
    · rw [hparse, parseLines_succ hreads.error hne htake, hline, Option.bind_some, parseLines_end,
        Option.map_some, ParseState.result, hreads'.error]
      rfl
    · rw [givenBy_append]
      exact hreads'.stored

/-- A line in error ends the file. -/
theorem parse_malformed {ls : List Line} {bad after : Bytes} (hwf : WellFormed .start ls)
    (hshort : ∀ l ∈ ls, Short l) (hbad : Malformed (contextAfter .start ls) bad)
    (hafter : ∀ b ∈ after.head?, b = newline)
    (hlen : bad.length + (after.take 1).length < MAXLINE) :
    ∃ c, create.parse (some (renderLines ls ++ (bad ++ after))) = some ((ls.length : Int) + 1, c)
      ∧ Stored c (givenBy .start ls) := by
  obtain ⟨fuel, s, hfuel, hparse, hreads, hnum⟩ :=
    parse_renderLines (bad ++ after) hwf hshort
  have hpos : 0 < bad.length := by
    cases hbad with
    | sect =>
      rw [List.length_append]
      exact Nat.lt_add_left _ (Nat.succ_pos _)
    | continuation => exact Nat.succ_pos _
    | entry => exact Nat.succ_pos _
  have htake : ∃ e rest, Ending e ∧ takeLine (MAXLINE - 1) (bad ++ after) = (bad ++ e, rest) := by
    cases after with
    | nil =>
      rw [List.append_nil]
      refine ⟨[], [], .inl rfl, ?_⟩
      rw [List.append_nil]
      exact takeLine_end hbad.oneLine (Nat.le_sub_one_of_lt hlen)
    | cons b after =>
      rw [hafter b rfl]
      exact ⟨[newline], after, .inr rfl, takeLine_newline hbad.oneLine (Nat.lt_sub_of_add_lt hlen)⟩
  obtain ⟨e, rest, he, htake⟩ := htake
  obtain ⟨s', hline, herror, hconfig, hnum'⟩ := (hreads.counted (s.lineNum + 1)).malformed hbad he
  rw [List.length_append] at hfuel
  obtain ⟨n, rfl⟩ := Nat.exists_eq_add_of_lt (show 0 < fuel by omega)
  refine ⟨s'.config, ?_, ?_⟩
  · rw [hparse, parseLines_succ hreads.error _ htake, hline, Option.bind_some,
      parseLines_error _ herror, Option.map_some, ParseState.result, if_pos herror, hnum']
    · show some (((s.lineNum + 1 : Nat) : Int), s'.config) = _
      rw [hnum]
      rfl
    · intro hnil
      rw [(List.append_eq_nil_iff.mp hnil).1] at hpos
      exact absurd hpos (Nat.lt_irrefl _)
  · rw [hconfig]
    exact hreads.stored

/-- **`Parse` stores what the file gives.** For a file made of the lines in question it returns 0,
and the values of a key are exactly those given for it, in the order of the file, the names being
taken without the blanks at their ends. A line in error is the one whose number it returns, and the
values are those given before. -/
theorem parse_stores_given :
    (∀ ls file, WellFormed .start ls → Renders ls file →
      ∃ c, create.parse (some file) = some (0, c) ∧ Holds c (givenBy .start ls))
    ∧ ∀ ls bad after, WellFormed .start ls → (∀ l ∈ ls, Short l) →
      Malformed (contextAfter .start ls) bad → (∀ b ∈ after.head?, b = newline) →
      bad.length + (after.take 1).length < MAXLINE →
      ∃ c, create.parse (some (renderLines ls ++ (bad ++ after))) = some ((ls.length : Int) + 1, c)
        ∧ Holds c (givenBy .start ls) := by
  constructor
  · intro ls file hwf hr
    obtain ⟨c, hparse, hstored⟩ := parse_renders hwf hr
    exact ⟨c, hparse, hstored.holds⟩
  · intro ls bad after hwf hshort hbad hafter hlen
    obtain ⟨c, hparse, hstored⟩ := parse_malformed hwf hshort hbad hafter hlen
    exact ⟨c, hparse, hstored.holds⟩

/-- `[ a ]`, `b = 1 #`, a continuation with `2`, and a `[` without `]`. -/
theorem parse_stores_given_small :
    (∃ c, create.parse (some [91, 32, 97, 32, 93, 10, 98, 32, 61, 32, 49, 32, 35, 10, 32, 50])
        = some (0, c) ∧ c.getList [97] [98] = [[49], [50]])
    ∧ ∃ c, create.parse (some [91, 32, 97, 32, 93, 10, 98, 32, 61, 32, 49, 32, 35, 10, 91, 97])
        = some (3, c) ∧ c.getList [97] [98] = [[49]] := by
  have hsect : (Line.sect [] [32, 97, 32] []).Ok :=
    .sect (by decide) (by decide) (by decide) (by decide)
  have hentry : (Line.entry equals [98] [32] [32] [49] [32, 35]).Ok :=
    .entry ⟨by decide, by decide, by decide, by decide⟩ (by decide) (by decide)
      (.inl rfl) (by decide) (by decide) (by decide)
      ⟨by decide, fun b hb => by rw [← Option.some.inj hb]; decide⟩
  have hcont : (Line.continuation [32] [50] []).Ok :=
    .continuation (by decide) (by decide) (by decide) (by decide) ⟨by decide, by simp⟩
  have hshort : ∀ l ∈ [Line.sect [] [32, 97, 32] [],
      .entry equals [98] [32] [32] [49] [32, 35]], Short l := by unfold Short; decide
  constructor
  · have hwf : WellFormed .start ([.sect [] [32, 97, 32] [],
        .entry equals [98] [32] [32] [49] [32, 35]] ++ [.continuation [32] [50] []]) :=
      show WellFormed .start [_, _, _] from ⟨hsect, trivial, hentry, trivial, hcont, rfl, trivial⟩
    obtain ⟨c, hparse, hholds⟩ := parse_stores_given.1 _ _ hwf
      (.unended hshort (by decide) (by decide))
    exact ⟨c, hparse, hholds.list [97] [98]⟩
  · have hbad : Malformed ⟨[97], some [98]⟩ ([] ++ lbracket :: [97]) :=
      .sect (by decide) (by decide) (by decide)
    obtain ⟨c, hparse, hholds⟩ := parse_stores_given.2
      [.sect [] [32, 97, 32] [], .entry equals [98] [32] [32] [49] [32, 35]] [91, 97] []
      ⟨hsect, trivial, hentry, trivial, trivial⟩ hshort hbad (by simp) (by decide)
    exact ⟨c, hparse, hholds.list [97] [98]⟩

/-- Blanks at the ends of a section name are dropped: what stands under `[ a ]` is not found under
the name ` a `. -/
theorem sect_name_trimmed : ∃ c,
    WellFormed .start [.sect [] [32, 97, 32] [], .entry equals [98] [] [] [49] []]
    ∧ Renders [.sect [] [32, 97, 32] [], .entry equals [98] [] [] [49] []]
      [91, 32, 97, 32, 93, 10, 98, 61, 49, 10]
    ∧ create.parse (some [91, 32, 97, 32, 93, 10, 98, 61, 49, 10]) = some (0, c)
    ∧ c.getList [32, 97, 32] [98] = [] := by
  have hsect : (Line.sect [] [32, 97, 32] []).Ok :=
    .sect (by decide) (by decide) (by decide) (by decide)
  have hentry : (Line.entry equals [98] [] [] [49] []).Ok :=
    .entry ⟨by decide, by decide, by decide, by decide⟩ (by decide) (by decide)
      (.inl rfl) (by decide) (by decide) (by decide) ⟨by decide, by simp⟩
  have hrun : (create.parse (some [91, 32, 97, 32, 93, 10, 98, 61, 49, 10])).map (fun p =>
      decide (p.1 = 0 ∧ p.2.getList [32, 97, 32] [98] = [])) = some true := by decide +kernel
  obtain ⟨⟨ret, c⟩, hparse, hp⟩ := Option.map_eq_some_iff.mp hrun
  obtain ⟨hret, hlist⟩ := of_decide_eq_true hp
  dsimp only at hret
  rw [hret] at hparse
  exact ⟨c, ⟨hsect, trivial, hentry, trivial, trivial⟩, .ended (by unfold Short; decide), hparse,
    hlist⟩

end Config

end Windz
