import Windz.Util.ConfigLoop

/-!
# Physical lines and their pieces

A physical line that does not fit into the array is read in pieces, and each piece is
taken for a line. `wholeLines` is what the file would give if each physical line were one
pass of the loop; where every line fits, or is in error and shows it in its first piece,
that is what it gives.
-/

namespace Windz

open Lib

namespace Config

variable {s s' : ParseState}

/-! ## One pass for each physical line -/

/-- The loop, with an array that any line fits into. -/
def wholeLines : List Bytes → ParseState → Option ParseState
  | [], s => some s
  | l :: ls, s =>
      if s.error then some s
      else (parseLine (l ++ [nul]) { s with lineNum := s.lineNum + 1 }).bind (wholeLines ls)

theorem wholeLines_pass {l : Bytes} {ls : List Bytes} (hs : s.error = false) :
    wholeLines (l :: ls) s
      = (parseLine (l ++ [nul]) { s with lineNum := s.lineNum + 1 }).bind (wholeLines ls) :=
  if_neg (by rw [hs]; exact Bool.false_ne_true)

/-- Behind an error no line is read. -/
theorem wholeLines_stop (ls : List Bytes) (hs : s.error = true) : wholeLines ls s = some s := by
  cases ls with
  | nil => rfl
  | cons l ls => exact if_pos hs

/-- `Parse` of a file that gives it one pass for each physical line. -/
def parseWhole (c : Config) (file : Bytes) : Option (Int × Config) :=
  (wholeLines (physicalLines file) (.start c)).map ParseState.result

/-- What the loop makes of the physical line is what one pass makes of it. -/
def TakenWhole (s : ParseState) (l : Bytes) : Prop :=
  readLines l s = parseLine (l ++ [nul]) { s with lineNum := s.lineNum + 1 }

/-- Each physical line that is read satisfies `p` in the state that the lines before it leave. -/
def Along (p : ParseState → Bytes → Prop) : List Bytes → ParseState → Prop
  | [], _ => True
  | l :: ls, s =>
      s.error = true ∨ p s l
        ∧ ∀ s', parseLine (l ++ [nul]) { s with lineNum := s.lineNum + 1 } = some s' →
          Along p ls s'

/-- Whether a name is open, for the lines that continue it. -/
def ParseState.context (s : ParseState) : Context :=
  ⟨s.sect, if s.name = [] then none else some s.name⟩

/-- The line fits into the array, or it is in error and its first byte that is not blank does. -/
def Fits (s : ParseState) (l : Bytes) : Prop :=
  l.length < MAXLINE
    ∨ ∃ bad e, l = bad ++ e ∧ Ending e ∧ Malformed s.context bad
      ∧ (bad.takeWhile isspace).length < MAXLINE - 1

/-! ## Lines in error -/

theorem ParseState.context_none (h : s.context.name = none) : s.name = [] := by
  unfold context at h
  dsimp only at h
  split at h
  · assumption
  · cases h

theorem parseLine_lineNum {line : Bytes} (h : parseLine line s = some s') :
    s'.lineNum = s.lineNum := by
  unfold parseLine at h
  simp only [Option.bind_eq_bind, Option.bind_eq_some_iff] at h
  obtain ⟨p, -, h⟩ := h
  split at h
  · cases h
    rfl
  split at h
  · simp only [Option.bind_eq_some_iff] at h
    obtain ⟨q, -, q', -, h⟩ := h
    cases h
    rfl
  simp only [Option.bind_eq_some_iff] at h
  obtain ⟨first, -, h⟩ := h
  split at h
  · split at h
    · cases h
      rfl
    · simp only [Option.bind_eq_some_iff] at h
      obtain ⟨q, -, h⟩ := h
      cases h
      rfl
  · simp only [Option.bind_eq_some_iff] at h
    obtain ⟨q, -, h⟩ := h
    split at h
    · simp only [Option.bind_eq_some_iff] at h
      obtain ⟨q', -, h⟩ := h
      cases h
      rfl
    · cases h
      rfl

/-- With a separator on it, a line without a blank in front is not in error. -/
theorem parseLine_entry_error {c : UInt8} {text e : Bytes} (hc : Plain c)
    (htext : OneLine (c :: text)) (he : Ending e)
    (hsep : equals ∈ c :: text ∨ colon ∈ c :: text)
    (h : parseLine (c :: text ++ e ++ [nul]) s = some s') : s'.error = false := by
  have hfound : ∃ name i, parseName (c :: (text ++ e ++ [nul])) 0 = some (name, true, i) := by
    by_cases hequals : equals ∈ c :: text
    · obtain ⟨name, rest, hsplit, hname⟩ := List.eq_append_cons_of_mem hequals
      have hdrop : (c :: (text ++ e ++ [nul])).drop 0 = name ++ equals :: (rest ++ e ++ [nul]) := by
        show c :: text ++ e ++ [nul] = _
        rw [hsplit]
        simp
      refine ⟨_, _, parseName_equals hdrop fun b hb => ⟨?_, fun hbe => hname (hbe ▸ hb)⟩⟩
      exact (htext b (by rw [hsplit]; exact List.mem_append_left _ hb)).1
    · obtain ⟨name, rest, hsplit, hname⟩ := List.eq_append_cons_of_mem (hsep.resolve_left hequals)
      have hdrop : (c :: (text ++ e ++ [nul])).drop 0
          = name ++ colon :: ((rest ++ e) ++ nul :: []) := by
        show c :: text ++ e ++ [nul] = _
        rw [hsplit]
        simp
      refine ⟨_, _, parseName_colon hdrop (fun b hb => ⟨?_, fun hbe => hname (hbe ▸ hb)⟩)
        fun b hb => ?_⟩
      · exact (htext b (by rw [hsplit]; exact List.mem_append_left _ hb)).1
      · rw [show name ++ colon :: (rest ++ e) = c :: text ++ e by rw [hsplit]; simp] at hb
        rcases List.mem_append.mp hb with hb | hb
        · exact ⟨(htext b hb).1, fun hbe => hequals (hbe ▸ hb)⟩
        · exact ⟨ne_of_isspace (he.blank b hb) (by decide),
            ne_of_isspace (he.blank b hb) (by decide)⟩
  obtain ⟨name, i, hparse⟩ := hfound
  rw [show c :: text ++ e ++ [nul] = c :: (text ++ e ++ [nul]) by simp, parseLine_entry hc,
    hparse, Option.bind_some, if_pos rfl] at h
  obtain ⟨q, -, h⟩ := Option.bind_eq_some_iff.mp h
  cases h
  rfl

/-- **When a pass ends in error.** -/
theorem parseLine_error_iff {text e : Bytes} (htext : OneLine text) (he : Ending e)
    (hs : s.error = false) (h : parseLine (text ++ e ++ [nul]) s = some s') :
    s'.error = true ↔ Malformed s.context text := by
  constructor
  · intro herror
    have hsplit : text = text.takeWhile isspace ++ text.dropWhile isspace :=
      List.takeWhile_append_dropWhile.symm
    have hblank : ∀ b ∈ text.takeWhile isspace, isspace b = true :=
      fun b hb => List.mem_takeWhile_imp hb
    have hsame : s' = s → False := by
      intro hss
      rw [hss, hs] at herror
      exact Bool.false_ne_true herror
    cases hd : text.dropWhile isspace with
    | nil =>
      rw [hd, List.append_nil] at hsplit
      have hskip : parseLine (text ++ e ++ [nul]) s = some s := by
        refine parseLine_skip _ (fun b hb => ?_) (.inr rfl)
        rcases List.mem_append.mp hb with hb | hb
        · rw [hsplit] at hb
          exact hblank b hb
        · exact he.blank b hb
      exact (hsame (Option.some.inj (h.symm.trans hskip))).elim
    | cons c rest =>
      have hspace := not_of_dropWhile hd
      rw [hd] at hsplit
      generalize text.takeWhile isspace = blanks at hsplit hblank
      subst hsplit
      have hblanks : Blanks blanks :=
        fun b hb => ⟨hblank b hb, (htext b (List.mem_append_left _ hb)).2⟩
      have hrest : OneLine (c :: rest) := fun b hb => htext b (List.mem_append_right _ hb)
      have hcons : blanks ++ c :: rest ++ e ++ [nul] = blanks ++ c :: (rest ++ e ++ [nul]) := by
        simp
      rw [hcons] at h
      by_cases hhash : c = hash
      · have hskip := parseLine_skip (s := s) (rest ++ e ++ [nul]) hblank
          (.inl hhash : c = hash ∨ c = nul)
        exact (hsame (Option.some.inj (h.symm.trans hskip))).elim
      by_cases hbracket : c = lbracket
      · -- a section is in error when it has no `]`
        rw [hbracket] at h hrest ⊢
        by_cases hclosed : rbracket ∈ rest
        · obtain ⟨name, tail, hname, hnot⟩ := List.eq_append_cons_of_mem hclosed
          have hsect :
              parseLine (blanks ++ lbracket :: (name ++ rbracket :: (tail ++ e ++ [nul]))) s
              = _ := parseLine_sect hblank fun b hb =>
            ⟨(hrest b (List.mem_cons_of_mem _ (by rw [hname]; exact List.mem_append_left _ hb))).1,
              fun hbe => hnot (hbe ▸ hb)⟩
          rw [show rest ++ e ++ [nul] = name ++ rbracket :: (tail ++ e ++ [nul]) by
            rw [hname]; simp, hsect] at h
          cases h
          exact (Bool.false_ne_true herror).elim
        · exact .sect hblanks (fun b hb => hrest b (List.mem_cons_of_mem _ hb)) hclosed
      have hplain : Plain c :=
        ⟨(hrest c List.mem_cons_self).1, hhash, hbracket, hspace⟩
      cases blanks with
      | cons a blanks =>
        by_cases hname : s.name = []
        · refine .continuation ?_ hblanks hplain hrest
          unfold ParseState.context
          exact if_pos hname
        · rw [parseLine_append hblank hplain hname] at h
          obtain ⟨q, -, h⟩ := Option.bind_eq_some_iff.mp h
          cases h
          rw [show (s.store q.1).error = s.error from rfl, hs] at herror
          exact (Bool.false_ne_true herror).elim
      | nil =>
        by_cases hsep : equals ∈ c :: rest ∨ colon ∈ c :: rest
        · have hnot := parseLine_entry_error hplain hrest he hsep
            (by rw [← h]; exact congrArg (parseLine · s) (by simp))
          rw [hnot] at herror
          exact (Bool.false_ne_true herror).elim
        · rw [not_or] at hsep
          exact .entry hplain hrest hsep.1 hsep.2
  · intro hbad
    rw [parseLine_malformed (fun hk => ParseState.context_none hk) hbad he] at h
    cases h
    exact (s.failed_frame text).1

/-! ## The pieces of a line -/

/-- Every pass is counted. -/
theorem readLines_lineNum {file : Bytes} (h : readLines file s = some s') :
    s.lineNum ≤ s'.lineNum ∧ (s.error = false → file ≠ [] → s.lineNum < s'.lineNum) := by
  induction hn : file.length using Nat.strongRecOn generalizing file s with
  | ind n ih =>
    by_cases herror : s.error = true
    · rw [readLines_error _ herror] at h
      cases h
      refine ⟨Nat.le_refl _, fun hs => ?_⟩
      rw [herror] at hs
      cases hs
    rw [Bool.not_eq_true] at herror
    by_cases hne : file = []
    · rw [hne, readLines_nil] at h
      cases h
      exact ⟨Nat.le_refl _, fun _ hne' => absurd hne hne'⟩
    rw [readLines_pass herror hne] at h
    obtain ⟨u, hu, h⟩ := Option.bind_eq_some_iff.mp h
    have hcount : u.lineNum = s.lineNum + 1 := parseLine_lineNum hu
    have hlt : (takeLine (MAXLINE - 1) file).2.length < n := by
      rw [← hn]
      exact takeLine_pos (by decide) hne
    have hle := (ih _ hlt h rfl).1
    rw [hcount] at hle
    exact ⟨Nat.le_of_succ_le hle, fun _ _ => hle⟩

/-- The first bytes of a line in error, with one that is not blank, are in error as well. -/
theorem Malformed.take {k : Context} {bad : Bytes} {n : Nat} (h : Malformed k bad)
    (hlen : (bad.takeWhile isspace).length < n) :
    Malformed k (bad.take n) ∧ ∀ s : ParseState, s.failed (bad.take n) = s.failed bad := by
  -- what is behind the first byte that is not blank does not matter
  have hcut : ∀ {blanks t : Bytes} {c : UInt8}, Blanks blanks → isspace c = false →
      ((blanks ++ c :: t).takeWhile isspace).length < n →
      ∃ m, (blanks ++ c :: t).take n = blanks ++ c :: t.take m
        ∧ ∀ s : ParseState, s.failed (blanks ++ c :: t.take m) = s.failed (blanks ++ c :: t) := by
    intro blanks text c hblanks hc hlen
    have hneg : ¬ isspace c = true := by
      rw [hc]
      exact Bool.false_ne_true
    have hblank : ∀ b ∈ blanks, isspace b = true := fun b hb => (hblanks b hb).1
    rw [List.takeWhile_append_of_pos hblank, List.takeWhile_cons_of_neg hneg, List.append_nil]
      at hlen
    have hdrop : ∀ t : Bytes, (blanks ++ c :: t).dropWhile isspace = c :: t := by
      intro t
      rw [List.dropWhile_append_of_pos hblank, List.dropWhile_cons_of_neg hneg]
    have hhead : ∀ t : Bytes, (blanks ++ c :: t).head? = (blanks ++ c :: text).head? := by
      intro t
      cases blanks with
      | nil => rfl
      | cons a blanks => rfl
    refine ⟨n - blanks.length - 1, ?_, fun s => ?_⟩
    · rw [List.take_append, List.take_of_length_le (Nat.le_of_lt hlen)]
      obtain ⟨m, hm⟩ : ∃ m, n - blanks.length = m + 1 := ⟨n - blanks.length - 1, by omega⟩
      rw [hm]
      rfl
    · unfold ParseState.failed
      rw [hdrop, hdrop, hhead]
      rfl
  cases h with
  | @sect blanks text hblanks htext hbracket =>
    obtain ⟨m, htake, hfailed⟩ := hcut hblanks (by decide) hlen
    rw [htake]
    exact ⟨.sect hblanks (fun b hb => htext b (List.mem_of_mem_take hb))
      (fun hm => hbracket (List.mem_of_mem_take hm)), hfailed⟩
  | @continuation a c blanks text hname hblanks hc htext =>
    obtain ⟨m, htake, hfailed⟩ := hcut hblanks hc.2.2.2 hlen
    rw [htake]
    refine ⟨.continuation hname hblanks hc fun b hb => ?_, hfailed⟩
    rcases List.mem_cons.mp hb with hb | hb
    · exact htext b (by rw [hb]; exact List.mem_cons_self)
    · exact htext b (List.mem_cons_of_mem _ (List.mem_of_mem_take hb))
  | @entry c text hc htext hequals hcolon =>
    have hnil : Blanks [] := fun b hb => absurd hb List.not_mem_nil
    obtain ⟨m, htake, hfailed⟩ := hcut (t := text) hnil hc.2.2.2 hlen
    have hsub : ∀ b ∈ c :: text.take m, b ∈ c :: text := by
      intro b hb
      rcases List.mem_cons.mp hb with hb | hb
      · rw [hb]
        exact List.mem_cons_self
      · exact List.mem_cons_of_mem _ (List.mem_of_mem_take hb)
    rw [List.nil_append] at htake
    rw [htake]
    exact ⟨.entry hc (fun b hb => htext b (hsub b hb)) (fun hm => hequals (hsub _ hm))
      (fun hm => hcolon (hsub _ hm)), hfailed⟩

variable {text e : Bytes}

/-- The pieces of a line that does not fit. -/
theorem readLines_long (htext : newline ∉ text) (he : Ending e) (hs : s.error = false)
    (hlong : MAXLINE ≤ (text ++ e).length) :
    readLines (text ++ e) s
      = (parseLine (text.take (MAXLINE - 1) ++ [nul]) { s with lineNum := s.lineNum + 1 }).bind
          (readLines (text.drop (MAXLINE - 1) ++ e))
      ∧ text.drop (MAXLINE - 1) ++ e ≠ [] := by
  have hpos : 0 < MAXLINE := by decide
  have hcut : MAXLINE - 1 ≤ text.length := by
    rcases he with he | he
    · rw [he, List.append_nil] at hlong
      omega
    · rw [he, List.length_append, List.length_singleton] at hlong
      omega
  have hne : text ++ e ≠ [] := by
    intro hnil
    rw [hnil, List.length_nil] at hlong
    omega
  constructor
  · rw [readLines_pass hs hne, takeLine_cut e htext hcut]
  · intro hnil
    have hlen := congrArg List.length hnil
    rw [List.length_append, List.length_drop, List.length_nil] at hlen
    rw [List.length_append] at hlong
    omega

/-- A line that fits is one pass of the loop. -/
theorem takenWhole_of_short (htext : newline ∉ text) (he : Ending e) (hs : s.error = false)
    (hne : text ++ e ≠ []) (hshort : (text ++ e).length < MAXLINE) : TakenWhole s (text ++ e) := by
  have hpass : takeLine (MAXLINE - 1) (text ++ e) = (text ++ e, []) := by
    rcases he with he | he
    · rw [he, List.append_nil] at hshort ⊢
      exact takeLine_end htext (Nat.le_sub_one_of_lt hshort)
    · rw [he, List.length_append, List.length_singleton] at hshort
      rw [he]
      exact takeLine_newline htext (Nat.lt_sub_of_add_lt hshort)
  unfold TakenWhole
  rw [readLines_pass hs hne, hpass]
  cases parseLine (text ++ e ++ [nul]) { s with lineNum := s.lineNum + 1 } with
  | none => rfl
  | some u => exact readLines_nil u

/-- So is one that the first piece shows to be in error. -/
theorem takenWhole_of_malformed (he : Ending e) (hs : s.error = false)
    (hbad : Malformed s.context text) (hfirst : (text.takeWhile isspace).length < MAXLINE - 1)
    (hlong : MAXLINE ≤ (text ++ e).length) : TakenWhole s (text ++ e) := by
  obtain ⟨hpiece, hfailed⟩ := hbad.take hfirst
  have hk : ∀ n, s.context.name = none → ({ s with lineNum := n } : ParseState).name = [] :=
    fun n hk => ParseState.context_none hk
  have herror : ∀ n, (({ s with lineNum := n } : ParseState).failed text).error = true :=
    fun n => (ParseState.failed_frame _ text).1
  have hparse := parseLine_malformed (e := []) (hk (s.lineNum + 1)) hpiece (.inl rfl)
  rw [List.append_nil, hfailed] at hparse
  unfold TakenWhole
  rw [(readLines_long hbad.oneLine he hs hlong).1, hparse, Option.bind_some,
    readLines_error _ (herror _), parseLine_malformed (hk (s.lineNum + 1)) hbad he]

/-- A piece of blanks is not in error. -/
theorem first_in_piece {n room : Nat} (hs : s.error = false)
    (hpiece : parseLine (text.take room ++ [nul]) { s with lineNum := n } = some s')
    (herror : s'.error = true) : (text.takeWhile isspace).length < room := by
  rw [← Nat.not_le]
  intro hge
  have hblank : ∀ b ∈ text.take room, isspace b = true := by
    intro b hb
    rw [← List.takeWhile_append_dropWhile (p := isspace) (l := text),
      List.take_append_of_le_length hge] at hb
    exact List.mem_takeWhile_imp (List.mem_of_mem_take hb)
  have hskip := parseLine_skip (s := { s with lineNum := n }) [] hblank
    (.inr rfl : nul = hash ∨ nul = nul)
  rw [hpiece] at hskip
  cases hskip
  rw [hs] at herror
  cases herror

/-- **When a line is taken whole.** -/
theorem takenWhole_iff (htext : OneLine text) (he : Ending e) (hs : s.error = false)
    (hne : text ++ e ≠ []) : TakenWhole s (text ++ e) ↔ Fits s (text ++ e) := by
  constructor
  · intro htaken
    by_cases hshort : (text ++ e).length < MAXLINE
    · exact .inl hshort
    obtain ⟨hread, hrest⟩ := readLines_long htext.oneLine he hs (Nat.le_of_not_lt hshort)
    obtain ⟨w, hwhole⟩ := parseLine_total (text ++ e) { s with lineNum := s.lineNum + 1 }
    obtain ⟨u, hpiece⟩ :=
      parseLine_total (text.take (MAXLINE - 1)) { s with lineNum := s.lineNum + 1 }
    have hreadw : readLines (text ++ e) s = some w := htaken.trans hwhole
    rw [hread, hpiece, Option.bind_some] at hreadw
    have hw : w.lineNum = s.lineNum + 1 := parseLine_lineNum hwhole
    have hu : u.lineNum = s.lineNum + 1 := parseLine_lineNum hpiece
    have herror : u.error = true := by
      -- a second piece would be counted
      rw [← Bool.not_eq_false]
      intro hgo
      have hlt := (readLines_lineNum hreadw).2 hgo hrest
      rw [hw, hu] at hlt
      exact Nat.lt_irrefl _ hlt
    rw [readLines_error _ herror] at hreadw
    cases hreadw
    have hbad := (parseLine_error_iff (s := { s with lineNum := s.lineNum + 1 }) htext he hs
      hwhole).mp herror
    exact .inr ⟨text, e, rfl, he, hbad, first_in_piece hs hpiece herror⟩
  · rintro (hshort | ⟨bad, e', hl, he', hbad, hfirst⟩)
    · exact takenWhole_of_short htext.oneLine he hs hne hshort
    · rcases Nat.lt_or_ge (text ++ e).length MAXLINE with hshort | hlong
      · exact takenWhole_of_short htext.oneLine he hs hne hshort
      · rw [hl] at hlong ⊢
        exact takenWhole_of_malformed he' hs hbad hfirst hlong

/-! ## Whole files -/

variable {ls : List Bytes} {p q : ParseState → Bytes → Prop}

theorem Lines.mem (h : Lines ls) {l : Bytes} (hl : l ∈ ls) :
    ∃ text e, l = text ++ e ∧ newline ∉ text ∧ Ending e ∧ text ++ e ≠ [] := by
  induction h with
  | nil => exact absurd hl List.not_mem_nil
  | @last text hne htext =>
    rw [List.mem_singleton.mp hl]
    exact ⟨text, [], (List.append_nil _).symm, htext, .inl rfl, by rwa [List.append_nil]⟩
  | @cons text ls htext hls ih =>
    rcases List.mem_cons.mp hl with hl | hl
    · exact ⟨text, [newline], hl, htext, .inr rfl, by simp⟩
    · exact ih hl

/-- The text of a line of a file without NUL bytes. -/
theorem Lines.oneLine (h : Lines ls) (hnul : ∀ l ∈ ls, nul ∉ l) {l : Bytes} (hl : l ∈ ls) :
    ∃ text e, l = text ++ e ∧ OneLine text ∧ Ending e ∧ text ++ e ≠ [] := by
  obtain ⟨text, e, hsplit, htext, he, hne⟩ := h.mem hl
  refine ⟨text, e, hsplit, fun b hb => ⟨fun hbn => ?_, fun hbn => htext (hbn ▸ hb)⟩, he, hne⟩
  refine hnul l hl ?_
  rw [hsplit, ← hbn]
  exact List.mem_append_left _ hb

theorem along_congr (h : ∀ l ∈ ls, ∀ s : ParseState, s.error = false → (p s l ↔ q s l))
    (s : ParseState) : Along p ls s ↔ Along q ls s := by
  induction ls generalizing s with
  | nil => exact Iff.rfl
  | cons l ls ih =>
    have hih := ih fun l hl => h l (List.mem_cons_of_mem _ hl)
    unfold Along
    by_cases herror : s.error = true
    · exact ⟨fun _ => .inl herror, fun _ => .inl herror⟩
    · rw [Bool.not_eq_true] at herror
      rw [h l List.mem_cons_self s herror]
      exact or_congr_right (and_congr_right fun _ =>
        forall_congr' fun s' => imp_congr_right fun _ => hih s')

/-- **Taken whole, the lines give what whole lines give.** -/
theorem readLines_eq_wholeLines (h : Lines ls) (htaken : Along TakenWhole ls s) :
    readLines ls.flatten s = wholeLines ls s := by
  induction h generalizing s with
  | nil => exact readLines_nil s
  | @last text hne htext =>
    by_cases herror : s.error = true
    · rw [wholeLines_stop _ herror, readLines_error _ herror]
    · have hl := (htaken.resolve_left herror).1
      rw [Bool.not_eq_true] at herror
      rw [wholeLines_pass herror, List.flatten_cons, List.flatten_nil, List.append_nil, hl]
      cases parseLine (text ++ [nul]) { s with lineNum := s.lineNum + 1 } with
      | none => rfl
      | some u => rfl
  | @cons text ls htext hls ih =>
    by_cases herror : s.error = true
    · rw [wholeLines_stop _ herror, readLines_error _ herror]
    · obtain ⟨hl, hrest⟩ := htaken.resolve_left herror
      rw [Bool.not_eq_true] at herror
      rw [wholeLines_pass herror, List.flatten_cons, List.append_assoc, List.singleton_append,
        readLines_append htext, hl]
      cases hparse : parseLine (text ++ [newline] ++ [nul])
          { s with lineNum := s.lineNum + 1 } with
      | none => rfl
      | some u => exact ih (hrest u hparse)

/-- The line whose pass ends in error is the one counted last. -/
theorem wholeLines_error (hs : s.error = false) (h : wholeLines ls s = some s')
    (herror : s'.error = true) :
    ∃ before l after u, ls = before ++ l :: after ∧ s'.lineNum = s.lineNum + before.length + 1
      ∧ wholeLines before s = some u ∧ u.error = false
      ∧ parseLine (l ++ [nul]) { u with lineNum := s'.lineNum } = some s' := by
  induction ls generalizing s with
  | nil =>
    cases h
    rw [hs] at herror
    cases herror
  | cons l ls ih =>
    rw [wholeLines_pass hs] at h
    obtain ⟨v, hparse, h⟩ := Option.bind_eq_some_iff.mp h
    have hv : v.lineNum = s.lineNum + 1 := parseLine_lineNum hparse
    by_cases hverror : v.error = true
    · rw [wholeLines_stop ls hverror] at h
      obtain rfl := Option.some.inj h
      refine ⟨[], l, ls, s, rfl, hv, rfl, hs, ?_⟩
      rw [hv]
      exact hparse
    · rw [Bool.not_eq_true] at hverror
      obtain ⟨before, l', after, u, hsplit, hnum, hbefore, hu, hlast⟩ := ih hverror h
      refine ⟨l :: before, l', after, u, by rw [hsplit]; rfl, ?_, ?_, hu, hlast⟩
      · rw [hnum, hv, List.length_cons]
        omega
      · rw [wholeLines_pass hs, hparse]
        exact hbefore

end Config

end Windz
