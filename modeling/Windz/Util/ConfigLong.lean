import Windz.Util.ConfigPhysical

/-!
# Long lines

Each piece of a long line is counted, and its first bytes decide what it is. So a line that
does not fit is noticed, unless it is in error and its first piece shows it: then `Parse`
returns there.
-/

namespace Windz

open Lib

namespace Config

variable {s s' : ParseState} {text e : Bytes} {ls : List Bytes} {p q : ParseState → Bytes → Prop}

/-! ## A long line is noticed -/

theorem physicalLines_append (htext : newline ∉ text) (rest : Bytes) :
    physicalLines (text ++ newline :: rest) = (text ++ [newline]) :: physicalLines rest := by
  induction text with
  | nil => exact if_pos rfl
  | cons c text ih =>
    have hc : c ≠ newline := fun hc => htext (by rw [hc]; exact List.mem_cons_self)
    rw [List.cons_append, physicalLines, if_neg hc,
      ih fun hm => htext (List.mem_cons_of_mem _ hm)]
    rfl

theorem readLines_total (file : Bytes) (s : ParseState) : ∃ s', readLines file s = some s' := by
  induction hn : file.length using Nat.strongRecOn generalizing file s with
  | ind n ih =>
    by_cases herror : s.error = true
    · exact ⟨s, readLines_error file herror⟩
    rw [Bool.not_eq_true] at herror
    by_cases hne : file = []
    · rw [hne]
      exact ⟨s, readLines_nil s⟩
    obtain ⟨u, hu⟩ := parseLine_total (takeLine (MAXLINE - 1) file).1
      { s with lineNum := s.lineNum + 1 }
    rw [readLines_pass herror hne, hu]
    exact ih _ (by rw [← hn]; exact takeLine_pos (by decide) hne) _ u rfl

/-- A line in error to go on with. -/
def badLine : Bytes := [97, newline]

theorem badLine_error (hs : s.error = false) :
    ∃ v, readLines badLine s = some v ∧ wholeLines (physicalLines badLine) s = some v
      ∧ v.error = true ∧ v.lineNum = s.lineNum + 1 := by
  have hbad : Malformed s.context [97] :=
    .entry ⟨by decide, by decide, by decide, by decide⟩ (by unfold OneLine; decide +kernel)
      (by decide)
      (by decide)
  have htaken : TakenWhole s ([97] ++ [newline]) :=
    takenWhole_of_short (by decide) (.inr rfl) hs (by simp) (by decide)
  have hparse := parseLine_malformed (s := { s with lineNum := s.lineNum + 1 })
    (fun hk => ParseState.context_none hk) hbad (.inr rfl : Ending [newline])
  obtain ⟨herror, -, hnum⟩ :=
    ParseState.failed_frame { s with lineNum := s.lineNum + 1 } [97]
  refine ⟨_, htaken.trans hparse, ?_, herror, hnum⟩
  rw [show physicalLines badLine = [[97] ++ [newline]] by decide, wholeLines_pass hs, hparse]
  rfl

/-- What `Parse` returns. -/
def ParseState.returned (s : ParseState) : Int := s.result.1

theorem ParseState.returned_error (h : s.error = true) : s.returned = s.lineNum := if_pos h

theorem ParseState.returned_ok (h : s.error = false) : s.returned = 0 :=
  if_neg (by rw [h]; exact Bool.false_ne_true)

theorem ParseState.returned_le (s : ParseState) : s.returned ≤ s.lineNum := by
  cases herror : s.error with
  | true => exact Int.le_of_eq (returned_error herror)
  | false =>
    rw [returned_ok herror]
    exact Int.natCast_nonneg _

/-- Behind a line that does not fit `Parse` may return another number than it should. -/
theorem long_line_miscounted (htext : OneLine text) (hs : s.error = false)
    (hlong : MAXLINE - 1 ≤ text.length)
    (hnot : Malformed s.context text → ¬ (text.takeWhile isspace).length < MAXLINE - 1) :
    ∃ rest, (rest = [] ∨ rest = badLine)
      ∧ (readLines (text ++ newline :: rest) s).map ParseState.returned
        ≠ (wholeLines ((text ++ [newline]) :: physicalLines rest) s).map ParseState.returned := by
  have hlong' : MAXLINE ≤ (text ++ [newline]).length := by
    rw [List.length_append, List.length_singleton]
    exact Nat.le_add_of_sub_le hlong
  obtain ⟨hread, hrest⟩ := readLines_long htext.oneLine (.inr rfl) hs hlong'
  obtain ⟨w, hwhole⟩ := parseLine_total (text ++ [newline]) { s with lineNum := s.lineNum + 1 }
  obtain ⟨u, hpiece⟩ := parseLine_total (text.take (MAXLINE - 1))
    { s with lineNum := s.lineNum + 1 }
  obtain ⟨v, hv⟩ := readLines_total (text ++ [newline]) s
  have hw : w.lineNum = s.lineNum + 1 := parseLine_lineNum hwhole
  have hu : u.lineNum = s.lineNum + 1 := parseLine_lineNum hpiece
  have hnoerror : u.error = true → w.error = false := by
    intro herror
    rw [← Bool.not_eq_true]
    intro hwerror
    have hbad := (parseLine_error_iff (s := { s with lineNum := s.lineNum + 1 }) htext
      (.inr rfl) hs hwhole).mp hwerror
    exact hnot hbad (first_in_piece hs hpiece herror)
  have hfirst : wholeLines [text ++ [newline]] s = some w := by
    rw [wholeLines_pass hs, hwhole]
    rfl
  rw [hread, hpiece, Option.bind_some] at hv
  have hcode : readLines (text ++ [newline]) s = some v := by
    rw [hread, hpiece, Option.bind_some, hv]
  by_cases huerror : u.error = true
  · -- the first piece is in error and the line is not
    rw [readLines_error _ huerror] at hv
    cases hv
    refine ⟨[], .inl rfl, ?_⟩
    rw [hcode, show physicalLines [] = [] from rfl, hfirst]
    intro heq
    have heq := Option.some.inj heq
    rw [ParseState.returned_error huerror, ParseState.returned_ok (hnoerror huerror), hu] at heq
    omega
  · rw [Bool.not_eq_true] at huerror
    have hcount : s.lineNum + 2 ≤ v.lineNum := by
      have hlt := (readLines_lineNum hv).2 huerror hrest
      rw [hu] at hlt
      exact hlt
    by_cases hverror : v.error = true
    · refine ⟨[], .inl rfl, ?_⟩
      rw [hcode, show physicalLines [] = [] from rfl, hfirst]
      intro heq
      have heq := Option.some.inj heq
      have hle := w.returned_le
      rw [← heq, ParseState.returned_error hverror, hw] at hle
      omega
    · -- all pieces are counted
      rw [Bool.not_eq_true] at hverror
      obtain ⟨v', hv', -, herror', hnum'⟩ := badLine_error hverror
      refine ⟨badLine, .inr rfl, ?_⟩
      rw [readLines_append htext.oneLine, hcode, Option.bind_some, hv']
      have hwhole' : ∃ w', wholeLines ((text ++ [newline]) :: physicalLines badLine) s = some w'
          ∧ w'.lineNum ≤ s.lineNum + 2 := by
        rw [wholeLines_pass hs, hwhole, Option.bind_some]
        by_cases hwerror : w.error = true
        · exact ⟨w, wholeLines_stop _ hwerror, by rw [hw]; exact Nat.le_succ _⟩
        · rw [Bool.not_eq_true] at hwerror
          obtain ⟨w', -, hw', -, hnum⟩ := badLine_error hwerror
          exact ⟨w', hw', by rw [hnum, hw]⟩
      obtain ⟨w', hw', hle⟩ := hwhole'
      rw [hw']
      intro heq
      have heq := Option.some.inj heq
      have hret := w'.returned_le
      rw [← heq, ParseState.returned_error herror', hnum'] at hret
      omega

theorem unfit_line_shows {e : Bytes} (htext : OneLine text) (he : Ending e) (hs : s.error = false)
    (hnot : ¬ Fits s (text ++ e)) :
    ∃ rest, (rest = [] ∨ rest = [newline] ∨ rest = badLine ∨ rest = newline :: badLine)
      ∧ (readLines (text ++ e ++ rest) s).map ParseState.returned
        ≠ (wholeLines (physicalLines (text ++ e ++ rest)) s).map ParseState.returned := by
  have hlong : MAXLINE - 1 ≤ text.length := by
    have hge := Nat.le_of_not_lt fun hlt => hnot (.inl hlt)
    rcases he with he | he
    · rw [he, List.append_nil] at hge
      omega
    · rw [he, List.length_append, List.length_singleton] at hge
      omega
  obtain ⟨rest, hrest, hne⟩ := long_line_miscounted htext hs hlong
    fun hbad hfirst => hnot (.inr ⟨text, e, rfl, he, hbad, hfirst⟩)
  rw [← physicalLines_append htext.oneLine] at hne
  rcases he with he | he
  · refine ⟨newline :: rest, ?_, ?_⟩
    · rcases hrest with hr | hr
      · exact .inr (.inl (by rw [hr]))
      · exact .inr (.inr (.inr (by rw [hr])))
    · rw [he, List.append_nil]
      exact hne
  · refine ⟨rest, ?_, ?_⟩
    · rcases hrest with hr | hr
      · exact .inl hr
      · exact .inr (.inr (.inl hr))
    · rw [he, List.append_assoc]
      exact hne

/-- **A line that does not fit shows** in what `Parse` returns for a file that begins as this one
does. -/
theorem unfit_shows (h : Lines ls) (hnul : ∀ l ∈ ls, nul ∉ l) (hnot : ¬ Along Fits ls s) :
    ∃ before rest, before <+: ls
      ∧ (rest = [] ∨ rest = [newline] ∨ rest = badLine ∨ rest = newline :: badLine)
      ∧ (readLines (before.flatten ++ rest) s).map ParseState.returned
        ≠ (wholeLines (physicalLines (before.flatten ++ rest)) s).map ParseState.returned := by
  have honeLine : ∀ {text e : Bytes}, newline ∉ text → nul ∉ text ++ e → OneLine text :=
    fun htext hnul b hb => ⟨fun hbn => hnul (List.mem_append_left _ (hbn ▸ hb)),
      fun hbn => htext (hbn ▸ hb)⟩
  induction h generalizing s with
  | nil => exact absurd trivial hnot
  | @last text hne htext =>
    rw [Along, not_or, Bool.not_eq_true] at hnot
    obtain ⟨hs, hnot⟩ := hnot
    have hfits : ¬ Fits s (text ++ []) := by
      intro hfits
      rw [List.append_nil] at hfits
      exact hnot ⟨hfits, fun _ _ => trivial⟩
    have hone : OneLine text := honeLine (e := []) htext (by
      rw [List.append_nil]
      exact hnul text List.mem_cons_self)
    obtain ⟨rest, hrest, hshow⟩ := unfit_line_shows hone (.inl rfl) hs hfits
    refine ⟨[text], rest, List.prefix_refl _, hrest, ?_⟩
    rw [List.append_nil] at hshow
    rw [show [text].flatten = text by simp]
    exact hshow
  | @cons text ls htext hls ih =>
    rw [Along, not_or, Bool.not_eq_true] at hnot
    obtain ⟨hs, hnot⟩ := hnot
    have hone : OneLine text := honeLine htext (hnul _ List.mem_cons_self)
    by_cases hfits : Fits s (text ++ [newline])
    · -- the line fits, and one of those behind it does not
      obtain ⟨u, hparse, hnot⟩ : ∃ u, parseLine (text ++ [newline] ++ [nul])
          { s with lineNum := s.lineNum + 1 } = some u ∧ ¬ Along Fits ls u := by
        by_contra hall
        refine hnot ⟨hfits, fun u hu => ?_⟩
        by_contra hu'
        exact hall ⟨u, hu, hu'⟩
      obtain ⟨before, rest, hpre, hrest, hshow⟩ :=
        ih (fun l hl => hnul l (List.mem_cons_of_mem _ hl)) hnot
      have htaken := (takenWhole_iff hone (.inr rfl) hs (by simp)).mpr hfits
      unfold TakenWhole at htaken
      refine ⟨(text ++ [newline]) :: before, rest, List.prefix_cons_inj _ |>.mpr hpre, hrest, ?_⟩
      rw [show ((text ++ [newline]) :: before).flatten ++ rest
          = text ++ newline :: (before.flatten ++ rest) by simp, readLines_append htext, htaken,
        hparse, Option.bind_some, physicalLines_append htext, wholeLines_pass hs, hparse]
      exact hshow
    · obtain ⟨rest, hrest, hshow⟩ := unfit_line_shows hone (.inr rfl) hs hfits
      refine ⟨[text ++ [newline]], rest, ⟨ls, rfl⟩, hrest, ?_⟩
      rw [show [text ++ [newline]].flatten = text ++ [newline] by simp]
      exact hshow

/-! ## `Parse` -/

theorem along_fits_of_short (h : ∀ l ∈ ls, l.length < MAXLINE) (s : ParseState) :
    Along Fits ls s := by
  induction ls generalizing s with
  | nil => trivial
  | cons l ls ih =>
    exact .inr ⟨.inl (h l List.mem_cons_self),
      fun s' _ => ih (fun l hl => h l (List.mem_cons_of_mem _ hl)) s'⟩

theorem not_nul_of_mem {file : Bytes} (hnul : nul ∉ file) : ∀ l ∈ physicalLines file, nul ∉ l := by
  intro l hl hm
  refine hnul ?_
  rw [← flatten_physicalLines file]
  exact List.mem_flatten_of_mem hl hm

theorem taken_iff_fits {file : Bytes} (hnul : nul ∉ file) (s : ParseState) :
    Along TakenWhole (physicalLines file) s ↔ Along Fits (physicalLines file) s := by
  have hlines := lines_physicalLines file
  refine along_congr (fun l hl u hu => ?_) s
  obtain ⟨text, e, hsplit, htext, he, hne⟩ := hlines.oneLine (not_nul_of_mem hnul) hl
  rw [hsplit]
  exact takenWhole_iff htext he hu hne

/-- **When `Parse` takes each physical line for one.** For every file without NUL bytes: what the
loop makes of each physical line is what one pass makes of it exactly when each fits into the array,
or is in error with its first byte that is not blank in the array; then `Parse` gives what whole
lines give, and a positive number that it returns is that of the physical line in error; and
otherwise it returns a wrong number for a file that begins with lines of this one. -/
theorem lines_whole_iff (c : Config) (file : Bytes) (hnul : nul ∉ file) :
    (Along TakenWhole (physicalLines file) (.start c)
        ↔ Along Fits (physicalLines file) (.start c))
    ∧ (Along Fits (physicalLines file) (.start c) →
        c.parse (some file) = c.parseWhole file
        ∧ ∀ (n : Int) (c' : Config), c.parse (some file) = some (n, c') → 0 < n →
          ∃ before l after u bad e, physicalLines file = before ++ l :: after
            ∧ n = before.length + 1 ∧ wholeLines before (.start c) = some u
            ∧ l = bad ++ e ∧ Ending e ∧ Malformed u.context bad)
    ∧ (¬ Along Fits (physicalLines file) (.start c) →
        ∃ before rest, before <+: physicalLines file
          ∧ (rest = [] ∨ rest = [newline] ∨ rest = badLine ∨ rest = newline :: badLine)
          ∧ (c.parse (some (before.flatten ++ rest))).map (·.1)
            ≠ (c.parseWhole (before.flatten ++ rest)).map (·.1)) := by
  have hlines := lines_physicalLines file
  refine ⟨taken_iff_fits hnul _, fun hfits => ?_, fun hnot => ?_⟩
  · have hread := readLines_eq_wholeLines hlines ((taken_iff_fits hnul _).mpr hfits)
    rw [flatten_physicalLines] at hread
    have hparse : c.parse (some file) = c.parseWhole file := by
      rw [parse_eq_readLines, hread]
      rfl
    refine ⟨hparse, fun n c' hn hpos => ?_⟩
    rw [hparse] at hn
    obtain ⟨v, hv, hresult⟩ := Option.map_eq_some_iff.mp hn
    have hret : v.returned = n := congrArg Prod.fst hresult
    have herror : v.error = true := by
      rw [← Bool.not_eq_false]
      intro hok
      rw [ParseState.returned_ok hok] at hret
      omega
    rw [ParseState.returned_error herror] at hret
    obtain ⟨before, l, after, u, hsplit, hnum, hbefore, hu, hlast⟩ :=
      wholeLines_error rfl hv herror
    obtain ⟨text, e, htext, hone, he, -⟩ := hlines.oneLine (not_nul_of_mem hnul)
      (show l ∈ physicalLines file by rw [hsplit]; simp)
    rw [htext] at hlast
    refine ⟨before, l, after, u, text, e, hsplit, ?_, hbefore, htext, he, ?_⟩
    · rw [← hret, hnum]
      show ((0 + before.length + 1 : Nat) : Int) = _
      omega
    · exact (parseLine_error_iff (s := { u with lineNum := v.lineNum }) hone he hu hlast).mp herror
  · obtain ⟨before, rest, hpre, hrest, hshow⟩ := unfit_shows hlines (not_nul_of_mem hnul) hnot
    refine ⟨before, rest, hpre, hrest, ?_⟩
    rw [parse_eq_readLines, parseWhole, Option.map_map, Option.map_map]
    exact hshow

/-- A comment, and a line without a separator behind it. -/
theorem lines_whole_iff_small :
    Along TakenWhole (physicalLines [35, 10, 97, 10]) (.start create)
    ∧ create.parse (some [35, 10, 97, 10]) = create.parseWhole [35, 10, 97, 10] := by
  have hfits : Along Fits (physicalLines [35, 10, 97, 10]) (.start create) :=
    along_fits_of_short (by decide) _
  obtain ⟨hiff, hwhole, -⟩ := lines_whole_iff create [35, 10, 97, 10] (by decide)
  exact ⟨hiff.mpr hfits, (hwhole hfits).1⟩

/-- A comment of 1024 bytes is in error, in its second line. -/
theorem long_comment_in_error : ¬ ∀ (c : Config) (file : Bytes), nul ∉ file →
    c.parse (some file) = c.parseWhole file := by
  intro hclaim
  have hparse := hclaim create (hash :: List.replicate 1023 120) (by decide +kernel)
  have hreturns : (create.parse (some (hash :: List.replicate 1023 120))).map (·.1) = some 2
      ∧ (create.parseWhole (hash :: List.replicate 1023 120)).map (·.1) = some 0 := by
    decide +kernel
  rw [hparse, hreturns.2] at hreturns
  exact absurd hreturns.1 (by decide)

end Config

end Windz
