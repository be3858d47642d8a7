import Windz.Util.ConfigLoop

/-!
# The value of an entry

What `Parse` stores for a line that gives a name and a value, or one more value. In the name
and the value any byte may stand that the form of the line does not rule out, so a NUL
may, which ends the line for the `LineParser`; the lemmas speak of the line up to
there.
-/

namespace Windz

open Lib

namespace Config

variable {s s' : ParseState} {c : UInt8} {name before after value w more : Bytes}

/-! ## The map -/

/-- A key has one more value than before. -/
theorem lookup_pushBack_ne (c : Config) (key value : Bytes) :
    (c.pushBack key value).config.lookup key ≠ c.config.lookup key := by
  intro h
  rw [lookup_pushBack, if_pos rfl] at h
  have hlen := congrArg (fun l : Option (List Bytes) => (l.getD []).length) h
  dsimp only [Option.getD_some] at hlen
  rw [List.length_append, List.length_singleton] at hlen
  exact Nat.succ_ne_self _ hlen

theorem pushBack_ne (c : Config) (key value : Bytes) : c.pushBack key value ≠ c :=
  fun h => lookup_pushBack_ne c key value (congrArg (fun c : Config => c.config.lookup key) h)

theorem pushBack_inj {c : Config} {key key' value value' : Bytes}
    (h : c.pushBack key value = c.pushBack key' value') : key = key' ∧ value = value' := by
  have hlookup : (c.pushBack key value).config.lookup key
      = (c.pushBack key' value').config.lookup key := congrArg (fun c => c.config.lookup key) h
  by_cases hk : key = key'
  · rw [lookup_pushBack, lookup_pushBack, if_pos rfl, if_pos hk, ← hk] at hlookup
    exact ⟨hk, List.singleton_inj.mp (List.append_cancel_left (Option.some.inj hlookup))⟩
  · rw [lookup_pushBack c key', if_neg hk] at hlookup
    exact absurd hlookup (lookup_pushBack_ne c key value)

/-- No letter becomes a byte before the letters. -/
theorem tolower_eq_iff {b c : UInt8} (hb : b < 65) : tolower c = b ↔ c = b := by
  have hb' : b.toNat < 65 := UInt8.lt_iff_toNat_lt.mp hb
  unfold tolower
  split
  · rename_i hc
    have hlow : 65 ≤ c.toNat := UInt8.le_iff_toNat_le.mp hc.1
    have hhigh : c.toNat ≤ 90 := UInt8.le_iff_toNat_le.mp hc.2
    have hadd : (c + 32).toNat = c.toNat + 32 := by
      rw [UInt8.toNat_add]
      exact Nat.mod_eq_of_lt (by show c.toNat + 32 < 256; omega)
    constructor
    · intro he
      rw [← he, hadd] at hb'
      omega
    · intro he
      rw [he] at hlow
      omega
  · exact Iff.rfl

/-- Such a byte stands in both of two names with the same key, or in none. -/
theorem mem_of_makeKey {sect name name' : Bytes} {b : UInt8} (hb : b < 65)
    (h : makeKey sect name = makeKey sect name') (hmem : b ∈ name) : b ∈ name' := by
  have hmap : name.map tolower = name'.map tolower := by
    unfold makeKey at h
    rw [List.map_append, List.map_append, List.map_cons, List.map_cons] at h
    exact (List.cons.inj (List.append_cancel_left h)).2
  have hin : b ∈ name.map tolower := List.mem_map.mpr ⟨b, hmem, (tolower_eq_iff hb).mpr rfl⟩
  rw [hmap] at hin
  obtain ⟨c, hc, hcb⟩ := List.mem_map.mp hin
  rwa [(tolower_eq_iff hb).mp hcb] at hc

/-! ## A line and its newline -/

/-- **A line that fits without its newline.** Where that does not fit in behind it, it is one more
pass, which changes nothing but the count. -/
theorem readLines_line {line e : Bytes} (hline : newline ∉ line) (he : Ending e)
    (hs : s.error = false) (hne : line ≠ []) (hlen : line.length < MAXLINE) :
    ∃ e' u v, Ending e' ∧ readLines (line ++ e) s = some v
      ∧ parseLine (line ++ e' ++ [nul]) { s with lineNum := s.lineNum + 1 } = some u
      ∧ v.error = u.error ∧ v.name = u.name ∧ v.config = u.config := by
  have hne' : line ++ e ≠ [] := fun hnil => hne (List.append_eq_nil_iff.mp hnil).1
  have hle : line.length ≤ MAXLINE - 1 := Nat.le_sub_one_of_lt hlen
  have hshort : takeLine (MAXLINE - 1) (line ++ e) = (line ++ e, []) ∨ e = [newline]
      ∧ takeLine (MAXLINE - 1) (line ++ e) = (line, [newline]) := by
    rcases he with he | he
    · rw [he, List.append_nil]
      exact .inl (takeLine_end hline hle)
    · rw [he]
      rcases Nat.lt_or_eq_of_le hle with hlt | heq
      · exact .inl (takeLine_newline hline hlt)
      · refine .inr ⟨rfl, ?_⟩
        rw [takeLine_cut [newline] hline (Nat.le_of_eq heq.symm), ← heq, List.take_length,
          List.drop_length]
        rfl
  rcases hshort with htake | ⟨-, htake⟩
  · obtain ⟨u, hu⟩ := parseLine_total (line ++ e) { s with lineNum := s.lineNum + 1 }
    refine ⟨e, u, u, he, ?_, hu, rfl, rfl, rfl⟩
    rw [readLines_pass hs hne', htake, hu]
    exact readLines_nil u
  · obtain ⟨u, hu⟩ := parseLine_total line { s with lineNum := s.lineNum + 1 }
    have hpass : readLines (line ++ e) s = readLines [newline] u := by
      rw [readLines_pass hs hne', htake, hu]
      rfl
    have hline' : parseLine (line ++ [] ++ [nul]) { s with lineNum := s.lineNum + 1 } = some u := by
      rw [List.append_nil]
      exact hu
    by_cases herror : u.error = true
    · refine ⟨[], u, u, .inl rfl, ?_, hline', rfl, rfl, rfl⟩
      rw [hpass, readLines_error _ herror]
    · rw [Bool.not_eq_true] at herror
      refine ⟨[], u, { u with lineNum := u.lineNum + 1 }, .inl rfl, ?_, hline', rfl, rfl, rfl⟩
      have hskip : parseLine ([newline] ++ nul :: []) { u with lineNum := u.lineNum + 1 } = _ :=
        parseLine_skip [] (by decide +kernel) (.inr rfl)
      rw [hpass, readLines_pass herror (by simp),
        show takeLine (MAXLINE - 1) [newline] = ([newline], []) by decide, hskip]
      exact readLines_nil _

/-- The loop stores `value` under `name`, and goes on. -/
def Stores (s : ParseState) (line name value : Bytes) : Prop :=
  ∃ s', readLines line s = some s' ∧ s'.error = false
    ∧ s'.config = s.config.pushBack (makeKey s.sect name) value

theorem stores_of_parse {line e : Bytes} (hline : newline ∉ line) (he : Ending e)
    (hs : s.error = false) (hne : line ≠ []) (hlen : line.length < MAXLINE)
    (h : ∀ e', Ending e' → ∀ n, ∃ u,
      parseLine (line ++ e' ++ [nul]) { s with lineNum := n } = some u ∧ u.error = false
        ∧ u.config = s.config.pushBack (makeKey s.sect name) value) :
    Stores s (line ++ e) name value := by
  obtain ⟨e', u, v, he', hread, hparse, herror, -, hconfig⟩ := readLines_line hline he hs hne hlen
  obtain ⟨u', hu', herror', hconfig'⟩ := h e' he' (s.lineNum + 1)
  rw [hparse, Option.some.injEq] at hu'
  rw [← hu'] at herror' hconfig'
  exact ⟨v, hread, herror.trans herror', hconfig.trans hconfig'⟩

theorem parse_of_stores {line e : Bytes} (hline : newline ∉ line) (he : Ending e)
    (hs : s.error = false) (hne : line ≠ []) (hlen : line.length < MAXLINE)
    (h : Stores s (line ++ e) name value) :
    ∃ e' n u, Ending e' ∧ parseLine (line ++ e' ++ [nul]) { s with lineNum := n } = some u
      ∧ u.error = false ∧ u.config = s.config.pushBack (makeKey s.sect name) value := by
  obtain ⟨e', u, v, he', hread, hparse, herror, -, hconfig⟩ := readLines_line hline he hs hne hlen
  obtain ⟨w, hw, hwerror, hwconfig⟩ := h
  rw [hread, Option.some.injEq] at hw
  rw [← hw] at hwerror hwconfig
  exact ⟨e', s.lineNum + 1, u, he', hparse, herror ▸ hwerror, hconfig ▸ hwconfig⟩

/-! ## The line up to a NUL -/

/-- What is seen of a word, and what is behind it. -/
theorem visible_split (value e : Bytes) :
    ∃ w e' rest, value ++ e ++ [nul] = w ++ (e' ++ nul :: rest) ∧ (e' = [] ∨ e' = e) ∧ nul ∉ w
      ∧ (∀ b ∈ w, b ∈ value) ∧ (w = value ↔ nul ∉ value) := by
  by_cases hnul : nul ∈ value
  · obtain ⟨w, rest, hsplit, hw⟩ := List.eq_append_cons_of_mem hnul
    refine ⟨w, [], rest ++ e ++ [nul], ?_, .inl rfl, hw, fun b hb => ?_, fun hwv => ?_,
      fun hnot => absurd hnul hnot⟩
    · rw [hsplit]
      simp
    · rw [hsplit]
      exact List.mem_append_left _ hb
    · rw [← hwv] at hnul
      exact absurd hnul hw
  · exact ⟨value, e, [], by simp, .inr rfl, hnul, fun b hb => hb, fun _ => hnul, fun _ => rfl⟩

theorem seek_before {stop : UInt8 → Bool} {mem : Bytes} {i j : Nat} (h : seek stop mem i = some j) :
    ∀ b ∈ (mem.drop i).take (j - i), stop b = false := by
  obtain ⟨k, hk, hj⟩ := Option.map_eq_some_iff.mp h
  obtain ⟨hlt, -, hbefore⟩ := List.findIdx?_eq_some_iff_getElem.mp hk
  rw [← hj, Nat.add_sub_cancel_left]
  intro b hb
  obtain ⟨n, hn, hget⟩ := List.mem_iff_getElem.mp hb
  rw [List.length_take] at hn
  have hnk : n < k := Nat.lt_of_lt_of_le hn (Nat.min_le_left _ _)
  rw [List.getElem_take] at hget
  rw [← hget]
  exact Bool.eq_false_iff.mpr (hbefore n hnk)

theorem strip_mem {line t : Bytes} {first last : Nat} {b : UInt8}
    (h : LineParser.strip line first last = some t) (hb : b ∈ t) :
    b ∈ (line.drop first).take (last - first) := by
  unfold LineParser.strip at h
  obtain ⟨part, hpart, htrim⟩ := Option.map_eq_some_iff.mp h
  rw [← htrim] at hb
  have hmem : b ∈ part :=
    (List.dropWhile_suffix _).subset ((List.rdropWhile_prefix _ _).subset hb)
  rw [← Option.some.inj (Option.ite_none_right_eq_some.mp hpart).2] at hmem
  exact hmem

/-- What `Till` gives has no NUL in it. -/
theorem till_no_nul {line : Bytes} {i j : Nat} {c : UInt8} {t : Bytes}
    (h : LineParser.till line i c = some (t, j)) : nul ∉ t := by
  unfold LineParser.till at h
  simp only [Option.bind_eq_bind, Option.bind_eq_some_iff] at h
  obtain ⟨first, -, last, hseek, b, -, h⟩ := h
  split at h
  · cases h
    exact List.not_mem_nil
  · obtain ⟨t', hstrip, h⟩ := Option.bind_eq_some_iff.mp h
    cases h
    intro hmem
    have hstop := seek_before hseek nul (strip_mem hstrip hmem)
    simp at hstop

/-! ## Entries -/

theorem parseName_no_nul {line : Bytes} {i : Nat} {p : Bytes × Bool × Nat}
    (h : parseName line i = some p) : nul ∉ p.1 := by
  unfold parseName at h
  simp only [Option.bind_eq_bind, Option.bind_eq_some_iff] at h
  obtain ⟨q, hq, q', -, h⟩ := h
  split at h
  · cases h
    exact till_no_nul hq
  · simp only [Option.bind_eq_some_iff] at h
    obtain ⟨r, hr, r', -, h⟩ := h
    cases h
    exact till_no_nul hr

/-- A line that begins like an entry stores nothing under a name with a NUL in it. -/
theorem entry_no_nul {line : Bytes} (hspace : isspace c = false) (hhash : c ≠ hash)
    (hbracket : c ≠ lbracket) (h : parseLine (c :: line) s = some s') (hname : nul ∈ name) :
    s'.config ≠ s.config.pushBack (makeKey s.sect name) value := by
  by_cases hnul : c = nul
  · have hskip := parseLine_skip (s := s) line (List.forall_mem_nil _)
      (.inr hnul : c = hash ∨ c = nul)
    rw [List.nil_append, h, Option.some.injEq] at hskip
    rw [hskip]
    exact (pushBack_ne _ _ _).symm
  · rw [parseLine_entry ⟨hnul, hhash, hbracket, hspace⟩] at h
    obtain ⟨p, hp, h⟩ := Option.bind_eq_some_iff.mp h
    split at h
    · obtain ⟨q, -, h⟩ := Option.bind_eq_some_iff.mp h
      cases h
      intro heq
      exact parseName_no_nul hp (mem_of_makeKey (by decide) (pushBack_inj heq).1.symm hname)
    · cases h
      exact (pushBack_ne _ _ _).symm

/-- An entry with `:` that has `=` in its value, before any NUL. -/
theorem parseLine_late_equals (hc : Plain c)
    (hname : ∀ b ∈ c :: name, b ≠ nul ∧ b ≠ equals ∧ b ≠ colon)
    (hbefore : ∀ b ∈ before, isspace b = true) (hafter : ∀ b ∈ after, isspace b = true)
    (hw : ∀ b ∈ w, b ≠ nul) (hequals : equals ∈ w)
    (h : parseLine (c :: name ++ before ++ colon :: (after ++ w ++ more)) s = some s') :
    s'.config ≠ s.config.pushBack (makeKey s.sect (c :: name)) value := by
  obtain ⟨w₁, w₂, hsplit, hw₁⟩ := List.eq_append_cons_of_mem hequals
  generalize hfull : c :: name ++ before ++ colon :: (after ++ w₁) = full
  have hline : c :: name ++ before ++ colon :: (after ++ w ++ more)
      = full ++ equals :: (w₂ ++ more) := by
    rw [← hfull, hsplit]
    simp
  have hfullname : ∀ b ∈ full, b ≠ nul ∧ b ≠ equals := by
    intro b hb
    rw [← hfull] at hb
    have hblank : ∀ {t : Bytes}, (∀ b ∈ t, isspace b = true) → b ∈ t → b ≠ nul ∧ b ≠ equals :=
      fun ht hb => ⟨ne_of_isspace (ht b hb) (by decide), ne_of_isspace (ht b hb) (by decide)⟩
    rcases List.mem_append.mp hb with hb | hb
    · rcases List.mem_append.mp hb with hb | hb
      · exact ⟨(hname b hb).1, (hname b hb).2.1⟩
      · exact hblank hbefore hb
    rcases List.mem_cons.mp hb with hb | hb
    · rw [hb]
      decide
    rcases List.mem_append.mp hb with hb | hb
    · exact hblank hafter hb
    · refine ⟨hw b ?_, fun hbe => hw₁ (hbe ▸ hb)⟩
      rw [hsplit]
      exact List.mem_append_left _ hb
  have hparse : parseName (c :: (name ++ before ++ colon :: (after ++ w ++ more))) 0
      = some (trim isspace full, true, 0 + full.length) :=
    parseName_equals hline hfullname
  rw [List.cons_append, List.cons_append, parseLine_entry hc, hparse, Option.bind_some,
    if_pos rfl] at h
  obtain ⟨q, -, h⟩ := Option.bind_eq_some_iff.mp h
  cases h
  intro heq
  -- the name found has a `:` in it
  have hcolon : colon ∈ trim isspace full := by
    refine mem_trim (by decide) ?_
    rw [← hfull]
    simp
  have hin := mem_of_makeKey (by decide) (pushBack_inj heq).1 hcolon
  exact (hname colon hin).2.2 rfl

/-- An entry line with a separator of either kind, and nothing behind the value. -/
structure EntryLine (sep c : UInt8) (name before after value : Bytes) : Prop where
  separator : sep = equals ∨ sep = colon
  first : c ≠ hash ∧ c ≠ lbracket
  name_word : ∀ b ∈ c :: name, isspace b = false ∧ b ≠ equals ∧ b ≠ colon
  before_blank : Blanks before
  after_blank : Blanks after
  value_ne : value ≠ []
  value_word : ∀ b ∈ value, isspace b = false
  short : (c :: name ++ before ++ sep :: (after ++ value)).length < MAXLINE

theorem newline_of_isspace {t : Bytes} (h : ∀ b ∈ t, isspace b = false) : newline ∉ t :=
  fun hm => absurd (h _ hm) (by decide)

theorem EntryLine.oneLine {sep : UInt8} (h : EntryLine sep c name before after value) :
    newline ∉ c :: name ++ before ++ sep :: (after ++ value) := by
  have hsep : newline ≠ sep := by
    rcases h.separator with hs | hs
    · rw [hs]
      decide
    · rw [hs]
      decide
  refine List.not_mem_append (List.not_mem_append ?_ h.before_blank.oneLine)
    (List.not_mem_cons_of_ne_of_not_mem hsep
      (List.not_mem_append h.after_blank.oneLine (newline_of_isspace h.value_word)))
  exact newline_of_isspace fun b hb => (h.name_word b hb).1

theorem EntryLine.plain {sep : UInt8} (h : EntryLine sep c name before after value)
    (hnul : nul ∉ c :: name) : Plain c :=
  ⟨fun hc => hnul (by rw [hc]; exact List.mem_cons_self), h.first.1, h.first.2,
    (h.name_word c List.mem_cons_self).1⟩

/-- What a pass makes of it, `w` being what is seen of the value. -/
theorem EntryLine.parse {sep : UInt8} {e : Bytes} (rest : Bytes)
    (h : EntryLine sep c name before after value) (hnul : nul ∉ c :: name) (hwnul : nul ∉ w)
    (hw : ∀ b ∈ w, b ∈ value) (he : Ending e) (hequals : sep = equals ∨ equals ∉ w)
    (s : ParseState) :
    parseLine (c :: name ++ before ++ sep :: (after ++ w ++ (e ++ nul :: rest))) s
      = some ({ s with name := c :: name, error := false }.store w) := by
  have hc : Plain c := h.plain hnul
  have hname : ∀ b ∈ c :: name, b ≠ nul ∧ b ≠ equals ∧ b ≠ colon :=
    fun b hb => ⟨fun hbn => hnul (hbn ▸ hb), (h.name_word b hb).2⟩
  have hbefore : ∀ b ∈ before, isspace b = true := fun b hb => (h.before_blank b hb).1
  have hafter : ∀ b ∈ after, isspace b = true := fun b hb => (h.after_blank b hb).1
  have hword : ∀ b ∈ w, b ≠ nul ∧ isspace b = false :=
    fun b hb => ⟨fun hbn => hwnul (hbn ▸ hb), h.value_word b (hw b hb)⟩
  have hmore : Stopped w (e ++ nul :: rest) := .inl ⟨e, rest, rfl, he.blank⟩
  have htrim : trim isspace (c :: name) = c :: name :=
    trim_eq_self fun b hb => (h.name_word b hb).1
  rcases h.separator with hsep | hsep
  · rw [hsep, parseLine_equals hc (fun b hb => ⟨(hname b hb).1, (hname b hb).2.1⟩) hbefore hafter
      hword hmore, htrim]
  · have hnone : equals ∉ w := hequals.resolve_left (by rw [hsep]; decide)
    have hblank : ∀ {t : Bytes} {b : UInt8}, (∀ b ∈ t, isspace b = true) → b ∈ t →
        b ≠ nul ∧ b ≠ equals := fun ht hb =>
      ⟨ne_of_isspace (ht _ hb) (by decide), ne_of_isspace (ht _ hb) (by decide)⟩
    rw [hsep, parseLine_colon rest hc (fun b hb => ⟨(hname b hb).1, (hname b hb).2.2⟩) hbefore
      hafter hword hmore fun b hb => ?_, htrim]
    rcases List.mem_append.mp hb with hb | hb
    · rcases List.mem_append.mp hb with hb | hb
      · exact ⟨(hname b hb).1, (hname b hb).2.1⟩
      · exact hblank hbefore hb
    rcases List.mem_cons.mp hb with hb | hb
    · rw [hb]
      decide
    rcases List.mem_append.mp hb with hb | hb
    · rcases List.mem_append.mp hb with hb | hb
      · exact hblank hafter hb
      · exact ⟨(hword b hb).1, fun hbe => hnone (hbe ▸ hb)⟩
    · exact hblank he.blank hb

/-- **When an entry gets its value.** For every state that the lines before leave and every entry
line with `=` or `:`: `Parse` stores exactly the value under exactly the name if and only if the
separator is `=` or there is no `=` in the value, and no NUL is in either. -/
theorem entry_value_iff {sep : UInt8} {e : Bytes} (s : ParseState) (hs : s.error = false)
    (h : EntryLine sep c name before after value) (he : Ending e) :
    Stores s (c :: name ++ before ++ sep :: (after ++ value) ++ e) (c :: name) value
      ↔ (sep = equals ∨ equals ∉ value) ∧ nul ∉ c :: name ∧ nul ∉ value := by
  have hne : c :: name ++ before ++ sep :: (after ++ value) ≠ [] := by simp
  constructor
  · intro hstores
    obtain ⟨e', n, u, he', hparse, -, hconfig⟩ :=
      parse_of_stores h.oneLine he hs hne h.short hstores
    have hnul : nul ∉ c :: name := by
      intro hnul
      have hcons : parseLine (c :: (name ++ before ++ sep :: (after ++ value) ++ e' ++ [nul]))
          { s with lineNum := n } = some u := hparse
      exact entry_no_nul (h.name_word c List.mem_cons_self).1 h.first.1 h.first.2 hcons hnul hconfig
    obtain ⟨w, e'', rest, hsplit, he'', hwnul, hw, hwv⟩ := visible_split value e'
    have hend : Ending e'' := by
      rcases he'' with he'' | he''
      · exact .inl he''
      · rw [he'']
        exact he'
    have hline : c :: name ++ before ++ sep :: (after ++ value) ++ e' ++ [nul]
        = c :: name ++ before ++ sep :: (after ++ w ++ (e'' ++ nul :: rest)) := by
      have hassoc : c :: name ++ before ++ sep :: (after ++ value) ++ e' ++ [nul]
          = c :: name ++ before ++ sep :: (after ++ (value ++ e' ++ [nul])) := by simp
      rw [hassoc, hsplit, List.append_assoc after]
    rw [hline] at hparse
    by_cases hequals : sep = equals ∨ equals ∉ w
    · rw [h.parse rest hnul hwnul hw hend hequals, Option.some.injEq] at hparse
      rw [← hparse] at hconfig
      have hvalue : w = value := (pushBack_inj hconfig).2
      rw [hvalue] at hequals
      exact ⟨hequals, hnul, hwv.mp hvalue⟩
    · rw [not_or, not_not] at hequals
      have hsep := h.separator.resolve_left hequals.1
      rw [hsep] at hparse
      have hlate : u.config ≠ s.config.pushBack (makeKey s.sect (c :: name)) value :=
        parseLine_late_equals (s := { s with lineNum := n }) (h.plain hnul)
          (fun b hb => ⟨fun hbn => hnul (hbn ▸ hb), (h.name_word b hb).2⟩)
          (fun b hb => (h.before_blank b hb).1) (fun b hb => (h.after_blank b hb).1)
          (fun b hb hbn => hwnul (hbn ▸ hb)) hequals.2 hparse
      exact absurd hconfig hlate
  · rintro ⟨hequals, hnul, hvnul⟩
    refine stores_of_parse h.oneLine he hs hne h.short fun e' he' n =>
      ⟨({ s with lineNum := n, name := c :: name, error := false } : ParseState).store value, ?_,
        rfl, rfl⟩
    have hparse := h.parse [] hnul hvnul (fun b hb => hb) he' hequals
      { s with lineNum := n }
    rw [← hparse]
    simp only [List.append_assoc, List.cons_append]

/-- `u: a:b`. -/
theorem entry_value_iff_small :
    Stores (.start create) ([117] ++ [] ++ colon :: ([32] ++ [97, 58, 98]) ++ [newline]) [117]
      [97, 58, 98] := by
  have hline : EntryLine colon 117 [] [] [32] [97, 58, 98] :=
    ⟨.inr rfl, by decide, by decide +kernel, by decide, by decide, by decide, by decide +kernel,
      by decide⟩
  exact (entry_value_iff (.start create) rfl hline (.inr rfl)).mpr
    ⟨.inr (by decide), by decide, by decide⟩

/-- `u: a=b` gives `u: a` the value `b`, and `u` none. -/
theorem equals_in_value_is_separator : ¬ ∀ (sep c : UInt8) (name before after value e : Bytes)
    (s : ParseState), s.error = false → EntryLine sep c name before after value → Ending e →
    Stores s (c :: name ++ before ++ sep :: (after ++ value) ++ e) (c :: name) value := by
  intro hclaim
  have hline : EntryLine colon 117 [] [] [32] [97, 61, 98] :=
    ⟨.inr rfl, by decide, by decide +kernel, by decide, by decide, by decide, by decide +kernel,
      by decide⟩
  obtain ⟨s', hread, -, hconfig⟩ :=
    hclaim _ _ _ _ _ _ [newline] (.start create) rfl hline (.inr rfl)
  have hnone : (readLines [117, 58, 32, 97, 61, 98, 10] (.start create)).map
      (fun s => s.config.getList [] [117]) = some [] := by decide +kernel
  have hone : (create.pushBack (makeKey [] [117]) [97, 61, 98]).getList [] [117]
      = [[97, 61, 98]] := by decide +kernel
  have hlist : s'.config.getList [] [117] = [] := by
    rw [show readLines [117, 58, 32, 97, 61, 98, 10] (.start create) = some s' from hread] at hnone
    exact Option.some.inj hnone
  rw [hconfig, show (ParseState.start create).config = create from rfl] at hlist
  rw [show (ParseState.start create).sect = [] from rfl, hone] at hlist
  cases hlist

/-! ## Comments -/

/-- Nothing, or blanks and a comment. -/
def Commented (tail : Bytes) : Prop :=
  tail = [] ∨ ∃ a blanks text, tail = a :: blanks ++ hash :: text ∧ Blanks (a :: blanks)
    ∧ newline ∉ text

/-- An entry line with `=` whose value may be empty. -/
structure ValueLine (c : UInt8) (name before after value tail : Bytes) : Prop where
  first : c ≠ hash ∧ c ≠ lbracket ∧ isspace c = false
  name_line : ∀ b ∈ c :: name, b ≠ equals ∧ b ≠ newline
  before_blank : Blanks before
  after_blank : Blanks after
  value_word : ∀ b ∈ value, isspace b = false
  value_first : value.head? ≠ some hash
  tail_comment : Commented tail
  short : (c :: name ++ before ++ equals :: (after ++ value ++ tail)).length < MAXLINE

/-- One more value for the entry before. -/
structure ContinuationLine (blanks value tail : Bytes) : Prop where
  blanks_ne : blanks ≠ []
  blanks_blank : Blanks blanks
  value_ne : value ≠ []
  value_word : ∀ b ∈ value, isspace b = false
  value_first : value.head? ≠ some hash
  tail_comment : Commented tail
  short : (blanks ++ value ++ tail).length < MAXLINE

/-- Behind a value stands a blank, or the NUL behind at most a newline. -/
theorem Commented.stopped {tail e : Bytes} (h : Commented tail) (he : Ending e)
    (hne : value ≠ [] ∨ tail = []) : Stopped value (tail ++ e ++ [nul]) := by
  rcases h with ht | ⟨a, blanks, text, ht, hblanks, -⟩
  · exact .inl ⟨e, [], by rw [ht]; rfl, he.blank⟩
  · refine .inr ⟨hne.resolve_right ?_, a, blanks ++ hash :: text ++ e ++ [nul], by rw [ht]; rfl,
      (hblanks a List.mem_cons_self).1⟩
    rw [ht]
    exact List.cons_ne_nil _ _

theorem Commented.oneLine {tail : Bytes} (h : Commented tail) : newline ∉ tail := by
  rcases h with ht | ⟨a, blanks, text, ht, hblanks, htext⟩
  · rw [ht]
    exact List.not_mem_nil
  · rw [ht]
    exact List.not_mem_append hblanks.oneLine
      (List.not_mem_cons_of_ne_of_not_mem (by decide) htext)

/-- What `TillEnd` and `TillSpace` give has nothing in it that they stop at. -/
theorem tillBlank_no_stop {ends : UInt8 → Bool} {line : Bytes} {i j : Nat} {t : Bytes}
    (h : LineParser.tillBlank line i ends = some (t, j)) :
    ∀ b ∈ t, b ≠ nul ∧ ends b = false := by
  unfold LineParser.tillBlank at h
  simp only [Option.bind_eq_bind, Option.bind_eq_some_iff] at h
  obtain ⟨first, -, last, hseek, t', hstrip, h⟩ := h
  cases h
  intro b hb
  have hstop := seek_before hseek b (strip_mem hstrip hb)
  rw [decide_eq_false_iff_not, not_or, not_or, Bool.not_eq_true] at hstop
  exact ⟨hstop.1, Bool.eq_false_iff.mpr hstop.2.2⟩

/-- The first word of a text that begins with one. -/
theorem word_split {a : UInt8} (ha : a ≠ nul ∧ isspace a = false) (t : Bytes) :
    ∃ w more, a :: t ++ [nul] = a :: w ++ more ∧ (∀ b ∈ a :: w, b ≠ nul ∧ isspace b = false)
      ∧ Stopped (a :: w) more := by
  have hone : ∀ b ∈ [a], b ≠ nul ∧ isspace b = false := fun b hb => by
    rw [List.mem_singleton.mp hb]
    exact ha
  induction t generalizing a with
  | nil => exact ⟨[], [nul], rfl, hone, .inl ⟨[], [], rfl, List.forall_mem_nil _⟩⟩
  | cons b t ih =>
    by_cases hspace : isspace b = true
    · exact ⟨[], b :: (t ++ [nul]), rfl, hone, .inr ⟨List.cons_ne_nil _ _, b, _, rfl, hspace⟩⟩
    by_cases hnul : b = nul
    · refine ⟨[], b :: (t ++ [nul]), rfl, hone, .inl ⟨[], t ++ [nul], ?_, List.forall_mem_nil _⟩⟩
      rw [hnul]
      rfl
    · rw [Bool.not_eq_true] at hspace
      obtain ⟨w, more, hsplit, hw, hmore⟩ := ih ⟨hnul, hspace⟩ fun c hc => by
        rw [List.mem_singleton.mp hc]
        exact ⟨hnul, hspace⟩
      refine ⟨b :: w, more, congrArg (a :: ·) hsplit, List.forall_mem_cons.mpr ⟨ha, hw⟩, ?_⟩
      exact hmore.imp_right fun h => ⟨List.cons_ne_nil _ _, h.2⟩

/-- A line that begins like an entry stores no value with a NUL in it. -/
theorem entry_value_no_nul {line : Bytes} (hc : Plain c) (h : parseLine (c :: line) s = some s')
    {key : Bytes} (hconfig : s'.config = s.config.pushBack key value) : nul ∉ value := by
  rw [parseLine_entry hc] at h
  obtain ⟨p, -, h⟩ := Option.bind_eq_some_iff.mp h
  split at h
  · obtain ⟨q, hq, h⟩ := Option.bind_eq_some_iff.mp h
    cases h
    rw [← (pushBack_inj hconfig).2]
    exact fun hnul => (tillBlank_no_stop hq nul hnul).1 rfl
  · cases h
    exact absurd hconfig.symm (pushBack_ne _ _ _)

/-- A line that begins a section stores nothing. -/
theorem parseLine_bracket {blanks rest : Bytes} (hblanks : ∀ b ∈ blanks, isspace b = true)
    (h : parseLine (blanks ++ lbracket :: rest) s = some s') : s'.config = s.config := by
  have hline : (blanks ++ lbracket :: rest).drop 0 = blanks ++ lbracket :: rest := rfl
  unfold parseLine at h
  rw [LineParser.peek_eq hline hblanks (by decide)] at h
  simp only [Option.bind_eq_bind, Option.bind_some] at h
  rw [if_neg (by decide), if_pos trivial] at h
  simp only [Option.bind_eq_some_iff] at h
  obtain ⟨q, -, q', -, h⟩ := h
  cases h
  rfl

variable {tail e blanks : Bytes}

theorem ValueLine.oneLine (h : ValueLine c name before after value tail) :
    newline ∉ c :: name ++ before ++ equals :: (after ++ value ++ tail) := by
  refine List.not_mem_append (List.not_mem_append ?_ h.before_blank.oneLine)
    (List.not_mem_cons_of_ne_of_not_mem (by decide) (List.not_mem_append (List.not_mem_append
      h.after_blank.oneLine (newline_of_isspace h.value_word)) h.tail_comment.oneLine))
  exact fun hm => (h.name_line _ hm).2 rfl

theorem ValueLine.plain (h : ValueLine c name before after value tail) (hnul : nul ∉ c :: name) :
    Plain c :=
  ⟨fun hc => hnul (by rw [hc]; exact List.mem_cons_self), h.first.1, h.first.2.1, h.first.2.2⟩

theorem ValueLine.parse (blanks : Bytes) (h : ValueLine c name before after value tail)
    (hnul : nul ∉ c :: name) (hblanks : ∀ b ∈ blanks, isspace b = true)
    (hw : ∀ b ∈ w, b ≠ nul ∧ isspace b = false) (hmore : Stopped w more) (s : ParseState) :
    parseLine (c :: name ++ before ++ equals :: (after ++ blanks ++ w ++ more)) s
      = some ({ s with name := trim isspace (c :: name), error := false }.store w) := by
  refine parseLine_equals (h.plain hnul)
    (fun b hb => ⟨fun hbn => hnul (hbn ▸ hb), (h.name_line b hb).1⟩)
    (fun b hb => (h.before_blank b hb).1) (fun b hb => ?_) hw hmore
  rcases List.mem_append.mp hb with hb | hb
  · exact (h.after_blank b hb).1
  · exact hblanks b hb

/-- The value of an entry. -/
theorem ValueLine.stores_iff (h : ValueLine c name before after value tail) (hs : s.error = false)
    (he : Ending e) :
    Stores s (c :: name ++ before ++ equals :: (after ++ value ++ tail) ++ e)
        (trim isspace (c :: name)) value
      ↔ (value ≠ [] ∨ tail = []) ∧ nul ∉ c :: name ∧ nul ∉ value := by
  have hne : c :: name ++ before ++ equals :: (after ++ value ++ tail) ≠ [] := by simp
  constructor
  · intro hstores
    obtain ⟨e', n, u, he', hparse, -, hconfig⟩ :=
      parse_of_stores h.oneLine he hs hne h.short hstores
    have hcons : parseLine (c :: (name ++ before ++ equals :: (after ++ value ++ tail) ++ e'
        ++ [nul])) { s with lineNum := n } = some u := hparse
    have hnul : nul ∉ c :: name := fun hnul =>
      entry_no_nul h.first.2.2 h.first.1 h.first.2.1 hcons (mem_trim (by decide) hnul) hconfig
    refine ⟨?_, hnul, entry_value_no_nul (h.plain hnul) hcons hconfig⟩
    rcases h.tail_comment with ht | ⟨a, blanks, text, ht, hblanks, -⟩
    · exact .inr ht
    · refine .inl fun hvalue => ?_
      -- without a value the comment is taken for one
      obtain ⟨w, more, hsplit, hw, hmore⟩ := word_split (a := hash) (by decide) (text ++ e')
      have hline : c :: name ++ before ++ equals :: (after ++ value ++ tail) ++ e' ++ [nul]
          = c :: name ++ before ++ equals :: (after ++ (a :: blanks) ++ (hash :: w) ++ more) := by
        have hassoc : c :: name ++ before ++ equals :: (after ++ value ++ tail) ++ e' ++ [nul]
            = c :: name ++ before ++ equals :: (after ++ (a :: blanks)
              ++ (hash :: (text ++ e') ++ [nul])) := by
          rw [hvalue, ht]
          simp
        rw [hassoc, hsplit, List.append_assoc _ (hash :: w)]
      rw [hline, h.parse (a :: blanks) hnul (fun b hb => (hblanks b hb).1) hw hmore,
        Option.some.injEq] at hparse
      rw [← hparse, hvalue] at hconfig
      exact List.cons_ne_nil _ _ (pushBack_inj hconfig).2
  · rintro ⟨hvalue, hnul, hvnul⟩
    refine stores_of_parse h.oneLine he hs hne h.short fun e' he' n =>
      ⟨({ s with lineNum := n, name := trim isspace (c :: name), error := false }
        : ParseState).store value, ?_, rfl, rfl⟩
    have hparse := h.parse [] hnul (List.forall_mem_nil _)
      (fun b hb => ⟨fun hbn => hvnul (hbn ▸ hb), h.value_word b hb⟩)
      (h.tail_comment.stopped he' hvalue) { s with lineNum := n }
    rw [← hparse]
    simp only [List.append_assoc, List.cons_append, List.nil_append]

theorem ContinuationLine.oneLine (h : ContinuationLine blanks value tail) :
    newline ∉ blanks ++ value ++ tail :=
  List.not_mem_append (List.not_mem_append h.blanks_blank.oneLine (newline_of_isspace h.value_word))
    h.tail_comment.oneLine

/-- One more value. -/
theorem ContinuationLine.stores_iff (h : ContinuationLine blanks value tail) (hs : s.error = false)
    (hname : s.name ≠ []) (he : Ending e) :
    Stores s (blanks ++ value ++ tail ++ e) s.name value
      ↔ hash ∉ value ∧ value.head? ≠ some lbracket ∧ nul ∉ value := by
  have hne : blanks ++ value ++ tail ≠ [] := by simp [h.blanks_ne]
  obtain ⟨a, bs, hblanks⟩ := List.exists_cons_of_ne_nil h.blanks_ne
  obtain ⟨c, v, hvalue⟩ := List.exists_cons_of_ne_nil h.value_ne
  have hblank : ∀ b ∈ a :: bs, isspace b = true := by
    rw [← hblanks]
    exact fun b hb => (h.blanks_blank b hb).1
  have hword : ∀ b ∈ c :: v, isspace b = false := hvalue ▸ h.value_word
  have hhash : c ≠ hash := fun hc => h.value_first (by rw [hvalue, hc]; rfl)
  have hline : ∀ e', blanks ++ value ++ tail ++ e' ++ [nul]
      = a :: bs ++ c :: (v ++ (tail ++ e' ++ [nul])) := by
    intro e'
    rw [hblanks, hvalue]
    simp
  constructor
  · intro hstores
    obtain ⟨e', n, u, he', hparse, -, hconfig⟩ :=
      parse_of_stores h.oneLine he hs hne h.short hstores
    rw [hline] at hparse
    by_cases hnul : c = nul
    · rw [parseLine_skip _ hblank (.inr hnul), Option.some.injEq] at hparse
      rw [← hparse] at hconfig
      exact absurd hconfig.symm (pushBack_ne _ _ _)
    by_cases hbracket : c = lbracket
    · rw [hbracket] at hparse
      have hsame : u.config = s.config :=
        parseLine_bracket (s := { s with lineNum := n }) hblank hparse
      rw [hsame] at hconfig
      exact absurd hconfig.symm (pushBack_ne _ _ _)
    rw [parseLine_append (s := { s with lineNum := n }) hblank
      ⟨hnul, hhash, hbracket, hword c List.mem_cons_self⟩ hname] at hparse
    obtain ⟨q, hq, hparse⟩ := Option.bind_eq_some_iff.mp hparse
    cases hparse
    have hnone : ∀ b ∈ value, b ≠ nul ∧ decide (b = hash) = false := by
      rw [← (pushBack_inj hconfig).2]
      exact tillBlank_no_stop hq
    refine ⟨fun hm => of_decide_eq_false (hnone _ hm).2 rfl, ?_, fun hm => (hnone _ hm).1 rfl⟩
    rw [hvalue]
    exact fun hb => hbracket (Option.some.inj hb)
  · rintro ⟨hvhash, hbracket, hvnul⟩
    refine stores_of_parse h.oneLine he hs hne h.short fun e' he' n =>
      ⟨({ s with lineNum := n } : ParseState).store value, ?_, hs, rfl⟩
    have hc : Plain c := by
      rw [hvalue] at hvnul hbracket
      exact ⟨fun hc => hvnul (by rw [hc]; exact List.mem_cons_self), hhash,
        fun hc => hbracket (by rw [hc]; rfl), hword c List.mem_cons_self⟩
    have hplain : ∀ b ∈ c :: v, b ≠ nul ∧ b ≠ hash ∧ isspace b = false := by
      rw [← hvalue]
      exact fun b hb => ⟨fun hbn => hvnul (hbn ▸ hb), fun hbh => hvhash (hbh ▸ hb),
        h.value_word b hb⟩
    -- behind the value stands a blank or the NUL
    obtain ⟨d, more, hmore, hd⟩ : ∃ d more, tail ++ e' ++ [nul] = d :: more
        ∧ (d = nul ∨ d = hash ∨ isspace d = true) := by
      rcases h.tail_comment.stopped he' (.inl h.value_ne) with
        ⟨bs', rest, hm, hb⟩ | ⟨-, d, rest, hm, hd⟩
      · cases bs' with
        | nil => exact ⟨nul, rest, hm, .inl rfl⟩
        | cons d bs' => exact ⟨d, _, hm, .inr (.inr (hb d List.mem_cons_self))⟩
      · exact ⟨d, rest, hm, .inr (.inr hd)⟩
    have hparse : parseLine (a :: bs ++ (c :: v) ++ d :: more) { s with lineNum := n } = _ :=
      parseLine_continuation hblank hc hplain hd hname
    rw [hline, hmore, hvalue, ← hparse]
    simp only [List.append_assoc, List.cons_append]

/-- **When `#` begins a comment exactly behind a blank.** An entry with a comment behind blanks or
without one stores its value if and only if there is one, or no comment; a further value is stored
if and only if there is no `#` in it and the line is not one of a section. No NUL may be in
either. -/
theorem comment_rule_iff (s : ParseState) (hs : s.error = false) (he : Ending e) :
    (∀ {c name before after value tail}, ValueLine c name before after value tail →
      (Stores s (c :: name ++ before ++ equals :: (after ++ value ++ tail) ++ e)
          (trim isspace (c :: name)) value
        ↔ (value ≠ [] ∨ tail = []) ∧ nul ∉ c :: name ∧ nul ∉ value))
      ∧ ∀ {blanks value tail}, ContinuationLine blanks value tail → s.name ≠ [] →
        (Stores s (blanks ++ value ++ tail ++ e) s.name value
          ↔ hash ∉ value ∧ value.head? ≠ some lbracket ∧ nul ∉ value) :=
  ⟨fun h => h.stores_iff hs he, fun h hname => h.stores_iff hs hname he⟩

/-- `f = a#b #c`, and `  b #c` for one more value. -/
theorem comment_rule_iff_small :
    Stores (.start create) ([102] ++ [32] ++ equals :: ([32] ++ [97, 35, 98] ++ [32, 35, 99])
        ++ [newline]) (trim isspace [102]) [97, 35, 98]
      ∧ Stores { (ParseState.start create) with name := [102] } ([32, 32] ++ [98] ++ [32, 35, 99]
        ++ [newline]) [102] [98] := by
  have htail : Commented [32, 35, 99] :=
    .inr ⟨32, [], [99], rfl, by decide, by decide⟩
  have hvalue : ValueLine 102 [] [32] [32] [97, 35, 98] [32, 35, 99] :=
    ⟨by decide, by decide +kernel, by decide, by decide, by decide +kernel, by decide, htail,
      by decide⟩
  have hmore : ContinuationLine [32, 32] [98] [32, 35, 99] :=
    ⟨by decide, by decide, by decide, by decide +kernel, by decide, htail, by decide⟩
  exact ⟨((comment_rule_iff (.start create) rfl (.inr rfl)).1 hvalue).mpr
      ⟨.inl (by decide), by decide, by decide⟩,
    ((comment_rule_iff { (ParseState.start create) with name := [102] } rfl (.inr rfl)).2 hmore
      (by decide)).mpr ⟨by decide, by decide, by decide⟩⟩

/-- `f = #c` stores `#c`, and one more value `a#b` is stored as `a`. -/
theorem comment_taken_for_value :
    (¬ ∀ (c : UInt8) (name before after value tail e : Bytes) (s : ParseState), s.error = false →
      ValueLine c name before after value tail → Ending e →
      Stores s (c :: name ++ before ++ equals :: (after ++ value ++ tail) ++ e)
        (trim isspace (c :: name)) value)
      ∧ ¬ ∀ (blanks value tail e : Bytes) (s : ParseState), s.error = false → s.name ≠ [] →
        ContinuationLine blanks value tail → Ending e →
        Stores s (blanks ++ value ++ tail ++ e) s.name value := by
  constructor
  · intro hclaim
    have hline : ValueLine 102 [] [32] [] [] [32, 35, 99] :=
      ⟨by decide, by decide +kernel, by decide, by decide, by decide +kernel, by decide,
        .inr ⟨32, [], [99], rfl, by decide, by decide⟩, by decide⟩
    obtain ⟨s', hread, -, hconfig⟩ :=
      hclaim _ _ _ _ _ _ [newline] (.start create) rfl hline (.inr rfl)
    have hone : (readLines [102, 32, 61, 32, 35, 99, 10] (.start create)).map
        (fun s => s.config.getList [] [102]) = some [[35, 99]] := by decide +kernel
    rw [show readLines [102, 32, 61, 32, 35, 99, 10] (.start create) = some s' from hread] at hone
    have hlist : s'.config.getList [] [102] = [[35, 99]] := Option.some.inj hone
    have hnone : (create.pushBack (makeKey [] [102]) []).getList [] [102] = [[]] := by
      decide +kernel
    rw [hconfig, show trim isspace [102] = [102] by decide] at hlist
    exact absurd (hnone.symm.trans hlist) (by decide)
  · intro hclaim
    have hline : ContinuationLine [32] [97, 35, 98] [] :=
      ⟨by decide, by decide, by decide, by decide +kernel, by decide, .inl rfl, by decide⟩
    obtain ⟨s', hread, -, hconfig⟩ := hclaim _ _ _ [newline]
      { (ParseState.start create) with name := [102] } rfl (by decide) hline (.inr rfl)
    have hone : (readLines [32, 97, 35, 98, 10]
        { (ParseState.start create) with name := [102] }).map
        (fun s => s.config.getList [] [102]) = some [[97]] := by decide +kernel
    rw [show readLines [32, 97, 35, 98, 10] { (ParseState.start create) with name := [102] }
      = some s' from hread] at hone
    have hlist : s'.config.getList [] [102] = [[97]] := Option.some.inj hone
    have hnone : (create.pushBack (makeKey [] [102]) [97, 35, 98]).getList [] [102]
        = [[97, 35, 98]] := by decide +kernel
    rw [hconfig] at hlist
    exact absurd (hnone.symm.trans hlist) (by decide)

end Config

end Windz
