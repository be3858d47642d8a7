import Windz.Lib.Logged
import Windz.Util.ConfigValues
import Windz.Util.Strtol

/-!
# Which entries share a key

`MakeKey` joins a section and a name with a `.`, which may stand in both of them as well.
`entries` are the entries of a file as `Parse` takes them, the loop run with a log of the
section, the name and the value of each `push_back`. What the getters answer is set beside that
log: two entries share a key when their sections and names are the same up to letter
case, and also when a part up to a `.` is moved from the one to the other.
-/

namespace Windz

open Lib

namespace Config

open LineParser Logged Strtol

/-! ## The other getters -/

/-- The bytes of an ASCII string. -/
def bytes (s : String) : Bytes := s.toList.map Char.toUInt8

/-- `GetInt`. -/
def getInt (c : Config) (sect name : Bytes) (default : Int) : Option Int :=
  (c.getString sect name []).map fun s => (strtol s 0).getD default

/-- The words for a bool, in any case. -/
def boolOf (s : Bytes) : Option Bool :=
  let s := s.map tolower
  if s = bytes "true" ∨ s = bytes "yes" ∨ s = bytes "on" ∨ s = bytes "1" then some true
  else if s = bytes "false" ∨ s = bytes "no" ∨ s = bytes "off" ∨ s = bytes "0" then some false
  else none

/-- `GetBool`. -/
def getBool (c : Config) (sect name : Bytes) (default : Bool) : Option Bool :=
  (c.getString sect name []).map fun s => (boolOf s).getD default

/-! ## The entries of a file -/

/-- A value, the name it is given for and the section this is in. -/
structure Given where
  /-- The section. -/
  sect : Bytes
  /-- The name. -/
  name : Bytes
  /-- The value. -/
  value : Bytes
deriving DecidableEq

/-- The key it is found under. -/
def Given.key (g : Given) : Bytes := makeKey g.sect g.name

/-- `store`, written down. -/
def storeGiven (s : ParseState) (value : Bytes) : Logged Given ParseState :=
  record ⟨s.sect, s.name, value⟩ (s.store value)

/-- `parseLine` with what it stores. -/
def parseLineGiven (line : Bytes) (s : ParseState) : Logged Given ParseState := do
  let (c, line_) ← ofOption (peek line 0)
  if c = hash ∨ c = nul then pure s
  else if c = lbracket then
    let (sect, line_) ← ofOption (till line (skip line_ 1) rbracket)
    let (found, _) ← ofOption (matchChar line line_ rbracket)
    pure { s with sect, error := !found, name := [] }
  else
    let first ← ofOption (load line 0)
    if isspace first then
      if s.name = [] then pure { s with error := true }
      else
        let (value, _) ← ofOption (tillEnd line line_)
        storeGiven s value
    else
      let (name, found, line_) ← ofOption (parseName line line_)
      if found then
        let (value, _) ← ofOption (tillSpace line (skip line_ 1))
        storeGiven { s with name, error := false } value
      else pure { s with name, error := true }

/-- `parseLines` with what it stores. -/
def parseLinesGiven : Nat → Bytes → ParseState → Logged Given ParseState
  | 0, _, _ => ofOption none
  | fuel + 1, file, s =>
      if s.error then pure s
      else
        match fgets MAXLINE file with
        | none => pure s
        | some (line, file) => do
            let s ← parseLineGiven (line ++ [nul]) { s with lineNum := s.lineNum + 1 }
            parseLinesGiven fuel file s

/-- The entries of a file, in its order. -/
def entries (file : Bytes) : List Given :=
  (parseLinesGiven (file.length + 1) file (.start create)).log

theorem parseLineGiven_result (line : Bytes) (s : ParseState) :
    (parseLineGiven line s).result = parseLine line s := by
  unfold parseLineGiven parseLine
  simp only [result_bind, result_ofOption, Option.bind_eq_bind]
  refine congrArg _ (funext fun p => ?_)
  split
  · rfl
  split
  · simp only [result_bind, result_ofOption, result_pure]
  simp only [result_bind, result_ofOption]
  refine congrArg _ (funext fun first => ?_)
  split
  · split
    · rfl
    · simp only [result_bind, result_ofOption]
      rfl
  · simp only [result_bind, result_ofOption]
    refine congrArg _ (funext fun q => ?_)
    split
    · simp only [result_bind, result_ofOption]
      rfl
    · rfl

/-- The log changes nothing. -/
theorem parseLinesGiven_result (fuel : Nat) (file : Bytes) (s : ParseState) :
    (parseLinesGiven fuel file s).result = parseLines fuel file s := by
  induction fuel generalizing file s with
  | zero => rfl
  | succ fuel ih =>
    unfold parseLinesGiven parseLines
    split
    · rfl
    cases fgets MAXLINE file with
    | none => rfl
    | some p =>
      dsimp only
      rw [result_bind, parseLineGiven_result]
      exact congrArg _ (funext fun s' => ih _ s')

/-- What is in the map behind a computation is what was there before, and its log. -/
def Explains (c : Config) (x : Logged Given ParseState) : Prop :=
  ∀ s', x.result = some s' → ∀ pairs, Stored c pairs →
    Stored s'.config (pairs ++ x.log.map fun g => (g.key, g.value))

theorem Explains.pure {c : Config} {s : ParseState} (h : s.config = c) :
    Explains c (pure s) := by
  intro s' hs' pairs hpairs
  cases hs'
  show Stored s.config (pairs ++ [])
  rw [List.append_nil, h]
  exact hpairs

theorem Explains.store {c : Config} (s : ParseState) (value : Bytes) (h : s.config = c) :
    Explains c (storeGiven s value) := by
  intro s' hs' pairs hpairs
  cases hs'
  rw [← h] at hpairs
  exact hpairs.pushBack (makeKey s.sect s.name) value

theorem Explains.ofOption {α : Type} {c : Config} {r : Option α} {f : α → Logged Given ParseState}
    (h : ∀ a, Explains c (f a)) : Explains c (ofOption r >>= f) := by
  cases r with
  | none =>
    intro s' hs'
    rw [result_bind] at hs'
    cases hs'
  | some a =>
    rw [bind_some f rfl]
    exact h a

theorem Explains.bind {c : Config} {x : Logged Given ParseState}
    {f : ParseState → Logged Given ParseState} (h : Explains c x)
    (hf : ∀ s, x.result = some s → Explains s.config (f s)) : Explains c (x >>= f) := by
  intro s' hs' pairs hpairs
  rw [result_bind] at hs'
  obtain ⟨s, hs, hfs⟩ := Option.bind_eq_some_iff.mp hs'
  rw [bind_some f hs, List.map_append, ← List.append_assoc]
  exact hf s hs s' hfs _ (h s hs pairs hpairs)

theorem parseLineGiven_explains (line : Bytes) (s : ParseState) :
    Explains s.config (parseLineGiven line s) := by
  unfold parseLineGiven
  refine .ofOption fun p => ?_
  dsimp only
  split
  · exact .pure rfl
  split
  · exact .ofOption fun q => .ofOption fun q' => .pure rfl
  refine .ofOption fun first => ?_
  split
  · split
    · exact .pure rfl
    · exact .ofOption fun q => .store s q.1 rfl
  · refine .ofOption fun q => ?_
    split
    · exact .ofOption fun q' => .store { s with name := q.1, error := false } q'.1 rfl
    · exact .pure rfl

/-- **The loop stores what the log says.** -/
theorem parseLinesGiven_explains (fuel : Nat) (file : Bytes) (s : ParseState) :
    Explains s.config (parseLinesGiven fuel file s) := by
  induction fuel generalizing file s with
  | zero =>
    intro s' hs'
    cases hs'
  | succ fuel ih =>
    unfold parseLinesGiven
    split
    · exact .pure rfl
    split
    · exact .pure rfl
    · exact .bind (parseLineGiven_explains _ { s with lineNum := s.lineNum + 1 })
        fun s' _ => ih _ s'

theorem entries_stored {file : Bytes} {c : Config} {r : Int}
    (h : create.parse (some file) = some (r, c)) :
    Stored c ((entries file).map fun g => (g.key, g.value)) := by
  obtain ⟨s, hs, hresult⟩ := Option.map_eq_some_iff.mp h
  rw [← parseLinesGiven_result] at hs
  have hconfig : s.config = c := congrArg Prod.snd hresult
  rw [← hconfig]
  exact parseLinesGiven_explains _ file (.start create) s hs [] fun key => rfl

/-! ## Keys -/

/-- Two pairs of a section and a name that are the same up to letter case. -/
def SameEntry (sect name sect' name' : Bytes) : Prop :=
  sect.map tolower = sect'.map tolower ∧ name.map tolower = name'.map tolower

instance (sect name sect' name' : Bytes) : Decidable (SameEntry sect name sect' name') :=
  inferInstanceAs (Decidable (_ ∧ _))

/-- A part of the name, up to a `.` in it, stands at the end of the other section instead. -/
def Moved (sect name sect' name' : Bytes) : Prop :=
  ∃ t, sect'.map tolower = sect.map tolower ++ dot :: t
    ∧ name.map tolower = t ++ dot :: name'.map tolower

/-- **When two pairs have one key.** -/
theorem makeKey_eq_iff {sect name sect' name' : Bytes} :
    makeKey sect name = makeKey sect' name'
      ↔ SameEntry sect name sect' name' ∨ Moved sect name sect' name'
        ∨ Moved sect' name' sect name := by
  unfold makeKey
  rw [List.map_append, List.map_append, List.map_cons, List.map_cons,
    (tolower_eq_iff (b := dot) (by decide)).mpr rfl]
  constructor
  · intro h
    rcases List.append_eq_append_iff.mp h with ⟨t, hsect, htail⟩ | ⟨t, hsect, htail⟩
    · cases t with
      | nil =>
        rw [List.append_nil] at hsect
        exact .inl ⟨hsect.symm, (List.cons.inj htail).2⟩
      | cons b t =>
        obtain ⟨hb, hname⟩ := List.cons.inj htail
        rw [← hb] at hsect
        exact .inr (.inl ⟨t, hsect, hname⟩)
    · cases t with
      | nil =>
        rw [List.append_nil] at hsect
        exact .inl ⟨hsect, (List.cons.inj htail).2.symm⟩
      | cons b t =>
        obtain ⟨hb, hname⟩ := List.cons.inj htail
        rw [← hb] at hsect
        exact .inr (.inr ⟨t, hsect, hname⟩)
  · rintro (⟨hsect, hname⟩ | ⟨t, hsect, hname⟩ | ⟨t, hsect, hname⟩)
    · rw [hsect, hname]
    · rw [hsect, hname, List.append_assoc]
      rfl
    · rw [hsect, hname, List.append_assoc]
      rfl

/-- What is moved changes the section. -/
theorem Moved.not_same {sect name sect' name' : Bytes} (h : Moved sect name sect' name') :
    ¬ SameEntry sect name sect' name' := by
  obtain ⟨t, hsect, -⟩ := h
  intro hsame
  rw [hsame.1] at hsect
  have hlen := congrArg List.length hsect
  rw [List.length_append, List.length_cons] at hlen
  omega

/-- It takes a `.` in a section. -/
theorem Moved.dot_mem {sect name sect' name' : Bytes} (h : Moved sect name sect' name') :
    dot ∈ sect' ∧ dot ∈ name := by
  have hlower : ∀ {s : Bytes}, dot ∈ s.map tolower → dot ∈ s := by
    intro s hs
    obtain ⟨c, hc, hdot⟩ := List.mem_map.mp hs
    rwa [← (tolower_eq_iff (by decide)).mp hdot]
  obtain ⟨t, hsect, hname⟩ := h
  exact ⟨hlower (by rw [hsect]; simp), hlower (by rw [hname]; simp)⟩

/-- Where no section has a `.` in it, different entries have different keys. -/
theorem sameEntry_of_makeKey {sect name sect' name' : Bytes} (hsect : dot ∉ sect)
    (hsect' : dot ∉ sect') (h : makeKey sect name = makeKey sect' name') :
    SameEntry sect name sect' name' := by
  rcases makeKey_eq_iff.mp h with hsame | hmoved | hmoved
  · exact hsame
  · exact absurd hmoved.dot_mem.1 hsect'
  · exact absurd hmoved.dot_mem.1 hsect

/-! ## Answers -/

/-- The file gives `v` for the name inside the section. -/
def Gives (gs : List Given) (sect name v : Bytes) : Prop :=
  ∃ g ∈ gs, SameEntry g.sect g.name sect name ∧ g.value = v

instance (gs : List Given) (sect name v : Bytes) : Decidable (Gives gs sect name v) :=
  inferInstanceAs (Decidable (∃ g ∈ gs, _))

/-- The getters answer with what is given for the name inside the section, or with the default. -/
structure Answers (c : Config) (gs : List Given) (sect name : Bytes) : Prop where
  list : ∀ v ∈ c.getList sect name, Gives gs sect name v
  string : ∀ default, ∃ v, c.getString sect name default = some v
    ∧ (c.getList sect name = [] ∧ v = default ∨ Gives gs sect name v)
  int : ∀ default, ∃ n, c.getInt sect name default = some n
    ∧ (n = default ∨ ∃ v, Gives gs sect name v ∧ strtol v 0 = some n)
  bool : ∀ default, ∃ b, c.getBool sect name default = some b
    ∧ (b = default ∨ ∃ v, Gives gs sect name v ∧ boolOf v = some b)

variable {c : Config} {gs : List Given} {sect name : Bytes}

theorem getList_entries (h : Stored c (gs.map fun g => (g.key, g.value))) (v : Bytes) :
    v ∈ c.getList sect name ↔ ∃ g ∈ gs, g.key = makeKey sect name ∧ g.value = v := by
  rw [h.holds.list]
  unfold valuesOf
  simp only [List.mem_map, List.mem_filter, decide_eq_true_eq]
  constructor
  · rintro ⟨p, ⟨⟨g, hg, rfl⟩, hkey⟩, hv⟩
    exact ⟨g, hg, hkey, hv⟩
  · rintro ⟨g, hg, hkey, hv⟩
    exact ⟨_, ⟨⟨g, hg, rfl⟩, hkey⟩, hv⟩

/-- The other getters look at the first value of the list. -/
theorem getString_of_list (h : Stored c (gs.map fun g => (g.key, g.value)))
    (hlist : ∀ v ∈ c.getList sect name, Gives gs sect name v) (default : Bytes) :
    ∃ v, c.getString sect name default = some v
      ∧ (c.getList sect name = [] ∧ v = default ∨ Gives gs sect name v) := by
  refine ⟨_, h.holds.string sect name default, ?_⟩
  rw [← h.holds.list]
  cases hl : c.getList sect name with
  | nil => exact .inl ⟨rfl, rfl⟩
  | cons v vs => exact .inr (hlist v (by rw [hl]; exact List.mem_cons_self))

theorem answers_of_list (h : Stored c (gs.map fun g => (g.key, g.value)))
    (hlist : ∀ v ∈ c.getList sect name, Gives gs sect name v) : Answers c gs sect name where
  list := hlist
  string := getString_of_list h hlist
  int := by
    intro default
    obtain ⟨s, hs, hgives⟩ := getString_of_list h hlist []
    refine ⟨(strtol s 0).getD default, by rw [getInt, hs]; rfl, ?_⟩
    rcases hgives with ⟨-, hnil⟩ | hgives
    · rw [hnil]
      exact .inl rfl
    · cases hn : strtol s 0 with
      | none => exact .inl rfl
      | some n => exact .inr ⟨s, hgives, hn⟩
  bool := by
    intro default
    obtain ⟨s, hs, hgives⟩ := getString_of_list h hlist []
    refine ⟨(boolOf s).getD default, by rw [getBool, hs]; rfl, ?_⟩
    rcases hgives with ⟨-, hnil⟩ | hgives
    · rw [hnil]
      exact .inl rfl
    · cases hb : boolOf s with
      | none => exact .inl rfl
      | some b => exact .inr ⟨s, hgives, hb⟩

/-- **When the getters answer from the right entries, and when entries share a key.** For every
file that is accepted: the getters answer for a section and a name with what the file
gives for them if and only if no entry of the file comes from the two by moving a part up
to a `.`, unless its value is given for the two as well; and different entries have
different keys if and only if none of them comes so from another. -/
theorem keys_apart_iff {file : Bytes} (h : create.parse (some file) = some (0, c)) :
    (∀ sect name, Answers c (entries file) sect name
        ↔ ∀ g ∈ entries file,
          Moved g.sect g.name sect name ∨ Moved sect name g.sect g.name →
          Gives (entries file) sect name g.value)
      ∧ ((∀ g ∈ entries file, ∀ g' ∈ entries file, makeKey g.sect g.name = makeKey g'.sect g'.name →
          SameEntry g.sect g.name g'.sect g'.name)
        ↔ ∀ g ∈ entries file, ∀ g' ∈ entries file, ¬ Moved g.sect g.name g'.sect g'.name) := by
  have hstored := entries_stored h
  constructor
  · intro sect name
    constructor
    · intro hanswers g hg hmoved
      exact hanswers.list _ ((getList_entries hstored _).mpr
        ⟨g, hg, makeKey_eq_iff.mpr (.inr hmoved), rfl⟩)
    · intro hgiven
      refine answers_of_list hstored fun v hv => ?_
      obtain ⟨g, hg, hkey, hvalue⟩ := (getList_entries hstored v).mp hv
      rcases makeKey_eq_iff.mp hkey with hsame | hmoved
      · exact ⟨g, hg, hsame, hvalue⟩
      · rw [← hvalue]
        exact hgiven g hg hmoved
  · constructor
    · intro hkeys g hg g' hg' hmoved
      exact hmoved.not_same (hkeys g hg g' hg' (makeKey_eq_iff.mpr (.inr (.inl hmoved))))
    · intro hnone g hg g' hg' hkey
      rcases makeKey_eq_iff.mp hkey with hsame | hmoved | hmoved
      · exact hsame
      · exact absurd hmoved (hnone g hg g' hg')
      · exact absurd hmoved (hnone g' hg' g hg)

/-- `[a.b]` with `c = 1`: the getters of `a.b` and `C` answer from it, and those of `a` and `b.c`
would not. -/
theorem keys_apart_iff_small : ∃ c,
    create.parse (some (bytes "[a.b]" ++ newline :: bytes "c = 1")) = some (0, c)
      ∧ Answers c [⟨bytes "a.b", bytes "c", bytes "1"⟩] (bytes "a.b") (bytes "C")
      ∧ ¬ Answers c [⟨bytes "a.b", bytes "c", bytes "1"⟩] (bytes "a") (bytes "b.c") := by
  have hparse : (create.parse (some (bytes "[a.b]" ++ newline :: bytes "c = 1"))).map Prod.fst
      = some 0 := by decide +kernel
  have hentries : entries (bytes "[a.b]" ++ newline :: bytes "c = 1")
      = [⟨bytes "a.b", bytes "c", bytes "1"⟩] := by decide +kernel
  obtain ⟨⟨r, c⟩, hc, hr⟩ := Option.map_eq_some_iff.mp hparse
  cases hr
  have hiff := (keys_apart_iff hc).1
  rw [hentries] at hiff
  refine ⟨c, hc, (hiff _ _).mpr fun g hg _ => ?_, fun hanswers => ?_⟩
  · rw [List.mem_singleton.mp hg]
    decide +kernel
  · have hgives := (hiff _ _).mp hanswers _ List.mem_cons_self
      (.inr ⟨bytes "b", by decide +kernel, by decide +kernel⟩)
    exact absurd hgives (by decide +kernel)

/-- `[a]` with `b.c = 1`: `GetList` of `a.b` and `c` gives `1`, and no section `a.b` is there. -/
theorem moved_name_is_found : ¬ ∀ (file : Bytes) (c : Config),
    create.parse (some file) = some (0, c) → ∀ sect name, Answers c (entries file) sect name := by
  intro hclaim
  have hparse : (create.parse (some (bytes "[a]" ++ newline :: bytes "b.c = 1"))).map
      (fun p => (p.1, p.2.getList (bytes "a.b") (bytes "c"))) = some (0, [bytes "1"]) := by
    decide +kernel
  obtain ⟨⟨r, c⟩, hc, hr⟩ := Option.map_eq_some_iff.mp hparse
  obtain ⟨hr, hlist⟩ := Prod.mk.inj hr
  rw [show r = 0 from hr] at hc
  have hgives := (hclaim _ c hc (bytes "a.b") (bytes "c")).list (bytes "1")
    (by rw [show c.getList (bytes "a.b") (bytes "c") = [bytes "1"] from hlist]; exact .head _)
  exact absurd hgives (by decide +kernel)

end Config

end Windz
