import Windz.Util.ConfigBounds
import Windz.Util.ConfigFile

/-!
# The loop of `Parse`

`readLines` is the loop over what is left of a file, with as many passes as it takes. A
file is the sequence of its physical lines, each up to its newline, and the loop goes over it
one physical line after the other, in as many passes for each as the array demands.
-/

namespace Windz

open Lib

namespace Config

/-! ## Physical lines -/

/-- The lines of a file, each with its newline; that of the last one may be missing. -/
def physicalLines : Bytes → List Bytes
  | [] => []
  | c :: file =>
      if c = newline then [c] :: physicalLines file
      else
        match physicalLines file with
        | [] => [[c]]
        | l :: ls => (c :: l) :: ls

/-- The pieces a file is read in: all but the last end in a newline. -/
inductive Lines : List Bytes → Prop where
  | nil : Lines []
  | last {t : Bytes} (hne : t ≠ []) (ht : newline ∉ t) : Lines [t]
  | cons {t : Bytes} {ls : List Bytes} (ht : newline ∉ t) (hls : Lines ls) :
      Lines ((t ++ [newline]) :: ls)

theorem lines_physicalLines (file : Bytes) : Lines (physicalLines file) := by
  induction file with
  | nil => exact .nil
  | cons c file ih =>
    unfold physicalLines
    by_cases hc : c = newline
    · rw [if_pos hc, hc]
      exact Lines.cons (t := []) List.not_mem_nil ih
    · rw [if_neg hc]
      have hcons : ∀ {text : Bytes}, newline ∉ text → newline ∉ c :: text :=
        fun htext => List.not_mem_cons_of_ne_of_not_mem (Ne.symm hc) htext
      cases hls : physicalLines file with
      | nil => exact .last (List.cons_ne_nil _ _) (hcons List.not_mem_nil)
      | cons l ls =>
        rw [hls] at ih
        cases ih with
        | last hne htext => exact .last (List.cons_ne_nil _ _) (hcons htext)
        | @cons t ls ht hls => exact Lines.cons (t := c :: t) (hcons ht) hls

theorem flatten_physicalLines (file : Bytes) : (physicalLines file).flatten = file := by
  induction file with
  | nil => rfl
  | cons c file ih =>
    unfold physicalLines
    by_cases hc : c = newline
    · rw [if_pos hc, List.flatten_cons, ih]
      rfl
    · rw [if_neg hc]
      cases hls : physicalLines file with
      | nil =>
        rw [hls] at ih
        rw [← ih]
        rfl
      | cons l ls =>
        rw [hls] at ih
        rw [← ih]
        rfl

/-! ## The loop -/

/-- The loop over what is left of the file. -/
def readLines (file : Bytes) (s : ParseState) : Option ParseState :=
  parseLines (file.length + 1) file s

/-- Where the array is full in the middle of a line. -/
theorem takeLine_cut {line : Bytes} (rest : Bytes) {room : Nat} (hline : newline ∉ line)
    (hlen : room ≤ line.length) :
    takeLine room (line ++ rest) = (line.take room, line.drop room ++ rest) := by
  induction room generalizing line with
  | zero => cases line <;> rfl
  | succ room ih =>
    cases line with
    | nil => exact absurd hlen (Nat.not_succ_le_zero _)
    | cons c line =>
      have hne : c ≠ newline := fun hc => hline (by rw [hc]; exact List.mem_cons_self)
      have hrest := ih (fun hm => hline (List.mem_cons_of_mem _ hm)) (Nat.le_of_succ_le_succ hlen)
      rw [List.cons_append, takeLine, if_neg hne, hrest]
      rfl

/-- What `fgets` stores and what it leaves make up the file. -/
theorem takeLine_length (room : Nat) (file : Bytes) :
    (takeLine room file).1.length + (takeLine room file).2.length = file.length := by
  induction file generalizing room with
  | nil => cases room <;> rfl
  | cons c file ih =>
    cases room with
    | zero => exact Nat.zero_add _
    | succ room =>
      have hih := ih room
      unfold takeLine
      split
      · rw [List.length_singleton, List.length_cons]
        exact Nat.add_comm _ _
      · dsimp only
        rw [List.length_cons, List.length_cons]
        omega

theorem takeLine_pos {room : Nat} {file : Bytes} (hroom : 0 < room) (hne : file ≠ []) :
    (takeLine room file).2.length < file.length := by
  obtain ⟨c, file, rfl⟩ := List.exists_cons_of_ne_nil hne
  obtain ⟨room, rfl⟩ : ∃ n, room = n + 1 := ⟨room - 1, by omega⟩
  have hlen := takeLine_length (room + 1) (c :: file)
  have hpos : 0 < (takeLine (room + 1) (c :: file)).1.length := by
    unfold takeLine
    split
    · exact Nat.one_pos
    · exact Nat.succ_pos _
  omega

/-- More passes than bytes are enough. -/
theorem parseLines_fuel {fuel : Nat} {file : Bytes} (s : ParseState) (h : file.length < fuel) :
    parseLines fuel file s = readLines file s := by
  unfold readLines
  induction hn : file.length using Nat.strongRecOn generalizing file fuel s with
  | ind n ih =>
    obtain ⟨fuel, rfl⟩ : ∃ n, fuel = n + 1 := ⟨fuel - 1, by omega⟩
    by_cases herror : s.error = true
    · rw [parseLines_error _ herror, parseLines_error _ herror]
    rw [Bool.not_eq_true] at herror
    by_cases hne : file = []
    · rw [hne, parseLines_end, parseLines_end]
    have hlt : (takeLine (MAXLINE - 1) file).2.length < file.length := takeLine_pos (by decide) hne
    rw [parseLines_succ herror hne rfl, parseLines_succ herror hne rfl]
    refine congrArg _ (funext fun s' => ?_)
    rw [ih _ (by omega) s' (by omega) rfl]
    exact (ih _ (by omega) s' (by omega) rfl).symm

@[simp] theorem readLines_nil (s : ParseState) : readLines [] s = some s := parseLines_end s

theorem readLines_error {s : ParseState} (file : Bytes) (h : s.error = true) :
    readLines file s = some s := parseLines_error file h

/-- A pass of the loop. -/
theorem readLines_pass {file : Bytes} {s : ParseState} (hs : s.error = false) (hne : file ≠ []) :
    readLines file s
      = (parseLine ((takeLine (MAXLINE - 1) file).1 ++ [nul])
          { s with lineNum := s.lineNum + 1 }).bind
        (readLines (takeLine (MAXLINE - 1) file).2) := by
  unfold readLines
  rw [parseLines_succ hs hne rfl]
  refine congrArg _ (funext fun s' => ?_)
  exact parseLines_fuel s' (takeLine_pos (by decide) hne)

/-- The variables before the first line. -/
def ParseState.start (c : Config) : ParseState := ⟨0, [], [], false, c⟩

theorem parse_eq_readLines (c : Config) (file : Bytes) :
    c.parse (some file) = (readLines file (.start c)).map ParseState.result := rfl

/-- **One physical line after the other.** -/
theorem readLines_append {text : Bytes} (htext : newline ∉ text) (rest : Bytes) (s : ParseState) :
    readLines (text ++ newline :: rest) s
      = (readLines (text ++ [newline]) s).bind (readLines rest) := by
  induction hn : text.length using Nat.strongRecOn generalizing text s with
  | ind n ih =>
    by_cases herror : s.error = true
    · rw [readLines_error _ herror, readLines_error _ herror, Option.bind_some,
        readLines_error _ herror]
    rw [Bool.not_eq_true] at herror
    have hne : ∀ r, text ++ newline :: r ≠ [] := by simp
    rw [readLines_pass herror (hne rest), readLines_pass herror (hne [])]
    by_cases hlen : text.length < MAXLINE - 1
    · rw [takeLine_newline htext hlen, takeLine_newline htext hlen, Option.bind_assoc]
      refine congrArg _ (funext fun s' => ?_)
      rw [readLines_nil, Option.bind_some]
    · have hcut := Nat.le_of_not_lt hlen
      rw [takeLine_cut (newline :: rest) htext hcut, takeLine_cut [newline] htext hcut,
        Option.bind_assoc]
      refine congrArg _ (funext fun s' => ?_)
      have hdrop : newline ∉ text.drop (MAXLINE - 1) := fun hm => htext (List.mem_of_mem_drop hm)
      have hlt : (text.drop (MAXLINE - 1)).length < n := by
        rw [List.length_drop, ← hn]
        have hpos : 0 < MAXLINE - 1 := by decide
        omega
      exact ih _ hlt hdrop s' rfl

end Config

end Windz
