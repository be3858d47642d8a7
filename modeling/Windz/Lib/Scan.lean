import Mathlib.Data.List.DropRight

/-!
# Scanning memory

Loops of C that move a pointer over bytes until one of them stops it. A pointer is a
position, and reading outside the memory given is `none`, so that a result says that
every read was inside. The lemmas take what lies behind a position as `mem.drop i`,
which is how a caller comes to know it.
-/

namespace Windz.Lib

variable {α : Type}

/-- `*p`, the pointer being at `i`. -/
def load (mem : List α) (i : Nat) : Option α := mem[i]?

/-- `while (!stop(*p)) ++p`, from position `i`: where the loop ends. -/
def seek (stop : α → Bool) (mem : List α) (i : Nat) : Option Nat :=
  ((mem.drop i).findIdx? stop).map (i + ·)

/-- The elements in `[i, j)`. -/
def slice (mem : List α) (i j : Nat) : Option (List α) :=
  if i ≤ j ∧ j ≤ mem.length then some ((mem.drop i).take (j - i)) else none

/-- The list without the elements with `p` at its ends. -/
def trim (p : α → Bool) (s : List α) : List α := (s.dropWhile p).rdropWhile p

variable {stop p : α → Bool} {mem s rest : List α} {c : α} {i : Nat}

/-- What lies behind the part passed. -/
theorem drop_add (h : mem.drop i = s ++ rest) : mem.drop (i + s.length) = rest := by
  rw [← List.drop_drop, h, List.drop_left]

theorem drop_succ (h : mem.drop i = c :: rest) : mem.drop (i + 1) = rest :=
  drop_add (s := [c]) h

theorem load_eq (h : mem.drop i = c :: rest) : load mem i = some c := by
  have hget : (mem.drop i)[0]? = some c := by rw [h]; rfl
  rw [List.getElem?_drop] at hget
  exact hget

/-- **The loop passes what does not stop it.** -/
theorem seek_eq (h : mem.drop i = s ++ c :: rest) (hs : ∀ b ∈ s, stop b = false)
    (hc : stop c = true) : seek stop mem i = some (i + s.length) := by
  have hnone : s.findIdx? stop = none := List.findIdx?_eq_none_iff.mpr hs
  unfold seek
  rw [h, List.findIdx?_append, hnone, List.findIdx?_cons, if_pos hc]
  simp

/-- Where a scan over `p` ends. -/
theorem not_of_dropWhile (h : s.dropWhile p = c :: rest) : p c = false := by
  have hhead := List.head_dropWhile_not p (l := s) (by rw [h]; exact List.cons_ne_nil _ _)
  simpa [h] using hhead

/-- **A scan stops at the end mark or before it**, whatever lies behind that. -/
theorem seek_marked (stop : α → Bool) {text : List α} {m : α} (hm : stop m = true) (hi : i ≤ text.length) :
    ∃ j, i ≤ j ∧ j ≤ text.length ∧ ∀ rest, seek stop (text ++ m :: rest) i = some j := by
  have hdrop : ∀ rest, (text ++ m :: rest).drop i = text.drop i ++ m :: rest :=
    fun rest => List.drop_append_of_le_length hi
  have hsplit : text.drop i
      = (text.drop i).takeWhile (fun b => !stop b) ++ (text.drop i).dropWhile (fun b => !stop b) :=
    List.takeWhile_append_dropWhile.symm
  have hpass : ∀ b ∈ (text.drop i).takeWhile (fun b => !stop b), stop b = false := by
    intro b hb
    have hnot := List.mem_takeWhile_imp hb
    rwa [Bool.not_eq_true'] at hnot
  have hlen : ((text.drop i).takeWhile fun b => !stop b).length ≤ text.length - i := by
    rw [← List.length_drop]
    exact (List.takeWhile_prefix _).length_le
  refine ⟨i + ((text.drop i).takeWhile fun b => !stop b).length, Nat.le_add_right _ _, by omega,
    fun rest => ?_⟩
  cases hd : (text.drop i).dropWhile fun b => !stop b with
  | nil =>
    rw [hd, List.append_nil] at hsplit
    have hmem := hdrop rest
    rw [hsplit] at hmem
    exact seek_eq hmem hpass hm
  | cons d ds =>
    have hstop : stop d = true := by
      have hnot := not_of_dropWhile hd
      rwa [Bool.not_eq_false'] at hnot
    rw [hd] at hsplit
    have hmem := hdrop rest
    rw [hsplit, List.append_assoc, List.cons_append] at hmem
    exact seek_eq hmem hpass hstop

/-- Up to the end mark something can be read, and it is the mark only at the end. -/
theorem load_marked {text : List α} {m : α} (hi : i ≤ text.length) :
    ∃ b, (b ≠ m → i < text.length) ∧ ∀ rest, load (text ++ m :: rest) i = some b := by
  rcases Nat.lt_or_eq_of_le hi with hlt | heq
  · refine ⟨text[i], fun _ => hlt, fun rest => ?_⟩
    unfold load
    rw [List.getElem?_append_left hlt, List.getElem?_eq_getElem hlt]
  · refine ⟨m, fun hne => absurd rfl hne, fun rest => ?_⟩
    unfold load
    rw [heq, List.getElem?_append_right (Nat.le_refl _), Nat.sub_self]
    rfl

theorem slice_marked {text : List α} {m : α} {j : Nat} (hij : i ≤ j) (hj : j ≤ text.length) :
    ∃ s, ∀ rest, slice (text ++ m :: rest) i j = some s := by
  refine ⟨(text.drop i).take (j - i), fun rest => ?_⟩
  have hlen : j - i ≤ (text.drop i).length := by
    rw [List.length_drop]
    omega
  unfold slice
  rw [if_pos ⟨hij, by rw [List.length_append]; exact Nat.le_add_right_of_le hj⟩,
    List.drop_append_of_le_length (Nat.le_trans hij hj), List.take_append_of_le_length hlen]

/-- A string with something behind it. -/
theorem slice_eq (h : mem.drop i = s ++ c :: rest) : slice mem i (i + s.length) = some s := by
  have hlen : (mem.drop i).length = s.length + (rest.length + 1) := by
    rw [h, List.length_append, List.length_cons]
  rw [List.length_drop] at hlen
  unfold slice
  rw [if_pos ⟨Nat.le_add_right _ _, by omega⟩, h, Nat.add_sub_cancel_left, List.take_left]

/-! ## Trimming -/

/-- What is passed in front is trimmed anyway. -/
theorem trim_dropWhile (s : List α) : trim p (s.dropWhile p) = trim p s := by
  unfold trim
  rw [List.dropWhile_idempotent]

theorem trim_eq_self (h : ∀ b ∈ s, p b = false) : trim p s = s := by
  unfold trim
  rw [List.dropWhile_eq_self_iff.mpr, List.rdropWhile_eq_self_iff.mpr]
  · intro hne
    rw [h _ (List.getLast_mem hne)]
    exact Bool.false_ne_true
  · intro hl
    rw [h _ (List.getElem_mem hl)]
    exact Bool.false_ne_true

/-- What is trimmed behind a list may be there or not. -/
theorem trim_append (hc : p c = false) (hrest : ∀ b ∈ rest, p b = true) :
    trim p (c :: s ++ rest) = trim p (c :: s) := by
  have hneg : ¬ p c = true := by
    rw [hc]
    exact Bool.false_ne_true
  unfold trim List.rdropWhile
  rw [List.cons_append, List.dropWhile_cons_of_neg hneg, List.dropWhile_cons_of_neg hneg,
    ← List.cons_append, List.reverse_append,
    List.dropWhile_append_of_pos fun b hb => hrest b (List.mem_reverse.mp hb)]

/-- Nothing but `p` is trimmed. -/
theorem mem_trim {b : α} (hb : p b = false) (h : b ∈ s) : b ∈ trim p s := by
  have hfront : ∀ l : List α, b ∈ l → b ∈ l.dropWhile p := by
    intro l hl
    rw [← List.takeWhile_append_dropWhile (p := p) (l := l)] at hl
    rcases List.mem_append.mp hl with hl | hl
    · exact absurd (hb.symm.trans (List.mem_takeWhile_imp hl)) Bool.false_ne_true
    · exact hl
  unfold trim List.rdropWhile
  rw [List.mem_reverse]
  exact hfront _ (List.mem_reverse.mpr (hfront s h))

/-- A list that does not begin with `p` is not trimmed away. -/
theorem trim_ne_nil (hc : p c = false) : trim p (c :: s) ≠ [] := by
  unfold trim
  rw [List.dropWhile_cons_of_neg (by rw [hc]; exact Bool.false_ne_true)]
  intro hnil
  have hall := List.rdropWhile_eq_nil_iff.mp hnil c List.mem_cons_self
  exact absurd (hc.symm.trans hall) Bool.false_ne_true

end Windz.Lib
