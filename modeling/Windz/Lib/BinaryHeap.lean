import Mathlib.Order.Lattice
import Mathlib.Order.Nat
import Mathlib.Data.List.Basic
import Mathlib.Data.List.Perm.Basic
import Mathlib.Data.List.Nodup

/-!
# Binary heaps in a list

A list is read as a binary tree, the parent of position `i` being `(i - 1) / 2`;
it is a heap when no entry has a smaller key than its parent. An algorithm that
repairs a heap swaps entries along one path, and while it is at position `i` the
order fails at most around `i`: on the edge above it (`BrokenUp`) or on the edges
below it (`BrokenDown`). The rules say when the order is whole again, and that a
swap with the parent, or with the smaller child, moves the broken place.

Accesses go through `l[i]?`, so no statement needs a bound.
-/

namespace Windz.Lib.BinaryHeap

variable {α κ : Type} [LinearOrder κ] {key : α → κ}

/-- The position above `i`. -/
def parent (i : Nat) : Nat := (i - 1) / 2

theorem parent_lt {i : Nat} (h : 0 < i) : parent i < i := by unfold parent; omega

theorem parent_eq_iff {i j : Nat} (h : 0 < j) : parent j = i ↔ j = 2 * i + 1 ∨ j = 2 * i + 2 := by
  unfold parent
  omega

/-! ## Swaps -/

/-- Exchange two entries, if both are there. -/
def swap (l : List α) (i j : Nat) : Option (List α) :=
  match l[i]?, l[j]? with
  | some a, some b => some ((l.set i b).set j a)
  | _, _ => none

theorem swap_eq {l : List α} {i j : Nat} {a b : α} (ha : l[i]? = some a) (hb : l[j]? = some b) :
    swap l i j = some ((l.set i b).set j a) := by
  unfold swap
  rw [ha, hb]

theorem swap_getElem? {l l' : List α} {i j : Nat} {a b : α} (ha : l[i]? = some a)
    (hb : l[j]? = some b) (h : swap l i j = some l') (k : Nat) :
    l'[k]? = if k = j then some a else if k = i then some b else l[k]? := by
  rw [swap_eq ha hb, Option.some.injEq] at h
  have hi := (List.getElem?_eq_some_iff.mp ha).1
  have hj := (List.getElem?_eq_some_iff.mp hb).1
  subst h
  rw [List.getElem?_set]
  by_cases hk : k = j
  · rw [if_pos hk.symm, if_pos hk, List.length_set, if_pos hj]
  · rw [if_neg (Ne.symm hk), if_neg hk, List.getElem?_set]
    by_cases hk' : k = i
    · rw [if_pos hk'.symm, if_pos hk', if_pos hi]
    · rw [if_neg (Ne.symm hk'), if_neg hk']

/-- An entry after a swap is one of the two, or was there before. -/
theorem swap_entry {l l' : List α} {i j : Nat} {a b : α} (ha : l[i]? = some a)
    (hb : l[j]? = some b) (h : swap l i j = some l') {k : Nat} {y : α} (hy : l'[k]? = some y) :
    (k = j ∧ y = a) ∨ (k = i ∧ y = b) ∨ (k ≠ j ∧ k ≠ i ∧ l[k]? = some y) := by
  rw [swap_getElem? ha hb h] at hy
  split at hy
  · rename_i hk
    exact .inl ⟨hk, (Option.some.inj hy).symm⟩
  · rename_i hk
    split at hy
    · rename_i hk'
      exact .inr (.inl ⟨hk', (Option.some.inj hy).symm⟩)
    · rename_i hk'
      exact .inr (.inr ⟨hk, hk', hy⟩)

theorem swap_length {l l' : List α} {i j : Nat} (h : swap l i j = some l') :
    l'.length = l.length := by
  unfold swap at h
  split at h
  · rw [Option.some.injEq] at h
    rw [← h, List.length_set, List.length_set]
  · exact absurd h (by simp)

/-- A swap permutes the entries. -/
theorem swap_perm {l l' : List α} {i j : Nat} (h : swap l i j = some l') : l'.Perm l := by
  unfold swap at h
  split at h
  · rename_i a b ha hb
    rw [Option.some.injEq] at h
    subst h
    obtain ⟨hi, ha⟩ := List.getElem?_eq_some_iff.mp ha
    obtain ⟨hj, hb⟩ := List.getElem?_eq_some_iff.mp hb
    rw [← ha, ← hb]
    exact List.set_set_perm hi hj
  · exact absurd h (by simp)

/-! ## The heap order -/

/-- The edge into position `j` is in order. -/
def EdgeOrdered (key : α → κ) (l : List α) (j : Nat) : Prop :=
  ∀ x p, l[j]? = some x → l[parent j]? = some p → key p ≤ key x

/-- No entry has a smaller key than its parent. -/
def Ordered (key : α → κ) (l : List α) : Prop := ∀ j, 0 < j → EdgeOrdered key l j

/-- The entry above position `i` is below the entries under it in the order. -/
def Bridged (key : α → κ) (l : List α) (i : Nat) : Prop :=
  ∀ j x g, 0 < i → 0 < j → parent j = i → l[j]? = some x → l[parent i]? = some g → key g ≤ key x

/-- The order fails at most on the edge above position `i`. -/
structure BrokenUp (key : α → κ) (l : List α) (i : Nat) : Prop where
  edges : ∀ j, 0 < j → j ≠ i → EdgeOrdered key l j
  bridge : Bridged key l i

/-- The order fails at most on the edges below position `i`. -/
structure BrokenDown (key : α → κ) (l : List α) (i : Nat) : Prop where
  edges : ∀ j, 0 < j → parent j ≠ i → EdgeOrdered key l j
  bridge : Bridged key l i

theorem ordered_nil : Ordered key ([] : List α) := by
  intro j _ x p hx _
  exact absurd hx (by simp)

/-- The order only depends on the keys of the entries. -/
theorem Ordered.congr {key' : α → κ} {l : List α} (h : Ordered key l)
    (hkey : ∀ x ∈ l, key' x = key x) : Ordered key' l := by
  intro j hj x p hx hp
  rw [hkey x (List.mem_of_getElem? hx), hkey p (List.mem_of_getElem? hp)]
  exact h j hj x p hx hp

/-- In a heap the first entry has the smallest key. -/
theorem Ordered.root_le {l : List α} (h : Ordered key l) {r x : α} (hr : l[0]? = some r)
    (hx : x ∈ l) : key r ≤ key x := by
  obtain ⟨i, hi⟩ := List.mem_iff_getElem?.mp hx
  induction i using Nat.strongRecOn generalizing x with
  | ind i ih =>
    by_cases h0 : i = 0
    · subst h0
      rw [hr, Option.some.injEq] at hi
      rw [hi]
    · have hpos := Nat.pos_of_ne_zero h0
      have hlt : parent i < l.length :=
        (parent_lt hpos).trans (List.getElem?_eq_some_iff.mp hi).1
      have hp := List.getElem?_eq_getElem hlt
      exact (ih _ (parent_lt hpos) (List.getElem_mem hlt) hp).trans (h i hpos x _ hi hp)

/-! ## Going up -/

/-- A new last entry breaks at most the edge above it. -/
theorem Ordered.concat {l : List α} (h : Ordered key l) (x : α) :
    BrokenUp key (l ++ [x]) l.length := by
  have hold : ∀ {j : Nat} {y : α}, j ≠ l.length → (l ++ [x])[j]? = some y → l[j]? = some y := by
    intro j y hj hy
    rw [List.getElem?_append] at hy
    split at hy
    · exact hy
    · rename_i hge
      exact absurd hy (by rw [List.getElem?_eq_none (by simp; omega)]; simp)
  have hlen : ∀ {j : Nat} {y : α}, (l ++ [x])[j]? = some y → j ≤ l.length := by
    intro j y hy
    have := (List.getElem?_eq_some_iff.mp hy).1
    rw [List.length_append, List.length_singleton] at this
    omega
  refine ⟨fun j hj hne y p hy hp => ?_, fun j y g _ hj hpar hy _ => ?_⟩
  · have hle := hlen hy
    exact h j hj y p (hold hne hy) (hold (by have := parent_lt hj; omega) hp)
  · -- nothing is below the last entry
    have := hlen hy
    have := parent_lt hj
    omega

theorem BrokenUp.done {l : List α} {i : Nat} (h : BrokenUp key l i)
    (hi : 0 < i → EdgeOrdered key l i) : Ordered key l := by
  intro j hj
  by_cases hji : j = i
  · subst hji; exact hi hj
  · exact h.edges j hj hji

/-- Swapping an entry with its larger parent moves the broken edge up. -/
theorem BrokenUp.swap {l l' : List α} {i : Nat} {a b : α} (h : BrokenUp key l i) (hi : 0 < i)
    (ha : l[i]? = some a) (hb : l[parent i]? = some b) (hlt : key a < key b)
    (hs : swap l i (parent i) = some l') : BrokenUp key l' (parent i) := by
  have hpi := parent_lt hi
  have hnew := @swap_entry _ _ _ _ _ _ _ ha hb hs
  refine ⟨fun j hj hne y p hy hp => ?_, fun j y g hpos hj hpar hy hg => ?_⟩
  · rcases hnew hy with ⟨hj', _⟩ | ⟨hj', rfl⟩ | ⟨_, hji, hy⟩
    · exact absurd hj' hne
    · -- the old parent now stands below the entry that replaced it
      subst hj'
      rcases hnew hp with ⟨_, rfl⟩ | ⟨hj', _⟩ | ⟨hj', _, _⟩
      · exact hlt.le
      · omega
      · exact absurd rfl hj'
    · rcases hnew hp with ⟨hpar, rfl⟩ | ⟨hpar, rfl⟩ | ⟨_, _, hp⟩
      · -- the other child of the old parent
        exact hlt.le.trans (h.edges j hj hji y b hy (by rw [hpar]; exact hb))
      · exact h.bridge j y _ hi hj hpar hy hb
      · exact h.edges j hj hji y p hy hp
  · have hne : parent (parent i) ≠ parent i := (parent_lt hpos).ne
    have hg' : l[parent (parent i)]? = some g := by
      rcases hnew hg with ⟨hj', _⟩ | ⟨hj', _⟩ | ⟨_, _, hg⟩
      · exact absurd hj' hne
      · have := parent_lt hpos; omega
      · exact hg
    have hgb : key g ≤ key b := h.edges (parent i) hpos hpi.ne b g hb hg'
    rcases hnew hy with ⟨hj', _⟩ | ⟨_, rfl⟩ | ⟨_, hji, hy⟩
    · rw [hj'] at hpar; exact absurd hpar hne
    · exact hgb
    · exact hgb.trans (h.edges j hj hji y b hy (by rw [hpar]; exact hb))

/-! ## Going down -/

theorem BrokenDown.done {l : List α} {i : Nat} (h : BrokenDown key l i)
    (hi : ∀ j, 0 < j → parent j = i → EdgeOrdered key l j) : Ordered key l := by
  intro j hj
  by_cases hji : parent j = i
  · exact hi j hj hji
  · exact h.edges j hj hji

/-- Swapping an entry with a child that is smaller, and not larger than the other child, moves the
broken edges down. -/
theorem BrokenDown.swap {l l' : List α} {i c : Nat} {a b : α} (h : BrokenDown key l i)
    (hc : 0 < c) (hci : parent c = i) (ha : l[i]? = some a) (hb : l[c]? = some b)
    (hlt : key b < key a)
    (hmin : ∀ j x, 0 < j → parent j = i → l[j]? = some x → key b ≤ key x)
    (hs : swap l i c = some l') : BrokenDown key l' c := by
  have hic : i < c := by rw [← hci]; exact parent_lt hc
  have hnew := @swap_entry _ _ _ _ _ _ _ ha hb hs
  refine ⟨fun j hj hne y p hy hp => ?_, fun j y g _ hj hpar hy hg => ?_⟩
  · rcases hnew hy with ⟨rfl, rfl⟩ | ⟨hji, rfl⟩ | ⟨_, _, hy⟩
    · -- the edge the entry went down along
      rcases hnew hp with ⟨hpar, _⟩ | ⟨_, rfl⟩ | ⟨_, hpar, _⟩
      · exact absurd hpar hne
      · exact hlt.le
      · exact absurd hci hpar
    · -- the child that came up is bounded by the entry above
      rcases hnew hp with ⟨hpar, _⟩ | ⟨hpar, _⟩ | ⟨_, _, hp⟩
      · exact absurd hpar hne
      · have := parent_lt hj; omega
      · subst hji
        exact h.bridge c y p hj hc hci hb hp
    · rcases hnew hp with ⟨hpar, _⟩ | ⟨hpar, rfl⟩ | ⟨_, hpar, hp⟩
      · exact absurd hpar hne
      · exact hmin j y hj hpar hy
      · exact h.edges j hj hpar y p hy hp
  · rcases hnew hg with ⟨hpar', _⟩ | ⟨_, rfl⟩ | ⟨_, hpar', _⟩
    · have := parent_lt hc; omega
    · rcases hnew hy with ⟨rfl, _⟩ | ⟨hji, _⟩ | ⟨_, _, hy⟩
      · have := parent_lt hj; omega
      · have := parent_lt hj; omega
      · exact h.edges j hj (by rw [hpar]; exact hic.ne') y _ hy (by rw [hpar]; exact hb)
    · exact absurd hci hpar'

/-- Changing the key of the first entry, and of no other one, breaks at most the edges below it. -/
theorem Ordered.head_changed {key' : α → κ} {r : α} {rest : List α} (h : Ordered key (r :: rest))
    (hkey : ∀ x ∈ rest, key' x = key x) : BrokenDown key' (r :: rest) 0 := by
  have hrest : ∀ {j : Nat} {y : α}, 0 < j → (r :: rest)[j]? = some y → y ∈ rest := by
    intro j y hj hy
    obtain ⟨j, rfl⟩ := Nat.exists_eq_succ_of_ne_zero hj.ne'
    exact List.mem_of_getElem? hy
  refine ⟨fun j hj hpar y p hy hp => ?_, fun j y g hpos _ _ _ _ => absurd hpos (Nat.lt_irrefl 0)⟩
  rw [hkey y (hrest hj hy), hkey p (hrest (Nat.pos_of_ne_zero hpar) hp)]
  exact h j hj y p hy hp

theorem Ordered.root_changed {key' : α → κ} {l : List α} {r : α} (h : Ordered key l)
    (hr : l[0]? = some r) (hnodup : l.Nodup) (hkey : ∀ x, x ≠ r → key' x = key x) :
    BrokenDown key' l 0 := by
  cases l with
  | nil => exact absurd hr (by simp)
  | cons e rest =>
    obtain rfl := Option.some.inj hr
    refine h.head_changed fun x hx => hkey x ?_
    rintro rfl
    exact (List.nodup_cons.mp hnodup).1 hx

/-- Dropping the first entry by moving the last one into its place breaks at most the edges below
it. -/
theorem Ordered.replace_root {l l' : List α} (h : Ordered key l)
    (hs : BinaryHeap.swap l 0 (l.length - 1) = some l') : BrokenDown key l'.dropLast 0 := by
  have hlen := swap_length hs
  -- behind the first position the remaining entries are the old ones
  have hold : ∀ {j : Nat} {y : α}, 0 < j → l'.dropLast[j]? = some y → l[j]? = some y := by
    intro j y hj hy
    have hlt := (List.getElem?_eq_some_iff.mp hy).1
    rw [List.length_dropLast, hlen] at hlt
    rw [List.getElem?_dropLast, hlen, if_pos hlt] at hy
    unfold BinaryHeap.swap at hs
    split at hs
    · rename_i a b ha hb
      rcases swap_entry ha hb (swap_eq ha hb) (by rw [Option.some.inj hs]; exact hy) with
        ⟨hj', _⟩ | ⟨hj', _⟩ | ⟨_, _, hy⟩
      · omega
      · omega
      · exact hy
    · exact absurd hs (by simp)
  refine ⟨fun j hj hpar y p hy hp => ?_, fun j y g hpos _ _ _ _ => absurd hpos (Nat.lt_irrefl 0)⟩
  exact h j hj y p (hold hj hy) (hold (Nat.pos_of_ne_zero hpar) hp)

end Windz.Lib.BinaryHeap
