import Mathlib.Data.List.Basic

/-!
# Descriptor tables

A table of numbered slots, each free or in use. Opening something takes the lowest free
slot and fails when there is none; closing it frees the slot. What a slot is used for is
of an arbitrary type.
-/

namespace Windz.Lib

variable {υ : Type}

/-- The use of each slot, `none` for a free one. -/
abbrev Descriptors (υ : Type) := List (Option υ)

namespace Descriptors

/-- No slot is free. -/
def full (t : Descriptors υ) : Bool := t.all Option.isSome

/-- Take the lowest free slot for `u`. -/
def allocate (u : υ) (t : Descriptors υ) : Option (Nat × Descriptors υ) :=
  (t.findIdx? Option.isNone).map fun fd => (fd, t.set fd (some u))

/-- `close`: the entry is free again. -/
def release (fd : Nat) (t : Descriptors υ) : Descriptors υ := t.set fd none

/-- Use slot `fd'` for what `fd` is used for. -/
def dup (fd fd' : Nat) (t : Descriptors υ) : Descriptors υ := t.set fd' t[fd]?.join

variable {t t' : Descriptors υ} {fd fd' fd'' : Nat} {u u' : υ}

/-- The slot taken was free, and the others stay. -/
theorem allocate_eq (h : allocate u t = some (fd, t')) :
    t[fd]? = some none ∧ t' = t.set fd (some u) := by
  obtain ⟨i, hi, he⟩ := Option.map_eq_some_iff.mp h
  obtain ⟨hfd, ht⟩ := Prod.mk.inj he
  obtain ⟨hlt, hnone, -⟩ := List.findIdx?_eq_some_iff_getElem.mp hi
  rw [← hfd]
  exact ⟨by rw [List.getElem?_eq_getElem hlt, Option.isNone_iff_eq_none.mp hnone], ht.symm ▸ rfl⟩

/-- The slots below the one taken are in use. -/
theorem allocate_lowest (h : allocate u t = some (fd, t')) (hlt : fd' < fd) :
    ∃ v, t[fd']? = some (some v) := by
  obtain ⟨i, hi, he⟩ := Option.map_eq_some_iff.mp h
  obtain ⟨hlen, -, hlow⟩ := List.findIdx?_eq_some_iff_getElem.mp hi
  have hj : fd' < i := (Prod.mk.inj he).1 ▸ hlt
  have hsome := hlow fd' hj
  rw [List.getElem?_eq_getElem (Nat.lt_trans hj hlen)]
  cases hv : t[fd'] with
  | some v => exact ⟨v, rfl⟩
  | none =>
    rw [hv] at hsome
    exact absurd rfl hsome

theorem allocate_of_lowest (hfd : t[fd]? = some none)
    (hlow : ∀ j < fd, ∃ v, t[j]? = some (some v)) :
    allocate u t = some (fd, t.set fd (some u)) := by
  obtain ⟨hlen, hnone⟩ := List.getElem?_eq_some_iff.mp hfd
  unfold allocate
  rw [List.findIdx?_eq_some_iff_getElem.mpr ⟨hlen, by rw [hnone]; rfl, fun j hj => ?_⟩]
  · rfl
  · obtain ⟨v, hv⟩ := hlow j hj
    rw [(List.getElem?_eq_some_iff.mp hv).2]
    exact Bool.false_ne_true

/-- What was opened last is closed again. -/
theorem release_allocate (h : allocate u t = some (fd, t')) : release fd t' = t := by
  obtain ⟨hfd, he⟩ := allocate_eq h
  obtain ⟨hlen, hnone⟩ := List.getElem?_eq_some_iff.mp hfd
  unfold release
  rw [he, List.set_set, ← hnone]
  exact List.set_getElem_self hlen

theorem allocate_eq_none : allocate u t = none ↔ t.full = true := by
  unfold allocate full
  rw [Option.map_eq_none_iff, List.findIdx?_eq_none_iff, List.all_eq_true]
  constructor
  · intro h x hx
    have hx := h x hx
    cases x with
    | some u => rfl
    | none => cases hx
  · intro h x hx
    have hx := h x hx
    cases x with
    | some u => rfl
    | none => cases hx

theorem full_false_iff : t.full = false ↔ ∃ fd : Nat, t[fd]? = some none := by
  unfold full
  rw [List.all_eq_false]
  constructor
  · rintro ⟨x, hx, hn⟩
    obtain ⟨fd, hfd⟩ := List.mem_iff_getElem?.mp hx
    refine ⟨fd, hfd.trans ?_⟩
    cases x with
    | none => rfl
    | some u => exact absurd rfl hn
  · rintro ⟨fd, hfd⟩
    exact ⟨none, List.mem_of_getElem? hfd, nofun⟩

/-- With a slot free something can be opened. -/
theorem allocate_of_free (h : t[fd]? = some none) : ∃ fd' t', allocate u t = some (fd', t') := by
  cases ha : allocate u t with
  | some p => exact ⟨p.1, p.2, rfl⟩
  | none =>
    have hfull := allocate_eq_none.mp ha
    rw [full_false_iff.mpr ⟨fd, h⟩] at hfull
    cases hfull

/-- **The slot freed in a full table is the next one taken.** -/
theorem allocate_released (hfull : t.full = true) (hfd : fd < t.length) :
    allocate u (release fd t) = some (fd, t.set fd (some u)) := by
  unfold allocate release
  have hidx : (t.set fd none).findIdx? Option.isNone = some fd := by
    refine List.findIdx?_eq_some_iff_getElem.mpr ⟨by rw [List.length_set]; exact hfd, ?_, ?_⟩
    · rw [List.getElem_set_self]
      rfl
    · intro j hj
      rw [List.getElem_set_ne (by omega)]
      have hsome := List.all_eq_true.mp hfull _ (List.getElem_mem (by omega : j < t.length))
      rw [Option.isSome_iff_ne_none] at hsome
      simpa using hsome
  rw [hidx, Option.map_some, List.set_set]

/-! ## One slot changed -/

theorem lt_of_use (h : t[fd]? = some (some u)) : fd < t.length :=
  (List.getElem?_eq_some_iff.mp h).1

theorem use_set_self (h : fd < t.length) (x : Option υ) : (t.set fd x)[fd]? = some x :=
  List.getElem?_set_self h

theorem use_set_ne (h : fd ≠ fd') (x : Option υ) : (t.set fd x)[fd']? = t[fd']? :=
  List.getElem?_set_ne h

theorem dup_self (h : fd' < t.length) (hu : t[fd]? = some (some u)) :
    (dup fd fd' t)[fd']? = some (some u) := by
  unfold dup
  rw [use_set_self h, hu]
  rfl

theorem dup_ne (h : fd' ≠ fd'') : (dup fd fd' t)[fd'']? = t[fd'']? := use_set_ne h _

/-- Put back as it was. -/
theorem set_use (h : t[fd]? = some (some u)) : t.set fd (some u) = t := by
  obtain ⟨hlt, he⟩ := List.getElem?_eq_some_iff.mp h
  rw [← he]
  exact List.set_getElem_self hlt

end Descriptors

end Windz.Lib
