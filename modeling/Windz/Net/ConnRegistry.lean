import Mathlib.Algebra.Group.Nat.Defs
import Mathlib.Logic.Function.Basic

/-!
# Names for connections

`connections_` and `next_connid_` with everything else of a server left out: an
accepted connection is entered under a name made of the server's name and the next
number, and a removed one is erased under its name. As long as fewer than 2³¹ are
accepted, the numbers do not wrap around, so the names differ and the map holds
exactly the connections that have not been removed.
-/

namespace Windz

/-- What a server knows of its connections. -/
structure Registry where
  /-- `name_` of the server. -/
  name : String
  /-- `next_connid_`. -/
  nextConnId : Int32
  /-- `connections_`. -/
  connections : String → Option Nat
  /-- The name of each accepted connection, and whether it has been removed. -/
  entries : List (String × Bool)

namespace Registry

/-- The name of the next connection. -/
def nextName (r : Registry) : String := r.name ++ "#" ++ toString r.nextConnId.toInt

/-- Nothing has been accepted. -/
def create (name : String) : Registry := ⟨name, 1, fun _ => none, []⟩

/-- A connection is accepted or removed, or neither. -/
inductive Step (r : Registry) : Registry → Prop where
  | same : Step r r
  | accept (hlt : r.entries.length + 1 < 2 ^ 31) :
      Step r { r with
        nextConnId := r.nextConnId + 1
        connections := Function.update r.connections r.nextName (some r.entries.length)
        entries := r.entries ++ [(r.nextName, false)] }
  | remove {i : Nat} {n : String} {b : Bool} (h : r.entries[i]? = some (n, b)) :
      Step r { r with
        connections := Function.update r.connections n none
        entries := r.entries.set i (n, true) }

/-- The name of connection `i`. -/
def nameOf (name : String) (i : Nat) : String :=
  name ++ "#" ++ toString (Int32.ofNat (i + 1)).toInt

theorem toString_ofNat (n : Nat) : toString (n : Int) = n.repr := rfl

theorem repr_injective {m n : Nat} (h : m.repr = n.repr) : m = n := by
  have hdigits := congrArg String.toList h
  rw [Nat.toList_repr, Nat.toList_repr] at hdigits
  have hvalue := congrArg (fun ds => Nat.ofDigitChars 10 ds 0) hdigits
  simpa using hvalue

/-- Names of different connections differ. -/
theorem nameOf_injective {name : String} {i j : Nat} (hi : i + 1 < 2 ^ 31) (hj : j + 1 < 2 ^ 31)
    (h : nameOf name i = nameOf name j) : i = j := by
  unfold nameOf at h
  rw [Int32.toInt_ofNat_of_lt hi, Int32.toInt_ofNat_of_lt hj, toString_ofNat,
    toString_ofNat] at h
  have hsucc := repr_injective ((String.append_right_inj _).mp h)
  omega

/-- The invariant of a registry. -/
structure Inv (r : Registry) : Prop where
  bound : r.entries.length < 2 ^ 31
  nextId : r.nextConnId = Int32.ofNat (r.entries.length + 1)
  names : ∀ i n b, r.entries[i]? = some (n, b) → n = nameOf r.name i
  /-- The map holds the connections that have not been removed. -/
  exact : ∀ n i, r.connections n = some i ↔ r.entries[i]? = some (n, false)

theorem inv_create (name : String) : (create name).Inv := by
  refine ⟨by simp [create], rfl, by simp [create], by simp [create]⟩

theorem Inv.length {r : Registry} (h : r.Inv) {i : Nat} {n : String} {b : Bool}
    (hi : r.entries[i]? = some (n, b)) : i + 1 < 2 ^ 31 := by
  have hlt := (List.getElem?_eq_some_iff.mp hi).1
  have hb := h.bound
  omega

/-- A name belongs to one connection. -/
theorem Inv.unique {r : Registry} (h : r.Inv) {i j : Nat} {n : String} {b b' : Bool}
    (hi : r.entries[i]? = some (n, b)) (hj : r.entries[j]? = some (n, b')) : i = j :=
  nameOf_injective (h.length hi) (h.length hj) ((h.names i n b hi).symm.trans (h.names j n b' hj))

theorem Inv.nextName_eq {r : Registry} (h : r.Inv) : r.nextName = nameOf r.name r.entries.length := by
  unfold nextName nameOf
  rw [h.nextId]

/-- The next name is nobody's. -/
theorem Inv.fresh {r : Registry} (h : r.Inv) (hlt : r.entries.length + 1 < 2 ^ 31) {i : Nat}
    {b : Bool} : r.entries[i]? ≠ some (r.nextName, b) := by
  intro hi
  have hname := (h.names i _ b hi).symm.trans h.nextName_eq
  have he := nameOf_injective (h.length hi) hlt hname
  rw [he, List.getElem?_eq_none (Nat.le_refl _)] at hi
  exact absurd hi (by simp)

theorem Inv.free {r : Registry} (h : r.Inv) (hlt : r.entries.length + 1 < 2 ^ 31) :
    r.connections r.nextName = none := by
  cases hc : r.connections r.nextName with
  | none => rfl
  | some i => exact absurd ((h.exact _ i).mp hc) (h.fresh hlt)

theorem inv_accept {r : Registry} (h : r.Inv) (hlt : r.entries.length + 1 < 2 ^ 31) :
    Inv { r with
      nextConnId := r.nextConnId + 1
      connections := Function.update r.connections r.nextName (some r.entries.length)
      entries := r.entries ++ [(r.nextName, false)] } := by
  -- an entry is an old one or the new one
  have hentry : ∀ i n b, (r.entries ++ [(r.nextName, false)])[i]? = some (n, b)
      ↔ r.entries[i]? = some (n, b) ∨ i = r.entries.length ∧ n = r.nextName ∧ b = false := by
    intro i n b
    rcases Nat.lt_trichotomy i r.entries.length with hi | hi | hi
    · rw [List.getElem?_append_left hi]
      exact ⟨.inl, fun h => h.elim id fun h => absurd h.1 (by omega)⟩
    · rw [hi, List.getElem?_concat_length, List.getElem?_eq_none (Nat.le_refl _)]
      simp [eq_comm]
    · rw [List.getElem?_eq_none (by rw [List.length_append, List.length_singleton]; omega),
        List.getElem?_eq_none (by omega)]
      simp only [reduceCtorEq, false_or, false_iff, not_and]
      omega
  refine ⟨by rw [List.length_append]; exact hlt, ?_, ?_, ?_⟩
  · rw [h.nextId, List.length_append, List.length_singleton]
    exact (Int32.ofNat_add _ _).symm
  · intro i n b hi
    rcases (hentry i n b).mp hi with hi | ⟨hi, hn, _⟩
    · exact h.names i n b hi
    · rw [hi, hn]
      exact h.nextName_eq
  · intro n i
    rw [hentry]
    dsimp only
    by_cases hn : n = r.nextName
    · rw [hn, Function.update_self]
      constructor
      · exact fun he => .inr ⟨(Option.some.inj he).symm, rfl, rfl⟩
      · rintro (hi | ⟨hi, _⟩)
        · exact absurd hi (h.fresh hlt)
        · rw [hi]
    · rw [Function.update_of_ne hn, h.exact]
      exact ⟨.inl, fun h => h.elim id fun h => absurd h.2.1 hn⟩

theorem inv_remove {r : Registry} (h : r.Inv) {i : Nat} {n : String} {b : Bool}
    (hi : r.entries[i]? = some (n, b)) :
    Inv { r with
      connections := Function.update r.connections n none
      entries := r.entries.set i (n, true) } := by
  have hlt := (List.getElem?_eq_some_iff.mp hi).1
  have hentry : ∀ j, (r.entries.set i (n, true))[j]?
      = if j = i then some (n, true) else r.entries[j]? := by
    intro j
    by_cases hj : j = i
    · rw [if_pos hj, hj, List.getElem?_set_self hlt]
    · rw [if_neg hj, List.getElem?_set_ne (Ne.symm hj)]
  refine ⟨by rw [List.length_set]; exact h.bound, by rw [List.length_set]; exact h.nextId, ?_, ?_⟩
  · intro j m c hj
    rw [hentry] at hj
    split at hj
    · rename_i he
      rw [he, ← (Prod.mk.inj (Option.some.inj hj)).1]
      exact h.names i n b hi
    · exact h.names j m c hj
  · intro m j
    rw [hentry]
    dsimp only
    by_cases hm : m = n
    · rw [hm, Function.update_self]
      split
      · simp
      · rename_i hne
        constructor
        · exact fun he => absurd he (by simp)
        · exact fun hj => absurd (h.unique hj hi) hne
    · rw [Function.update_of_ne hm, h.exact]
      split
      · rename_i he
        rw [he, hi]
        simp [Ne.symm hm]
      · exact Iff.rfl

/-- **Names stay distinct and the map exact.** -/
theorem Inv.step {r r' : Registry} (h : r.Inv) (hs : r.Step r') : r'.Inv := by
  cases hs with
  | same => exact h
  | accept hlt => exact inv_accept h hlt
  | remove hi => exact inv_remove h hi

end Registry

end Windz
