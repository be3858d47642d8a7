import Mathlib.Data.List.Basic

/-!
# Copies inside one array

`std::copy` and `std::copy_backward` on ranges of a single array, one element
at a time and with every access checked, so that a range leaving the array is
`none`. When source and destination overlap, an element may be overwritten
before it is read; the two main results say which direction is safe when. Both
are stated against `overwrite`, the simultaneous assignment.
-/

namespace Windz.Lib

variable {α : Type}

/-- The sub-range `[i, i + n)`, `none` when it does not lie inside `xs`. -/
def slice? (xs : List α) (i n : Nat) : Option (List α) :=
  if i + n ≤ xs.length then some ((xs.drop i).take n) else none

/-- `xs` with `seg` put at position `i`, all at once. -/
def overwrite (xs : List α) (i : Nat) (seg : List α) : List α :=
  xs.take i ++ seg ++ xs.drop (i + seg.length)

/-- Store one element, `none` outside the array. -/
def store? (xs : List α) (i : Nat) (x : α) : Option (List α) :=
  if i < xs.length then some (xs.set i x) else none

/-- Copy an outside range to position `i`, left to right. -/
def copyIn : List α → Nat → List α → Option (List α)
  | xs, _, [] => some xs
  | xs, i, x :: seg => do copyIn (← store? xs i x) (i + 1) seg

/-- `std::copy` of `n` elements from position `src` to position `dst`: left to right. -/
def copy : List α → Nat → Nat → Nat → Option (List α)
  | xs, _, _, 0 => some xs
  | xs, src, dst, n + 1 => do copy (← store? xs dst (← xs[src]?)) (src + 1) (dst + 1) n

/-- `std::copy_backward` of the `n` elements before `srcEnd` to the positions before
`dstEnd`: right to left. -/
def copyBackward : List α → Nat → Nat → Nat → Option (List α)
  | xs, _, _, 0 => some xs
  | xs, srcEnd, dstEnd, n + 1 => do
      copyBackward (← store? xs (dstEnd - 1) (← xs[srcEnd - 1]?)) (srcEnd - 1) (dstEnd - 1) n

theorem store?_eq {xs : List α} {i : Nat} (h : i < xs.length) (x : α) :
    store? xs i x = some (xs.set i x) := if_pos h

theorem slice?_eq {xs : List α} {i n : Nat} (h : i + n ≤ xs.length) :
    slice? xs i n = some ((xs.drop i).take n) := if_pos h

/-- `std::reverse` of the elements in `[i, j)`. -/
def reverse? (xs : List α) (i j : Nat) : Option (List α) :=
  if i ≤ j ∧ j ≤ xs.length then some (xs.take i ++ ((xs.take j).drop i).reverse ++ xs.drop j)
  else none

/-! ## No copy changes the size -/

theorem store?_length {xs ys : List α} {i : Nat} {x : α} (h : store? xs i x = some ys) :
    ys.length = xs.length := by
  unfold store? at h
  split at h
  · rw [← Option.some.inj h, List.length_set]
  · cases h

theorem copyIn_length : ∀ (seg : List α) {xs ys : List α} {i : Nat},
    copyIn xs i seg = some ys → ys.length = xs.length
  | [], xs, ys, i, h => by rw [← Option.some.inj h]
  | x :: seg, xs, ys, i, h => by
      obtain ⟨zs, hs, hc⟩ := Option.bind_eq_some_iff.1 h
      rw [copyIn_length seg hc, store?_length hs]

theorem copy_length : ∀ (n : Nat) {xs ys : List α} {src dst : Nat},
    copy xs src dst n = some ys → ys.length = xs.length
  | 0, xs, ys, _, _, h => by rw [← Option.some.inj h]
  | n + 1, xs, ys, src, dst, h => by
      obtain ⟨x, -, hx⟩ := Option.bind_eq_some_iff.1 h
      obtain ⟨zs, hs, hc⟩ := Option.bind_eq_some_iff.1 hx
      rw [copy_length n hc, store?_length hs]

theorem copyBackward_length : ∀ (n : Nat) {xs ys : List α} {srcEnd dstEnd : Nat},
    copyBackward xs srcEnd dstEnd n = some ys → ys.length = xs.length
  | 0, xs, ys, _, _, h => by rw [← Option.some.inj h]
  | n + 1, xs, ys, srcEnd, dstEnd, h => by
      obtain ⟨x, -, hx⟩ := Option.bind_eq_some_iff.1 h
      obtain ⟨zs, hs, hc⟩ := Option.bind_eq_some_iff.1 hx
      rw [copyBackward_length n hc, store?_length hs]

/-! ## `overwrite`, position by position -/

theorem overwrite_length {xs : List α} {i : Nat} {seg : List α}
    (h : i + seg.length ≤ xs.length) : (overwrite xs i seg).length = xs.length := by
  simp only [overwrite, List.length_append, List.length_take, List.length_drop]
  omega

theorem overwrite_getElem? {xs : List α} {i : Nat} {seg : List α}
    (h : i + seg.length ≤ xs.length) (j : Nat) :
    (overwrite xs i seg)[j]? = if i ≤ j ∧ j < i + seg.length then seg[j - i]? else xs[j]? := by
  unfold overwrite
  rw [List.append_assoc]
  rcases Nat.lt_or_ge j i with hj | hj
  · rw [List.getElem?_append_left (by simp; omega), List.getElem?_take_of_lt hj,
      if_neg (by omega)]
  · have hi : (xs.take i).length = i := by simp; omega
    rw [List.getElem?_append_right (by omega), hi]
    rcases Nat.lt_or_ge (j - i) seg.length with hs | hs
    · rw [List.getElem?_append_left hs, if_pos (by omega)]
    · rw [List.getElem?_append_right hs, List.getElem?_drop, if_neg (by omega)]
      congr 1
      omega

/-- Two arrays that agree at every position are equal, in the form the copies need. -/
theorem eq_overwrite {xs ys seg : List α} {i : Nat} (h : i + seg.length ≤ xs.length)
    (hys : ∀ j, ys[j]? = if i ≤ j ∧ j < i + seg.length then seg[j - i]? else xs[j]?) :
    ys = overwrite xs i seg :=
  List.ext_getElem? fun j => by rw [hys j, overwrite_getElem? h j]

/-- The written range reads back. -/
theorem overwrite_slice {xs : List α} {i : Nat} {seg : List α} (h : i ≤ xs.length) :
    ((overwrite xs i seg).drop i).take seg.length = seg := by
  simp [overwrite, List.append_assoc, Nat.min_eq_left h]

/-- Reversing the front of the written range. -/
theorem reverse?_overwrite {xs s t : List α} {i : Nat} (h : i + (s ++ t).length ≤ xs.length) :
    reverse? (overwrite xs i (s ++ t)) i (i + s.length)
      = some (overwrite xs i (s.reverse ++ t)) := by
  have hi : (xs.take i).length = i := by simp; omega
  have hlen := overwrite_length h
  rw [List.length_append] at h
  have hsplit : overwrite xs i (s ++ t)
      = (xs.take i ++ s) ++ (t ++ xs.drop (i + (s ++ t).length)) := by
    simp [overwrite, List.append_assoc]
  have hj : i + s.length = (xs.take i ++ s).length := by rw [List.length_append, hi]
  unfold reverse?
  rw [if_pos ⟨Nat.le_add_right _ _, by omega⟩, hsplit, hj, List.take_left, List.drop_left]
  have hfront : (xs.take i ++ s ++ (t ++ xs.drop (i + (s ++ t).length))).take i = xs.take i := by
    rw [List.append_assoc, List.take_append_of_le_length (by omega), List.take_take, Nat.min_self]
  have hback : (xs.take i ++ s).drop i = s := by
    rw [List.drop_append, hi, Nat.sub_self, List.drop_zero, List.drop_eq_nil_of_le (by omega),
      List.nil_append]
  rw [hfront, hback]
  simp [overwrite, List.append_assoc]

/-! ## The three copies -/

theorem copyIn_eq : ∀ (seg xs : List α) (i : Nat), i + seg.length ≤ xs.length →
    copyIn xs i seg = some (overwrite xs i seg)
  | [], xs, i, _ => by simp [copyIn, overwrite]
  | x :: seg, xs, i, h => by
      have hlen : i + 1 + seg.length ≤ xs.length := by simp at h; omega
      rw [copyIn, store?_eq (by omega)]
      show copyIn (xs.set i x) (i + 1) seg = _
      rw [copyIn_eq seg _ (i + 1) (by simpa using hlen)]
      refine congrArg some (eq_overwrite h fun j => ?_)
      rw [overwrite_getElem? (by simpa using hlen), List.getElem?_set]
      rcases Nat.lt_trichotomy j i with hj | hj | hj
      · rw [if_neg (by omega), if_neg (by omega), if_neg (by omega)]
      · subst hj
        rw [if_neg (by omega), if_pos rfl, if_pos (by omega), if_pos (by simp)]
        simp
      · by_cases hs : j < i + 1 + seg.length
        · rw [if_pos (by omega), if_pos (by simp; omega)]
          rw [show j - i = (j - (i + 1)) + 1 by omega, List.getElem?_cons_succ]
        · rw [if_neg (by omega), if_neg (by omega), if_neg (by simp; omega)]

theorem copyIn_append : ∀ (s t xs : List α) (i : Nat),
    copyIn xs i (s ++ t) = (copyIn xs i s).bind fun ys => copyIn ys (i + s.length) t
  | [], t, xs, i => by simp [copyIn]
  | x :: s, t, xs, i => by
      rw [List.cons_append, copyIn, copyIn]
      cases store? xs i x with
      | none => rfl
      | some ys =>
        show copyIn ys (i + 1) (s ++ t) = (copyIn ys (i + 1) s).bind _
        rw [copyIn_append s t ys (i + 1)]
        congr 1
        funext zs
        rw [List.length_cons, Nat.add_assoc, Nat.add_comm 1]

private theorem copy_spec : ∀ (n : Nat) (xs : List α) (src dst : Nat),
    dst ≤ src → src + n ≤ xs.length →
    ∃ ys, copy xs src dst n = some ys
      ∧ ∀ j, ys[j]? = if dst ≤ j ∧ j < dst + n then xs[src + (j - dst)]? else xs[j]?
  | 0, xs, src, dst, _, _ => ⟨xs, rfl, fun j => by rw [if_neg (by omega)]⟩
  | n + 1, xs, src, dst, hle, hlen => by
      have hsrc : xs[src]? = some xs[src] := List.getElem?_eq_getElem (by omega)
      obtain ⟨ys, hys, hget⟩ :=
        copy_spec n (xs.set dst xs[src]) (src + 1) (dst + 1) (by omega) (by simp; omega)
      refine ⟨ys, ?_, fun j => ?_⟩
      · simp only [copy, hsrc, Option.bind_eq_bind, Option.bind_some]
        rw [store?_eq (by omega)]
        exact hys
      -- positions at or left of `dst` are final; the elements still to be read lie right of it
      · rw [hget j, List.getElem?_set, List.getElem?_set]
        rcases Nat.lt_trichotomy j dst with hj | hj | hj
        · rw [if_neg (by omega), if_neg (by omega), if_neg (by omega)]
        · subst hj
          rw [if_neg (by omega), if_pos rfl, if_pos (by omega), if_pos (by omega), Nat.sub_self]
          exact hsrc.symm
        · by_cases hs : j < dst + 1 + n
          · rw [if_pos (by omega), if_neg (by omega), if_pos (by omega)]
            congr 1
            omega
          · rw [if_neg (by omega), if_neg (by omega), if_neg (by omega)]

/-- **Copying to the left, left to right, is a simultaneous assignment.** -/
theorem copy_eq (xs : List α) {src dst : Nat} (n : Nat) (hle : dst ≤ src)
    (hlen : src + n ≤ xs.length) :
    copy xs src dst n = some (overwrite xs dst ((xs.drop src).take n)) := by
  obtain ⟨ys, hys, hget⟩ := copy_spec n xs src dst hle hlen
  have hseg : ((xs.drop src).take n).length = n := by simp; omega
  rw [hys]
  refine congrArg some (eq_overwrite (by omega) fun j => ?_)
  rw [hget j, hseg]
  split
  · rw [List.getElem?_take_of_lt (by omega), List.getElem?_drop]
  · rfl

private theorem copyBackward_spec : ∀ (n : Nat) (xs : List α) (srcEnd dstEnd : Nat),
    n ≤ srcEnd → srcEnd ≤ dstEnd → dstEnd ≤ xs.length →
    ∃ ys, copyBackward xs srcEnd dstEnd n = some ys
      ∧ ∀ j, ys[j]? = if dstEnd - n ≤ j ∧ j < dstEnd
          then xs[srcEnd - (dstEnd - j)]? else xs[j]?
  | 0, xs, srcEnd, dstEnd, _, _, _ => ⟨xs, rfl, fun j => by rw [if_neg (by omega)]⟩
  | n + 1, xs, srcEnd, dstEnd, hn, hle, hlen => by
      have hsrc : xs[srcEnd - 1]? = some xs[srcEnd - 1] := List.getElem?_eq_getElem (by omega)
      obtain ⟨ys, hys, hget⟩ :=
        copyBackward_spec n (xs.set (dstEnd - 1) xs[srcEnd - 1]) (srcEnd - 1) (dstEnd - 1)
          (by omega) (by omega) (by simp; omega)
      refine ⟨ys, ?_, fun j => ?_⟩
      · simp only [copyBackward, hsrc, Option.bind_eq_bind, Option.bind_some]
        rw [store?_eq (by omega)]
        exact hys
      -- mirror image: the elements still to be read lie left of every position written
      · rw [hget j, List.getElem?_set, List.getElem?_set]
        rcases Nat.lt_trichotomy j (dstEnd - 1) with hj | hj | hj
        · by_cases hs : dstEnd - 1 - n ≤ j
          · rw [if_pos (by omega), if_neg (by omega), if_pos (by omega)]
            congr 1
            omega
          · rw [if_neg (by omega), if_neg (by omega), if_neg (by omega)]
        · subst hj
          rw [if_neg (by omega), if_pos rfl, if_pos (by omega), if_pos (by omega),
            show dstEnd - (dstEnd - 1) = 1 by omega]
          exact hsrc.symm
        · rw [if_neg (by omega), if_neg (by omega), if_neg (by omega)]

/-- **Copying to the right, right to left, is a simultaneous assignment.** -/
theorem copyBackward_eq (xs : List α) {src dst : Nat} (n : Nat) (hle : src ≤ dst)
    (hlen : dst + n ≤ xs.length) :
    copyBackward xs (src + n) (dst + n) n = some (overwrite xs dst ((xs.drop src).take n)) := by
  obtain ⟨ys, hys, hget⟩ :=
    copyBackward_spec n xs (src + n) (dst + n) (by omega) (by omega) hlen
  have hseg : ((xs.drop src).take n).length = n := by simp; omega
  rw [hys]
  refine congrArg some (eq_overwrite (by omega) fun j => ?_)
  rw [hget j, hseg, Nat.add_sub_cancel]
  split
  · rw [List.getElem?_take_of_lt (by omega), List.getElem?_drop]
    congr 1
    omega
  · rfl

end Windz.Lib
