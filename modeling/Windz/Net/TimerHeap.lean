import Windz.Net.Timer

/-!
# The operations of the timer heap

For each operation of `TimerManager` on `heap_`: started on a heap in order, or on
one that the operation is there to repair, it stays within bounds, ends in a heap
in order, and changes the entries as its name says.
-/

namespace Windz

open Lib Lib.BinaryHeap

namespace TimerHeap

variable {when : TimerEntry → Timestamp}

/-- What the heap is ordered by. -/
def key (when : TimerEntry → Timestamp) (e : TimerEntry) : Int := (when e).unixNano

/-- No entry's `when()` is earlier than its parent's. -/
abbrev Ordered (when : TimerEntry → Timestamp) (heap : TimerHeap) : Prop :=
  BinaryHeap.Ordered (key when) heap

/-- `UpInHeap` repairs the edge above `index`, and leaves the first entry in place when the entry
at `index` is not earlier. -/
theorem upInHeap_spec {heap : TimerHeap} {index : Nat} (hlt : index < heap.length)
    (h : BrokenUp (key when) heap index) :
    ∃ heap', upInHeap when heap index = some heap' ∧ heap'.Perm heap ∧ Ordered when heap'
      ∧ ∀ r e, heap[0]? = some r → heap[index]? = some e → 0 < index → key when r ≤ key when e →
        heap'[0]? = some r := by
  induction index using Nat.strongRecOn generalizing heap with
  | ind index ih =>
    rw [upInHeap]
    by_cases hpos : 0 < index
    · have hpar : sizeDec index / 2 = parent index := by rw [sizeDec_pos hpos]; rfl
      have hpl := parent_lt hpos
      obtain ⟨e, he⟩ : ∃ e, heap[index]? = some e := ⟨_, List.getElem?_eq_getElem hlt⟩
      obtain ⟨p, hp⟩ : ∃ p, heap[parent index]? = some p :=
        ⟨_, List.getElem?_eq_getElem (hpl.trans hlt)⟩
      rw [dif_pos hpos, hpar, he, hp]
      dsimp only
      split
      · rename_i hearlier
        -- the entry changes places with its parent
        have hearlier' := Timestamp.lt_iff.mp hearlier
        have hs := swap_eq he hp
        have hlen := swap_length hs
        obtain ⟨heap', hup, hperm, hord, hroot⟩ :=
          ih (parent index) hpl (by rw [hlen]; exact hpl.trans hlt)
            (h.swap hpos he hp hearlier' hs)
        rw [swapInHeap, hs]
        refine ⟨heap', hup, hperm.trans (swap_perm hs), hord, ?_⟩
        intro r e' hr he' _ hle
        rw [Option.some.injEq] at he'
        subst he'
        by_cases hp0 : parent index = 0
        · -- the parent is the first entry, which is not later
          rw [hp0, hr, Option.some.injEq] at hp
          rw [hp] at hle
          exact absurd hle (not_le.mpr hearlier')
        · have hget := swap_getElem? he hp hs
          refine hroot r e ?_ ?_ (Nat.pos_of_ne_zero hp0) hle
          · rw [hget, if_neg (Ne.symm hp0), if_neg hpos.ne, hr]
          · rw [hget, if_pos rfl]
      · rename_i hearlier
        refine ⟨heap, rfl, List.Perm.refl _, h.done fun _ x p' hx hp' => ?_, ?_⟩
        · rw [he, Option.some.injEq] at hx
          rw [hp, Option.some.injEq] at hp'
          rw [← hx, ← hp']
          exact not_lt.mp fun hlt' => hearlier (Timestamp.lt_iff.mpr hlt')
        · intro r _ hr _ _ _; exact hr
    · rw [dif_neg hpos]
      refine ⟨heap, rfl, List.Perm.refl _, h.done fun h0 => absurd h0 hpos, ?_⟩
      intro r _ hr _ h0; exact absurd h0 hpos

/-- The chosen child exists, and is not later than the other one. -/
theorem minChild_spec (when : TimerEntry → Timestamp) {heap : TimerHeap} {i : Nat}
    (hlt : i * 2 + 1 < heap.length) :
    ∃ m c, minChild when heap (i * 2 + 1) = some m ∧ 0 < m ∧ parent m = i ∧ heap[m]? = some c
      ∧ ∀ j x, 0 < j → parent j = i → heap[j]? = some x → key when c ≤ key when x := by
  have hl := List.getElem?_eq_getElem hlt
  unfold minChild
  rw [sizeDec_pos (by omega)]
  split
  · rename_i hr
    have hr := List.getElem?_eq_getElem (show i * 2 + 1 + 1 < heap.length by omega)
    rw [hl, hr]
    dsimp only
    split
    · rename_i hlr
      have hlr := Timestamp.lt_iff.mp hlr
      refine ⟨_, _, rfl, by omega, (parent_eq_iff (by omega)).mpr (by omega), hl, ?_⟩
      intro j x hj hpar hx
      rcases (parent_eq_iff hj).mp hpar with hj' | hj'
      · rw [hj', Nat.mul_comm, hl, Option.some.injEq] at hx
        rw [hx]
      · rw [hj', Nat.mul_comm, hr, Option.some.injEq] at hx
        rw [← hx]
        exact hlr.le
    · rename_i hlr
      have hlr := not_lt.mp fun h => hlr (Timestamp.lt_iff.mpr h)
      refine ⟨_, _, rfl, by omega, (parent_eq_iff (by omega)).mpr (by omega), hr, ?_⟩
      intro j x hj hpar hx
      rcases (parent_eq_iff hj).mp hpar with hj' | hj'
      · rw [hj', Nat.mul_comm, hl, Option.some.injEq] at hx
        rw [← hx]
        exact hlr
      · rw [hj', Nat.mul_comm, hr, Option.some.injEq] at hx
        rw [hx]
  · -- the left child is the last entry
    refine ⟨_, _, rfl, by omega, (parent_eq_iff (by omega)).mpr (by omega), hl, ?_⟩
    intro j x hj hpar hx
    have hjlt := (List.getElem?_eq_some_iff.mp hx).1
    rcases (parent_eq_iff hj).mp hpar with hj' | hj'
    · rw [hj', Nat.mul_comm, hl, Option.some.injEq] at hx
      rw [hx]
    · omega

/-- `DownInHeap` repairs the edges below `index`. -/
theorem downInHeap_spec {heap : TimerHeap} {index : Nat} (h : BrokenDown (key when) heap index) :
    ∃ heap', downInHeap when heap index = some heap' ∧ heap'.Perm heap ∧ Ordered when heap' := by
  induction hn : heap.length - index using Nat.strongRecOn generalizing heap index with
  | ind n ih =>
    rw [downInHeap]
    by_cases hlt : index * 2 + 1 < heap.length
    · rw [dif_pos hlt]
      obtain ⟨m, c, hm, hmpos, hmpar, hc, hmin⟩ := minChild_spec when hlt
      have hml := parent_lt hmpos
      obtain ⟨e, he⟩ : ∃ e, heap[index]? = some e :=
        ⟨_, List.getElem?_eq_getElem (by omega)⟩
      rw [hm]
      dsimp only
      rw [he, hc]
      dsimp only
      split
      · rename_i hle
        have hle := Timestamp.le_iff.mp hle
        refine ⟨heap, rfl, List.Perm.refl _, h.done ?_⟩
        intro j hj hpar x p hx hp
        rw [hpar, he, Option.some.injEq] at hp
        rw [← hp]
        exact hle.trans (hmin j x hj hpar hx)
      · rename_i hle
        have hlt' := not_le.mp fun h => hle (Timestamp.le_iff.mpr h)
        have hs := swap_eq he hc
        have hlen := swap_length hs
        obtain ⟨heap', hdown, hperm, hord⟩ :=
          ih _ (by omega) (h.swap hmpos hmpar he hc hlt' hmin hs) rfl
        rw [swapInHeap, hs]
        exact ⟨heap', hdown, hperm.trans (swap_perm hs), hord⟩
    · rw [dif_neg hlt]
      refine ⟨heap, rfl, List.Perm.refl _, h.done ?_⟩
      intro j hj hpar x _ hx
      have := (List.getElem?_eq_some_iff.mp hx).1
      rcases (parent_eq_iff hj).mp hpar with hj' | hj' <;> omega

/-- `PushInHeap` adds the entry; the first entry stays first when the new one is not earlier. -/
theorem pushInHeap_spec {heap : TimerHeap} (h : Ordered when heap) (e : TimerEntry) :
    ∃ heap', pushInHeap when heap e = some heap' ∧ heap'.Perm (e :: heap) ∧ Ordered when heap'
      ∧ ∀ r, heap[0]? = some r → key when r ≤ key when e → heap'[0]? = some r := by
  have hlen : (heap ++ [e]).length = heap.length + 1 := by simp
  have hindex : sizeDec (heap ++ [e]).length = heap.length := by
    rw [sizeDec_pos (by omega), hlen]; rfl
  obtain ⟨heap', hup, hperm, hord, hroot⟩ := upInHeap_spec (by omega) (h.concat e)
  unfold pushInHeap
  rw [hindex]
  refine ⟨heap', hup, hperm.trans (List.perm_append_singleton e heap), hord, ?_⟩
  intro r hr hle
  have hpos : 0 < heap.length := (List.getElem?_eq_some_iff.mp hr).1
  refine hroot r e ?_ ?_ hpos hle
  · rw [List.getElem?_append_left hpos, hr]
  · rw [List.getElem?_append_right (Nat.le_refl _), Nat.sub_self]; rfl

/-- Swapping the first entry to the end and dropping it there leaves the others. -/
theorem swapInHeap_dropLast {r : TimerEntry} {rest heap : TimerHeap}
    (hs : swapInHeap (r :: rest) 0 (sizeDec (r :: rest).length) = some heap) :
    heap.dropLast.Perm rest := by
  have hindex : sizeDec (r :: rest).length = (r :: rest).length - 1 := sizeDec_pos (by simp)
  obtain ⟨l, hl⟩ : ∃ l, (r :: rest)[(r :: rest).length - 1]? = some l :=
    ⟨_, List.getElem?_eq_getElem (by simp)⟩
  rw [hindex, swapInHeap] at hs
  have hlen := swap_length hs
  have hne : heap ≠ [] := by
    rintro rfl
    exact absurd hlen (by simp)
  have hlast : heap.getLast hne = r := by
    have hget := swap_getElem? (show (r :: rest)[0]? = some r from rfl) hl hs
      ((r :: rest).length - 1)
    rw [if_pos rfl, ← hlen, ← List.getLast?_eq_getElem?,
      List.getLast?_eq_getLast_of_ne_nil hne, Option.some.injEq] at hget
    exact hget
  have hback : heap.dropLast ++ [r] = heap := by
    rw [← hlast]
    exact List.dropLast_append_getLast hne
  have hcons : (r :: heap.dropLast).Perm (r :: rest) := by
    refine (List.perm_append_singleton r _).symm.trans ?_
    rw [hback]
    exact swap_perm hs
  exact hcons.cons_inv

theorem swapInHeap_last (r : TimerEntry) (rest : TimerHeap) :
    ∃ l, swapInHeap (r :: rest) 0 (sizeDec (r :: rest).length)
      = some (((r :: rest).set 0 l).set ((r :: rest).length - 1) r) := by
  have hindex : sizeDec (r :: rest).length = (r :: rest).length - 1 := sizeDec_pos (by simp)
  obtain ⟨l, hl⟩ : ∃ l, (r :: rest)[(r :: rest).length - 1]? = some l :=
    ⟨_, List.getElem?_eq_getElem (by simp)⟩
  rw [hindex]
  exact ⟨l, swap_eq (show (r :: rest)[0]? = some r from rfl) hl⟩

/-- `PopInHeap` removes the first entry. -/
theorem popInHeap_spec {r : TimerEntry} {rest : TimerHeap} (h : Ordered when (r :: rest)) :
    ∃ heap', popInHeap when (r :: rest) = some heap' ∧ heap'.Perm rest ∧ Ordered when heap' := by
  obtain ⟨l, hs⟩ := swapInHeap_last r rest
  have hroot := hs
  rw [sizeDec_pos (by simp), swapInHeap] at hroot
  obtain ⟨heap', hdown, hperm, hord⟩ := downInHeap_spec (h.replace_root hroot)
  unfold popInHeap
  rw [hs]
  exact ⟨heap', hdown, hperm.trans (swapInHeap_dropLast hs), hord⟩

/-! ## Whatever the order -/

/-- `UpInHeap` stays within bounds and moves entries only. -/
theorem upInHeap_perm (when : TimerEntry → Timestamp) {heap : TimerHeap} {index : Nat}
    (hlt : index < heap.length) :
    ∃ heap', upInHeap when heap index = some heap' ∧ heap'.Perm heap := by
  induction index using Nat.strongRecOn generalizing heap with
  | ind index ih =>
    rw [upInHeap]
    by_cases hpos : 0 < index
    · have hpar : sizeDec index / 2 < index := by rw [sizeDec_pos hpos]; omega
      have he := List.getElem?_eq_getElem hlt
      have hp := List.getElem?_eq_getElem (hpar.trans hlt)
      rw [dif_pos hpos, he, hp]
      dsimp only
      split
      · have hs := swap_eq he hp
        obtain ⟨heap', hup, hperm⟩ :=
          ih _ hpar (by rw [swap_length hs]; exact hpar.trans hlt)
        rw [swapInHeap, hs]
        exact ⟨heap', hup, hperm.trans (swap_perm hs)⟩
      · exact ⟨heap, rfl, List.Perm.refl _⟩
    · rw [dif_neg hpos]
      exact ⟨heap, rfl, List.Perm.refl _⟩

/-- `DownInHeap` stays within bounds and moves entries only. -/
theorem downInHeap_perm (when : TimerEntry → Timestamp) (heap : TimerHeap) (index : Nat) :
    ∃ heap', downInHeap when heap index = some heap' ∧ heap'.Perm heap := by
  induction hn : heap.length - index using Nat.strongRecOn generalizing heap index with
  | ind n ih =>
    rw [downInHeap]
    by_cases hlt : index * 2 + 1 < heap.length
    · rw [dif_pos hlt]
      obtain ⟨m, c, hm, _, hmpar, hc, _⟩ := minChild_spec when hlt
      have he := List.getElem?_eq_getElem (show index < heap.length by omega)
      rw [hm]
      dsimp only
      rw [he, hc]
      dsimp only
      split
      · exact ⟨heap, rfl, List.Perm.refl _⟩
      · have hs := swap_eq he hc
        have hlen := swap_length hs
        have hge := minChild_ge hm
        obtain ⟨heap', hdown, hperm⟩ :=
          ih (((heap.set index c).set m heap[index]).length - m) (by omega) _ m rfl
        rw [swapInHeap, hs]
        exact ⟨heap', hdown, hperm.trans (swap_perm hs)⟩
    · rw [dif_neg hlt]
      exact ⟨heap, rfl, List.Perm.refl _⟩

theorem pushInHeap_perm (when : TimerEntry → Timestamp) (heap : TimerHeap) (e : TimerEntry) :
    ∃ heap', pushInHeap when heap e = some heap' ∧ heap'.Perm (e :: heap) := by
  unfold pushInHeap
  have hlen : 0 < (heap ++ [e]).length := by simp
  have hlt : sizeDec (heap ++ [e]).length < (heap ++ [e]).length := by
    rw [sizeDec_pos hlen]
    omega
  obtain ⟨heap', hup, hperm⟩ := upInHeap_perm when hlt
  exact ⟨heap', hup, hperm.trans (List.perm_append_singleton e heap)⟩

theorem popInHeap_perm (when : TimerEntry → Timestamp) (r : TimerEntry) (rest : TimerHeap) :
    ∃ heap', popInHeap when (r :: rest) = some heap' ∧ heap'.Perm rest := by
  obtain ⟨l, hs⟩ := swapInHeap_last r rest
  unfold popInHeap
  rw [hs]
  obtain ⟨heap', hdown, hperm⟩ := downInHeap_perm when _ 0
  exact ⟨heap', hdown, hperm.trans (swapInHeap_dropLast hs)⟩

theorem popInHeap_mem {heap heap' : TimerHeap} {e : TimerEntry}
    (h : popInHeap when heap = some heap') (he : e ∈ heap') : e ∈ heap := by
  cases heap with
  | nil => exact absurd h (by simp [popInHeap, swapInHeap, BinaryHeap.swap])
  | cons r rest =>
    obtain ⟨heap₂, hpop, hperm⟩ := popInHeap_perm when r rest
    rw [hpop, Option.some.injEq] at h
    rw [← h] at he
    exact List.mem_cons_of_mem r (hperm.mem_iff.mp he)

theorem downInHeap_mem {heap heap' : TimerHeap} {index : Nat} {e : TimerEntry}
    (h : downInHeap when heap index = some heap') : e ∈ heap' ↔ e ∈ heap := by
  obtain ⟨heap₂, hdown, hperm⟩ := downInHeap_perm when heap index
  rw [hdown, Option.some.injEq] at h
  rw [← h]
  exact hperm.mem_iff

theorem popInHeap_length {r : TimerEntry} {rest heap : TimerHeap}
    (h : popInHeap when (r :: rest) = some heap) : heap.length = rest.length := by
  obtain ⟨heap', hpop, hperm⟩ := popInHeap_perm when r rest
  rw [hpop, Option.some.injEq] at h
  rw [← h]
  exact hperm.length_eq

theorem popInHeap_length_le {heap heap' : TimerHeap} (h : popInHeap when heap = some heap') :
    heap'.length ≤ heap.length := by
  cases heap with
  | nil => exact absurd h (by simp [popInHeap, swapInHeap, BinaryHeap.swap])
  | cons r rest =>
    rw [popInHeap_length h]
    exact Nat.le_succ _

theorem downInHeap_length {heap heap' : TimerHeap} {index : Nat}
    (h : downInHeap when heap index = some heap') : heap'.length = heap.length := by
  obtain ⟨heap₂, hdown, hperm⟩ := downInHeap_perm when heap index
  rw [hdown, Option.some.injEq] at h
  rw [← h]
  exact hperm.length_eq

end TimerHeap

end Windz
