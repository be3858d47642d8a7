import Windz.Net.TimedLoop
import Windz.Net.TimerHeap
import Windz.Net.TimerSteps

/-!
# Heaps kept by their operations

The private operations of `TimerManager` on `heap_`, in any order: `PushInHeap` of a
timer that `AddTimer` has made, `PopInHeap` if there is an entry, and `DownInHeap(0)`
behind a `Restart` of the first entry. Whatever heap in order they begin with, what
`NextTimeout` looks at is the earliest deadline. No entry is twice in the heap, as
`AddTimer` makes a new timer for every one.
-/

namespace Windz

open Lib

namespace TimerHeap

/-- An operation stays within bounds and ends in a heap in order, of `entries`. -/
def EndsInOrder (when : TimerEntry → Timestamp) (entries : List TimerEntry)
    (result : Option TimerHeap) : Prop :=
  ∃ heap, result = some heap ∧ heap.Perm entries ∧ Ordered when heap

variable {when : TimerEntry → Timestamp}

theorem pushInHeap_ends {heap : TimerHeap} (h : Ordered when heap) (e : TimerEntry) :
    EndsInOrder when (e :: heap) (heap.pushInHeap when e) := by
  obtain ⟨heap', hpush, hperm, hord, _⟩ := pushInHeap_spec h e
  exact ⟨heap', hpush, hperm, hord⟩

theorem popInHeap_ends {r : TimerEntry} {rest : TimerHeap} (h : Ordered when (r :: rest)) :
    EndsInOrder when rest (popInHeap when (r :: rest)) := popInHeap_spec h

theorem downInHeap_ends {when' : TimerEntry → Timestamp} {r : TimerEntry} {rest : TimerHeap}
    (h : Ordered when (r :: rest)) (hothers : ∀ e ∈ rest, when' e = when e) :
    EndsInOrder when' (r :: rest) (downInHeap when' (r :: rest) 0) := by
  refine downInHeap_spec (BinaryHeap.Ordered.head_changed h fun e he => ?_)
  unfold key
  rw [hothers e he]

/-- An access through `0 - 1` is out of bounds. -/
theorem wrapped_outside {heap : TimerHeap} (h : heap.length < 2 ^ 63) :
    heap[sizeDec 0]? = none ∧ heap[sizeDec 0 / 2]? = none := by
  have hwrap : sizeDec 0 = 2 ^ 64 - 1 := if_pos rfl
  rw [hwrap]
  exact ⟨List.getElem?_eq_none (by omega), List.getElem?_eq_none (by omega)⟩

end TimerHeap

namespace TimerManager

/-- The operations on the heap. -/
inductive HeapLabel where
  -- `AddTimer` in the loop thread
  | push (when : Timestamp) (interval : Duration)
  | pop
  /-- The first entry is given a later deadline. -/
  | down (when : Timestamp)

/-- The heap behind one of them. -/
def heapStep (w : TimerManager) : HeapLabel → Option TimerManager
  | .push when interval => some (w.addTimer true when interval)
  | .pop =>
      match w.heap with
      | [] => none
      | _ :: _ => some (w.setHeap (w.heap.popInHeap w.when))
  | .down when =>
      match w.heap with
      | [] => none
      | root :: _ =>
          if w.when root ≤ when then
            let w := w.modify root fun t => { t with when }
            some (w.setHeap (w.heap.downInHeap w.when 0))
          else none

/-- The heap is in order, and its entries are timers of their own. -/
structure HeapInOrder (w : TimerManager) : Prop where
  ordered : TimerHeap.Ordered w.when w.heap
  nodup : w.heap.Nodup
  known : ∀ e ∈ w.heap, e < w.timers.length
  fault : w.fault = none

/-- From any heap in order. -/
def heapMachine : Machine TimerManager HeapLabel where
  init := HeapInOrder
  step := heapStep

/-- An operation that ends in order puts the heap in order. -/
theorem heapInOrder_setHeap {w : TimerManager} {entries : List TimerEntry}
    {result : Option TimerHeap} (h : TimerHeap.EndsInOrder w.when entries result)
    (hnodup : entries.Nodup) (hknown : ∀ e ∈ entries, e < w.timers.length)
    (hfault : w.fault = none) : HeapInOrder (w.setHeap result) := by
  obtain ⟨heap, rfl, hperm, hord⟩ := h
  exact { ordered := hord, nodup := hperm.nodup_iff.mpr hnodup
          known := fun e he => hknown e (hperm.mem_iff.mp he), fault := hfault }

theorem heapInOrder_step {w w' : TimerManager} {a : HeapLabel} (h : HeapInOrder w)
    (hs : w.heapStep a = some w') : HeapInOrder w' := by
  cases a with
  | push when interval =>
    obtain rfl := Option.some.inj hs
    have hwhen : ∀ e ∈ w.heap, TimerManager.when
        { w with timers := w.timers ++ [Timer.create when interval] } e = w.when e :=
      fun e he => when_congr (List.getElem?_append_left (h.known e he))
    have hord : TimerHeap.Ordered
        (TimerManager.when { w with timers := w.timers ++ [Timer.create when interval] })
        w.heap := by
      refine BinaryHeap.Ordered.congr h.ordered fun e he => ?_
      unfold TimerHeap.key
      rw [hwhen e he]
    refine heapInOrder_setHeap (TimerHeap.pushInHeap_ends hord w.timers.length) ?_ ?_ h.fault
    · exact List.nodup_cons.mpr ⟨fun hmem => (h.known _ hmem).ne rfl, h.nodup⟩
    · intro e he
      show e < (w.timers ++ [Timer.create when interval]).length
      rw [List.length_append]
      rcases List.mem_cons.mp he with rfl | he
      · exact Nat.lt_succ_self _
      · exact Nat.lt_succ_of_lt (h.known e he)
  | pop =>
    unfold heapStep at hs
    dsimp only at hs
    split at hs
    · exact absurd hs (by simp)
    · rename_i r rest hheap
      obtain rfl := Option.some.inj hs
      have hord := h.ordered
      have hnodup := h.nodup
      have hknown := h.known
      rw [hheap] at hord hnodup hknown ⊢
      exact heapInOrder_setHeap (TimerHeap.popInHeap_ends hord) (List.nodup_cons.mp hnodup).2
        (fun e he => hknown e (List.mem_cons_of_mem r he)) h.fault
  | down when =>
    unfold heapStep at hs
    dsimp only at hs
    split at hs
    · exact absurd hs (by simp)
    · rename_i r rest hheap
      split at hs
      · obtain rfl := Option.some.inj hs
        have hord := h.ordered
        have hnodup := h.nodup
        have hknown := h.known
        rw [hheap] at hord hnodup hknown
        have hothers : ∀ e ∈ rest, (w.modify r fun t => { t with when }).when e = w.when e := by
          intro e he
          refine when_congr ?_
          rw [modify_timers, if_neg]
          rintro rfl
          exact (List.nodup_cons.mp hnodup).1 he
        have hends := TimerHeap.downInHeap_ends hord hothers
        rw [← hheap] at hends hnodup hknown
        exact heapInOrder_setHeap hends hnodup
          (fun e he => (modify_length w r _).symm ▸ hknown e he) h.fault
      · exact absurd hs (by simp)

theorem heapInOrder_reachable {w : TimerManager}
    (h : Reachable heapMachine (fun _ _ => True) w) : HeapInOrder w :=
  h.invariant (fun _ hw => hw) fun _ _ _ _ hw _ hs => heapInOrder_step hw hs

/-- `NextTimeout`, of which a loop waits 10000 ms at most, goes by the first entry, which has the
earliest deadline. -/
theorem HeapInOrder.nextTimeout {w : TimerManager} (h : HeapInOrder w) {r : TimerEntry}
    {rest : TimerHeap} (hheap : w.heap = r :: rest) :
    (∀ e ∈ w.heap, w.when r ≤ w.when e)
      ∧ ∀ now, min 10000 (w.nextTimeout now) = if (w.when r).sub now < ⟨0⟩ then 0
        else min 10000 ((w.when r).sub now).milliseconds := by
  refine ⟨fun e he => Timestamp.le_iff.mpr (BinaryHeap.Ordered.root_le h.ordered ?_ he), ?_⟩
  · rw [hheap]
    rfl
  · intro now
    unfold TimerManager.nextTimeout
    rw [hheap]
    dsimp only
    split
    · rfl
    · rfl

/-- **The timer heap.** Begun on a heap in order, `PushInHeap`, `PopInHeap` and `DownInHeap(0)` for
a first entry with another deadline stay within bounds and end in a heap in order, with the new
entry, without the first one, and with the same ones. On heaps kept by them `NextTimeout`, of which
a loop waits 10000 ms at most, goes by the earliest deadline. -/
theorem heap_operations_in_order :
    (∀ (when : TimerEntry → Timestamp) (heap : TimerHeap), TimerHeap.Ordered when heap →
      (∀ e, TimerHeap.EndsInOrder when (e :: heap) (heap.pushInHeap when e))
        ∧ ∀ r rest, heap = r :: rest →
          TimerHeap.EndsInOrder when rest (heap.popInHeap when)
            ∧ ∀ when' : TimerEntry → Timestamp, (∀ e ∈ rest, when' e = when e) →
              TimerHeap.EndsInOrder when' heap (heap.downInHeap when' 0))
      ∧ (∀ heap : TimerHeap, heap.length < 2 ^ 63 →
        heap[sizeDec 0]? = none ∧ heap[sizeDec 0 / 2]? = none)
      ∧ ∀ w, Reachable heapMachine (fun _ _ => True) w → HeapInOrder w
        ∧ ∀ r rest, w.heap = r :: rest →
          (∀ e ∈ w.heap, w.when r ≤ w.when e)
            ∧ ∀ now, min 10000 (w.nextTimeout now) = if (w.when r).sub now < ⟨0⟩ then 0
              else min 10000 ((w.when r).sub now).milliseconds := by
  refine ⟨fun when heap h => ⟨TimerHeap.pushInHeap_ends h, ?_⟩,
    fun _ hlen => TimerHeap.wrapped_outside hlen, fun w hw => ?_⟩
  · rintro r rest rfl
    exact ⟨TimerHeap.popInHeap_ends h, fun _ hothers => TimerHeap.downInHeap_ends h hothers⟩
  · have hin := heapInOrder_reachable hw
    exact ⟨hin, fun _ _ hheap => hin.nextTimeout hheap⟩

/-- Equal deadlines, and a first entry that is put off behind others before one is popped. -/
theorem heap_operations_in_order_small : ∃ w, Reachable heapMachine (fun _ _ => True) w
    ∧ w.heap = [0, 3, 2, 1] ∧ w.nextTimeout ⟨0⟩ = 50 ∧ HeapInOrder w
    ∧ (∀ e ∈ w.heap, w.when 0 ≤ w.when e)
    ∧ TimerHeap.EndsInOrder w.when [3, 2, 1] (w.heap.popInHeap w.when) := by
  have hinit : heapMachine.init create :=
    { ordered := BinaryHeap.ordered_nil, nodup := List.nodup_nil
      known := fun _ he => absurd he List.not_mem_nil, fault := rfl }
  have hexec : (heapMachine.exec (fun _ _ => True) create
      [.push ⟨50000000⟩ ⟨0⟩, .push ⟨90000000⟩ ⟨0⟩, .push ⟨30000000⟩ ⟨0⟩, .push ⟨50000000⟩ ⟨0⟩,
        .push ⟨30000000⟩ ⟨0⟩, .down ⟨70000000⟩, .pop]).map
      (fun w => decide (w.heap = [0, 3, 2, 1] ∧ w.nextTimeout ⟨0⟩ = 50)) = some true := by
    decide +kernel
  obtain ⟨w, hreach, hw⟩ := Machine.exec_reachable hinit hexec
  obtain ⟨hheap, htimeout⟩ := of_decide_eq_true hw
  obtain ⟨hops, _, hruns⟩ := heap_operations_in_order
  obtain ⟨hin, hroot⟩ := hruns w hreach
  obtain ⟨hpop, _⟩ := (hops w.when w.heap hin.ordered).2 0 [3, 2, 1] hheap
  exact ⟨w, hreach, hheap, htimeout, hin, (hroot 0 [3, 2, 1] hheap).1, hpop⟩

end TimerManager

end Windz
