import Mathlib.Init

/-!
# `BlockingQueue`

The critical sections of `base/BlockingQueue.h`, each behind the wait in front of
it: `none` is a wait that goes on.
-/

namespace Windz

variable {T : Type}

/-- `BlockingQueue<T>`; `maxsize == 0` means no limit. -/
structure BlockingQueue (T : Type) where
  /-- `queue_`. -/
  queue : List T
  /-- `maxsize_`. -/
  maxsize : Nat
  /-- `wakeup_`. -/
  wakeup : Bool

namespace BlockingQueue

/-- An empty queue, `maxsize_` being `maxsize`. -/
def create (T : Type) (maxsize : Nat) : BlockingQueue T := ⟨[], maxsize, false⟩

/-- `Push`; once `wakeup_` is set nothing is added. -/
def push (x : T) (q : BlockingQueue T) : Option (BlockingQueue T) :=
  if q.wakeup then some q
  else if q.maxsize = 0 ∨ q.queue.length < q.maxsize then some { q with queue := q.queue ++ [x] }
  else none

/-- `Pop`, its value `none` for the `T()` that is returned once `wakeup_` is set. -/
def pop (q : BlockingQueue T) : Option (Option T × BlockingQueue T) :=
  if q.wakeup then some (none, q)
  else
    match q.queue with
    | [] => none
    | front :: rest => some (some front, { q with queue := rest })

/-- `Size`. -/
def size (q : BlockingQueue T) : Nat := q.queue.length

/-- A queue without limit that nobody wakes up. -/
structure Unbounded (q : BlockingQueue T) : Prop where
  maxsize : q.maxsize = 0
  wakeup : q.wakeup = false

theorem create_unbounded : (create T 0).Unbounded := ⟨rfl, rfl⟩

theorem Unbounded.push {q : BlockingQueue T} (h : q.Unbounded) (x : T) :
    q.push x = some { q with queue := q.queue ++ [x] } := by
  unfold BlockingQueue.push
  rw [h.wakeup, if_neg Bool.false_ne_true, if_pos (.inl h.maxsize)]

theorem Unbounded.pop_cons {q : BlockingQueue T} (h : q.Unbounded) {front : T} {rest : List T}
    (hq : q.queue = front :: rest) : q.pop = some (some front, { q with queue := rest }) := by
  unfold BlockingQueue.pop
  rw [h.wakeup, if_neg Bool.false_ne_true, hq]

end BlockingQueue

end Windz
