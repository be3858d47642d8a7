import Windz.Net.ConnLifecycle
import Windz.Net.ConnOnce

/-!
# The loop thread and the others, apart

A step of the loop thread or the owner does not look at where the other threads stand,
and a step of another thread neither at the functors that are waiting nor at what the
owner owes; it leaves the stack and the trace of the connection as they are.
-/

namespace Windz

open Lib

namespace ConnWorld

/-- **The loop thread does not see the others.** -/
theorem step_threads {v v' : ConnWorld} {b : Label} (hb : b.ofOtherThread = false)
    (threads : ThreadId → ThreadPc) (h : v.step b = some v') :
    { v with threads }.step b = some { v' with threads } := by
  unfold step at h ⊢
  dsimp only at h ⊢
  split at h
  · exact absurd h (by simp)
  rename_i hf
  rw [if_neg hf]
  -- to enter the connection takes its stack only
  have henter : ∀ {u : ConnWorld} {frames : List Frame}, u.enter frames = some v' →
      { u with threads }.enter frames = some { v' with threads } := by
    intro u frames he
    obtain ⟨conn, hc, he⟩ := Option.map_eq_some_iff.mp he
    unfold enter
    dsimp only
    rw [hc, ← he]
    rfl
  cases b with
  | run a =>
    obtain ⟨⟨conn, out⟩, hl, he⟩ := Option.map_eq_some_iff.mp h
    dsimp only
    rw [hl, ← he]
    cases out with
    | none => rfl
    | some out => cases out <;> rfl
  | establish =>
    obtain ⟨he, h⟩ := Option.ite_none_left_eq_some.mp h
    dsimp only
    rw [if_neg he]
    exact henter h
  | ownerAnswers =>
    obtain ⟨hc, h⟩ := Option.ite_none_left_eq_some.mp h
    dsimp only
    rw [if_neg hc, ← Option.some.inj h]
  | functor =>
    dsimp only at h ⊢
    split at h
    · exact absurd h (by simp)
    · exact henter h
  | timer =>
    obtain ⟨ht, h⟩ := Option.ite_none_left_eq_some.mp h
    dsimp only
    rw [if_neg ht]
    exact henter h
  | event error readable writable =>
    obtain ⟨hr, h⟩ := Option.ite_none_right_eq_some.mp h
    dsimp only
    rw [if_pos hr]
    exact henter h
  | threadCall t op => exact absurd hb (by simp [Label.ofOtherThread])
  | threadNext t => exact absurd hb (by simp [Label.ofOtherThread])

/-- A run of the loop thread and the owner, among other threads. -/
theorem run_threads {tid : ThreadId} {ok : ConnWorld → Label → Prop} {v v' : ConnWorld}
    {bs : List Label} (threads : ThreadId → ThreadPc)
    (hok : ∀ u b, ok u b → u.LoopOnly b ∧ { u with threads }.NoRevival b)
    (h : Run (machine tid) ok v bs v') :
    Run (machine tid) NoRevival { v with threads } bs { v' with threads } := by
  induction h with
  | nil => exact .nil
  | tail _ hb hs ih => exact ih.tail (hok _ _ hb).2 (step_threads (hok _ _ hb).1 threads hs)

/-- **Another thread does not see what waits for the loop**, and adds its functors behind it. -/
theorem step_waiting {v v' : ConnWorld} {b : Label} (hb : b.ofOtherThread = true)
    (hnone : v.queue = []) (queue : List ConnFunctor) (closes : Nat) (established : Bool)
    (h : v.step b = some v') :
    { v with queue, closes, established }.step b
      = some { v' with queue := queue ++ v'.queue, closes, established } := by
  have hempty : queue = queue ++ v.queue := by rw [hnone, List.append_nil]
  unfold step at h ⊢
  dsimp only at h ⊢
  split at h
  · exact absurd h (by simp)
  rename_i hf
  rw [if_neg hf]
  cases b with
  | threadCall t op =>
    obtain ⟨hidle, h⟩ := Option.ite_none_right_eq_some.mp h
    dsimp only
    rw [if_pos hidle, ← Option.some.inj h]
    congr 1
    unfold threadCall
    cases op with
    | send _ | shutdown | forceClose =>
      dsimp only
      split <;> exact congrArg (fun queue => ConnWorld.mk _ queue _ _ _ _) hempty
    | forceCloseAfter => exact congrArg (fun queue => ConnWorld.mk _ queue _ _ _ _) hempty
  | threadNext t =>
    have h : v.threadNext t = some v' := h
    show { v with queue, closes, established }.threadNext t = _
    unfold threadNext at h ⊢
    dsimp only
    cases hpc : v.threads t <;> rw [hpc] at h <;> dsimp only at h
    · exact absurd h (by simp)
    all_goals
      rw [← Option.some.inj h]
      simp [setThread, hnone]
  | _ => exact absurd hb (by simp [Label.ofOtherThread])

/-- **Another thread is not inside the connection.** -/
theorem stack_of_thread {v v' : ConnWorld} {b : Label} (hb : b.ofOtherThread = true)
    (h : WorldStep v b v') : v'.conn.stack = v.conn.stack ∧ v'.conn.trace = v.conn.trace := by
  cases h with
  | threadSend | threadShutdown | threadForceClose | threadForceCloseAfter | threadIgnored =>
    exact ⟨rfl, rfl⟩
  | pushSend | assignShutdown | pushShutdown | assignForceClose | pushForceClose =>
    exact ⟨rfl, rfl⟩
  | _ => exact absurd hb (by simp [Label.ofOtherThread])

end ConnWorld

end Windz
