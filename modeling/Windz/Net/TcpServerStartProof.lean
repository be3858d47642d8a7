import Windz.Net.TcpServerProgress
import Windz.Net.TcpServerStart

/-!
# A server starts once

Of the calls of `Start` one finds 0 in `started_`, as long as the counter does not come
round; the others return at once. `Stage` follows that one: the pool is made and its
threads are started while nothing can be accepted, and `Listen` is called behind all
that. From then on the pool is only read by the main loop, which is where its thread
matters.
-/

namespace Windz

open Lib

/-! ## The pool -/

namespace EventLoopThreadPool

/-- The pool with `n` threads of which `k` have been started. -/
def withThreads (t : ThreadId) (k : Nat) : EventLoopThreadPool :=
  { started := true, next := 0, tid := t, loops := (List.range k).map (· + 1) }

/-- The pool with `n` threads behind `k` calls of `Next`. -/
def served (t : ThreadId) (n k : Nat) : EventLoopThreadPool :=
  { withThreads t n with next := k % n }

theorem start_create (t : ThreadId) : (create t).start t = .ok (withThreads t 0) := by
  unfold start create withThreads
  simp

theorem addThread_withThreads (t : ThreadId) (k : Nat) :
    (withThreads t k).addThread = withThreads t (k + 1) := by
  unfold addThread withThreads
  rw [List.length_map, List.length_range, List.range_succ, List.map_append]
  rfl

theorem served_zero (t : ThreadId) (n : Nat) : served t n 0 = withThreads t n := by
  unfold served
  rw [Nat.zero_mod]
  rfl

/-- `Next` in the thread of the pool. -/
theorem nextLoop_served {t : ThreadId} {n : Nat} (hn : n ≠ 0) (k : Nat) :
    (served t n k).nextLoop t = .ok (some (TcpServer.turn n k), served t n (k + 1)) := by
  have hlt := Nat.mod_lt k (Nat.pos_of_ne_zero hn)
  have hempty : ((List.range n).map (· + 1)).isEmpty = false := by
    rw [List.isEmpty_eq_false_iff, ne_eq, List.map_eq_nil_iff, List.range_eq_nil]
    exact hn
  have hget : ((List.range n).map (· + 1))[k % n]? = some (TcpServer.turn n k) := by
    rw [List.getElem?_map, List.getElem?_range hlt, TcpServer.turn, if_neg hn]
    rfl
  unfold nextLoop served withThreads
  dsimp only
  rw [if_neg (fun h => h rfl), if_neg (by simp), hempty, if_neg Bool.false_ne_true, hget,
    List.length_map, List.length_range, TcpServer.index_wraps hn]

/-- Anywhere else the assertion fails. -/
theorem nextLoop_elsewhere {t t' : ThreadId} (h : t ≠ t') (n k : Nat) :
    (served t n k).nextLoop t' = .error .nextThread := if_pos h

end EventLoopThreadPool

namespace ServerStart

open EventLoopThreadPool

/-! ## The counter -/

theorem counter_succ (n : Nat) : Int32.ofNat n + 1 = Int32.ofNat (n + 1) :=
  (Int32.ofNat_add n 1).symm

theorem counter_zero {n : Nat} (hn : n < 2 ^ 32) (h : Int32.ofNat n = 0) : n = 0 := by
  have hbits : (BitVec.ofNat 32 n).toNat = 0 := congrArg (fun i : Int32 => i.toBitVec.toNat) h
  rw [BitVec.toNat_ofNat, Nat.mod_eq_of_lt hn] at hbits
  exact hbits

/-! ## The stages of a start -/

/-- A thread that has found 0 in `started_` and not returned. -/
def Won : StartPc → Prop
  | .idle | .adding _ => False
  | .making _ | .starting _ | .spawning _ | .asserting | .running => True

/-- The pool behind `Start(n)` in thread `t`, when `k` connections were handed out. -/
def poolOf (t : ThreadId) (n k : Nat) : Option EventLoopThreadPool :=
  if n = 0 then none else some (served t n k)

/-- How far the pool has got, by where `Start(n)` in thread `t` stands. -/
def PoolAt (t : ThreadId) (n : Nat) (pool : Option EventLoopThreadPool) : StartPc → Prop
  | .idle | .adding _ => False
  | .making m => m = n ∧ n ≠ 0 ∧ pool = none
  | .starting m => m = n ∧ n ≠ 0 ∧ pool = some (.create t)
  | .spawning left => left ≤ n ∧ n ≠ 0 ∧ pool = some (withThreads t (n - left))
  | .asserting | .running => pool = poolOf t n 0

/-- Nothing has been said to the acceptor. -/
structure Quiet (s : ServerStart) : Prop where
  queue : s.queue = 0
  listenning : s.listenning = false
  listens : s.listens = 0
  handed : s.handed = []
  failed : s.failed = none

/-- The acceptor has been told, or is told by the functor in the queue. -/
structure Told (s : ServerStart) (t : ThreadId) (n : Nat) : Prop where
  once : s.queue + s.listens = 1
  listenning : s.listenning = true ↔ s.listens = 1
  pool : s.pool = poolOf t n s.handed.length
  handed : s.handed = (List.range s.handed.length).map (TcpServer.turn n)
  /-- Connections are accepted behind `Listen` only. -/
  accepted : s.handed ≠ [] ∨ s.failed ≠ none → s.listenning = true
  elsewhere : n ≠ 0 → t ≠ TcpServer.mainLoop → s.handed = []
  failed : s.failed = none ∨ s.failed = some .nextThread ∧ n ≠ 0 ∧ t ≠ TcpServer.mainLoop

/-- How far `Start` has got. -/
inductive Stage (s : ServerStart) : Prop where
  | fresh (hc : s.calls = 0) (hw : s.winner = none) (hp : s.pool = none)
      (hthreads : ∀ t, ¬ Won (s.threads t)) (hq : Quiet s) : Stage s
  | starting {t : ThreadId} {n : Nat} (hc : s.calls ≠ 0) (hw : s.winner = some (t, n))
      (hp : PoolAt t n s.pool (s.threads t)) (hthreads : ∀ t', t' ≠ t → ¬ Won (s.threads t'))
      (hq : Quiet s) : Stage s
  | told {t : ThreadId} {n : Nat} (hc : s.calls ≠ 0) (hw : s.winner = some (t, n))
      (hthreads : ∀ t, ¬ Won (s.threads t)) (ht : Told s t n) : Stage s

/-- The invariant of `Start`. -/
structure Inv (s : ServerStart) : Prop where
  counter : s.started = Int32.ofNat s.calls
  stage : Stage s

/-- `GetAndAdd` is called 2³² times at most. -/
def FewCalls (s : ServerStart) (_ : Label) : Prop := s.calls < 2 ^ 32

instance (s : ServerStart) (a : Label) : Decidable (s.FewCalls a) :=
  inferInstanceAs (Decidable (s.calls < 2 ^ 32))

/-! ## Steps -/

section Steps

variable {s s' : ServerStart} {t t' : ThreadId}

theorem won_goto {pc : StartPc} (hpc : ¬ Won pc) (h : ¬ Won (s.threads t')) :
    ¬ Won ((s.goto t pc).threads t') := by
  unfold goto
  dsimp only
  by_cases he : t' = t
  · rw [he, Function.update_self]
    exact hpc
  · rw [Function.update_of_ne he]
    exact h

/-- A thread that has not won moves on. -/
theorem Stage.lose (h : Stage s) {pc : StartPc} (hnot : ¬ Won (s.threads t)) (hpc : ¬ Won pc) :
    Stage (s.goto t pc) := by
  cases h with
  | fresh hc hw hp hthreads hq =>
    exact .fresh hc hw hp (fun t' => won_goto hpc (hthreads t')) ⟨hq.1, hq.2, hq.3, hq.4, hq.5⟩
  | @starting t₀ n hc hw hp hthreads hq =>
    have hne : t₀ ≠ t := by
      rintro rfl
      cases hpc' : s.threads t₀ <;> rw [hpc'] at hp hnot <;>
        first | exact hp | exact hnot trivial
    refine .starting (t := t₀) (n := n) hc hw ?_ (fun t' ht' => won_goto hpc (hthreads t' ht'))
      ⟨hq.1, hq.2, hq.3, hq.4, hq.5⟩
    show PoolAt t₀ n s.pool (Function.update s.threads t pc t₀)
    rw [Function.update_of_ne hne]
    exact hp
  | told hc hw hthreads ht =>
    exact .told hc hw (fun t' => won_goto hpc (hthreads t'))
      ⟨ht.1, ht.2, ht.3, ht.4, ht.5, ht.6, ht.7⟩

/-- Who has won is the one that starts the server. -/
theorem Stage.of_won (h : Stage s) (hwon : Won (s.threads t)) :
    ∃ n, s.calls ≠ 0 ∧ s.winner = some (t, n) ∧ PoolAt t n s.pool (s.threads t)
      ∧ (∀ t', t' ≠ t → ¬ Won (s.threads t')) ∧ Quiet s := by
  cases h with
  | fresh hc hw hp hthreads hq => exact absurd hwon (hthreads t)
  | @starting t₀ n hc hw hp hthreads hq =>
    by_cases he : t = t₀
    · rw [he]
      exact ⟨n, hc, hw, hp, hthreads, hq⟩
    · exact absurd hwon (hthreads t he)
  | told hc hw hthreads ht => exact absurd hwon (hthreads t)

/-- The winner moves on, and nobody else has won. -/
theorem stage_move {n : Nat} {p : Option EventLoopThreadPool} {pc : StartPc}
    (hc : s.calls ≠ 0) (hw : s.winner = some (t, n))
    (hthreads : ∀ t', t' ≠ t → ¬ Won (s.threads t')) (hq : Quiet s) (hp : PoolAt t n p pc) :
    Stage ({ s with pool := p }.goto t pc) := by
  refine .starting (t := t) (n := n) hc hw ?_ ?_ ⟨hq.1, hq.2, hq.3, hq.4, hq.5⟩
  · show PoolAt t n p (Function.update s.threads t pc t)
    rw [Function.update_self]
    exact hp
  · intro t' ht'
    show ¬ Won (Function.update s.threads t pc t')
    rw [Function.update_of_ne ht']
    exact hthreads t' ht'

/-- `GetAndAdd` finds 0 once. -/
theorem inv_getAndAdd (h : Inv s) (hfew : s.calls < 2 ^ 32) {n : Nat}
    (hpc : s.threads t = .adding n) : Inv (s.getAndAdd t n) := by
  have hnot : ¬ Won (s.threads t) := by
    rw [hpc]
    exact id
  have hcounter : s.started + 1 = Int32.ofNat (s.calls + 1) := by
    rw [h.counter]
    exact counter_succ s.calls
  unfold getAndAdd
  dsimp only
  split
  · rename_i hzero
    rw [h.counter] at hzero
    have hcalls := counter_zero hfew hzero
    refine ⟨hcounter, ?_⟩
    cases h.stage with
    | fresh hc hw hp hthreads hq =>
      refine stage_move (s := { s with started := s.started + 1, calls := s.calls + 1
                                       winner := some (t, n) }) (p := s.pool)
        (Nat.succ_ne_zero _) rfl (fun t' _ => hthreads t') ⟨hq.1, hq.2, hq.3, hq.4, hq.5⟩ ?_
      split
      · rename_i hn
        exact ⟨rfl, Nat.pos_iff_ne_zero.mp hn, hp⟩
      · rename_i hn
        show s.pool = poolOf t n 0
        rw [hp, poolOf, if_pos (by omega)]
    | starting hc _ _ _ _ => exact absurd hcalls hc
    | told hc _ _ _ => exact absurd hcalls hc
  · rename_i hlate
    refine ⟨hcounter, ?_⟩
    have hcalls : s.calls ≠ 0 := by
      intro hc
      rw [h.counter, hc] at hlate
      exact hlate rfl
    have hkept : Stage { s with started := s.started + 1, calls := s.calls + 1 } := by
      cases h.stage with
      | fresh hc _ _ _ _ => exact absurd hc hcalls
      | starting hc hw hp hthreads hq =>
        exact .starting (Nat.succ_ne_zero _) hw hp hthreads ⟨hq.1, hq.2, hq.3, hq.4, hq.5⟩
      | told hc hw hthreads ht =>
        exact .told (Nat.succ_ne_zero _) hw hthreads ⟨ht.1, ht.2, ht.3, ht.4, ht.5, ht.6, ht.7⟩
    exact hkept.lose hnot id

/-- Behind `RunInLoop` the acceptor is told. -/
theorem told_of_quiet {n : Nat} (hq : Quiet s) (hp : s.pool = poolOf t n 0) {queue listens : Nat}
    {listenning : Bool} (honce : queue + listens = 1) (hl : listenning = true ↔ listens = 1)
    (threads : ThreadId → StartPc) :
    Told { s with queue, listens, listenning, threads } t n where
  once := honce
  listenning := hl
  pool := by
    show s.pool = poolOf t n s.handed.length
    rw [hq.handed]
    exact hp
  handed := by
    show s.handed = (List.range s.handed.length).map _
    rw [hq.handed]
    rfl
  accepted := by
    intro hor
    rcases hor with hne | hne
    · exact absurd hq.handed hne
    · exact absurd hq.failed hne
  elsewhere := fun _ _ => hq.handed
  failed := .inl hq.failed

theorem inv_advance (h : Inv s) (hfew : s.calls < 2 ^ 32) (hs : s.advance t = some s') :
    Inv s' := by
  unfold advance at hs
  cases hpc : s.threads t with
  | idle => rw [hpc] at hs; cases hs
  | adding n =>
    rw [hpc] at hs
    cases hs
    exact inv_getAndAdd h hfew hpc
  | making m =>
    rw [hpc] at hs
    cases hs
    obtain ⟨n, hc, hw, hp, hthreads, hq⟩ := h.stage.of_won (t := t) (by rw [hpc]; trivial)
    rw [hpc] at hp
    exact ⟨h.counter, stage_move hc hw hthreads hq ⟨hp.1, hp.2.1, rfl⟩⟩
  | starting m =>
    rw [hpc] at hs
    obtain ⟨n, hc, hw, hp, hthreads, hq⟩ := h.stage.of_won (t := t) (by rw [hpc]; trivial)
    rw [hpc] at hp
    obtain ⟨hm, hn, hpool⟩ := hp
    dsimp only at hs
    rw [hpool, Option.map_some, start_create] at hs
    cases hs
    exact ⟨h.counter, stage_move hc hw hthreads hq
      ⟨Nat.le_of_eq hm, hn, by rw [hm, Nat.sub_self]⟩⟩
  | spawning left =>
    rw [hpc] at hs
    obtain ⟨n, hc, hw, hp, hthreads, hq⟩ := h.stage.of_won (t := t) (by rw [hpc]; trivial)
    rw [hpc] at hp
    obtain ⟨hle, hn, hpool⟩ := hp
    cases left with
    | zero =>
      cases hs
      refine ⟨h.counter, stage_move (p := s.pool) hc hw hthreads hq ?_⟩
      show s.pool = poolOf t n 0
      rw [hpool, poolOf, if_neg hn, served_zero]
      rfl
    | succ left =>
      dsimp only at hs
      rw [hpool, Option.map_some, addThread_withThreads] at hs
      cases hs
      refine ⟨h.counter, stage_move hc hw hthreads hq ⟨by omega, hn, ?_⟩⟩
      rw [show n - (left + 1) + 1 = n - left by omega]
  | asserting =>
    rw [hpc] at hs
    obtain ⟨n, hc, hw, hp, hthreads, hq⟩ := h.stage.of_won (t := t) (by rw [hpc]; trivial)
    rw [hpc] at hp
    dsimp only at hs
    rw [hq.listenning, if_neg Bool.false_ne_true] at hs
    cases hs
    exact ⟨h.counter, stage_move (p := s.pool) hc hw hthreads hq hp⟩
  | running =>
    rw [hpc] at hs
    obtain ⟨n, hc, hw, hp, hthreads, hq⟩ := h.stage.of_won (t := t) (by rw [hpc]; trivial)
    rw [hpc] at hp
    have hnone : ∀ t', ¬ Won (Function.update s.threads t .idle t') := by
      intro t'
      by_cases he : t' = t
      · rw [he, Function.update_self]
        exact id
      · rw [Function.update_of_ne he]
        exact hthreads t' he
    dsimp only at hs
    split at hs
    · cases hs
      refine ⟨h.counter, .told hc hw hnone (told_of_quiet hq hp ?_ ?_ _)⟩
      · show s.queue + (s.listens + 1) = 1
        rw [hq.queue, hq.listens]
      · show true = true ↔ s.listens + 1 = 1
        rw [hq.listens]
        exact ⟨fun _ => rfl, fun _ => rfl⟩
    · cases hs
      refine ⟨h.counter, .told hc hw hnone (told_of_quiet hq hp ?_ ?_ _)⟩
      · rw [hq.queue, hq.listens]
      · rw [hq.listenning, hq.listens]
        exact ⟨fun he => absurd he Bool.false_ne_true, fun he => absurd he (by decide)⟩

/-- The acceptor has been told where the main loop finds something to do. -/
theorem Stage.of_told (h : Stage s) (hsaid : s.queue ≠ 0 ∨ s.listenning = true) :
    ∃ t n, s.calls ≠ 0 ∧ s.winner = some (t, n) ∧ (∀ t, ¬ Won (s.threads t)) ∧ Told s t n := by
  have hquiet : ¬ Quiet s := by
    intro hq
    rcases hsaid with hne | hl
    · exact hne hq.queue
    · exact absurd (hq.listenning.symm.trans hl) Bool.false_ne_true
  cases h with
  | fresh _ _ _ _ hq => exact absurd hq hquiet
  | starting _ _ _ _ hq => exact absurd hq hquiet
  | told hc hw hthreads ht => exact ⟨_, _, hc, hw, hthreads, ht⟩

theorem inv_functor (h : Inv s) (hqueue : s.queue ≠ 0) :
    Inv { s with queue := s.queue - 1 }.listen := by
  obtain ⟨t, n, hc, hw, hthreads, ht⟩ := h.stage.of_told (.inl hqueue)
  have honce := ht.once
  refine ⟨h.counter, .told hc hw hthreads
    { once := ?_, listenning := ?_, pool := ht.pool, handed := ht.handed
      accepted := fun _ => rfl, elsewhere := ht.elsewhere, failed := ht.failed }⟩
  · show s.queue - 1 + (s.listens + 1) = 1
    omega
  · show true = true ↔ s.listens + 1 = 1
    exact ⟨fun _ => by omega, fun _ => rfl⟩

/-- What is handed out is whose turn it was, or `Next` fails in the wrong thread. -/
theorem inv_accept (h : Inv s) (hl : s.listenning = true) (hf : s.failed = none) :
    Inv s.accept := by
  obtain ⟨t, n, hc, hw, hthreads, ht⟩ := h.stage.of_told (.inr hl)
  have hgrow : ∀ {pool : Option EventLoopThreadPool},
      pool = poolOf t n (s.handed.length + 1) → (n ≠ 0 → t = TcpServer.mainLoop) →
      Inv { s with pool, handed := s.handed ++ [TcpServer.turn n s.handed.length] } := by
    intro pool hpool hmain
    refine ⟨h.counter, .told hc hw hthreads
      { once := ht.once, listenning := ht.listenning, pool := ?_, handed := ?_
        accepted := fun _ => hl, elsewhere := fun hn hne => absurd (hmain hn) hne
        failed := .inl hf }⟩
    · dsimp only
      rw [List.length_append, List.length_singleton]
      exact hpool
    · dsimp only
      rw [List.length_append, List.length_singleton, List.range_succ, List.map_append, ← ht.handed]
      rfl
  unfold accept
  by_cases hn : n = 0
  · have hnone : s.pool = none := by rw [ht.pool, poolOf, if_pos hn]
    rw [hnone]
    have hturn : TcpServer.mainLoop = TcpServer.turn n s.handed.length := (if_pos hn).symm
    dsimp only
    rw [hturn, ← hnone]
    exact hgrow (by rw [hnone, poolOf, if_pos hn]) (fun h => absurd hn h)
  · have hsome : s.pool = some (served t n s.handed.length) := by rw [ht.pool, poolOf, if_neg hn]
    rw [hsome]
    dsimp only
    by_cases hmain : t = TcpServer.mainLoop
    · rw [← hmain, nextLoop_served hn]
      dsimp only
      exact hgrow (by rw [poolOf, if_neg hn]) (fun _ => hmain)
    · rw [nextLoop_elsewhere hmain]
      dsimp only
      exact ⟨h.counter, .told hc hw hthreads
        { once := ht.once, listenning := ht.listenning
          pool := by rw [poolOf, if_neg hn]
          handed := ht.handed
          accepted := fun _ => hl, elsewhere := ht.elsewhere
          failed := .inr ⟨rfl, hn, hmain⟩ }⟩

/-- **Every step keeps the stage.** -/
theorem inv_step {a : Label} (h : Inv s) (hok : s.FewCalls a) (hs : s.step a = some s') :
    Inv s' := by
  unfold step at hs
  obtain ⟨hfailed, hs⟩ := Option.ite_none_left_eq_some.mp hs
  have hf : s.failed = none := by
    cases hf : s.failed with
    | none => rfl
    | some e => rw [hf] at hfailed; exact absurd rfl hfailed
  cases a with
  | start t n =>
    obtain ⟨hidle, he⟩ := Option.ite_none_right_eq_some.mp hs
    rw [← Option.some.inj he]
    exact ⟨h.counter, h.stage.lose (by rw [hidle]; exact id) id⟩
  | next t => exact inv_advance h hok hs
  | functor =>
    obtain ⟨⟨hqueue, -⟩, he⟩ := Option.ite_none_right_eq_some.mp hs
    rw [← Option.some.inj he]
    exact inv_functor h hqueue
  | accept =>
    obtain ⟨⟨hl, -⟩, he⟩ := Option.ite_none_right_eq_some.mp hs
    rw [← Option.some.inj he]
    exact inv_accept h hl hf

end Steps

theorem inv_reachable {s : ServerStart} (h : Reachable machine FewCalls s) : Inv s := by
  refine h.invariant (I := Inv) ?_ (fun s a s' _ hi hok hs => inv_step hi hok hs)
  intro s hs
  rw [show s = create from hs]
  exact ⟨rfl, .fresh rfl rfl rfl (fun _ => id) ⟨rfl, rfl, rfl, rfl, rfl⟩⟩

/-- **A server starts once.** Whoever calls `Start`, with any numbers of threads and in any order,
`Listen` is called at most once, and connections are accepted behind it only, when all threads of
the pool run; connection `i` is given to the loop whose turn it is. Of the assertions only that of
`Next` about the thread can fail, and only in a server that was started with a pool in another
thread than that of its loop; such a server never hands a connection out. -/
theorem server_starts_once (s : ServerStart) (h : Reachable machine FewCalls s) :
    s.listens ≤ 1
    ∧ (s.handed ≠ [] → s.listens = 1)
    ∧ (s.failed = none ∨ s.failed = some .nextThread)
    ∧ ∀ t n, s.winner = some (t, n) →
        (s.listens = 1 → s.pool = poolOf t n s.handed.length)
        ∧ s.handed = (List.range s.handed.length).map (TcpServer.turn n)
        ∧ (s.failed = some .nextThread → n ≠ 0 ∧ t ≠ TcpServer.mainLoop)
        ∧ (n ≠ 0 → t ≠ TcpServer.mainLoop → s.handed = []) := by
  cases (inv_reachable h).stage with
  | fresh _ hw _ _ hq =>
    refine ⟨by rw [hq.listens]; exact Nat.zero_le 1, fun hne => absurd hq.handed hne,
      .inl hq.failed, fun t n hwin => ?_⟩
    rw [hw] at hwin
    exact absurd hwin (by simp)
  | starting _ _ _ _ hq =>
    refine ⟨by rw [hq.listens]; exact Nat.zero_le 1, fun hne => absurd hq.handed hne,
      .inl hq.failed, fun t n _ => ⟨fun hl => ?_, ?_, fun he => ?_, fun _ _ => hq.handed⟩⟩
    · rw [hq.listens] at hl
      exact absurd hl (by decide)
    · rw [hq.handed]
      rfl
    · rw [hq.failed] at he
      exact absurd he (by simp)
  | @told t n _ hw _ ht =>
    refine ⟨by have honce := ht.once; omega, fun hne => ht.listenning.mp (ht.accepted (.inl hne)),
      ht.failed.imp id And.left, fun t' n' hwin => ?_⟩
    rw [hw] at hwin
    cases hwin
    refine ⟨fun _ => ht.pool, ht.handed, fun he => ?_, ht.elsewhere⟩
    rcases ht.failed with hf | ⟨-, hn, hne⟩
    · rw [hf] at he
      exact absurd he (by simp)
    · exact ⟨hn, hne⟩

/-- Three threads call `Start`; the main loop's own call wins, makes two threads, and three
connections are accepted. -/
theorem server_starts_once_small : ∃ s, Reachable machine FewCalls s ∧ s.listens ≤ 1
    ∧ s.handed = [1, 2, 1] := by
  have hexec : (machine.exec FewCalls create
      [.start 5 0, .start 0 2, .next 0, .next 5, .next 0, .start 7 3, .next 0, .next 7, .next 0,
        .next 0, .next 0, .next 0, .next 0, .accept, .accept, .accept]).map
        (fun s => decide (s.handed = [1, 2, 1])) = some true := by decide +kernel
  obtain ⟨s, hr, hp⟩ := Machine.exec_reachable rfl hexec
  exact ⟨s, hr, (server_starts_once s hr).1, of_decide_eq_true hp⟩

end ServerStart

end Windz
