import Mathlib.Logic.Function.Basic
import Windz.Net.ConnLifecycle
import Windz.Net.TcpServer

/-!
# Steps of a server

What a server has to do with one connection is a `ConnWorld`: the connection itself,
its functors in the queue of its loop, and the owner, who has `RemoveTcpConnection` to
answer as long as its functor is in the queue of the main loop. A step changes the view
of one connection only.

The invariant that connects the two is about the tasks in the queues: each is in
the queue of its own loop, about a connection that exists, and `EstablishConnection`
is there at most once.
-/

namespace Windz

open Lib

namespace Task

/-- The connection a task is about. -/
def id : Task → ConnId
  | .establish i | .functor i _ | .remove i => i

/-- The functor of a connection that a task is. -/
def connFunctor : Task → Option ConnFunctor
  | .functor _ f => some f
  | _ => none

/-- The loop whose queue it is put in, for a connection of loop `loop`. -/
def queuedIn (loop : LoopId) : Task → LoopId
  | .remove _ => TcpServer.mainLoop
  | _ => loop

end Task

namespace TcpServer

/-! ## The view of one connection -/

/-- The tasks of connection `i` in each queue. -/
def tasksOf (queues : LoopId → List Task) (i : ConnId) (loop : LoopId) : List Task :=
  (queues loop).filter (·.id = i)

/-- What the server has to do with connection `i`, its tasks being those given. -/
def view (tasks : LoopId → List Task) (i : ConnId) (sc : ServerConn) : ConnWorld where
  conn := sc.conn
  queue := (tasks sc.loop).filterMap Task.connFunctor
  timers := sc.timers
  closes := (tasks mainLoop).count (.remove i)
  established := (tasks sc.loop).count (.establish i) == 0
  threads := fun _ => .idle

section Tasks

variable {queues tasks : LoopId → List Task} {i : ConnId} {sc : ServerConn}

theorem tasksOf_push_other {loop : LoopId} {t : Task} (h : t.id ≠ i) :
    tasksOf (Function.update queues loop (queues loop ++ [t])) i = tasksOf queues i := by
  funext l
  unfold tasksOf
  by_cases hl : l = loop
  · rw [hl, Function.update_self, List.filter_append]
    simp [h]
  · rw [Function.update_of_ne hl]

theorem tasksOf_push {loop : LoopId} {t : Task} (h : t.id = i) :
    tasksOf (Function.update queues loop (queues loop ++ [t])) i
      = Function.update (tasksOf queues i) loop (tasksOf queues i loop ++ [t]) := by
  funext l
  by_cases hl : l = loop
  · rw [hl, Function.update_self]
    unfold tasksOf
    rw [Function.update_self, List.filter_append]
    simp [h]
  · rw [Function.update_of_ne hl]
    unfold tasksOf
    rw [Function.update_of_ne hl]

theorem tasksOf_pop_other {loop : LoopId} {t : Task} {rest : List Task}
    (hq : queues loop = t :: rest) (h : t.id ≠ i) :
    tasksOf (Function.update queues loop rest) i = tasksOf queues i := by
  funext l
  unfold tasksOf
  by_cases hl : l = loop
  · rw [hl, Function.update_self, hq, List.filter_cons_of_neg (by simpa using h)]
  · rw [Function.update_of_ne hl]

theorem tasksOf_pop {loop : LoopId} {rest : List Task} :
    tasksOf (Function.update queues loop rest) i
      = Function.update (tasksOf queues i) loop (rest.filter (·.id = i)) := by
  funext l
  by_cases hl : l = loop
  · rw [hl, Function.update_self]
    unfold tasksOf
    rw [Function.update_self]
  · rw [Function.update_of_ne hl]
    unfold tasksOf
    rw [Function.update_of_ne hl]

theorem tasksOf_top {loop : LoopId} {t : Task} {rest : List Task}
    (hq : queues loop = t :: rest) (h : t.id = i) :
    tasksOf queues i loop = t :: rest.filter (·.id = i) := by
  unfold tasksOf
  rw [hq, List.filter_cons_of_pos (by simpa using h)]

/-- The queue of the connection's loop changes, and only in functors of the connection. -/
theorem view_functors (sc : ServerConn) {q : List Task}
    (hr : q.count (.remove i) = (tasks sc.loop).count (.remove i))
    (he : q.count (.establish i) = (tasks sc.loop).count (.establish i)) :
    view (Function.update tasks sc.loop q) i sc
      = { view tasks i sc with queue := q.filterMap Task.connFunctor } := by
  unfold view
  dsimp only
  rw [Function.update_self, he]
  by_cases hl : mainLoop = sc.loop
  · rw [← hl] at hr ⊢
    rw [Function.update_self, hr]
  · rw [Function.update_of_ne hl]

/-- The queue of the main loop changes, and only in removals of the connection. -/
theorem view_removes (sc : ServerConn) {q : List Task}
    (hf : q.filterMap Task.connFunctor = (tasks mainLoop).filterMap Task.connFunctor)
    (he : q.count (.establish i) = (tasks mainLoop).count (.establish i)) :
    view (Function.update tasks mainLoop q) i sc
      = { view tasks i sc with closes := q.count (.remove i) } := by
  unfold view
  dsimp only
  rw [Function.update_self]
  by_cases hl : sc.loop = mainLoop
  · rw [hl, Function.update_self, hf, he]
  · rw [Function.update_of_ne hl]

/-- The queue of the connection's loop changes, and only in `EstablishConnection`. -/
theorem view_establishes (sc : ServerConn) {q : List Task}
    (hf : q.filterMap Task.connFunctor = (tasks sc.loop).filterMap Task.connFunctor)
    (hr : q.count (.remove i) = (tasks sc.loop).count (.remove i)) :
    view (Function.update tasks sc.loop q) i sc
      = { view tasks i sc with established := q.count (.establish i) == 0 } := by
  unfold view
  dsimp only
  rw [Function.update_self, hf]
  by_cases hl : mainLoop = sc.loop
  · rw [← hl] at hr ⊢
    rw [Function.update_self, hr]
  · rw [Function.update_of_ne hl]

theorem view_push_functor (sc : ServerConn) (f : ConnFunctor) :
    view (Function.update tasks sc.loop (tasks sc.loop ++ [.functor i f])) i sc
      = { view tasks i sc with queue := (view tasks i sc).queue ++ [f] } := by
  rw [view_functors]
  · rw [List.filterMap_append]
    rfl
  · rw [List.count_append, List.count_singleton, if_neg (by simp), Nat.add_zero]
  · rw [List.count_append, List.count_singleton, if_neg (by simp), Nat.add_zero]

theorem view_push_remove :
    view (Function.update tasks mainLoop (tasks mainLoop ++ [.remove i])) i sc
      = { view tasks i sc with closes := (view tasks i sc).closes + 1 } := by
  rw [view_removes]
  · rw [List.count_append, List.count_singleton_self]
    rfl
  · rw [List.filterMap_append]
    exact List.append_nil _
  · rw [List.count_append, List.count_singleton, if_neg (by simp), Nat.add_zero]

end Tasks

/-! ## Steps of the server -/

/-- A step of a server. -/
inductive ServerStep (w : TcpServer) : Label → TcpServer → Prop where
  | accept {low high : Bool} : ServerStep w (.accept low high) (w.newTcpConnection low high)
  | run {i : ConnId} {sc : ServerConn} {a : LocalLabel} {conn : TcpConnection}
      {out : Option Outgoing} (hi : w.conns[i]? = some sc)
      (h : sc.conn.localStep a = some (conn, out)) :
      ServerStep w (.run i a) ((w.setConn i { sc with conn }).emit i { sc with conn } out)
  | establish {loop : LoopId} {i : ConnId} {sc : ServerConn} {rest : List Task}
      (hq : w.queues loop = .establish i :: rest) (hi : w.conns[i]? = some sc)
      (hs : sc.conn.stack = []) :
      ServerStep w (.functor loop)
        ({ w with queues := Function.update w.queues loop rest }.setConn i
          { sc with conn := { sc.conn with stack := [.establishConnection] } })
  | functor {loop : LoopId} {i : ConnId} {f : ConnFunctor} {sc : ServerConn} {rest : List Task}
      (hq : w.queues loop = .functor i f :: rest) (hi : w.conns[i]? = some sc)
      (hs : sc.conn.stack = []) :
      ServerStep w (.functor loop)
        ({ w with queues := Function.update w.queues loop rest }.setConn i
          { sc with conn := { sc.conn with stack := TcpConnection.functorFrames f } })
  | remove {loop : LoopId} {i : ConnId} {rest : List Task}
      (hq : w.queues loop = .remove i :: rest) :
      ServerStep w (.functor loop)
        ({ w with queues := Function.update w.queues loop rest }.removeInLoop i)
  | timer {i : ConnId} {sc : ServerConn} (hi : w.conns[i]? = some sc) (ht : sc.timers ≠ 0)
      (hs : sc.conn.stack = []) :
      ServerStep w (.timer i)
        (w.setConn i { sc with
          timers := sc.timers - 1
          conn := { sc.conn with stack := [.forceCloseInLoop] } })
  | event {i : ConnId} {sc : ServerConn} {error readable writable : Bool}
      (hi : w.conns[i]? = some sc) (hr : sc.conn.reports readable writable = true)
      (hs : sc.conn.stack = []) :
      ServerStep w (.event i error readable writable)
        (w.setConn i { sc with conn :=
          { sc.conn with stack := TcpConnection.eventFrames error readable writable } })

theorem enter_cases {w w' : TcpServer} {i : ConnId} {frames : List Frame}
    (h : w.enter i frames = some w') : ∃ sc, w.conns[i]? = some sc ∧ sc.conn.stack = []
      ∧ w' = w.setConn i { sc with conn := { sc.conn with stack := frames } } := by
  obtain ⟨sc, hi, h⟩ := Option.bind_eq_some_iff.mp h
  obtain ⟨conn, hc, he⟩ := Option.map_eq_some_iff.mp h
  unfold TcpConnection.enter at hc
  split at hc
  · rename_i hs
    rw [← Option.some.inj hc] at he
    exact ⟨sc, hi, hs, he.symm⟩
  · exact absurd hc (by simp)

/-- **A step of a server is one of the list**, and no assertion has failed before it. -/
theorem step_cases {w w' : TcpServer} {a : Label} (h : w.step a = some w') :
    (∀ sc ∈ w.conns, sc.conn.failed = none) ∧ ServerStep w a w' := by
  unfold step at h
  split at h
  · exact absurd h (by simp)
  · rename_i hfailed
    constructor
    · intro sc hsc
      cases hf : sc.conn.failed with
      | none => rfl
      | some e =>
        refine absurd (List.any_eq_true.mpr ⟨sc, hsc, ?_⟩) hfailed
        rw [hf]
        rfl
    cases a with
    | accept low high =>
      cases (Option.ite_none_right_eq_some.mp h).2
      exact .accept
    | run i a =>
      obtain ⟨sc, hi, h⟩ := Option.bind_eq_some_iff.mp h
      obtain ⟨⟨conn, out⟩, hs, he⟩ := Option.map_eq_some_iff.mp h
      rw [← he]
      exact .run hi hs
    | functor loop =>
      dsimp only at h
      split at h
      · exact absurd h (by simp)
      · rename_i t rest hq
        split at h
        · cases t with
          | establish i =>
            obtain ⟨sc, hi, hs, he⟩ := enter_cases h
            rw [he]
            exact .establish hq hi hs
          | functor i f =>
            obtain ⟨sc, hi, hs, he⟩ := enter_cases h
            rw [he]
            exact .functor hq hi hs
          | remove i =>
            cases h
            exact .remove hq
        · exact absurd h (by simp)
    | timer i =>
      obtain ⟨sc, hi, h⟩ := Option.bind_eq_some_iff.mp h
      obtain ⟨ht, h⟩ := Option.ite_none_right_eq_some.mp h
      obtain ⟨sc', hi', hs, he⟩ := enter_cases h
      have hlt := (List.getElem?_eq_some_iff.mp hi).1
      have hself : (w.conns.set i { sc with timers := sc.timers - 1 })[i]? = some sc' := hi'
      rw [List.getElem?_set_self hlt] at hself
      rw [← Option.some.inj hself] at hs he
      rw [he]
      unfold setConn
      dsimp only
      rw [List.set_set]
      exact .timer hi ht.2 hs
    | event i error readable writable =>
      obtain ⟨sc, hi, h⟩ := Option.bind_eq_some_iff.mp h
      obtain ⟨hr, h⟩ := Option.ite_none_right_eq_some.mp h
      obtain ⟨sc', hi', hs, he⟩ := enter_cases h
      rw [hi] at hi'
      rw [← Option.some.inj hi'] at hs he
      rw [he]
      exact .event hi hr.2 hs

theorem getElem?_setConn {w : TcpServer} {i : ConnId} {sc sc' : ServerConn}
    (hi : w.conns[i]? = some sc) : (w.setConn i sc').conns[i]? = some sc' :=
  List.getElem?_set_self (List.getElem?_eq_some_iff.mp hi).1

theorem getElem?_setConn_ne {w : TcpServer} {i j : ConnId} {sc' : ServerConn} (hj : j ≠ i) :
    (w.setConn i sc').conns[j]? = w.conns[j]? := List.getElem?_set_ne (Ne.symm hj)

theorem removeInLoop_eq {w : TcpServer} {i : ConnId} {sc : ServerConn}
    (hi : w.conns[i]? = some sc) :
    w.removeInLoop i = { w.setConn i { sc with removed := true } with
      connections := Function.update w.connections sc.name none }.queueInLoop sc.loop
        (.functor i .destroyConnection) := by
  unfold removeInLoop
  rw [hi]

/-! ## Tasks are where they belong -/

/-- What the queues of the loops hold. -/
structure Queued (w : TcpServer) : Prop where
  /-- A task is about a connection, and in the queue it is meant for. -/
  about : ∀ loop, ∀ t ∈ w.queues loop, ∃ sc, w.conns[t.id]? = some sc ∧ loop = t.queuedIn sc.loop
  once : ∀ loop i, (w.queues loop).count (.establish i) ≤ 1

/-- Connections keep their loop. -/
theorem Queued.conns {w : TcpServer} (h : Queued w) {conns : List ServerConn}
    (hc : ∀ (k : ConnId) (sc : ServerConn), w.conns[k]? = some sc →
      ∃ sc' : ServerConn, conns[k]? = some sc' ∧ sc'.loop = sc.loop) :
    Queued { w with conns } := by
  refine ⟨fun loop t ht => ?_, h.once⟩
  obtain ⟨sc, hi, hl⟩ := h.about loop t ht
  obtain ⟨sc', hi', hl'⟩ := hc t.id sc hi
  exact ⟨sc', hi', by rw [hl', hl]⟩

theorem Queued.setConn {w : TcpServer} (h : Queued w) {i : ConnId} {sc sc' : ServerConn}
    (hi : w.conns[i]? = some sc) (hl : sc'.loop = sc.loop) : Queued (w.setConn i sc') := by
  refine h.conns fun k sck hk => ?_
  by_cases he : k = i
  · rw [he] at hk ⊢
    rw [hi] at hk
    rw [← Option.some.inj hk]
    exact ⟨sc', getElem?_setConn hi, hl⟩
  · exact ⟨sck, by rw [← hk]; exact getElem?_setConn_ne he, rfl⟩

theorem Queued.push {w : TcpServer} (h : Queued w) {loop : LoopId} {t : Task} {sc : ServerConn}
    (hi : w.conns[t.id]? = some sc) (hl : loop = t.queuedIn sc.loop)
    (hne : ∀ i, t = .establish i → (w.queues loop).count (.establish i) = 0) :
    Queued (w.queueInLoop loop t) := by
  unfold queueInLoop
  refine ⟨fun l u hu => ?_, fun l i => ?_⟩
  · dsimp only at hu
    by_cases he : l = loop
    · rw [he, Function.update_self] at hu
      rcases List.mem_append.mp hu with hu | hu
      · rw [he]
        exact h.about loop u hu
      · rw [List.mem_singleton.mp hu, he]
        exact ⟨sc, hi, hl⟩
    · rw [Function.update_of_ne he] at hu
      exact h.about l u hu
  · dsimp only
    by_cases he : l = loop
    · rw [he, Function.update_self, List.count_append, List.count_singleton]
      split
      · rename_i heq
        have hnone := hne i (by simpa using heq)
        omega
      · exact h.once loop i
    · rw [Function.update_of_ne he]
      exact h.once l i

theorem Queued.pop {w : TcpServer} (h : Queued w) {loop : LoopId} {t : Task} {rest : List Task}
    (hq : w.queues loop = t :: rest) :
    Queued { w with queues := Function.update w.queues loop rest } := by
  refine ⟨fun l u hu => ?_, fun l i => ?_⟩
  · dsimp only at hu
    by_cases he : l = loop
    · rw [he, Function.update_self] at hu
      rw [he]
      exact h.about loop u (by rw [hq]; exact List.mem_cons_of_mem _ hu)
    · rw [Function.update_of_ne he] at hu
      exact h.about l u hu
  · dsimp only
    by_cases he : l = loop
    · rw [he, Function.update_self]
      have honce := h.once loop i
      rw [hq] at honce
      exact Nat.le_trans List.count_le_count_cons honce
    · rw [Function.update_of_ne he]
      exact h.once l i

theorem Queued.removeInLoop {w : TcpServer} (h : Queued w) {i : ConnId} {sc : ServerConn}
    (hi : w.conns[i]? = some sc) : Queued (w.removeInLoop i) := by
  rw [removeInLoop_eq hi]
  have hset : Queued (w.setConn i { sc with removed := true }) := h.setConn hi rfl
  have herase : Queued { w.setConn i { sc with removed := true } with
      connections := Function.update w.connections sc.name none } := ⟨hset.about, hset.once⟩
  exact herase.push (getElem?_setConn hi) rfl (by simp)

theorem Queued.emit {w : TcpServer} (h : Queued w) {i : ConnId} {sc : ServerConn}
    (hi : w.conns[i]? = some sc) (out : Option Outgoing) : Queued (w.emit i sc out) := by
  cases out with
  | none => exact h
  | some out =>
    cases out with
    | queueInLoop f => exact h.push hi rfl (by simp)
    | runAfter => exact h.setConn hi rfl
    | closeCb =>
      show Queued (w.removeTcpConnection sc.loop i)
      unfold removeTcpConnection
      split
      · exact h.removeInLoop hi
      · exact h.push hi rfl (by simp)

/-- A new connection has no task yet. -/
theorem Queued.none_new {w : TcpServer} (h : Queued w) (loop : LoopId) :
    ∀ t ∈ w.queues loop, t.id ≠ w.conns.length := by
  intro t ht he
  obtain ⟨sc, hi, _⟩ := h.about loop t ht
  rw [he, List.getElem?_eq_none (Nat.le_refl _)] at hi
  exact absurd hi (by simp)

theorem Queued.accept {w : TcpServer} (h : Queued w) (low high : Bool) :
    Queued (w.newTcpConnection low high) := by
  have hgrow : ∀ x : ServerConn, Queued { w with conns := w.conns ++ [x] } := by
    intro x
    refine h.conns fun k sc hk => ⟨sc, ?_, rfl⟩
    rw [List.getElem?_append_left (List.getElem?_eq_some_iff.mp hk).1]
    exact hk
  unfold newTcpConnection
  dsimp only
  split
  · exact ⟨(hgrow _).about, h.once⟩
  · have happend : Queued { w with
        next := w.nextIndex
        nextConnId := w.nextConnId + 1
        connections := Function.update w.connections (w.newConn low high).name
          (some w.conns.length)
        conns := w.conns ++ [w.newConn low high] } := ⟨(hgrow _).about, h.once⟩
    have hnew : (w.conns ++ [w.newConn low high])[w.conns.length]? = some (w.newConn low high) :=
      List.getElem?_concat_length
    refine happend.push hnew rfl fun i hi => ?_
    rw [List.count_eq_zero]
    intro hmem
    refine h.none_new _ _ hmem ?_
    rw [← Task.establish.inj hi]
    rfl

theorem queued_step {w w' : TcpServer} {a : Label} (h : Queued w) (hs : ServerStep w a w') :
    Queued w' := by
  cases hs with
  | accept => exact h.accept _ _
  | @run i sc a conn out hi hl =>
    have hset : Queued (w.setConn i { sc with conn }) := h.setConn hi rfl
    exact hset.emit (getElem?_setConn hi) out
  | establish hq hi hst => exact (h.pop hq).setConn hi rfl
  | functor hq hi hst => exact (h.pop hq).setConn hi rfl
  | remove hq =>
    obtain ⟨sc, hi, _⟩ := h.about _ _ (by rw [hq]; exact List.mem_cons_self)
    exact (h.pop hq).removeInLoop hi
  | timer hi ht hst => exact h.setConn hi rfl
  | event hi hr hst => exact h.setConn hi rfl

/-! ## A step is about one connection -/

/-- What the server has to do with connection `i`. -/
def viewOf (w : TcpServer) (i : ConnId) (sc : ServerConn) : ConnWorld :=
  view (tasksOf w.queues i) i sc

/-- Only connection `i` and its tasks change. -/
def Only (i : ConnId) (w w' : TcpServer) : Prop :=
  ∀ j, j ≠ i → w'.conns[j]? = w.conns[j]? ∧ tasksOf w'.queues j = tasksOf w.queues j

theorem Only.trans {i : ConnId} {w w' w'' : TcpServer} (h : Only i w w') (h' : Only i w' w'') :
    Only i w w'' := fun j hj =>
  ⟨(h' j hj).1.trans (h j hj).1, (h' j hj).2.trans (h j hj).2⟩

theorem only_setConn {w : TcpServer} (i : ConnId) (sc : ServerConn) : Only i w (w.setConn i sc) :=
  fun _ hj => ⟨getElem?_setConn_ne hj, rfl⟩

theorem only_push {w : TcpServer} (loop : LoopId) (t : Task) :
    Only t.id w (w.queueInLoop loop t) := fun _ hj => ⟨rfl, tasksOf_push_other (Ne.symm hj)⟩

theorem only_pop {w : TcpServer} {loop : LoopId} {t : Task} {rest : List Task}
    (hq : w.queues loop = t :: rest) :
    Only t.id w { w with queues := Function.update w.queues loop rest } :=
  fun _ hj => ⟨rfl, tasksOf_pop_other hq (Ne.symm hj)⟩

theorem only_removeInLoop {w : TcpServer} {i : ConnId} {sc : ServerConn}
    (hi : w.conns[i]? = some sc) : Only i w (w.removeInLoop i) := by
  rw [removeInLoop_eq hi]
  exact (only_setConn i { sc with removed := true }).trans
    (only_push sc.loop (.functor i .destroyConnection))

theorem only_emit {w : TcpServer} {i : ConnId} {sc : ServerConn} (hi : w.conns[i]? = some sc)
    (out : Option Outgoing) : Only i w (w.emit i sc out) := by
  cases out with
  | none => exact fun _ _ => ⟨rfl, rfl⟩
  | some out =>
    cases out with
    | queueInLoop f => exact only_push sc.loop (.functor i f)
    | runAfter => exact only_setConn i _
    | closeCb =>
      show Only i w (w.removeTcpConnection sc.loop i)
      unfold removeTcpConnection
      split
      · exact only_removeInLoop hi
      · exact only_push mainLoop (.remove i)

/-- `RemoveTcpConnection` leaves `DestroyConnection` to the loop of the connection. -/
theorem viewOf_removeInLoop {w : TcpServer} {i : ConnId} {sc : ServerConn}
    (hi : w.conns[i]? = some sc) :
    (w.removeInLoop i).conns[i]? = some { sc with removed := true }
      ∧ (w.removeInLoop i).viewOf i { sc with removed := true }
        = { w.viewOf i sc with queue := (w.viewOf i sc).queue ++ [.destroyConnection] } := by
  rw [removeInLoop_eq hi]
  refine ⟨getElem?_setConn hi, ?_⟩
  unfold viewOf queueInLoop setConn
  dsimp only
  have hid : (Task.functor i .destroyConnection).id = i := rfl
  rw [tasksOf_push hid]
  exact view_push_functor { sc with removed := true } .destroyConnection

end TcpServer

end Windz
