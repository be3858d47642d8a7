import Windz.Net.ConnDestroyed
import Windz.Net.TcpServerViews

/-!
# Closing and destroying, as the server sees it

As long as no destructor runs, each call of `close_cb_` is on its way to the main loop,
or has led to one call of `DestroyConnection`; a connection in `connections_` has seen
neither.
-/

namespace Windz

open Lib

namespace TcpServer

/-! ## Connections in the map -/

/-- What `connections_` holds has not been removed. -/
def MapFresh (w : TcpServer) : Prop :=
  ∀ n i, w.connections n = some i →
    ∃ sc : ServerConn, w.conns[i]? = some sc ∧ sc.name = n ∧ sc.removed = false

theorem MapFresh.setConn {w : TcpServer} (h : MapFresh w) {i : ConnId} {sc sc' : ServerConn}
    (hi : w.conns[i]? = some sc) (hn : sc'.name = sc.name) (hr : sc'.removed = sc.removed) :
    MapFresh (w.setConn i sc') := by
  intro n j hj
  obtain ⟨scj, hsc, hname, hremoved⟩ := h n j hj
  by_cases hji : j = i
  · rw [hji, hi] at hsc
    have he := Option.some.inj hsc
    refine ⟨sc', by rw [hji]; exact getElem?_setConn hi, ?_, ?_⟩
    · rw [hn, he]
      exact hname
    · rw [hr, he]
      exact hremoved
  · exact ⟨scj, by rw [getElem?_setConn_ne hji]; exact hsc, hname, hremoved⟩

theorem MapFresh.removeInLoop {w : TcpServer} (h : MapFresh w) {i : ConnId} {sc : ServerConn}
    (hi : w.conns[i]? = some sc) : MapFresh (w.removeInLoop i) := by
  rw [removeInLoop_eq hi]
  intro n j hj
  have hj : Function.update w.connections sc.name none n = some j := hj
  by_cases hn : n = sc.name
  · rw [hn, Function.update_self] at hj
    exact absurd hj (by simp)
  · rw [Function.update_of_ne hn] at hj
    obtain ⟨scj, hsc, hname, hremoved⟩ := h n j hj
    have hji : j ≠ i := by
      rintro rfl
      rw [hi] at hsc
      exact hn (by rw [← hname, Option.some.inj hsc])
    exact ⟨scj, (getElem?_setConn_ne hji).trans hsc, hname, hremoved⟩

theorem MapFresh.emit {w : TcpServer} (h : MapFresh w) {i : ConnId} {sc : ServerConn}
    (hi : w.conns[i]? = some sc) (out : Option Outgoing) : MapFresh (w.emit i sc out) := by
  cases out with
  | none => exact h
  | some out =>
    cases out with
    | queueInLoop f => exact h
    | runAfter => exact h.setConn hi rfl rfl
    | closeCb =>
      show MapFresh (w.removeTcpConnection sc.loop i)
      unfold removeTcpConnection
      split
      · exact h.removeInLoop hi
      · exact h

theorem MapFresh.accept {w : TcpServer} (h : MapFresh w) (low high : Bool) :
    MapFresh (w.newTcpConnection low high) := by
  -- the name is the new connection's from now on
  have hgrow : ∀ x : ServerConn, x.name = (w.newConn low high).name → x.removed = false →
      ∀ n i, Function.update w.connections (w.newConn low high).name (some w.conns.length) n
          = some i →
        ∃ sc : ServerConn, (w.conns ++ [x])[i]? = some sc ∧ sc.name = n ∧ sc.removed = false := by
    intro x hname hremoved n i hi
    by_cases hn : n = (w.newConn low high).name
    · rw [hn, Function.update_self] at hi
      rw [← Option.some.inj hi, hn]
      exact ⟨x, List.getElem?_concat_length, hname, hremoved⟩
    · rw [Function.update_of_ne hn] at hi
      obtain ⟨sc, hsc, hsn, hsr⟩ := h n i hi
      refine ⟨sc, ?_, hsn, hsr⟩
      rw [List.getElem?_append_left (List.getElem?_eq_some_iff.mp hsc).1]
      exact hsc
  unfold newTcpConnection
  dsimp only
  split
  · exact hgrow _ rfl rfl
  · exact hgrow _ rfl rfl

theorem mapFresh_step {w w' : TcpServer} {a : Label} (hq : Queued w) (h : MapFresh w)
    (hs : ServerStep w a w') : MapFresh w' := by
  have hpop : ∀ queues, MapFresh { w with queues } := fun _ => h
  cases hs with
  | accept => exact h.accept _ _
  | @run i sc a conn out hi hl =>
    have hset : MapFresh (w.setConn i { sc with conn }) := h.setConn hi rfl rfl
    exact hset.emit (getElem?_setConn hi) out
  | establish hqueue hi hst => exact (hpop _).setConn hi rfl rfl
  | functor hqueue hi hst => exact (hpop _).setConn hi rfl rfl
  | remove hqueue =>
    obtain ⟨sc, hi, _⟩ := hq.about _ _ (by rw [hqueue]; exact List.mem_cons_self)
    exact (hpop _).removeInLoop hi
  | timer hi ht hst => exact h.setConn hi rfl rfl
  | event hi hr hst => exact h.setConn hi rfl rfl

/-! ## Before the destructor -/

/-- The connections that a step is not about are seen as before. -/
theorem Only.view {i j : ConnId} {w w' : TcpServer} (h : Only i w w') (hj : j ≠ i)
    {sc : ServerConn} (hsc : w'.conns[j]? = some sc) :
    w.conns[j]? = some sc ∧ w'.viewOf j sc = w.viewOf j sc := by
  obtain ⟨hconns, htasks⟩ := h j hj
  refine ⟨hconns.symm.trans hsc, ?_⟩
  unfold viewOf
  rw [htasks]

theorem newTcpConnection_trace {w : TcpServer} {low high : Bool} {sc : ServerConn}
    (hi : (w.newTcpConnection low high).conns[w.conns.length]? = some sc) :
    sc.conn.trace = [] := by
  unfold newTcpConnection at hi
  dsimp only at hi
  split at hi
  · rw [List.getElem?_concat_length] at hi
    rw [← Option.some.inj hi]
    rfl
  · have hi : (w.conns ++ [w.newConn low high])[w.conns.length]? = some sc := hi
    rw [List.getElem?_concat_length] at hi
    rw [← Option.some.inj hi]
    rfl

/-- For a connection that is not removed, `DestroyConnection` has not been called. -/
def Unremoved (w : TcpServer) : Prop :=
  ∀ (i : ConnId) (sc : ServerConn), w.conns[i]? = some sc → sc.removed = false →
    (w.viewOf i sc).destroys = 0

theorem unremoved_step {w w' : TcpServer} {a : Label} (hq : Queued w) (h : Unremoved w)
    (hf : ∀ sc ∈ w.conns, sc.conn.failed = none) (hs : ServerStep w a w') : Unremoved w' := by
  refine each_step (P := fun _ sc v => sc.removed = false → v.destroys = 0) hq hf hs h ?_ ?_
  · intro low high sc ha hi hr _
    rw [ha] at hs
    cases hs
    have hcount := ConnWorld.closes_add_destroys hr
    have htrace : ((w.newTcpConnection low high).viewOf w.conns.length sc).conn.trace = [] :=
      newTcpConnection_trace hi
    rw [htrace, List.count_nil] at hcount
    omega
  · intro i sc sc' bs _ _ _ hanswer hrun hzero hremoved
    obtain ⟨hremoved, hnone⟩ := hanswer hremoved
    rw [ConnWorld.destroys_run_eq hrun hnone]
    exact hzero hremoved

/-- What holds of a server in every run, its connections being called in their loops. -/
structure Alive (w : TcpServer) : Prop where
  queued : Queued w
  views : Views w
  map : MapFresh w
  unremoved : Unremoved w

theorem alive_create {name : String} {cb : Bool} {loops : Nat} : Alive (create name cb loops) where
  queued := ⟨by simp [create], by simp [create]⟩
  views := by simp [Views, create]
  map := by simp [MapFresh, create]
  unremoved := by simp [Unremoved, create]

theorem alive_step {w w' : TcpServer} {a : Label} (h : Alive w) (hs : w.step a = some w') :
    Alive w' := by
  obtain ⟨hf, hstep⟩ := step_cases hs
  exact ⟨queued_step h.queued hstep, views_step h.queued h.views hf hstep,
    mapFresh_step h.queued h.map hstep, unremoved_step h.queued h.unremoved hf hstep⟩

/-! ## A step of one connection -/

theorem getElem?_removeInLoop {w : TcpServer} {i : ConnId} {sc sc' : ServerConn}
    (hi : w.conns[i]? = some sc) (hi' : (w.removeInLoop i).conns[i]? = some sc') :
    sc'.conn = sc.conn := by
  rw [(viewOf_removeInLoop hi).1] at hi'
  rw [← Option.some.inj hi']

/-- What a connection hands out leaves it as it is. -/
theorem getElem?_emit {w : TcpServer} {i : ConnId} {sc sc' : ServerConn} {out : Option Outgoing}
    (hi : w.conns[i]? = some sc) (hi' : (w.emit i sc out).conns[i]? = some sc') :
    sc'.conn = sc.conn := by
  have hsame : w.conns[i]? = some sc' → sc'.conn = sc.conn := by
    intro h
    rw [hi] at h
    rw [← Option.some.inj h]
  cases out with
  | none => exact hsame hi'
  | some out =>
    cases out with
    | queueInLoop f => exact hsame hi'
    | runAfter =>
      have hi' : (w.setConn i { sc with timers := sc.timers + 1 }).conns[i]? = some sc' := hi'
      rw [getElem?_setConn hi] at hi'
      rw [← Option.some.inj hi']
    | closeCb =>
      have hi' : (w.removeTcpConnection sc.loop i).conns[i]? = some sc' := hi'
      unfold removeTcpConnection at hi'
      split at hi'
      · exact getElem?_removeInLoop hi hi'
      · exact hsame hi'

/-- Connections stay. -/
theorem none_step {w w' : TcpServer} {a : Label} (hq : Queued w)
    (hf : ∀ sc ∈ w.conns, sc.conn.failed = none) (hs : ServerStep w a w') {i : ConnId}
    (hnone : w'.conns[i]? = none) : w.conns[i]? = none := by
  have hother : ∀ {j : ConnId} {sc : ServerConn}, Only j w w' → w'.conns[j]? = some sc →
      w.conns[i]? = none := by
    intro j sc honly hj
    have hne : i ≠ j := by
      rintro rfl
      exact absurd (hj.symm.trans hnone) (by simp)
    exact (honly i hne).1.symm.trans hnone
  rcases own_step hq hf hs with ⟨low, high, ha⟩ | ⟨j, sc, sc', bs, honly, _, hj, _⟩
  · rw [ha] at hs
    cases hs
    obtain ⟨honly, sc, hj, _⟩ := accept_step hq low high
    exact hother honly hj
  · exact hother honly hj

/-- What a step of the server does to a connection inside: nothing, or a step of its own. -/
theorem conn_step {w w' : TcpServer} {a : Label} (hq : Queued w) (hs : ServerStep w a w')
    {i : ConnId} {sc sc' : ServerConn} (hi : w.conns[i]? = some sc)
    (hi' : w'.conns[i]? = some sc') :
    sc'.conn.trace = sc.conn.trace
      ∨ ∃ b conn out, a = .run i b ∧ sc.conn.localStep b = some (conn, out)
        ∧ sc'.conn = conn := by
  have hother : ∀ {j : ConnId}, Only j w w' → i ≠ j → sc'.conn.trace = sc.conn.trace := by
    intro j honly hne
    rw [(honly i hne).1, hi] at hi'
    rw [← Option.some.inj hi']
  have hset : ∀ {j : ConnId} (queues : LoopId → List Task) (scj x : ServerConn),
      Only j w w' → w.conns[j]? = some scj → w' = { w with queues }.setConn j x →
      x.conn.trace = scj.conn.trace → sc'.conn.trace = sc.conn.trace := by
    intro j queues scj x honly hj hw hx
    by_cases hne : i = j
    · rw [hw, hne] at hi'
      have hi' : (w.setConn j x).conns[j]? = some sc' := hi'
      rw [getElem?_setConn hj] at hi'
      rw [hne, hj] at hi
      rw [← Option.some.inj hi', ← Option.some.inj hi]
      exact hx
    · exact hother honly hne
  cases hs with
  | @accept low high =>
    have hne : i ≠ w.conns.length := Nat.ne_of_lt (List.getElem?_eq_some_iff.mp hi).1
    exact .inl (hother (accept_step hq low high).1 hne)
  | @run j scj b conn out hj hl =>
    by_cases hne : i = j
    · rw [hne] at hi hi' ⊢
      rw [hj] at hi
      rw [← Option.some.inj hi]
      have hj' : (w.setConn j { scj with conn }).conns[j]? = some { scj with conn } :=
        getElem?_setConn hj
      exact .inr ⟨b, conn, out, rfl, hl, getElem?_emit hj' hi'⟩
    · exact .inl (hother ((only_setConn j _).trans (only_emit (getElem?_setConn hj) out)) hne)
  | @establish loop j scj rest hqueue hj hst =>
    have honly := (only_pop hqueue).trans (only_setConn j { scj with
      conn := { scj.conn with stack := [.establishConnection] } })
    exact .inl (hset _ scj _ honly hj rfl rfl)
  | @functor loop j f scj rest hqueue hj hst =>
    have honly := (only_pop hqueue).trans (only_setConn j { scj with
      conn := { scj.conn with stack := TcpConnection.functorFrames f } })
    exact .inl (hset _ scj _ honly hj rfl rfl)
  | @remove loop j rest hqueue =>
    obtain ⟨scj, hj, _⟩ := hq.about _ _ (by rw [hqueue]; exact List.mem_cons_self)
    have hj' : { w with queues := Function.update w.queues loop rest }.conns[j]? = some scj := hj
    by_cases hne : i = j
    · rw [hne] at hi hi'
      have hscj : some scj = some sc := hj.symm.trans hi
      rw [getElem?_removeInLoop hj' hi', Option.some.inj hscj]
      exact .inl rfl
    · exact .inl (hother ((only_pop hqueue).trans (only_removeInLoop hj')) hne)
  | @timer j scj hj ht hst =>
    exact .inl (hset w.queues scj _ (only_setConn j _) hj rfl rfl)
  | @event j scj error readable writable hj hr hst =>
    exact .inl (hset w.queues scj _ (only_setConn j _) hj rfl rfl)

end TcpServer

end Windz
