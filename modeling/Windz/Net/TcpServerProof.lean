import Windz.Net.ConnRegistry
import Windz.Net.TcpServerViews

/-!
# A server keeps its connections apart

`connections_` is a `Registry`, and each connection lives its life: established once,
destroyed once behind `close_cb_`, and in the map until its removal has run.
-/

namespace Windz

open Lib

namespace TcpServer

/-! ## The map of connections -/

/-- What the registry has of a connection. -/
def entry (sc : ServerConn) : String × Bool := (sc.name, sc.removed)

/-- `connections_` and what it is about. -/
def registry (w : TcpServer) : Registry :=
  { name := w.name, nextConnId := w.nextConnId, connections := w.connections
    entries := w.conns.map entry }

/-- The main loop accepts. -/
def Label.accepts : Label → Bool
  | .accept _ _ => true
  | _ => false

/-- Fewer than 2³¹ connections are accepted. -/
def FewConnections (w : TcpServer) (a : Label) : Prop :=
  a.accepts = true → w.conns.length + 1 < 2 ^ 31

instance (w : TcpServer) (a : Label) : Decidable (w.FewConnections a) :=
  inferInstanceAs (Decidable (a.accepts = true → w.conns.length + 1 < 2 ^ 31))

/-- A connection changes, but not its entry. -/
theorem registry_setConn {w : TcpServer} {i : ConnId} {sc : ServerConn} (sc' : ServerConn)
    (hi : w.conns[i]? = some sc) (he : entry sc' = entry sc) :
    (w.setConn i sc').registry = w.registry := by
  have hset : (w.conns.set i sc').map entry = w.conns.map entry := by
    rw [List.map_set, he]
    refine List.ext_getElem? fun j => ?_
    by_cases hj : j = i
    · have hlt := (List.getElem?_eq_some_iff.mp hi).1
      rw [hj, List.getElem?_set_self (by rw [List.length_map]; exact hlt), List.getElem?_map, hi]
      rfl
    · rw [List.getElem?_set_ne (Ne.symm hj)]
  unfold registry setConn
  dsimp only
  rw [hset]

theorem registry_removeInLoop {w : TcpServer} {i : ConnId} {sc : ServerConn}
    (hi : w.conns[i]? = some sc) : w.registry.Step (w.removeInLoop i).registry := by
  rw [removeInLoop_eq hi]
  have hentry : w.registry.entries[i]? = some (sc.name, sc.removed) := by
    show (w.conns.map entry)[i]? = _
    rw [List.getElem?_map, hi]
    rfl
  have hstep := Registry.Step.remove hentry
  unfold registry at hstep ⊢
  unfold queueInLoop setConn
  dsimp only at hstep ⊢
  rw [List.map_set]
  exact hstep

theorem registry_emit {w : TcpServer} {i : ConnId} {sc : ServerConn}
    (hi : w.conns[i]? = some sc) (out : Option Outgoing) :
    w.registry.Step (w.emit i sc out).registry := by
  cases out with
  | none => exact .same
  | some out =>
    cases out with
    | queueInLoop f => exact .same
    | runAfter =>
      show w.registry.Step (w.setConn i { sc with timers := sc.timers + 1 }).registry
      rw [registry_setConn { sc with timers := sc.timers + 1 } hi rfl]
      exact .same
    | closeCb =>
      show w.registry.Step (w.removeTcpConnection sc.loop i).registry
      unfold removeTcpConnection
      split
      · exact registry_removeInLoop hi
      · exact .same

/-- **The map is a registry.** -/
theorem registry_step {w w' : TcpServer} {a : Label} (hq : Queued w) (hok : w.FewConnections a)
    (hs : ServerStep w a w') : w.registry.Step w'.registry := by
  have hsame : ∀ {queues : LoopId → List Task} {i : ConnId} {sc sc' : ServerConn},
      w.conns[i]? = some sc → entry sc' = entry sc →
      w.registry.Step ({ w with queues }.setConn i sc').registry := by
    intro queues i sc sc' hi he
    have hreg : ({ w with queues }.setConn i sc').registry = (w.setConn i sc').registry := rfl
    rw [hreg, registry_setConn sc' hi he]
    exact .same
  cases hs with
  | @accept low high =>
    have hstep := Registry.Step.accept (r := w.registry) (by
      show (w.conns.map entry).length + 1 < 2 ^ 31
      rw [List.length_map]
      exact hok rfl)
    have he : (w.newTcpConnection low high).registry = { w.registry with
        nextConnId := w.registry.nextConnId + 1
        connections := Function.update w.registry.connections w.registry.nextName
          (some w.registry.entries.length)
        entries := w.registry.entries ++ [(w.registry.nextName, false)] } := by
      unfold newTcpConnection registry
      dsimp only
      rw [List.length_map]
      split
      · rw [List.map_append]
        rfl
      · unfold queueInLoop
        dsimp only
        rw [List.map_append]
        rfl
    rw [he]
    exact hstep
  | @run i sc a conn out hi hl =>
    have hemit := registry_emit (w := w.setConn i { sc with conn }) (getElem?_setConn hi) out
    rw [registry_setConn { sc with conn } hi rfl] at hemit
    exact hemit
  | establish hqueue hi hst => exact hsame hi rfl
  | functor hqueue hi hst => exact hsame hi rfl
  | @remove loop i rest hqueue =>
    obtain ⟨sc, hi, _⟩ := hq.about _ _ (by rw [hqueue]; exact List.mem_cons_self)
    exact registry_removeInLoop
      (w := { w with queues := Function.update w.queues loop rest }) hi
  | timer hi ht hst => exact hsame hi rfl
  | event hi hr hst => exact hsame hi rfl

/-! ## The server -/

/-- The invariant of a server. -/
structure Inv (w : TcpServer) : Prop where
  queued : Queued w
  views : Views w
  registry : w.registry.Inv

theorem inv_reachable {name : String} {cb : Bool} {loops : Nat} {w : TcpServer}
    (h : Reachable (machine name cb loops) FewConnections w) : Inv w := by
  refine h.invariant (I := Inv) ?_ ?_
  · intro w hw
    rw [show w = create name cb loops from hw]
    exact ⟨⟨by simp [create], by simp [create]⟩, by simp [Views, create],
      Registry.inv_create name⟩
  · intro w a w' _ hi hok hs
    obtain ⟨hf, hstep⟩ := step_cases hs
    exact ⟨queued_step hi.queued hstep, views_step hi.queued hi.views hf hstep,
      hi.registry.step (registry_step hi.queued hok hstep)⟩

theorem entries_iff {w : TcpServer} {n : String} {i : ConnId} {b : Bool} :
    w.registry.entries[i]? = some (n, b)
      ↔ ∃ sc : ServerConn, w.conns[i]? = some sc ∧ sc.name = n ∧ sc.removed = b := by
  show (w.conns.map entry)[i]? = _ ↔ _
  rw [List.getElem?_map, Option.map_eq_some_iff]
  simp [entry]

/-- **A server keeps its connections apart.** With any number of loops and in any order of their
steps: `EstablishConnection` of each accepted connection runs at most once, and before anything else
of it; `DestroyConnection` runs at most once, and only after `close_cb_`; `connections_` holds
exactly the accepted connections whose removal has not run, and no name belongs to two, so that
erasing a name concerns its own connection alone; and the next name is free. -/
theorem server_keeps_connections {name : String} {cb : Bool} {loops : Nat} {w : TcpServer}
    (h : Reachable (machine name cb loops) FewConnections w) :
    (∀ (i : ConnId) (sc : ServerConn), w.conns[i]? = some sc →
      sc.conn.trace.count .establishConnection ≤ 1
      ∧ sc.conn.failed ≠ some .establishConnection
      ∧ (sc.conn.trace ≠ [] → sc.conn.trace.head? = some .establishConnection)
      ∧ sc.conn.trace.count .destroyConnection ≤ 1
      ∧ ¬ [.destroyConnection, .closeCb].Sublist sc.conn.trace
      ∧ (.destroyConnection ∈ sc.conn.trace → .closeCb ∈ sc.conn.trace))
    ∧ (∀ n i, w.connections n = some i
        ↔ ∃ sc : ServerConn, w.conns[i]? = some sc ∧ sc.name = n ∧ sc.removed = false)
    ∧ (∀ (i j : ConnId) (sc sc' : ServerConn), w.conns[i]? = some sc → w.conns[j]? = some sc' →
        sc.name = sc'.name → i = j)
    ∧ (w.conns.length + 1 < 2 ^ 31 → w.connections w.connName = none) := by
  have hi := inv_reachable h
  refine ⟨fun i sc hsc => ?_, fun n i => ?_, fun i j sc sc' hsc hsc' hname => ?_, fun hlt => ?_⟩
  · obtain ⟨p, hs⟩ := ConnWorld.stage_reachable (hi.views i sc hsc)
    have hclose := hs.life.close_before_destroy
    refine ⟨hs.life.establish_once, ?_, hs.life.establish_first, hs.life.destroy_once, hclose.1,
      hclose.2⟩
    rcases hs.failed with hf | hf
    · rw [show sc.conn.failed = none from hf]; simp
    · rw [show sc.conn.failed = some .channelClose from hf]; simp
  · exact (hi.registry.exact n i).trans entries_iff
  · exact hi.registry.unique (entries_iff.mpr ⟨sc, hsc, rfl, rfl⟩)
      (entries_iff.mpr ⟨sc', hsc', hname.symm, rfl⟩)
  · refine hi.registry.free ?_
    show (w.conns.map entry).length + 1 < 2 ^ 31
    rw [List.length_map]
    exact hlt

/-- Two loops and two connections, one in each; the peer of the first closes it, the main loop
removes it, and its loop has yet to destroy it. -/
theorem server_keeps_connections_small :
    ∃ w, Reachable (machine "S" true 2) FewConnections w
      ∧ w.connections "S#1" = none ∧ w.connections "S#2" = some 1
      ∧ w.queues 1 = [.functor 0 .destroyConnection]
      ∧ ∃ sc : ServerConn, w.conns[1]? = some sc ∧ sc.name = "S#2" ∧ sc.removed = false := by
  have hexec : ((machine "S" true 2).exec FewConnections (create "S" true 2)
      [.accept false false, .accept false false, .functor 1, .run 0 .next, .functor 2,
        .run 0 .callbackReturns, .run 1 .next, .event 0 false true false, .run 0 .next,
        .run 0 (.read .eof), .run 0 .next, .functor 0]).map (fun w => decide
          (w.connections "S#1" = none ∧ w.connections "S#2" = some 1
            ∧ w.queues 1 = [.functor 0 .destroyConnection])) = some true := by decide +kernel
  obtain ⟨w, hr, hp⟩ := Machine.exec_reachable rfl hexec
  obtain ⟨h1, h2, h3⟩ := of_decide_eq_true hp
  exact ⟨w, hr, h1, h2, h3, ((server_keeps_connections hr).2.1 "S#2" 1).mp h2⟩

end TcpServer

end Windz
