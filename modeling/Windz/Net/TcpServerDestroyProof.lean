import Windz.Net.ConnThreads
import Windz.Net.TcpServerAlive
import Windz.Net.TcpServerDestroy

/-!
# What `~TcpServer` and the loops make of a connection

When nothing is on its way as the destructor begins, each connection is destroyed
by a functor from before or by the destructor, and not by both.

The rest is up to the loops of the connections: one that gets to `close_cb_` while the
destructor runs makes a functor that finds the server gone.
-/

namespace Windz

open Lib

namespace TcpServer

/-- Functors of connection `i` are put in the queue of its loop. -/
structure Pushed (w w' : TcpServer) (i : ConnId) (sc : ServerConn) (fs : List ConnFunctor) :
    Prop where
  conns : w'.conns = w.conns
  map : w'.connections = w.connections
  queued : Queued w → Queued w'
  only : Only i w w'
  view : w'.viewOf i sc = { w.viewOf i sc with queue := (w.viewOf i sc).queue ++ fs }

theorem pushed_one {w : TcpServer} {i : ConnId} {sc : ServerConn} (hi : w.conns[i]? = some sc)
    (f : ConnFunctor) : Pushed w (w.queueInLoop sc.loop (.functor i f)) i sc [f] where
  conns := rfl
  map := rfl
  queued h := h.push hi rfl (by simp)
  only := only_push sc.loop (.functor i f)
  view := by
    have hid : (Task.functor i f).id = i := rfl
    unfold viewOf queueInLoop
    dsimp only
    rw [tasksOf_push hid]
    exact view_push_functor sc f

theorem pushed_all {i : ConnId} {sc : ServerConn} (fs : List ConnFunctor) :
    ∀ {w : TcpServer}, w.conns[i]? = some sc →
      Pushed w (fs.foldl (fun w f => w.queueInLoop sc.loop (.functor i f)) w) i sc fs := by
  induction fs with
  | nil =>
    intro w hi
    refine ⟨rfl, rfl, id, fun _ _ => ⟨rfl, rfl⟩, ?_⟩
    rw [List.append_nil]
    rfl
  | cons f fs ih =>
    intro w hi
    have hone := pushed_one hi f
    have hrest := ih (w := w.queueInLoop sc.loop (.functor i f)) hi
    refine ⟨hrest.conns.trans hone.conns, hrest.map.trans hone.map,
      fun h => hrest.queued (hone.queued h), hone.only.trans hrest.only, ?_⟩
    show (fs.foldl (fun w f => w.queueInLoop sc.loop (.functor i f))
      (w.queueInLoop sc.loop (.functor i f))).viewOf i sc = _
    rw [hrest.view, hone.view]
    dsimp only
    rw [List.append_assoc]
    rfl

end TcpServer

namespace DyingServer

open TcpServer

/-! ## Other threads -/

/-- What is left to do with connection `i`, other threads included. -/
def worldOf (w : DyingServer) (i : ConnId) (sc : ServerConn) : ConnWorld :=
  { w.server.viewOf i sc with threads := w.threads i }

/-- A step of another thread in connection `i`. -/
structure Threaded (w w' : DyingServer) (i : ConnId) (b : ConnWorld.Label) (sc sc' : ServerConn) :
    Prop where
  rest : w' = { w with server := w'.server, threads := w'.threads }
  before : w.server.conns[i]? = some sc
  after : w'.server.conns[i]? = some sc'
  entry : sc'.name = sc.name ∧ sc'.loop = sc.loop ∧ sc'.removed = sc.removed
  map : w'.server.connections = w.server.connections
  queued : Queued w.server → Queued w'.server
  only : Only i w.server w'.server
  threads : ∀ j, j ≠ i → w'.threads j = w.threads j
  step : (w.worldOf i sc).step b = some (w'.worldOf i sc')

theorem threadStep_cases {w w' : DyingServer} {i : ConnId} {b : ConnWorld.Label}
    (hb : b.ofOtherThread = true) (hs : w.threadStep i b = some w') :
    ∃ sc sc', Threaded w w' i b sc sc' := by
  unfold threadStep at hs
  obtain ⟨_, hs⟩ := Option.ite_none_left_eq_some.mp hs
  obtain ⟨sc, hi, hs⟩ := Option.bind_eq_some_iff.mp hs
  obtain ⟨v, hv, he⟩ := Option.map_eq_some_iff.mp hs
  rw [← he]
  have hi' : (w.server.setConn i { sc with conn := v.conn, timers := v.timers }).conns[i]?
      = some { sc with conn := v.conn, timers := v.timers } := getElem?_setConn hi
  have hpushed := pushed_all v.queue hi'
  refine ⟨sc, { sc with conn := v.conn, timers := v.timers }, rfl, hi, ?_, ⟨rfl, rfl, rfl⟩,
    hpushed.map, fun h => hpushed.queued (h.setConn hi rfl),
    (only_setConn i _).trans hpushed.only, fun j hj => Function.update_of_ne hj _ _, ?_⟩
  · exact (congrArg (·[i]?) hpushed.conns).trans hi'
  · have hview := ConnWorld.step_waiting hb rfl (w.server.viewOf i sc).queue
      (w.server.viewOf i sc).closes (w.server.viewOf i sc).established hv
    have hafter : (w.called i sc v).server.viewOf i { sc with conn := v.conn, timers := v.timers }
        = _ := hpushed.view
    have hthreads : (w.called i sc v).threads i = v.threads := Function.update_self ..
    refine hview.trans (congrArg some ?_)
    unfold worldOf
    rw [hafter, hthreads]
    rfl

/-! ## Nothing is on its way -/

/-- As the destructor begins, no functor of `RemoveTcpConnection` is in the queue of the main loop;
from then on a connection gets to its call of `close_cb_` only behind its `DestroyConnection`; and
no `Shutdown` assigns `state_` when the connection is disconnected by now. -/
def InTime (w : DyingServer) : Label → Prop
  | .destroy => ∀ t ∈ w.server.queues mainLoop, t ≠ .remove t.id
  | .server (.run i .next) => ∀ sc ∈ w.server.conns[i]?,
      (w.calling i sc).NoRevival (.run .next)
        ∧ (w.life ≠ .alive → ConnWorld.callsCloseCb sc.conn = true →
          .destroyConnection ∈ sc.conn.trace)
  | .threadNext i t => ∀ sc ∈ w.server.conns[i]?, (w.calling i sc).NoRevival (.threadNext t)
  | _ => True

instance (w : DyingServer) (a : Label) : Decidable (w.InTime a) :=
  match a with
  | .destroy =>
      inferInstanceAs (Decidable (∀ t ∈ w.server.queues mainLoop, t ≠ .remove t.id))
  | .server (.run i .next) => inferInstanceAs (Decidable (∀ sc ∈ w.server.conns[i]?,
      (w.calling i sc).NoRevival (.run .next)
        ∧ (w.life ≠ .alive → ConnWorld.callsCloseCb sc.conn = true →
          .destroyConnection ∈ sc.conn.trace)))
  | .threadNext i t => inferInstanceAs (Decidable (∀ sc ∈ w.server.conns[i]?,
      (w.calling i sc).NoRevival (.threadNext t)))
  | .server (.accept _ _) | .server (.functor _) | .server (.timer _) | .server (.event _ _ _ _)
  | .server (.run _ (.call _)) | .server (.run _ .callbackReturns) | .server (.run _ (.write _))
  | .server (.run _ (.read _)) | .destroyNext _ | .destructed | .loopEnds _
  | .threadCall _ _ _ => .isTrue trivial

/-! ## Before the destructor -/

/-- What holds until the destructor begins. -/
structure Living (w : DyingServer) : Prop where
  queued : Queued w.server
  /-- Every connection lives its life, other threads included. -/
  worlds : ∀ i sc, w.server.conns[i]? = some sc →
    Reachable (ConnWorld.machine sc.loop) ConnWorld.NoRevival (w.worldOf i sc)
  map : MapFresh w.server
  unremoved : Unremoved w.server
  /-- Nobody calls a connection that is not there. -/
  unborn : ∀ i, w.server.conns[i]? = none → w.threads i = fun _ => .idle

theorem living_create {name : String} {cb : Bool} {loops : Nat} :
    Living (create name cb loops) where
  queued := alive_create.queued
  worlds := by simp [create, TcpServer.create]
  map := alive_create.map
  unremoved := alive_create.unremoved
  unborn := fun _ _ => rfl

/-- What a step takes of a connection brings nothing back. -/
theorem noRevival_of_takes {w : DyingServer} {a : TcpServer.Label} (hok : w.InTime (.server a))
    {i : ConnId} {sc : ServerConn} (hi : w.server.conns[i]? = some sc)
    (threads : ThreadId → ThreadPc) (v : ConnWorld) (b : ConnWorld.Label)
    (h : Takes a i (w.server.viewOf i sc) v b) :
    v.LoopOnly b ∧ { v with threads }.NoRevival b := by
  refine ⟨h.1, ?_⟩
  cases b with
  | run c =>
    obtain ⟨ha, hv⟩ := h.2 c rfl
    cases c with
    | next =>
      rw [ha] at hok
      rw [hv]
      exact (hok sc hi).1
    | _ => trivial
  | threadNext t => exact absurd h.1 (by simp [ConnWorld.LoopOnly, ConnWorld.Label.ofOtherThread])
  | _ => trivial

theorem living_server {w : DyingServer} (h : Living w) {a : TcpServer.Label}
    (hok : w.InTime (.server a)) {server : TcpServer} (hs : w.server.step a = some server)
    (ranDead : Bool) : Living { w with server, ranDead } := by
  obtain ⟨hf, hstep⟩ := step_cases hs
  refine ⟨queued_step h.queued hstep, ?_, mapFresh_step h.queued h.map hstep,
    unremoved_step h.queued h.unremoved hf hstep,
    fun i hi => h.unborn i (none_step h.queued hf hstep hi)⟩
  refine each_step (P := fun i sc v => Reachable (ConnWorld.machine sc.loop) ConnWorld.NoRevival
    { v with threads := w.threads i }) h.queued hf hstep h.worlds ?_ ?_
  · intro low high sc _ _ hr
    rw [h.unborn _ (List.getElem?_eq_none (Nat.le_refl _))]
    exact hr.mono fun _ _ hb => by rw [hb]; trivial
  · intro i sc sc' bs hi _ hloop _ hrun hr
    rw [hloop]
    exact hr.run (ConnWorld.run_threads _ (noRevival_of_takes hok hi _) hrun)

/-- **What holds of every connection** holds behind the step of another thread if it holds of the
one that the thread is in: the others are seen as before. -/
theorem Threaded.each {w w' : DyingServer} {i : ConnId} {b : ConnWorld.Label}
    {sc sc' : ServerConn} {P : ConnId → ServerConn → ConnWorld → (ThreadId → ThreadPc) → Prop}
    (h : Threaded w w' i b sc sc')
    (hall : ∀ j scj, w.server.conns[j]? = some scj →
      P j scj (w.server.viewOf j scj) (w.threads j))
    (hself : P i sc' (w'.server.viewOf i sc') (w'.threads i)) (j : ConnId) (scj : ServerConn)
    (hj : w'.server.conns[j]? = some scj) :
    P j scj (w'.server.viewOf j scj) (w'.threads j) := by
  by_cases hji : j = i
  · rw [hji, h.after] at hj
    rw [hji, ← Option.some.inj hj]
    exact hself
  · obtain ⟨hconns, hview⟩ := h.only.view hji hj
    rw [hview, h.threads j hji]
    exact hall j scj hconns

/-- `RemoveTcpConnection` and `DestroyConnection` are for the loops. -/
theorem Threaded.unanswered {w w' : DyingServer} {i : ConnId} {b : ConnWorld.Label}
    {sc sc' : ServerConn} (h : Threaded w w' i b sc sc') (hb : b.ofOtherThread = true) :
    (w'.server.viewOf i sc').destroys = (w.server.viewOf i sc).destroys
      ∧ (w'.server.viewOf i sc').closes = (w.server.viewOf i sc).closes
      ∧ sc'.conn.trace = sc.conn.trace := by
  have hstep := (ConnWorld.step_cases h.step).2
  have hne : b ≠ .ownerAnswers := by
    rintro rfl
    exact absurd hb (by simp [ConnWorld.Label.ofOtherThread])
  refine ⟨?_, ?_, (ConnWorld.stack_of_thread hb hstep).2⟩
  · rcases ConnWorld.destroys_step hstep with ⟨he, _⟩ | ⟨_, hd⟩
    · exact absurd he hne
    · exact hd
  · rcases ConnWorld.closes_step hstep with ⟨he, _⟩ | ⟨he, _⟩ | ⟨_, hc, _⟩
    · exact absurd he hne
    · rw [he] at hb
      exact absurd hb (by simp [ConnWorld.Label.ofOtherThread])
    · exact hc

theorem living_thread {w w' : DyingServer} (h : Living w) {i : ConnId} {b : ConnWorld.Label}
    {sc sc' : ServerConn} (hb : b.ofOtherThread = true) (ht : Threaded w w' i b sc sc')
    (hok : (w.worldOf i sc).NoRevival b) : Living w' := by
  obtain ⟨hname, hloop, hremoved⟩ := ht.entry
  refine ⟨ht.queued h.queued, ?_, fun n j hn => ?_, ?_, fun j hj => ?_⟩
  · refine ht.each (P := fun _ scj v threads => Reachable (ConnWorld.machine scj.loop)
      ConnWorld.NoRevival { v with threads }) h.worlds ?_
    rw [hloop]
    exact (h.worlds i sc ht.before).tail hok ht.step
  · rw [ht.map] at hn
    obtain ⟨scj, hj, hjn, hjr⟩ := h.map n j hn
    by_cases hji : j = i
    · rw [hji, ht.before] at hj
      rw [← Option.some.inj hj] at hjn hjr
      exact ⟨sc', by rw [hji]; exact ht.after, hname.trans hjn, hremoved.trans hjr⟩
    · exact ⟨scj, (ht.only j hji).1.trans hj, hjn, hjr⟩
  · refine ht.each (P := fun _ scj v _ => scj.removed = false → v.destroys = 0) h.unremoved
      fun hr => ?_
    rw [(ht.unanswered hb).1]
    exact h.unremoved i sc ht.before (hremoved.symm.trans hr)
  · have hji : j ≠ i := by
      rintro rfl
      exact absurd (hj.symm.trans ht.after) (by simp)
    rw [ht.threads j hji]
    exact h.unborn j ((ht.only j hji).1.symm.trans hj)

/-- `DestroyConnection` is called at most once. -/
theorem Living.destroys {w : DyingServer} (h : Living w) {i : ConnId} {sc : ServerConn}
    (hi : w.server.conns[i]? = some sc) : (w.server.viewOf i sc).destroys ≤ 1 := by
  have hcount := ConnWorld.closes_add_destroys (h.worlds i sc hi)
  have honce := (ConnWorld.onceClosed_reachable (h.worlds i sc hi)).count
  have hsame : (w.worldOf i sc).destroys = (w.server.viewOf i sc).destroys := rfl
  omega

/-! ## The destructor -/

/-- A connection whose server is being destroyed, or is gone: the destructor destroys it, unless it
was destroyed before. -/
structure Over (pending : List ConnId) (i : ConnId) (sc : ServerConn) (v : ConnWorld) : Prop where
  course : ConnWorld.Course sc.conn
  closes : v.closes = 0
  destroys : v.destroys + pending.count i ≤ 1

/-- The destructor has begun. -/
structure Ending (w : DyingServer) : Prop where
  queued : Queued w.server
  each : ∀ i sc, w.server.conns[i]? = some sc → Over w.pending i sc (w.server.viewOf i sc)

theorem mem_inMap {w : TcpServer} {i : ConnId} (h : i ∈ inMap w) :
    ∃ sc : ServerConn, w.conns[i]? = some sc ∧ w.connections sc.name = some i := by
  have hp := (List.mem_filter.mp h).2
  cases hi : w.conns[i]? with
  | none =>
    rw [hi] at hp
    exact absurd hp Bool.false_ne_true
  | some sc =>
    rw [hi] at hp
    exact ⟨sc, rfl, of_decide_eq_true hp⟩

theorem inMap_nodup (w : TcpServer) : (inMap w).Nodup := List.nodup_range.filter _

/-- Without a functor of `RemoveTcpConnection`, no answer is owed. -/
theorem closes_eq_zero {w : TcpServer} (h : ∀ t ∈ w.queues mainLoop, t ≠ .remove t.id)
    (i : ConnId) (sc : ServerConn) : (w.viewOf i sc).closes = 0 := by
  refine List.count_eq_zero.mpr fun hmem => ?_
  exact h _ (List.mem_filter.mp hmem).1 rfl

/-- **The destructor begins.** -/
theorem ending_destroy {w : DyingServer} (h : Living w)
    (hq : ∀ t ∈ w.server.queues mainLoop, t ≠ .remove t.id) :
    Ending { w with life := .destroying, pending := inMap w.server } where
  queued := h.queued
  each := by
    intro i sc hi
    have hcourse := ConnWorld.course_reachable
      ((h.worlds i sc hi).mono ConnWorld.noLateAssign_of_noRevival)
    refine ⟨hcourse, closes_eq_zero hq i sc, ?_⟩
    show (w.server.viewOf i sc).destroys + (inMap w.server).count i ≤ 1
    by_cases hmem : i ∈ inMap w.server
    · obtain ⟨_, _, hname⟩ := mem_inMap hmem
      obtain ⟨sc', hi', _, hr⟩ := h.map _ _ hname
      rw [h.unremoved i sc hi (by
        rw [hi] at hi'
        rw [Option.some.inj hi']
        exact hr), Nat.zero_add]
      exact List.nodup_iff_count.mp (inMap_nodup w.server) i
    · rw [List.count_eq_zero.mpr hmem]
      exact h.destroys hi

/-- **The destructor comes to a connection.** In the main loop `DestroyConnection` is called at
once, on top of the user code; to another loop it is left as a functor. -/
theorem destroyNext_step {w w' : TcpServer} (hq : Queued w) {i : ConnId} {sc : ServerConn}
    (hi : w.conns[i]? = some sc) (hcourse : ConnWorld.Course sc.conn)
    (hzero : (w.viewOf i sc).destroys = 0) (hu : userCode w = true)
    (hs : destroyNext w i = some w') :
    Queued w' ∧ Only i w w' ∧ ∃ sc' : ServerConn, w'.conns[i]? = some sc'
      ∧ sc'.conn.trace = sc.conn.trace ∧ ConnWorld.Course sc'.conn
      ∧ (w'.viewOf i sc').closes = (w.viewOf i sc).closes ∧ (w'.viewOf i sc').destroys = 1 := by
  obtain ⟨u, hu', he⟩ := Option.map_eq_some_iff.mp hs
  rw [hi] at hu'
  rw [← Option.some.inj hu'] at he
  dsimp only at he
  have hqueued : Queued { w with
      connections := Function.update w.connections sc.name none } := ⟨hq.about, hq.once⟩
  split at he
  · rename_i hmain
    have huser : sc.conn.atUser = true := by
      have hsc := of_decide_eq_true (List.all_eq_true.mp hu sc (List.mem_of_getElem? hi))
      exact hsc.resolve_left fun hne => hne hmain
    rw [← he]
    refine ⟨hqueued.setConn hi rfl, only_setConn (w := w) i _, _, getElem?_setConn hi, rfl,
      hcourse.call huser (ConnWorld.not_mem_of_destroys hzero), rfl, ?_⟩
    have hcall := ConnWorld.destroys_call (w.viewOf i sc)
    rw [hzero] at hcall
    exact hcall
  · rw [← he]
    have hview : ({ w with
        connections := Function.update w.connections sc.name none }.queueInLoop sc.loop
          (.functor i .destroyConnection)).viewOf i sc
        = { w.viewOf i sc with queue := (w.viewOf i sc).queue ++ [.destroyConnection] } := by
      have hid : (Task.functor i .destroyConnection).id = i := rfl
      unfold viewOf queueInLoop
      dsimp only
      rw [tasksOf_push hid]
      exact view_push_functor sc .destroyConnection
    refine ⟨hqueued.push hi rfl (by simp),
      only_push (w := w) sc.loop (.functor i .destroyConnection), sc, hi, rfl, hcourse, ?_⟩
    rw [hview, ConnWorld.destroys_queue, hzero]
    exact ⟨rfl, rfl⟩

theorem ending_destroyNext {w : DyingServer} (h : Ending w) {i : ConnId} {server : TcpServer}
    (hmem : i ∈ w.pending) (hu : userCode w.server = true)
    (hs : destroyNext w.server i = some server) :
    Ending { w with server, pending := w.pending.erase i } := by
  obtain ⟨sc, hi, _⟩ := Option.map_eq_some_iff.mp hs
  have hover := h.each i sc hi
  have hdestroys := hover.destroys
  have hpos := List.count_pos_iff.mpr hmem
  have hcount : (w.pending.erase i).count i = w.pending.count i - 1 := List.count_erase_self
  obtain ⟨hqueued, honly, sc', hi', _, hcourse, hcloses, hone⟩ :=
    destroyNext_step h.queued hi hover.course (by omega) hu hs
  refine ⟨hqueued, fun j scj hj => ?_⟩
  by_cases hji : j = i
  · rw [hji] at hj ⊢
    have hj : server.conns[i]? = some scj := hj
    rw [hi'] at hj
    rw [← Option.some.inj hj]
    refine ⟨hcourse, hcloses.trans hover.closes, ?_⟩
    show (server.viewOf i sc').destroys + (w.pending.erase i).count i ≤ 1
    rw [hone]
    omega
  · obtain ⟨hscj, hview⟩ := honly.view hji hj
    have hother := h.each j scj hscj
    show Over (w.pending.erase i) j scj (server.viewOf j scj)
    rw [hview]
    refine ⟨hother.course, hother.closes, ?_⟩
    rw [List.count_erase_of_ne hji]
    exact hother.destroys

/-- No connection calls `close_cb_`. -/
theorem no_closeCb {w : DyingServer} (h : Ending w) (hlife : w.life ≠ .alive) {i : ConnId}
    {b : LocalLabel} (hok : w.InTime (.server (.run i b))) {sc : ServerConn}
    (hi : w.server.conns[i]? = some sc) {conn : TcpConnection} {out : Option Outgoing}
    (hl : sc.conn.localStep b = some (conn, out)) :
    out ≠ some .closeCb ∧ conn.trace.count .closeCb = sc.conn.trace.count .closeCb := by
  rcases ConnWorld.closeCb_localStep (TcpConnection.localStep_cases hl) with
    ⟨ho, hb, hcalls, _⟩ | hno
  · rw [hb] at hok
    have hdestroyed := (hok sc hi).2 hlife hcalls
    exact absurd hdestroyed ((ConnWorld.course_localStep (h.each i sc hi).course hl).2 ho)
  · exact hno

/-- **A step while the server is destroyed, or after.** -/
theorem ending_server {w : DyingServer} (h : Ending w) (hlife : w.life ≠ .alive)
    {a : TcpServer.Label} (hok : w.InTime (.server a)) (hcan : w.canStep a = true)
    {server : TcpServer} (hs : w.server.step a = some server) (ranDead : Bool) :
    Ending { w with server, ranDead } := by
  obtain ⟨hf, hstep⟩ := step_cases hs
  refine ⟨queued_step h.queued hstep,
    each_step (P := Over w.pending) h.queued hf hstep h.each ?_ ?_⟩
  · intro low high sc ha
    rw [ha] at hcan
    unfold canStep loopOf at hcan
    cases hl : w.life <;> simp [hl, inDestroy, accepts] at hcan hlife
  · intro i sc sc' bs hi hi' _ _ hrun hover
    have hcount : sc'.conn.trace.count .closeCb = sc.conn.trace.count .closeCb := by
      rcases conn_step h.queued hstep hi hi' with he | ⟨b, conn, out, ha, hl, he⟩
      · rw [he]
      · rw [ha] at hok
        rw [he]
        exact (no_closeCb h hlife hok hi hl).2
    obtain ⟨hcloses, hdestroys⟩ := (ConnWorld.unanswered_run hrun).2 hcount hover.closes
    have hcourse := ConnWorld.course_run (w := w.server.viewOf i sc) hover.course
      (hrun.mono fun v b hb => ConnWorld.noLateAssign_of_loopOnly v b (takes_loopOnly v b hb))
    refine ⟨hcourse, hcloses, ?_⟩
    rw [hdestroys]
    exact hover.destroys

/-- **Another thread, while the server is destroyed or after.** -/
theorem ending_thread {w w' : DyingServer} (h : Ending w) {i : ConnId} {b : ConnWorld.Label}
    {sc sc' : ServerConn} (hb : b.ofOtherThread = true) (ht : Threaded w w' i b sc sc')
    (hok : (w.worldOf i sc).NoRevival b) : Ending w' := by
  have hpending : w'.pending = w.pending := by rw [ht.rest]
  refine ⟨ht.queued h.queued, ?_⟩
  rw [hpending]
  refine ht.each (P := fun j scj v _ => Over w.pending j scj v) h.each ?_
  have hover := h.each i sc ht.before
  obtain ⟨hdestroys, hcloses, _⟩ := ht.unanswered hb
  have hcourse := ConnWorld.course_step (w := w.worldOf i sc) hover.course
    (ConnWorld.noLateAssign_of_noRevival _ _ hok) ht.step
  exact ⟨hcourse, hcloses.trans hover.closes, by rw [hdestroys]; exact hover.destroys⟩

/-- No step runs the functor of `RemoveTcpConnection`. -/
theorem not_runsRemoval {w : DyingServer} (h : Ending w) (hlife : w.life ≠ .alive)
    {a : TcpServer.Label} (hok : w.InTime (.server a)) : runsRemoval w.server a = false := by
  cases a with
  | functor loop =>
    unfold runsRemoval
    dsimp only
    split
    · rename_i i rest hq
      obtain ⟨sc, hi, hl⟩ := h.queued.about loop (.remove i) (by rw [hq]; exact List.mem_cons_self)
      have hl : loop = mainLoop := hl
      rw [hl] at hq
      have hzero : (tasksOf w.server.queues i mainLoop).count (.remove i) = 0 :=
        (h.each i sc hi).closes
      have htop : tasksOf w.server.queues i mainLoop = .remove i :: rest.filter (·.id = i) :=
        tasksOf_top hq rfl
      rw [htop, List.count_cons_self] at hzero
      omega
    · rfl
  | run i b =>
    have hcloses : closes w.server i b = false := by
      unfold closes
      cases hi : w.server.conns[i]? with
      | none => rfl
      | some sc =>
        show ((sc.conn.localStep b).any fun r => r.2 = some .closeCb) = false
        cases hl : sc.conn.localStep b with
        | none => rfl
        | some r =>
          exact decide_eq_false (no_closeCb h hlife hok hi hl).1
    show decide (closes w.server i b = true ∧ _) = false
    rw [hcloses]
    simp
  | _ => rfl

/-! ## The end of a connection -/

/-- The end of a connection is reported at most once for each `DestroyConnection`. -/
def Reports (w : TcpServer) : Prop :=
  ∀ (i : ConnId) (sc : ServerConn), w.conns[i]? = some sc →
    sc.conn.trace.countP ConnWorld.reportsEnd ≤ sc.conn.trace.count .destroyConnection

theorem reports_step {w w' : TcpServer} {a : TcpServer.Label} (hq : Queued w) (h : Reports w)
    (hf : ∀ sc ∈ w.conns, sc.conn.failed = none) (hs : ServerStep w a w') : Reports w' := by
  refine each_step (P := fun _ sc _ =>
    sc.conn.trace.countP ConnWorld.reportsEnd ≤ sc.conn.trace.count .destroyConnection) hq hf hs
    h ?_ ?_
  · intro low high sc ha hi _
    rw [ha] at hs
    cases hs
    rw [newTcpConnection_trace hi]
    exact Nat.le_refl 0
  · intro i sc sc' bs hi hi' _ _ _ hle
    rcases conn_step hq hs hi hi' with he | ⟨b, conn, out, _, hl, he⟩
    · rw [he]
      exact hle
    · rw [he]
      exact ConnWorld.reports_localStep (TcpConnection.localStep_cases hl) hle

theorem reports_destroyNext {w w' : TcpServer} {i : ConnId} (h : Reports w)
    (hs : destroyNext w i = some w') : Reports w' := by
  obtain ⟨sc, hi, he⟩ := Option.map_eq_some_iff.mp hs
  dsimp only at he
  split at he
  · rw [← he]
    intro j scj hj
    by_cases hji : j = i
    · rw [hji] at hj
      have hself := (getElem?_setConn hi).symm.trans hj
      rw [← Option.some.inj hself]
      exact h i sc hi
    · exact h j scj ((getElem?_setConn_ne hji).symm.trans hj)
  · rw [← he]
    exact h

theorem reports_thread {w w' : DyingServer} (h : Reports w.server) {i : ConnId}
    {b : ConnWorld.Label} {sc sc' : ServerConn} (hb : b.ofOtherThread = true)
    (ht : Threaded w w' i b sc sc') : Reports w'.server := by
  refine ht.each (P := fun _ scj _ _ => scj.conn.trace.countP ConnWorld.reportsEnd
    ≤ scj.conn.trace.count .destroyConnection) h ?_
  rw [(ht.unanswered hb).2.2]
  exact h i sc ht.before

/-! ## Every run -/

/-- The invariant of every run that is in time. -/
structure Inv (w : DyingServer) : Prop where
  living : w.life = .alive → Living w
  ending : w.life ≠ .alive → Ending w
  reports : Reports w.server
  safe : w.ranDead = false

theorem Inv.queued {w : DyingServer} (h : Inv w) : Queued w.server := by
  by_cases hlife : w.life = .alive
  · exact (h.living hlife).queued
  · exact (h.ending hlife).queued

theorem inv_thread {w w' : DyingServer} (h : Inv w) {i : ConnId} {b : ConnWorld.Label}
    {sc sc' : ServerConn} (hb : b.ofOtherThread = true) (ht : Threaded w w' i b sc sc')
    (hok : (w.worldOf i sc).NoRevival b) : Inv w' := by
  have hlife : w'.life = w.life := by rw [ht.rest]
  have hsafe : w'.ranDead = w.ranDead := by rw [ht.rest]
  exact ⟨fun hl => living_thread (h.living (hlife.symm.trans hl)) hb ht hok,
    fun hl => ending_thread (h.ending (by rw [← hlife]; exact hl)) hb ht hok,
    reports_thread h.reports hb ht, hsafe.trans h.safe⟩

theorem inv_step {w w' : DyingServer} {a : Label} (h : Inv w) (hok : w.InTime a)
    (hs : w.step a = some w') : Inv w' := by
  unfold step at hs
  cases a with
  | server a =>
    obtain ⟨hcan, hs⟩ := Option.ite_none_right_eq_some.mp hs
    obtain ⟨server, hserver, he⟩ := Option.map_eq_some_iff.mp hs
    rw [← he]
    obtain ⟨hf, hstep⟩ := step_cases hserver
    refine ⟨fun hlife => living_server (h.living hlife) hok hserver _,
      fun hlife => ending_server (h.ending hlife) hlife hok hcan hserver _,
      reports_step h.queued h.reports hf hstep, ?_⟩
    refine decide_eq_false (not_or.mpr ⟨by simp [h.safe], fun hlate => ?_⟩)
    have hlife : w.life ≠ .alive := by simp [hlate.1]
    exact absurd hlate.2 (by simp [not_runsRemoval (h.ending hlife) hlife hok])
  | destroy =>
    obtain ⟨hcan, hs⟩ := Option.ite_none_right_eq_some.mp hs
    rw [← Option.some.inj hs]
    exact ⟨by simp, fun _ => ending_destroy (h.living hcan.1) hok, h.reports, h.safe⟩
  | destroyNext i =>
    obtain ⟨⟨hlife, hmem, hu⟩, hs⟩ := Option.ite_none_right_eq_some.mp hs
    have hend := h.ending (by simp [hlife])
    obtain ⟨server, hserver, he⟩ := Option.map_eq_some_iff.mp hs
    rw [← he]
    exact ⟨fun hl => absurd (hlife.symm.trans hl) (by simp),
      fun _ => ending_destroyNext hend hmem hu hserver, reports_destroyNext h.reports hserver,
      h.safe⟩
  | destructed =>
    obtain ⟨hcan, hs⟩ := Option.ite_none_right_eq_some.mp hs
    rw [← Option.some.inj hs]
    have hend := h.ending (by simp [hcan.1])
    exact ⟨by simp, fun _ => { hend with }, h.reports, h.safe⟩
  | loopEnds loop =>
    rw [← Option.some.inj (Option.ite_none_right_eq_some.mp hs).2]
    exact ⟨fun hlife => { h.living hlife with }, fun hlife => { h.ending hlife with }, h.reports,
      h.safe⟩
  | threadCall i t op =>
    obtain ⟨sc, sc', ht⟩ := threadStep_cases rfl hs
    exact inv_thread h rfl ht trivial
  | threadNext i t =>
    obtain ⟨sc, sc', ht⟩ := threadStep_cases rfl hs
    exact inv_thread h rfl ht (hok sc ht.before)

theorem inv_reachable {name : String} {cb : Bool} {loops : Nat} {w : DyingServer}
    (h : Reachable (machine name cb loops) InTime w) : Inv w := by
  refine h.invariant (I := Inv) ?_ fun w a w' _ hi hok hs => inv_step hi hok hs
  intro w hw
  rw [show w = create name cb loops from hw]
  exact ⟨fun _ => living_create, fun hlife => absurd rfl hlife, by simp [Reports, create,
    TcpServer.create], rfl⟩

/-- **When a server is destroyed in time.** With any number of loops and other threads, and in any
order of their steps: if nothing of `RemoveTcpConnection` is on its way as the destructor begins, no
connection calls `close_cb_` from then on, and none that is disconnected is brought back by a
`Shutdown`, then no functor of `RemoveTcpConnection` runs after the server is destroyed, and
`DestroyConnection` runs, and `connection_cb_` hears of the end, at most once for each
connection. -/
theorem destroyed_in_time {name : String} {cb : Bool} {loops : Nat} {w : DyingServer}
    (h : Reachable (machine name cb loops) InTime w) :
    w.ranDead = false ∧ ∀ (i : ConnId) (sc : ServerConn), w.server.conns[i]? = some sc →
      sc.conn.trace.count .destroyConnection ≤ 1
        ∧ sc.conn.trace.countP ConnWorld.reportsEnd ≤ 1 := by
  have hi := inv_reachable h
  refine ⟨hi.safe, fun i sc hsc => ?_⟩
  have honce : sc.conn.trace.count .destroyConnection ≤ 1 := by
    by_cases hlife : w.life = .alive
    · have hdestroys := (hi.living hlife).destroys hsc
      have hle : sc.conn.trace.count .destroyConnection ≤ (w.server.viewOf i sc).destroys :=
        Nat.le_add_left _ _
      omega
    · have hdestroys := ((hi.ending hlife).each i sc hsc).destroys
      have hle : sc.conn.trace.count .destroyConnection ≤ (w.server.viewOf i sc).destroys :=
        Nat.le_add_left _ _
      omega
  exact ⟨honce, Nat.le_trans (hi.reports i sc hsc) honce⟩

/-- A connection of the pool, which another thread shuts down, is destroyed with the server. -/
theorem destroyed_in_time_small : ∃ w, Reachable (machine "S" true 1) InTime w
    ∧ w.life = .destroyed
    ∧ (∃ sc : ServerConn, w.server.conns[0]? = some sc
      ∧ sc.conn.trace.count .destroyConnection = 1 ∧ sc.conn.trace.countP ConnWorld.reportsEnd ≤ 1)
    ∧ w.ranDead = false := by
  have hexec : ((machine "S" true 1).exec InTime (create "S" true 1)
      [.server (.accept false false), .server (.functor 1), .server (.run 0 .next),
        .server (.run 0 .callbackReturns), .threadCall 0 7 .shutdown, .threadNext 0 7, .destroy,
        .destroyNext 0, .server (.functor 1), .server (.run 0 .next), .threadNext 0 7,
        .server (.run 0 .callbackReturns), .server (.run 0 .next), .server (.functor 1),
        .server (.run 0 .next), .loopEnds 1, .destructed]).map (fun w => decide
          (w.life = .destroyed ∧ ∃ sc ∈ w.server.conns[0]?,
            sc.conn.trace.count .destroyConnection = 1)) = some true := by decide +kernel
  obtain ⟨w, hr, hp⟩ := Machine.exec_reachable rfl hexec
  obtain ⟨hlife, sc, hsc, hcount⟩ := of_decide_eq_true hp
  have hsafe := destroyed_in_time hr
  exact ⟨w, hr, hlife, ⟨sc, hsc, hcount, (hsafe.2 0 sc hsc).2⟩, hsafe.1⟩

/-- A connection of the pool closes, and the server is destroyed before its functor of
`RemoveTcpConnection` has run. -/
theorem removed_after_destructor :
    ¬ ∀ w, Reachable (machine "S" true 1) (fun _ _ => True) w → w.ranDead = false := by
  intro hall
  have hexec : ((machine "S" true 1).exec (fun _ _ => True) (create "S" true 1)
      [.server (.accept false false), .server (.functor 1), .server (.run 0 .next),
        .server (.run 0 .callbackReturns), .server (.event 0 false true false),
        .server (.run 0 .next), .server (.run 0 (.read .eof)), .server (.run 0 .next), .destroy,
        .destroyNext 0, .server (.functor 1), .server (.run 0 .next),
        .server (.run 0 .callbackReturns), .server (.run 0 .next), .loopEnds 1, .destructed,
        .server (.functor 0)]).map (fun w => w.ranDead) = some true := by decide +kernel
  obtain ⟨w, hr, hp⟩ := Machine.exec_reachable rfl hexec
  exact absurd ((hall w hr).symm.trans hp) (by simp)

end DyingServer

end Windz
