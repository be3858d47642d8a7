import Windz.Net.TcpServerSteps

/-!
# A server and its connections

Every step of the server is a run of the connection it is about, as its view has it, so
each connection lives its life.
-/

namespace Windz

open Lib

namespace TcpServer

variable {ok : ConnWorld → ConnWorld.Label → Prop}

/-! ## Steps of a connection that is seen through the server -/

section Take

variable (tid : ThreadId) {v : ConnWorld}

theorem enter_eq (hs : v.conn.stack = []) (frames : List Frame) :
    v.enter frames = some { v with conn := { v.conn with stack := frames } } := by
  unfold ConnWorld.enter TcpConnection.enter
  rw [if_pos hs]
  rfl

theorem take_run (hf : v.conn.failed = none) {a : LocalLabel} {conn : TcpConnection}
    {out : Option Outgoing} (h : v.conn.localStep a = some (conn, out)) (hok : ok v (.run a)) :
    Run (ConnWorld.machine tid) ok v [.run a] ({ v with conn }.emit out) := by
  refine Run.one hok ?_
  show v.step (.run a) = _
  unfold ConnWorld.step
  rw [hf]
  dsimp only
  rw [h]
  rfl

theorem take_establish (hf : v.conn.failed = none) (he : v.established = false)
    (hs : v.conn.stack = []) (hok : ok v .establish) :
    Run (ConnWorld.machine tid) ok v [.establish]
      { v with established := true, conn := { v.conn with stack := [.establishConnection] } } := by
  refine Run.one hok ?_
  show v.step .establish = _
  unfold ConnWorld.step
  rw [hf]
  dsimp only
  rw [he]
  exact enter_eq (v := { v with established := true }) hs _

theorem take_ownerAnswers (hf : v.conn.failed = none) (hc : v.closes ≠ 0)
    (hok : ok v .ownerAnswers) :
    Run (ConnWorld.machine tid) ok v [.ownerAnswers]
      { v with closes := v.closes - 1, queue := v.queue ++ [.destroyConnection] } := by
  refine Run.one hok ?_
  show v.step .ownerAnswers = _
  unfold ConnWorld.step
  rw [hf]
  exact if_neg hc

theorem take_functor (hf : v.conn.failed = none) {f : ConnFunctor} {rest : List ConnFunctor}
    (hq : v.queue = f :: rest) (hs : v.conn.stack = []) (hok : ok v .functor) :
    Run (ConnWorld.machine tid) ok v [.functor]
      { v with
        queue := rest
        conn := { v.conn with stack := TcpConnection.functorFrames f } } := by
  refine Run.one hok ?_
  show v.step .functor = _
  unfold ConnWorld.step
  rw [hf]
  dsimp only
  rw [hq]
  exact enter_eq (v := { v with queue := rest }) hs _

theorem take_timer (hf : v.conn.failed = none) (ht : v.timers ≠ 0) (hs : v.conn.stack = [])
    (hok : ok v .timer) :
    Run (ConnWorld.machine tid) ok v [.timer]
      { v with
        timers := v.timers - 1
        conn := { v.conn with stack := [.forceCloseInLoop] } } := by
  refine Run.one hok ?_
  show v.step .timer = _
  unfold ConnWorld.step
  rw [hf]
  dsimp only
  rw [if_neg ht]
  exact enter_eq (v := { v with timers := v.timers - 1 }) hs _

theorem take_event (hf : v.conn.failed = none) (error : Bool) {readable writable : Bool}
    (hr : v.conn.reports readable writable = true) (hs : v.conn.stack = [])
    (hok : ok v (.event error readable writable)) :
    Run (ConnWorld.machine tid) ok v [.event error readable writable]
      { v with conn := { v.conn with
        stack := TcpConnection.eventFrames error readable writable } } := by
  refine Run.one hok ?_
  show v.step (.event error readable writable) = _
  unfold ConnWorld.step
  rw [hf]
  dsimp only
  rw [hr]
  exact enter_eq hs _

end Take

/-- A step that calls `close_cb_` breaks no assertion. -/
theorem closeCb_failed {c c' : TcpConnection} {a : LocalLabel}
    (h : TcpConnection.LocalStep c a c' (some .closeCb)) : c'.failed = c.failed := by
  cases h with
  | handleClose h hs hw => rfl
  | wrote h hshut hne hpre hlow => rcases hlow with hl | hl <;> exact absurd hl (by simp)
  | wroteAll h hshut hlow => rcases hlow with hl | hl <;> exact absurd hl (by simp)
  | drained h hshut hout hlow => rcases hlow with hl | hl <;> exact absurd hl (by simp)

/-- A connection that is not removed was not before, and its owner has answered nothing. -/
def NotAnswered (sc sc' : ServerConn) (as : List ConnWorld.Label) : Prop :=
  sc'.removed = false → sc.removed = false ∧ .ownerAnswers ∉ as

/-- What a connection hands out, as its view sees it: with the main loop for its loop, the owner
answers `close_cb_` at once. -/
theorem run_emit {w : TcpServer} {i : ConnId} {sc : ServerConn} (hi : w.conns[i]? = some sc)
    (tid : ThreadId) (hok : ∀ v, ok v .ownerAnswers)
    {out : Option Outgoing} (hf : out = some .closeCb → sc.conn.failed = none) :
    ∃ sc' bs, (w.emit i sc out).conns[i]? = some sc' ∧ sc'.loop = sc.loop
      ∧ NotAnswered sc sc' bs
      ∧ Run (ConnWorld.machine tid) ok ((w.viewOf i sc).emit out) bs
        ((w.emit i sc out).viewOf i sc') := by
  cases out with
  | none => exact ⟨sc, [], hi, rfl, fun hr => ⟨hr, List.not_mem_nil⟩, Run.nil⟩
  | some out =>
    cases out with
    | queueInLoop f =>
      refine ⟨sc, [], hi, rfl, fun hr => ⟨hr, List.not_mem_nil⟩, ?_⟩
      have hid : (Task.functor i f).id = i := rfl
      have he : (w.queueInLoop sc.loop (.functor i f)).viewOf i sc
          = (w.viewOf i sc).emit (some (.queueInLoop f)) := by
        unfold viewOf queueInLoop
        dsimp only
        rw [tasksOf_push hid]
        exact view_push_functor sc f
      show Run _ _ _ [] ((w.queueInLoop sc.loop (.functor i f)).viewOf i sc)
      rw [he]
      exact Run.nil
    | runAfter =>
      exact ⟨_, [], getElem?_setConn hi, rfl, fun hr => ⟨hr, List.not_mem_nil⟩, Run.nil⟩
    | closeCb =>
      by_cases hl : sc.loop = mainLoop
      · obtain ⟨hi', hview⟩ := viewOf_removeInLoop hi
        have he : w.emit i sc (some .closeCb) = w.removeInLoop i := if_pos hl
        refine ⟨{ sc with removed := true }, [.ownerAnswers], ?_, rfl,
          fun hr => absurd hr (by simp), ?_⟩
        · rw [he]
          exact hi'
        · rw [he, hview]
          exact take_ownerAnswers tid (hf rfl) (Nat.succ_ne_zero _) (hok _)
      · have he : w.emit i sc (some .closeCb) = w.queueInLoop mainLoop (.remove i) := if_neg hl
        refine ⟨sc, [], by rw [he]; exact hi, rfl, fun hr => ⟨hr, List.not_mem_nil⟩, ?_⟩
        have hid : (Task.remove i).id = i := rfl
        have hview : (w.queueInLoop mainLoop (.remove i)).viewOf i sc
            = (w.viewOf i sc).emit (some .closeCb) := by
          unfold viewOf queueInLoop
          dsimp only
          rw [tasksOf_push hid]
          exact view_push_remove
        rw [he, hview]
        exact Run.nil

/-- A task is in the queue of its loop. -/
theorem Queued.top {w : TcpServer} (h : Queued w) {loop : LoopId} {t : Task} {rest : List Task}
    {sc : ServerConn} (hq : w.queues loop = t :: rest) (hi : w.conns[t.id]? = some sc) :
    loop = t.queuedIn sc.loop := by
  obtain ⟨sc', hi', hl⟩ := h.about loop t (by rw [hq]; exact List.mem_cons_self)
  rw [hi] at hi'
  rw [Option.some.inj hi']
  exact hl

theorem run_establish {w : TcpServer} (h : Queued w) {loop : LoopId} {i : ConnId}
    {sc : ServerConn} {rest : List Task} (hq : w.queues loop = .establish i :: rest)
    (hi : w.conns[i]? = some sc) (hs : sc.conn.stack = []) (hf : sc.conn.failed = none)
    (hok : ok (w.viewOf i sc) .establish) :
    Run (ConnWorld.machine sc.loop) ok (w.viewOf i sc) [.establish]
      (view (tasksOf (Function.update w.queues loop rest) i) i
        { sc with conn := { sc.conn with stack := [.establishConnection] } }) := by
  have hloop : loop = sc.loop := h.top hq hi
  have hid : (Task.establish i).id = i := rfl
  rw [hloop] at hq ⊢
  have htop := tasksOf_top hq hid
  -- it was there once, and now it is not
  have honce := h.once sc.loop i
  rw [hq, List.count_cons_self] at honce
  have hnone : (rest.filter (·.id = i)).count (.establish i) = 0 := by
    rw [List.count_filter (by simp [Task.id])]
    omega
  have hbefore : (w.viewOf i sc).established = false := by
    unfold viewOf view
    dsimp only
    rw [htop, List.count_cons_self]
    rfl
  rw [tasksOf_pop, view_establishes { sc with conn := { sc.conn with
    stack := [.establishConnection] } }]
  · rw [hnone]
    exact take_establish sc.loop hf hbefore hs hok
  · rw [htop]
    rfl
  · rw [htop, List.count_cons_of_ne (by simp)]

theorem run_functor {w : TcpServer} (h : Queued w) {loop : LoopId} {i : ConnId} {f : ConnFunctor}
    {sc : ServerConn} {rest : List Task} (hq : w.queues loop = .functor i f :: rest)
    (hi : w.conns[i]? = some sc) (hs : sc.conn.stack = []) (hf : sc.conn.failed = none)
    (hok : ok (w.viewOf i sc) .functor) :
    Run (ConnWorld.machine sc.loop) ok (w.viewOf i sc) [.functor]
      (view (tasksOf (Function.update w.queues loop rest) i) i
        { sc with conn := { sc.conn with stack := TcpConnection.functorFrames f } }) := by
  have hloop : loop = sc.loop := h.top hq hi
  have hid : (Task.functor i f).id = i := rfl
  rw [hloop] at hq ⊢
  have htop := tasksOf_top hq hid
  have hqueue : (w.viewOf i sc).queue
      = f :: (rest.filter (·.id = i)).filterMap Task.connFunctor := by
    unfold viewOf view
    dsimp only
    rw [htop]
    rfl
  rw [tasksOf_pop, view_functors { sc with conn := { sc.conn with
    stack := TcpConnection.functorFrames f } }]
  · exact take_functor sc.loop hf hqueue hs hok
  · rw [htop, List.count_cons_of_ne (by simp)]
  · rw [htop, List.count_cons_of_ne (by simp)]

theorem run_remove {w : TcpServer} (h : Queued w) {loop : LoopId} {i : ConnId}
    {sc : ServerConn} {rest : List Task} (hq : w.queues loop = .remove i :: rest)
    (hi : w.conns[i]? = some sc) (hf : sc.conn.failed = none)
    (hok : ok (w.viewOf i sc) .ownerAnswers) :
    Run (ConnWorld.machine sc.loop) ok (w.viewOf i sc) [.ownerAnswers]
      (({ w with queues := Function.update w.queues loop rest }.removeInLoop i).viewOf i
        { sc with removed := true }) := by
  have hloop : loop = mainLoop := h.top hq hi
  have hid : (Task.remove i).id = i := rfl
  rw [hloop] at hq ⊢
  have htop := tasksOf_top hq hid
  have hcloses : (w.viewOf i sc).closes = (rest.filter (·.id = i)).count (.remove i) + 1 := by
    unfold viewOf view
    dsimp only
    rw [htop, List.count_cons_self]
  have hpop : { w with queues := Function.update w.queues mainLoop rest }.viewOf i sc
      = { w.viewOf i sc with closes := (w.viewOf i sc).closes - 1 } := by
    rw [hcloses, Nat.add_sub_cancel]
    unfold viewOf
    dsimp only
    rw [tasksOf_pop, view_removes]
    · rw [htop]
      rfl
    · rw [htop, List.count_cons_of_ne (by simp)]
  rw [(viewOf_removeInLoop (w := { w with queues := Function.update w.queues mainLoop rest }) hi).2,
    hpop]
  refine take_ownerAnswers sc.loop hf ?_ hok
  rw [hcloses]
  exact Nat.succ_ne_zero _

/-- What a step of the server takes of connection `i`: steps of the loop thread and the owner, and
one inside the connection only as the step says, from where the connection stands. -/
def Takes (a : Label) (i : ConnId) (v₀ v : ConnWorld) (b : ConnWorld.Label) : Prop :=
  v.LoopOnly b ∧ ∀ c, b = .run c → a = .run i c ∧ v = v₀

theorem takes_loopOnly {a : Label} {i : ConnId} {v₀ : ConnWorld} (v : ConnWorld)
    (b : ConnWorld.Label) (h : Takes a i v₀ v b) : v.LoopOnly b := h.1

/-- **A step of the server is a run of the connection it is about.** -/
theorem own_step {w w' : TcpServer} {a : Label} (hq : Queued w)
    (hf : ∀ sc ∈ w.conns, sc.conn.failed = none) (hs : ServerStep w a w') :
    (∃ low high, a = .accept low high)
      ∨ ∃ i sc sc' bs, Only i w w' ∧ w.conns[i]? = some sc ∧ w'.conns[i]? = some sc'
        ∧ sc'.loop = sc.loop ∧ NotAnswered sc sc' bs
        ∧ Run (ConnWorld.machine sc.loop) (Takes a i (w.viewOf i sc)) (w.viewOf i sc) bs
          (w'.viewOf i sc') := by
  cases hs with
  | accept => exact .inl ⟨_, _, rfl⟩
  | @run i sc a conn out hi hl =>
    have hi' : (w.setConn i { sc with conn }).conns[i]? = some { sc with conn } :=
      getElem?_setConn hi
    have hfailed := hf sc (List.mem_of_getElem? hi)
    have hclose : out = some .closeCb → conn.failed = none := by
      intro ho
      have hlocal := TcpConnection.localStep_cases hl
      rw [ho] at hlocal
      exact (closeCb_failed hlocal).trans hfailed
    have howner : ∀ v, Takes (.run i a) i (w.viewOf i sc) v .ownerAnswers :=
      fun _ => ⟨rfl, by simp⟩
    obtain ⟨sc', bs, hsc', hloop, hanswer, hrun⟩ := run_emit hi' sc.loop howner hclose
    have hfirst : Run (ConnWorld.machine sc.loop) (Takes (.run i a) i (w.viewOf i sc))
        (w.viewOf i sc) [.run a]
        (((w.setConn i { sc with conn }).viewOf i { sc with conn }).emit out) :=
      take_run sc.loop hfailed hl ⟨rfl, fun c he => ⟨by rw [ConnWorld.Label.run.inj he], rfl⟩⟩
    have hanswer' : NotAnswered sc sc' ([.run a] ++ bs) := by
      intro hr
      obtain ⟨hr, hnot⟩ := hanswer hr
      refine ⟨hr, fun hmem => ?_⟩
      rcases List.mem_append.mp hmem with hmem | hmem
      · exact absurd (List.mem_singleton.mp hmem) (by simp)
      · exact hnot hmem
    exact .inr ⟨i, sc, sc', _, (only_setConn i _).trans (only_emit hi' out), hi, hsc', hloop,
      hanswer', hfirst.append hrun⟩
  | @establish loop i sc rest hqueue hi hst =>
    exact .inr ⟨i, sc, _, _, (only_pop hqueue).trans (only_setConn i _), hi, getElem?_setConn hi,
      rfl, fun hr => ⟨hr, by simp⟩,
      run_establish hq hqueue hi hst (hf sc (List.mem_of_getElem? hi)) ⟨rfl, by simp⟩⟩
  | @functor loop i f sc rest hqueue hi hst =>
    exact .inr ⟨i, sc, _, _, (only_pop hqueue).trans (only_setConn i _), hi, getElem?_setConn hi,
      rfl, fun hr => ⟨hr, by simp⟩,
      run_functor hq hqueue hi hst (hf sc (List.mem_of_getElem? hi)) ⟨rfl, by simp⟩⟩
  | @remove loop i rest hqueue =>
    obtain ⟨sc, hi, _⟩ := hq.about _ _ (by rw [hqueue]; exact List.mem_cons_self)
    have hi' : { w with queues := Function.update w.queues loop rest }.conns[i]? = some sc := hi
    exact .inr ⟨i, sc, _, _, (only_pop hqueue).trans (only_removeInLoop hi'), hi,
      (viewOf_removeInLoop hi').1, rfl, fun hr => absurd hr (by simp),
      run_remove hq hqueue hi (hf sc (List.mem_of_getElem? hi)) ⟨rfl, by simp⟩⟩
  | @timer i sc hi ht hst =>
    have hfailed := hf sc (List.mem_of_getElem? hi)
    have htakes : Takes (.timer i) i (w.viewOf i sc) (w.viewOf i sc) .timer := ⟨rfl, by simp⟩
    have hrun := take_timer (v := w.viewOf i sc) sc.loop hfailed ht hst htakes
    exact .inr ⟨i, sc, _, _, only_setConn i _, hi, getElem?_setConn hi, rfl,
      fun hr => ⟨hr, by simp⟩, hrun⟩
  | @event i sc error readable writable hi hr hst =>
    have hfailed := hf sc (List.mem_of_getElem? hi)
    have htakes : Takes (.event i error readable writable) i (w.viewOf i sc) (w.viewOf i sc)
      (.event error readable writable) := ⟨rfl, by simp⟩
    have hrun := take_event (v := w.viewOf i sc) sc.loop hfailed error hr hst htakes
    exact .inr ⟨i, sc, _, _, only_setConn i _, hi, getElem?_setConn hi, rfl,
      fun hr => ⟨hr, by simp⟩, hrun⟩

theorem Queued.tasksOf_new {w : TcpServer} (h : Queued w) (loop : LoopId) :
    tasksOf w.queues w.conns.length loop = [] := by
  refine List.filter_eq_nil_iff.mpr fun t ht => ?_
  rw [decide_eq_true_eq]
  exact h.none_new loop t ht

/-- A new connection: in the main loop `EstablishConnection` is entered at once, for another loop it
is put in the queue. -/
theorem accept_step {w : TcpServer} (h : Queued w) (low high : Bool) :
    Only w.conns.length w (w.newTcpConnection low high)
      ∧ ∃ sc, (w.newTcpConnection low high).conns[w.conns.length]? = some sc
        ∧ Reachable (ConnWorld.machine sc.loop) (fun _ b => b = .establish)
          ((w.newTcpConnection low high).viewOf w.conns.length sc) := by
  have hothers : ∀ (x : ServerConn) j, j ≠ w.conns.length →
      (w.conns ++ [x])[j]? = w.conns[j]? := by
    intro x j hj
    rcases Nat.lt_or_ge j w.conns.length with hlt | hge
    · exact List.getElem?_append_left hlt
    · rw [List.getElem?_eq_none hge, List.getElem?_eq_none]
      rw [List.length_append, List.length_singleton]
      omega
  have hinit : Reachable (ConnWorld.machine w.nextLoop) (fun _ b => b = .establish)
      (ConnWorld.create (w.newConn low high).conn) :=
    .init ⟨w.hasConnectionCb, low, high, rfl⟩
  unfold newTcpConnection
  dsimp only
  split
  · refine ⟨fun j hj => ⟨hothers _ j hj, rfl⟩, _, List.getElem?_concat_length, ?_⟩
    have hview : view (tasksOf w.queues w.conns.length) w.conns.length
        { w.newConn low high with conn :=
          { (w.newConn low high).conn with stack := [.establishConnection] } }
        = { ConnWorld.create (w.newConn low high).conn with
          established := true
          conn := { (w.newConn low high).conn with stack := [.establishConnection] } } := by
      unfold view
      rw [h.tasksOf_new, h.tasksOf_new]
      rfl
    unfold viewOf
    dsimp only
    rw [hview]
    exact hinit.run (take_establish _ rfl rfl rfl rfl)
  · rename_i hmain
    refine ⟨fun j hj => ⟨hothers _ j hj, tasksOf_push_other (Ne.symm hj)⟩, _,
      List.getElem?_concat_length, ?_⟩
    have hid : (Task.establish w.conns.length).id = w.conns.length := rfl
    have hview : view (tasksOf (Function.update w.queues (w.newConn low high).loop
        (w.queues (w.newConn low high).loop ++ [.establish w.conns.length])) w.conns.length)
          w.conns.length (w.newConn low high)
        = ConnWorld.create (w.newConn low high).conn := by
      rw [tasksOf_push hid, view_establishes, h.tasksOf_new, List.nil_append,
        List.count_cons_self]
      · unfold view
        rw [h.tasksOf_new, h.tasksOf_new]
        rfl
      · rw [h.tasksOf_new]
        rfl
      · rw [h.tasksOf_new, List.nil_append, List.count_cons_of_ne (by simp)]
    unfold viewOf queueInLoop
    dsimp only
    rw [hview]
    exact hinit

/-- **The rule for what holds of every connection.** It is shown of a new connection, and kept by
the run that a step is of its own connection; the others are seen as before. -/
theorem each_step {P : ConnId → ServerConn → ConnWorld → Prop} {w w' : TcpServer} {a : Label}
    (hq : Queued w) (hf : ∀ sc ∈ w.conns, sc.conn.failed = none) (hs : ServerStep w a w')
    (h : ∀ i sc, w.conns[i]? = some sc → P i sc (w.viewOf i sc))
    (hnew : ∀ low high sc, a = .accept low high → w'.conns[w.conns.length]? = some sc →
      Reachable (ConnWorld.machine sc.loop) (fun _ b => b = .establish)
        (w'.viewOf w.conns.length sc) →
      P w.conns.length sc (w'.viewOf w.conns.length sc))
    (hown : ∀ i sc sc' bs, w.conns[i]? = some sc → w'.conns[i]? = some sc' →
      sc'.loop = sc.loop → NotAnswered sc sc' bs →
      Run (ConnWorld.machine sc.loop) (Takes a i (w.viewOf i sc)) (w.viewOf i sc) bs
        (w'.viewOf i sc') →
      P i sc (w.viewOf i sc) → P i sc' (w'.viewOf i sc')) :
    ∀ i sc, w'.conns[i]? = some sc → P i sc (w'.viewOf i sc) := by
  have hothers : ∀ {i : ConnId}, Only i w w' → ∀ j sc, j ≠ i → w'.conns[j]? = some sc →
      P j sc (w'.viewOf j sc) := by
    intro i honly j sc hj hsc
    obtain ⟨hconns, htasks⟩ := honly j hj
    rw [hconns] at hsc
    unfold viewOf
    rw [htasks]
    exact h j sc hsc
  rcases own_step hq hf hs with
    ⟨low, high, ha⟩ | ⟨i, sc, sc', bs, honly, hi, hi', hloop, hanswer, hrun⟩
  · obtain ⟨honly, sc, hi, hr⟩ := accept_step hq low high
    have hw : w' = w.newTcpConnection low high := by
      rw [ha] at hs
      cases hs
      rfl
    rw [← hw] at honly hi hr
    intro j scj hj
    by_cases he : j = w.conns.length
    · rw [he] at hj ⊢
      rw [hi] at hj
      rw [← Option.some.inj hj]
      exact hnew low high sc ha hi hr
    · exact hothers honly j scj he hj
  · intro j scj hj
    by_cases he : j = i
    · rw [he] at hj ⊢
      rw [hi'] at hj
      rw [← Option.some.inj hj]
      exact hown i sc sc' bs hi hi' hloop hanswer hrun (h i sc hi)
    · exact hothers honly j scj he hj

/-- Every connection is reached, in its view. -/
def Views (w : TcpServer) : Prop :=
  ∀ i sc, w.conns[i]? = some sc →
    Reachable (ConnWorld.machine sc.loop) ConnWorld.LoopOnly (w.viewOf i sc)

theorem views_step {w w' : TcpServer} {a : Label} (hq : Queued w) (hv : Views w)
    (hf : ∀ sc ∈ w.conns, sc.conn.failed = none) (hs : ServerStep w a w') : Views w' := by
  refine each_step
    (P := fun _ sc v => Reachable (ConnWorld.machine sc.loop) ConnWorld.LoopOnly v) hq hf hs hv
    (fun _ _ _ _ _ hr => hr.mono fun _ _ hb => by rw [hb]; rfl) ?_
  intro i sc sc' bs _ _ hloop _ hrun hr
  rw [hloop]
  exact hr.run (hrun.mono takes_loopOnly)

end TcpServer

end Windz
