import Mathlib.Data.Int.CardIntervalMod
import Windz.Lib.Trace
import Windz.Net.ConnServing
import Windz.Net.TcpServerAlive

/-!
# Every connection of a server gets on

What the server owes a connection is a functor in some queue, then a frame, then an
event of the trace. A loop that goes on takes its functors in order, and user code
that returns lets the frames run; so each accepted connection is established, and each
one that has called `close_cb_` is removed and destroyed.

To which loop a connection is given is a matter of its number.
-/

namespace Windz

open Lib

/-- What the frames owed to a connection put into the trace. -/
def Frame.logs : Frame → Option ConnEvent
  | .establishConnection => some .establishConnection
  | .destroyConnection => some .destroyConnection
  | _ => none

namespace TcpConnection

/-- The frame runs, or has run. -/
def Begun (c : TcpConnection) (f : Frame) (e : ConnEvent) : Prop := f ∈ c.stack ∨ e ∈ c.trace

section Begun

variable {c c' : TcpConnection} {a : LocalLabel} {out : Option Outgoing} {f : Frame}
  {e : ConnEvent} {rest : List Frame}

theorem begun_top (h : LocalStep c a c' out) (hs : c.stack = f :: rest) (hf : f.logs = some e) :
    c'.Begun f e := by
  -- no other frame is on top
  have hother : ∀ {g : Frame} {rest' : List Frame} {p : Prop}, c.stack = g :: rest' →
      g.logs = none → p := by
    intro g rest' p hg hn
    rw [hs] at hg
    rw [(List.cons.inj hg).1, hn] at hf
    exact absurd hf (by simp)
  have huser : ∀ {p : Prop}, c.atUser = true → p := by
    intro p hu
    unfold atUser at hu
    rw [hs] at hu
    cases f <;> first | exact absurd hu Bool.false_ne_true | exact absurd hf (by simp [Frame.logs])
  cases h with
  | control h =>
    cases h with
    | ignored hu | shutdown hu hs | forceClose hu hs => exact huser hu
    | @skip a g rest' h hskip =>
      refine hother h ?_
      cases g <;> first | rfl | exact hskip.elim
    | forceCloseInLoop h hs | drainedShutdown h hs | drainedClose h hs | eof h
    | notWritten h hne hpre => exact hother h rfl
  | send hu hs | forceCloseAfter hu => exact huser hu
  | establish h hconn =>
    rw [hs] at h
    rw [(List.cons.inj h).1] at hf
    rw [← Option.some.inj hf]
    refine .inr ?_
    unfold establishConnection
    rw [if_pos hconn]
    dsimp only
    split
    · exact List.mem_append_left _ (List.mem_append_right _ (List.mem_singleton_self _))
    · exact List.mem_append_right _ (List.mem_singleton_self _)
  | establishFails h hconn =>
    refine .inl ?_
    rw [hs]
    exact List.mem_cons_self
  | destroy h =>
    rw [hs] at h
    rw [(List.cons.inj h).1] at hf
    rw [← Option.some.inj hf]
    refine .inr ?_
    unfold destroyConnection
    dsimp only
    split
    · exact List.mem_append_left _ (List.mem_append_right _ (List.mem_singleton_self _))
    · exact List.mem_append_right _ (List.mem_singleton_self _)
  | _ h => exact hother h rfl

/-- **A frame that runs stays until it has run.** -/
theorem begun_localStep (h : LocalStep c a c' out) (hf : f.logs = some e) (hb : c.Begun f e) :
    c'.Begun f e := by
  rcases hb with hmem | he
  · cases hs : c.stack with
    | nil =>
      rw [hs] at hmem
      exact absurd hmem List.not_mem_nil
    | cons g rest =>
      rw [hs] at hmem
      rcases List.mem_cons.mp hmem with hg | hrest
      · rw [← hg] at hs
        exact begun_top h hs hf
      · exact .inl (rest_kept h hs hrest)
  · exact .inr (ConnWorld.trace_localStep h he)

end Begun

end TcpConnection

namespace ConnWorld

variable {w w' : ConnWorld} {a : Label} {f : Frame} {e : ConnEvent}

theorem begun_step (h : WorldStep w a w') (hf : f.logs = some e) (hb : w.conn.Begun f e) :
    w'.conn.Begun f e := by
  -- where the loop thread comes in, nothing runs
  have hran : w.conn.stack = [] → e ∈ w.conn.trace := by
    intro hs
    rcases hb with hmem | he
    · rw [hs] at hmem
      exact absurd hmem List.not_mem_nil
    · exact he
  cases h with
  | run hl =>
    rw [emit_conn]
    exact TcpConnection.begun_localStep hl hf hb
  | establish _ hs => exact .inr (hran hs)
  | functor _ hs => exact .inr (hran hs)
  | timer _ hs => exact .inr (hran hs)
  | event _ hs => exact .inr (hran hs)
  | _ => exact hb

theorem begun_run {tid : ThreadId} {as : List Label} (h : Run (machine tid) LoopOnly w as w')
    (hf : f.logs = some e) (hb : w.conn.Begun f e) : w'.conn.Begun f e :=
  h.invariant (I := fun w => w.conn.Begun f e) hb
    fun _ _ _ hu _ hs => begun_step (step_cases hs).2 hf hu

/-- What `EstablishConnection` was called for, it does. -/
theorem established_begun {tid : ThreadId} (h : Reachable (machine tid) LoopOnly w)
    (he : w.established = true) : w.conn.Begun .establishConnection .establishConnection := by
  refine h.invariant (I := fun w => w.established = true →
    w.conn.Begun .establishConnection .establishConnection) ?_ ?_ he
  · rintro w ⟨cb, low, high, rfl⟩ he
    exact absurd he Bool.false_ne_true
  · intro w a w' _ hi _ hs he
    have hstep := (step_cases hs).2
    by_cases hbefore : w.established = true
    · exact begun_step hstep rfl (hi hbefore)
    · -- the step that sets it
      cases hstep with
      | establish _ hs => exact .inl (List.mem_singleton_self _)
      | @run a conn out hl =>
        have hkept : ({ w with conn }.emit out).established = w.established := by
          unfold emit
          split <;> rfl
        rw [hkept] at he
        exact absurd he hbefore
      | _ => exact absurd he hbefore

end ConnWorld

namespace TcpServer

/-! ## One step -/

/-- **A step of the server is a run of every connection.** -/
theorem conn_run {w w' : TcpServer} {a : Label} (h : Alive w) (hs : w.step a = some w')
    {i : ConnId} {sc : ServerConn} (hi : w.conns[i]? = some sc) :
    ∃ sc' as, w'.conns[i]? = some sc' ∧ sc'.loop = sc.loop
      ∧ Run (ConnWorld.machine sc.loop) ConnWorld.LoopOnly (w.viewOf i sc) as
        (w'.viewOf i sc') := by
  obtain ⟨hf, hstep⟩ := step_cases hs
  have hother : ∀ {j : ConnId}, Only j w w' → i ≠ j →
      ∃ sc' as, w'.conns[i]? = some sc' ∧ sc'.loop = sc.loop
        ∧ Run (ConnWorld.machine sc.loop) ConnWorld.LoopOnly (w.viewOf i sc) as
          (w'.viewOf i sc') := by
    intro j honly hne
    obtain ⟨hconns, htasks⟩ := honly i hne
    refine ⟨sc, [], by rw [hconns]; exact hi, rfl, ?_⟩
    unfold viewOf
    rw [htasks]
    exact .nil
  rcases own_step h.queued hf hstep with
    ⟨low, high, ha⟩ | ⟨j, scj, sc', as, honly, hj, hj', hloop, -, hrun⟩
  · rw [ha] at hstep
    cases hstep
    exact hother (accept_step h.queued low high).1
      (Nat.ne_of_lt (List.getElem?_eq_some_iff.mp hi).1)
  · by_cases hij : i = j
    · rw [← hij] at hj hj' hrun
      rw [hi] at hj
      rw [← Option.some.inj hj] at hloop hrun
      exact ⟨sc', as, hj', hloop, hrun.mono takes_loopOnly⟩
    · exact hother honly hij

/-- The queues get longer at their ends. -/
def Grows (w w' : TcpServer) : Prop := ∀ loop, ∃ more, w'.queues loop = w.queues loop ++ more

theorem grows_refl (w : TcpServer) : Grows w w := fun _ => ⟨[], (List.append_nil _).symm⟩

theorem grows_push (w : TcpServer) (loop : LoopId) (t : Task) : Grows w (w.queueInLoop loop t) := by
  intro l
  by_cases hl : l = loop
  · rw [hl]
    exact ⟨[t], Function.update_self ..⟩
  · exact ⟨[], (Function.update_of_ne hl _ _).trans (List.append_nil _).symm⟩

theorem grows_removeInLoop (w : TcpServer) (i : ConnId) : Grows w (w.removeInLoop i) := by
  unfold removeInLoop
  split
  · exact grows_refl w
  · exact grows_push _ _ _

theorem grows_emit (w : TcpServer) (i : ConnId) (sc : ServerConn) (out : Option Outgoing) :
    Grows w (w.emit i sc out) := by
  cases out with
  | none => exact grows_refl w
  | some out =>
    cases out with
    | queueInLoop f => exact grows_push _ _ _
    | runAfter => exact grows_refl w
    | closeCb =>
      show Grows w (w.removeTcpConnection sc.loop i)
      unfold removeTcpConnection
      split
      · exact grows_removeInLoop w i
      · exact grows_push _ _ _

theorem grows_accept (w : TcpServer) (low high : Bool) : Grows w (w.newTcpConnection low high) := by
  unfold newTcpConnection
  dsimp only
  split
  · exact grows_refl w
  · exact grows_push _ _ _

/-- **A loop takes its functors in order**, and nobody else takes them. -/
theorem queue_step {w w' : TcpServer} {a : Label} (hs : ServerStep w a w') (loop : LoopId) :
    (a ≠ .functor loop ∧ ∃ more, w'.queues loop = w.queues loop ++ more)
      ∨ (a = .functor loop ∧ ∃ t rest more, w.queues loop = t :: rest
        ∧ w'.queues loop = rest ++ more) := by
  -- a loop runs its oldest functor, and what that does makes queues longer
  have hpops : ∀ {l : LoopId} {t : Task} {rest : List Task}, w.queues l = t :: rest →
      Grows { w with queues := Function.update w.queues l rest } w' →
      (Label.functor l ≠ .functor loop ∧ ∃ more, w'.queues loop = w.queues loop ++ more)
        ∨ (Label.functor l = .functor loop ∧ ∃ t rest more, w.queues loop = t :: rest
          ∧ w'.queues loop = rest ++ more) := by
    intro l t rest hq hgrows
    obtain ⟨more, hmore⟩ := hgrows loop
    dsimp only at hmore
    by_cases hl : loop = l
    · rw [hl] at hmore ⊢
      rw [Function.update_self] at hmore
      exact .inr ⟨rfl, t, rest, more, hq, hmore⟩
    · rw [Function.update_of_ne hl] at hmore
      exact .inl ⟨fun he => hl (Label.functor.inj he).symm, more, hmore⟩
  cases hs with
  | accept => exact .inl ⟨by simp, grows_accept w _ _ loop⟩
  | run hi hl => exact .inl ⟨by simp, grows_emit (w.setConn _ _) _ _ _ loop⟩
  | establish hq hi hs => exact hpops hq (grows_refl _)
  | functor hq hi hs => exact hpops hq (grows_refl _)
  | remove hq => exact hpops hq (grows_removeInLoop _ _)
  | timer hi ht hs => exact .inl ⟨by simp, grows_refl w loop⟩
  | event hi hr hs => exact .inl ⟨by simp, grows_refl w loop⟩

/-! ## Runs without an end -/

/-- User code returns, so that a loop gets out of its connections, and a loop that has functors goes
on running them. -/
structure GoesOn (s : Nat → TcpServer) (a : Nat → Label) : Prop where
  returns : ∀ n loop, ∃ m, n ≤ m ∧ (s m).idle loop = true
  runs : ∀ n loop, (s n).queues loop ≠ [] → ∃ m, n ≤ m ∧ a m = .functor loop

theorem alive_reachable {name : String} {cb : Bool} {loops : Nat} {ok : TcpServer → Label → Prop}
    {w : TcpServer} (h : Reachable (machine name cb loops) ok w) : Alive w := by
  refine h.invariant (I := Alive) ?_ (fun w a w' _ hi _ hs => alive_step hi hs)
  intro w hw
  rw [show w = create name cb loops from hw]
  exact alive_create

theorem idle_stack {w : TcpServer} {loop : LoopId} (h : w.idle loop = true) {i : ConnId}
    {sc : ServerConn} (hi : w.conns[i]? = some sc) (hl : sc.loop = loop) : sc.conn.stack = [] := by
  have hall := of_decide_eq_true (List.all_eq_true.mp h sc (List.mem_of_getElem? hi))
  rcases hall with hne | hs
  · exact absurd hl hne
  · exact hs

section Runs

variable {name : String} {cb : Bool} {loops : Nat} {s : Nat → TcpServer} {a : Nat → Label}

theorem conn_later (h : Trace (machine name cb loops) (fun _ _ => True) s a) {n m : Nat}
    (hle : n ≤ m) {i : ConnId} {sc : ServerConn} (hi : (s n).conns[i]? = some sc) :
    ∃ sc' as, (s m).conns[i]? = some sc' ∧ sc'.loop = sc.loop
      ∧ Run (ConnWorld.machine sc.loop) ConnWorld.LoopOnly ((s n).viewOf i sc) as
        ((s m).viewOf i sc') := by
  induction hle with
  | refl => exact ⟨sc, [], hi, rfl, .nil⟩
  | @step m hle ih =>
    obtain ⟨sc', as, hi', hloop, hrun⟩ := ih
    obtain ⟨sc'', bs, hi'', hloop', hrun'⟩ :=
      conn_run (alive_reachable (h.reachable m)) (h.step m) hi'
    rw [hloop] at hloop' hrun'
    exact ⟨sc'', as ++ bs, hi'', hloop', hrun.append hrun'⟩

theorem fifo (h : Trace (machine name cb loops) (fun _ _ => True) s a) (loop : LoopId) :
    Fifo (fun n => (s n).queues loop) (fun n => a n = .functor loop) :=
  fun n => queue_step (step_cases (h.step n)).2 loop

/-- What runs comes to its end. -/
theorem begun_ends (h : Trace (machine name cb loops) (fun _ _ => True) s a) (hg : GoesOn s a)
    {n : Nat} {i : ConnId} {sc : ServerConn} (hi : (s n).conns[i]? = some sc) {f : Frame}
    {e : ConnEvent} (hf : f.logs = some e) (hb : sc.conn.Begun f e) :
    ∃ m sc', n ≤ m ∧ (s m).conns[i]? = some sc' ∧ sc'.loop = sc.loop ∧ sc'.conn.stack = []
      ∧ e ∈ sc'.conn.trace := by
  obtain ⟨m, hm, hidle⟩ := hg.returns n sc.loop
  obtain ⟨sc', as, hi', hloop, hrun⟩ := conn_later h hm hi
  have hstack := idle_stack hidle hi' hloop
  rcases ConnWorld.begun_run hrun hf hb with hmem | he
  · have hmem : f ∈ sc'.conn.stack := hmem
    rw [hstack] at hmem
    exact absurd hmem List.not_mem_nil
  · exact ⟨m, sc', hm, hi', hloop, hstack, he⟩

/-- A task that is queued is run. -/
theorem task_runs (h : Trace (machine name cb loops) (fun _ _ => True) s a) (hg : GoesOn s a)
    {n : Nat} {loop : LoopId} {t : Task} (ht : t ∈ (s n).queues loop) :
    ∃ m rest, n ≤ m ∧ (s m).queues loop = t :: rest
      ∧ ServerStep (s m) (.functor loop) (s (m + 1)) := by
  obtain ⟨m, rest, hm, ha, hq⟩ := (fifo h loop).taken (fun n hne => hg.runs n loop hne) ht
  have hstep := (step_cases (h.step m)).2
  rw [ha] at hstep
  exact ⟨m, rest, hm, hq, hstep⟩

theorem establish_runs (h : Trace (machine name cb loops) (fun _ _ => True) s a) (hg : GoesOn s a)
    {n : Nat} {loop : LoopId} {i : ConnId} (ht : .establish i ∈ (s n).queues loop) :
    ∃ m sc, n ≤ m ∧ (s m).conns[i]? = some sc ∧ sc.conn.stack = [.establishConnection] := by
  obtain ⟨m, rest, hm, hq, hstep⟩ := task_runs h hg ht
  generalize hnext : s (m + 1) = w' at hstep
  cases hstep with
  | establish hq' hi hs =>
    rw [hq] at hq'
    cases hq'
    exact ⟨m + 1, _, Nat.le_succ_of_le hm, by rw [hnext]; exact getElem?_setConn hi, rfl⟩
  | functor hq' => rw [hq] at hq'; cases hq'
  | remove hq' => rw [hq] at hq'; cases hq'

theorem functor_runs (h : Trace (machine name cb loops) (fun _ _ => True) s a) (hg : GoesOn s a)
    {n : Nat} {loop : LoopId} {i : ConnId} {f : ConnFunctor}
    (ht : .functor i f ∈ (s n).queues loop) :
    ∃ m sc, n ≤ m ∧ (s m).conns[i]? = some sc
      ∧ sc.conn.stack = TcpConnection.functorFrames f := by
  obtain ⟨m, rest, hm, hq, hstep⟩ := task_runs h hg ht
  generalize hnext : s (m + 1) = w' at hstep
  cases hstep with
  | functor hq' hi hs =>
    rw [hq] at hq'
    cases hq'
    exact ⟨m + 1, _, Nat.le_succ_of_le hm, by rw [hnext]; exact getElem?_setConn hi, rfl⟩
  | establish hq' => rw [hq] at hq'; cases hq'
  | remove hq' => rw [hq] at hq'; cases hq'

theorem remove_runs (h : Trace (machine name cb loops) (fun _ _ => True) s a) (hg : GoesOn s a)
    {n : Nat} {loop : LoopId} {i : ConnId} (ht : .remove i ∈ (s n).queues loop) :
    ∃ m l, n ≤ m ∧ .functor i .destroyConnection ∈ (s m).queues l := by
  obtain ⟨m, rest, hm, hq, hstep⟩ := task_runs h hg ht
  have hqueued := (alive_reachable (h.reachable m)).queued
  generalize hnext : s (m + 1) = w' at hstep
  cases hstep with
  | @remove _ j rest' hq' =>
    rw [hq] at hq'
    cases hq'
    obtain ⟨sc, hi, -⟩ := hqueued.about loop (.remove i) (by rw [hq]; exact List.mem_cons_self)
    refine ⟨m + 1, sc.loop, Nat.le_succ_of_le hm, ?_⟩
    rw [hnext, removeInLoop_eq (by exact hi)]
    unfold queueInLoop
    dsimp only
    rw [Function.update_self]
    exact List.mem_append_right _ (List.mem_singleton_self _)
  | establish hq' => rw [hq] at hq'; cases hq'
  | functor hq' => rw [hq] at hq'; cases hq'

end Runs

/-! ## What is owed is in a queue -/

theorem mem_of_unestablished {w : TcpServer} {i : ConnId} {sc : ServerConn}
    (h : (w.viewOf i sc).established = false) : .establish i ∈ w.queues sc.loop := by
  have hcount : ((tasksOf w.queues i sc.loop).count (.establish i) == 0) = false := h
  have hmem := List.count_pos_iff.mp (Nat.pos_of_ne_zero (by simpa using hcount))
  exact (List.mem_filter.mp hmem).1

theorem mem_of_closes {w : TcpServer} {i : ConnId} {sc : ServerConn}
    (h : (w.viewOf i sc).closes ≠ 0) : .remove i ∈ w.queues mainLoop := by
  have hcount : (tasksOf w.queues i mainLoop).count (.remove i) ≠ 0 := h
  exact (List.mem_filter.mp (List.count_pos_iff.mp (Nat.pos_of_ne_zero hcount))).1

theorem mem_of_queue {w : TcpServer} {i : ConnId} {sc : ServerConn} {f : ConnFunctor}
    (h : f ∈ (w.viewOf i sc).queue) : .functor i f ∈ w.queues sc.loop := by
  obtain ⟨t, ht, hf⟩ := List.mem_filterMap.mp (show f ∈ (tasksOf w.queues i sc.loop).filterMap
    Task.connFunctor from h)
  obtain ⟨hmem, hid⟩ := List.mem_filter.mp ht
  cases t with
  | functor j g =>
    rw [show g = f from Option.some.inj hf, show j = i from of_decide_eq_true hid] at hmem
    exact hmem
  | establish j => exact absurd hf (by simp [Task.connFunctor])
  | remove j => exact absurd hf (by simp [Task.connFunctor])

/-! ## Turns -/

/-- The loop that connection `i` is given to. -/
def turn (loops : Nat) (i : ConnId) : LoopId := if loops = 0 then mainLoop else i % loops + 1

/-- The loops of the connections. -/
def given (w : TcpServer) : List LoopId := w.conns.map (·.loop)

/-- Everything about the turns is as before. -/
def SameTurns (w w' : TcpServer) : Prop :=
  w'.loops = w.loops ∧ w'.next = w.next ∧ w'.given = w.given

theorem given_setConn {w : TcpServer} {i : ConnId} {sc sc' : ServerConn}
    (hi : w.conns[i]? = some sc) (hl : sc'.loop = sc.loop) : (w.setConn i sc').given = w.given := by
  have hloop : (w.conns.map (·.loop))[i]? = some sc.loop := by rw [List.getElem?_map, hi]; rfl
  obtain ⟨hlt, he⟩ := List.getElem?_eq_some_iff.mp hloop
  unfold given setConn
  dsimp only
  rw [List.map_set, hl, ← he]
  exact List.set_getElem_self hlt

theorem sameTurns_setConn {w : TcpServer} {i : ConnId} {sc sc' : ServerConn}
    (hi : w.conns[i]? = some sc) (hl : sc'.loop = sc.loop) : SameTurns w (w.setConn i sc') :=
  ⟨rfl, rfl, given_setConn hi hl⟩

theorem sameTurns_removeInLoop {w : TcpServer} (i : ConnId) : SameTurns w (w.removeInLoop i) := by
  unfold removeInLoop
  split
  · exact ⟨rfl, rfl, rfl⟩
  · rename_i sc hi
    have hgiven : (w.setConn i { sc with removed := true }).given = w.given :=
      given_setConn hi rfl
    exact ⟨rfl, rfl, hgiven⟩

theorem sameTurns_emit {w : TcpServer} {i : ConnId} {sc : ServerConn} (hi : w.conns[i]? = some sc)
    (out : Option Outgoing) : SameTurns w (w.emit i sc out) := by
  cases out with
  | none => exact ⟨rfl, rfl, rfl⟩
  | some out =>
    cases out with
    | queueInLoop f => exact ⟨rfl, rfl, rfl⟩
    | runAfter => exact sameTurns_setConn hi rfl
    | closeCb =>
      show SameTurns w (w.removeTcpConnection sc.loop i)
      unfold removeTcpConnection
      split
      · exact sameTurns_removeInLoop i
      · exact ⟨rfl, rfl, rfl⟩

/-- Only an accepted connection takes a turn. -/
theorem turns_step {w w' : TcpServer} {a : Label} (hs : ServerStep w a w') :
    SameTurns w w' ∨ w'.loops = w.loops ∧ w'.next = w.nextIndex
      ∧ w'.given = w.given ++ [w.nextLoop] := by
  cases hs with
  | @accept low high =>
    refine .inr ?_
    unfold newTcpConnection given
    dsimp only
    split
    · exact ⟨rfl, rfl, by rw [List.map_append]; rfl⟩
    · exact ⟨rfl, rfl, List.map_append⟩
  | @run i sc a conn out hi hl =>
    have hi' : (w.setConn i { sc with conn }).conns[i]? = some { sc with conn } :=
      getElem?_setConn hi
    obtain ⟨hloops, hnext, hgiven⟩ := sameTurns_emit hi' out
    exact .inl ⟨hloops, hnext, hgiven.trans (given_setConn hi rfl)⟩
  | establish hq hi hs => exact .inl ⟨rfl, rfl, given_setConn hi rfl⟩
  | functor hq hi hs => exact .inl ⟨rfl, rfl, given_setConn hi rfl⟩
  | remove hq => exact .inl (sameTurns_removeInLoop _)
  | timer hi ht hs => exact .inl (sameTurns_setConn hi rfl)
  | event hi hr hs => exact .inl (sameTurns_setConn hi rfl)

/-- The loops have been given out in turn. -/
structure Turns (loops : Nat) (w : TcpServer) : Prop where
  pool : w.loops = loops
  next : loops ≠ 0 → w.next = w.given.length % loops
  given : w.given = (List.range w.given.length).map (turn loops)

theorem Turns.nextLoop_eq {loops : Nat} {w : TcpServer} (h : Turns loops w) :
    w.nextLoop = turn loops w.given.length := by
  unfold nextLoop turn
  rw [h.pool]
  split
  · rfl
  · rename_i hne
    rw [h.next hne]

/-- An index that goes back to 0 behind the last one counts modulo the length. -/
theorem index_wraps {k : Nat} (hk : k ≠ 0) (n : Nat) :
    (if n % k + 1 ≥ k then 0 else n % k + 1) = (n + 1) % k := by
  have hlt := Nat.mod_lt n (Nat.pos_of_ne_zero hk)
  rw [← Nat.mod_add_mod]
  split
  · rename_i hge
    rw [show n % k + 1 = k by omega, Nat.mod_self]
  · rename_i hlow
    exact (Nat.mod_eq_of_lt (Nat.not_le.mp hlow)).symm

theorem Turns.nextIndex_eq {loops : Nat} {w : TcpServer} (h : Turns loops w) (hne : loops ≠ 0) :
    w.nextIndex = (w.given.length + 1) % loops := by
  unfold nextIndex
  rw [h.pool, if_neg hne, h.next hne]
  exact index_wraps hne _

theorem turns_reachable {name : String} {cb : Bool} {loops : Nat} {ok : TcpServer → Label → Prop}
    {w : TcpServer} (h : Reachable (machine name cb loops) ok w) : Turns loops w := by
  refine h.invariant (I := Turns loops) ?_ ?_
  · intro w hw
    rw [show w = create name cb loops from hw]
    exact ⟨rfl, fun _ => (Nat.zero_mod _).symm, rfl⟩
  · intro w a w' _ hi _ hs
    rcases turns_step (step_cases hs).2 with ⟨hl, hn, hg⟩ | ⟨hl, hn, hg⟩
    · exact ⟨hl.trans hi.pool, by rw [hn, hg]; exact hi.next, by rw [hg]; exact hi.given⟩
    · refine ⟨hl.trans hi.pool, fun hne => ?_, ?_⟩
      · rw [hn, hg, List.length_append, List.length_singleton]
        exact hi.nextIndex_eq hne
      · rw [hg, List.length_append, List.length_singleton, List.range_succ, List.map_append,
          ← hi.given, hi.nextLoop_eq]
        rfl

/-- A connection belongs to the loop whose turn it was. -/
theorem Turns.loop_eq {loops : Nat} {w : TcpServer} (h : Turns loops w) {i : ConnId}
    {sc : ServerConn} (hi : w.conns[i]? = some sc) : sc.loop = turn loops i := by
  have hgiven : w.given[i]? = some sc.loop := by
    unfold TcpServer.given
    rw [List.getElem?_map, hi]
    rfl
  have hlt : i < w.given.length := (List.getElem?_eq_some_iff.mp hgiven).1
  rw [h.given, List.getElem?_map, List.getElem?_range hlt] at hgiven
  exact (Option.some.inj hgiven).symm

/-- **Connections are handed out in turn.** In every reachable state connection `i` belongs to the
loop whose turn it was, and of `n` connections each loop of the pool was given `n / loops`, the
first `n % loops` of them one more. -/
theorem connections_go_round {name : String} {cb : Bool} {loops : Nat}
    {ok : TcpServer → Label → Prop} {w : TcpServer} (h : Reachable (machine name cb loops) ok w) :
    (∀ (i : ConnId) (sc : ServerConn), w.conns[i]? = some sc → sc.loop = turn loops i)
    ∧ ∀ l, l < loops → w.conns.countP (fun sc => sc.loop = l + 1)
        = w.conns.length / loops + if l < w.conns.length % loops then 1 else 0 := by
  have ht := turns_reachable h
  have hlength : w.given.length = w.conns.length := List.length_map _
  refine ⟨fun i sc hi => ht.loop_eq hi, fun l hl => ?_⟩
  have hpos : 0 < loops := Nat.lt_of_le_of_lt (Nat.zero_le l) hl
  have hcount := Nat.count_modEq_card w.conns.length hpos l
  rw [Nat.mod_eq_of_lt hl] at hcount
  rw [← hcount]
  calc w.conns.countP (fun sc => sc.loop = l + 1)
      = w.given.countP (fun loop => loop = l + 1) := by unfold given; rw [List.countP_map]; rfl
    _ = (List.range w.conns.length).countP (fun i => turn loops i = l + 1) := by
        rw [ht.given, List.countP_map, hlength]
        rfl
    _ = Nat.count (fun i => i ≡ l [MOD loops]) w.conns.length := by
        unfold Nat.count
        refine List.countP_congr fun i _ => ?_
        have hturn : turn loops i = i % loops + 1 := if_neg (Nat.pos_iff_ne_zero.mp hpos)
        have hclass : i ≡ l [MOD loops] ↔ i % loops = l := by
          show i % loops = l % loops ↔ _
          rw [Nat.mod_eq_of_lt hl]
        rw [decide_eq_true_eq, decide_eq_true_eq, hturn]
        exact Nat.add_right_cancel_iff.trans hclass.symm

theorem connections_go_round_small : ∃ w, Reachable (machine "S" true 2) (fun _ _ => True) w
    ∧ w.conns.length = 3 ∧ w.conns.countP (fun sc => sc.loop = 1) = 2 := by
  have hexec : ((machine "S" true 2).exec (fun _ _ => True) (create "S" true 2)
      [.accept false false, .accept true false, .accept false true]).map
        (fun w => decide (w.conns.length = 3)) = some true := by decide +kernel
  obtain ⟨w, hr, hp⟩ := Machine.exec_reachable rfl hexec
  have hlength := of_decide_eq_true hp
  refine ⟨w, hr, hlength, ?_⟩
  have hcount := (connections_go_round hr).2 0 (by decide)
  rw [hlength] at hcount
  exact hcount

/-! ## Connections get on -/

/-! A run without an end: two connections; the peer of the first closes it, and the user goes on
calling `Shutdown` of it. -/

/-- Two connections are accepted; the first is closed by its peer, the second goes on. -/
def closesAndGoesOn (n : Nat) : Label :=
  ([.accept false false, .accept false false, .functor 1, .functor 2, .run 0 .next, .run 1 .next,
    .run 0 .callbackReturns, .run 1 .callbackReturns, .event 0 false true false, .run 0 .next,
    .run 0 (.read .eof), .run 0 .next, .functor 0, .functor 1, .run 0 .next,
    .run 0 .callbackReturns, .run 0 .next] : List Label).getD n (.run 0 (.call .shutdown))

/-- The states of that run, as far as they are not repeated. -/
def closesStates : Nat → TcpServer :=
  statesOf (machine "S" true 2) (create "S" true 2) closesAndGoesOn

/-- `Shutdown` of a connection that is not connected changes nothing. -/
theorem shutdown_ignored {w : TcpServer} {i : ConnId} {sc : ServerConn}
    (hf : w.conns.any (·.conn.failed.isSome) = false) (hi : w.conns[i]? = some sc)
    (hu : sc.conn.atUser = true) (hs : sc.conn.state ≠ .kConnected) :
    w.step (.run i (.call .shutdown)) = some w := by
  have hlocal : sc.conn.localStep (.call .shutdown) = some (sc.conn, none) := by
    unfold TcpConnection.localStep
    dsimp only
    rw [if_pos hu]
    exact congrArg some (if_neg hs)
  have hset : w.setConn i sc = w := by
    obtain ⟨hlt, he⟩ := List.getElem?_eq_some_iff.mp hi
    unfold setConn
    rw [← he, List.set_getElem_self hlt]
  unfold step
  rw [hf, if_neg Bool.false_ne_true]
  dsimp only
  rw [hi, Option.bind_some, hlocal]
  exact congrArg some hset

theorem closesStates_last : closesStates 18 = closesStates 17 := by
  have hlast : ((closesStates 17).conns[0]?.map fun sc => decide
      ((closesStates 17).conns.any (·.conn.failed.isSome) = false ∧ sc.conn.atUser = true
        ∧ sc.conn.state ≠ .kConnected)) = some true := by decide +kernel
  obtain ⟨sc, hi, hall⟩ := Option.map_eq_some_iff.mp hlast
  obtain ⟨hf, hu, hs⟩ := of_decide_eq_true hall
  have hlabel : closesAndGoesOn 17 = .run 0 (.call .shutdown) := rfl
  refine statesOf_same (n := 17) ?_
  rw [hlabel]
  exact shutdown_ignored hf hi hu hs

theorem closesAndGoesOn_trace :
    Trace (machine "S" true 2) (fun _ _ => True) (fun n => closesStates (fold 17 1 n))
      (fun n => closesAndGoesOn (fold 17 1 n)) :=
  .rounds (by decide) rfl (fun _ _ => trivial) (by decide +kernel) closesStates_last

theorem closes_goesOn : GoesOn (fun n => closesStates (fold 17 1 n))
    (fun n => closesAndGoesOn (fold 17 1 n)) where
  returns n loop := by
    obtain ⟨m, hm, hfold⟩ := fold_again (show 17 ≤ 17 by decide) (show 17 < 17 + 1 by decide) n
    have hall : (closesStates 17).conns.all (fun sc => sc.conn.stack = []) = true := by
      decide +kernel
    refine ⟨m, hm, ?_⟩
    rw [hfold]
    refine List.all_eq_true.mpr fun sc hsc => decide_eq_true (.inr ?_)
    exact of_decide_eq_true (List.all_eq_true.mp hall sc hsc)
  runs n loop hne := by
    have hlow : loop < 3 := by
      obtain ⟨t, ht⟩ := List.exists_mem_of_ne_nil _ hne
      have hreach := closesAndGoesOn_trace.reachable n
      obtain ⟨sc, hi, hloop⟩ := (alive_reachable hreach).queued.about loop t ht
      have hturn := (turns_reachable hreach).loop_eq hi
      have hmod := Nat.mod_lt t.id (show 0 < 2 by decide)
      have hserved : sc.loop < 3 := by
        rw [hturn]
        exact Nat.succ_lt_succ hmod
      rw [hloop]
      cases t with
      | remove i => exact (show 0 < 3 by decide)
      | establish i => exact hserved
      | functor i f => exact hserved
    have hplaces : ∀ i < 18, ∀ loop < 3, (closesStates i).queues loop ≠ [] →
        ∃ j < 17, i ≤ j ∧ closesAndGoesOn j = .functor loop := by decide +kernel
    obtain ⟨j, hj, hle, ha⟩ := hplaces _ (fold_lt (by decide) n) loop hlow hne
    -- no place is repeated before the last
    have hn := fold_eq_self (Nat.lt_of_le_of_lt hle hj)
    refine ⟨j, by omega, ?_⟩
    rw [show fold 17 1 j = j from if_pos hj]
    exact ha

/-- **Each accepted connection is established**, in the loop it was given to, if the loops go on. -/
theorem accepted_is_established (name : String) (cb : Bool) (loops : Nat) (s : Nat → TcpServer)
    (a : Nat → Label) (h : Trace (machine name cb loops) (fun _ _ => True) s a) (hg : GoesOn s a)
    (n : Nat) (i : ConnId) (sc : ServerConn) (hi : (s n).conns[i]? = some sc) :
    ∃ m sc', n ≤ m ∧ (s m).conns[i]? = some sc' ∧ sc'.loop = sc.loop
      ∧ .establishConnection ∈ sc'.conn.trace := by
  have hreach := (alive_reachable (h.reachable n)).views i sc hi
  cases he : ((s n).viewOf i sc).established with
  | true =>
    obtain ⟨m, sc', hm, hi', hloop, -, htrace⟩ :=
      begun_ends h hg hi rfl (ConnWorld.established_begun hreach he)
    exact ⟨m, sc', hm, hi', hloop, htrace⟩
  | false =>
    obtain ⟨m, sc', hm, hi', hstack⟩ := establish_runs h hg (mem_of_unestablished he)
    have hbegun : sc'.conn.Begun .establishConnection .establishConnection := by
      refine .inl ?_
      rw [hstack]
      exact List.mem_singleton_self _
    obtain ⟨m', sc'', hm', hi'', hloop, -, htrace⟩ := begun_ends h hg hi' rfl hbegun
    obtain ⟨scm, as, him, hloopm, -⟩ := conn_later h hm hi
    rw [hi'] at him
    rw [← Option.some.inj him] at hloopm
    exact ⟨m', sc'', Nat.le_trans hm hm', hi'', hloop.trans hloopm, htrace⟩

theorem accepted_is_established_small : ∃ m sc, 3 ≤ m
    ∧ (closesStates (fold 17 1 m)).conns[1]? = some sc ∧ sc.loop = 2
    ∧ .establishConnection ∈ sc.conn.trace := by
  have hi : ((closesStates 3).conns[1]?.map fun sc => decide (sc.loop = 2)) = some true := by
    decide +kernel
  obtain ⟨sc, hi, hl⟩ := Option.map_eq_some_iff.mp hi
  rw [← of_decide_eq_true hl]
  exact accepted_is_established "S" true 2 _ _ closesAndGoesOn_trace closes_goesOn 3 1 sc hi

/-- `DestroyConnection` that is in a queue runs. -/
theorem destroy_runs {name : String} {cb : Bool} {loops : Nat} {s : Nat → TcpServer}
    {a : Nat → Label} (h : Trace (machine name cb loops) (fun _ _ => True) s a) (hg : GoesOn s a)
    {n : Nat} {i : ConnId} {loop : LoopId}
    (ht : .functor i .destroyConnection ∈ (s n).queues loop) :
    ∃ m sc, n ≤ m ∧ (s m).conns[i]? = some sc ∧ sc.conn.stack = []
      ∧ .destroyConnection ∈ sc.conn.trace := by
  obtain ⟨m, sc, hm, hi, hstack⟩ := functor_runs h hg ht
  have hbegun : sc.conn.Begun .destroyConnection .destroyConnection := by
    refine .inl ?_
    rw [hstack]
    exact List.mem_singleton_self _
  obtain ⟨m', sc', hm', hi', -, hstack', htrace⟩ := begun_ends h hg hi rfl hbegun
  exact ⟨m', sc', Nat.le_trans hm hm', hi', hstack', htrace⟩

/-- Nothing is left of a connection that is destroyed: it is out of the map, and the handlers of its
channel are cleared. -/
theorem destroyed_gone {w : TcpServer} (h : Alive w) {i : ConnId} {sc : ServerConn}
    (hi : w.conns[i]? = some sc) (hstack : sc.conn.stack = [])
    (htrace : .destroyConnection ∈ sc.conn.trace) :
    (∀ n, w.connections n ≠ some i) ∧ sc.conn.channel.handlers = false := by
  have hreach := h.views i sc hi
  have hremoved : sc.removed = true := by
    cases hr : sc.removed with
    | true => rfl
    | false => exact absurd htrace (ConnWorld.not_mem_of_destroys (h.unremoved i sc hi hr))
  constructor
  · intro n hn
    obtain ⟨sc', hi', -, hr⟩ := h.map n i hn
    rw [hi] at hi'
    rw [← Option.some.inj hi', hremoved] at hr
    exact absurd hr (by simp)
  · cases ConnWorld.course_reachable (hreach.mono ConnWorld.noLateAssign_of_loopOnly) with
    | running _ _ hnot => exact absurd htrace hnot
    | called _ _ hnot => exact absurd htrace hnot
    | finished hfin _ =>
      rcases hfin.handlers with hh | ⟨rest, hs | hs⟩
      · exact hh
      · exact absurd (hstack.symm.trans hs) (by simp)
      · exact absurd (hstack.symm.trans hs) (by simp)

/-- **Each connection that has called `close_cb_` is destroyed** and gone from the server, if the
loops go on. -/
theorem closed_is_destroyed (name : String) (cb : Bool) (loops : Nat) (s : Nat → TcpServer)
    (a : Nat → Label) (h : Trace (machine name cb loops) (fun _ _ => True) s a) (hg : GoesOn s a)
    (n : Nat) (i : ConnId) (sc : ServerConn) (hi : (s n).conns[i]? = some sc)
    (hclose : .closeCb ∈ sc.conn.trace) :
    ∃ m sc', n ≤ m ∧ (s m).conns[i]? = some sc' ∧ .destroyConnection ∈ sc'.conn.trace
      ∧ (∀ name, (s m).connections name ≠ some i) ∧ sc'.conn.channel.handlers = false := by
  have hdestroyed : ∃ m sc', n ≤ m ∧ (s m).conns[i]? = some sc' ∧ sc'.conn.stack = []
      ∧ .destroyConnection ∈ sc'.conn.trace := by
    have hcount := ConnWorld.closes_add_destroys ((alive_reachable (h.reachable n)).views i sc hi)
    have hpos : 0 < ((s n).viewOf i sc).conn.trace.count .closeCb := List.count_pos_iff.mpr hclose
    unfold ConnWorld.destroys at hcount
    by_cases hcloses : ((s n).viewOf i sc).closes = 0
    · by_cases hqueue : .destroyConnection ∈ ((s n).viewOf i sc).queue
      · exact destroy_runs h hg (mem_of_queue hqueue)
      · -- `DestroyConnection` runs by now, or has run
        have hbegun : sc.conn.Begun .destroyConnection .destroyConnection := by
          rw [List.count_eq_zero.mpr hqueue] at hcount
          by_cases hstack : .destroyConnection ∈ sc.conn.stack
          · exact .inl hstack
          · have hzero : ((s n).viewOf i sc).conn.stack.count .destroyConnection = 0 :=
              List.count_eq_zero.mpr hstack
            refine .inr (List.count_pos_iff.mp ?_)
            show 0 < ((s n).viewOf i sc).conn.trace.count .destroyConnection
            omega
        obtain ⟨m, sc', hm, hi', -, hstack, htrace⟩ := begun_ends h hg hi rfl hbegun
        exact ⟨m, sc', hm, hi', hstack, htrace⟩
    · obtain ⟨m, l, hm, ht⟩ := remove_runs h hg (mem_of_closes hcloses)
      obtain ⟨m', sc', hm', hi', hstack, htrace⟩ := destroy_runs h hg ht
      exact ⟨m', sc', Nat.le_trans hm hm', hi', hstack, htrace⟩
  obtain ⟨m, sc', hm, hi', hstack, htrace⟩ := hdestroyed
  obtain ⟨hmap, hhandlers⟩ := destroyed_gone (alive_reachable (h.reachable m)) hi' hstack htrace
  exact ⟨m, sc', hm, hi', htrace, hmap, hhandlers⟩

theorem closed_is_destroyed_small : ∃ m sc, 12 ≤ m
    ∧ (closesStates (fold 17 1 m)).conns[0]? = some sc ∧ .destroyConnection ∈ sc.conn.trace
    ∧ (∀ name, (closesStates (fold 17 1 m)).connections name ≠ some 0)
    ∧ sc.conn.channel.handlers = false := by
  have hi : ((closesStates 12).conns[0]?.map fun sc => decide (.closeCb ∈ sc.conn.trace))
      = some true := by decide +kernel
  obtain ⟨sc, hi, hclose⟩ := Option.map_eq_some_iff.mp hi
  exact closed_is_destroyed "S" true 2 _ _ closesAndGoesOn_trace closes_goesOn 12 0 sc hi
    (of_decide_eq_true hclose)

end TcpServer

end Windz
