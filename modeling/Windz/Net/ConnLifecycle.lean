import Windz.Net.ConnStages

/-!
# A connection lives its life

In runs of the loop thread alone every step leaves the connection in its stage or takes it
to the next, so its trace is the beginning of a life.
-/

namespace Windz

open Lib

namespace ConnWorld

/-! ## Every step -/

/-- A step with a frame of an open connection on top that goes on in that phase. -/
theorem Stage.run {w : ConnWorld} {p : Phase} (hn : Nested w.conn.stack) (hs : Stage w p)
    {f : Frame} {rest : List Frame} (h : w.conn.stack = f :: rest)
    (hf : ∀ q, FrameIn q f → q = .opened) {c : TcpConnection} {out : Option Outgoing}
    (hcb : c.hasConnectionCb = w.conn.hasConnectionCb)
    (htrace : c.trace = w.conn.trace
      ∨ ∃ e, c.trace = w.conn.trace ++ [e] ∧ ∀ cb, Phase.next cb .opened e = some .opened)
    (hstack : ∃ pre, c.stack = pre ++ rest ∧ ∀ f ∈ pre, FrameIn .opened f ∧ f ≠ .shutdownAssign)
    (hstate : c.state = w.conn.state ∨ c.state ≠ .kConnecting)
    (hfailed : c.failed = w.conn.failed)
    (hout : out = none ∨ out = some .runAfter ∨ out = some (.queueInLoop .lowWatermark)
      ∨ out = some (.queueInLoop .forceCloseInLoop)) :
    ∃ p', Stage ({ w with conn := c }.emit out) p' := by
  have hp := hs.opened_of_top h hf
  rw [hp] at hs
  obtain ⟨pre, hpre, hall⟩ := hstack
  rw [h] at hn
  refine ⟨.opened, Stage.emit (hs.open ?_ ?_ ?_ ?_ hfailed) hout⟩
  · rw [hcb]
    rcases htrace with ht | ⟨e, ht, he⟩
    · rw [ht]
      exact hs.life
    · rw [ht]
      exact hs.life.snoc (he _)
  · intro g hg
    rw [hpre] at hg
    rcases List.mem_append.mp hg with hg | hg
    · exact (hall g hg).1
    · exact hs.rest h g hg
  · rcases hstate with hst | hst
    · rw [hst]
      exact fun hc => by simpa using hs.connecting.mp hc
    · exact hst
  · intro hmem
    rw [hpre] at hmem
    rcases List.mem_append.mp hmem with hmem | hmem
    · exact absurd rfl (hall _ hmem).2
    · exact absurd hmem (not_assign hn)

theorem low_out {low : Option Outgoing} (h : low = none ∨ low = some (.queueInLoop .lowWatermark)) :
    low = none ∨ low = some .runAfter ∨ low = some (.queueInLoop .lowWatermark)
      ∨ low = some (.queueInLoop .forceCloseInLoop) := by
  rcases h with h | h
  · exact .inl h
  · exact .inr (.inr (.inl h))

theorem pre_frames {pre : List Frame} {call : SendCall} {remain : List OutByte}
    (hpre : pre = [] ∨ pre = [.user]) :
    ∀ f ∈ pre ++ [.bufferRest call remain], FrameIn .opened f ∧ f ≠ .shutdownAssign := by
  rcases hpre with hp | hp
  · rw [hp]
    simp [FrameIn]
  · rw [hp]
    simp [FrameIn]

theorem stage_localStep {w : ConnWorld} {p : Phase} {c : TcpConnection} {a : LocalLabel}
    {out : Option Outgoing} (hn : Nested w.conn.stack) (hs : Stage w p)
    (h : TcpConnection.LocalStep w.conn a c out) :
    ∃ p', Stage ({ w with conn := c }.emit out) p' := by
  cases h with
  | control h => exact ⟨p, stage_control hn hs h⟩
  | send hu hst =>
    have hp := hs.opened_of_state (.inl hst)
    rw [hp] at hs
    refine ⟨.opened, hs.open hs.life (frames_cons (by simp [FrameIn]) hs.frames) ?_ ?_ rfl⟩
    · exact fun hc => by simpa using hs.connecting.mp hc
    · intro hmem
      rcases List.mem_cons.mp hmem with he | hmem
      · exact absurd he (by simp)
      · exact absurd hmem (atUser_not_assign hn hu)
  | forceCloseAfter hu => exact ⟨p, hs.emit (.inr (.inl rfl))⟩
  | establish h hst => exact ⟨.opened, stage_establish hn hs h hst⟩
  | establishFails h hst =>
    have hp : p = .fresh := by
      have htop := hs.top h
      cases p <;> simp [FrameIn] at htop ⊢
    exact absurd (hs.connecting.mpr hp) hst
  | destroy h => exact ⟨.destroyed, stage_destroy hn hs h⟩
  | destroyClose h =>
    have hpop := hs.pop hn h (by simp)
    have hp : p = .destroyed := by
      have htop := hs.top h
      cases p <;> simp [FrameIn] at htop ⊢
    rw [hp] at hpop
    exact ⟨.destroyed, { hpop with
      unregistered := fun he => absurd he (by simp)
      disconnected := fun he => hpop.disconnected he }⟩
  | closeFails h => exact ⟨p, { hs with failed := .inr rfl }⟩
  | discard h hst =>
    exact hs.run hn h (opened_of_frame (by simp)) rfl (.inl rfl) ⟨[], rfl, by simp⟩ (.inl rfl) rfl
      (.inl rfl)
  | direct h hst hw ho =>
    exact hs.run hn h (opened_of_frame (by simp)) rfl (.inl rfl) ⟨[_], rfl, by simp [FrameIn]⟩
      (.inl rfl) rfl (.inl rfl)
  | queue h hst hne hpre =>
    exact hs.run hn h (opened_of_frame (by simp)) rfl (.inl rfl)
      ⟨_, (List.append_assoc _ [_] _).symm, pre_frames hpre⟩ (.inl rfl) rfl (.inl rfl)
  | queueEmpty h hst hne =>
    exact hs.run hn h (opened_of_frame (by simp)) rfl (.inl rfl) ⟨[], rfl, by simp⟩ (.inl rfl) rfl
      (.inl rfl)
  | wrote h hshut hne hpre hlow =>
    exact hs.run hn h (opened_of_frame (by simp)) rfl (.inl rfl)
      ⟨_, (List.append_assoc _ [_] _).symm, pre_frames hpre⟩ (.inl rfl) rfl (low_out hlow)
  | wroteAll h hshut hlow =>
    exact hs.run hn h (opened_of_frame (by simp)) rfl (.inl rfl) ⟨[], rfl, by simp⟩ (.inl rfl) rfl
      (low_out hlow)
  | lost h hr =>
    exact hs.run hn h (opened_of_frame (by simp)) rfl (.inl rfl) ⟨[], rfl, by simp⟩ (.inl rfl) rfl
      (.inl rfl)
  | buffer h =>
    unfold TcpConnection.bufferRest
    dsimp only
    split
    · exact hs.run hn h (opened_of_frame (by simp)) rfl (.inl rfl) ⟨[], rfl, by simp⟩ (.inl rfl) rfl
        (.inl rfl)
    · exact hs.run hn h (opened_of_frame (by simp)) rfl (.inl rfl) ⟨[], rfl, by simp⟩ (.inl rfl) rfl
        (.inl rfl)
  | shutdownAssign h =>
    exact hs.run hn h (opened_of_frame (by simp)) rfl (.inl rfl) ⟨[_], rfl, by simp [FrameIn]⟩
      (.inr (by simp)) rfl (.inl rfl)
  | shut h hw =>
    exact hs.run hn h (opened_of_frame (by simp)) rfl (.inl rfl) ⟨[], rfl, by simp⟩ (.inl rfl) rfl
      (.inl rfl)
  | forceCloseAssign h =>
    exact hs.run hn h (opened_of_frame (by simp)) rfl (.inl rfl) ⟨[], rfl, by simp⟩
      (.inr (by simp)) rfl (.inr (.inr (.inr rfl)))
  | handleClosePending h hst hw =>
    exact hs.run hn h (opened_of_frame (by simp)) rfl (.inr ⟨_, rfl, fun _ => rfl⟩)
      ⟨[], rfl, by simp⟩ (.inr (by simp)) rfl (.inl rfl)
  | handleClose h hst hw => exact ⟨.closed, stage_close hn hs h⟩
  | handleCloseFails h hst =>
    have hp := hs.opened_of_top h (opened_of_frame (by simp))
    exact absurd ((hs.connecting.mp hst).symm.trans hp) (by simp)
  | handleRead h =>
    exact hs.run hn h (opened_of_frame (by simp)) rfl (.inr ⟨_, rfl, fun _ => rfl⟩)
      ⟨[_], rfl, by simp [FrameIn]⟩ (.inl rfl) rfl (.inl rfl)
  | data h =>
    exact hs.run hn h (opened_of_frame (by simp)) rfl (.inr ⟨_, rfl, fun _ => rfl⟩)
      ⟨[_], rfl, by simp [FrameIn]⟩ (.inl rfl) rfl (.inl rfl)
  | @handleWrite pre rest h hpre =>
    have htop := hs.top h
    cases p with
    | opened =>
      rw [h] at hn
      refine ⟨.opened, hs.open (hs.life.snoc rfl) ?_ ?_ ?_ rfl⟩
      · rcases hpre with ⟨hp, _⟩ | ⟨hp, _⟩
        · rw [hp]
          exact hs.rest h
        · rw [hp]
          exact frames_cons (by simp [FrameIn]) (hs.rest h)
      · exact fun hc => by simpa using hs.connecting.mp hc
      · rcases hpre with ⟨hp, _⟩ | ⟨hp, _⟩
        · rw [hp]
          exact fun hmem => absurd hmem (not_assign hn)
        · rw [hp]
          exact fun hmem => (List.mem_cons.mp hmem).elim (fun he => absurd he (by simp))
            fun hmem => absurd hmem (not_assign hn)
    | closed =>
      -- nothing is written any more
      have hw := (hs.disconnected (.inl rfl)).2.2
      have hnil : pre = [] := by
        rcases hpre with ⟨hp, _⟩ | ⟨_, hw'⟩
        · exact hp
        · exact absurd (hw.symm.trans hw') Bool.false_ne_true
      rw [hnil]
      exact ⟨.closed, { hs.pop hn h (by simp) with life := hs.life.snoc rfl }⟩
    | fresh => simp [FrameIn] at htop
    | destroyed => simp [FrameIn] at htop
    | announcing => exact htop.elim
    | announcingEnd => exact htop.elim
  | wroteSome h hshut hout hne =>
    exact hs.run hn h (opened_of_frame (by simp)) rfl (.inl rfl) ⟨[], rfl, by simp⟩ (.inl rfl) rfl
      (.inl rfl)
  | drained h hshut hout hlow =>
    exact hs.run hn h (opened_of_frame (by simp)) rfl (.inl rfl) ⟨[_, _], rfl, by simp [FrameIn]⟩
      (.inl rfl) rfl (low_out hlow)

/-- The loop thread comes into the connection. -/
theorem Stage.enter {w : ConnWorld} {p : Phase} (hs : Stage w p) (hstack : w.conn.stack = [])
    {frames : List Frame} (hframes : ∀ f ∈ frames, FrameIn p f)
    (hest : .establishConnection ∉ frames) (hassign : .shutdownAssign ∉ frames)
    (hdestroy : .destroyConnection ∉ frames) :
    Stage { w with conn := { w.conn with stack := frames } } p := by
  refine hs.restack hframes (fun h => absurd h hest) (fun h => absurd h hassign) ?_
  rw [hstack, List.count_eq_zero.mpr hdestroy]
  rfl

theorem frameIn_user {w : ConnWorld} {p : Phase} (hs : Stage w p) :
    FrameIn p .user ∧ FrameIn p .forceCloseInLoop := by
  cases p with
  | announcing => exact absurd rfl hs.settled.1
  | announcingEnd => exact absurd rfl hs.settled.2
  | _ => simp [FrameIn]

theorem stage_functor {w : ConnWorld} {p : Phase} (hs : Stage w p) {f : ConnFunctor}
    {rest : List ConnFunctor} (hq : w.queue = f :: rest) (hstack : w.conn.stack = []) :
    Stage { w with
      queue := rest
      conn := { w.conn with stack := TcpConnection.functorFrames f } } p := by
  have hqueue := hs.queue
  have howed := hs.owed
  rw [hq] at hqueue howed
  obtain ⟨hf, hrest⟩ := List.forall_mem_cons.mp hqueue
  have hdrop : f ≠ .destroyConnection → Stage { w with queue := rest } p := fun hne => { hs with
    queue := hrest
    owed := by rw [← howed, List.count_cons_of_ne hne] }
  rcases hf with hf | hf | hf
  · have hdrop := hdrop (by rw [hf]; simp)
    rw [hf]
    refine hdrop.enter hstack ?_ (by simp [TcpConnection.functorFrames])
      (by simp [TcpConnection.functorFrames]) (by simp [TcpConnection.functorFrames])
    exact fun g hg => by rw [List.mem_singleton.mp hg]; exact (frameIn_user hs).1
  · have hdrop := hdrop (by rw [hf]; simp)
    rw [hf]
    refine hdrop.enter hstack ?_ (by simp [TcpConnection.functorFrames])
      (by simp [TcpConnection.functorFrames]) (by simp [TcpConnection.functorFrames])
    exact fun g hg => by rw [List.mem_singleton.mp hg]; exact (frameIn_user hs).2
  · -- the `DestroyConnection` that is owed
    rw [hf, List.count_cons_self] at howed
    rw [hstack] at howed
    have hp : p = .closed := by
      by_contra hp
      rw [if_neg hp] at howed
      omega
    rw [hf]
    rw [hp] at hs howed ⊢
    refine { hs with
      frames := ?_
      established := fun he => absurd (hs.established he).1 (by simp)
      assign := by simp [TcpConnection.functorFrames]
      queue := hrest
      owed := ?_ }
    · intro g hg
      rw [List.mem_singleton.mp hg]
      simp [FrameIn]
    · simp only [TcpConnection.functorFrames, List.count_cons_self, List.count_nil, if_pos] at howed ⊢
      omega

theorem stage_event {w : ConnWorld} {p : Phase} (hs : Stage w p) {error readable writable : Bool}
    (hr : w.conn.reports readable writable = true) (hstack : w.conn.stack = []) :
    Stage { w with conn :=
      { w.conn with stack := TcpConnection.eventFrames error readable writable } } p := by
  have hreports : w.conn.channel.registered = true
      ∧ (readable = true → w.conn.channel.readEnabled = true)
      ∧ (writable = true → w.conn.channel.writeEnabled = true) := of_decide_eq_true hr
  obtain ⟨hreg, hread, hwrite⟩ := hreports
  have hmem : ∀ f ∈ TcpConnection.eventFrames error readable writable,
      f = .handleError ∨ f = .handleRead ∧ readable = true ∨ f = .handleWrite ∧ writable = true := by
    intro f hf
    cases error <;> cases readable <;> cases writable <;>
      simp_all [TcpConnection.eventFrames]
  refine hs.enter hstack ?_ ?_ ?_ ?_
  · intro f hf
    have hclosed : p = .closed ∨ p = .destroyed → f = .handleError := by
      intro hp
      obtain ⟨_, hr', hw'⟩ := hs.disconnected hp
      rcases hmem f hf with he | ⟨_, he⟩ | ⟨_, he⟩
      · exact he
      · exact absurd (hr'.symm.trans (hread he)) Bool.false_ne_true
      · exact absurd (hw'.symm.trans (hwrite he)) Bool.false_ne_true
    cases p with
    | fresh => exact absurd ((hs.unregistered rfl).symm.trans hreg) Bool.false_ne_true
    | opened =>
      rcases hmem f hf with he | ⟨he, _⟩ | ⟨he, _⟩
      · rw [he]; simp [FrameIn]
      · rw [he]; simp [FrameIn]
      · rw [he]; simp [FrameIn]
    | closed => rw [hclosed (.inl rfl)]; simp [FrameIn]
    | destroyed => rw [hclosed (.inr rfl)]; simp [FrameIn]
    | announcing => exact absurd rfl hs.settled.1
    | announcingEnd => exact absurd rfl hs.settled.2
  · intro hf
    rcases hmem _ hf with he | ⟨he, _⟩ | ⟨he, _⟩ <;> exact absurd he (by simp)
  · intro hf
    rcases hmem _ hf with he | ⟨he, _⟩ | ⟨he, _⟩ <;> exact absurd he (by simp)
  · intro hf
    rcases hmem _ hf with he | ⟨he, _⟩ | ⟨he, _⟩ <;> exact absurd he (by simp)

/-- **A step of the loop thread keeps the connection in a phase.** -/
theorem stage_step {w w' : ConnWorld} {p : Phase} {a : Label} (hn : Nested w.conn.stack)
    (hs : Stage w p) (hok : w.LoopOnly a) (h : WorldStep w a w') : ∃ p', Stage w' p' := by
  cases h with
  | run h => exact stage_localStep hn hs h
  | establish he hstack =>
    have hp := (hs.established he).1
    rw [hp] at hs
    have howed := hs.owed
    rw [hstack] at howed
    exact ⟨.fresh, { hs with
      frames := frames_cons (by simp [FrameIn]) fun _ hg => absurd hg List.not_mem_nil
      established := fun he => absurd he (by simp)
      assign := by simp
      owed := by simpa using howed }⟩
  | ownerAnswers hc =>
    refine ⟨p, { hs with queue := ?_, owed := ?_ }⟩
    · intro g hg
      rcases List.mem_append.mp hg with hg | hg
      · exact hs.queue g hg
      · exact .inr (.inr (List.mem_singleton.mp hg))
    · rw [← hs.owed]
      simp only [List.count_append, List.count_singleton_self]
      omega
  | functor hq hstack => exact ⟨p, stage_functor hs hq hstack⟩
  | timer ht hstack =>
    have htimer : Stage { w with timers := w.timers - 1 } p := { hs with }
    refine ⟨p, htimer.enter hstack ?_ (by simp) (by simp) (by simp)⟩
    exact fun g hg => by rw [List.mem_singleton.mp hg]; exact (frameIn_user hs).2
  | event hr hstack => exact ⟨p, stage_event hs hr hstack⟩
  | _ => exact (hok.not_thread rfl).elim

theorem stage_reachable {tid : ThreadId} {w : ConnWorld} (h : Reachable (machine tid) LoopOnly w) :
    ∃ p, Stage w p := by
  refine h.invariant (I := fun w => ∃ p, Stage w p) ?_ ?_
  · intro w hw
    obtain ⟨cb, low, high, hw⟩ := hw
    rw [hw]
    refine ⟨.fresh, .nil, by simp, ?_, ?_, ?_, ?_, by simp, ?_, ?_, rfl, .inl rfl⟩
    all_goals simp [create, TcpConnection.create, Channel.create]
  · intro w a w' hr hi hok hs
    obtain ⟨p, hi⟩ := hi
    exact stage_step (nested_reachable hr) hi hok (step_cases hs).2

/-! ## What the user and the owner see -/

theorem rank_localStep {w : ConnWorld} {p : Phase} {c : TcpConnection} {a : LocalLabel}
    {out : Option Outgoing} (hs : Stage w p) (h : TcpConnection.LocalStep w.conn a c out) :
    w.conn.state.rank ≤ c.state.rank := by
  have hmax : ∀ s : ConnState, s.rank ≤ ConnState.kDisconnected.rank := by
    intro s
    cases s <;> decide
  cases h with
  | establish h hst => rw [hst]; exact Nat.zero_le _
  | destroy h =>
    unfold TcpConnection.destroyConnection
    dsimp only
    split <;> exact hmax _
  | buffer h =>
    unfold TcpConnection.bufferRest
    dsimp only
    split <;> exact Nat.le_refl _
  | shutdownAssign h =>
    rw [hs.assign (by rw [h]; exact List.mem_cons_self)]
    exact (by decide : ConnState.kConnected.rank ≤ ConnState.kDisconnecting.rank)
  | forceCloseAssign h => exact hmax _
  | handleClosePending h hst hw => exact hmax _
  | handleClose h hst hw => exact hmax _
  | _ => exact Nat.le_refl _

/-- `state_` never moves backwards in a step. -/
theorem rank_step {w w' : ConnWorld} {p : Phase} {a : Label} (hs : Stage w p)
    (hok : w.LoopOnly a) (h : WorldStep w a w') :
    w.conn.state.rank ≤ w'.conn.state.rank := by
  cases h with
  | run h =>
    rw [emit_conn]
    exact rank_localStep hs h
  | assignShutdown hp => exact (hok.not_thread rfl).elim
  | assignForceClose hp => exact (hok.not_thread rfl).elim
  | _ => exact Nat.le_refl _

/-- Nor in a run. -/
theorem rank_run {tid : ThreadId} {w w' : ConnWorld} {as : List Label}
    (h : Reachable (machine tid) LoopOnly w) (hr : Run (machine tid) LoopOnly w as w') :
    w.conn.state.rank ≤ w'.conn.state.rank := by
  have hrun := hr.invariant (I := fun u => Reachable (machine tid) LoopOnly u
    ∧ w.conn.state.rank ≤ u.conn.state.rank) ⟨h, Nat.le_refl _⟩ ?_
  · exact hrun.2
  · intro u a u' hu hok hs
    obtain ⟨p, hstage⟩ := stage_reachable hu.1
    exact ⟨hu.1.tail hok hs, Nat.le_trans hu.2 (rank_step hstage hok (step_cases hs).2)⟩

/-- **A connection lives its life.** In every run of the loop thread, with any events, results,
calls in callbacks and timers: `state_` never moves backwards; `close_cb_` is called at most once,
and no `message_cb_` after it; `connection_cb_` is called at most twice, connected by
`EstablishConnection` and then not connected by `DestroyConnection`; and the assertions in
`EstablishConnection` and `HandleClose` never fail. -/
theorem connection_lifecycle {tid : ThreadId} {w : ConnWorld}
    (h : Reachable (machine tid) LoopOnly w) :
    (∀ as w', Run (machine tid) LoopOnly w as w' → w.conn.state.rank ≤ w'.conn.state.rank)
    ∧ w.conn.trace.count .closeCb ≤ 1
    ∧ ¬ [.closeCb, .messageCb].Sublist w.conn.trace
    ∧ w.conn.trace.filterMap ConnEvent.announced <+: [(.establish, true), (.destroy, false)]
    ∧ w.conn.failed ≠ some .establishConnection ∧ w.conn.failed ≠ some .handleClose := by
  obtain ⟨p, hs⟩ := stage_reachable h
  refine ⟨fun as w' hr => rank_run h hr, hs.life.closeCb_once, hs.life.no_message_after_close,
    hs.life.announced_twice, ?_, ?_⟩
  · rcases hs.failed with hf | hf
    · rw [hf]; simp
    · rw [hf]; simp
  · rcases hs.failed with hf | hf
    · rw [hf]; simp
    · rw [hf]; simp

/-- A message, in whose callback the connection is forced to close; the peer closes before a
delayed close of its own fires; the owner destroys the connection. -/
theorem connection_lifecycle_small : ∃ w, Reachable (machine 0) LoopOnly w
    ∧ w.conn.trace = [.establishConnection, .connectionCb .establish true, .handleRead, .messageCb,
      .handleRead, .handleClose, .closeCb, .destroyConnection, .connectionCb .destroy false]
    ∧ w.conn.trace.count .closeCb ≤ 1
    ∧ w.conn.trace.filterMap ConnEvent.announced <+: [(.establish, true), (.destroy, false)] := by
  have hinit : (machine 0).init (create (.create 0 true false false)) := ⟨true, false, false, rfl⟩
  have hexec : ((machine 0).exec LoopOnly (create (.create 0 true false false))
      [.establish, .run .next, .run (.call .forceCloseAfter), .run .callbackReturns,
        .event false true false, .run .next, .run (.read .data), .run (.call .forceClose),
        .run .next, .run .callbackReturns, .functor, .run .next, .event false true false,
        .run .next, .run (.read .eof), .run .next, .ownerAnswers, .timer, .run .next, .functor,
        .run .next, .run .callbackReturns, .run .next]).map (fun w => decide (w.conn.trace
          = [.establishConnection, .connectionCb .establish true, .handleRead, .messageCb,
            .handleRead, .handleClose, .closeCb, .destroyConnection,
            .connectionCb .destroy false])) = some true := by decide +kernel
  obtain ⟨w, hr, hp⟩ := Machine.exec_reachable hinit hexec
  have hmain := connection_lifecycle hr
  exact ⟨w, hr, of_decide_eq_true hp, hmain.2.1, hmain.2.2.2.1⟩

end ConnWorld

end Windz
