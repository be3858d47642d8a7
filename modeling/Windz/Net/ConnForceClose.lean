import Windz.Net.ConnInvariant

/-!
# Forcing a close

`ForceClose` makes the connection disconnected at once and leaves the closing to
`ForceCloseInLoop`, which tests `state_` and does nothing for a connection that is
disconnected. So the functor never closes anything: what closes the connection is
the `HandleWrite` that drains its output, if there is output, since that one closes
a connection it finds disconnected.

A `Shutdown` of another thread that tested `state_` before and assigns it after
`ForceClose` takes the connection back to disconnecting, which is another story;
runs with such a late assignment are left out.
-/

namespace Windz

open Lib

namespace ConnWorld

/-- No `Shutdown` assigns `state_` when it is not what its test found. -/
def NoLateShutdown (w : ConnWorld) : Label → Prop
  | .threadNext t => w.threads t = .shutdownTested → w.conn.state = .kConnected
  | .run .next => w.conn.stack.head? = some .shutdownAssign → w.conn.state = .kConnected
  | _ => True

instance (w : ConnWorld) (a : Label) : Decidable (w.NoLateShutdown a) := by
  unfold NoLateShutdown
  split <;> infer_instance

/-! ## Disconnected for good -/

theorem disconnected_localStep {w : ConnWorld} {c : TcpConnection} {a : LocalLabel}
    {out : Option Outgoing} (hd : w.conn.state = .kDisconnected)
    (hok : w.NoLateShutdown (.run a)) (h : TcpConnection.LocalStep w.conn a c out) :
    c.state = .kDisconnected := by
  cases h with
  | establish h hs => exact absurd (hd.symm.trans hs) (by simp)
  | @destroy rest h =>
    unfold TcpConnection.destroyConnection
    dsimp only
    split <;> rfl
  | buffer h =>
    unfold TcpConnection.bufferRest
    dsimp only
    split <;> exact hd
  | shutdownAssign h =>
    have hs := hok (by rw [h]; rfl)
    exact absurd (hd.symm.trans hs) (by simp)
  | forceCloseAssign h => rfl
  | handleClosePending h hs hw => rfl
  | handleClose h hs hw => rfl
  | _ => exact hd

theorem disconnected_step {w w' : ConnWorld} {a : Label} (hd : w.conn.state = .kDisconnected)
    (hok : w.NoLateShutdown a) (h : WorldStep w a w') : w'.conn.state = .kDisconnected := by
  cases h with
  | run h =>
    rw [emit_conn]
    exact disconnected_localStep hd hok h
  | assignShutdown hp => exact absurd (hd.symm.trans (hok hp)) (by simp)
  | assignForceClose hp => rfl
  | _ => exact hd

/-- A functor of `ForceClose`, or a thread about to push one. -/
def ForceClosing (w : ConnWorld) : Prop :=
  .forceCloseInLoop ∈ w.queue ∨ ∃ t, w.threads t = .forceCloseAssigned

theorem forceClosing_thread {w : ConnWorld} {t : ThreadId} {pc : ThreadPc} {conn : TcpConnection}
    {queue : List ConnFunctor} (hpc : pc ≠ .forceCloseAssigned)
    (hq : .forceCloseInLoop ∈ queue → .forceCloseInLoop ∈ w.queue)
    (h : { w.setThread t pc with conn, queue }.ForceClosing) : w.ForceClosing := by
  rcases h with h | ⟨u, h⟩
  · exact .inl (hq h)
  · refine .inr ⟨u, ?_⟩
    unfold setThread at h
    dsimp only at h
    by_cases hu : u = t
    · rw [hu, Function.update_self] at h
      exact absurd h hpc
    · rw [Function.update_of_ne hu] at h
      exact h

theorem mem_push {queue : List ConnFunctor} {f : ConnFunctor} (hf : f ≠ .forceCloseInLoop)
    (h : .forceCloseInLoop ∈ queue ++ [f]) : .forceCloseInLoop ∈ queue := by
  rcases List.mem_append.mp h with h | h
  · exact h
  · exact absurd (List.mem_singleton.mp h).symm hf

/-- A step that pushes a functor of `ForceClose` finds the connection disconnected or makes it
so. -/
theorem forceClosing_step {w w' : ConnWorld} {a : Label} (h : WorldStep w a w')
    (hf : w'.ForceClosing) : w.ForceClosing ∨ w'.conn.state = .kDisconnected := by
  cases h with
  | @run a conn out h =>
    have hkeep : (∀ f, out = some (.queueInLoop f) → f ≠ .forceCloseInLoop) →
        w.ForceClosing := by
      intro hout
      cases out with
      | none => exact hf
      | some out =>
        cases out with
        | queueInLoop f =>
          rcases hf with hf | hf
          · exact .inl (mem_push (hout f rfl) hf)
          · exact .inr hf
        | runAfter => exact hf
        | closeCb => exact hf
    have hlow : (out = none ∨ out = some (.queueInLoop .lowWatermark)) → w.ForceClosing := by
      intro hl
      refine hkeep fun f he => ?_
      rcases hl with hl | hl
      · rw [hl] at he; exact absurd he (by simp)
      · rw [hl] at he
        rw [← Outgoing.queueInLoop.inj (Option.some.inj he)]
        simp
    cases h with
    | wrote h hshut hne hpre hl => exact .inl (hlow hl)
    | wroteAll h hshut hl => exact .inl (hlow hl)
    | drained h hshut hout hl => exact .inl (hlow hl)
    | forceCloseAssign h => exact .inr rfl
    | _ => exact .inl (hkeep fun f he => absurd he (by simp))
  | ownerAnswers hc =>
    rcases hf with hf | hf
    · exact .inl (.inl (mem_push (by simp) hf))
    · exact .inl (.inr hf)
  | functor hq hs =>
    rcases hf with hf | hf
    · exact .inl (.inl (by rw [hq]; exact List.mem_cons_of_mem _ hf))
    · exact .inl (.inr hf)
  | threadSend ht hi hs => exact .inl (forceClosing_thread (by simp) id hf)
  | threadShutdown ht hi hs => exact .inl (forceClosing_thread (by simp) id hf)
  | threadForceClose ht hi hs => exact .inl (forceClosing_thread (by simp) id hf)
  | pushSend hp => exact .inl (forceClosing_thread (by simp) (mem_push (by simp)) hf)
  | assignShutdown hp => exact .inl (forceClosing_thread (by simp) id hf)
  | pushShutdown hp => exact .inl (forceClosing_thread (by simp) (mem_push (by simp)) hf)
  | assignForceClose hp => exact .inr rfl
  | pushForceClose hp => exact .inl (.inr ⟨_, hp⟩)
  | _ => exact .inl hf

/-- **The functor of `ForceClose` finds the connection disconnected.** -/
theorem forceClosing_disconnected {tid : ThreadId} {w : ConnWorld}
    (h : Reachable (machine tid) NoLateShutdown w) :
    w.ForceClosing → w.conn.state = .kDisconnected := by
  refine h.invariant (I := fun w => w.ForceClosing → w.conn.state = .kDisconnected) ?_ ?_
  · intro w hw hf
    obtain ⟨cb, low, high, hw⟩ := hw
    rw [hw] at hf
    rcases hf with hf | ⟨t, hf⟩
    · exact absurd hf List.not_mem_nil
    · exact absurd hf (by simp [create])
  · intro w a w' _ hi hok hs hf
    rcases forceClosing_step (step_cases hs).2 hf with hf | hd
    · exact disconnected_step (hi hf) hok (step_cases hs).2
    · exact hd

/-! ## Draining closes -/

theorem trace_localStep {c c' : TcpConnection} {a : LocalLabel} {out : Option Outgoing}
    (h : TcpConnection.LocalStep c a c' out) {e : ConnEvent} (he : e ∈ c.trace) : e ∈ c'.trace := by
  cases h with
  | establish h hs =>
    rw [TcpConnection.establishConnection, if_pos hs]
    dsimp only
    split
    · exact List.mem_append_left _ (List.mem_append_left _ he)
    · exact List.mem_append_left _ he
  | destroy h =>
    unfold TcpConnection.destroyConnection
    dsimp only
    split
    · exact List.mem_append_left _ (List.mem_append_left _ he)
    · exact List.mem_append_left _ he
  | buffer h =>
    unfold TcpConnection.bufferRest
    dsimp only
    split <;> exact he
  | handleClosePending h hs hw => exact List.mem_append_left _ he
  | handleClose h hs hw => exact List.mem_append_left _ he
  | handleRead h => exact List.mem_append_left _ he
  | data h => exact List.mem_append_left _ he
  | handleWrite h hpre => exact List.mem_append_left _ he
  | _ => exact he

/-- The way from the drained output to `HandleClose`, in one call of `HandleWrite`. -/
def OnItsWay (c : TcpConnection) : Prop :=
  c.channel.writeEnabled = false ∧ (c.stack = [.drainedShutdown, .drainedClose]
    ∨ c.stack = [.drainedClose] ∨ c.stack = [.handleClose])

/-- `close_cb_` has been called, or it will be when the output is drained. -/
def WillClose (c : TcpConnection) : Prop :=
  .closeCb ∈ c.trace
    ∨ c.state = .kDisconnected ∧ (c.outputBuf.contents ≠ [] ∨ OnItsWay c)

/-- A step on the way to `HandleClose`. -/
theorem onItsWay_localStep {c c' : TcpConnection} {a : LocalLabel} {out : Option Outgoing}
    (hd : c.state = .kDisconnected) (ho : OnItsWay c) (h : TcpConnection.LocalStep c a c' out) :
    .closeCb ∈ c'.trace ∨ OnItsWay c' := by
  obtain ⟨hw, hstack⟩ := ho
  -- the frame on top is one of the three
  have htop : ∀ {f : Frame} {rest : List Frame}, c.stack = f :: rest →
      f = .drainedShutdown ∧ rest = [.drainedClose] ∨ f = .drainedClose ∧ rest = []
        ∨ f = .handleClose ∧ rest = [] := by
    intro f rest h
    rw [h] at hstack
    simpa using hstack
  have huser : c.atUser = true → False := by
    intro hu
    unfold TcpConnection.atUser at hu
    rcases hstack with hs | hs | hs
    · rw [hs] at hu; exact Bool.false_ne_true hu
    · rw [hs] at hu; exact Bool.false_ne_true hu
    · rw [hs] at hu; exact Bool.false_ne_true hu
  have hno : ∀ {f : Frame} {rest : List Frame} {p : Prop}, c.stack = f :: rest →
      f ≠ .drainedShutdown → f ≠ .drainedClose → f ≠ .handleClose → p := by
    intro f rest p h h1 h2 h3
    rcases htop h with ⟨hf, _⟩ | ⟨hf, _⟩ | ⟨hf, _⟩
    · exact absurd hf h1
    · exact absurd hf h2
    · exact absurd hf h3
  cases h with
  | control h =>
    cases h with
    | ignored hu => exact (huser hu).elim
    | shutdown hu hs => exact (huser hu).elim
    | forceClose hu hs => exact (huser hu).elim
    | skip h hf =>
      rcases htop h with ⟨_, hr⟩ | ⟨he, _⟩ | ⟨he, _⟩
      · exact .inr ⟨hw, .inr (.inl hr)⟩
      · rw [he] at hf; exact absurd hd hf
      · rw [he] at hf; exact hf.elim
    | forceCloseInLoop h hs => exact hno h (by simp) (by simp) (by simp)
    | drainedShutdown h hs => exact absurd (hd.symm.trans hs) (by simp)
    | drainedClose h hs =>
      rcases htop h with ⟨he, _⟩ | ⟨_, hr⟩ | ⟨he, _⟩
      · exact absurd he (by simp)
      · exact .inr ⟨hw, .inr (.inr (by rw [hr]))⟩
      · exact absurd he (by simp)
    | eof h => exact hno h (by simp) (by simp) (by simp)
    | notWritten h hne hpre => exact hno h (by simp) (by simp) (by simp)
  | send hu hs => exact (huser hu).elim
  | forceCloseAfter hu => exact (huser hu).elim
  | handleClosePending h hs hw' => exact absurd (hw.symm.trans hw') Bool.false_ne_true
  | handleClose h hs hw' => exact .inl (by simp)
  | handleCloseFails h hs => exact absurd (hd.symm.trans hs) (by simp)
  | _ h => exact hno h (by simp) (by simp) (by simp)

theorem willClose_localStep {w : ConnWorld} {c : TcpConnection} {a : LocalLabel}
    {out : Option Outgoing} (hn : Nested w.conn.stack) (hc : WillClose w.conn)
    (hok : w.NoLateShutdown (.run a)) (h : TcpConnection.LocalStep w.conn a c out) :
    WillClose c := by
  rcases hc with hc | ⟨hd, hc | hc⟩
  · exact .inl (trace_localStep h hc)
  · have hd' := disconnected_localStep hd hok h
    cases h with
    | establish h hs => exact absurd (hd.symm.trans hs) (by simp)
    | @destroy rest h =>
      refine .inr ⟨hd', .inl ?_⟩
      unfold TcpConnection.destroyConnection
      dsimp only
      split <;> exact hc
    | buffer h =>
      refine .inr ⟨hd', .inl ?_⟩
      unfold TcpConnection.bufferRest TcpConnection.finishSend
      dsimp only
      split
      · dsimp only
        rw [ValidBuffer.write_contents]
        exact List.append_ne_nil_of_left_ne_nil hc _
      · dsimp only
        rw [ValidBuffer.write_contents]
        exact List.append_ne_nil_of_left_ne_nil hc _
    | wroteSome h hshut hout hne => exact .inr ⟨hd', .inl hne⟩
    | drained h hshut hout hlow =>
      rw [h] at hn
      have hrest := hn.alone fun _ hg => hg
      refine .inr ⟨hd', .inr ⟨by simp, .inl ?_⟩⟩
      rw [hrest]
    | _ => exact .inr ⟨hd', .inl hc⟩
  · rcases onItsWay_localStep hd hc h with hc | hc
    · exact .inl hc
    · exact .inr ⟨disconnected_localStep hd hok h, .inr hc⟩

theorem willClose_step {w w' : ConnWorld} {a : Label} (hn : Nested w.conn.stack)
    (hc : WillClose w.conn) (hok : w.NoLateShutdown a) (h : WorldStep w a w') :
    WillClose w'.conn := by
  -- the loop thread comes in only when it is out of the connection
  have henter : w.conn.stack = [] → ∀ frames : List Frame,
      WillClose { w.conn with stack := frames } := by
    intro hs frames
    rcases hc with hc | ⟨hd, hc | ⟨hw, hc⟩⟩
    · exact .inl hc
    · exact .inr ⟨hd, .inl hc⟩
    · rw [hs] at hc
      exact absurd hc (by simp)
  cases h with
  | run h =>
    rw [emit_conn]
    exact willClose_localStep hn hc hok h
  | establish he hs => exact henter hs _
  | functor hq hs => exact henter hs _
  | timer ht hs => exact henter hs _
  | event hr hs => exact henter hs _
  | assignShutdown hp =>
    rcases hc with hc | ⟨hd, hc⟩
    · exact .inl hc
    · exact absurd (hd.symm.trans (hok hp)) (by simp)
  | assignForceClose hp =>
    rcases hc with hc | ⟨_, hc⟩
    · exact .inl hc
    · exact .inr ⟨rfl, hc⟩
  | _ => exact hc

/-! ## What `ForceClose` achieves -/

/-- The connection is being closed: `close_cb_` has been called, or there is output, and whatever
happens, when a `HandleWrite` has drained it `close_cb_` has been called. -/
def ReallyCloses (tid : ThreadId) (w : ConnWorld) : Prop :=
  .closeCb ∈ w.conn.trace
    ∨ w.conn.outputBuf.contents ≠ [] ∧ ∀ as w', Run (machine tid) NoLateShutdown w as w' →
        w'.conn.outputBuf.contents = [] → w'.conn.stack = [] → .closeCb ∈ w'.conn.trace

/-- In `w₁` the functor of a `ForceClose` is the next to run; in `w₂` the loop has run it. -/
structure RunsForceClose (tid : ThreadId) (w₁ w₂ : ConnWorld) : Prop where
  reachable : Reachable (machine tid) NoLateShutdown w₁
  next : w₁.queue.head? = some .forceCloseInLoop
  run : ∃ w as, w₁.step .functor = some w
    ∧ Run (machine tid) (fun u a => u.NoLateShutdown a ∧ u.conn.stack ≠ []) w as w₂
  done : w₂.conn.stack = []

/-- While the functor of `ForceClose` runs on a disconnected connection, nothing happens to it. -/
structure Idles (w₁ w : ConnWorld) : Prop where
  state : w.conn.state = .kDisconnected
  stack : w.conn.stack = [.forceCloseInLoop] ∨ w.conn.stack = []
  contents : w.conn.outputBuf.contents = w₁.conn.outputBuf.contents
  trace : w.conn.trace = w₁.conn.trace

theorem idles_step {w₁ w w' : ConnWorld} {a : Label} (hi : Idles w₁ w)
    (hok : w.NoLateShutdown a ∧ w.conn.stack ≠ []) (h : WorldStep w a w') : Idles w₁ w' := by
  have hd' := disconnected_step hi.state hok.1 h
  have hstack : w.conn.stack = [.forceCloseInLoop] := by
    rcases hi.stack with hs | hs
    · exact hs
    · exact absurd hs hok.2
  have hclosed : w.conn.isOpen = false := by
    unfold TcpConnection.isOpen
    rw [hi.state]
    rfl
  cases h with
  | @run a conn out h =>
    have hno : ∀ {f : Frame} {rest : List Frame} {p : Prop}, w.conn.stack = f :: rest →
        f ≠ .forceCloseInLoop → p := by
      intro f rest p h hf
      rw [hstack] at h
      exact absurd (List.cons.inj h).1.symm hf
    have huser : ∀ {p : Prop}, w.conn.atUser = true → p := by
      intro p hu
      unfold TcpConnection.atUser at hu
      rw [hstack] at hu
      exact absurd hu Bool.false_ne_true
    cases h with
    | control h =>
      cases h with
      | ignored hu => exact huser hu
      | shutdown hu hs => exact huser hu
      | forceClose hu hs => exact huser hu
      | skip h hf =>
        rw [hstack] at h
        exact ⟨hd', .inr (List.cons.inj h).2.symm, hi.contents, hi.trace⟩
      | forceCloseInLoop h hs => exact absurd (hclosed.symm.trans hs) Bool.false_ne_true
      | drainedShutdown h hs => exact hno h (by simp)
      | drainedClose h hs => exact hno h (by simp)
      | eof h => exact hno h (by simp)
      | notWritten h hne hpre => exact hno h (by simp)
    | send hu hs => exact huser hu
    | forceCloseAfter hu => exact huser hu
    | _ h => exact hno h (by simp)
  | establish he hs => exact absurd hs hok.2
  | functor hq hs => exact absurd hs hok.2
  | timer ht hs => exact absurd hs hok.2
  | event hr hs => exact absurd hs hok.2
  | _ => exact ⟨hd', hi.stack, hi.contents, hi.trace⟩

theorem RunsForceClose.idles {tid : ThreadId} {w₁ w₂ : ConnWorld} (h : RunsForceClose tid w₁ w₂) :
    Reachable (machine tid) NoLateShutdown w₂ ∧ Idles w₁ w₂ := by
  obtain ⟨w, as, hs, hr⟩ := h.run
  have hok : w₁.NoLateShutdown .functor := trivial
  have hd : w₁.conn.state = .kDisconnected := by
    refine forceClosing_disconnected h.reachable (.inl ?_)
    exact List.mem_of_head? h.next
  have hw : Idles w₁ w := by
    cases (step_cases hs).2 with
    | @functor f rest hq hstack =>
      have hf := h.next
      rw [hq] at hf
      rw [show f = .forceCloseInLoop from Option.some.inj hf]
      exact ⟨hd, .inl rfl, rfl, rfl⟩
  refine hr.invariant (I := fun u => Reachable (machine tid) NoLateShutdown u ∧ Idles w₁ u)
    ⟨h.reachable.tail hok hs, hw⟩ ?_
  intro u a u' hu hok hs
  exact ⟨hu.1.tail hok.1 hs, idles_step hu.2 hok (step_cases hs).2⟩

/-- **When `ForceClose` closes.** With no late `Shutdown`, the connection is really being closed
when the loop has run the functor of `ForceClose` if and only if, when the functor came to run,
there was output left or `close_cb_` had been called already. -/
theorem forceClose_closes_iff {tid : ThreadId} {w₁ w₂ : ConnWorld}
    (h : RunsForceClose tid w₁ w₂) :
    ReallyCloses tid w₂ ↔ w₁.conn.outputBuf.contents ≠ [] ∨ .closeCb ∈ w₁.conn.trace := by
  obtain ⟨hr, hi⟩ := h.idles
  rw [← hi.contents, ← hi.trace]
  constructor
  · intro hc
    rcases hc with hc | ⟨hc, _⟩
    · exact .inr hc
    · exact .inl hc
  · intro hc
    rcases hc with hc | hc
    · refine .inr ⟨hc, fun as w' hrun hnil hdone => ?_⟩
      have hwill := hrun.invariant
        (I := fun u => Reachable (machine tid) NoLateShutdown u ∧ WillClose u.conn)
        ⟨hr, .inr ⟨hi.state, .inl hc⟩⟩ (fun u a u' hu hok hs => ⟨hu.1.tail hok hs,
          willClose_step (nested_reachable hu.1) hu.2 hok (step_cases hs).2⟩)
      rcases hwill.2 with hclose | ⟨_, hne | ⟨_, hs⟩⟩
      · exact hclose
      · exact absurd hnil hne
      · rw [hdone] at hs
        exact absurd hs (by simp)
    · exact .inl hc

/-- The runs of the two examples: the loop does `before` on an established connection, user code
calls `ForceClose`, and the loop runs its functor. -/
theorem runsForceClose_of_exec (before : List Label) (p : ConnWorld → ConnWorld → Bool)
    (hexec : ((machine 0).exec NoLateShutdown (create (.create 0 false false false))
      ([.establish, .run .next] ++ before ++ [.run (.call .forceClose), .run .next])).any
        (fun w₁ => (w₁.step .functor).any fun w =>
          ((machine 0).exec (fun u a => u.NoLateShutdown a ∧ u.conn.stack ≠ []) w
            [.run .next]).any fun w₂ =>
              p w₁ w₂ && decide (w₁.queue.head? = some .forceCloseInLoop)
                && decide (w₂.conn.stack = [])) = true) :
    ∃ w₁ w₂, RunsForceClose 0 w₁ w₂ ∧ p w₁ w₂ = true := by
  have hinit : (machine 0).init (create (.create 0 false false false)) :=
    ⟨false, false, false, rfl⟩
  obtain ⟨w₁, h1, hrest⟩ := (Option.any_eq_true _ _).mp hexec
  obtain ⟨w, hw, hrest⟩ := (Option.any_eq_true _ _).mp hrest
  obtain ⟨w₂, h2, hrest⟩ := (Option.any_eq_true _ _).mp hrest
  rw [Bool.and_eq_true, Bool.and_eq_true] at hrest
  obtain ⟨⟨hp, hnext⟩, hdone⟩ := hrest
  exact ⟨w₁, w₂, ⟨(Reachable.init hinit).run (Machine.exec_run _ h1), of_decide_eq_true hnext,
    ⟨w, _, hw, Machine.exec_run _ h2⟩, of_decide_eq_true hdone⟩, hp⟩

/-- A byte that the socket did not take is left. -/
theorem forceClose_closes_iff_small : ∃ w₁ w₂, RunsForceClose 0 w₁ w₂
    ∧ w₁.conn.outputBuf.contents = [⟨0, 7⟩]
    ∧ (ReallyCloses 0 w₂ ↔ w₁.conn.outputBuf.contents ≠ [] ∨ .closeCb ∈ w₁.conn.trace) := by
  obtain ⟨w₁, w₂, h, hp⟩ := runsForceClose_of_exec
    [.run (.call (.send [7])), .run .next, .run (.write .wouldBlock), .run .next]
    (fun w₁ _ => decide (w₁.conn.outputBuf.contents = [⟨0, 7⟩])) (by decide +kernel)
  exact ⟨w₁, w₂, h, of_decide_eq_true hp, forceClose_closes_iff h⟩

/-- A connected connection with no output is not closed by `ForceClose`. -/
theorem forceClose_closes_nothing :
    ¬ ∀ w₁ w₂, RunsForceClose 0 w₁ w₂ → ReallyCloses 0 w₂ := by
  intro hall
  obtain ⟨w₁, w₂, h, hp⟩ := runsForceClose_of_exec []
    (fun _ w₂ => decide (w₂.conn.outputBuf.contents = [] ∧ .closeCb ∉ w₂.conn.trace))
    (by decide +kernel)
  obtain ⟨hnil, htrace⟩ := of_decide_eq_true hp
  rcases hall w₁ w₂ h with hc | ⟨hne, _⟩
  · exact htrace hc
  · exact hne hnil

end ConnWorld

end Windz
