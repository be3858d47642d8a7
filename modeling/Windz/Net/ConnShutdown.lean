import Windz.Net.ConnSender

/-!
# Shutting down

`Shutdown` is meant to be graceful: what was sent before goes out first. It does
for what is in `output_buf_`, since `ShutdownInLoop` leaves a connection that is
still writing to `HandleWrite`. But it takes no notice of a call of `Send` from
another thread that waits in the queue, nor of a `SendInLoop` that has yet to
buffer its rest because the high watermark callback runs first. This module says
that these two are all that is lost.

Nothing else disturbs the connection in the runs considered: the peer does not
close, nobody forces a close, and no write fails for good. Such a connection never
becomes disconnected.
-/

namespace Windz

open Lib

namespace ConnWorld

/-- The frame or functor is part of closing the connection. -/
def ClosesFrame : Frame → Prop
  | .forceCloseAssign | .forceCloseInLoop | .handleClose | .destroyConnection | .destroyClose => True
  | _ => False

/-- So is the functor. -/
def ClosesFunctor : ConnFunctor → Prop
  | .forceCloseInLoop | .destroyConnection => True
  | _ => False

/-- The peer closes, `ForceClose` is called, or a write fails for good. -/
def Label.disturbs : Label → Bool
  | .run (.read .eof) | .run (.write .pipe) | .run (.write .connReset)
  | .run (.call .forceClose) | .run (.call .forceCloseAfter)
  | .threadCall _ .forceClose | .threadCall _ .forceCloseAfter => true
  | _ => false

/-- Nothing disturbs the connection. -/
def Graceful (_ : ConnWorld) (a : Label) : Prop := a.disturbs = false

instance (w : ConnWorld) (a : Label) : Decidable (w.Graceful a) :=
  inferInstanceAs (Decidable (a.disturbs = false))

theorem Graceful.not_disturbs {w : ConnWorld} {a : Label} (h : w.Graceful a)
    (hd : a.disturbs = true) : False := Bool.false_ne_true (h.symm.trans hd)

/-- A connection that is not being closed. -/
structure CalmConn (c : TcpConnection) : Prop where
  state : c.state ≠ .kDisconnected
  frames : ∀ f ∈ c.stack, ¬ ClosesFrame f
  trace : .destroyConnection ∉ c.trace
  kept : ∀ p ∈ c.ran, p.2 = true

/-- Nor is it about to be closed. -/
structure Calm (w : ConnWorld) : Prop where
  conn : CalmConn w.conn
  queue : ∀ f ∈ w.queue, ¬ ClosesFunctor f
  threads : ∀ t, w.threads t ≠ .forceCloseTested ∧ w.threads t ≠ .forceCloseAssigned
  timers : w.timers = 0
  closes : w.closes = 0

theorem CalmConn.rest {c : TcpConnection} (hc : CalmConn c) {f : Frame} {rest : List Frame}
    (h : c.stack = f :: rest) : ∀ g ∈ rest, ¬ ClosesFrame g := by
  intro g hg
  exact hc.frames g (by rw [h]; exact List.mem_cons_of_mem _ hg)

theorem CalmConn.top {c : TcpConnection} (hc : CalmConn c) {f : Frame} {rest : List Frame}
    (h : c.stack = f :: rest) : ¬ ClosesFrame f :=
  hc.frames f (by rw [h]; exact List.mem_cons_self)

theorem closes_cons {f : Frame} {rest : List Frame} (hf : ¬ ClosesFrame f)
    (h : ∀ g ∈ rest, ¬ ClosesFrame g) : ∀ g ∈ f :: rest, ¬ ClosesFrame g :=
  List.forall_mem_cons.mpr ⟨hf, h⟩

theorem closes_pre {pre rest : List Frame} {call : SendCall} {remain : List OutByte}
    (hpre : pre = [] ∨ pre = [.user]) (h : ∀ g ∈ rest, ¬ ClosesFrame g) :
    ∀ g ∈ pre ++ .bufferRest call remain :: rest, ¬ ClosesFrame g := by
  have hbase := closes_cons (f := .bufferRest call remain) id h
  rcases hpre with hp | hp
  · rw [hp]
    exact hbase
  · rw [hp]
    exact closes_cons id hbase

theorem calm_control {c : TcpConnection} {a : LocalLabel} {stack : List Frame} (hc : CalmConn c)
    {w : ConnWorld} (hok : w.Graceful (.run a)) (h : TcpConnection.Control c a stack) :
    ∀ g ∈ stack, ¬ ClosesFrame g := by
  cases h with
  | ignored hu => exact hc.frames
  | shutdown hu hs => exact closes_cons id hc.frames
  | forceClose hu hs => exact (hok.not_disturbs rfl).elim
  | skip h hf => exact hc.rest h
  | forceCloseInLoop h hs => exact absurd trivial (hc.top h)
  | drainedShutdown h hs => exact closes_cons id (hc.rest h)
  | drainedClose h hs => exact absurd hs hc.state
  | eof h => exact (hok.not_disturbs rfl).elim
  | notWritten h hne hpre => exact closes_pre hpre (hc.rest h)

theorem kept_append {ran : List (SendCall × Bool)} (h : ∀ p ∈ ran, p.2 = true) (call : SendCall) :
    ∀ p ∈ ran ++ [(call, true)], p.2 = true := by
  intro p hp
  rcases List.mem_append.mp hp with hp | hp
  · exact h p hp
  · rw [List.mem_singleton.mp hp]

theorem trace_logged {c : TcpConnection} (h : .destroyConnection ∉ c.trace) {e : ConnEvent}
    (he : e ≠ .destroyConnection) : ConnEvent.destroyConnection ∉ c.logged e := by
  intro hmem
  rcases List.mem_append.mp hmem with hm | hm
  · exact h hm
  · exact he (List.mem_singleton.mp hm).symm

theorem calm_localStep {c c' : TcpConnection} {a : LocalLabel} {out : Option Outgoing}
    (hc : CalmConn c) {w : ConnWorld} (hok : w.Graceful (.run a))
    (h : TcpConnection.LocalStep c a c' out) :
    CalmConn c' ∧ (out = none ∨ out = some (.queueInLoop .lowWatermark)) := by
  cases h with
  | control h => exact ⟨{ hc with frames := calm_control hc hok h }, .inl rfl⟩
  | send hu hs => exact ⟨{ hc with frames := closes_cons id hc.frames }, .inl rfl⟩
  | forceCloseAfter hu => exact (hok.not_disturbs rfl).elim
  | establish h hs =>
    rw [TcpConnection.establishConnection, if_pos hs]
    dsimp only
    have htrace := trace_logged hc.trace (e := .establishConnection) (by simp)
    split
    · refine ⟨⟨by simp, closes_cons id (hc.rest h), ?_, hc.kept⟩, .inl rfl⟩
      intro hmem
      rcases List.mem_append.mp hmem with hm | hm
      · exact htrace hm
      · exact absurd (List.mem_singleton.mp hm) (by simp)
    · exact ⟨⟨by simp, hc.rest h, htrace, hc.kept⟩, .inl rfl⟩
  | establishFails h hs => exact ⟨{ hc with }, .inl rfl⟩
  | destroy h => exact absurd trivial (hc.top h)
  | destroyClose h => exact absurd trivial (hc.top h)
  | closeFails h => exact absurd trivial (hc.top h)
  | discard h hs => exact absurd hs hc.state
  | direct h hs hw ho =>
    exact ⟨{ hc with
      frames := closes_cons id (hc.rest h)
      kept := kept_append hc.kept _ }, .inl rfl⟩
  | queue h hs hne hpre =>
    exact ⟨{ hc with
      frames := closes_pre hpre (hc.rest h)
      kept := kept_append hc.kept _ }, .inl rfl⟩
  | queueEmpty h hs hne =>
    exact ⟨⟨hc.state, hc.rest h, hc.trace, kept_append hc.kept _⟩, .inl rfl⟩
  | wrote h hshut hne hpre hlow =>
    exact ⟨{ hc with frames := closes_pre hpre (hc.rest h) }, hlow⟩
  | wroteAll h hshut hlow => exact ⟨⟨hc.state, hc.rest h, hc.trace, hc.kept⟩, hlow⟩
  | lost h hr => exact ⟨⟨hc.state, hc.rest h, hc.trace, hc.kept⟩, .inl rfl⟩
  | buffer h =>
    unfold TcpConnection.bufferRest
    dsimp only
    split
    · exact ⟨⟨hc.state, hc.rest h, hc.trace, hc.kept⟩, .inl rfl⟩
    · exact ⟨⟨hc.state, hc.rest h, hc.trace, hc.kept⟩, .inl rfl⟩
  | shutdownAssign h =>
    exact ⟨⟨by simp, closes_cons id (hc.rest h), hc.trace, hc.kept⟩, .inl rfl⟩
  | shut h hw => exact ⟨{ hc with frames := hc.rest h }, .inl rfl⟩
  | forceCloseAssign h => exact absurd trivial (hc.top h)
  | handleClosePending h hs hw => exact absurd trivial (hc.top h)
  | handleClose h hs hw => exact absurd trivial (hc.top h)
  | handleCloseFails h hs => exact absurd trivial (hc.top h)
  | handleRead h =>
    exact ⟨{ hc with
      frames := closes_cons id (hc.rest h)
      trace := trace_logged hc.trace (by simp) }, .inl rfl⟩
  | data h =>
    exact ⟨{ hc with
      frames := closes_cons id (hc.rest h)
      trace := trace_logged hc.trace (by simp) }, .inl rfl⟩
  | @handleWrite pre rest h hpre =>
    refine ⟨{ hc with
      frames := ?_
      trace := trace_logged hc.trace (by simp) }, .inl rfl⟩
    rcases hpre with ⟨hp, _⟩ | ⟨hp, _⟩
    · rw [hp]
      exact hc.rest h
    · rw [hp]
      exact closes_cons id (hc.rest h)
  | wroteSome h hshut hout hne => exact ⟨{ hc with frames := hc.rest h }, .inl rfl⟩
  | drained h hshut hout hlow =>
    exact ⟨{ hc with frames := closes_cons id (closes_cons id (hc.rest h)) }, hlow⟩

theorem calm_functorFrames {f : ConnFunctor} (hf : ¬ ClosesFunctor f) :
    ∀ g ∈ TcpConnection.functorFrames f, ¬ ClosesFrame g := by
  intro g hg
  cases f <;> first
    | exact absurd trivial hf
    | (rw [List.mem_singleton.mp hg]; exact id)

theorem calm_eventFrames (error readable writable : Bool) :
    ∀ g ∈ TcpConnection.eventFrames error readable writable, ¬ ClosesFrame g := by
  cases error <;> cases readable <;> cases writable <;>
    simp [TcpConnection.eventFrames, ClosesFrame]

theorem calm_push {queue : List ConnFunctor} {f : ConnFunctor}
    (h : ∀ f ∈ queue, ¬ ClosesFunctor f) (hf : ¬ ClosesFunctor f) :
    ∀ g ∈ queue ++ [f], ¬ ClosesFunctor g := by
  intro g hg
  rcases List.mem_append.mp hg with hg | hg
  · exact h g hg
  · rw [List.mem_singleton.mp hg]
    exact hf

theorem calm_threads {w : ConnWorld} (hc : Calm w) (t : ThreadId) {pc : ThreadPc}
    (hpc : pc ≠ .forceCloseTested ∧ pc ≠ .forceCloseAssigned) (u : ThreadId) :
    (w.setThread t pc).threads u ≠ .forceCloseTested
      ∧ (w.setThread t pc).threads u ≠ .forceCloseAssigned := by
  unfold setThread
  dsimp only
  by_cases hu : u = t
  · rw [hu, Function.update_self]
    exact hpc
  · rw [Function.update_of_ne hu]
    exact hc.threads u

/-- **A graceful step leaves the connection calm.** -/
theorem calm_step {w w' : ConnWorld} {a : Label} (hc : Calm w) (hok : w.Graceful a)
    (h : WorldStep w a w') : Calm w' := by
  cases h with
  | run h =>
    obtain ⟨hconn, hout⟩ := calm_localStep hc.conn hok h
    rcases hout with ho | ho
    · rw [ho]
      exact { hc with conn := hconn }
    · rw [ho]
      exact { hc with conn := hconn, queue := calm_push hc.queue id }
  | establish he hs =>
    have hframes := closes_cons (f := .establishConnection) id fun _ h => absurd h List.not_mem_nil
    exact { hc with conn := { hc.conn with frames := hframes } }
  | ownerAnswers hcl => exact absurd hc.closes hcl
  | functor hq hs =>
    have hqueue := hc.queue
    rw [hq] at hqueue
    obtain ⟨hf, hrest⟩ := List.forall_mem_cons.mp hqueue
    exact { hc with conn := { hc.conn with frames := calm_functorFrames hf }, queue := hrest }
  | timer ht hs => exact absurd hc.timers ht
  | event hr hs => exact { hc with conn := { hc.conn with frames := calm_eventFrames _ _ _ } }
  | threadSend ht hi hs =>
    exact { hc with conn := { hc.conn with }, threads := calm_threads hc _ ⟨by simp, by simp⟩ }
  | threadShutdown ht hi hs =>
    exact { hc with threads := calm_threads hc _ ⟨by simp, by simp⟩ }
  | threadForceClose ht hi hs => exact (hok.not_disturbs rfl).elim
  | threadForceCloseAfter ht hi => exact (hok.not_disturbs rfl).elim
  | threadIgnored => exact hc
  | pushSend hp =>
    exact { hc with
      conn := { hc.conn with }
      queue := calm_push hc.queue id
      threads := calm_threads hc _ ⟨by simp, by simp⟩ }
  | assignShutdown hp =>
    exact { hc with
      conn := { hc.conn with state := by simp }
      threads := calm_threads hc _ ⟨by simp, by simp⟩ }
  | pushShutdown hp =>
    exact { hc with
      queue := calm_push hc.queue id
      threads := calm_threads hc _ ⟨by simp, by simp⟩ }
  | assignForceClose hp => exact absurd hp (hc.threads _).1
  | pushForceClose hp => exact absurd hp (hc.threads _).2

theorem calm_reachable {tid : ThreadId} {w : ConnWorld} (h : Reachable (machine tid) Graceful w) :
    Calm w := by
  refine h.invariant (I := Calm) ?_ ?_
  · intro w hw
    obtain ⟨cb, low, high, hw⟩ := hw
    rw [hw]
    refine ⟨⟨by simp [create, TcpConnection.create], ?_, ?_, ?_⟩, ?_, ?_, rfl, rfl⟩
    all_goals simp [create, TcpConnection.create]
  · intro w a w' _ hc hok hs
    exact calm_step hc hok (step_cases hs).2

/-! ## What a graceful shutdown loses -/

theorem sender_whole {tid : ThreadId} {w : ConnWorld} (h : Reachable (machine tid) Graceful w) :
    w.sender.Whole := by
  refine h.invariant (I := fun w => w.sender.Whole) ?_ ?_
  · intro w hw
    obtain ⟨cb, low, high, hw⟩ := hw
    rw [hw]
    refine ⟨fun call hc => absurd hc List.not_mem_nil, fun i _ => ?_⟩
    simp [Sender.stream, Sender.ofCall, sender, create, TcpConnection.create]
  · intro w a w' hr hwhole hok hs
    refine hwhole.step (sender_inv hr) ?_ (sender_step (nested_reachable hr) (step_cases hs).2)
    intro hl
    rcases hl with hl | hl
    · rw [hl] at hok; exact hok.not_disturbs rfl
    · rw [hl] at hok; exact hok.not_disturbs rfl

/-- Calls that have returned stay so. -/
theorem returned_step {w w' : ConnWorld} {a : Label} (hn : Nested w.conn.stack)
    (h : WorldStep w a w') : ∀ call ∈ w.conn.returned, call ∈ w'.conn.returned := by
  intro call hc
  have hstep := sender_step hn h
  revert hstep
  generalize hv : w'.sender = v'
  rw [show w'.conn.returned = v'.returned by rw [← hv]; rfl]
  have hfinish : ∀ {v : Sender} {call' : SendCall} {rest : List Sending}, call ∈ v.returned →
      call ∈ (v.finish call' rest).returned := by
    intro v call' rest hc
    unfold Sender.finish
    dsimp only
    split
    · exact List.mem_append_left _ hc
    · exact hc
  intro hstep
  cases hstep with
  | push hp => exact List.mem_append_left _ hc
  | discard h => exact hfinish hc
  | queueEmpty h hnil => exact hfinish hc
  | wroteAll h => exact hfinish hc
  | lost h hr => exact hfinish hc
  | buffer h => exact hfinish hc
  | _ => exact hc

/-- The socket is shut down for writing by `ShutdownInLoop`, when nothing is being written. -/
theorem shuts_localStep {c c' : TcpConnection} {a : LocalLabel} {out : Option Outgoing}
    (h : TcpConnection.LocalStep c a c' out) (hno : c.shutWrite = false)
    (hshut : c'.shutWrite = true) :
    c.channel.writeEnabled = false ∧ ∃ rest, c.stack = .shutdownInLoop :: rest := by
  have hsame : ∀ b : Bool, b = true → b = c.shutWrite →
      c.channel.writeEnabled = false ∧ ∃ rest, c.stack = .shutdownInLoop :: rest := by
    intro b hb he
    rw [hb, hno] at he
    exact absurd he (by simp)
  cases h with
  | shut h hw => exact ⟨hw, _, h⟩
  | establish h hs =>
    rw [TcpConnection.establishConnection, if_pos hs] at hshut
    refine hsame _ hshut ?_
    dsimp only
    split <;> rfl
  | destroy h =>
    refine hsame _ hshut ?_
    unfold TcpConnection.destroyConnection
    dsimp only
    split <;> rfl
  | buffer h =>
    refine hsame _ hshut ?_
    unfold TcpConnection.bufferRest
    dsimp only
    split <;> rfl
  | _ => exact hsame _ hshut rfl

theorem shuts_step {w w' : ConnWorld} {a : Label} (h : WorldStep w a w')
    (hno : w.conn.shutWrite = false) (hshut : w'.conn.shutWrite = true) :
    w.conn.channel.writeEnabled = false ∧ ∃ rest, w.conn.stack = .shutdownInLoop :: rest := by
  cases h with
  | run h =>
    rw [emit_conn] at hshut
    exact shuts_localStep h hno hshut
  | _ => exact absurd (hno.symm.trans hshut) Bool.false_ne_true

/-- It is a call of `Shutdown`. -/
def IsShutdown : Label → Prop
  | .run (.call .shutdown) | .threadCall _ .shutdown => True
  | _ => False

/-- `Shutdown` is called in `w₀`, and later, in `w₁`, the socket is about to be shut down for
writing. -/
structure ShutsDown (tid : ThreadId) (w₀ w₁ : ConnWorld) : Prop where
  reachable : Reachable (machine tid) Graceful w₀
  run : ∃ a w as, IsShutdown a ∧ w₀.step a = some w ∧ Run (machine tid) Graceful w as w₁
  shuts : w₁.conn.shutWrite = false ∧ ∃ b w₂, w₁.step b = some w₂ ∧ w₂.conn.shutWrite = true

theorem graceful_shutdown {w : ConnWorld} {a : Label} (h : IsShutdown a) : w.Graceful a := by
  unfold IsShutdown at h
  split at h
  · rfl
  · rfl
  · exact h.elim

theorem ShutsDown.later {tid : ThreadId} {w₀ w₁ : ConnWorld} (h : ShutsDown tid w₀ w₁) :
    Reachable (machine tid) Graceful w₁
      ∧ ∀ call ∈ w₀.conn.returned, call ∈ w₁.conn.returned := by
  obtain ⟨a, w, as, ha, hs, hr⟩ := h.run
  have hrun := (Run.one (graceful_shutdown ha) hs).append hr
  refine hrun.invariant (I := fun u => Reachable (machine tid) Graceful u
    ∧ ∀ call ∈ w₀.conn.returned, call ∈ u.conn.returned) ⟨h.reachable, fun _ hc => hc⟩ ?_
  intro u a u' hu hok hs
  refine ⟨hu.1.tail hok hs, fun call hc => ?_⟩
  exact returned_step (nested_reachable hu.1) (step_cases hs).2 call (hu.2 call hc)

/-- **What a graceful `Shutdown` drops.** When the socket is about to be shut down, the messages
whose `Send` returned before `Shutdown` was called have all been handed to `write` completely if
and only if none of them (the empty ones apart) still waits in the queue of the loop or has yet to
be put into `output_buf_` by its `SendInLoop`. -/
theorem shutdown_sends_iff {tid : ThreadId} {w₀ w₁ : ConnWorld} (h : ShutsDown tid w₀ w₁) :
    (∀ call ∈ w₀.conn.returned, Sender.ofCall call.id w₁.conn.accepted = call.bytes)
      ↔ ∀ call ∈ w₀.conn.returned, call.message ≠ [] →
          .sendInLoop call ∉ w₁.queue ∧ ∀ remain, .bufferRest call remain ∉ w₁.conn.stack := by
  obtain ⟨hr, hret⟩ := h.later
  obtain ⟨hno, b, w₂, hstep, hshut⟩ := h.shuts
  obtain ⟨hw, rest, hstack⟩ := shuts_step (step_cases hstep).2 hno hshut
  have hi := sender_inv hr
  have hcalm := (calm_reachable hr).conn
  have hempty : w₁.sender.buffered = [] := by
    by_contra hne
    have hw' := (hi.enabled (decide_eq_false hcalm.trace)).mpr hne
    exact absurd (hw.symm.trans hw') Bool.false_ne_true
  -- under `ShutdownInLoop` every call is about to buffer
  have hbuffers : ∀ s ∈ w₁.sender.sending, s.Buffers := by
    have hn := nested_reachable hr
    rw [hstack] at hn
    show ∀ s ∈ w₁.conn.stack.filterMap Frame.sending, s.Buffers
    rw [sending_skip hstack rfl]
    exact buffers_of_waits fun g hg => hn.under hg
  have hposted : ∀ call, call ∈ w₁.sender.posted ↔ .sendInLoop call ∈ w₁.queue := by
    intro call
    refine List.mem_filterMap.trans ⟨fun ⟨f, hf, he⟩ => ?_, fun hf => ⟨_, hf, rfl⟩⟩
    cases f <;> first | (cases he; exact hf) | cases he
  have hsending : ∀ call remain, .buffering call remain ∈ w₁.sender.sending
      ↔ .bufferRest call remain ∈ w₁.conn.stack := by
    intro call remain
    refine List.mem_filterMap.trans ⟨fun ⟨f, hf, he⟩ => ?_, fun hf => ⟨_, hf, rfl⟩⟩
    cases f <;> first | (cases he; exact hf) | cases he
  refine forall_congr' fun call => imp_congr_right fun hc => ?_
  have hmain := (sender_whole hr).accepted_iff hi hempty hbuffers hcalm.kept (hret call hc)
  rw [hposted] at hmain
  simp only [hsending] at hmain
  exact hmain

/-- The runs of the two examples: thread 1 sends a byte, the loop does `before`, then calls
`Shutdown`, assigns `state_` and is about to shut the socket down. -/
theorem shutsDown_of_exec (before : List Label) (p : ConnWorld → ConnWorld → Bool)
    (hexec : ((machine 0).exec Graceful (create (.create 0 false false false))
      ([.establish, .run .next, .threadCall 1 (.send [7]), .threadNext 1] ++ before)).any
        (fun w₀ => (w₀.step (.run (.call .shutdown))).any fun w =>
          ((machine 0).exec Graceful w [.run .next]).any fun w₁ =>
            p w₀ w₁ && !w₁.conn.shutWrite && (w₁.step (.run .next)).any (·.conn.shutWrite))
      = true) : ∃ w₀ w₁, ShutsDown 0 w₀ w₁ ∧ p w₀ w₁ = true := by
  have hinit : (machine 0).init (create (.create 0 false false false)) :=
    ⟨false, false, false, rfl⟩
  obtain ⟨w₀, h0, hrest⟩ := (Option.any_eq_true _ _).mp hexec
  obtain ⟨w, hw, hrest⟩ := (Option.any_eq_true _ _).mp hrest
  obtain ⟨w₁, h1, hrest⟩ := (Option.any_eq_true _ _).mp hrest
  rw [Bool.and_eq_true, Bool.and_eq_true] at hrest
  obtain ⟨⟨hp, hno⟩, hshut⟩ := hrest
  obtain ⟨w₂, h2, hshut⟩ := (Option.any_eq_true _ _).mp hshut
  refine ⟨w₀, w₁, ⟨(Reachable.init hinit).run (Machine.exec_run _ h0), ?_, ?_⟩, hp⟩
  · exact ⟨.run (.call .shutdown), w, _, trivial, hw, Machine.exec_run _ h1⟩
  · exact ⟨by simpa using hno, _, w₂, h2, hshut⟩

/-- The byte has been written when `Shutdown` is called. -/
theorem shutdown_sends_iff_small : ∃ w₀ w₁, ShutsDown 0 w₀ w₁
    ∧ w₀.conn.returned = [⟨0, 1, [7]⟩]
    ∧ ((∀ call ∈ w₀.conn.returned, Sender.ofCall call.id w₁.conn.accepted = call.bytes)
      ↔ ∀ call ∈ w₀.conn.returned, call.message ≠ [] →
          .sendInLoop call ∉ w₁.queue ∧ ∀ remain, .bufferRest call remain ∉ w₁.conn.stack) := by
  obtain ⟨w₀, w₁, h, hp⟩ := shutsDown_of_exec
    [.functor, .run .next, .run (.write (.wrote 1))]
    (fun w₀ _ => decide (w₀.conn.returned = [⟨0, 1, [7]⟩])) (by decide +kernel)
  exact ⟨w₀, w₁, h, of_decide_eq_true hp, shutdown_sends_iff h⟩

/-- The loop thread calls `Shutdown` while the byte of another thread waits in its queue. -/
theorem shutdown_drops_queued : ¬ ∀ w₀ w₁, ShutsDown 0 w₀ w₁ →
    ∀ call ∈ w₀.conn.returned, Sender.ofCall call.id w₁.conn.accepted = call.bytes := by
  intro hall
  obtain ⟨w₀, w₁, h, hp⟩ := shutsDown_of_exec []
    (fun w₀ w₁ => decide (w₀.conn.returned = [⟨0, 1, [7]⟩] ∧ w₁.conn.accepted = []))
    (by decide +kernel)
  obtain ⟨hret, hacc⟩ := of_decide_eq_true hp
  have hbytes := hall w₀ w₁ h ⟨0, 1, [7]⟩ (by rw [hret]; exact List.mem_cons_self)
  rw [hacc] at hbytes
  exact absurd hbytes (by decide)

end ConnWorld

end Windz
