import Windz.Net.ConnInvariant
import Windz.Net.SenderStream

/-!
# What a connection sends

The sending side of a connection is a `Sender`: each step of the connection and
what is around it does to it what `Sender.Step` says. So the facts about the stream
are facts about the connection, for every interleaving of threads calling `Send`
with the loop thread, and every result of `write`.
-/

namespace Windz

open Lib

/-- The `SendInLoop` that a frame is of. -/
def Frame.sending : Frame → Option Sending
  | .sendInLoop call => some (.entered call)
  | .directWrite call => some (.writing call)
  | .bufferRest call remain => some (.buffering call remain)
  | _ => none

/-- The call of `Send` that a functor completes. -/
def ConnFunctor.posted : ConnFunctor → Option SendCall
  | .sendInLoop call => some call
  | _ => none

/-- The call of `Send` in which a thread stands. -/
def ThreadPc.testing : ThreadPc → Option SendCall
  | .sendTested call => some call
  | _ => none

/-- The part of a message that `SendInLoop` has neither written nor buffered yet. -/
def Frame.unbuffered : Frame → List OutByte
  | .directWrite call => call.bytes
  | .bufferRest _ remain => remain
  | _ => []

namespace ConnWorld

/-- The sending side. -/
def sender (w : ConnWorld) : Sender where
  tid := w.conn.tid
  accepted := w.conn.accepted
  buffered := w.conn.outputBuf.contents
  enabled := w.conn.channel.writeEnabled
  destroyed := decide (ConnEvent.destroyConnection ∈ w.conn.trace)
  sending := w.conn.stack.filterMap Frame.sending
  posted := w.queue.filterMap ConnFunctor.posted
  testing := ThreadPc.testing ∘ w.threads
  calls := w.conn.calls
  ran := w.conn.ran
  returned := w.conn.returned

/-! ## Steps of the sending side -/

/-- Nothing handed out by a step is a `SendInLoop`. -/
theorem not_posted {c c' : TcpConnection} {a : LocalLabel} {f : ConnFunctor}
    (h : TcpConnection.LocalStep c a c' (some (.queueInLoop f))) : f.posted = none := by
  have hlow : ∀ {low : Option Outgoing}, (low = none ∨ low = some (.queueInLoop .lowWatermark)) →
      low = some (.queueInLoop f) → f.posted = none := by
    intro low hlow he
    rcases hlow with hl | hl
    · rw [hl] at he; exact absurd he (by simp)
    · rw [hl] at he
      rw [← Outgoing.queueInLoop.inj (Option.some.inj he)]
      rfl
  cases h with
  | wrote h hshut hne hpre hl => exact hlow hl rfl
  | wroteAll h hshut hl => exact hlow hl rfl
  | drained h hshut hout hl => exact hlow hl rfl
  | forceCloseAssign h => rfl

theorem emit_sender (w : ConnWorld) {out : Option Outgoing}
    (h : ∀ f, out = some (.queueInLoop f) → f.posted = none) : (w.emit out).sender = w.sender := by
  cases out with
  | none => rfl
  | some out =>
    cases out with
    | queueInLoop f =>
      unfold sender emit
      dsimp only
      rw [List.filterMap_append, List.filterMap_cons_none (h f rfl), List.filterMap_nil,
        List.append_nil]
    | runAfter => rfl
    | closeCb => rfl

/-- A frame that can wait and is of a `SendInLoop` is about to buffer. -/
theorem buffers_of_waits {stack : List Frame} (h : ∀ g ∈ stack, Waits g) :
    ∀ s ∈ stack.filterMap Frame.sending, s.Buffers := by
  intro s hs
  obtain ⟨g, hg, he⟩ := List.mem_filterMap.mp hs
  have hw := h g hg
  cases g <;> first | exact hw.elim | (cases he; trivial) | cases he

theorem sending_rest {stack rest : List Frame} {f : Frame} {s : Sending} (h : stack = f :: rest)
    (hf : f.sending = some s) :
    stack.filterMap Frame.sending = s :: rest.filterMap Frame.sending := by
  rw [h, List.filterMap_cons_some hf]

theorem sending_skip {stack rest : List Frame} {f : Frame} (h : stack = f :: rest)
    (hf : f.sending = none) : stack.filterMap Frame.sending = rest.filterMap Frame.sending := by
  rw [h, List.filterMap_cons_none hf]

/-- With or without a callback on top. -/
theorem sending_pre {pre rest : List Frame} {f : Frame} (hpre : pre = [] ∨ pre = [.user]) :
    (pre ++ f :: rest).filterMap Frame.sending = (f :: rest).filterMap Frame.sending := by
  rcases hpre with hp | hp
  · rw [hp]; rfl
  · rw [hp]; rfl

/-- A step that concerns no `SendInLoop`. -/
theorem sender_same {w : ConnWorld} {c : TcpConnection} {a : Label}
    (htid : c.tid = w.conn.tid) (hacc : c.accepted = w.conn.accepted)
    (hout : c.outputBuf = w.conn.outputBuf) (hen : c.channel.writeEnabled = w.conn.channel.writeEnabled)
    (htrace : ConnEvent.destroyConnection ∈ c.trace ↔ ConnEvent.destroyConnection ∈ w.conn.trace)
    (hstack : c.stack.filterMap Frame.sending = w.conn.stack.filterMap Frame.sending)
    (hcalls : c.calls = w.conn.calls) (hran : c.ran = w.conn.ran)
    (hret : c.returned = w.conn.returned) :
    w.sender.Step a { w with conn := c }.sender := by
  have he : { w with conn := c }.sender = w.sender := by
    unfold sender
    dsimp only
    rw [htid, hacc, hout, hen, hstack, hcalls, hran, hret, decide_eq_decide.mpr htrace]
  rw [he]
  exact .quiet

theorem sender_control {w : ConnWorld} {a : LocalLabel} {stack : List Frame}
    (h : TcpConnection.Control w.conn a stack) :
    w.sender.Step (.run a) { w with conn := { w.conn with stack } }.sender := by
  have hquiet : stack.filterMap Frame.sending = w.conn.stack.filterMap Frame.sending →
      w.sender.Step (.run a) { w with conn := { w.conn with stack } }.sender := by
    intro he
    exact sender_same rfl rfl rfl rfl Iff.rfl he rfl rfl rfl
  cases h with
  | ignored hu => exact hquiet rfl
  | shutdown hu hs => exact hquiet rfl
  | forceClose hu hs => exact hquiet rfl
  | skip h hf =>
    refine hquiet (sending_skip h ?_).symm
    revert hf
    unfold TcpConnection.Skips
    split <;> first | exact fun _ => rfl | exact False.elim
  | forceCloseInLoop h hs => exact hquiet (sending_skip h rfl).symm
  | drainedShutdown h hs => exact hquiet (sending_skip h rfl).symm
  | drainedClose h hs => exact hquiet (sending_skip h rfl).symm
  | eof h => exact hquiet (sending_skip h rfl).symm
  | @notWritten r call pre rest h hne hpre =>
    have hnil : call.bytes = [] ++ call.bytes := rfl
    have hstep := Sender.Step.wrote (v := w.sender) (r := r) (sending_rest h rfl) hnil hne
    unfold sender at hstep ⊢
    dsimp only at hstep ⊢
    rw [List.append_nil] at hstep
    rw [sending_pre hpre]
    exact hstep

theorem sender_localStep {w : ConnWorld} {c : TcpConnection} {a : LocalLabel}
    {out : Option Outgoing} (hn : Nested w.conn.stack) (h : TcpConnection.LocalStep w.conn a c out) :
    w.sender.Step (.run a) { w with conn := c }.sender := by
  cases h with
  | control h => exact sender_control h
  | send hu hs => exact .call (buffers_of_waits (hn.waits hu))
  | forceCloseAfter hu => exact .quiet
  | establish h hs =>
    rw [TcpConnection.establishConnection, if_pos hs]
    dsimp only
    split
    · exact sender_same rfl rfl rfl (by simp) (by simp [TcpConnection.logged])
        (sending_skip h rfl).symm rfl rfl rfl
    · exact sender_same rfl rfl rfl (by simp) (by simp [TcpConnection.logged])
        (sending_skip h rfl).symm rfl rfl rfl
  | establishFails h hs => exact .quiet
  | @destroy rest h =>
    have he : { w with conn := w.conn.destroyConnection rest }.sender
        = { w.sender with enabled := false, destroyed := true } := by
      unfold sender TcpConnection.destroyConnection
      dsimp only
      have hstack := sending_skip h rfl
      split
      · simp [TcpConnection.logged, hstack]
        rfl
      · simp [TcpConnection.logged, hstack]
        rfl
    rw [he]
    exact .destroyed
  | destroyClose h =>
    exact sender_same rfl rfl rfl rfl Iff.rfl (sending_skip h rfl).symm rfl rfl rfl
  | closeFails h => exact .quiet
  | discard h hs => exact .discard (sending_rest h rfl)
  | direct h hs hw ho => exact .direct (sending_rest h rfl) ho
  | queue h hs hne hpre =>
    have hstep := Sender.Step.queue (v := w.sender) (sending_rest h rfl) hne
    unfold sender at hstep ⊢
    dsimp only at hstep ⊢
    rw [sending_pre hpre]
    exact hstep
  | queueEmpty h hs hne => exact .queueEmpty (sending_rest h rfl) hne
  | @wrote n call pre rest low h hshut hne hpre hlow =>
    have hstep := Sender.Step.wrote (v := w.sender) (r := .wrote n) (sending_rest h rfl)
      (List.take_append_drop n call.bytes).symm hne
    unfold sender at hstep ⊢
    dsimp only at hstep ⊢
    rw [sending_pre hpre]
    exact hstep
  | wroteAll h hshut hlow => exact .wroteAll (sending_rest h rfl)
  | @lost r call rest h hr =>
    rcases hr with hr | hr | hnil
    · exact .lost (sending_rest h rfl) (.inl hr)
    · exact .lost (sending_rest h rfl) (.inr hr)
    · have hstep := Sender.Step.wroteAll (v := w.sender) (r := r) (sending_rest h rfl)
      rw [hnil, List.append_nil] at hstep
      exact hstep
  | @buffer call remain rest h =>
    have hstep := Sender.Step.buffer (v := w.sender) (sending_rest h rfl)
    have he : { w with conn := w.conn.bufferRest call remain rest }.sender
        = { w.sender with
            buffered := w.conn.outputBuf.contents ++ remain
            enabled := true }.finish call (rest.filterMap Frame.sending) := by
      unfold sender TcpConnection.bufferRest TcpConnection.finishSend Sender.finish
      dsimp only
      split
      · rename_i hw
        simp [hw]
      · simp
    rw [he]
    exact hstep
  | shutdownAssign h =>
    exact sender_same rfl rfl rfl rfl Iff.rfl (sending_skip h rfl).symm rfl rfl rfl
  | shut h hw => exact sender_same rfl rfl rfl rfl Iff.rfl (sending_skip h rfl).symm rfl rfl rfl
  | forceCloseAssign h =>
    exact sender_same rfl rfl rfl rfl Iff.rfl (sending_skip h rfl).symm rfl rfl rfl
  | handleClosePending h hs hw =>
    exact sender_same rfl rfl rfl (by simp) (by simp [TcpConnection.logged])
      (sending_skip h rfl).symm rfl rfl rfl
  | handleClose h hs hw =>
    exact sender_same rfl rfl rfl (by simp [hw]) (by simp)
      (sending_skip h rfl).symm rfl rfl rfl
  | handleCloseFails h hs => exact .quiet
  | handleRead h =>
    exact sender_same rfl rfl rfl rfl (by simp [TcpConnection.logged])
      (sending_skip h rfl).symm rfl rfl rfl
  | data h =>
    exact sender_same rfl rfl rfl rfl (by simp [TcpConnection.logged])
      (sending_skip h rfl).symm rfl rfl rfl
  | handleWrite h hpre =>
    refine sender_same rfl rfl rfl rfl (by simp [TcpConnection.logged]) ?_ rfl rfl rfl
    rw [sending_skip h rfl]
    rcases hpre with ⟨hp, _⟩ | ⟨hp, _⟩
    · rw [hp]; rfl
    · rw [hp]; rfl
  | @wroteSome n rest out h hshut hout hne =>
    rw [hout] at hne
    have hstep := Sender.Step.wroteSome (v := w.sender) hne
    unfold sender at hstep ⊢
    dsimp only at hstep ⊢
    rw [hout, ← sending_skip h rfl]
    exact hstep
  | @drained n rest out low h hshut hout hlow =>
    have hstep := Sender.Step.drained (v := w.sender) (n := n)
    unfold sender at hstep ⊢
    dsimp only at hstep ⊢
    rw [hout, Channel.disableWrite_writeEnabled]
    rw [sending_skip h rfl] at hstep ⊢
    exact hstep

/-- An update of the threads that is no `Send`. -/
theorem testing_update {w : ConnWorld} {t : ThreadId} {pc : ThreadPc}
    (ht : (w.threads t).testing = pc.testing) :
    ThreadPc.testing ∘ Function.update w.threads t pc = ThreadPc.testing ∘ w.threads := by
  rw [Function.comp_update, ← ht]
  exact Function.update_eq_self t _

/-- **The sending side of a connection is a sender.** -/
theorem sender_step {w w' : ConnWorld} {a : Label} (hn : Nested w.conn.stack)
    (h : WorldStep w a w') : w.sender.Step a w'.sender := by
  -- a functor is pushed, and a thread moves, that concern no `Send`
  have hthread : ∀ {t : ThreadId} {pc : ThreadPc} {conn : TcpConnection}
      {queue : List ConnFunctor}, (w.threads t).testing = pc.testing →
      queue.filterMap ConnFunctor.posted = w.queue.filterMap ConnFunctor.posted →
      { w with conn }.sender = w.sender →
      w.sender.Step a { w.setThread t pc with conn, queue }.sender := by
    intro t pc conn queue ht hq hc
    have he : { w.setThread t pc with conn, queue }.sender = w.sender := by
      rw [← hc]
      unfold sender setThread
      dsimp only
      rw [testing_update ht, hq]
    rw [he]
    exact .quiet
  have hpush : ∀ {f : ConnFunctor}, f.posted = none →
      (w.queue ++ [f]).filterMap ConnFunctor.posted = w.queue.filterMap ConnFunctor.posted := by
    intro f hf
    rw [List.filterMap_append, List.filterMap_cons_none hf, List.filterMap_nil, List.append_nil]
  have henter : ∀ {frames : List Frame}, w.conn.stack = [] →
      frames.filterMap Frame.sending = [] →
      w.sender.Step a { w with conn := { w.conn with stack := frames } }.sender := by
    intro frames hs hf
    refine sender_same rfl rfl rfl rfl Iff.rfl ?_ rfl rfl rfl
    rw [hs]
    exact hf
  cases h with
  | run h =>
    have hstep := sender_localStep hn h
    rw [emit_sender]
    · exact hstep
    · intro f hf
      rw [hf] at h
      exact not_posted h
  | establish he hs => exact henter hs rfl
  | ownerAnswers hc =>
    have he : { w with
        closes := w.closes - 1
        queue := w.queue ++ [ConnFunctor.destroyConnection] }.sender = w.sender := by
      unfold sender
      dsimp only
      rw [hpush rfl]
    rw [he]
    exact .quiet
  | @functor f rest hq hs =>
    cases hf : f.posted with
    | none =>
      have he : { w with
          queue := rest
          conn := { w.conn with stack := TcpConnection.functorFrames f } }.sender = w.sender := by
        have hframes : (TcpConnection.functorFrames f).filterMap Frame.sending = [] := by
          cases f <;> first | rfl | exact absurd hf (by simp [ConnFunctor.posted])
        unfold sender
        dsimp only
        rw [hq, List.filterMap_cons_none hf, hframes, hs]
        rfl
      rw [he]
      exact .quiet
    | some call =>
      have he : f = .sendInLoop call := by
        cases f <;> simp [ConnFunctor.posted] at hf
        rw [hf]
      rw [he]
      refine .take (v := w.sender) ?_ ?_
      · show w.queue.filterMap ConnFunctor.posted = _
        rw [hq, List.filterMap_cons_some hf]
      · show w.conn.stack.filterMap Frame.sending = _
        rw [hs]
        rfl
  | timer ht hs => exact henter hs rfl
  | @event error readable writable hr hs =>
    refine henter hs ?_
    cases error <;> cases readable <;> cases writable <;> rfl
  | @threadSend t message ht hi hs =>
    have hnone : w.sender.testing t = none := by
      show ThreadPc.testing (w.threads t) = none
      rw [hi]
      rfl
    have hstep : w.sender.Step (.threadCall t (.send message)) _ := .threadCall ht hnone
    unfold sender at hstep ⊢
    unfold setThread
    dsimp only at hstep ⊢
    rw [Function.comp_update]
    exact hstep
  | threadShutdown ht hi hs => exact hthread (by rw [hi]; rfl) rfl rfl
  | threadForceClose ht hi hs => exact hthread (by rw [hi]; rfl) rfl rfl
  | threadForceCloseAfter ht hi => exact .quiet
  | threadIgnored => exact .quiet
  | @pushSend t call hp =>
    have hsome : w.sender.testing t = some call := by
      show ThreadPc.testing (w.threads t) = some call
      rw [hp]
      rfl
    have hstep := Sender.Step.push hsome
    unfold sender at hstep ⊢
    unfold setThread
    dsimp only at hstep ⊢
    rw [Function.comp_update, List.filterMap_append]
    exact hstep
  | assignShutdown hp => exact hthread (by rw [hp]; rfl) rfl rfl
  | pushShutdown hp => exact hthread (by rw [hp]; rfl) (hpush rfl) rfl
  | assignForceClose hp => exact hthread (by rw [hp]; rfl) rfl rfl
  | pushForceClose hp => exact hthread (by rw [hp]; rfl) (hpush rfl) rfl

theorem sender_init {tid : ThreadId} {w : ConnWorld} (h : (machine tid).init w) :
    w.sender.Inv := by
  obtain ⟨cb, low, high, hw⟩ := h
  rw [hw]
  refine ⟨?_, ?_, ?_, ?_, rfl, fun t => rfl, ?_, ?_, ?_, ?_⟩
  all_goals simp [sender, create, TcpConnection.create, ThreadPc.testing]

/-- **The sending side keeps its invariant.** -/
theorem sender_inv {tid : ThreadId} {ok : ConnWorld → Label → Prop} {w : ConnWorld}
    (h : Reachable (machine tid) ok w) : w.sender.Inv := by
  refine h.invariant (I := fun w => w.sender.Inv) (fun w hw => sender_init hw) ?_
  intro w a w' hr hi _ hs
  exact hi.step (sender_step (nested_reachable hr) (step_cases hs).2)

/-! ## The messages in order -/

/-- A `SendInLoop` is in progress. -/
def InSendInLoop (w : ConnWorld) : Prop := w.conn.stack.filterMap Frame.sending ≠ []

instance (w : ConnWorld) : Decidable w.InSendInLoop :=
  decidable_of_iff (¬ (w.conn.stack.filterMap Frame.sending).isEmpty = true) (by
    unfold InSendInLoop
    rw [List.isEmpty_iff])

/-- User callbacks do not call `Send` from inside `SendInLoop`, and no write fails with `EPIPE` or
`ECONNRESET`. -/
def PlainSends (w : ConnWorld) : Label → Prop
  | .run (.call (.send _)) => ¬ w.InSendInLoop
  | .run (.write .pipe) | .run (.write .connReset) => False
  | _ => True

instance (w : ConnWorld) (a : Label) : Decidable (w.PlainSends a) := by
  unfold PlainSends
  split <;> infer_instance

theorem plain_of_plainSends {w : ConnWorld} {a : Label} (h : w.PlainSends a) :
    w.sender.Plain a := by
  refine ⟨fun message ha => ?_, fun hl => ?_⟩
  · rw [ha] at h
    exact Decidable.not_not.mp h
  · rcases hl with hl | hl
    · rw [hl] at h; exact h
    · rw [hl] at h; exact h

theorem sender_inOrder {tid : ThreadId} {w : ConnWorld}
    (h : Reachable (machine tid) PlainSends w) : w.sender.InOrder := by
  refine h.invariant (I := fun w => w.sender.InOrder) ?_ ?_
  · intro w hw
    obtain ⟨cb, low, high, hw⟩ := hw
    rw [hw]
    exact ⟨rfl, by simp [Sender.stream, Sender.kept, sender, create, TcpConnection.create]⟩
  · intro w a w' hr ho hok hs
    exact ho.step (sender_inv hr) (plain_of_plainSends hok)
      (sender_step (nested_reachable hr) (step_cases hs).2)

/-- What is not buffered yet is what the calls in progress have still to write. -/
theorem sending_rest_eq (stack : List Frame) :
    (stack.filterMap Frame.sending).flatMap Sending.rest = stack.flatMap Frame.unbuffered := by
  induction stack with
  | nil => rfl
  | cons f stack ih =>
    rw [List.flatMap_cons, ← ih]
    cases f <;> rfl

theorem bytes_map_byte (call : SendCall) : call.bytes.map OutByte.byte = call.message := by
  unfold SendCall.bytes
  rw [List.map_map]
  exact List.map_id _

/-- **The socket gets the messages, in order.** Whatever the threads and the results of `write`
do, the bytes accepted, then those in `output_buf_`, then those that a `SendInLoop` in progress has
still to write, are the whole messages in the order in which their `SendInLoop` ran, less those it
discarded; the calls of a thread run in the order in which it made them; and until
`DestroyConnection` the channel is interested in writing exactly when the buffer is not empty. -/
theorem stream_is_messages {tid : ThreadId} {w : ConnWorld}
    (h : Reachable (machine tid) PlainSends w) :
    (w.conn.accepted ++ w.conn.outputBuf.contents ++ w.conn.stack.flatMap Frame.unbuffered).map
        OutByte.byte = (w.conn.ran.filter Prod.snd).flatMap (·.1.message)
    ∧ (¬ w.InSendInLoop → w.conn.stack.flatMap Frame.unbuffered = [])
    ∧ (∀ t, (w.conn.ran.map Prod.fst).filter (·.thread = t)
        <+: w.conn.calls.filter (·.thread = t))
    ∧ (.destroyConnection ∉ w.conn.trace →
        (w.conn.channel.writeEnabled = true ↔ w.conn.outputBuf.contents ≠ [])) := by
  have hi := sender_inv h
  refine ⟨?_, ?_, ?_, ?_⟩
  · have hstream := (sender_inOrder h).stream
    unfold Sender.stream Sender.kept at hstream
    rw [← sending_rest_eq]
    rw [show w.conn.accepted ++ w.conn.outputBuf.contents
      ++ (w.conn.stack.filterMap Frame.sending).flatMap Sending.rest
      = (w.conn.ran.filter Prod.snd).flatMap (·.1.bytes) from hstream]
    rw [List.map_flatMap]
    simp only [bytes_map_byte]
  · intro hout
    rw [← sending_rest_eq, Decidable.not_not.mp hout]
    rfl
  · intro t
    exact ⟨w.sender.waiting t, (hi.order t).symm⟩
  · intro hd
    exact hi.enabled (decide_eq_false hd)

/-- A message written in part, one sent from another thread behind it, and one of the loop thread
that goes the same way. -/
theorem stream_is_messages_small : ∃ w, Reachable (machine 0) PlainSends w
    ∧ w.conn.accepted.map OutByte.byte = [3, 4, 5, 6]
    ∧ w.conn.outputBuf.contents.map OutByte.byte = [7, 8]
    ∧ (w.conn.accepted ++ w.conn.outputBuf.contents
        ++ w.conn.stack.flatMap Frame.unbuffered).map OutByte.byte
      = (w.conn.ran.filter Prod.snd).flatMap (·.1.message)
    ∧ (w.conn.channel.writeEnabled = true ↔ w.conn.outputBuf.contents ≠ []) := by
  have hinit : (machine 0).init (create (.create 0 false false false)) := ⟨false, false, false, rfl⟩
  have hexec : ((machine 0).exec PlainSends (create (.create 0 false false false))
      [.establish, .run .next, .run (.call (.send [3, 4, 5])), .threadCall 1 (.send [6, 7]),
        .run .next, .run (.write (.wrote 1)), .threadNext 1, .run .next, .functor, .run .next,
        .run .next, .run (.call (.send [8])), .run .next, .run .next, .event false false true,
        .run .next, .run (.write .interrupted), .event false false true, .run .next,
        .run (.write (.wrote 3))]).map (fun w => decide
          (w.conn.accepted.map OutByte.byte = [3, 4, 5, 6]
            ∧ w.conn.outputBuf.contents.map OutByte.byte = [7, 8]
            ∧ .destroyConnection ∉ w.conn.trace)) = some true := by decide +kernel
  obtain ⟨w, hr, hp⟩ := Machine.exec_reachable hinit hexec
  obtain ⟨hacc, hbuf, hd⟩ := of_decide_eq_true hp
  have hmain := stream_is_messages hr
  exact ⟨w, hr, hacc, hbuf, hmain.1, hmain.2.2.2 hd⟩

end ConnWorld

end Windz
