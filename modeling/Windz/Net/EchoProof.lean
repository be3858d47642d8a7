import Windz.Net.ConnServing
import Windz.Net.Echo

/-!
# An echo server sends back what it receives

Whatever is read reaches `Send` in the same call of `message_cb_`, while the connection is
connected; so the calls of `Send` are the bytes received, and what the socket has accepted
is a prefix of them.
-/

namespace Windz

open Lib

namespace ConnWorld

/-- In a callback the loop does not come into the connection. -/
theorem not_entered {w w' : ConnWorld} {a : Label} (h : WorldStep w a w') (hs : w.conn.stack ≠ [])
    (hloop : w.LoopOnly a) (hrun : ∀ l, a ≠ .run l) : w'.conn = w.conn := by
  cases h with
  | run h => exact absurd rfl (hrun _)
  | establish he hnil => exact absurd hnil hs
  | functor hq hnil => exact absurd hnil hs
  | timer ht hnil => exact absurd hnil hs
  | event hr hnil => exact absurd hnil hs
  | ownerAnswers hc => rfl
  | threadSend | threadShutdown | threadForceClose | threadForceCloseAfter | threadIgnored
  | pushSend | assignShutdown | pushShutdown | assignForceClose | pushForceClose =>
    exact (hloop.not_thread rfl).elim

/-- Only a call of `Send` adds to the calls. -/
theorem calls_step {w w' : ConnWorld} {a : Label} (h : WorldStep w a w') (hloop : w.LoopOnly a)
    (hcall : ∀ op, a ≠ .run (.call op)) : w'.conn.calls = w.conn.calls := by
  cases h with
  | run h =>
    rw [emit_conn]
    cases h with
    | send hu hs => exact absurd rfl (hcall _)
    | establish h hs =>
      unfold TcpConnection.establishConnection
      rw [if_pos hs]
      dsimp only
      split <;> rfl
    | destroy h =>
      unfold TcpConnection.destroyConnection
      dsimp only
      split <;> rfl
    | buffer h =>
      unfold TcpConnection.bufferRest
      dsimp only
      split <;> rfl
    | _ => rfl
  | establish | ownerAnswers | functor | timer | event => rfl
  | threadSend | threadShutdown | threadForceClose | threadForceCloseAfter | threadIgnored
  | pushSend | assignShutdown | pushShutdown | assignForceClose | pushForceClose =>
    exact (hloop.not_thread rfl).elim

/-- `Send` in user code, on a connected connection. -/
theorem send_step {w w' : ConnWorld} {message : List UInt8} (hs : w.conn.state = .kConnected)
    (h : w.step (.run (.call (.send message))) = some w') :
    w'.conn.state = .kConnected
      ∧ w'.conn.calls.flatMap (·.message) = w.conn.calls.flatMap (·.message) ++ message
      ∧ ∃ call, w'.conn.stack = .sendInLoop call :: w.conn.stack := by
  obtain ⟨out, hl⟩ := step_run h
  obtain ⟨-, he⟩ := Option.ite_none_right_eq_some.mp hl
  unfold TcpConnection.call at he
  dsimp only at he
  rw [if_pos hs] at he
  rw [← (Prod.mk.inj (Option.some.inj he)).1]
  refine ⟨hs, ?_, _, rfl⟩
  rw [List.flatMap_append, List.flatMap_singleton]
  rfl

end ConnWorld

namespace EchoWorld

variable {program : EchoProgram} {tid : ThreadId} {e e' : EchoWorld}

/-- What `message_cb_` has taken out of `input_buf_`, and what it has not. -/
def held (e : EchoWorld) : List UInt8 :=
  match e.pc with
  | .held msg => msg
  | _ => []

/-- What `message_cb_` has not yet taken. -/
def unsent (e : EchoWorld) : List UInt8 :=
  match e.pc with
  | .sending => []
  | _ => e.inputBuf.contents

/-- The bytes received that the socket has not accepted yet: those in `output_buf_`, those that a
`SendInLoop` in progress has still to write or to buffer, and those that have not got to `Send`. -/
def pending (e : EchoWorld) : List UInt8 :=
  (e.world.conn.outputBuf.contents ++ e.world.conn.stack.flatMap Frame.unbuffered).map OutByte.byte
    ++ (e.world.conn.stack.filterMap Frame.entered).flatMap (·.message) ++ e.held ++ e.unsent

/-- No write fails with `EPIPE` or `ECONNRESET`. -/
def NoReset (_ : EchoWorld) : Label → Prop
  | .world (.run (.write .pipe)) | .world (.run (.write .connReset)) => False
  | _ => True

instance (e : EchoWorld) (a : Label) : Decidable (e.NoReset a) := by
  unfold NoReset
  split <;> infer_instance

/-- Where the loop thread is, and what is in `input_buf_`, at each place of `message_cb_`. -/
def Placed (e : EchoWorld) : EchoPc → Prop
  | .outside => e.inputBuf.contents = []
  | .called => ∃ rest, e.world.conn.stack = .user :: rest ∧ ∀ g ∈ rest, g = .handleWrite
  | .held _ => e.inputBuf.contents = []
      ∧ ∃ rest, e.world.conn.stack = .user :: rest ∧ ∀ g ∈ rest, g = .handleWrite
  | .sending => .user ∈ e.world.conn.stack

/-- The invariant of an echo server. -/
structure Inv (tid : ThreadId) (e : EchoWorld) : Prop where
  reach : Reachable (ConnWorld.machine tid) ConnWorld.Serves e.world
  placed : e.Placed e.pc
  live : e.pc ≠ .outside → e.world.conn.state = .kConnected
  echoed : e.world.conn.calls.flatMap (·.message) ++ e.held ++ e.unsent = e.received

theorem Inv.nested (h : Inv tid e) : ConnWorld.Nested e.world.conn.stack :=
  ConnWorld.nested_reachable h.reach

theorem Inv.serving (h : Inv tid e) : ConnWorld.Serving e.world :=
  ConnWorld.serving_reachable h.reach

/-- In `message_cb_` the loop thread is in user code. -/
theorem Inv.user (h : Inv tid e) (hp : e.pc ≠ .outside) : .user ∈ e.world.conn.stack := by
  have hplaced := h.placed
  cases hpc : e.pc with
  | outside => exact absurd hpc hp
  | called =>
    rw [hpc] at hplaced
    obtain ⟨rest, hs, -⟩ := hplaced
    rw [hs]
    exact List.mem_cons_self
  | held msg =>
    rw [hpc] at hplaced
    obtain ⟨-, rest, hs, -⟩ := hplaced
    rw [hs]
    exact List.mem_cons_self
  | sending =>
    rw [hpc] at hplaced
    exact hplaced

theorem inv_create (program : EchoProgram) (tid : ThreadId) (cb : Bool) :
    Inv tid (create program tid cb) where
  reach := .init ⟨cb, false, false, rfl⟩
  placed := ValidBuffer.create_contents
  live := fun h => absurd rfl h
  echoed := by
    show _ ++ [] ++ ValidBuffer.contents ValidBuffer.create = []
    rw [ValidBuffer.create_contents]
    rfl

/-! ## Steps -/

theorem serves_of_allows {a : ConnWorld.Label} (ha : e.pc.allows a = true)
    (hok : e.NoReset (.world a)) : ConnWorld.Serves e.world a
      ∧ (∀ op, a ≠ .run (.call op)) ∧ (e.pc ≠ .outside → a ≠ .run .callbackReturns)
      ∧ (e.pc ≠ .outside → e.pc ≠ .sending → ∀ l, a ≠ .run l) := by
  have hcall : ∀ op, a ≠ .run (.call op) := by
    rintro op rfl
    unfold EchoPc.allows at ha
    cases e.pc <;> cases ha
  refine ⟨⟨?_, ?_, fun op he => absurd he (hcall op)⟩, hcall, ?_, ?_⟩
  · cases a with
    | run l =>
      cases l with
      | call op => exact absurd rfl (hcall op)
      | write r => cases r <;> exact hok
      | callbackReturns | next | read r => trivial
    | _ => trivial
  · cases a with
    | threadCall t op => unfold EchoPc.allows at ha; cases e.pc <;> cases ha
    | threadNext t => unfold EchoPc.allows at ha; cases e.pc <;> cases ha
    | _ => rfl
  · rintro hne rfl
    unfold EchoPc.allows at ha
    cases hpc : e.pc <;> rw [hpc] at ha hne <;> first | exact hne rfl | cases ha
  · rintro hne hns l rfl
    unfold EchoPc.allows at ha
    cases hpc : e.pc <;> rw [hpc] at ha hne hns <;> first
      | exact hne rfl
      | exact hns rfl
      | (cases l <;> first | cases ha | (rename_i r; cases r <;> cases ha))

theorem inv_world (h : Inv tid e) {a : ConnWorld.Label} (ha : e.pc.allows a = true)
    (hok : e.NoReset (.world a)) {w : ConnWorld} (hs : e.world.step a = some w) :
    Inv tid { e with world := w } := by
  obtain ⟨hserves, hcall, hret, hin⟩ := serves_of_allows ha hok
  have hw := (ConnWorld.step_cases hs).2
  have hnil : e.pc ≠ .outside → e.world.conn.stack ≠ [] := fun hp he => by
    have hu := h.user hp
    rw [he] at hu
    cases hu
  -- in `message_cb_`, the connection only goes on in `Send`
  have hkept : e.pc ≠ .outside → (∀ l, a ≠ .run l) → w.conn = e.world.conn := fun hp hr =>
    ConnWorld.not_entered hw (hnil hp) hserves.2.1 hr
  refine ⟨h.reach.tail hserves hs, ?_, fun hp => ?_, ?_⟩
  · have hplaced := h.placed
    cases hpc : e.pc with
    | outside =>
      rw [hpc] at hplaced
      exact hplaced
    | called =>
      have hconn := hkept (by rw [hpc]; exact nofun) (hin (by rw [hpc]; exact nofun)
        (by rw [hpc]; exact nofun))
      rw [hpc] at hplaced
      show ∃ rest, w.conn.stack = .user :: rest ∧ _
      rw [hconn]
      exact hplaced
    | held msg =>
      have hconn := hkept (by rw [hpc]; exact nofun) (hin (by rw [hpc]; exact nofun)
        (by rw [hpc]; exact nofun))
      rw [hpc] at hplaced
      show _ ∧ ∃ rest, w.conn.stack = .user :: rest ∧ _
      rw [hconn]
      exact hplaced
    | sending =>
      have hp : e.pc ≠ .outside := by rw [hpc]; exact nofun
      show .user ∈ w.conn.stack
      by_cases hr : ∃ l, a = .run l
      · obtain ⟨l, rfl⟩ := hr
        obtain ⟨out, hl⟩ := ConnWorld.step_run hs
        exact TcpConnection.user_kept hl (h.user hp) fun he => hret hp (by rw [he])
      · rw [hkept hp fun l he => hr ⟨l, he⟩]
        exact h.user hp
  · show w.conn.state = .kConnected
    by_cases hr : ∃ l, a = .run l
    · obtain ⟨l, rfl⟩ := hr
      obtain ⟨out, hl⟩ := ConnWorld.step_run hs
      rcases TcpConnection.state_localStep h.nested (TcpConnection.localStep_cases hl) with
        ⟨he, -⟩ | ⟨f, hf, hassign⟩ | hc | ⟨-, hu, -⟩
      · exact he.trans (h.live hp)
      · rw [h.serving.noAssign f hf] at hassign
        cases hassign
      · exact hc
      · exact absurd (h.user hp) hu
    · rw [hkept hp fun l he => hr ⟨l, he⟩]
      exact h.live hp
  · show w.conn.calls.flatMap (·.message) ++ e.held ++ e.unsent = e.received
    rw [ConnWorld.calls_step hw hserves.2.1 hcall]
    exact h.echoed

/-- `HandleRead` reads only outside of `message_cb_`, and from a connected connection. -/
theorem inv_read (h : Inv tid e) {data : List UInt8}
    (hlen : data.length ≤ e.inputBuf.buffer.writableBytes + Buffer.extraBufSize) {w : ConnWorld}
    (hs : e.world.step (.run (.read .data)) = some w) :
    Inv tid { e with
      world := w
      inputBuf := e.inputBuf.readSocket data hlen
      received := e.received ++ data
      pc := .called } := by
  obtain ⟨out, hl⟩ := ConnWorld.step_run hs
  have hserves : ConnWorld.Serves e.world (.run (.read .data)) := ⟨trivial, rfl, nofun⟩
  have hstack : ∃ rest, e.world.conn.stack = .readSocket :: rest := by
    unfold TcpConnection.localStep at hl
    dsimp only at hl
    split at hl
    · rename_i rest hst
      exact ⟨rest, hst⟩
    · cases hl
  obtain ⟨rest, hst⟩ := hstack
  have hn := h.nested
  rw [hst] at hn
  have hpc : e.pc = .outside := by
    by_contra hp
    have hu := h.user hp
    rw [hst] at hu
    rcases List.mem_cons.mp hu with hu | hu
    · cases hu
    · cases hn.under hu
  have hconn : w.conn.state = e.world.conn.state ∧ w.conn.stack = .user :: rest
      ∧ w.conn.calls = e.world.conn.calls := by
    unfold TcpConnection.localStep at hl
    rw [hst] at hl
    dsimp only at hl
    rw [← (Prod.mk.inj (Option.some.inj hl)).1]
    exact ⟨rfl, rfl, rfl⟩
  refine ⟨h.reach.tail hserves hs, ?_, fun _ => ?_, ?_⟩
  · exact ⟨rest, hconn.2.1, fun g hg => hn.under hg⟩
  · show w.conn.state = _
    rw [hconn.1]
    exact h.serving.connected .readSocket (by rw [hst]; exact List.mem_cons_self) rfl
  · have hechoed := h.echoed
    unfold held unsent at hechoed
    rw [hpc] at hechoed
    show w.conn.calls.flatMap (·.message) ++ [] ++ (e.inputBuf.readSocket data hlen).contents
      = e.received ++ data
    rw [hconn.2.2, ValidBuffer.readSocket_contents, ← hechoed, List.append_assoc, List.append_assoc,
      List.append_assoc]

/-- The program calls `Send`, at the place where nothing is being sent. -/
theorem send_serves {message : List UInt8} {rest : List Frame}
    (hs : e.world.conn.stack = .user :: rest) (hr : ∀ g ∈ rest, g = .handleWrite) :
    ConnWorld.Serves e.world (.run (.call (.send message))) := by
  refine ⟨?_, rfl, ?_⟩
  · show ¬ e.world.conn.stack.filterMap Frame.sending ≠ []
    rw [Decidable.not_not, hs, List.filterMap_cons_none rfl]
    refine List.filterMap_eq_nil_iff.mpr fun g hg => ?_
    rw [hr g hg]
    rfl
  · rintro op ⟨⟩
    exact ⟨message, rfl⟩

theorem inv_messageCb (h : Inv tid e) (hs : e.messageCb = some e') : Inv tid e' := by
  unfold messageCb at hs
  have hplaced := h.placed
  have hechoed := h.echoed
  unfold held unsent at hechoed
  split at hs
  · rename_i hprog hpc
    obtain ⟨hall, hempty⟩ := e.inputBuf.readAll_eq
    rw [hpc] at hplaced hechoed
    cases hs
    refine ⟨h.reach, ⟨hempty, hplaced⟩, fun _ => h.live (by rw [hpc]; exact nofun), ?_⟩
    show _ ++ e.inputBuf.readAll.1 ++ e.inputBuf.readAll.2.contents = _
    rw [hall, hempty, List.append_nil, ← hechoed, List.append_nil]
  · rename_i msg hprog hpc
    rw [hpc] at hplaced hechoed
    obtain ⟨hempty, rest, hst, hr⟩ := hplaced
    obtain ⟨w, hw, he⟩ := Option.map_eq_some_iff.mp hs
    cases he
    obtain ⟨-, hcalls, -⟩ := ConnWorld.send_step (h.live (by rw [hpc]; exact nofun)) hw
    refine ⟨h.reach.tail (send_serves hst hr) hw, hempty, fun hp => absurd rfl hp, ?_⟩
    show w.conn.calls.flatMap (·.message) ++ [] ++ e.inputBuf.contents = e.received
    rw [hcalls, ← hechoed, List.append_nil]
  · rename_i hprog hpc
    rw [hpc] at hplaced hechoed
    obtain ⟨rest, hst, hr⟩ := hplaced
    obtain ⟨w, hw, he⟩ := Option.map_eq_some_iff.mp hs
    cases he
    obtain ⟨hlive, hcalls, call, hstack⟩ :=
      ConnWorld.send_step (h.live (by rw [hpc]; exact nofun)) hw
    refine ⟨h.reach.tail (send_serves hst hr) hw, ?_, fun _ => hlive, ?_⟩
    · show .user ∈ w.conn.stack
      rw [hstack, hst]
      exact List.mem_cons_of_mem _ List.mem_cons_self
    · show w.conn.calls.flatMap (·.message) ++ [] ++ [] = e.received
      rw [hcalls, ← hechoed, List.append_nil, List.append_nil, List.append_nil]
  · rename_i hprog hpc
    rw [hpc] at hechoed
    split at hs
    · cases hs
      refine ⟨h.reach, ValidBuffer.releaseAll_contents _, fun hp => absurd rfl hp, ?_⟩
      show _ ++ [] ++ e.inputBuf.releaseAll.contents = e.received
      rw [ValidBuffer.releaseAll_contents]
      exact hechoed
    · cases hs
  · cases hs

theorem inv_step (h : Inv tid e) {a : Label} (hok : e.NoReset a) (hs : e.step a = some e') :
    Inv tid e' := by
  cases a with
  | world a =>
    obtain ⟨ha, hs⟩ := Option.ite_none_right_eq_some.mp hs
    obtain ⟨w, hw, he⟩ := Option.map_eq_some_iff.mp hs
    cases he
    exact inv_world h ha hok hw
  | read data =>
    unfold EchoWorld.step at hs
    dsimp only at hs
    split at hs
    · rename_i hlen
      obtain ⟨w, hw, he⟩ := Option.map_eq_some_iff.mp hs
      cases he
      exact inv_read h hlen.2 hw
    · cases hs
  | messageCb => exact inv_messageCb h hs

theorem inv_reachable (h : Reachable (machine program tid) NoReset e) : Inv tid e := by
  refine h.invariant (I := Inv tid) ?_ fun _ _ _ _ hi hok hs => inv_step hi hok hs
  rintro _ ⟨cb, rfl⟩
  exact inv_create program tid cb

/-- The calls of `Send` are what the socket has accepted and what is on its way there. -/
theorem sent_eq {w : ConnWorld} (h : Reachable (ConnWorld.machine tid) ConnWorld.Serves w) :
    (w.conn.accepted ++ w.conn.outputBuf.contents ++ w.conn.stack.flatMap Frame.unbuffered).map
        OutByte.byte ++ (w.conn.stack.filterMap Frame.entered).flatMap (·.message)
      = w.conn.calls.flatMap (·.message) := by
  have hserving := ConnWorld.serving_reachable h
  have hstream := (ConnWorld.sender_inOrder (h.mono fun _ _ hok => hok.1)).stream
  unfold Sender.stream Sender.kept at hstream
  rw [← ConnWorld.sending_rest_eq, show w.conn.accepted ++ w.conn.outputBuf.contents
    ++ (w.conn.stack.filterMap Frame.sending).flatMap Sending.rest
    = (w.conn.ran.filter Prod.snd).flatMap (·.1.bytes) from hstream]
  have hall : w.conn.ran.filter Prod.snd = w.conn.ran := List.filter_eq_self.mpr hserving.kept
  rw [hall, ← hserving.ran, List.flatMap_append, List.map_flatMap, List.flatMap_map]
  simp only [ConnWorld.bytes_map_byte]

/-- **An echo server sends back what it receives.** In every run of a connection of either echo
server in which no write fails with `EPIPE` or `ECONNRESET`, however the socket splits what is
read and what is written: the bytes accepted by the socket, then those still on their way to it,
are the bytes received, in order. Outside of the connection the loop waits until the socket can be
written exactly if some are on their way; and when `close_cb_` is called, none are. -/
theorem echo_returns_received (h : Reachable (machine program tid) NoReset e) :
    e.world.conn.accepted.map OutByte.byte ++ e.pending = e.received
    ∧ (e.world.conn.stack = [] → .destroyConnection ∉ e.world.conn.trace →
      (e.world.conn.channel.writeEnabled = true ↔ e.pending ≠ []))
    ∧ (.closeCb ∈ e.world.conn.trace →
      e.pending = [] ∧ e.world.conn.accepted.map OutByte.byte = e.received) := by
  have hi := inv_reachable h
  have htotal : e.world.conn.accepted.map OutByte.byte ++ e.pending = e.received := by
    have hsent := sent_eq hi.reach
    rw [← hi.echoed, ← hsent]
    unfold pending
    simp only [List.map_append, List.append_assoc]
  have hout : e.pc = .outside → e.held = [] ∧ e.unsent = [] := by
    intro hpc
    have hplaced := hi.placed
    rw [hpc] at hplaced
    unfold held unsent
    rw [hpc]
    exact ⟨rfl, hplaced⟩
  refine ⟨htotal, fun hs hd => ?_, fun hc => ?_⟩
  · have hpc : e.pc = .outside := by
      by_contra hp
      have hu := hi.user hp
      rw [hs] at hu
      cases hu
    have hp : e.pending = e.world.conn.outputBuf.contents.map OutByte.byte := by
      unfold pending
      rw [(hout hpc).1, (hout hpc).2, hs]
      simp
    rw [hp, ne_eq, List.map_eq_nil_iff]
    exact (ConnWorld.sender_inv hi.reach).enabled (decide_eq_false hd)
  · obtain ⟨p, hp⟩ := ConnWorld.stage_reachable (hi.reach.mono fun _ _ hok => hok.2.1)
    have hpc : e.pc = .outside := by
      by_contra hne
      have hlive := hi.live hne
      rw [(hp.disconnected (hp.closed_of_mem hc)).1] at hlive
      cases hlive
    have hframes := hp.nothing_sent hc
    have hunbuffered : e.world.conn.stack.flatMap Frame.unbuffered = [] :=
      List.flatMap_eq_nil_iff.mpr fun f hf => (hframes f hf).2.1
    have hentered : e.world.conn.stack.filterMap Frame.entered = [] :=
      List.filterMap_eq_nil_iff.mpr fun f hf => (hframes f hf).2.2.1
    have hpending : e.pending = [] := by
      unfold pending
      rw [hi.serving.closed hc, hunbuffered, hentered, (hout hpc).1, (hout hpc).2]
      rfl
    refine ⟨hpending, ?_⟩
    rw [← htotal, hpending, List.append_nil]

/-- A message that is written in part when the peer closes its side. -/
theorem echo_returns_received_small : ∃ e, Reachable (machine .daemon 0) NoReset e
    ∧ e.received = [1, 2, 3] ∧ .closeCb ∈ e.world.conn.trace ∧ e.pending = []
    ∧ e.world.conn.accepted.map OutByte.byte = [1, 2, 3] := by
  have hinit : (machine .daemon 0).init (create .daemon 0 false) := ⟨false, rfl⟩
  have hexec : ((machine .daemon 0).exec NoReset (create .daemon 0 false)
      [.world .establish, .world (.run .next), .world (.event false true false),
        .world (.run .next), .read [1, 2, 3], .messageCb, .world (.run .next),
        .world (.run (.write (.wrote 1))), .world (.run .next), .messageCb,
        .world (.run .callbackReturns), .world (.event false true true), .world (.run .next),
        .world (.run (.read .eof)), .world (.run .next), .world (.run .next),
        .world (.run (.write (.wrote 2))), .world (.run .next), .world (.run .next),
        .world (.run .next)]).map (fun e => decide
          (e.received = [1, 2, 3] ∧ .closeCb ∈ e.world.conn.trace)) = some true := by
    decide +kernel
  obtain ⟨e, hr, hp⟩ := Machine.exec_reachable hinit hexec
  obtain ⟨hreceived, hclosed⟩ := of_decide_eq_true hp
  obtain ⟨hpending, haccepted⟩ := (echo_returns_received hr).2.2 hclosed
  exact ⟨e, hr, hreceived, hclosed, hpending, haccepted.trans hreceived⟩

end EchoWorld

end Windz
