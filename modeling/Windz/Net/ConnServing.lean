import Windz.Net.ConnLifecycle
import Windz.Net.ConnSender

/-!
# A connection that is only sent on

Runs in which the user calls `Send` and nothing else, in the loop thread. There the
connection is connected while anything is read from it or sent on it, so that no
message is discarded, and `close_cb_` is called behind the last byte of the output.
-/

namespace Windz

open Lib

/-- The call of `Send` whose `SendInLoop` has not looked at `state_` yet. -/
def Frame.entered : Frame → Option SendCall
  | .sendInLoop call => some call
  | _ => none

/-- The frames that are there only while the connection is connected. -/
def Frame.connected : Frame → Bool
  | .handleRead | .readSocket | .sendInLoop _ => true
  | _ => false

/-- The assignments to `state_` of `Shutdown` and `ForceClose`. -/
def Frame.assigns : Frame → Bool
  | .shutdownAssign | .forceCloseAssign => true
  | _ => false

namespace TcpConnection

/-- When a step inside the connection can put a frame on the stack. -/
def NewFrame (c : TcpConnection) (a : LocalLabel) : Frame → Prop
  | .sendInLoop _ => c.state = .kConnected
  | .readSocket => .handleRead ∈ c.stack
  | .shutdownAssign | .forceCloseAssign => ∃ op, a = .call op ∧ ∀ message, op ≠ .send message
  | .handleRead | .handleError | .establishConnection | .destroyConnection | .forceCloseInLoop =>
      False
  | _ => True

theorem new_frame {c c' : TcpConnection} {a : LocalLabel} {out : Option Outgoing}
    (h : LocalStep c a c' out) {g : Frame} (hg : g ∈ c'.stack) : g ∈ c.stack ∨ NewFrame c a g := by
  have hrest : ∀ {f : Frame} {rest : List Frame}, c.stack = f :: rest → g ∈ rest →
      g ∈ c.stack ∨ NewFrame c a g := by
    intro f rest hs hm
    exact .inl (hs ▸ List.mem_cons_of_mem f hm)
  have hpush : ∀ {f : Frame} {stack : List Frame}, g ∈ f :: stack → NewFrame c a f →
      (g ∈ stack → g ∈ c.stack ∨ NewFrame c a g) → g ∈ c.stack ∨ NewFrame c a g := by
    intro f stack hm hf ht
    rcases List.mem_cons.mp hm with rfl | hm
    · exact .inr hf
    · exact ht hm
  have hpre : ∀ {f : Frame} {call : SendCall} {remain : List OutByte} {pre rest : List Frame},
      c.stack = f :: rest → (pre = [] ∨ pre = [.user]) →
      g ∈ pre ++ .bufferRest call remain :: rest → g ∈ c.stack ∨ NewFrame c a g := by
    intro f call remain pre rest hs hp hm
    rcases hp with rfl | rfl
    · exact hpush hm trivial (hrest hs)
    · exact hpush hm trivial fun hm => hpush hm trivial (hrest hs)
  cases h with
  | control h =>
    cases h with
    | ignored hu => exact .inl hg
    | shutdown hu hs => exact hpush hg ⟨_, rfl, nofun⟩ .inl
    | forceClose hu hs => exact hpush hg ⟨_, rfl, nofun⟩ .inl
    | skip h hf => exact hrest h hg
    | forceCloseInLoop h hs | drainedShutdown h hs | drainedClose h hs | eof h =>
      exact hpush hg trivial (hrest h)
    | notWritten h hne hp => exact hpre h hp hg
  | send hu hs => exact hpush hg hs .inl
  | forceCloseAfter hu => exact .inl hg
  | establish h hs =>
    unfold establishConnection at hg
    rw [if_pos hs] at hg
    dsimp only at hg
    split at hg
    · exact hpush hg trivial (hrest h)
    · exact hrest h hg
  | destroy h =>
    unfold destroyConnection at hg
    dsimp only at hg
    split at hg
    · exact hpush hg trivial fun hg => hpush hg trivial (hrest h)
    · exact hpush hg trivial (hrest h)
  | establishFails h hs | closeFails h | handleCloseFails h hs => exact .inl hg
  | destroyClose h | discard h hs | queueEmpty h hs hne | wroteAll h hshut hlow | lost h hr
  | shut h hw | forceCloseAssign h | handleClosePending h hs hw | handleClose h hs hw
  | wroteSome h hshut hout hne => exact hrest h hg
  | buffer h =>
    unfold bufferRest at hg
    dsimp only at hg
    split at hg <;> exact hrest h hg
  | direct h hs hw ho | shutdownAssign h => exact hpush hg trivial (hrest h)
  | queue h hs hne hp => exact hpre h hp hg
  | wrote h hshut hne hp hlow => exact hpre h hp hg
  | handleRead h =>
    exact hpush hg (by rw [NewFrame, h]; exact List.mem_cons_self) (hrest h)
  | data h => exact hpush hg trivial (hrest h)
  | handleWrite h hp =>
    rcases hp with ⟨rfl, -⟩ | ⟨rfl, -⟩
    · exact hrest h hg
    · exact hpush hg trivial (hrest h)
  | drained h hshut hout hlow => exact hpush hg trivial fun hg => hpush hg trivial (hrest h)

/-- Only the frame on top goes. -/
theorem rest_kept {c c' : TcpConnection} {a : LocalLabel} {out : Option Outgoing}
    (h : LocalStep c a c' out) {f g : Frame} {rest : List Frame} (hs : c.stack = f :: rest)
    (hg : g ∈ rest) : g ∈ c'.stack := by
  have hall : g ∈ c.stack := by rw [hs]; exact List.mem_cons_of_mem f hg
  have hkept : ∀ {f' : Frame} {rest' : List Frame}, c.stack = f' :: rest' → g ∈ rest' := by
    intro f' rest' h'
    rw [hs] at h'
    rw [← (List.cons.inj h').2]
    exact hg
  cases h with
  | control h =>
    cases h with
    | ignored hu => exact hall
    | shutdown hu hs | forceClose hu hs => exact List.mem_cons_of_mem _ hall
    | skip h hf => exact hkept h
    | forceCloseInLoop h hs | drainedShutdown h hs | drainedClose h hs | eof h =>
      exact List.mem_cons_of_mem _ (hkept h)
    | notWritten h hne hp => exact List.mem_append_right _ (List.mem_cons_of_mem _ (hkept h))
  | send hu hs => exact List.mem_cons_of_mem _ hall
  | forceCloseAfter hu => exact hall
  | establish h hs =>
    unfold establishConnection
    rw [if_pos hs]
    dsimp only
    split
    · exact List.mem_cons_of_mem _ (hkept h)
    · exact hkept h
  | destroy h =>
    unfold destroyConnection
    dsimp only
    split
    · exact List.mem_cons_of_mem _ (List.mem_cons_of_mem _ (hkept h))
    · exact List.mem_cons_of_mem _ (hkept h)
  | establishFails h hs | closeFails h | handleCloseFails h hs => exact hall
  | destroyClose h | discard h hs | queueEmpty h hs hne | wroteAll h hshut hlow | lost h hr
  | shut h hw | forceCloseAssign h | handleClosePending h hs hw | handleClose h hs hw
  | wroteSome h hshut hout hne => exact hkept h
  | buffer h =>
    unfold bufferRest
    dsimp only
    split <;> exact hkept h
  | direct h hs hw ho | shutdownAssign h | handleRead h | data h =>
    exact List.mem_cons_of_mem _ (hkept h)
  | queue h hs hne hp => exact List.mem_append_right _ (List.mem_cons_of_mem _ (hkept h))
  | wrote h hshut hne hp hlow => exact List.mem_append_right _ (List.mem_cons_of_mem _ (hkept h))
  | handleWrite h hp => exact List.mem_append_right _ (hkept h)
  | drained h hshut hout hlow =>
    exact List.mem_cons_of_mem _ (List.mem_cons_of_mem _ (hkept h))

theorem call_stack (c : TcpConnection) (op : UserCall) :
    (c.call op).1.stack = c.stack ∨ ∃ f, (c.call op).1.stack = f :: c.stack := by
  cases op <;> unfold call <;> dsimp only
  case forceCloseAfter => exact .inl rfl
  all_goals
    split
    · exact .inr ⟨_, rfl⟩
    · exact .inl rfl

/-- User code goes on until it returns. -/
theorem user_kept {c c' : TcpConnection} {a : LocalLabel} {out : Option Outgoing}
    (h : c.localStep a = some (c', out)) (hu : .user ∈ c.stack) (ha : a ≠ .callbackReturns) :
    .user ∈ c'.stack := by
  cases hs : c.stack with
  | nil => rw [hs] at hu; cases hu
  | cons f rest =>
    rw [hs] at hu
    rcases List.mem_cons.mp hu with he | hr
    · rw [← he] at hs
      cases a with
      | call op =>
        obtain ⟨-, he⟩ := Option.ite_none_right_eq_some.mp h
        have hstack := c.call_stack op
        rw [Option.some.inj he, hs] at hstack
        rcases hstack with hstack | ⟨f, hstack⟩
        · rw [hstack]; exact List.mem_cons_self
        · rw [hstack]; exact List.mem_cons_of_mem _ List.mem_cons_self
      | callbackReturns => exact absurd rfl ha
      | next =>
        unfold localStep next at h
        rw [hs] at h
        cases h
      | write r =>
        unfold localStep at h
        rw [hs] at h
        cases h
      | read r =>
        unfold localStep at h
        rw [hs] at h
        cases h
    · exact rest_kept (localStep_cases h) hs hr

/-- How a step changes `state_`: apart from the assignments of `Shutdown` and `ForceClose`, it is
in `HandleClose` or `DestroyConnection` that a connected connection stops being that. -/
theorem state_localStep {c c' : TcpConnection} {a : LocalLabel} {out : Option Outgoing}
    (hn : ConnWorld.Nested c.stack) (h : LocalStep c a c' out) :
    (c'.state = c.state ∧ (c'.channel.readEnabled = true → c.channel.readEnabled = true))
      ∨ (∃ f ∈ c.stack, f.assigns = true)
      ∨ c'.state = .kConnected
      ∨ (c'.channel.readEnabled = false ∧ .user ∉ c.stack
        ∧ ∀ g ∈ c'.stack, g.connected = false) := by
  have htop : ∀ {f : Frame} {rest : List Frame}, c.stack = f :: rest → f ∈ c.stack := by
    intro f rest hs
    rw [hs]
    exact List.mem_cons_self
  have hclose : ∀ {rest : List Frame}, c.stack = .handleClose :: rest →
      .user ∉ c.stack ∧ ∀ g ∈ rest, g.connected = false := by
    intro rest hs
    rw [hs] at hn ⊢
    refine ⟨fun hu => ?_, fun g hg => ?_⟩
    · rcases List.mem_cons.mp hu with hu | hu
      · cases hu
      · cases hn.under hu
    · rw [show g = .handleWrite from hn.under hg]
      rfl
  cases h with
  | establish h hs =>
    refine .inr (.inr (.inl ?_))
    unfold establishConnection
    rw [if_pos hs]
    dsimp only
    split <;> rfl
  | @destroy rest h =>
    have hrest : rest = [] := by
      rw [h] at hn
      exact hn.alone fun _ hg => hg
    refine .inr (.inr (.inr ?_))
    unfold destroyConnection
    rw [h, hrest]
    dsimp only
    split
    · exact ⟨Channel.disableReadWrite_readEnabled _, by simp, by simp [Frame.connected]⟩
    · exact ⟨Channel.disableReadWrite_readEnabled _, by simp, by simp [Frame.connected]⟩
  | handleClosePending h hs hw =>
    obtain ⟨hu, hg⟩ := hclose h
    exact .inr (.inr (.inr ⟨Channel.disableRead_readEnabled _, hu, hg⟩))
  | handleClose h hs hw =>
    obtain ⟨hu, hg⟩ := hclose h
    refine .inr (.inr (.inr ⟨?_, hu, hg⟩))
    rw [Channel.disableWrite_readEnabled, Channel.disableRead_readEnabled]
  | shutdownAssign h | forceCloseAssign h => exact .inr (.inl ⟨_, htop h, rfl⟩)
  | buffer h =>
    refine .inl ?_
    unfold bufferRest
    dsimp only
    split
    · exact ⟨rfl, id⟩
    · exact ⟨rfl, fun hr => by rwa [← Channel.enableWrite_readEnabled]⟩
  | drained h hshut hout hlow =>
    exact .inl ⟨rfl, fun hr => by rwa [← Channel.disableWrite_readEnabled]⟩
  | _ => exact .inl ⟨rfl, id⟩

/-- Every call of `Send` in the loop thread comes to its `SendInLoop` next. -/
theorem ran_localStep {c c' : TcpConnection} {a : LocalLabel} {out : Option Outgoing}
    (hn : ConnWorld.Nested c.stack) (h : LocalStep c a c' out)
    (hr : c.ran.map Prod.fst ++ c.stack.filterMap Frame.entered = c.calls) :
    c'.ran.map Prod.fst ++ c'.stack.filterMap Frame.entered = c'.calls := by
  have hpop : ∀ {f : Frame} {rest stack : List Frame}, c.stack = f :: rest → f.entered = none →
      stack.filterMap Frame.entered = rest.filterMap Frame.entered →
      c.ran.map Prod.fst ++ stack.filterMap Frame.entered = c.calls := by
    intro f rest stack hs hf he
    rw [he, ← List.filterMap_cons_none hf, ← hs]
    exact hr
  have hpre : ∀ {call : SendCall} {remain : List OutByte} {pre rest : List Frame},
      (pre = [] ∨ pre = [.user]) → (pre ++ .bufferRest call remain :: rest).filterMap Frame.entered
        = rest.filterMap Frame.entered := by
    intro call remain pre rest hp
    rcases hp with rfl | rfl <;> rfl
  have hran : ∀ {call : SendCall} {rest stack : List Frame} {b : Bool},
      c.stack = .sendInLoop call :: rest →
      stack.filterMap Frame.entered = rest.filterMap Frame.entered →
      (c.ran ++ [(call, b)]).map Prod.fst ++ stack.filterMap Frame.entered = c.calls := by
    intro call rest stack b hs he
    rw [← hr, hs, he, List.map_append, List.append_assoc]
    rfl
  cases h with
  | control h =>
    cases h with
    | ignored hu | shutdown hu hs | forceClose hu hs => exact hr
    | @skip _ f rest h hf =>
      refine hpop h ?_ rfl
      cases f <;> first | rfl | exact hf.elim
    | forceCloseInLoop h hs | drainedShutdown h hs | drainedClose h hs | eof h =>
      exact hpop h rfl rfl
    | notWritten h hne hp => exact hpop h rfl (hpre hp)
  | @send message hu hs =>
    have hnone : c.stack.filterMap Frame.entered = [] := by
      refine List.filterMap_eq_nil_iff.mpr fun g hg => ?_
      have hw := hn.waits hu g hg
      cases g <;> first | rfl | exact hw.elim
    rw [hnone, List.append_nil] at hr
    have hone : (Frame.sendInLoop (c.nextCall c.tid message) :: c.stack).filterMap Frame.entered
        = [c.nextCall c.tid message] := congrArg (c.nextCall c.tid message :: ·) hnone
    show c.ran.map Prod.fst ++ (Frame.sendInLoop _ :: c.stack).filterMap Frame.entered = _
    rw [hone, hr]
  | forceCloseAfter hu => exact hr
  | establish h hs =>
    unfold establishConnection
    rw [if_pos hs]
    dsimp only
    split <;> exact hpop h rfl rfl
  | destroy h =>
    unfold destroyConnection
    dsimp only
    split <;> exact hpop h rfl rfl
  | establishFails h hs | closeFails h | handleCloseFails h hs => exact hr
  | discard h hs | direct h hs hw ho | queueEmpty h hs hne => exact hran h rfl
  | queue h hs hne hp => exact hran h (hpre hp)
  | wrote h hshut hne hp hlow => exact hpop h rfl (hpre hp)
  | buffer h =>
    unfold bufferRest
    dsimp only
    split <;> exact hpop h rfl rfl
  | handleWrite h hp =>
    refine hpop h rfl ?_
    rcases hp with ⟨rfl, -⟩ | ⟨rfl, -⟩ <;> rfl
  | destroyClose h | wroteAll h hshut hlow | lost h hr' | shutdownAssign h | shut h hw
  | forceCloseAssign h | handleClosePending h hs hw | handleClose h hs hw | handleRead h | data h
  | wroteSome h hshut hout hne | drained h hshut hout hlow => exact hpop h rfl rfl

/-- An empty output stays empty unless something is buffered. -/
theorem empty_localStep {c c' : TcpConnection} {a : LocalLabel} {out : Option Outgoing}
    (h : LocalStep c a c' out) (he : c.outputBuf.contents = [])
    (hb : ∀ call remain, .bufferRest call remain ∉ c.stack) : c'.outputBuf.contents = [] := by
  cases h with
  | establish h hs =>
    unfold establishConnection
    rw [if_pos hs]
    dsimp only
    split <;> exact he
  | destroy h =>
    unfold destroyConnection
    dsimp only
    split <;> exact he
  | buffer h => exact absurd (by rw [h]; exact List.mem_cons_self) (hb _ _)
  | wroteSome h hshut hout hne => exact absurd (by rw [hout, he, List.drop_nil]) hne
  | drained h hshut hout hlow => exact hout
  | _ => exact he

end TcpConnection

namespace ConnWorld

/-- The user calls `Send` and nothing else, in the loop thread; no write fails with `EPIPE` or
`ECONNRESET`. -/
def Serves (w : ConnWorld) (a : Label) : Prop :=
  w.PlainSends a ∧ w.LoopOnly a ∧ ∀ op, a = .run (.call op) → ∃ message, op = .send message

/-- The invariant of a connection that is served as a server serves it. -/
structure Serving (w : ConnWorld) : Prop where
  noAssign : ∀ f ∈ w.conn.stack, f.assigns = false
  readable : w.conn.channel.readEnabled = true → w.conn.state = .kConnected
  connected : ∀ f ∈ w.conn.stack, f.connected = true → w.conn.state = .kConnected
  ran : w.conn.ran.map Prod.fst ++ w.conn.stack.filterMap Frame.entered = w.conn.calls
  kept : ∀ p ∈ w.conn.ran, p.2 = true
  closed : .closeCb ∈ w.conn.trace → w.conn.outputBuf.contents = []

/-- Behind `close_cb_` the connection is closed or destroyed. -/
theorem Stage.closed_of_mem {w : ConnWorld} {p : Phase} (hs : Stage w p)
    (hc : .closeCb ∈ w.conn.trace) : p = .closed ∨ p = .destroyed := by
  have hcount := hs.life.counts.2.1
  have hpos := List.count_pos_iff.mpr hc
  cases p with
  | closed => exact .inl rfl
  | destroyed => exact .inr rfl
  | fresh | opened => rw [hcount] at hpos; exact absurd hpos (by decide)
  | announcing => exact absurd rfl hs.settled.1
  | announcingEnd => exact absurd rfl hs.settled.2

/-- Nothing is read, sent or buffered behind `close_cb_`. -/
theorem Stage.nothing_sent {w : ConnWorld} {p : Phase} (hs : Stage w p)
    (hc : .closeCb ∈ w.conn.trace) : ∀ f ∈ w.conn.stack, f.connected = false ∧ f.unbuffered = []
      ∧ f.entered = none ∧ ∀ call remain, f ≠ .bufferRest call remain := by
  intro f hf
  have hframe := hs.frames f hf
  rcases hs.closed_of_mem hc with rfl | rfl
  · rcases hframe with rfl | rfl | rfl | rfl | rfl <;> exact ⟨rfl, rfl, rfl, nofun⟩
  · rcases hframe with rfl | rfl | rfl | rfl <;> exact ⟨rfl, rfl, rfl, nofun⟩

theorem kept_localStep {c c' : TcpConnection} {a : LocalLabel} {out : Option Outgoing}
    (h : TcpConnection.LocalStep c a c' out) (hk : ∀ p ∈ c.ran, p.2 = true)
    (hs : ∀ call, .sendInLoop call ∈ c.stack → c.state ≠ .kDisconnected) :
    ∀ p ∈ c'.ran, p.2 = true := by
  have hadd : ∀ {call : SendCall}, ∀ p ∈ c.ran ++ [(call, true)], p.2 = true := by
    intro call p hp
    rcases List.mem_append.mp hp with hp | hp
    · exact hk p hp
    · rw [List.mem_singleton.mp hp]
  cases h with
  | discard h hd => exact absurd hd (hs _ (by rw [h]; exact List.mem_cons_self))
  | direct h hs hw ho | queue h hs hne hpre | queueEmpty h hs hne => exact hadd
  | establish h hs =>
    unfold TcpConnection.establishConnection
    rw [if_pos hs]
    dsimp only
    split <;> exact hk
  | destroy h =>
    unfold TcpConnection.destroyConnection
    dsimp only
    split <;> exact hk
  | buffer h =>
    unfold TcpConnection.bufferRest
    dsimp only
    split <;> exact hk
  | _ => exact hk

/-- What the step that calls `close_cb_` finds: an empty output, and no `DestroyConnection` yet. -/
theorem closes_empty {w : ConnWorld} {p : Phase} (hs : Stage w p) (hi : w.sender.Inv)
    (hc : callsCloseCb w.conn = true) : w.conn.outputBuf.contents = [] := by
  unfold callsCloseCb at hc
  split at hc
  · rename_i rest hstack
    obtain ⟨-, hw⟩ := of_decide_eq_true hc
    have hp := hs.opened_of_top hstack (opened_of_frame (by simp))
    have hd : ConnEvent.destroyConnection ∉ w.conn.trace := by
      rw [← List.count_eq_zero, hs.life.counts.2.2, hp]
      rfl
    by_contra hne
    have hen := (hi.enabled (decide_eq_false hd)).mpr hne
    rw [show w.conn.channel.writeEnabled = true from hen] at hw
    cases hw
  · cases hc

theorem serving_localStep {w : ConnWorld} {p : Phase} {c : TcpConnection} {a : LocalLabel}
    {out : Option Outgoing} (h : Serving w) (hn : Nested w.conn.stack) (hs : Stage w p)
    (hi : w.sender.Inv) (hop : ∀ op, a = .call op → ∃ message, op = .send message)
    (hstep : TcpConnection.LocalStep w.conn a c out) : Serving ({ w with conn := c }.emit out) := by
  have hstate := TcpConnection.state_localStep hn hstep
  have hassigns : ¬ ∃ f ∈ w.conn.stack, f.assigns = true := by
    rintro ⟨f, hf, he⟩
    rw [h.noAssign f hf] at he
    cases he
  constructor
  case noAssign =>
    rw [emit_conn]
    intro f hf
    rcases TcpConnection.new_frame hstep hf with hold | hnew
    · exact h.noAssign f hold
    · cases f with
      | shutdownAssign | forceCloseAssign =>
        obtain ⟨op, ha, hne⟩ := hnew
        obtain ⟨message, hsend⟩ := hop op ha
        exact absurd hsend (hne message)
      | _ => rfl
  case readable =>
    rw [emit_conn]
    intro hr
    rcases hstate with ⟨he, hread⟩ | hc | hc | ⟨hoff, -⟩
    · exact he.trans (h.readable (hread hr))
    · exact absurd hc hassigns
    · exact hc
    · exact absurd (hoff.symm.trans hr) nofun
  case connected =>
    rw [emit_conn]
    intro f hf hfc
    rcases hstate with ⟨he, -⟩ | hc | hc | ⟨-, -, hoff⟩
    · rw [show c.state = w.conn.state from he]
      rcases TcpConnection.new_frame hstep hf with hold | hnew
      · exact h.connected f hold hfc
      · cases f with
        | readSocket => exact h.connected _ hnew rfl
        | sendInLoop call => exact hnew
        | handleRead => exact hnew.elim
        | _ => cases hfc
    · exact absurd hc hassigns
    · exact hc
    · exact absurd ((hoff f hf).symm.trans hfc) nofun
  case ran =>
    rw [emit_conn]
    exact TcpConnection.ran_localStep hn hstep h.ran
  case kept =>
    rw [emit_conn]
    refine kept_localStep hstep h.kept fun call hm => ?_
    rw [h.connected _ hm rfl]
    exact nofun
  case closed =>
    rw [emit_conn]
    intro hc
    by_cases hold : ConnEvent.closeCb ∈ w.conn.trace
    · refine TcpConnection.empty_localStep hstep (h.closed hold) fun call remain hm => ?_
      exact (hs.nothing_sent hold _ hm).2.2.2 call remain rfl
    · rcases closeCb_localStep hstep with ⟨-, -, hcalls, -⟩ | ⟨-, hcount⟩
      · have hempty := closes_empty hs hi hcalls
        refine TcpConnection.empty_localStep hstep hempty fun call remain hm => ?_
        unfold callsCloseCb at hcalls
        split at hcalls
        · rename_i rest hstack
          rw [hstack] at hm hn
          rcases List.mem_cons.mp hm with hm | hm
          · cases hm
          · cases hn.under hm
        · cases hcalls
      · have hzero := List.count_eq_zero.mpr hold
        rw [hzero] at hcount
        exact absurd hc (List.count_eq_zero.mp hcount)

/-- The loop comes into the connection, with frames that need nothing of it. -/
theorem Serving.enter {w w' : ConnWorld} {frames : List Frame} (h : Serving w)
    (hs : w.conn.stack = []) (hw : w'.conn = { w.conn with stack := frames })
    (hassign : ∀ f ∈ frames, f.assigns = false)
    (hconnected : ∀ f ∈ frames, f.connected = true → w.conn.state = .kConnected)
    (hentered : frames.filterMap Frame.entered = []) : Serving w' := by
  constructor
  case noAssign => rw [hw]; exact hassign
  case readable => rw [hw]; exact h.readable
  case connected => rw [hw]; exact hconnected
  case ran =>
    have hr := h.ran
    rw [hs] at hr
    rw [hw]
    show w.conn.ran.map Prod.fst ++ frames.filterMap Frame.entered = _
    rw [hentered]
    exact hr
  case kept => rw [hw]; exact h.kept
  case closed => rw [hw]; exact h.closed

theorem serving_step {w w' : ConnWorld} {p : Phase} {a : Label} (h : Serving w)
    (hn : Nested w.conn.stack) (hs : Stage w p) (hi : w.sender.Inv) (hok : w.Serves a)
    (hstep : WorldStep w a w') : Serving w' := by
  obtain ⟨-, hloop, hop⟩ := hok
  cases hstep with
  | run hl => exact serving_localStep h hn hs hi (fun op ha => hop op (by rw [ha])) hl
  | establish he hstack =>
    exact h.enter hstack rfl (by simp [Frame.assigns]) (by simp [Frame.connected]) rfl
  | ownerAnswers hc => exact ⟨h.noAssign, h.readable, h.connected, h.ran, h.kept, h.closed⟩
  | @functor f rest hq hstack =>
    have hf := hs.queue f (by rw [hq]; exact List.mem_cons_self)
    rcases hf with rfl | rfl | rfl
    · exact h.enter hstack rfl (by simp [TcpConnection.functorFrames, Frame.assigns])
        (by simp [TcpConnection.functorFrames, Frame.connected]) rfl
    · exact h.enter hstack rfl (by simp [TcpConnection.functorFrames, Frame.assigns])
        (by simp [TcpConnection.functorFrames, Frame.connected]) rfl
    · exact h.enter hstack rfl (by simp [TcpConnection.functorFrames, Frame.assigns])
        (by simp [TcpConnection.functorFrames, Frame.connected]) rfl
  | timer ht hstack =>
    exact h.enter hstack rfl (by simp [Frame.assigns]) (by simp [Frame.connected]) rfl
  | @event error readable writable hr hstack =>
    refine h.enter hstack rfl ?_ ?_ ?_
    · cases error <;> cases readable <;> cases writable <;>
        simp [TcpConnection.eventFrames, Frame.assigns]
    · intro f hf hfc
      have hread : readable = true := by
        cases readable with
        | true => rfl
        | false =>
          cases error <;> cases writable <;> simp [TcpConnection.eventFrames] at hf <;>
            rcases hf with rfl | rfl <;> cases hfc
      exact h.readable ((of_decide_eq_true hr).2.1 hread)
    · cases error <;> cases readable <;> cases writable <;> rfl
  | threadSend | threadShutdown | threadForceClose | threadForceCloseAfter | threadIgnored
  | pushSend | assignShutdown | pushShutdown | assignForceClose | pushForceClose =>
    exact (hloop.not_thread rfl).elim

theorem serving_reachable {tid : ThreadId} {w : ConnWorld}
    (h : Reachable (machine tid) Serves w) : Serving w := by
  refine h.invariant (I := Serving) ?_ fun w a w' hr hi hok hs => ?_
  · rintro _ ⟨cb, low, high, rfl⟩
    exact ⟨nofun, by simp [create, TcpConnection.create], nofun, rfl, nofun, nofun⟩
  · obtain ⟨p, hp⟩ := stage_reachable (hr.mono fun _ _ hok => hok.2.1)
    exact serving_step hi (nested_reachable hr) hp (sender_inv hr) hok (step_cases hs).2

end ConnWorld

end Windz
