import Windz.Net.TcpConnection

/-!
# What a step inside a connection can do

`LocalStep` lists the ways a step of the loop thread inside a connection can go,
with what it is known to have tested and all that it changes. Most steps only move
in the code: these are the `Control` steps, of which there is only the new stack to
say. Every invariant of a connection is proved by cases on these, and none unfolds
the code again.
-/

namespace Windz

namespace TcpConnection

/-- The frame `f` can be left without doing anything. -/
def Skips (c : TcpConnection) : Frame → Prop
  | .user | .handleError | .readSocket | .writeOutput => True
  | .shutdownInLoop => c.channel.writeEnabled = true
  | .forceCloseInLoop => c.isOpen = false
  | .handleRead | .handleWrite => c.channel.handlers = false
  | .drainedShutdown => c.state ≠ .kDisconnecting
  | .drainedClose => c.state ≠ .kDisconnected
  | _ => False

/-- A step that only changes the stack, to the one given. -/
inductive Control (c : TcpConnection) : LocalLabel → List Frame → Prop where
  | ignored {op : UserCall} (hu : c.atUser = true) : Control c (.call op) c.stack
  | shutdown (hu : c.atUser = true) (hs : c.state = .kConnected) :
      Control c (.call .shutdown) (.shutdownAssign :: c.stack)
  | forceClose (hu : c.atUser = true) (hs : c.isOpen = true) :
      Control c (.call .forceClose) (.forceCloseAssign :: c.stack)
  | skip {a : LocalLabel} {f : Frame} {rest : List Frame} (h : c.stack = f :: rest)
      (hf : c.Skips f) : Control c a rest
  | forceCloseInLoop {rest : List Frame} (h : c.stack = .forceCloseInLoop :: rest)
      (hs : c.isOpen = true) : Control c .next (.handleClose :: rest)
  | drainedShutdown {rest : List Frame} (h : c.stack = .drainedShutdown :: rest)
      (hs : c.state = .kDisconnecting) : Control c .next (.shutdownInLoop :: rest)
  | drainedClose {rest : List Frame} (h : c.stack = .drainedClose :: rest)
      (hs : c.state = .kDisconnected) : Control c .next (.handleClose :: rest)
  | eof {rest : List Frame} (h : c.stack = .readSocket :: rest) :
      Control c (.read .eof) (.handleClose :: rest)
  | notWritten {r : WriteResult} {call : SendCall} {pre rest : List Frame}
      (h : c.stack = .directWrite call :: rest) (hne : call.bytes ≠ [])
      (hpre : pre = [] ∨ pre = [.user]) :
      Control c (.write r) (pre ++ .bufferRest call call.bytes :: rest)

/-- A step inside a connection. -/
inductive LocalStep (c : TcpConnection) :
    LocalLabel → TcpConnection → Option Outgoing → Prop where
  | control {a : LocalLabel} {stack : List Frame} (h : Control c a stack) :
      LocalStep c a { c with stack } none
  | send {message : List UInt8} (hu : c.atUser = true) (hs : c.state = .kConnected) :
      LocalStep c (.call (.send message))
        { c with
          calls := c.calls ++ [c.nextCall c.tid message]
          stack := .sendInLoop (c.nextCall c.tid message) :: c.stack } none
  | forceCloseAfter (hu : c.atUser = true) :
      LocalStep c (.call .forceCloseAfter) c (some .runAfter)
  | establish {rest : List Frame} (h : c.stack = .establishConnection :: rest)
      (hs : c.state = .kConnecting) : LocalStep c .next (c.establishConnection rest) none
  | establishFails {rest : List Frame} (h : c.stack = .establishConnection :: rest)
      (hs : c.state ≠ .kConnecting) :
      LocalStep c .next { c with failed := some .establishConnection } none
  | destroy {rest : List Frame} (h : c.stack = .destroyConnection :: rest) :
      LocalStep c .next (c.destroyConnection rest) none
  | destroyClose {rest : List Frame} (h : c.stack = .destroyClose :: rest) :
      LocalStep c .next { c with channel := c.channel.close, stack := rest } none
  | closeFails {rest : List Frame} (h : c.stack = .destroyClose :: rest) :
      LocalStep c .next { c with failed := some .channelClose } none
  -- `SendInLoop`
  | discard {call : SendCall} {rest : List Frame} (h : c.stack = .sendInLoop call :: rest)
      (hs : c.state = .kDisconnected) :
      LocalStep c .next ({ c with ran := c.ran ++ [(call, false)] }.finishSend call rest) none
  | direct {call : SendCall} {rest : List Frame} (h : c.stack = .sendInLoop call :: rest)
      (hs : c.state ≠ .kDisconnected) (hw : c.channel.writeEnabled = false)
      (ho : c.outputBuf.contents = []) :
      LocalStep c .next
        { c with ran := c.ran ++ [(call, true)], stack := .directWrite call :: rest } none
  | queue {call : SendCall} {pre rest : List Frame} (h : c.stack = .sendInLoop call :: rest)
      (hs : c.state ≠ .kDisconnected) (hne : call.bytes ≠ []) (hpre : pre = [] ∨ pre = [.user]) :
      LocalStep c .next
        { c with
          ran := c.ran ++ [(call, true)]
          stack := pre ++ .bufferRest call call.bytes :: rest } none
  | queueEmpty {call : SendCall} {rest : List Frame} (h : c.stack = .sendInLoop call :: rest)
      (hs : c.state ≠ .kDisconnected) (hne : call.bytes = []) :
      LocalStep c .next ({ c with ran := c.ran ++ [(call, true)] }.finishSend call rest) none
  | wrote {n : Nat} {call : SendCall} {pre rest : List Frame} {low : Option Outgoing}
      (h : c.stack = .directWrite call :: rest) (hshut : c.shutWrite = false)
      (hne : call.bytes.drop n ≠ []) (hpre : pre = [] ∨ pre = [.user])
      (hlow : low = none ∨ low = some (.queueInLoop .lowWatermark)) :
      LocalStep c (.write (.wrote n))
        { c with
          accepted := c.accepted ++ call.bytes.take n
          stack := pre ++ .bufferRest call (call.bytes.drop n) :: rest } low
  | wroteAll {n : Nat} {call : SendCall} {rest : List Frame} {low : Option Outgoing}
      (h : c.stack = .directWrite call :: rest) (hshut : c.shutWrite = false)
      (hlow : low = none ∨ low = some (.queueInLoop .lowWatermark)) :
      LocalStep c (.write (.wrote n))
        ({ c with accepted := c.accepted ++ call.bytes }.finishSend call rest) low
  | lost {r : WriteResult} {call : SendCall} {rest : List Frame}
      (h : c.stack = .directWrite call :: rest)
      (hr : r = .pipe ∨ r = .connReset ∨ call.bytes = []) :
      LocalStep c (.write r) (c.finishSend call rest) none
  | buffer {call : SendCall} {remain : List OutByte} {rest : List Frame}
      (h : c.stack = .bufferRest call remain :: rest) :
      LocalStep c .next (c.bufferRest call remain rest) none
  -- `Shutdown` and `ForceClose`
  | shutdownAssign {rest : List Frame} (h : c.stack = .shutdownAssign :: rest) :
      LocalStep c .next { c with state := .kDisconnecting, stack := .shutdownInLoop :: rest } none
  | shut {rest : List Frame} (h : c.stack = .shutdownInLoop :: rest)
      (hw : c.channel.writeEnabled = false) :
      LocalStep c .next { c with shutWrite := true, stack := rest } none
  | forceCloseAssign {rest : List Frame} (h : c.stack = .forceCloseAssign :: rest) :
      LocalStep c .next { c with state := .kDisconnected, stack := rest }
        (some (.queueInLoop .forceCloseInLoop))
  -- `HandleClose`
  | handleClosePending {rest : List Frame} (h : c.stack = .handleClose :: rest)
      (hs : c.state ≠ .kConnecting) (hw : c.channel.writeEnabled = true) :
      LocalStep c .next
        { c with
          state := .kDisconnected
          channel := c.channel.disableRead
          trace := c.logged .handleClose
          stack := rest } none
  | handleClose {rest : List Frame} (h : c.stack = .handleClose :: rest)
      (hs : c.state ≠ .kConnecting) (hw : c.channel.writeEnabled = false) :
      LocalStep c .next
        { c with
          state := .kDisconnected
          channel := c.channel.disableRead.disableWrite
          trace := c.trace ++ [ConnEvent.handleClose, ConnEvent.closeCb]
          stack := rest } (some .closeCb)
  | handleCloseFails {rest : List Frame} (h : c.stack = .handleClose :: rest)
      (hs : c.state = .kConnecting) :
      LocalStep c .next { c with failed := some .handleClose } none
  -- `HandleRead` and `HandleWrite`
  | handleRead {rest : List Frame} (h : c.stack = .handleRead :: rest) :
      LocalStep c .next
        { c with trace := c.logged .handleRead, stack := .readSocket :: rest } none
  | data {rest : List Frame} (h : c.stack = .readSocket :: rest) :
      LocalStep c (.read .data)
        { c with trace := c.logged .messageCb, stack := .user :: rest } none
  | handleWrite {pre rest : List Frame} (h : c.stack = .handleWrite :: rest)
      (hpre : pre = [] ∧ c.channel.writeEnabled = false
        ∨ pre = [.writeOutput] ∧ c.channel.writeEnabled = true) :
      LocalStep c .next { c with trace := c.logged .handleWrite, stack := pre ++ rest } none
  | wroteSome {n : Nat} {rest : List Frame} {out : ValidBuffer OutByte}
      (h : c.stack = .writeOutput :: rest) (hshut : c.shutWrite = false)
      (hout : out.contents = c.outputBuf.contents.drop n) (hne : out.contents ≠ []) :
      LocalStep c (.write (.wrote n))
        { c with
          accepted := c.accepted ++ c.outputBuf.contents.take n
          outputBuf := out
          stack := rest } none
  | drained {n : Nat} {rest : List Frame} {out : ValidBuffer OutByte} {low : Option Outgoing}
      (h : c.stack = .writeOutput :: rest) (hshut : c.shutWrite = false)
      (hout : out.contents = []) (hlow : low = none ∨ low = some (.queueInLoop .lowWatermark)) :
      LocalStep c (.write (.wrote n))
        { c with
          accepted := c.accepted ++ c.outputBuf.contents
          outputBuf := out
          channel := c.channel.disableWrite
          stack := .drainedShutdown :: .drainedClose :: rest } low

/-! ## From the code to the list -/

/-- Behind the direct write, the rest waits to be buffered, perhaps behind a callback, or there is
none and `SendInLoop` returns. -/
theorem appendRemain_cases (c : TcpConnection) (call : SendCall) (remain : List OutByte)
    (rest : List Frame) :
    (remain = [] ∧ c.appendRemain call remain rest = c.finishSend call rest)
      ∨ (remain ≠ [] ∧ ∃ pre : List Frame, (pre = [] ∨ pre = [.user])
        ∧ c.appendRemain call remain rest
          = { c with stack := pre ++ .bufferRest call remain :: rest }) := by
  unfold appendRemain
  by_cases hne : remain = []
  · exact .inl ⟨hne, if_pos hne⟩
  · rw [if_neg hne]
    refine .inr ⟨hne, ?_⟩
    dsimp only
    split
    · exact ⟨[.user], .inr rfl, rfl⟩
    · exact ⟨[], .inl rfl, rfl⟩

theorem call_cases {c c' : TcpConnection} {op : UserCall} {out : Option Outgoing}
    (hu : c.atUser = true) (hs : c.call op = (c', out)) : LocalStep c (.call op) c' out := by
  have hignored : LocalStep c (.call op) c none := .control (.ignored hu)
  cases op with
  | send message =>
    unfold call at hs
    dsimp only at hs
    split at hs
    · rename_i hstate
      cases hs
      exact .send hu hstate
    · cases hs
      exact hignored
  | shutdown =>
    unfold call at hs
    dsimp only at hs
    split at hs
    · rename_i hstate
      cases hs
      exact .control (.shutdown hu hstate)
    · cases hs
      exact hignored
  | forceClose =>
    unfold call at hs
    dsimp only at hs
    split at hs
    · rename_i hopen
      cases hs
      exact .control (.forceClose hu hopen)
    · cases hs
      exact hignored
  | forceCloseAfter =>
    cases hs
    exact .forceCloseAfter hu

theorem sendInLoop_cases {c : TcpConnection} {call : SendCall} {rest : List Frame}
    (h : c.stack = .sendInLoop call :: rest) :
    LocalStep c .next (c.sendInLoop call rest) none := by
  unfold sendInLoop
  split
  · rename_i hs
    exact .discard h hs
  · rename_i hs
    dsimp only
    split
    · rename_i hfast
      refine .direct h hs ?_ ((ValidBuffer.readableBytes_eq_zero _).mp hfast.2)
      cases hw : c.channel.writeEnabled with
      | false => rfl
      | true => rw [hw] at hfast; exact absurd hfast.1 Bool.false_ne_true
    · rcases appendRemain_cases { c with ran := c.ran ++ [(call, true)] } call call.bytes rest with
        ⟨hnil, he⟩ | ⟨hne, pre, hpre, he⟩
      · rw [he]
        exact .queueEmpty h hs hnil
      · rw [he]
        exact .queue h hs hne hpre

theorem directWrite_cases {c c' : TcpConnection} {call : SendCall} {r : WriteResult}
    {rest : List Frame} {out : Option Outgoing} (h : c.stack = .directWrite call :: rest)
    (hs : c.directWrite call r rest = some (c', out)) : LocalStep c (.write r) c' out := by
  have hkept : ∀ r : WriteResult, LocalStep c (.write r) (c.appendRemain call call.bytes rest) none := by
    intro r
    rcases appendRemain_cases c call call.bytes rest with ⟨hnil, he⟩ | ⟨hne, pre, hpre, he⟩
    · rw [he]
      exact .lost h (.inr (.inr hnil))
    · rw [he]
      exact .control (.notWritten h hne hpre)
  cases r with
  | wrote n =>
    unfold directWrite at hs
    dsimp only at hs
    split at hs
    · rename_i hok
      have hshut : c.shutWrite = false := by
        cases hw : c.shutWrite with
        | false => rfl
        | true => rw [hw] at hok; exact absurd hok.2 Bool.false_ne_true
      have hlow : ∀ p : Prop, [Decidable p] →
          (if p then some (Outgoing.queueInLoop .lowWatermark) else none) = none
            ∨ (if p then some (Outgoing.queueInLoop .lowWatermark) else none)
              = some (.queueInLoop .lowWatermark) := by
        intro p _
        split
        · exact .inr rfl
        · exact .inl rfl
      cases hs
      rcases appendRemain_cases { c with accepted := c.accepted ++ call.bytes.take n } call
        (call.bytes.drop n) rest with ⟨hnil, he⟩ | ⟨hne, pre, hpre, he⟩
      · rw [he, List.take_of_length_le (List.drop_eq_nil_iff.mp hnil)]
        exact .wroteAll h hshut (hlow _)
      · rw [he]
        exact .wrote h hshut hne hpre (hlow _)
    · exact absurd hs (by simp)
  | pipe => cases hs; exact .lost h (.inl rfl)
  | connReset => cases hs; exact .lost h (.inr (.inl rfl))
  | wouldBlock => cases hs; exact hkept _
  | interrupted => cases hs; exact hkept _
  | otherError => cases hs; exact hkept _

theorem writeOutput_cases {c c' : TcpConnection} {r : WriteResult} {rest : List Frame}
    {out : Option Outgoing} (h : c.stack = .writeOutput :: rest)
    (hs : c.writeOutput r rest = some (c', out)) : LocalStep c (.write r) c' out := by
  have hskip : ∀ r : WriteResult, LocalStep c (.write r) { c with stack := rest } none :=
    fun r => .control (.skip h trivial)
  cases r with
  | wrote n =>
    unfold writeOutput at hs
    dsimp only at hs
    split at hs
    · rename_i hok
      have hshut : c.shutWrite = false := by
        cases hw : c.shutWrite with
        | false => rfl
        | true => rw [hw] at hok; exact absurd hok.2 Bool.false_ne_true
      split at hs
      · split at hs
        · rename_i hzero
          have hnil := (ValidBuffer.readableBytes_eq_zero _).mp hzero
          -- everything readable was written
          have hall : c.outputBuf.contents.take n = c.outputBuf.contents := by
            rw [ValidBuffer.release_contents hok.1] at hnil
            exact List.take_of_length_le (List.drop_eq_nil_iff.mp hnil)
          cases hs
          rw [hall]
          refine .drained h hshut hnil ?_
          split
          · exact .inr rfl
          · exact .inl rfl
        · rename_i hzero
          cases hs
          refine .wroteSome h hshut (ValidBuffer.release_contents hok.1) ?_
          exact fun hnil => hzero ((ValidBuffer.readableBytes_eq_zero _).mpr hnil)
      · cases hs
        exact hskip _
    · exact absurd hs (by simp)
  | pipe | connReset | wouldBlock | interrupted | otherError => cases hs; exact hskip _

theorem handleClose_cases {c : TcpConnection} {rest : List Frame}
    (h : c.stack = .handleClose :: rest) :
    LocalStep c .next (c.handleClose rest).1 (c.handleClose rest).2 := by
  unfold handleClose
  split
  · rename_i hs
    exact .handleCloseFails h hs
  · rename_i hs
    dsimp only
    rw [Channel.disableRead_writeEnabled]
    split
    · rename_i hw
      exact .handleClosePending h hs hw
    · rename_i hw
      show LocalStep c .next { c with
        state := .kDisconnected
        channel := c.channel.disableRead.disableWrite
        trace := (c.trace ++ [ConnEvent.handleClose]) ++ [ConnEvent.closeCb]
        stack := rest } _
      rw [List.append_assoc]
      exact .handleClose h hs (Bool.eq_false_iff.mpr hw)

theorem next_cases {c c' : TcpConnection} {out : Option Outgoing} (hs : c.next = some (c', out)) :
    LocalStep c .next c' out := by
  unfold next at hs
  split at hs
  · exact absurd hs (by simp)
  · exact absurd hs (by simp)
  · exact absurd hs (by simp)
  · exact absurd hs (by simp)
  · exact absurd hs (by simp)
  · rename_i rest h
    cases hs
    by_cases hstate : c.state = .kConnecting
    · exact .establish h hstate
    · rw [establishConnection, if_neg hstate]
      exact .establishFails h hstate
  · rename_i rest h
    cases hs
    exact .destroy h
  · rename_i rest h
    cases hs
    unfold destroyClose
    split
    · exact .destroyClose h
    · exact .closeFails h
  · rename_i call rest h
    cases hs
    exact sendInLoop_cases h
  · rename_i call remain rest h
    cases hs
    exact .buffer h
  · rename_i rest h
    cases hs
    exact .shutdownAssign h
  · rename_i rest h
    cases hs
    split
    · rename_i hw
      exact .control (.skip h hw)
    · rename_i hw
      exact .shut h (Bool.eq_false_iff.mpr hw)
  · rename_i rest h
    cases hs
    exact .forceCloseAssign h
  · rename_i rest h
    cases hs
    split
    · rename_i hopen
      exact .control (.forceCloseInLoop h hopen)
    · rename_i hopen
      exact .control (.skip h (Bool.eq_false_iff.mpr hopen))
  · rename_i rest h
    cases hs
    exact .control (.skip h trivial)
  · rename_i rest h
    cases hs
    split
    · exact .handleRead h
    · rename_i hh
      exact .control (.skip h (Bool.eq_false_iff.mpr hh))
  · rename_i rest h
    cases hs
    split
    · split
      · rename_i hw
        exact .handleWrite h (.inr ⟨rfl, hw⟩)
      · rename_i hw
        exact .handleWrite h (.inl ⟨rfl, Bool.eq_false_iff.mpr hw⟩)
    · rename_i hh
      exact .control (.skip h (Bool.eq_false_iff.mpr hh))
  · rename_i rest h
    cases hs
    split
    · rename_i hstate
      exact .control (.drainedShutdown h hstate)
    · rename_i hstate
      exact .control (.skip h hstate)
  · rename_i rest h
    cases hs
    split
    · rename_i hstate
      exact .control (.drainedClose h hstate)
    · rename_i hstate
      exact .control (.skip h hstate)
  · rename_i rest h
    have hc := handleClose_cases h
    rw [Option.some.inj hs] at hc
    exact hc

/-- **A step of the code is one of the list.** -/
theorem localStep_cases {c c' : TcpConnection} {a : LocalLabel} {out : Option Outgoing}
    (hs : c.localStep a = some (c', out)) : LocalStep c a c' out := by
  unfold localStep at hs
  cases a with
  | call op =>
    dsimp only at hs
    split at hs
    · rename_i hu
      exact call_cases hu (Option.some.inj hs)
    · exact absurd hs (by simp)
  | callbackReturns =>
    dsimp only at hs
    split at hs
    · rename_i rest h
      cases hs
      exact .control (.skip h trivial)
    · exact absurd hs (by simp)
  | next => exact next_cases hs
  | write r =>
    dsimp only at hs
    split at hs
    · rename_i call rest h
      exact directWrite_cases h hs
    · rename_i rest h
      exact writeOutput_cases h hs
    · exact absurd hs (by simp)
  | read r =>
    dsimp only at hs
    split at hs
    · rename_i rest h
      cases hs
      cases r with
      | data => exact .data h
      | eof => exact .control (.eof h)
      | error => exact .control (.skip h trivial)
    · exact absurd hs (by simp)

end TcpConnection

end Windz
