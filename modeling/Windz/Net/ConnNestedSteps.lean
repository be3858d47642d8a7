import Windz.Net.ConnSender

/-!
# What a step adds to the output

`output` is what has gone out or waits to, and `put` what a step adds to it. A `Send` that is
called while another is in progress lies above it on the stack, in frames that have no bytes
of the outer call.
-/

namespace Windz

open Lib

/-- What the direct write sends. -/
def SendCall.written (call : SendCall) : WriteResult → List OutByte
  | .wrote n => call.bytes.take n
  | .wouldBlock | .interrupted | .pipe | .connReset | .otherError => []

theorem SendCall.bytes_own (call : SendCall) : ∀ b ∈ call.bytes, b.call = call.id := by
  intro b hb
  obtain ⟨byte, _, he⟩ := List.mem_map.mp hb
  rw [← he]

theorem SendCall.written_subset (call : SendCall) (r : WriteResult) :
    call.written r ⊆ call.bytes := by
  cases r with
  | wrote n => exact List.take_subset n _
  | _ => exact List.nil_subset _

/-- The frame has no bytes of the call with this number. -/
def Frame.Other (id : Nat) : Frame → Prop
  | .sendInLoop call | .directWrite call => call.id ≠ id
  | .bufferRest _ remain => ∀ b ∈ remain, b.call ≠ id
  | _ => True

namespace TcpConnection

/-- The bytes the socket has taken, and those of `output_buf_` behind them. -/
def output (c : TcpConnection) : List OutByte := c.accepted ++ c.outputBuf.contents

/-- What a step adds to the output. -/
def put (c : TcpConnection) (a : LocalLabel) : List OutByte :=
  match a, c.stack with
  | .write r, .directWrite call :: _ => call.written r
  | .next, .bufferRest _ remain :: _ => remain
  | _, _ => []

theorem appendRemain_output (c : TcpConnection) (call : SendCall) (remain : List OutByte)
    (rest : List Frame) : (c.appendRemain call remain rest).accepted = c.accepted
      ∧ (c.appendRemain call remain rest).outputBuf = c.outputBuf := by
  rcases appendRemain_cases c call remain rest with ⟨_, he⟩ | ⟨_, pre, _, he⟩
  · rw [he]
    exact ⟨rfl, rfl⟩
  · rw [he]
    exact ⟨rfl, rfl⟩

theorem directWrite_output {c c' : TcpConnection} {call : SendCall} {r : WriteResult}
    {rest : List Frame} {out : Option Outgoing} (h : c.directWrite call r rest = some (c', out)) :
    c'.accepted = c.accepted ++ call.written r ∧ c'.outputBuf = c.outputBuf := by
  have hsame : ∀ {d : TcpConnection}, d.accepted = c.accepted ∧ d.outputBuf = c.outputBuf →
      d.accepted = c.accepted ++ [] ∧ d.outputBuf = c.outputBuf := by
    intro d ⟨ha, hb⟩
    exact ⟨by rw [List.append_nil, ha], hb⟩
  cases r with
  | wrote n =>
    obtain ⟨_, h⟩ := Option.ite_none_right_eq_some.mp h
    obtain ⟨hc, _⟩ := Prod.mk.inj (Option.some.inj h)
    rw [← hc]
    exact appendRemain_output _ call _ rest
  | pipe | connReset =>
    obtain ⟨hc, _⟩ := Prod.mk.inj (Option.some.inj h)
    rw [← hc]
    exact hsame ⟨rfl, rfl⟩
  | wouldBlock | interrupted | otherError =>
    obtain ⟨hc, _⟩ := Prod.mk.inj (Option.some.inj h)
    rw [← hc]
    exact hsame (appendRemain_output c call _ rest)

theorem bufferRest_output (c : TcpConnection) (call : SendCall) (remain : List OutByte)
    (rest : List Frame) : (c.bufferRest call remain rest).output = c.output ++ remain := by
  have he : (c.bufferRest call remain rest).output
      = c.accepted ++ (c.outputBuf.write remain).contents := by
    unfold bufferRest output
    dsimp only
    split <;> rfl
  rw [he, ValidBuffer.write_contents, ← List.append_assoc]
  rfl

/-! ## The steps of the outer call -/

/-- On most frames the step is `next`. -/
theorem localStep_next {c c' : TcpConnection} {a : LocalLabel} {out : Option Outgoing} {f : Frame}
    {rest : List Frame} (h : c.stack = f :: rest)
    (hf : f ≠ .user ∧ (∀ call, f ≠ .directWrite call) ∧ f ≠ .writeOutput ∧ f ≠ .readSocket)
    (hs : c.localStep a = some (c', out)) : c.next = some (c', out) := by
  obtain ⟨huser, hdirect, hwrite, hread⟩ := hf
  cases a with
  | next => exact hs
  | call op => simp [localStep, atUser, h, huser] at hs
  | callbackReturns => simp [localStep, h, huser] at hs
  | write r => simp [localStep, h, hdirect, hwrite] at hs
  | read r => simp [localStep, h, hread] at hs

theorem localStep_sendInLoop {c c' : TcpConnection} {a : LocalLabel} {out : Option Outgoing}
    {call : SendCall} {rest : List Frame} (h : c.stack = .sendInLoop call :: rest)
    (hs : c.localStep a = some (c', out)) : c' = c.sendInLoop call rest := by
  have hnext := localStep_next h (by simp) hs
  unfold next at hnext
  rw [h] at hnext
  exact (Prod.mk.inj (Option.some.inj hnext)).1.symm

theorem localStep_bufferRest {c c' : TcpConnection} {a : LocalLabel} {out : Option Outgoing}
    {call : SendCall} {remain : List OutByte} {rest : List Frame}
    (h : c.stack = .bufferRest call remain :: rest) (hs : c.localStep a = some (c', out)) :
    c' = c.bufferRest call remain rest := by
  have hnext := localStep_next h (by simp) hs
  unfold next at hnext
  rw [h] at hnext
  exact (Prod.mk.inj (Option.some.inj hnext)).1.symm

theorem localStep_directWrite {c c' : TcpConnection} {a : LocalLabel} {out : Option Outgoing}
    {call : SendCall} {rest : List Frame} (h : c.stack = .directWrite call :: rest)
    (hs : c.localStep a = some (c', out)) :
    ∃ r, a = .write r ∧ c.directWrite call r rest = some (c', out) := by
  cases a with
  | write r =>
    simp only [localStep, h] at hs
    exact ⟨r, rfl, hs⟩
  | call op => simp [localStep, atUser, h] at hs
  | next => simp [localStep, next, h] at hs
  | callbackReturns | read r => simp [localStep, h] at hs

/-! ## What a step adds -/

/-- Without a direct write, only `output_buf_.Write` adds to the output. -/
theorem put_eq_nil {c : TcpConnection} {f : Frame} {rest : List Frame} {a : LocalLabel}
    (h : c.stack = f :: rest) (hd : ∀ call, f ≠ .directWrite call)
    (hb : ∀ call remain, f ≠ .bufferRest call remain) : c.put a = [] := by
  unfold put
  rw [h]
  split
  · rename_i call _ he
    exact absurd (List.cons.inj he).1 (hd call)
  · rename_i call remain _ he
    exact absurd (List.cons.inj he).1 (hb call remain)
  · rfl

theorem output_control {c : TcpConnection} {a : LocalLabel} {stack : List Frame}
    (hd : ∀ call rest, c.stack ≠ .directWrite call :: rest) (hs : Control c a stack) :
    c.put a = [] := by
  cases hs with
  | ignored hu => rfl
  | shutdown hu hs => rfl
  | forceClose hu hs => rfl
  | skip h hf =>
    refine put_eq_nil h (fun call he => ?_) fun call remain he => ?_
    · rw [he] at hf
      exact hf
    · rw [he] at hf
      exact hf
  | forceCloseInLoop h hs => exact put_eq_nil h (by simp) (by simp)
  | drainedShutdown h hs => exact put_eq_nil h (by simp) (by simp)
  | drainedClose h hs => exact put_eq_nil h (by simp) (by simp)
  | eof h => exact put_eq_nil h (by simp) (by simp)
  | notWritten h hne hpre => exact absurd h (hd _ _)

/-- **What a step does to the output.** -/
theorem output_localStep {c c' : TcpConnection} {a : LocalLabel} {out : Option Outgoing}
    (hdirect : ∀ call rest, c.stack = .directWrite call :: rest → c.outputBuf.contents = [])
    (hs : c.localStep a = some (c', out)) : c'.output = c.output ++ c.put a := by
  by_cases hd : ∃ call rest, c.stack = .directWrite call :: rest
  · obtain ⟨call, rest, hstk⟩ := hd
    obtain ⟨r, ha, hw⟩ := localStep_directWrite hstk hs
    obtain ⟨hacc, hbuf⟩ := directWrite_output hw
    have hput : c.put a = call.written r := by
      unfold put
      rw [ha, hstk]
    unfold output
    rw [hacc, hbuf, hdirect call rest hstk, hput, List.append_nil, List.append_nil]
  · have hd : ∀ call rest, c.stack ≠ .directWrite call :: rest := by
      intro call rest he
      exact hd ⟨call, rest, he⟩
    -- the other steps leave the output alone, or move some of the buffer to the socket
    have hsame : ∀ {d : TcpConnection} {a : LocalLabel}, c.put a = [] →
        d.output = c.output → d.output = c.output ++ c.put a := by
      intro d a hput he
      rw [hput, List.append_nil, he]
    cases localStep_cases hs with
    | control hc => exact hsame (output_control hd hc) rfl
    | send hu hstate => exact hsame rfl rfl
    | forceCloseAfter hu => exact hsame rfl rfl
    | establish h hstate =>
      refine hsame (put_eq_nil h (by simp) (by simp)) ?_
      unfold establishConnection
      rw [if_pos hstate]
      dsimp only
      split <;> rfl
    | establishFails h hs => exact hsame (put_eq_nil h (by simp) (by simp)) rfl
    | destroy h =>
      refine hsame (put_eq_nil h (by simp) (by simp)) ?_
      unfold destroyConnection
      dsimp only
      split <;> rfl
    | destroyClose h => exact hsame (put_eq_nil h (by simp) (by simp)) rfl
    | closeFails h => exact hsame (put_eq_nil h (by simp) (by simp)) rfl
    | discard h hs => exact hsame (put_eq_nil h (by simp) (by simp)) rfl
    | direct h hs hw ho => exact hsame (put_eq_nil h (by simp) (by simp)) rfl
    | queue h hs hne hpre => exact hsame (put_eq_nil h (by simp) (by simp)) rfl
    | queueEmpty h hs hne => exact hsame (put_eq_nil h (by simp) (by simp)) rfl
    | wrote h hshut hne hpre hlow => exact absurd h (hd _ _)
    | wroteAll h hshut hlow => exact absurd h (hd _ _)
    | lost h hr => exact absurd h (hd _ _)
    | @buffer call remain rest h =>
      have hput : c.put .next = remain := by
        unfold put
        rw [h]
      rw [hput, bufferRest_output]
    | shutdownAssign h => exact hsame (put_eq_nil h (by simp) (by simp)) rfl
    | shut h hw => exact hsame (put_eq_nil h (by simp) (by simp)) rfl
    | forceCloseAssign h => exact hsame (put_eq_nil h (by simp) (by simp)) rfl
    | handleClosePending h hs hw => exact hsame (put_eq_nil h (by simp) (by simp)) rfl
    | handleClose h hs hw => exact hsame (put_eq_nil h (by simp) (by simp)) rfl
    | handleCloseFails h hs => exact hsame (put_eq_nil h (by simp) (by simp)) rfl
    | handleRead h => exact hsame (put_eq_nil h (by simp) (by simp)) rfl
    | data h => exact hsame (put_eq_nil h (by simp) (by simp)) rfl
    | handleWrite h hpre => exact hsame (put_eq_nil h (by simp) (by simp)) rfl
    | @wroteSome n rest outBuf h hshut hout hne =>
      refine hsame (put_eq_nil h (by simp) (by simp)) ?_
      unfold output
      dsimp only
      rw [hout, List.append_assoc, List.take_append_drop]
    | @drained n rest outBuf low h hshut hout hlow =>
      refine hsame (put_eq_nil h (by simp) (by simp)) ?_
      unfold output
      dsimp only
      rw [hout, List.append_nil]

/-! ## What lies above the outer call -/

/-- Bytes of this call are added only from a frame that has some. -/
theorem put_other {c : TcpConnection} {a : LocalLabel} {id : Nat} {f : Frame} {base : List Frame}
    (h : c.stack = f :: base) (hf : f.Other id) : ∀ b ∈ c.put a, b.call ≠ id := by
  intro b hb
  unfold put at hb
  rw [h] at hb
  split at hb
  · rename_i r call _ he
    rw [(List.cons.inj he).1] at hf
    rw [call.bytes_own b (call.written_subset r hb)]
    exact hf
  · rename_i call remain _ he
    rw [(List.cons.inj he).1] at hf
    exact hf b hb
  · exact absurd hb List.not_mem_nil

/-- The stack is `base` under frames without bytes of the call. -/
def OtherAbove (id : Nat) (base stack : List Frame) : Prop :=
  ∃ above, stack = above ++ base ∧ ∀ g ∈ above, g.Other id

theorem OtherAbove.base (id : Nat) (base : List Frame) : OtherAbove id base base :=
  ⟨[], rfl, by simp⟩

theorem OtherAbove.push {id : Nat} {base stack : List Frame} {f : Frame}
    (h : OtherAbove id base stack) (hf : f.Other id) : OtherAbove id base (f :: stack) := by
  obtain ⟨above, he, habove⟩ := h
  refine ⟨f :: above, by rw [he]; rfl, fun g hg => ?_⟩
  rcases List.mem_cons.mp hg with hg | hg
  · rw [hg]
    exact hf
  · exact habove g hg

/-- `SendInLoop` of another call waits to buffer its rest, perhaps behind a callback. -/
theorem other_bufferRest {call : SendCall} {remain : List OutByte} {id : Nat}
    {pre base : List Frame} (hid : call.id ≠ id) (hsub : ∀ b ∈ remain, b ∈ call.bytes)
    (hpre : pre = [] ∨ pre = [.user]) :
    OtherAbove id base (pre ++ .bufferRest call remain :: base) := by
  have hown : (Frame.bufferRest call remain).Other id := by
    intro b hb
    rw [call.bytes_own b (hsub b hb)]
    exact hid
  have hrest := (OtherAbove.base id base).push hown
  rcases hpre with hp | hp
  · rw [hp]
    exact hrest
  · rw [hp]
    exact hrest.push trivial

theorem other_control {c : TcpConnection} {a : LocalLabel} {id : Nat} {f : Frame}
    {base stack : List Frame} (h : c.stack = f :: base) (hf : f.Other id)
    (hs : Control c a stack) : OtherAbove id base stack := by
  have hbase : ∀ {g : Frame} {rest : List Frame}, c.stack = g :: rest → rest = base :=
    fun hr => (List.cons.inj (hr.symm.trans h)).2
  have hstays : OtherAbove id base c.stack := by
    rw [h]
    exact (OtherAbove.base id base).push hf
  cases hs with
  | ignored hu => exact hstays
  | shutdown hu hstate => exact hstays.push trivial
  | forceClose hu hopen => exact hstays.push trivial
  | skip hr hk =>
    rw [hbase hr]
    exact .base id base
  | forceCloseInLoop hr hstate | drainedShutdown hr hstate | drainedClose hr hstate | eof hr =>
    rw [hbase hr]
    exact (OtherAbove.base id base).push trivial
  | notWritten hr hne hpre =>
    rw [hbase hr]
    rw [(List.cons.inj (h.symm.trans hr)).1] at hf
    exact other_bufferRest hf (fun b hb => hb) hpre

/-- What runs above the outer call has no bytes of it, and goes on without touching it. -/
theorem other_localStep {c c' : TcpConnection} {a : LocalLabel} {out : Option Outgoing} {id : Nat}
    {f : Frame} {base : List Frame} (h : c.stack = f :: base) (hf : f.Other id)
    (hid : id < c.calls.length) (hs : LocalStep c a c' out) : OtherAbove id base c'.stack := by
  have hbase : ∀ {g : Frame} {rest : List Frame}, c.stack = g :: rest → rest = base :=
    fun hr => (List.cons.inj (hr.symm.trans h)).2
  have hskip : ∀ {g : Frame} {rest : List Frame}, c.stack = g :: rest →
      OtherAbove id base rest := by
    intro g rest hr
    rw [hbase hr]
    exact .base id base
  have hstays : OtherAbove id base c.stack := by
    rw [h]
    exact (OtherAbove.base id base).push hf
  cases hs with
  | control hc => exact other_control h hf hc
  | @send message hu hstate =>
    have hnew : (Frame.sendInLoop (c.nextCall c.tid message)).Other id := by
      show c.calls.length ≠ id
      omega
    exact hstays.push hnew
  | forceCloseAfter hu => exact hstays
  | establish hr hstate =>
    unfold establishConnection
    rw [if_pos hstate]
    dsimp only
    split
    · exact (hskip hr).push trivial
    · exact hskip hr
  | establishFails hr hstate => exact hstays
  | destroy hr =>
    unfold destroyConnection
    dsimp only
    have hclose := (hskip hr).push (f := .destroyClose) trivial
    split
    · exact hclose.push trivial
    · exact hclose
  | destroyClose hr => exact hskip hr
  | closeFails hr => exact hstays
  | discard hr hstate => exact hskip hr
  | direct hr hstate hw ho =>
    rw [(List.cons.inj (h.symm.trans hr)).1] at hf
    exact (hskip hr).push hf
  | queue hr hstate hne hpre =>
    rw [(List.cons.inj (h.symm.trans hr)).1] at hf
    rw [← hbase hr]
    exact other_bufferRest hf (fun b hb => hb) hpre
  | queueEmpty hr hstate hne => exact hskip hr
  | wrote hr hshut hne hpre hlow =>
    rw [(List.cons.inj (h.symm.trans hr)).1] at hf
    rw [← hbase hr]
    exact other_bufferRest hf (fun b hb => List.mem_of_mem_drop hb) hpre
  | wroteAll hr hshut hlow => exact hskip hr
  | lost hr hl => exact hskip hr
  | buffer hr =>
    unfold bufferRest
    dsimp only
    exact hskip hr
  | shutdownAssign hr => exact (hskip hr).push trivial
  | shut hr hw => exact hskip hr
  | forceCloseAssign hr => exact hskip hr
  | handleClosePending hr hstate hw => exact hskip hr
  | handleClose hr hstate hw => exact hskip hr
  | handleCloseFails hr hstate => exact hstays
  | handleRead hr => exact (hskip hr).push trivial
  | data hr => exact (hskip hr).push trivial
  | handleWrite hr hpre =>
    rcases hpre with ⟨hp, _⟩ | ⟨hp, _⟩
    · rw [hp]
      exact hskip hr
    · rw [hp]
      exact (hskip hr).push trivial
  | wroteSome hr hshut hout hne => exact hskip hr
  | drained hr hshut hout hlow =>
    have hclose := (hskip hr).push (f := .drainedClose) trivial
    exact hclose.push trivial

/-- Calls are only added. -/
theorem calls_localStep {c c' : TcpConnection} {a : LocalLabel} {out : Option Outgoing}
    (hs : LocalStep c a c' out) : c.calls.length ≤ c'.calls.length := by
  cases hs with
  | send hu hstate =>
    rw [List.length_append]
    exact Nat.le_add_right _ _
  | establish h hstate =>
    unfold establishConnection
    rw [if_pos hstate]
    dsimp only
    split <;> exact Nat.le_refl _
  | destroy h =>
    unfold destroyConnection
    dsimp only
    split <;> exact Nat.le_refl _
  | buffer h =>
    unfold bufferRest
    dsimp only
    split <;> exact Nat.le_refl _
  | _ => exact Nat.le_refl _

end TcpConnection

end Windz
