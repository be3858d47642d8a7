import Windz.Net.ConnNestedSteps

/-!
# `Send` from inside `high_watermark_cb_`

`SendInLoop` calls `high_watermark_cb_` between its direct write and `output_buf_.Write`. A
`Send` of the callback runs to its end there, on top of the frame of the outer call, so what
it writes or buffers comes in front of the rest of the outer message.
-/

namespace Windz

open Lib

namespace TcpConnection

/-! ## The outer call -/

/-- How far the outer call is: `before` is the output when it began, and `quiet` says that no
nested call has added to it. -/
inductive SendStage (call : SendCall) (rest : List Frame) (before : List OutByte) (quiet : Prop)
    (c : TcpConnection) : Prop where
  | entered (hstack : c.stack = .sendInLoop call :: rest) (hout : c.output = before)
      (hquiet : quiet)
  | writing (hstack : c.stack = .directWrite call :: rest) (hout : c.output = before)
      (hquiet : quiet)
  | buffering {above : List Frame} {k : Nat} {mid : List OutByte}
      (hstack : c.stack = above ++ .bufferRest call (call.bytes.drop k) :: rest)
      (habove : ∀ f ∈ above, f.Other call.id)
      (hout : c.output = before ++ call.bytes.take k ++ mid) (hrest : call.bytes.drop k ≠ [])
      (hmid : ∀ b ∈ mid, b.call ≠ call.id) (hquiet : quiet ↔ mid = [])
  | whole {sent : List OutByte} (hstack : c.stack = rest) (hout : c.output = before ++ sent)
      (hsent : sent = call.bytes ∨ sent = []) (hquiet : quiet)
  | torn {k : Nat} {mid : List OutByte} (hstack : c.stack = rest)
      (hout : c.output = before ++ call.bytes.take k ++ mid ++ call.bytes.drop k)
      (hrest : call.bytes.drop k ≠ []) (hmid : ∀ b ∈ mid, b.call ≠ call.id) (hne : mid ≠ [])
      (hquiet : ¬ quiet)

/-- Only the stack and the output matter. -/
theorem SendStage.congr {c c' : TcpConnection} {call : SendCall} {rest : List Frame}
    {before : List OutByte} {quiet : Prop} (h : SendStage call rest before quiet c)
    (hstk : c'.stack = c.stack) (ho : c'.output = c.output) :
    SendStage call rest before quiet c' := by
  cases h with
  | entered hstack hout hquiet => exact .entered (hstk.trans hstack) (ho.trans hout) hquiet
  | writing hstack hout hquiet => exact .writing (hstk.trans hstack) (ho.trans hout) hquiet
  | buffering hstack habove hout hrest hmid hquiet =>
    exact .buffering (hstk.trans hstack) habove (ho.trans hout) hrest hmid hquiet
  | whole hstack hout hsent hquiet =>
    exact .whole (hstk.trans hstack) (ho.trans hout) hsent hquiet
  | torn hstack hout hrest hmid hne hquiet =>
    exact .torn (hstk.trans hstack) (ho.trans hout) hrest hmid hne hquiet

/-- What is left of the message waits, perhaps behind `high_watermark_cb_`, or nothing is. -/
theorem SendStage.appendRemain {c d : TcpConnection} {call : SendCall} {rest : List Frame}
    {before : List OutByte} {quiet : Prop} (k : Nat) (hquiet : quiet)
    (hout : c.output = before ++ call.bytes.take k)
    (hd : d = c.appendRemain call (call.bytes.drop k) rest) :
    SendStage call rest before quiet d := by
  have hsame : d.output = c.output := by
    obtain ⟨hacc, hbuf⟩ := appendRemain_output c call (call.bytes.drop k) rest
    unfold output
    rw [hd, hacc, hbuf]
  rcases appendRemain_cases c call (call.bytes.drop k) rest with
    ⟨hnil, he⟩ | ⟨hne, pre, hpre, he⟩
  · have hall : call.bytes.take k = call.bytes :=
      List.take_of_length_le (List.drop_eq_nil_iff.mp hnil)
    refine .whole ?_ ?_ (.inl rfl) hquiet
    · rw [hd, he]
      rfl
    · rw [hsame, hout, hall]
  · have hstack : d.stack = pre ++ .bufferRest call (call.bytes.drop k) :: rest := by rw [hd, he]
    refine .buffering hstack ?_ (?_ : d.output = before ++ call.bytes.take k ++ []) hne (by simp)
      (by simpa)
    · intro f hf
      rcases hpre with hp | hp
      · rw [hp] at hf
        exact absurd hf List.not_mem_nil
      · rw [hp] at hf
        rw [List.mem_singleton.mp hf]
        trivial
    · rw [hsame, hout, List.append_nil]

section

variable {c c' : TcpConnection} {call : SendCall} {rest : List Frame} {before : List OutByte}
  {quiet : Prop}

theorem SendStage.of_sendInLoop (hout : c.output = before) (hquiet : quiet) :
    SendStage call rest before quiet (c.sendInLoop call rest) := by
  unfold sendInLoop
  split
  · refine .whole rfl ?_ (.inr rfl) hquiet
    rw [List.append_nil]
    exact hout
  · dsimp only
    split
    · exact .writing rfl hout hquiet
    · refine .appendRemain 0 hquiet ?_ rfl
      rw [List.take_zero, List.append_nil]
      exact hout

theorem SendStage.of_directWrite {r : WriteResult} {out : Option Outgoing}
    (hempty : c.outputBuf.contents = []) (hout : c.output = before) (hquiet : quiet)
    (hw : c.directWrite call r rest = some (c', out)) : SendStage call rest before quiet c' := by
  have hlost : SendStage call rest before quiet (c.finishSend call rest) := by
    refine .whole rfl ?_ (.inr rfl) hquiet
    rw [List.append_nil]
    exact hout
  have hkept : SendStage call rest before quiet (c.appendRemain call call.bytes rest) := by
    refine .appendRemain 0 hquiet ?_ rfl
    rw [List.take_zero, List.append_nil]
    exact hout
  cases r with
  | wrote n =>
    obtain ⟨_, hw⟩ := Option.ite_none_right_eq_some.mp hw
    refine .appendRemain n hquiet ?_ (Prod.mk.inj (Option.some.inj hw)).1.symm
    rw [← hout]
    unfold output
    rw [hempty, List.append_nil, List.append_nil]
  | pipe | connReset =>
    rw [← (Prod.mk.inj (Option.some.inj hw)).1]
    exact hlost
  | wouldBlock | interrupted | otherError =>
    rw [← (Prod.mk.inj (Option.some.inj hw)).1]
    exact hkept

/-- The rest of the message comes behind what nested calls have added. -/
theorem SendStage.of_bufferRest {k : Nat} {mid : List OutByte}
    (hout : c.output = before ++ call.bytes.take k ++ mid) (hrest : call.bytes.drop k ≠ [])
    (hmid : ∀ b ∈ mid, b.call ≠ call.id) (hquiet : quiet ↔ mid = []) :
    SendStage call rest before quiet (c.bufferRest call (call.bytes.drop k) rest) := by
  have hstack : (c.bufferRest call (call.bytes.drop k) rest).stack = rest := by
    unfold bufferRest
    rfl
  have hout' : (c.bufferRest call (call.bytes.drop k) rest).output
      = before ++ call.bytes.take k ++ mid ++ call.bytes.drop k := by
    rw [bufferRest_output, hout]
  by_cases hnil : mid = []
  · refine .whole hstack ?_ (.inl rfl) (hquiet.mpr hnil)
    rw [hout', hnil, List.append_nil, List.append_assoc, List.take_append_drop]
  · exact .torn hstack hout' hrest hmid hnil fun hq => hnil (hquiet.mp hq)

/-- What a step above the outer call adds is not its own. -/
theorem SendStage.of_nested {a : LocalLabel} {out : Option Outgoing} {f : Frame}
    {above : List Frame} {k : Nat} {mid : List OutByte}
    (hstack : c.stack = f :: (above ++ .bufferRest call (call.bytes.drop k) :: rest))
    (habove : ∀ g ∈ f :: above, g.Other call.id)
    (hout : c.output = before ++ call.bytes.take k ++ mid) (hrest : call.bytes.drop k ≠ [])
    (hmid : ∀ b ∈ mid, b.call ≠ call.id)
    (hdirect : ∀ call rest, c.stack = .directWrite call :: rest → c.outputBuf.contents = [])
    (hid : call.id < c.calls.length) (hs : c.localStep a = some (c', out))
    (hquiet : quiet ↔ mid = [] ∧ c.put a = []) : SendStage call rest before quiet c' := by
  have hf := habove f List.mem_cons_self
  obtain ⟨frames, hframes, hother⟩ := other_localStep hstack hf hid (localStep_cases hs)
  have hstack' : c'.stack
      = (frames ++ above) ++ .bufferRest call (call.bytes.drop k) :: rest := by
    rw [hframes, List.append_assoc]
  have hout' : c'.output = before ++ call.bytes.take k ++ (mid ++ c.put a) := by
    rw [output_localStep hdirect hs, hout, List.append_assoc _ mid]
  refine .buffering hstack' ?_ hout' hrest ?_ ?_
  · intro g hg
    rcases List.mem_append.mp hg with hg | hg
    · exact hother g hg
    · exact habove g (List.mem_cons_of_mem _ hg)
  · intro b hb
    rcases List.mem_append.mp hb with hb | hb
    · exact hmid b hb
    · exact put_other hstack hf b hb
  · rw [List.append_eq_nil_iff]
    exact hquiet

/-- **The outer call makes progress.** Below what runs on top of it the rest of its message stays,
and what nested calls add comes in front of that. -/
theorem SendStage.localStep {a : LocalLabel} {out : Option Outgoing}
    (h : SendStage call rest before quiet c) (hin : rest.length < c.stack.length)
    (hdirect : ∀ call rest, c.stack = .directWrite call :: rest → c.outputBuf.contents = [])
    (hid : call.id < c.calls.length) (hs : c.localStep a = some (c', out)) :
    SendStage call rest before
      (quiet ∧ (rest.length + 1 < c.stack.length → c.put a = [])) c' := by
  -- the outer call's own steps are not nested
  have hown : ∀ {f : Frame}, c.stack = f :: rest →
      (rest.length + 1 < c.stack.length → c.put a = []) := by
    intro f hstack hlt
    rw [hstack, List.length_cons] at hlt
    exact absurd hlt (Nat.lt_irrefl _)
  cases h with
  | entered hstack hout hquiet =>
    rw [localStep_sendInLoop hstack hs]
    exact .of_sendInLoop hout ⟨hquiet, hown hstack⟩
  | writing hstack hout hquiet =>
    obtain ⟨r, _, hw⟩ := localStep_directWrite hstack hs
    exact .of_directWrite (hdirect call rest hstack) hout ⟨hquiet, hown hstack⟩ hw
  | @buffering above k mid hstack habove hout hrest hmid hquiet =>
    cases above with
    | nil =>
      rw [localStep_bufferRest hstack hs]
      exact .of_bufferRest hout hrest hmid ((and_iff_left (hown hstack)).trans hquiet)
    | cons f above =>
      have hstack : c.stack = f :: (above ++ .bufferRest call (call.bytes.drop k) :: rest) := hstack
      have hnested : rest.length + 1 < c.stack.length := by
        rw [hstack]
        simp only [List.length_cons, List.length_append]
        omega
      refine .of_nested hstack habove hout hrest hmid hdirect hid hs ?_
      rw [hquiet]
      exact and_congr_right fun _ => ⟨fun hq => hq hnested, fun hq _ => hq⟩
  | whole hstack hout hsent hquiet =>
    rw [hstack] at hin
    exact absurd hin (Nat.lt_irrefl _)
  | torn hstack hout hrest hmid hne hquiet =>
    rw [hstack] at hin
    exact absurd hin (Nat.lt_irrefl _)

end

end TcpConnection

namespace ConnWorld

/-- The outer call, which lies on `rest`, is in progress. -/
def Inside (rest : List Frame) (w : ConnWorld) (_ : Label) : Prop :=
  rest.length < w.conn.stack.length

/-- What a step adds to the output. -/
def put (w : ConnWorld) : Label → List OutByte
  | .run a => w.conn.put a
  | _ => []

/-- What runs above the outer call adds no byte to the output. -/
def QuietNested (rest : List Frame) (w : ConnWorld) (a : Label) : Prop :=
  rest.length + 1 < w.conn.stack.length → w.put a = []

/-- Of the bytes added to the output of `c`, those of the call come first, in one piece, or there
are none. -/
def StaysWhole (c c' : TcpConnection) (call : SendCall) : Prop :=
  ∃ sent after, c'.output = c.output ++ sent ++ after ∧ (sent = call.bytes ∨ sent = [])
    ∧ ∀ b ∈ after, b.call ≠ call.id

/-- While the loop thread is in the connection, other steps leave its output alone. -/
theorem inside_cases {w w' : ConnWorld} {a : Label} (hne : w.conn.stack ≠ [])
    (hs : w.step a = some w') :
    (∃ b out, a = .run b ∧ w.conn.localStep b = some (w'.conn, out))
      ∨ (w.put a = [] ∧ w'.conn.stack = w.conn.stack ∧ w'.conn.output = w.conn.output
        ∧ w.conn.calls.length ≤ w'.conn.calls.length) := by
  cases (step_cases hs).2 with
  | @run b conn out h =>
    obtain ⟨out, hl⟩ := step_run hs
    exact .inl ⟨b, out, rfl, hl⟩
  | establish he h => exact absurd h hne
  | functor hq h => exact absurd h hne
  | timer ht h => exact absurd h hne
  | event hr h => exact absurd h hne
  | threadSend ht hi h =>
    refine .inr ⟨rfl, rfl, rfl, ?_⟩
    rw [List.length_append]
    exact Nat.le_add_right _ _
  | _ => exact .inr ⟨rfl, rfl, rfl, Nat.le_refl _⟩

/-- What every run through the outer call keeps. -/
theorem sendStage_run {tid : ThreadId} {w w' : ConnWorld} {call : SendCall} {rest : List Frame}
    {as : List Label} (hw : Reachable (machine tid) (fun _ _ => True) w)
    (hstack : w.conn.stack = .sendInLoop call :: rest)
    (hr : Run (machine tid) (Inside rest) w as w') :
    TcpConnection.SendStage call rest w.conn.output
        (Run (machine tid) (fun u a => u.Inside rest a ∧ u.QuietNested rest a) w as w') w'.conn
      ∧ call.id < w'.conn.calls.length := by
  induction hr with
  | nil =>
    refine ⟨.entered hstack rfl .nil, ?_⟩
    have hi := sender_inv hw
    have hmem : call ∈ w.sender.calls := by
      refine hi.mem_calls (.inr (List.mem_append_left _ (List.mem_filter.mpr ⟨?_, by simp⟩)))
      rw [show w.sender.sending = .entered call :: rest.filterMap Frame.sending from
        sending_rest hstack rfl]
      exact List.mem_cons_self
    have hid : call.id ∈ w.sender.calls.map SendCall.id := List.mem_map_of_mem hmem
    rw [hi.ids] at hid
    exact List.mem_range.mp hid
  | @tail as u u' a hrun hin hs ih =>
    obtain ⟨hstage, hid⟩ := ih
    have hu := hw.run (hrun.mono fun _ _ _ => trivial)
    have hquiet : Run (machine tid) (fun u a => u.Inside rest a ∧ u.QuietNested rest a) w
        (as ++ [a]) u' ↔ Run (machine tid) (fun u a => u.Inside rest a ∧ u.QuietNested rest a) w
        as u ∧ u.QuietNested rest a := by
      rw [hrun.concat_iff hs]
      exact and_congr_right fun _ => and_iff_right hin
    rw [propext hquiet]
    have hne : u.conn.stack ≠ [] := List.ne_nil_of_length_pos (Nat.zero_lt_of_lt hin)
    rcases inside_cases hne hs with ⟨b, out, hb, hl⟩ | ⟨hput, hstk, hout, hcalls⟩
    · have hdirect : ∀ call rest, u.conn.stack = .directWrite call :: rest →
          u.conn.outputBuf.contents = [] := by
        intro call rest he
        exact (sender_inv hu).direct call _ (sending_rest he rfl)
      have hcalls := TcpConnection.calls_localStep (TcpConnection.localStep_cases hl)
      refine ⟨?_, Nat.lt_of_lt_of_le hid hcalls⟩
      have hstep := hstage.localStep hin hdirect hid hl
      unfold QuietNested put
      rw [hb]
      exact hstep
    · refine ⟨?_, Nat.lt_of_lt_of_le hid hcalls⟩
      rw [show (_ ∧ u.QuietNested rest a) = _ from
        propext (and_iff_left (fun _ => hput : u.QuietNested rest a))]
      exact hstage.congr hstk hout

/-- A message with other bytes in front of its end is torn. -/
theorem not_whole_of_torn {c c' : TcpConnection} {call : SendCall} {k : Nat} {mid : List OutByte}
    (hout : c'.output = c.output ++ call.bytes.take k ++ mid ++ call.bytes.drop k)
    (hrest : call.bytes.drop k ≠ []) (hmid : ∀ b ∈ mid, b.call ≠ call.id) (hne : mid ≠ []) :
    ¬ StaysWhole c c' call := by
  rintro ⟨sent, after, he, hsent, hafter⟩
  obtain ⟨m, mid, rfl⟩ := List.exists_cons_of_ne_nil hne
  obtain ⟨b, bs, hdrop⟩ := List.exists_cons_of_ne_nil hrest
  have hb : b.call = call.id := by
    refine call.bytes_own b (List.mem_of_mem_drop (i := k) ?_)
    rw [hdrop]
    exact List.mem_cons_self
  rw [hout, List.append_assoc, List.append_assoc, List.append_assoc] at he
  have hbytes := List.append_cancel_left he
  rcases hsent with hsent | hsent
  · -- the byte behind those written is of another call
    have hsplit : call.bytes.take k ++ (m :: mid ++ call.bytes.drop k)
        = call.bytes.take k ++ (call.bytes.drop k ++ after) := by
      rw [hbytes, hsent, ← List.append_assoc, List.take_append_drop]
    have htail := List.append_cancel_left hsplit
    rw [hdrop] at htail
    have hm := (List.cons.inj htail).1
    exact hmid m List.mem_cons_self (by rw [hm]; exact hb)
  · rw [hsent, List.nil_append] at hbytes
    refine hafter b ?_ hb
    rw [← hbytes, hdrop]
    simp

/-- **When a message stays whole.** In the output of the connection, the bytes of the outer call
come in one piece and in front of all that comes after exactly in the runs in which no nested call
adds a byte. -/
theorem stays_whole_iff_quiet {tid : ThreadId} {w w' : ConnWorld} {call : SendCall}
    {rest : List Frame} {as : List Label} (hw : Reachable (machine tid) (fun _ _ => True) w)
    (hstack : w.conn.stack = .sendInLoop call :: rest)
    (hr : Run (machine tid) (Inside rest) w as w') (hend : w'.conn.stack = rest) :
    StaysWhole w.conn w'.conn call
      ↔ Run (machine tid) (fun u a => u.Inside rest a ∧ u.QuietNested rest a) w as w' := by
  have hover : ∀ (above : List Frame) {f : Frame}, w'.conn.stack ≠ above ++ f :: rest := by
    intro above f he
    have hlen := congrArg List.length (hend.symm.trans he)
    rw [List.length_append, List.length_cons] at hlen
    omega
  cases (sendStage_run hw hstack hr).1 with
  | entered h hout hquiet => exact absurd h (hover [])
  | writing h hout hquiet => exact absurd h (hover [])
  | buffering h habove hout hrest hmid hquiet => exact absurd h (hover _)
  | whole h hout hsent hquiet =>
    refine ⟨fun _ => hquiet, fun _ => ⟨_, [], ?_, hsent, by simp⟩⟩
    rw [hout, List.append_nil]
  | torn h hout hrest hmid hne hquiet =>
    exact ⟨fun hwhole => absurd hwhole (not_whole_of_torn hout hrest hmid hne),
      fun hq => absurd hq hquiet⟩

instance (rest : List Frame) (w : ConnWorld) (a : Label) : Decidable (w.Inside rest a) :=
  inferInstanceAs (Decidable (rest.length < w.conn.stack.length))

/-- A message that is written in part, the rest being buffered. -/
theorem stays_whole_iff_quiet_small : ∃ w w' call as,
    Reachable (machine 0) (fun _ _ => True) w ∧ w.conn.stack = [.sendInLoop call]
    ∧ Run (machine 0) (Inside []) w as w'
    ∧ w'.conn.outputBuf.contents.map OutByte.byte = [4, 5]
    ∧ (StaysWhole w.conn w'.conn call
      ↔ Run (machine 0) (fun u a => u.Inside [] a ∧ u.QuietNested [] a) w as w') := by
  have hinit : (machine 0).init (create (.create 0 false false true)) := ⟨false, false, true, rfl⟩
  have hexec : ((machine 0).exec (fun _ _ => True) (create (.create 0 false false true))
      [.establish, .run .next, .run (.call (.send [3, 4, 5]))]).bind (fun w =>
        ((machine 0).exec (Inside []) w
          [.run .next, .run (.write (.wrote 1)), .run .next]).map fun w' => decide
            (w.conn.stack = [.sendInLoop ⟨0, 0, [3, 4, 5]⟩] ∧ w'.conn.stack = []
              ∧ w'.conn.outputBuf.contents.map OutByte.byte = [4, 5])) = some true := by
    decide +kernel
  obtain ⟨w, hw, hexec⟩ := Option.bind_eq_some_iff.mp hexec
  obtain ⟨w', hw', hp⟩ := Option.map_eq_some_iff.mp hexec
  obtain ⟨hstack, hend, hbuf⟩ := of_decide_eq_true hp
  have hreach : Reachable (machine 0) (fun _ _ => True) w :=
    (Reachable.init hinit).run (Machine.exec_run _ hw)
  have hrun := Machine.exec_run _ hw'
  exact ⟨w, w', _, _, hreach, hstack, hrun, hbuf, stays_whole_iff_quiet hreach hstack hrun hend⟩

/-! ## A nested `Send` that comes first -/

/-- A connected connection whose output is with the socket, `high_watermark_cb_` being set: `stack`
is what its loop thread does, `calls` the number of calls of `Send` so far. -/
structure Drained (stack : List Frame) (calls : Nat) (out : List OutByte) (w : ConnWorld) :
    Prop where
  failed : w.conn.failed = none
  state : w.conn.state = .kConnected
  stack : w.conn.stack = stack
  waits : w.conn.channel.writeEnabled = false
  buffered : w.conn.outputBuf.readableBytes = 0
  shut : w.conn.shutWrite = false
  low : w.conn.hasLowWatermarkCb = false
  high : w.conn.hasHighWatermarkCb = true
  mark : w.conn.highWatermark = TcpConnection.kHighWatermark
  calls : w.conn.calls.length = calls
  out : w.conn.output = out

variable (tid : ThreadId) {w : ConnWorld} {stack rest : List Frame} {n : Nat} {out : List OutByte}

/-- `Send` in user code of the loop thread. -/
theorem Drained.send (h : Drained stack n out w) (hu : w.conn.atUser = true)
    (message : List UInt8) :
    ∃ w', (machine tid).step w (.run (.call (.send message))) = some w'
      ∧ Drained (.sendInLoop ⟨n, w.conn.tid, message⟩ :: stack) (n + 1) out w' := by
  obtain ⟨hfailed, hstate, hstack, hwaits, hbuffered, hshut, hlow, hhigh, hmark, hcalls, hout⟩ := h
  have hs : w.conn.localStep (.call (.send message)) = some ({ w.conn with
      calls := w.conn.calls ++ [w.conn.nextCall w.conn.tid message]
      stack := .sendInLoop (w.conn.nextCall w.conn.tid message) :: w.conn.stack }, none) := by
    simp [TcpConnection.localStep, TcpConnection.call, hu, hstate]
  refine ⟨_, step_of_localStep hfailed hs, hfailed, hstate, ?_, hwaits, hbuffered, hshut, hlow,
    hhigh, hmark, ?_, hout⟩
  · show Frame.sendInLoop ⟨w.conn.calls.length, w.conn.tid, message⟩ :: w.conn.stack = _
    rw [hcalls, hstack]
  · show (w.conn.calls ++ [_]).length = n + 1
    rw [List.length_append, hcalls]
    rfl

/-- `SendInLoop` goes to its direct write. -/
theorem Drained.direct {call : SendCall} (h : Drained (.sendInLoop call :: rest) n out w) :
    ∃ w', (machine tid).step w (.run .next) = some w'
      ∧ Drained (.directWrite call :: rest) n out w' := by
  obtain ⟨hfailed, hstate, hstack, hwaits, hbuffered, hshut, hlow, hhigh, hmark, hcalls, hout⟩ := h
  have hs : w.conn.localStep .next = some ({ w.conn with
      ran := w.conn.ran ++ [(call, true)], stack := .directWrite call :: rest }, none) := by
    simp [TcpConnection.localStep, TcpConnection.next, TcpConnection.sendInLoop, hstack, hstate,
      hwaits, hbuffered]
  exact ⟨_, step_of_localStep hfailed hs, hfailed, hstate, rfl, hwaits, hbuffered, hshut, hlow,
    hhigh, hmark, hcalls, hout⟩

/-- A message over the high watermark that `write` does not take. -/
theorem Drained.refused {call : SendCall} (h : Drained (.directWrite call :: rest) n out w)
    (hlen : TcpConnection.kHighWatermark < call.bytes.length) :
    ∃ w', (machine tid).step w (.run (.write .wouldBlock)) = some w'
      ∧ Drained (.user :: .bufferRest call call.bytes :: rest) n out w' := by
  obtain ⟨hfailed, hstate, hstack, hwaits, hbuffered, hshut, hlow, hhigh, hmark, hcalls, hout⟩ := h
  have hne : call.bytes ≠ [] := List.ne_nil_of_length_pos (Nat.zero_lt_of_lt hlen)
  have hs : w.conn.localStep (.write .wouldBlock) = some ({ w.conn with
      stack := .user :: .bufferRest call call.bytes :: rest }, none) := by
    simp [TcpConnection.localStep, TcpConnection.directWrite, TcpConnection.appendRemain, hstack,
      hbuffered, hne, hmark, hlen, hhigh]
  exact ⟨_, step_of_localStep hfailed hs, hfailed, hstate, rfl, hwaits, hbuffered, hshut, hlow,
    hhigh, hmark, hcalls, hout⟩

/-- A message that `write` takes. -/
theorem Drained.taken {call : SendCall} (h : Drained (.directWrite call :: rest) n out w) :
    ∃ w', (machine tid).step w (.run (.write (.wrote call.bytes.length))) = some w'
      ∧ Drained rest n (out ++ call.bytes) w' := by
  obtain ⟨hfailed, hstate, hstack, hwaits, hbuffered, hshut, hlow, hhigh, hmark, hcalls, hout⟩ := h
  have hs : w.conn.localStep (.write (.wrote call.bytes.length)) = some
      ({ w.conn with accepted := w.conn.accepted ++ call.bytes }.finishSend call rest, none) := by
    simp [TcpConnection.localStep, TcpConnection.directWrite, TcpConnection.appendRemain, hstack,
      hshut, hlow]
  have hnil := (ValidBuffer.readableBytes_eq_zero _).mp hbuffered
  refine ⟨_, step_of_localStep hfailed hs, hfailed, hstate, rfl, hwaits, hbuffered, hshut, hlow,
    hhigh, hmark, hcalls, ?_⟩
  unfold TcpConnection.output at hout ⊢
  rw [hnil, List.append_nil] at hout
  show w.conn.accepted ++ call.bytes ++ w.conn.outputBuf.contents = out ++ call.bytes
  rw [hnil, List.append_nil, hout]

theorem Drained.returns (h : Drained (.user :: rest) n out w) :
    ∃ w', (machine tid).step w (.run .callbackReturns) = some w' ∧ Drained rest n out w' := by
  obtain ⟨hfailed, hstate, hstack, hwaits, hbuffered, hshut, hlow, hhigh, hmark, hcalls, hout⟩ := h
  have hs : w.conn.localStep .callbackReturns = some ({ w.conn with stack := rest }, none) := by
    simp [TcpConnection.localStep, hstack]
  exact ⟨_, step_of_localStep hfailed hs, hfailed, hstate, rfl, hwaits, hbuffered, hshut, hlow,
    hhigh, hmark, hcalls, hout⟩

theorem Drained.buffer {call : SendCall} {remain : List OutByte}
    (h : Drained (.bufferRest call remain :: rest) n out w) :
    ∃ w', (machine tid).step w (.run .next) = some w' ∧ w'.conn.stack = rest
      ∧ w'.conn.output = out ++ remain := by
  have hs : w.conn.localStep .next = some (w.conn.bufferRest call remain rest, none) := by
    simp [TcpConnection.localStep, TcpConnection.next, h.stack]
  refine ⟨_, step_of_localStep h.failed hs, ?_, ?_⟩
  · unfold TcpConnection.bufferRest
    rfl
  · rw [emit_conn, TcpConnection.bufferRest_output, h.out]

/-- `Send` of more than the high watermark, `write` being refused, and in the callback `Send` of one
byte, which is written: that byte comes first. -/
theorem nested_first {message : List UInt8}
    (hw : Reachable (machine tid) (fun _ _ => True) w) (h : Drained [] n out w)
    (hlen : TcpConnection.kHighWatermark < message.length) :
    ∃ u as u' call, Reachable (machine tid) (fun _ _ => True) u
      ∧ u.conn.stack = [.sendInLoop call] ∧ call.message = message
      ∧ Run (machine tid) (Inside []) u as u' ∧ u'.conn.stack = []
      ∧ u'.conn.output = u.conn.output ++ [⟨call.id + 1, 7⟩] ++ call.bytes := by
  have hinside : ∀ {u : ConnWorld} {a : Label} {f : Frame} {rest : List Frame},
      u.conn.stack = f :: rest → u.Inside [] a := by
    intro u a f rest hu
    unfold Inside
    rw [hu]
    exact Nat.zero_lt_succ _
  have huser : ∀ {c : TcpConnection} {rest : List Frame}, c.stack = .user :: rest →
      c.atUser = true := by
    intro c rest hc
    unfold TcpConnection.atUser
    rw [hc]
  have hidle : w.conn.atUser = true := by
    unfold TcpConnection.atUser
    rw [h.stack]
  obtain ⟨u, hs, h0⟩ := h.send tid hidle message
  obtain ⟨u1, hs1, h1⟩ := h0.direct tid
  obtain ⟨u2, hs2, h2⟩ := h1.refused tid (by
    rw [SendCall.bytes, List.length_map]
    exact hlen)
  -- the callback
  obtain ⟨u3, hs3, h3⟩ := h2.send tid (huser h2.stack) [7]
  obtain ⟨u4, hs4, h4⟩ := h3.direct tid
  obtain ⟨u5, hs5, h5⟩ := h4.taken tid
  obtain ⟨u6, hs6, h6⟩ := h5.returns tid
  obtain ⟨u7, hs7, hstack7, hout7⟩ := h6.buffer tid
  have hrun := Run.one (hinside h0.stack) hs1
  have hrun := hrun.tail (hinside h1.stack) hs2
  have hrun := hrun.tail (hinside h2.stack) hs3
  have hrun := hrun.tail (hinside h3.stack) hs4
  have hrun := hrun.tail (hinside h4.stack) hs5
  have hrun := hrun.tail (hinside h5.stack) hs6
  have hrun := hrun.tail (hinside h6.stack) hs7
  refine ⟨u, _, u7, _, hw.tail trivial hs, h0.stack, rfl, hrun, hstack7, ?_⟩
  rw [hout7, h0.out]
  rfl

/-- A message of one byte more than the high watermark, and what the callback sends is written in
front of it. -/
theorem nested_send_tears : ∃ w as w' call,
    Reachable (machine 0) (fun _ _ => True) w ∧ w.conn.stack = [.sendInLoop call]
    ∧ call.message = List.replicate (TcpConnection.kHighWatermark + 1) 0
    ∧ Run (machine 0) (Inside []) w as w' ∧ w'.conn.stack = []
    ∧ ¬ StaysWhole w.conn w'.conn call := by
  have hinit : (machine 0).init (create (.create 0 false false true)) := ⟨false, false, true, rfl⟩
  have hexec : ((machine 0).exec (fun _ _ => True) (create (.create 0 false false true))
      [.establish, .run .next]).map (fun w => decide
        ((w.conn.failed = none ∧ w.conn.state = .kConnected ∧ w.conn.stack = []
            ∧ w.conn.channel.writeEnabled = false ∧ w.conn.outputBuf.readableBytes = 0
            ∧ w.conn.shutWrite = false)
          ∧ w.conn.hasLowWatermarkCb = false ∧ w.conn.hasHighWatermarkCb = true
          ∧ w.conn.highWatermark = TcpConnection.kHighWatermark ∧ w.conn.calls.length = 0
          ∧ w.conn.output = [])) = some true := by
    decide +kernel
  obtain ⟨w, hw, hp⟩ := Machine.exec_reachable hinit hexec
  obtain ⟨⟨hfailed, hstate, hstack, hwaits, hbuffered, hshut⟩, hlow, hhigh, hmark, hcalls, hout⟩ :=
    of_decide_eq_true hp
  have hlen : TcpConnection.kHighWatermark
      < (List.replicate (TcpConnection.kHighWatermark + 1) (0 : UInt8)).length := by
    rw [List.length_replicate]
    exact Nat.lt_succ_self _
  obtain ⟨u, as, u', call, hu, hustack, hmessage, hrun, hend, hout'⟩ := nested_first 0 hw
    ⟨hfailed, hstate, hstack, hwaits, hbuffered, hshut, hlow, hhigh, hmark, hcalls, hout⟩ hlen
  refine ⟨u, as, u', call, hu, hustack, hmessage, hrun, hend, ?_⟩
  have htorn : u'.conn.output = u.conn.output ++ call.bytes.take 0 ++ [⟨call.id + 1, 7⟩]
      ++ call.bytes.drop 0 := by
    rw [hout', List.take_zero, List.append_nil, List.drop_zero]
  refine not_whole_of_torn htorn ?_ ?_ (by simp)
  · rw [List.drop_zero]
    refine List.ne_nil_of_length_pos ?_
    rw [SendCall.bytes, List.length_map, hmessage, List.length_replicate]
    exact Nat.succ_pos _
  · intro b hb
    rw [List.mem_singleton.mp hb]
    exact Nat.succ_ne_self _

end ConnWorld

end Windz
