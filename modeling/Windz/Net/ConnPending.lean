import Windz.Net.ConnInvariant

/-!
# A close that waits for output

`HandleClose` leaves a connection with output to `HandleWrite`, which closes it
once the output is drained. When `write` fails, `HandleWrite` logs the error and
returns: neither `close_cb_` is called nor the interest in writing given up, so a
connection whose peer is gone waits for ever.
-/

namespace Windz

open Lib

namespace ConnWorld

/-- Every `write` fails, the peer being gone. -/
def FailingWrites (_ : ConnWorld) : Label → Prop
  | .run (.write r) => r = .pipe ∨ r = .connReset
  | .run .next | .run (.call _) | .run .callbackReturns | .run (.read _) | .establish
  | .ownerAnswers | .functor | .timer | .event _ _ _ | .threadCall _ _ | .threadNext _ => True


/-- The owner does not destroy the connection. -/
def NoDestroy (w : ConnWorld) (a : Label) : Prop :=
  a = .run .next → w.conn.stack.head? ≠ some .destroyConnection

/-- `epoll` reports that the socket can be written. -/
def Label.writable : Label → Bool
  | .event _ _ writable => writable
  | _ => false

/-- `HandleClose` has run, and the connection waits for its output. -/
structure ClosePending (w : ConnWorld) : Prop where
  closing : ConnEvent.handleClose ∈ w.conn.trace
  state : w.conn.state = .kDisconnected
  waits : w.conn.channel.writeEnabled = true
  out : w.conn.stack = []
  running : w.conn.failed = none

/-- A number of failing `HandleWrite`s after which the connection is closed. -/
def EndsClosed (tid : ThreadId) (w : ConnWorld) : Prop :=
  ∃ n, ∀ as w', Run (machine tid) FailingWrites w as w' → w'.conn.stack = [] →
    n ≤ (as.filter Label.writable).length →
    .closeCb ∈ w'.conn.trace ∧ w'.conn.channel.writeEnabled = false

/-! ## Nothing gives up the interest in writing -/

theorem waits_localStep {c c' : TcpConnection} {a : LocalLabel} {out : Option Outgoing}
    (hw : c.channel.writeEnabled = true) (hr : ∀ n, a ≠ .write (.wrote n))
    (hd : a = .next → c.stack.head? ≠ some .destroyConnection)
    (h : TcpConnection.LocalStep c a c' out) : c'.channel.writeEnabled = true := by
  cases h with
  | establish h hs =>
    rw [TcpConnection.establishConnection, if_pos hs]
    dsimp only
    split
    · rw [Channel.enableRead_writeEnabled]
      exact hw
    · rw [Channel.enableRead_writeEnabled]
      exact hw
  | destroy h => exact absurd (by rw [h]; rfl) (hd rfl)
  | buffer h =>
    unfold TcpConnection.bufferRest
    dsimp only
    split
    · exact hw
    · rename_i hw'
      exact absurd hw hw'
  | handleClosePending h hs hw' =>
    rw [Channel.disableRead_writeEnabled]
    exact hw
  | handleClose h hs hw' => exact absurd (hw'.symm.trans hw) Bool.false_ne_true
  | wroteSome h hshut hout hne => exact absurd rfl (hr _)
  | drained h hshut hout hlow => exact absurd rfl (hr _)
  | _ => exact hw

theorem waits_step {w w' : ConnWorld} {a : Label} (hw : w.conn.channel.writeEnabled = true)
    (hok : w.FailingWrites a) (hd : w.NoDestroy a) (h : WorldStep w a w') :
    w'.conn.channel.writeEnabled = true
      ∧ w'.conn.trace.count .closeCb = w.conn.trace.count .closeCb := by
  constructor
  · cases h with
    | @run a conn out h =>
      rw [emit_conn]
      refine waits_localStep hw ?_ (fun ha => hd (by rw [ha])) h
      rintro n rfl
      rcases hok with hr | hr <;> exact absurd hr (by simp)
    | _ => exact hw
  · rcases closes_step h with ⟨_, _, hconn⟩ | ⟨_, hc, _, _⟩ | ⟨_, _, hcount⟩
    · rw [hconn]
    · unfold callsCloseCb at hc
      split at hc
      · rw [hw] at hc
        exact absurd hc (by simp)
      · exact absurd hc Bool.false_ne_true
    · exact hcount

/-- Whatever happens but `DestroyConnection`, the connection waits on. -/
theorem waits_run {tid : ThreadId} {w w' : ConnWorld} {as : List Label}
    (hw : w.conn.channel.writeEnabled = true)
    (hr : Run (machine tid) (fun u a => u.FailingWrites a ∧ u.NoDestroy a) w as w') :
    w'.conn.channel.writeEnabled = true
      ∧ w'.conn.trace.count .closeCb = w.conn.trace.count .closeCb := by
  refine hr.invariant (I := fun u => u.conn.channel.writeEnabled = true
    ∧ u.conn.trace.count .closeCb = w.conn.trace.count .closeCb) ⟨hw, rfl⟩ ?_
  intro u a u' hu hok hs
  obtain ⟨hw', hcount⟩ := waits_step hu.1 hok.1 hok.2 (step_cases hs).2
  exact ⟨hw', hcount.trans hu.2⟩

/-! ## The loop calls `HandleWrite` again and again -/

/-- A channel interested in writing is registered, also when it was closed before. -/
def Registered (c : TcpConnection) : Prop :=
  c.channel.writeEnabled = true → c.channel.registered = true

theorem registered_localStep {c c' : TcpConnection} {a : LocalLabel} {out : Option Outgoing}
    (hr : Registered c) (hclose : ∀ rest, c.stack = .destroyClose :: rest → c.channel.events = 0)
    (h : TcpConnection.LocalStep c a c' out) : Registered c' := by
  cases h with
  | establish h hs =>
    rw [TcpConnection.establishConnection, if_pos hs]
    dsimp only
    split <;> exact fun _ => rfl
  | destroy h =>
    unfold TcpConnection.destroyConnection
    dsimp only
    split <;> exact fun _ => rfl
  | destroyClose h =>
    intro hw
    have hzero : c.channel.close.writeEnabled = false := by
      show decide (c.channel.events &&& EPOLLOUT ≠ 0) = false
      rw [hclose _ h]
      decide
    exact absurd (hzero.symm.trans hw) Bool.false_ne_true
  | buffer h =>
    unfold TcpConnection.bufferRest
    dsimp only
    split
    · exact hr
    · exact fun _ => rfl
  | handleClosePending h hs hw => exact fun _ => rfl
  | handleClose h hs hw => exact fun _ => rfl
  | drained h hshut hout hlow => exact fun _ => rfl
  | _ => exact hr

/-- `Channel::Close` asserts that there is no interest left. -/
theorem destroyClose_asserts {c : TcpConnection} {rest : List Frame} {a : LocalLabel}
    {p : TcpConnection × Option Outgoing} (hstack : c.stack = .destroyClose :: rest)
    (hne : c.channel.events ≠ 0) (hs : c.localStep a = some p) :
    p.1 = { c with failed := some .channelClose } := by
  unfold TcpConnection.localStep at hs
  cases a with
  | call op => simp [TcpConnection.atUser, hstack] at hs
  | callbackReturns => simp [hstack] at hs
  | next =>
    simp only [TcpConnection.next, hstack, TcpConnection.destroyClose, if_neg hne,
      Option.some.injEq] at hs
    rw [← hs, ← hstack]
  | write r => simp [hstack] at hs
  | read r => simp [hstack] at hs

theorem registered_step {w w' : ConnWorld} {a : Label} (hr : Registered w.conn)
    (hs : w.step a = some w') : Registered w'.conn := by
  by_cases hclose : ∀ rest, w.conn.stack = .destroyClose :: rest → w.conn.channel.events = 0
  · cases (step_cases hs).2 with
    | run h =>
      rw [emit_conn]
      exact registered_localStep hr hclose h
    | _ => exact hr
  · rw [not_forall] at hclose
    obtain ⟨rest, hclose⟩ := hclose
    rw [Classical.not_imp] at hclose
    obtain ⟨hstack, hne⟩ := hclose
    cases a with
    | run a =>
      obtain ⟨out, hl⟩ := step_run hs
      have hconn := destroyClose_asserts hstack hne hl
      dsimp only at hconn
      rw [hconn]
      exact hr
    | _ => cases (step_cases hs).2 <;> exact hr

theorem registered_reachable {tid : ThreadId} {ok : ConnWorld → Label → Prop} {w : ConnWorld}
    (h : Reachable (machine tid) ok w) : Registered w.conn := by
  refine h.invariant (I := fun w => Registered w.conn) ?_ ?_
  · rintro _ ⟨cb, low, high, rfl⟩
    intro hw
    exact absurd hw (by simp [create, TcpConnection.create])
  · intro w a w' _ hr _ hs
    exact registered_step hr hs

/-- The trace behind a writable event that the loop has handled. -/
def handled (c : TcpConnection) : List ConnEvent :=
  if c.channel.handlers then c.logged .handleWrite else c.trace

/-- One writable event, its `HandleWrite` failing. -/
theorem failing_pass (tid : ThreadId) {w : ConnWorld} (hstack : w.conn.stack = [])
    (hfailed : w.conn.failed = none) (hw : w.conn.channel.writeEnabled = true)
    (hr : w.conn.channel.registered = true) :
    ∃ as, Run (machine tid) FailingWrites w as
        { w with conn := { w.conn with trace := handled w.conn } }
      ∧ (as.filter Label.writable).length = 1 := by
  have hreports : w.conn.reports false true = true := by
    unfold TcpConnection.reports
    simp [hr, hw]
  have hfault : w.conn.failed.isSome = false := by rw [hfailed]; rfl
  let u : ConnWorld := { w with conn := { w.conn with stack := [.handleWrite] } }
  have hevent : w.step (.event false false true) = some u := by
    unfold step
    rw [hfault]
    simp [hreports, enter, TcpConnection.enter, hstack, TcpConnection.eventFrames, u]
  have h1 : Run (machine tid) FailingWrites w [.event false false true] u :=
    Run.one trivial hevent
  have hok : u.FailingWrites (.run .next) := trivial
  cases hh : w.conn.channel.handlers with
  | false =>
    refine ⟨[.event false false true] ++ [.run .next], h1.append (Run.one hok ?_), rfl⟩
    show u.step (.run .next) = _
    unfold step
    rw [show u.conn.failed.isSome = false from hfault]
    simp [TcpConnection.localStep, TcpConnection.next, u, hh, handled, emit, hstack]
  | true =>
    let v : ConnWorld := { w with
      conn := { w.conn with trace := w.conn.logged .handleWrite, stack := [.writeOutput] } }
    have hnext : u.step (.run .next) = some v := by
      unfold step
      rw [show u.conn.failed.isSome = false from hfault]
      simp [TcpConnection.localStep, TcpConnection.next, u, v, hh, hw, emit, TcpConnection.logged]
    have hpipe : v.FailingWrites (.run (.write .pipe)) := Or.inl rfl
    refine ⟨[.event false false true] ++ [.run .next] ++ [.run (.write .pipe)],
      (h1.append (Run.one hok hnext)).append (Run.one hpipe ?_), rfl⟩
    show v.step (.run (.write .pipe)) = _
    unfold step
    rw [show v.conn.failed.isSome = false from hfault]
    simp [TcpConnection.localStep, TcpConnection.writeOutput, v, hh, handled, emit, hstack]

/-- As many of them as one likes. -/
theorem failing_passes (tid : ThreadId) (n : Nat) : ∀ {w : ConnWorld}, w.conn.stack = [] →
    w.conn.failed = none → w.conn.channel.writeEnabled = true →
    w.conn.channel.registered = true →
    ∃ as w', Run (machine tid) FailingWrites w as w' ∧ w'.conn.stack = []
      ∧ w'.conn.channel = w.conn.channel ∧ (as.filter Label.writable).length = n := by
  induction n with
  | zero => intro w hstack _ _ _; exact ⟨[], w, Run.nil, hstack, rfl, rfl⟩
  | succ n ih =>
    intro w hstack hfailed hw hr
    obtain ⟨as, hrun, hone⟩ := failing_pass tid hstack hfailed hw hr
    obtain ⟨bs, w', hrun', hstack', hchannel, hn⟩ :=
      ih (w := { w with conn := { w.conn with trace := handled w.conn } }) hstack hfailed hw hr
    refine ⟨as ++ bs, w', hrun.append hrun', hstack', hchannel, ?_⟩
    rw [List.filter_append, List.length_append, hone, hn, Nat.add_comm]

theorem not_endsClosed {tid : ThreadId} {ok : ConnWorld → Label → Prop} {w : ConnWorld}
    (h : Reachable (machine tid) ok w) (hp : ClosePending w) : ¬ EndsClosed tid w := by
  rintro ⟨n, hends⟩
  obtain ⟨as, w', hr, hstack, hchannel, hn⟩ :=
    failing_passes tid n hp.out hp.running hp.waits (registered_reachable h hp.waits)
  obtain ⟨_, hw⟩ := hends as w' hr hstack (Nat.le_of_eq hn.symm)
  rw [hchannel] at hw
  exact absurd (hp.waits.symm.trans hw) (by simp)

/-- **A pending close never ends while `write` fails.** From no such state is there a number of
`HandleWrite`s that closes the connection; and as long as nobody destroys the connection, every run
leaves it interested in writing and calls `close_cb_` no more. -/
theorem pending_close_never_ends {tid : ThreadId} {w : ConnWorld}
    (h : Reachable (machine tid) (fun _ _ => True) w) (hp : ClosePending w) :
    ¬ EndsClosed tid w
      ∧ ∀ as w', Run (machine tid) (fun u a => u.FailingWrites a ∧ u.NoDestroy a) w as w' →
        w'.conn.channel.writeEnabled = true
          ∧ w'.conn.trace.count .closeCb = w.conn.trace.count .closeCb :=
  ⟨not_endsClosed h hp, fun _ _ hr => waits_run hp.waits hr⟩

/-- The peer closes while a byte that the socket did not take is left. -/
theorem exists_closePending : ∃ w, Reachable (machine 0) (fun _ _ => True) w ∧ ClosePending w
    ∧ w.conn.outputBuf.contents = [⟨0, 7⟩] ∧ w.conn.trace.count .closeCb = 0 := by
  have hinit : (machine 0).init (create (.create 0 false false false)) := ⟨false, false, false, rfl⟩
  have hexec : ((machine 0).exec (fun _ _ => True) (create (.create 0 false false false))
      [.establish, .run .next, .run (.call (.send [7])), .run .next, .run (.write .wouldBlock),
        .run .next, .event false true false, .run .next, .run (.read .eof), .run .next]).map
          (fun w => decide (ConnEvent.handleClose ∈ w.conn.trace ∧ w.conn.state = .kDisconnected
            ∧ w.conn.channel.writeEnabled = true ∧ w.conn.stack = [] ∧ w.conn.failed = none
            ∧ w.conn.outputBuf.contents = [⟨0, 7⟩] ∧ w.conn.trace.count .closeCb = 0))
          = some true := by decide +kernel
  obtain ⟨w, hr, hp⟩ := Machine.exec_reachable hinit hexec
  obtain ⟨hclosing, hstate, hwaits, hout, hrunning, hleft, hcount⟩ := of_decide_eq_true hp
  exact ⟨w, hr, ⟨hclosing, hstate, hwaits, hout, hrunning⟩, hleft, hcount⟩

theorem pending_close_never_ends_small : ∃ w, Reachable (machine 0) (fun _ _ => True) w
    ∧ ClosePending w ∧ ¬ EndsClosed 0 w := by
  obtain ⟨w, hr, hp, _, _⟩ := exists_closePending
  exact ⟨w, hr, hp, (pending_close_never_ends hr hp).1⟩

/-- So failing writes do not finish every pending close. -/
theorem pending_close_waits_for_ever : ¬ ∀ w, Reachable (machine 0) (fun _ _ => True) w →
    ClosePending w → EndsClosed 0 w := by
  intro hall
  obtain ⟨w, hr, hp, _, _⟩ := exists_closePending
  exact not_endsClosed hr hp (hall w hr hp)

end ConnWorld

end Windz
