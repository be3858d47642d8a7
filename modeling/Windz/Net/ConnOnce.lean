import Windz.Net.ConnForceClose

/-!
# Disconnected for good, closed once

`Shutdown` tests `state_` and assigns it in two steps, in whatever thread it is
called. As long as none assigns `kDisconnecting` to a connection that has become
disconnected in between, `kDisconnected` is for good, and a connection whose
`close_cb_` has been called has nothing left that could call it again.
-/

namespace Windz

open Lib

namespace ConnWorld

/-- No `Shutdown` assigns `state_` when the connection is disconnected by now. -/
def NoRevival (w : ConnWorld) : Label → Prop
  | .threadNext t => w.threads t = .shutdownTested → w.conn.state ≠ .kDisconnected
  | .run .next => w.conn.stack.head? = some .shutdownAssign → w.conn.state ≠ .kDisconnected
  | .run (.call _) | .run .callbackReturns | .run (.write _) | .run (.read _) | .establish
  | .ownerAnswers | .functor | .timer | .event _ _ _ | .threadCall _ _ => True

instance (w : ConnWorld) (a : Label) : Decidable (w.NoRevival a) :=
  match a with
  | .threadNext t =>
      inferInstanceAs (Decidable (w.threads t = .shutdownTested → w.conn.state ≠ .kDisconnected))
  | .run .next =>
      inferInstanceAs (Decidable
        (w.conn.stack.head? = some .shutdownAssign → w.conn.state ≠ .kDisconnected))
  | .run (.call _) | .run .callbackReturns | .run (.write _) | .run (.read _) | .establish
  | .ownerAnswers | .functor | .timer | .event _ _ _ | .threadCall _ _ => .isTrue trivial

theorem revival_localStep {w : ConnWorld} {c : TcpConnection} {a : LocalLabel}
    {out : Option Outgoing} (hd : w.conn.state = .kDisconnected)
    (h : TcpConnection.LocalStep w.conn a c out) :
    c.state = .kDisconnected ↔ w.NoRevival (.run a) := by
  -- a step of a frame that is no assignment of `Shutdown`
  have hkeep : c.state = .kDisconnected → w.conn.stack.head? ≠ some .shutdownAssign →
      (c.state = .kDisconnected ↔ w.NoRevival (.run a)) := by
    intro hc hne
    refine iff_of_true hc ?_
    cases a with
    | next => exact fun he => absurd he hne
    | call op => trivial
    | callbackReturns => trivial
    | write r => trivial
    | read r => trivial
  cases h with
  | shutdownAssign h =>
    refine iff_of_false (by simp) fun hok => ?_
    exact hok (by rw [h]; rfl) hd
  | control h =>
    cases h with
    | ignored hu => exact iff_of_true hd trivial
    | shutdown hu hs => exact absurd (hd.symm.trans hs) (by simp)
    | forceClose hu hs => exact iff_of_true hd trivial
    | skip h hf =>
      refine hkeep hd ?_
      rw [h]
      intro he
      rw [Option.some.inj he] at hf
      exact hf
    | forceCloseInLoop h hs => exact hkeep hd (by rw [h]; simp)
    | drainedShutdown h hs => exact hkeep hd (by rw [h]; simp)
    | drainedClose h hs => exact hkeep hd (by rw [h]; simp)
    | eof h => exact iff_of_true hd trivial
    | notWritten h hne hpre => exact iff_of_true hd trivial
  | send hu hs => exact iff_of_true hd trivial
  | forceCloseAfter hu => exact iff_of_true hd trivial
  | establish h hs => exact absurd (hd.symm.trans hs) (by simp)
  | destroy h =>
    refine hkeep ?_ (by rw [h]; simp)
    unfold TcpConnection.destroyConnection
    dsimp only
    split <;> rfl
  | buffer h =>
    refine hkeep ?_ (by rw [h]; simp)
    unfold TcpConnection.bufferRest
    dsimp only
    split <;> exact hd
  | forceCloseAssign h => exact hkeep rfl (by rw [h]; simp)
  | handleClosePending h hs hw => exact hkeep rfl (by rw [h]; simp)
  | handleClose h hs hw => exact hkeep rfl (by rw [h]; simp)
  | _ h => exact hkeep hd (by rw [h]; simp)

/-- **What takes a connection out of `kDisconnected`** is the assignment of a `Shutdown`. -/
theorem revival_step {w w' : ConnWorld} {a : Label} (hd : w.conn.state = .kDisconnected)
    (h : WorldStep w a w') : w'.conn.state = .kDisconnected ↔ w.NoRevival a := by
  cases h with
  | run h =>
    rw [emit_conn]
    exact revival_localStep hd h
  | assignShutdown hp => exact iff_of_false (by simp) fun hok => hok hp hd
  | pushSend hp => exact iff_of_true hd fun he => absurd (he.symm.trans hp) (by simp)
  | pushShutdown hp => exact iff_of_true hd fun he => absurd (he.symm.trans hp) (by simp)
  | assignForceClose hp => exact iff_of_true rfl fun he => absurd (he.symm.trans hp) (by simp)
  | pushForceClose hp => exact iff_of_true hd fun he => absurd (he.symm.trans hp) (by simp)
  | _ => exact iff_of_true hd trivial

/-! ## Nothing left that closes -/

/-- The frames that neither close a disconnected connection nor send anything on it. -/
def Spent : Frame → Prop
  | .user | .establishConnection | .destroyConnection | .destroyClose | .sendInLoop _
  | .shutdownInLoop | .forceCloseInLoop | .handleError | .handleWrite => True
  | .directWrite _ | .bufferRest _ _ | .shutdownAssign | .forceCloseAssign | .handleRead
  | .readSocket | .writeOutput | .drainedShutdown | .drainedClose | .handleClose => False

/-- `close_cb_` has been called and nothing is left that calls it. -/
structure Closed (c : TcpConnection) : Prop where
  state : c.state = .kDisconnected
  read : c.channel.readEnabled = false
  write : c.channel.writeEnabled = false
  frames : ∀ f ∈ c.stack, Spent f

theorem Closed.top {c : TcpConnection} (h : Closed c) {f : Frame} {rest : List Frame}
    (hs : c.stack = f :: rest) : Spent f ∧ ∀ g ∈ rest, Spent g := by
  have hframes := h.frames
  rw [hs] at hframes
  exact List.forall_mem_cons.mp hframes

theorem closed_control {c : TcpConnection} {a : LocalLabel} {stack : List Frame} (h : Closed c)
    (hc : TcpConnection.Control c a stack) : Closed { c with stack } := by
  cases hc with
  | ignored hu => exact h
  | shutdown hu hs => exact absurd (h.state.symm.trans hs) (by simp)
  | forceClose hu hs => exact absurd hs (by simp [TcpConnection.isOpen, h.state])
  | skip hs hf => exact { h with frames := (h.top hs).2 }
  | forceCloseInLoop hs hopen => exact absurd hopen (by simp [TcpConnection.isOpen, h.state])
  | drainedShutdown hs hst => exact (h.top hs).1.elim
  | drainedClose hs hst => exact (h.top hs).1.elim
  | eof hs => exact (h.top hs).1.elim
  | notWritten hs hne hpre => exact (h.top hs).1.elim

theorem closed_localStep {c c' : TcpConnection} {a : LocalLabel} {out : Option Outgoing}
    (h : Closed c) (hs : TcpConnection.LocalStep c a c' out) : Closed c' := by
  cases hs with
  | control hc => exact closed_control h hc
  | send hu hst => exact absurd (h.state.symm.trans hst) (by simp)
  | forceCloseAfter hu => exact h
  | establish hs hst => exact absurd (h.state.symm.trans hst) (by simp)
  | establishFails hs hst => exact { h with }
  | destroy hs =>
    unfold TcpConnection.destroyConnection
    dsimp only
    split
    · refine ⟨rfl, by simp, by simp, ?_⟩
      exact List.forall_mem_cons.mpr ⟨trivial, List.forall_mem_cons.mpr ⟨trivial, (h.top hs).2⟩⟩
    · refine ⟨rfl, by simp, by simp, ?_⟩
      exact List.forall_mem_cons.mpr ⟨trivial, (h.top hs).2⟩
  | destroyClose hs => exact ⟨h.state, h.read, h.write, (h.top hs).2⟩
  | closeFails hs => exact { h with }
  | discard hs hst => exact ⟨h.state, h.read, h.write, (h.top hs).2⟩
  | direct hs hst hw ho => exact absurd h.state hst
  | queue hs hst hne hpre => exact absurd h.state hst
  | queueEmpty hs hst hne => exact absurd h.state hst
  | shut hs hw => exact { h with frames := (h.top hs).2 }
  | handleWrite hs hpre =>
    rcases hpre with ⟨hp, _⟩ | ⟨_, hw⟩
    · rw [hp]
      exact ⟨h.state, h.read, h.write, (h.top hs).2⟩
    · exact absurd (h.write.symm.trans hw) Bool.false_ne_true
  | handleClosePending hs hst hw => exact (h.top hs).1.elim
  | handleClose hs hst hw => exact (h.top hs).1.elim
  | handleCloseFails hs hst => exact (h.top hs).1.elim
  | wrote hs hshut hne hpre hlow => exact (h.top hs).1.elim
  | wroteAll hs hshut hlow => exact (h.top hs).1.elim
  | lost hs hr => exact (h.top hs).1.elim
  | wroteSome hs hshut hout hne => exact (h.top hs).1.elim
  | drained hs hshut hout hlow => exact (h.top hs).1.elim
  | buffer hs => exact (h.top hs).1.elim
  | shutdownAssign hs => exact (h.top hs).1.elim
  | forceCloseAssign hs => exact (h.top hs).1.elim
  | handleRead hs => exact (h.top hs).1.elim
  | data hs => exact (h.top hs).1.elim

theorem closed_step {w w' : ConnWorld} {a : Label} (h : Closed w.conn) (hok : w.NoRevival a)
    (hs : WorldStep w a w') : Closed w'.conn := by
  cases hs with
  | run hs =>
    rw [emit_conn]
    exact closed_localStep h hs
  | establish he hstack => exact { h with frames := by simp [Spent] }
  | @functor f rest hq hstack =>
    refine { h with frames := fun g hg => ?_ }
    cases f <;> (rw [List.mem_singleton.mp hg]; trivial)
  | timer ht hstack => exact { h with frames := by simp [Spent] }
  | @event error readable writable hr hstack =>
    have hreports : _ ∧ (readable = true → w.conn.channel.readEnabled = true)
        ∧ (writable = true → w.conn.channel.writeEnabled = true) := of_decide_eq_true hr
    refine { h with frames := ?_ }
    have hread : readable = false := by
      cases readable with
      | false => rfl
      | true => exact absurd (h.read.symm.trans (hreports.2.1 rfl)) Bool.false_ne_true
    have hwrite : writable = false := by
      cases writable with
      | false => rfl
      | true => exact absurd (h.write.symm.trans (hreports.2.2 rfl)) Bool.false_ne_true
    rw [hread, hwrite]
    cases error <;> simp [TcpConnection.eventFrames, Spent]
  | assignShutdown hp => exact absurd h.state (hok hp)
  | assignForceClose hp => exact { h with state := rfl }
  | _ => exact { h with }

/-- The step that calls `close_cb_` leaves nothing behind that would call it again. -/
theorem closed_of_callsCloseCb {w w' : ConnWorld} {a : Label} (hn : Nested w.conn.stack)
    (hc : callsCloseCb w.conn = true) (ha : a = .run .next) (hs : WorldStep w a w') :
    Closed w'.conn := by
  obtain ⟨rest, hstack⟩ : ∃ rest, w.conn.stack = .handleClose :: rest := by
    unfold callsCloseCb at hc
    split at hc
    · rename_i rest h
      exact ⟨rest, h⟩
    · exact absurd hc Bool.false_ne_true
  obtain ⟨hst, hw⟩ : w.conn.state ≠ .kConnecting ∧ w.conn.channel.writeEnabled = false := by
    unfold callsCloseCb at hc
    rw [hstack] at hc
    simpa using hc
  have hrest : ∀ g ∈ rest, Spent g := by
    rw [hstack] at hn
    intro g hg
    rw [show g = .handleWrite from hn.under hg]
    trivial
  have htop : ∀ {f : Frame} {r : List Frame}, w.conn.stack = f :: r →
      f = .handleClose ∧ r = rest := by
    intro f r h
    rw [hstack] at h
    exact ⟨(List.cons.inj h).1.symm, (List.cons.inj h).2.symm⟩
  cases ha
  cases hs with
  | run hs =>
    rw [emit_conn]
    cases hs with
    | handleClose h _ _ =>
      refine ⟨rfl, by simp, by simp, ?_⟩
      rw [(htop h).2]
      exact hrest
    | handleClosePending h _ hw' => exact absurd (hw.symm.trans hw') Bool.false_ne_true
    | handleCloseFails h hst' => exact absurd hst' hst
    | control h =>
      cases h with
      | skip h hf =>
        rw [(htop h).1] at hf
        exact hf.elim
      | forceCloseInLoop h _ => exact absurd (htop h).1 (by simp)
      | drainedShutdown h _ => exact absurd (htop h).1 (by simp)
      | drainedClose h _ => exact absurd (htop h).1 (by simp)
    | _ h => exact absurd (htop h).1 (by simp)

/-- `close_cb_` has been called at most once, and never again once it has been. -/
structure OnceClosed (w : ConnWorld) : Prop where
  count : w.conn.trace.count .closeCb ≤ 1
  closed : w.conn.trace.count .closeCb = 1 → Closed w.conn

theorem onceClosed_step {w w' : ConnWorld} {a : Label} (hn : Nested w.conn.stack)
    (h : OnceClosed w) (hok : w.NoRevival a) (hs : WorldStep w a w') : OnceClosed w' := by
  rcases closes_step hs with ⟨_, _, hconn⟩ | ⟨ha, hc, _, hcount⟩ | ⟨_, _, hcount⟩
  · refine ⟨?_, ?_⟩
    · rw [hconn]
      exact h.count
    · rw [hconn]
      exact h.closed
  · have hzero : w.conn.trace.count .closeCb = 0 := by
      by_contra hne
      have hone : w.conn.trace.count .closeCb = 1 := by
        have := h.count
        omega
      -- a closed connection has no `HandleClose` to run
      have hclosed := h.closed hone
      unfold callsCloseCb at hc
      split at hc
      · rename_i rest hstack
        exact (hclosed.top hstack).1.elim
      · exact absurd hc Bool.false_ne_true
    rw [hzero] at hcount
    exact ⟨Nat.le_of_eq hcount, fun _ => closed_of_callsCloseCb hn hc ha hs⟩
  · refine ⟨Nat.le_trans (Nat.le_of_eq hcount) h.count, fun hone => ?_⟩
    rw [hcount] at hone
    exact closed_step (h.closed hone) hok hs

theorem onceClosed_reachable {tid : ThreadId} {w : ConnWorld}
    (h : Reachable (machine tid) NoRevival w) : OnceClosed w := by
  refine h.invariant (I := OnceClosed) ?_ ?_
  · rintro _ ⟨cb, low, high, rfl⟩
    exact ⟨Nat.zero_le 1, fun hone => absurd hone (by simp [create, TcpConnection.create])⟩
  · intro w a w' hr hi hok hs
    exact onceClosed_step (nested_reachable hr) hi hok (step_cases hs).2

/-- **Disconnected for good, closed once.** In every run in which no `Shutdown` assigns `state_`
when the connection is disconnected by now, `close_cb_` is called at most once and `kDisconnected`
stays; and a step out of `kDisconnected` is such an assignment. -/
theorem disconnected_for_good {tid : ThreadId} {w : ConnWorld}
    (h : Reachable (machine tid) NoRevival w) :
    w.conn.trace.count .closeCb ≤ 1
      ∧ (w.conn.state = .kDisconnected → ∀ as w', Run (machine tid) NoRevival w as w' →
        w'.conn.state = .kDisconnected)
      ∧ ∀ a w', w.conn.state = .kDisconnected → w.step a = some w' →
        (w'.conn.state = .kDisconnected ↔ w.NoRevival a) := by
  refine ⟨(onceClosed_reachable h).count, fun hd as w' hr => ?_, fun a w' hd hs => ?_⟩
  · refine hr.invariant (I := fun u => u.conn.state = .kDisconnected) hd ?_
    intro u a u' hu hok hs
    exact (revival_step hu (step_cases hs).2).mpr hok
  · exact revival_step hd (step_cases hs).2

/-- A `Shutdown` in time and a `ForceClose` of other threads, with the peer closing and a delayed
close that comes too late. -/
theorem disconnected_for_good_small : ∃ w, Reachable (machine 0) NoRevival w
    ∧ w.conn.state = .kDisconnected ∧ w.conn.trace.count .closeCb = 1
    ∧ w.conn.trace.count .closeCb ≤ 1 := by
  have hinit : (machine 0).init (create (.create 0 false false false)) := ⟨false, false, false, rfl⟩
  have hexec : ((machine 0).exec NoRevival (create (.create 0 false false false))
      [.establish, .run .next, .threadCall 1 .shutdown, .threadCall 2 .forceClose,
        .threadCall 3 .forceCloseAfter, .threadNext 1, .threadNext 2, .threadNext 1,
        .event false true false, .run .next, .run (.read .eof), .run .next, .timer, .run .next,
        .threadNext 2]).map (fun w => decide (w.conn.state = .kDisconnected
          ∧ w.conn.trace.count .closeCb = 1)) = some true := by decide +kernel
  obtain ⟨w, hr, hp⟩ := Machine.exec_reachable hinit hexec
  obtain ⟨hd, hcount⟩ := of_decide_eq_true hp
  exact ⟨w, hr, hd, hcount, (disconnected_for_good hr).1⟩

/-- A `Shutdown` that tested `state_` before the peer closed takes the connection back to
disconnecting, and a delayed close closes it a second time. -/
theorem late_shutdown_closes_twice : ¬ ∀ w, Reachable (machine 0) (fun _ _ => True) w →
    w.conn.trace.count .closeCb ≤ 1
      ∧ (w.conn.state = .kDisconnected → ∀ a w', w.step a = some w' →
        w'.conn.state = .kDisconnected) := by
  intro hall
  have hinit : (machine 0).init (create (.create 0 false false false)) := ⟨false, false, false, rfl⟩
  have hexec : ((machine 0).exec (fun _ _ => True) (create (.create 0 false false false))
      [.establish, .run .next, .threadCall 1 .forceCloseAfter, .threadCall 1 .shutdown,
        .event false true false, .run .next, .run (.read .eof), .run .next, .threadNext 1, .timer,
        .run .next, .run .next]).map (fun w => decide (w.conn.trace.count .closeCb = 2))
          = some true := by decide +kernel
  obtain ⟨w, hr, hp⟩ := Machine.exec_reachable hinit hexec
  have hcount := (hall w hr).1
  rw [of_decide_eq_true hp] at hcount
  exact absurd hcount (by simp)

end ConnWorld

end Windz
