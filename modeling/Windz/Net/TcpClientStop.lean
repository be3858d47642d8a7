import Windz.Net.TcpClientProof

/-!
# What is left after `Stop`

A connector with `start_` not set goes no further than where it stands. One that has it
set after all, because a `Restart` came behind the assignment of `Stop`, is still at
rest when there is nothing that would call `Connect`: no attempt, no timer and no
functor of `Start`, or `kConnected`, in which those fail their assertion.
-/

namespace Windz

open Lib

namespace ConnectorLoop

/-- Something is pending that will call `Connect`. -/
def MayConnect (l : ConnectorLoop) : Prop :=
  l.connector.start = true ∧ l.connector.state ≠ .kConnected
    ∧ (l.timers ≠ [] ∨ .start ∈ l.queue)

instance (l : ConnectorLoop) : Decidable l.MayConnect := by
  unfold MayConnect
  infer_instance

/-- The frames of a connector at rest with `start_` set: they do nothing, or an assertion fails. -/
def RestFrame (l : ConnectorLoop) (f : ConnectorFrame) : Prop :=
  f = .stop ∨ f = .handleWrite ∨ f = .handleError
    ∨ (f = .start ∨ f = .retryTimer) ∧ l.connector.state = .kConnected

instance (l : ConnectorLoop) (f : ConnectorFrame) : Decidable (l.RestFrame f) := by
  unfold RestFrame
  infer_instance

/-- The connector does not call `Connect`, nor `conn_cb_`. -/
structure Quiet (l : ConnectorLoop) : Prop where
  notConnecting : .connect ∉ l.connector.stack
  /-- With `start_` set there is nothing that would go on. -/
  rest : l.connector.start = true → l.connector.state ≠ .kConnecting ∧ ¬ l.MayConnect
    ∧ ∀ f ∈ l.connector.stack, l.RestFrame f

/-- It is a call of the connector's callback. -/
def ConnectorEvent.isConnCb : ConnectorEvent → Bool
  | .connCb _ => true
  | _ => false

/-- How often `Connect` was called, and `conn_cb_`. -/
def activity (l : ConnectorLoop) : Nat × Nat :=
  (l.connector.sockets, l.connector.trace.countP ConnectorEvent.isConnCb)

theorem countP_logged {c : Connector} {es : List ConnectorEvent}
    (h : es.countP ConnectorEvent.isConnCb = 0) :
    (c.logged es).countP ConnectorEvent.isConnCb = c.trace.countP ConnectorEvent.isConnCb := by
  unfold Connector.logged
  rw [List.countP_append, h]
  rfl

/-- A frame that goes on is not on the stack of a quiet connector with `start_` set. -/
theorem Quiet.start_false {l : ConnectorLoop} (h : Quiet l) {f : ConnectorFrame}
    {rest : List ConnectorFrame} (hstk : l.connector.stack = f :: rest)
    (hf : f = .retryTest ∨ f = .restartTest ∨ ∃ socket, f = .connected socket) :
    l.connector.start = false := by
  by_contra hs
  rw [Bool.not_eq_false] at hs
  have hrest := (h.rest hs).2.2 f (by rw [hstk]; exact List.mem_cons_self)
  rcases hf with hf | hf | ⟨socket, hf⟩
  · exact absurd hrest (by simp [RestFrame, hf])
  · exact absurd hrest (by simp [RestFrame, hf])
  · exact absurd hrest (by simp [RestFrame, hf])

/-- Nor is one with the handlers of its channel set. -/
theorem Quiet.not_handling {l : ConnectorLoop} (hcore : Core l) (h : Quiet l)
    (hset : l.connector.handlersSet = true) : l.connector.start = false := by
  by_contra hs
  rw [Bool.not_eq_false] at hs
  exact (h.rest hs).1 (hcore.connecting hset)

/-- A connector with `start_` not set is quiet when it is not in `Connect`. -/
theorem quiet_of_false {l : ConnectorLoop} (hs : l.connector.start = false)
    (hstk : .connect ∉ l.connector.stack) : Quiet l :=
  ⟨hstk, fun ht => absurd (hs.symm.trans ht) (by simp)⟩

/-- What lies under the frame on top, with `start_` not set. -/
theorem Quiet.under {l l' : ConnectorLoop} (h : Quiet l) {f : ConnectorFrame}
    {rest : List ConnectorFrame} (hstk : l.connector.stack = f :: rest)
    (hs : l'.connector.start = false) (hstk' : ∀ g ∈ l'.connector.stack, g ∈ rest ∨ g ≠ .connect) :
    Quiet l' := by
  refine quiet_of_false hs fun hmem => ?_
  rcases hstk' _ hmem with hrest | hne
  · exact h.notConnecting (by rw [hstk]; exact List.mem_cons_of_mem _ hrest)
  · exact hne rfl

/-- **A step inside a quiet connector.** -/
theorem quiet_run {l : ConnectorLoop} {a : Connector.Label} {c : Connector}
    {out : Option ConnectorOutgoing} (hcore : Core l) (h : Quiet l)
    (hs : ConnectorStep l.connector a c out) :
    Quiet ({ l with connector := c }.emit out)
      ∧ activity ({ l with connector := c }.emit out) = activity l := by
  cases hs with
  | @skip f rest hstk hskip =>
    refine ⟨⟨fun hmem => ?_, fun hs => ?_⟩, rfl⟩
    · exact h.notConnecting (by rw [hstk]; exact List.mem_cons_of_mem _ hmem)
    · obtain ⟨hst, hmay, hframes⟩ := h.rest hs
      exact ⟨hst, hmay, fun g hg => hframes g (by rw [hstk]; exact List.mem_cons_of_mem _ hg)⟩
  | @test f rest hstk ht hstart =>
    exfalso
    have hframe := (h.rest hstart).2.2 f (by rw [hstk]; exact List.mem_cons_self)
    rcases ht with ⟨hf | hf, hst⟩ | hf
    · exact absurd hframe (by simp [RestFrame, hf, hst])
    · exact absurd hframe (by simp [RestFrame, hf, hst])
    · exact absurd hframe (by simp [RestFrame, hf])
  | startFails hstk hst => exact ⟨⟨h.notConnecting, h.rest⟩, rfl⟩
  | timerFails hstk hst => exact ⟨⟨h.notConnecting, h.rest⟩, rfl⟩
  | noChannel hst hch => exact absurd hch (hcore.has_channel hst)
  | stop hstk hst hch =>
    have hs : l.connector.start = false := by
      by_contra hs
      exact (h.rest (by simpa using hs)).1 hst
    exact ⟨h.under hstk hs fun g hg => .inl hg, Prod.ext rfl (countP_logged rfl)⟩
  | runAfter hstk hstart =>
    exact absurd (hstart.symm.trans (h.start_false hstk (by simp))) (by simp)
  | connCb hstk hstart =>
    exact absurd (hstart.symm.trans (h.start_false hstk (by simp))) (by simp)
  | closeConnected hstk hstart =>
    exact ⟨h.under hstk hstart fun g hg => .inl hg, Prod.ext rfl (countP_logged rfl)⟩
  | handlerRetries hstk hset hch hf =>
    have hs := h.not_handling hcore hset
    refine ⟨h.under hstk hs fun g hg => ?_, Prod.ext rfl (countP_logged rfl)⟩
    rcases List.mem_cons.mp hg with he | hg
    · exact .inr (by rw [he]; simp)
    · exact .inl hg
  | connected hstk hset hch =>
    have hs := h.not_handling hcore hset
    refine ⟨h.under hstk hs fun g hg => ?_, Prod.ext rfl (countP_logged rfl)⟩
    rcases List.mem_cons.mp hg with he | hg
    · exact .inr (by rw [he]; simp)
    · exact .inl hg
  | connecting hstk hc hch =>
    exact absurd (by rw [hstk]; exact List.mem_cons_self) h.notConnecting
  | connectingFails hstk hc hch =>
    exact absurd (by rw [hstk]; exact List.mem_cons_self) h.notConnecting
  | connectRetries hstk hc =>
    exact absurd (by rw [hstk]; exact List.mem_cons_self) h.notConnecting
  | connectCloses hstk hc =>
    exact absurd (by rw [hstk]; exact List.mem_cons_self) h.notConnecting

/-- Nobody sets `start_`, nor has `Start` run. -/
def KeepsStopped : Label → Prop
  | .start | .closed true | .threadAssign true | .threadQueue true => False
  | _ => True

/-- **A step of a quiet connector.** -/
theorem quiet_step {l l' : ConnectorLoop} {a : Label} (hcore : Core l) (h : Quiet l)
    (ha : KeepsStopped a) (hs : l.step a = some l') : Quiet l' ∧ activity l' = activity l := by
  cases (step_cases hs).2 with
  | run hrun => exact quiet_run hcore h hrun
  | start hstk => exact ha.elim
  | stop hstk => exact ⟨quiet_of_false rfl (by simp), rfl⟩
  | closed ho => exact ⟨⟨h.notConnecting, h.rest⟩, rfl⟩
  | restart ho hstk => exact ha.elim
  | threadAssign start =>
    cases start with
    | true => exact ha.elim
    | false => exact ⟨quiet_of_false rfl h.notConnecting, rfl⟩
  | threadQueue start =>
    cases start with
    | true => exact ha.elim
    | false =>
      refine ⟨⟨h.notConnecting, fun hs => ?_⟩, rfl⟩
      obtain ⟨hst, hmay, hframes⟩ := h.rest hs
      refine ⟨hst, fun hm => hmay ⟨hs, hm.2.1, ?_⟩, hframes⟩
      rcases hm.2.2 with ht | hq
      · exact .inl ht
      · rcases List.mem_append.mp hq with hq | hq
        · exact .inr hq
        · exact absurd (List.mem_singleton.mp hq) (by simp)
  | clock hle => exact ⟨⟨h.notConnecting, h.rest⟩, rfl⟩
  | phase hstk => exact ⟨⟨h.notConnecting, h.rest⟩, rfl⟩
  | @functor f g rest left hq hstk hg =>
    refine ⟨⟨?_, fun hs => ?_⟩, rfl⟩
    · rcases hg with ⟨_, hf⟩ | ⟨_, hf⟩ <;> simp [hf]
    · obtain ⟨hst, hmay, hframes⟩ := h.rest hs
      refine ⟨hst, fun hm => hmay ⟨hs, hm.2.1, ?_⟩, ?_⟩
      · rcases hm.2.2 with ht | hrest
        · exact .inl ht
        · exact .inr (by rw [hq]; exact List.mem_cons_of_mem _ hrest)
      · intro f' hf'
        rw [List.mem_singleton.mp hf']
        rcases hg with ⟨hg, hf⟩ | ⟨_, hf⟩
        · -- the functor of a `Start` from before: it fails its assertion
          refine .inr (.inr (.inr ⟨.inl hf, ?_⟩))
          by_contra hne
          exact hmay ⟨hs, hne, .inr (by rw [hq, hg]; exact List.mem_cons_self)⟩
        · exact .inl hf
  | @reset rest left hq hstk =>
    refine ⟨⟨by simp, fun hs => ?_⟩, rfl⟩
    obtain ⟨hst, hmay, _⟩ := h.rest hs
    refine ⟨hst, fun hm => hmay ⟨hs, hm.2.1, ?_⟩, by simp⟩
    rcases hm.2.2 with ht | hrest
    · exact .inl ht
    · exact .inr (by rw [hq]; exact List.mem_cons_of_mem _ hrest)
  | @timer k when hk hstk =>
    refine ⟨⟨by simp, fun hs => ?_⟩, rfl⟩
    obtain ⟨hst, hmay, _⟩ := h.rest hs
    have hne : l.timers ≠ [] := by
      intro hnil
      rw [hnil] at hk
      exact absurd hk (by simp)
    have hconn : l.connector.state = .kConnected := by
      by_contra hst'
      exact hmay ⟨hs, hst', .inl hne⟩
    refine ⟨hst, fun hm => hm.2.1 hconn, fun f hf => ?_⟩
    exact .inr (.inr (.inr ⟨.inr (List.mem_singleton.mp hf), hconn⟩))
  | @event error writable hstk hr =>
    have hs : l.connector.start = false := by
      by_contra hs
      obtain ⟨ch, hch, hreg⟩ := (Option.any_eq_true _ _).mp hr
      rw [Bool.and_eq_true] at hreg
      have hclosed := hcore.closed ch hch (h.rest (by simpa using hs)).1
      exact Bool.false_ne_true (hclosed.1.symm.trans hreg.1)
    refine ⟨quiet_of_false hs ?_, rfl⟩
    cases error <;> cases writable <;> simp [Connector.eventFrames]

/-- The functor of `Stop` leaves the connector quiet, unless something may still connect. -/
theorem quiet_stop {l l' : ConnectorLoop} (hcore : Core l) (hstk : l.connector.stack = [.stop])
    (hmay : ¬ l.MayConnect) (hs : l.step (.run .next) = some l') : Quiet l' := by
  -- what is left, `start_` being set or not
  have hafter : ∀ l'' : ConnectorLoop, l''.connector.stack = [] →
      l''.connector.start = l.connector.start →
      (l.connector.start = true → l''.connector.state ≠ .kConnecting ∧ ¬ l''.MayConnect) →
      Quiet l'' := by
    intro l'' hstk' hstart hst
    refine ⟨by rw [hstk']; simp, fun ht => ?_⟩
    obtain ⟨h1, h2⟩ := hst (hstart.symm.trans ht)
    exact ⟨h1, h2, by rw [hstk']; simp⟩
  cases (step_cases hs).2 with
  | run hrun =>
    cases hrun with
    | @skip f rest h hskip =>
      rw [hstk] at h
      obtain ⟨hf, hrest⟩ := List.cons.inj h
      rw [← hf] at hskip
      exact hafter _ hrest.symm rfl fun _ => ⟨hskip, hmay⟩
    | stop h hst hch =>
      rw [hstk] at h
      refine hafter _ (List.cons.inj h).2.symm rfl fun hstart => ⟨by simp [emit], fun hm => ?_⟩
      refine hmay ⟨hstart, by rw [hst]; simp, ?_⟩
      rcases hm.2.2 with ht | hq
      · exact .inl ht
      · rcases List.mem_append.mp hq with hq | hq
        · exact .inr hq
        · exact absurd (List.mem_singleton.mp hq) (by simp)
    | noChannel hst hch => exact absurd hch (hcore.has_channel hst)
    | @test f rest h ht hstart =>
      rw [hstk] at h
      rw [← (List.cons.inj h).1] at ht
      rcases ht with ⟨hf | hf, _⟩ | hf <;> exact absurd hf (by simp)
    | startFails h hst => exact absurd (hstk.symm.trans h) (by simp)
    | timerFails h hst => exact absurd (hstk.symm.trans h) (by simp)
    | runAfter h hstart => exact absurd (hstk.symm.trans h) (by simp)
    | connCb h hstart => exact absurd (hstk.symm.trans h) (by simp)
    | closeConnected h hstart => exact absurd (hstk.symm.trans h) (by simp)
    | @handlerRetries a f rest ch h hset hch hf =>
      rw [hstk] at h
      rw [← (List.cons.inj h).1] at hf
      rcases hf with ⟨hf, _⟩ | ⟨hf, _⟩ <;> exact absurd hf (by simp)

end ConnectorLoop

namespace TcpClient

variable {tid otherTid : ThreadId} {hasConnectionCb : Bool}

/-- `Connect` is not called. -/
def NoConnect (_ : TcpClient) (a : Label) : Prop := a ≠ .connect ∧ a ≠ .otherConnect

instance (w : TcpClient) (a : Label) : Decidable (w.NoConnect a) :=
  inferInstanceAs (Decidable (a ≠ .connect ∧ a ≠ .otherConnect))

/-- The client has stopped: nobody is in `Connect`, and `start_` is not set. -/
structure Stopped (w : TcpClient) : Prop where
  start : w.start = false
  other : w.other ≠ .connectAssigned ∧ w.other ≠ .connectQueue

theorem stopped_step {w w' : TcpClient} {a : Label} (h : Stopped w) (hok : w.NoConnect a)
    (hs : w.step a = some w') : Stopped w' := by
  cases (step_cases hs).2 with
  | plain hm =>
    cases hm with
    | connect hcall hs => exact absurd rfl hok.1
    | otherConnect ho hlife hs => exact absurd rfl hok.2
    | disconnect hcall => exact ⟨rfl, h.other⟩
    | stop hcall => exact ⟨rfl, h.other⟩
    | otherDisconnect ho hlife => exact ⟨rfl, by simp⟩
    | otherStop ho hlife => exact ⟨rfl, by simp⟩
    | otherDestroy ho hlife => exact ⟨h.start, by simp⟩
    | otherReturns ho =>
      refine ⟨h.start, ?_⟩
      rcases ho with ⟨_, hpc⟩ | ⟨_, hpc⟩ <;> simp [hpc]
    | @otherReplaces i unique ho => cases unique <;> exact ⟨h.start, by simp⟩
    | otherDestructed ho => exact ⟨h.start, by simp⟩
    | _ => exact ⟨h.start, h.other⟩
  | connector hm _ =>
    cases hm with
    | assignTrue ho => exact absurd ho h.other.1
    | queueStart ho => exact absurd ho h.other.2
    | assignFalse ho =>
      refine ⟨h.start, ?_⟩
      rcases ho with ⟨_, hpc⟩ | ⟨_, hpc⟩ <;> simp [afterConnector, hpc]
    | queueStop ho =>
      refine ⟨h.start, ?_⟩
      rcases ho with ⟨_, hpc⟩ | ⟨_, hpc⟩ <;> simp [afterConnector, hpc]
    | _ => exact ⟨h.start, h.other⟩
  | conn hm _ _ =>
    cases hm with
    | disconnect hcall hc => exact ⟨rfl, h.other⟩
    | other hb ho =>
      refine ⟨h.start, ?_⟩
      rcases ho with ⟨_, hpc⟩ | ⟨_, hpc⟩ | ⟨_, hpc⟩ <;> simp [afterConn, hpc]
    | _ => exact ⟨h.start, h.other⟩

/-- On its own the connector does not start. -/
theorem keepsStopped_of_own {w : TcpClient} {b : ConnectorLoop.Label}
    (h : w.canStepConnector b = true) : ConnectorLoop.KeepsStopped b := by
  cases b with
  | start => exact absurd h (by simp [canStepConnector])
  | closed restart => exact absurd h (by simp [canStepConnector])
  | threadAssign start => exact absurd h (by simp [canStepConnector])
  | threadQueue start => exact absurd h (by simp [canStepConnector])
  | _ => trivial

/-- A stopped client whose connector is quiet, and which is not about to call it. -/
structure Silent (w : TcpClient) : Prop where
  stopped : Stopped w
  stack : .startConnector ∉ w.stack ∧ .restart ∉ w.stack
  quiet : w.connector.Quiet

theorem silent_step {w w' : TcpClient} {a : Label} (hbase : Base w) (h : Silent w)
    (hok : w.NoConnect a) (hs : w.step a = some w') :
    Silent w' ∧ w'.connector.activity = w.connector.activity := by
  have hstopped := stopped_step h.stopped hok hs
  obtain ⟨hh, hstep⟩ := step_cases hs
  have hpop : ∀ {f : ClientFrame} {rest : List ClientFrame}, w.stack = f :: rest →
      .startConnector ∉ rest ∧ .restart ∉ rest := by
    intro f rest hstk
    have hstack := h.stack
    rw [hstk, List.mem_cons, List.mem_cons, not_or, not_or] at hstack
    exact ⟨hstack.1.2, hstack.2.2⟩
  cases hstep with
  | plain hm =>
    have hsame : w'.connector = w.connector := by cases hm <;> rfl
    refine ⟨⟨hstopped, ?_, by rw [hsame]; exact h.quiet⟩, by rw [hsame]⟩
    cases hm with
    | connect hcall hs => exact absurd rfl hok.1
    | stop hcall => simp
    | destroyStop hcall ho hc => simp
    | @destroy unique i cc hcall ho hc hcc => cases unique <;> simp
    | newTcpConnection hstk hlife hw => exact hpop hstk
    | testRetry hstk hr => simpa using hpop hstk
    | testStart hstk hstart => exact absurd (h.stopped.start.symm.trans hstart) (by simp)
    | destructed hstk hs => exact hpop hstk
    | _ => exact h.stack
  | @connector v b connector hm hb =>
    have hkeeps : ConnectorLoop.KeepsStopped b ∧ .startConnector ∉ v.stack ∧ .restart ∉ v.stack := by
      cases hm with
      | own hown => exact ⟨keepsStopped_of_own hown, h.stack⟩
      | startConnector hstk hlife =>
        exact absurd (by rw [hstk]; exact List.mem_cons_self) h.stack.1
      | stopConnector hstk hlife => exact ⟨trivial, hpop hstk⟩
      | @removed f rest restart hstk hf hlife =>
        rcases hf with ⟨_, hr⟩ | ⟨hf, _⟩
        · rw [hr]
          exact ⟨trivial, hpop hstk⟩
        · rw [hf] at hstk
          exact absurd (by rw [hstk]; exact List.mem_cons_self) h.stack.2
      | assignTrue ho => exact absurd ho h.stopped.other.1
      | queueStart ho => exact absurd ho h.stopped.other.2
      | assignFalse ho => exact ⟨trivial, h.stack⟩
      | queueStop ho => exact ⟨trivial, h.stack⟩
    obtain ⟨hquiet, hact⟩ := ConnectorLoop.quiet_step (hbase.core hh) h.quiet hkeeps.1 hb
    refine ⟨⟨hstopped, ?_, hquiet⟩, hact⟩
    unfold afterConnector
    dsimp only
    split
    · simpa using hkeeps.2
    · exact hkeeps.2
  | @conn v i b cc world hm hcc hb =>
    have hsame : v.connector = w.connector := by cases hm <;> rfl
    have hstack : .startConnector ∉ v.stack ∧ .restart ∉ v.stack := by
      cases hm with
      | remove hstk hlife hc => simpa using hpop hstk
      | closed hstk hlife => exact hpop hstk
      | forceClose hstk hlife => exact hpop hstk
      | _ => exact h.stack
    refine ⟨⟨hstopped, ?_, ?_⟩, ?_⟩
    · unfold afterConn
      dsimp only
      split
      · unfold closeCb
        split <;> simpa using hstack
      · exact hstack
    · show v.connector.Quiet
      rw [hsame]
      exact h.quiet
    · show v.connector.activity = _
      rw [hsame]

/-! ## Where the loop thread is -/

/-- The frames that wait while the loop thread is in the connector. -/
def Waits (f : ClientFrame) : Prop := f = .newTcpConnection ∨ f = .destructed

/-- How the calls of the client and of its connector lie over one another. -/
structure Layered (w : TcpClient) : Prop where
  under : ∀ f ∈ w.stack.tail, Waits f
  /-- The loop thread is in the connector only when it is in no other function of the client. -/
  inside : w.connector.connector.stack ≠ [] → ∀ f ∈ w.stack, Waits f

/-- In a function of the client, the loop thread is out of the connector. -/
theorem Layered.outside {w : TcpClient} (h : Layered w) {f : ClientFrame}
    {rest : List ClientFrame} (hstk : w.stack = f :: rest) (hf : ¬ Waits f) :
    w.connector.connector.stack = [] := by
  by_contra hne
  exact hf (h.inside hne f (by rw [hstk]; exact List.mem_cons_self))

theorem Layered.rest {w : TcpClient} (h : Layered w) {f : ClientFrame}
    {rest : List ClientFrame} (hstk : w.stack = f :: rest) : ∀ g ∈ rest, Waits g := by
  have hunder := h.under
  rw [hstk] at hunder
  exact hunder

/-- Frames that wait. -/
theorem layered_of_waits {w : TcpClient} (h : ∀ f ∈ w.stack, Waits f) : Layered w :=
  ⟨fun f hf => h f (List.mem_of_mem_tail hf), fun _ => h⟩

/-- Frames of which one need not wait, with the loop thread out of the connector. -/
theorem layered_of_outside {w : TcpClient} (h : ∀ f ∈ w.stack.tail, Waits f)
    (hc : w.connector.connector.stack = []) : Layered w :=
  ⟨h, fun hne => absurd hc hne⟩

theorem layered_plain {w w' : TcpClient} {a : Label} (h : Layered w) (hs : PlainMove w a w') :
    Layered w' := by
  cases hs with
  | connect hcall hs => exact layered_of_outside (by simp) (canCall_stack hcall).2.2
  | stop hcall => exact layered_of_outside (by simp) (canCall_stack hcall).2.2
  | destroyStop hcall ho hc =>
    exact layered_of_outside (by simp [Waits]) (canCall_stack hcall).2.2
  | @destroy unique i cc hcall ho hc hcc =>
    refine layered_of_outside ?_ (canCall_stack hcall).2.2
    cases unique <;> simp [Waits]
  | newTcpConnection hstk hlife hw => exact layered_of_waits (h.rest hstk)
  | testRetry hstk hr =>
    exact layered_of_outside (h.rest hstk) (h.outside hstk (by simp [Waits]))
  | testStart hstk hs =>
    exact layered_of_outside (h.rest hstk) (h.outside hstk (by simp [Waits]))
  | destructed hstk hs => exact layered_of_waits (h.rest hstk)
  | _ => exact ⟨h.under, h.inside⟩

theorem layered_connector {w v : TcpClient} {a : Label} {b : ConnectorLoop.Label}
    {connector : ConnectorLoop} (h : Layered w) (hm : ConnectorMove w a v b)
    (hs : w.connector.step b = some connector) : Layered (v.afterConnector connector) := by
  have hwaits : (∀ f ∈ v.stack, Waits f) → Layered (v.afterConnector connector) := by
    intro hv
    refine layered_of_waits ?_
    unfold afterConnector
    dsimp only
    split
    · exact List.forall_mem_cons.mpr ⟨.inl rfl, hv⟩
    · exact hv
  -- time passes, or another thread calls the connector
  have hsame : v.stack = w.stack → connector.connector.stack = w.connector.connector.stack →
      connector.opened = w.connector.opened → Layered (v.afterConnector connector) := by
    intro hstk hc ho
    have hafter : (v.afterConnector connector).stack = w.stack := by
      unfold afterConnector
      rw [hm.connector, ho, if_neg (Nat.lt_irrefl _), hstk]
    refine ⟨by rw [hafter]; exact h.under, fun hne => ?_⟩
    rw [hafter]
    exact h.inside fun he => hne (hc.trans he)
  have hidle : v.idle = true → Layered (v.afterConnector connector) := by
    intro hi
    refine hwaits ?_
    rw [(of_decide_eq_true hi).1]
    simp
  cases hm with
  | @own b hown =>
    cases b with
    | run a => exact hwaits (h.inside (ConnectorLoop.stack_of_run hs))
    | clock now => cases (ConnectorLoop.step_cases hs).2 with | clock => exact hsame rfl rfl rfl
    | next => exact hidle hown
    | timer k => exact hidle hown
    | event error writable => exact hidle hown
    | _ => exact absurd hown (by simp [canStepConnector])
  | startConnector hstk hlife => exact hwaits (h.rest hstk)
  | stopConnector hstk hlife => exact hwaits (h.rest hstk)
  | removed hstk hf hlife => exact hwaits (h.rest hstk)
  | assignTrue ho =>
    cases (ConnectorLoop.step_cases hs).2 with | threadAssign => exact hsame rfl rfl rfl
  | queueStart ho =>
    cases (ConnectorLoop.step_cases hs).2 with | threadQueue => exact hsame rfl rfl rfl
  | assignFalse ho =>
    cases (ConnectorLoop.step_cases hs).2 with | threadAssign => exact hsame rfl rfl rfl
  | queueStop ho =>
    cases (ConnectorLoop.step_cases hs).2 with | threadQueue => exact hsame rfl rfl rfl

theorem layered_conn {w v : TcpClient} {a : Label} {i : Nat} {b : ConnWorld.Label}
    {cc : ClientConn} {world : ConnWorld} (h : Layered w) (hm : ConnMove w a v i b)
    (hs : cc.world.step b = some world) : Layered (v.afterConn i cc world) := by
  -- the close callback is called by `HandleClose` alone
  have hpush : b ≠ .run .next → (v.afterConn i cc world).stack = v.stack := by
    intro hb
    unfold afterConn
    rcases ConnWorld.closes_step (ConnWorld.step_cases hs).2 with
      ⟨_, hc, _⟩ | ⟨he, _⟩ | ⟨_, hc, _⟩
    · exact if_neg (by omega)
    · exact absurd he hb
    · exact if_neg (by omega)
  have hsame : b ≠ .run .next → v.stack = w.stack → v.connector = w.connector →
      Layered (v.afterConn i cc world) := by
    intro hb hstk hc
    refine ⟨?_, fun hne => ?_⟩
    · rw [hpush hb, hstk]
      exact h.under
    · rw [hpush hb, hstk]
      refine h.inside fun he => hne ?_
      show v.connector.connector.stack = []
      rw [hc, he]
  have hwaits : b ≠ .run .next → (∀ f ∈ v.stack, Waits f) → Layered (v.afterConn i cc world) :=
    fun hb hv => layered_of_waits (by rw [hpush hb]; exact hv)
  cases hm with
  | @own i b hown =>
    by_cases hb : b = .run .next
    · rw [hb] at hown
      obtain ⟨hc, hstk⟩ := of_decide_eq_true hown
      refine layered_of_outside ?_ hc
      have htail : ∀ f ∈ w.stack, Waits f := by
        rcases hstk with hstk | ⟨hstk, _⟩ <;> simp [hstk, Waits]
      unfold afterConn
      dsimp only
      split
      · exact htail
      · exact fun f hf => htail f (List.mem_of_mem_tail hf)
    · exact hsame hb rfl rfl
  | disconnect hcall hc => exact hsame (by simp) rfl rfl
  | remove hstk hlife hc =>
    have hout := h.outside hstk (by simp [Waits])
    refine layered_of_outside ?_ hout
    rw [hpush (by simp)]
    exact h.rest hstk
  | closed hstk hlife => exact hwaits (by simp) (h.rest hstk)
  | forceClose hstk hlife => exact hwaits (by simp) (h.rest hstk)
  | other hb ho => exact hsame (by rcases hb with ⟨op, hb⟩ | hb <;> simp [hb]) rfl rfl

theorem layered_reachable {ok : TcpClient → Label → Prop} {w : TcpClient}
    (h : Reachable (machine tid otherTid hasConnectionCb) ok w) : Layered w := by
  refine h.invariant (I := Layered) ?_ ?_
  · rintro w ⟨_, now, rfl⟩
    exact layered_of_waits (by simp [create])
  · intro w a w' _ hi _ hs
    cases (step_cases hs).2 with
    | plain hm => exact layered_plain hi hm
    | connector hm hb => exact layered_connector hi hm hb
    | conn hm _ hb => exact layered_conn hi hm hb

/-- The functor of `Stop` leaves a stopped client silent, unless something may still connect. -/
theorem silent_of_stop {w w' : TcpClient} (hbase : Base w) (hl : Layered w) (h : Stopped w)
    (hstk : w.connector.connector.stack = [.stop]) (hmay : ¬ w.connector.MayConnect)
    (hs : w.step (.connector (.run .next)) = some w') : Silent w' := by
  have hstopped := stopped_step h ⟨by simp, by simp⟩ hs
  obtain ⟨hh, hstep⟩ := step_cases hs
  have hwaits := hl.inside (by rw [hstk]; simp)
  cases hstep with
  | plain hm =>
    cases hm with
    | connectFails ha _ => rcases ha with ha | ha <;> exact absurd ha (by simp)
    | fault _ _ ha => rcases ha with ha | ⟨_, _, ha⟩ <;> exact absurd ha (by simp)
  | @connector v b connector hm hb =>
    cases hm with
    | own hown =>
      refine ⟨hstopped, ?_, ConnectorLoop.quiet_stop (hbase.core hh) hstk hmay hb⟩
      have hne : .startConnector ∉ w.stack ∧ .restart ∉ w.stack :=
        ⟨fun hm => absurd (hwaits _ hm) (by simp [Waits]),
          fun hm => absurd (hwaits _ hm) (by simp [Waits])⟩
      unfold afterConnector
      dsimp only
      split
      · simpa using hne
      · exact hne
  | conn hm _ _ => cases hm

/-- A thread that is not the loop's has called `Stop`, and nobody has called `Connect` since. In `w`
the loop is in the functor of `Stop`; in `w'` the functor has run. -/
structure RunsStop (tid otherTid : ThreadId) (hasConnectionCb : Bool) (w w' : TcpClient) : Prop where
  called : ∃ w₀ w₁ as, Reachable (machine tid otherTid hasConnectionCb) (fun _ _ => True) w₀
    ∧ w₀.step .otherStop = some w₁ ∧ Run (machine tid otherTid hasConnectionCb) NoConnect w₁ as w
  functor : w.connector.connector.stack = [.stop]
  runs : w.step (.connector (.run .next)) = some w'

theorem stopped_of_otherStop {w w' : TcpClient} (hs : w.step .otherStop = some w') : Stopped w' := by
  cases (step_cases hs).2 with
  | plain hm =>
    cases hm with
    | otherStop ho hlife => exact ⟨rfl, by simp⟩
    | connectFails ha _ => rcases ha with ha | ha <;> exact absurd ha (by simp)
    | fault _ _ ha => rcases ha with ha | ⟨_, _, ha⟩ <;> exact absurd ha (by simp)
  | connector hm _ => cases hm
  | conn hm _ _ => cases hm

theorem RunsStop.reachable {w w' : TcpClient} (h : RunsStop tid otherTid hasConnectionCb w w') :
    Reachable (machine tid otherTid hasConnectionCb) (fun _ _ => True) w := by
  obtain ⟨w₀, w₁, as, hr, hstop, hrun⟩ := h.called
  have hr₁ : Reachable (machine tid otherTid hasConnectionCb) (fun _ _ => True) w₁ :=
    .tail (a := .otherStop) hr trivial hstop
  exact hr₁.run (hrun.mono fun _ _ _ => trivial)

theorem RunsStop.stopped {w w' : TcpClient} (h : RunsStop tid otherTid hasConnectionCb w w') :
    Stopped w := by
  obtain ⟨w₀, w₁, as, -, hstop, hrun⟩ := h.called
  exact hrun.invariant (stopped_of_otherStop hstop)
    fun u a u' hu hok hs => stopped_step hu hok hs

/-- **When a stop is final.** A thread that is not the loop's calls `Stop`, and nobody calls
`Connect` from then on. If nothing may connect when the loop runs the functor of `Stop`, then
whatever happens afterwards, `Connect` of the connector is not called again, and neither is
`conn_cb_`. -/
theorem stop_is_final {w w' w'' : TcpClient} {as : List Label}
    (h : RunsStop tid otherTid hasConnectionCb w w') (hmay : ¬ w.connector.MayConnect)
    (hrun : Run (machine tid otherTid hasConnectionCb) NoConnect w' as w'') :
    w''.connector.activity = w'.connector.activity := by
  have hbase := base_reachable h.reachable
  have hsilent := silent_of_stop hbase (layered_reachable h.reachable) h.stopped h.functor hmay h.runs
  -- it stays silent from here on
  have hkeeps := hrun.invariant
    (I := fun u => Base u ∧ Silent u ∧ u.connector.activity = w'.connector.activity)
    ⟨base_step hbase h.runs, hsilent, rfl⟩ ?_
  · exact hkeeps.2.2
  · rintro u a u' ⟨hb, hu, hact⟩ hok hs
    obtain ⟨hu', hact'⟩ := silent_step hb hu hok hs
    exact ⟨base_step hb hs, hu', hact'.trans hact⟩

/-- The runs of the two examples: `before`, `Stop` in the other thread, `during` up to the functor of
`Stop`, and `after` it. -/
theorem runsStop_of_exec (before during after : List Label)
    (p : TcpClient → TcpClient → TcpClient → Bool)
    (hexec : ((machine 0 1 false).exec (fun _ _ => True) (create 0 1 false ⟨0⟩) before).any
      (fun w₀ => (w₀.step .otherStop).any fun w₁ =>
        ((machine 0 1 false).exec NoConnect w₁ during).any fun w =>
          (w.step (.connector (.run .next))).any fun w' =>
            ((machine 0 1 false).exec NoConnect w' after).any fun w'' =>
              p w w' w'' && decide (w.connector.connector.stack = [.stop])) = true) :
    ∃ w w' w'', RunsStop 0 1 false w w' ∧ Run (machine 0 1 false) NoConnect w' after w''
      ∧ p w w' w'' = true := by
  have hinit : (machine 0 1 false).init (create 0 1 false ⟨0⟩) := ⟨by decide, ⟨0⟩, rfl⟩
  obtain ⟨w₀, h0, hrest⟩ := (Option.any_eq_true _ _).mp hexec
  obtain ⟨w₁, h1, hrest⟩ := (Option.any_eq_true _ _).mp hrest
  obtain ⟨w, hw, hrest⟩ := (Option.any_eq_true _ _).mp hrest
  obtain ⟨w', hw', hrest⟩ := (Option.any_eq_true _ _).mp hrest
  obtain ⟨w'', hw'', hrest⟩ := (Option.any_eq_true _ _).mp hrest
  rw [Bool.and_eq_true] at hrest
  exact ⟨w, w', w'', ⟨⟨w₀, w₁, during, (Reachable.init hinit).run (Machine.exec_run _ h0), h1,
    Machine.exec_run _ hw⟩, of_decide_eq_true hrest.2, hw'⟩, Machine.exec_run _ hw'', hrest.1⟩

/-- `Stop` during an attempt: its socket is the last. -/
theorem stop_is_final_small : ∃ w w' w'' as, RunsStop 0 1 false w w'
    ∧ w.connector.connector.state = .kConnecting
    ∧ Run (machine 0 1 false) NoConnect w' as w'' ∧ w'.connector.activity = (1, 0)
    ∧ w''.connector.activity = w'.connector.activity := by
  obtain ⟨w, w', w'', h, hrun, hp⟩ := runsStop_of_exec
    [.connect, .next, .connector (.run .next), .connector (.run (.connect (some .EINPROGRESS)))]
    [.otherNext, .otherNext, .connector .next, .connector .next, .connector .next]
    [.connector .next, .connector .next, .connector .next, .connector .next]
    (fun w w' _ => decide (w.connector.connector.state = .kConnecting
      ∧ ¬ w.connector.MayConnect ∧ w'.connector.activity = (1, 0))) (by decide +kernel)
  obtain ⟨hstate, hmay, hact⟩ := of_decide_eq_true hp
  exact ⟨w, w', w'', _, h, hstate, hrun, hact, stop_is_final h hmay hrun⟩

/-- `RemoveTcpConnection` has tested `start_` before `Stop` clears it, and `Restart` sets that of the
connector behind the assignment of `Stop`. Its `connect` is refused, and the timer outlives `Stop`. -/
theorem stop_is_not_final : ¬ ∀ w w' w'' as, RunsStop 0 1 false w w' → w.other = .idle →
    Run (machine 0 1 false) NoConnect w' as w'' →
    w''.connector.activity = w'.connector.activity := by
  intro hall
  obtain ⟨w, w', w'', h, hrun, hp⟩ := runsStop_of_exec
    [.enableRetry, .connect, .next, .connector (.run .next), .connector (.run (.connect none)),
      .connector (.event false true), .connector (.run (.socket .good)), .connector (.run .next),
      .newTcpConnection false false, .conn 0 (.run .next), .connector .next, .connector .next,
      .connector .next, .connector .next, .conn 0 (.event false true false), .conn 0 (.run .next),
      .conn 0 (.run (.read .eof)), .conn 0 (.run .next), .next, .next, .next]
    [.otherNext, .next, .otherNext, .connector (.run .next),
      .connector (.run (.connect (some .ECONNREFUSED))), .connector (.run .next),
      .connector .next, .connector .next, .connector .next]
    [.connector .next, .connector (.clock ⟨100000000⟩), .connector .next, .connector (.timer 0),
      .connector (.run .next), .connector (.run (.connect none))]
    (fun w w' w'' => decide (w.other = .idle
      ∧ w'.connector.activity = (2, 1) ∧ w''.connector.activity = (3, 1))) (by decide +kernel)
  obtain ⟨hidle, hact, hact'⟩ := of_decide_eq_true hp
  have heq := hall w w' w'' _ h hidle hrun
  rw [hact, hact'] at heq
  exact absurd heq (by decide)

end TcpClient

end Windz
