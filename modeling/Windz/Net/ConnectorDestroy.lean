import Windz.Net.TcpClientDestroy

/-!
# The destructor of a client's connector

A connector is held by shared pointers: that of its client until the end of `~TcpClient`,
those in the functors of `Start`, `Stop` and the retry timers, and the one that a function
in progress has in hand, a functor, a timer's callback, the guard of `HandleEvents`, or
`self` in `Start` and `Stop`. The functor of `ResetChannel` holds none, and `Restart` runs on
the client's. When the last one is let go of, `~Connector` runs; from then on the guard of the
channel finds no connector.

Ghosts: `destructed`, whether `channel_` was set when `~Connector` ran, and `lateReset`,
whether a functor of `ResetChannel` ran behind it. Nothing is said of what happens behind
that, nor of a `Restart` that goes on in a connector that is gone.
-/

namespace Windz

open Lib

/-- What holds the connector while the loop thread is in it. -/
inductive Keeper where
  | none
  /-- `self` of a `Start` or `Stop` called in the loop thread. -/
  | call
  /-- The functor, timer or guard that the loop thread came through. -/
  | loop
deriving DecidableEq

/-- A client, and how long its connector is there. -/
structure ConnectorLife where
  /-- The client, and its connector. -/
  client : TcpClient
  /-- What keeps the connector there. -/
  keeper : Keeper
  /-- Ghost: whether `channel_` was set when `~Connector` ran. -/
  destructed : Option Bool
  /-- Ghost: a functor of `ResetChannel` ran behind it. -/
  lateReset : Bool

namespace ConnectorLife

/-- The client has just been made. -/
def create (client : TcpClient) : ConnectorLife :=
  { client, keeper := .none, destructed := none, lateReset := false }

/-- A functor or a timer that holds the connector waits in the loop. -/
def waiting (l : ConnectorLoop) : Bool :=
  l.timers ≠ [] ∨ .start ∈ l.queue ∨ .stop ∈ l.queue

/-- Somebody holds the connector. -/
def owned (w : ConnectorLife) : Bool :=
  w.client.life ≠ .destroyed ∨ w.keeper ≠ .none ∨ waiting w.client.connector

/-- `~Connector` runs when nobody does. -/
def release (w : ConnectorLife) : ConnectorLife :=
  if w.owned then w
  else { w with destructed := some w.client.connector.connector.channel.isSome }

/-- What holds the connector behind a step of the client. -/
def keeperAfter (w : ConnectorLife) (a : TcpClient.Label) (client : TcpClient) : Keeper :=
  match a with
  | .connector (.timer _) | .connector (.event _ _) => .loop
  -- the functor of a `Start` or `Stop`
  | .connector .next => if client.connector.connector.stack = [] then w.keeper else .loop
  | .next =>
      if w.keeper = .none ∧ client.connector.connector.stack ≠ []
        ∧ (w.client.stack.head? = some .startConnector
          ∨ w.client.stack.head? = some .stopConnector) then .call
      else w.keeper
  | _ => w.keeper

/-- The function that holds the connector has only to return. -/
def returns (w : ConnectorLife) : Bool :=
  match w.keeper with
  | .none => false
  | .call => w.client.connector.connector.stack = []
  | .loop => w.client.idle

/-- The steps of the loop thread. -/
def inLoopThread : TcpClient.Label → Bool
  | .connect | .disconnect | .stop | .destroy _ | .newTcpConnection _ _ | .next | .replace
  | .connector (.run _) | .connector .next | .connector (.timer _) | .connector (.event _ _)
  | .connector .start | .connector .stop | .connector (.closed _) => true
  | .conn _ (.run _) | .conn _ .establish | .conn _ .ownerAnswers | .conn _ .functor
  | .conn _ .timer | .conn _ (.event _ _ _) => true
  | .conn _ (.threadCall _ _) | .conn _ (.threadNext _) | .connector (.clock _)
  | .connector (.threadAssign _) | .connector (.threadQueue _) => false
  | .enableRetry | .otherConnect | .otherDisconnect | .otherStop | .otherDestroy _ | .otherNext =>
      false

/-- The loop is about to run a functor of `ResetChannel`. -/
def runsReset (w : ConnectorLife) : Bool :=
  match w.client.connector.phase with
  | .calling (_ + 1) => w.client.connector.queue.head? = some .resetChannel
  | .calling 0 | .handling | .expiring _ => false

/-- The steps of the client, and the end of the function that holds the connector. -/
inductive Label where
  | client (a : TcpClient.Label)
  /-- The function that holds the connector returns. -/
  | leave
deriving DecidableEq

/-- A step of the client, the connector being there. -/
def stepOwned (w : ConnectorLife) (a : TcpClient.Label) : Option ConnectorLife :=
  (w.client.step a).map fun client =>
    { w with client, keeper := w.keeperAfter a client }.release

/-- A step behind `~Connector`. -/
def stepGone (w : ConnectorLife) (a : TcpClient.Label) : Option ConnectorLife :=
  match a with
  | .connector (.run _) | .connector (.event _ _) => none
  | .connector .next =>
      (w.client.step a).map fun client =>
        if w.runsReset then { w with lateReset := true } else { w with client }
  | _ => (w.client.step a).map fun client => { w with client }

/-- One step, `none` where it is not enabled. -/
def step (w : ConnectorLife) (a : Label) : Option ConnectorLife :=
  if w.lateReset ∨ w.client.halted then none else
  match a with
  | .leave => if w.returns then some { w with keeper := .none }.release else none
  | .client a =>
      if w.returns ∧ inLoopThread a then none
      else if w.destructed.isSome then w.stepGone a
      else w.stepOwned a

/-- A client and its connector, from their constructors on. -/
def machine (tid otherTid : ThreadId) (hasConnectionCb : Bool) : Machine ConnectorLife Label where
  init := fun w => ∃ client, (TcpClient.machine tid otherTid hasConnectionCb).init client
    ∧ w = create client
  step := step

/-- `channel_` was null when `~Connector` ran, and no functor of `ResetChannel` ran behind it. -/
def Clean (w : ConnectorLife) : Prop := w.destructed ≠ some true ∧ w.lateReset = false

/-- The step lets go of the last shared pointer: `~TcpClient` returns, or what held the connector
behind it. -/
def LetsGo (w : ConnectorLife) (a : Label) : Prop :=
  waiting w.client.connector = false
    ∧ (a = .leave ∧ w.client.life = .destroyed
      ∨ w.keeper = .none ∧ w.client.life ≠ .destroyed ∧ ∃ b, a = .client b ∧ w.client.Returns b)

instance (w : ConnectorLife) (a : Label) : Decidable (w.LetsGo a) :=
  match a with
  | .leave =>
      decidable_of_iff (waiting w.client.connector = false ∧ w.client.life = .destroyed)
        (by simp [LetsGo])
  | .client b =>
      decidable_of_iff (waiting w.client.connector = false ∧ w.keeper = .none
        ∧ w.client.life ≠ .destroyed ∧ w.client.Returns b) (by simp [LetsGo])

/-- The last shared pointer is let go of outside of an attempt, when no functor of `ResetChannel` is
queued. -/
def ResetFirst (w : ConnectorLife) (a : Label) : Prop :=
  w.LetsGo a → w.client.connector.connector.state ≠ .kConnecting
    ∧ .resetChannel ∉ w.client.connector.queue

instance (w : ConnectorLife) (a : Label) : Decidable (w.ResetFirst a) :=
  inferInstanceAs (Decidable (_ → _))

/-! ## The client -/

theorem plain_connector {w w' : TcpClient} {a : TcpClient.Label} (h : TcpClient.PlainMove w a w') :
    w'.connector = w.connector := by
  cases h <;> rfl

/-- `~TcpClient` returns in one step. -/
theorem plain_life {w w' : TcpClient} {a : TcpClient.Label} (h : TcpClient.PlainMove w a w')
    (hlife : w'.life = .destroyed) : w.life = .destroyed ∨ w.Returns a := by
  cases h with
  | destroyStop hcall ho hc => exact absurd hlife (by simp)
  | destroy hcall ho hc hcc => exact absurd hlife (by simp)
  | otherDestroy ho hl => exact absurd hlife (by simp)
  | destructed hstk hs => exact .inr (.inl ⟨rfl, by rw [hstk]; rfl⟩)
  | otherDestructed ho => exact .inr (.inr ⟨rfl, ho⟩)
  | _ => exact .inl hlife

theorem connectorMove_life {w v : TcpClient} {a : TcpClient.Label} {b : ConnectorLoop.Label}
    (h : TcpClient.ConnectorMove w a v b) : v.life = w.life := by
  cases h <;> rfl

/-- Once the client is destroyed, it moves its connector no more. -/
theorem connectorMove_own {w v : TcpClient} {a : TcpClient.Label} {b : ConnectorLoop.Label}
    (h : TcpClient.ConnectorMove w a v b) (hlife : w.life = .destroyed) (hidle : w.other = .idle) :
    v = w ∧ a = .connector b ∧ w.canStepConnector b = true := by
  cases h with
  | own hown => exact ⟨rfl, rfl, hown⟩
  | startConnector hstk hl => exact absurd hlife hl
  | stopConnector hstk hl => exact absurd hlife hl
  | removed hstk hf hl => exact absurd hlife hl
  | assignTrue ho => exact absurd (ho.symm.trans hidle) (by simp)
  | queueStart ho => exact absurd (ho.symm.trans hidle) (by simp)
  | assignFalse ho =>
    rcases ho with ⟨ho, _⟩ | ⟨⟨_, ho⟩, _⟩ <;> exact absurd (ho.symm.trans hidle) (by simp)
  | queueStop ho =>
    rcases ho with ⟨ho, _⟩ | ⟨ho, _⟩ <;> exact absurd (ho.symm.trans hidle) (by simp)

theorem connMove_frame {w v : TcpClient} {a : TcpClient.Label} {i : Nat} {b : ConnWorld.Label}
    (h : TcpClient.ConnMove w a v i b) : v.connector = w.connector ∧ v.life = w.life := by
  cases h <;> exact ⟨rfl, rfl⟩

variable {tid otherTid : ThreadId} {hasConnectionCb : Bool}

/-- After `~TcpClient` the other thread is in no function of the client. -/
theorem other_idle {ok : TcpClient → TcpClient.Label → Prop} {w : TcpClient}
    (h : Reachable (TcpClient.machine tid otherTid hasConnectionCb) ok w) :
    w.life = .destroyed → w.other = .idle := by
  refine h.invariant (I := fun w => w.life = .destroyed → w.other = .idle) ?_ ?_
  · rintro w ⟨_, now, rfl⟩ hlife
    rfl
  · intro w a w' hr hi _ hs hlife
    have hending := TcpClient.ending_reachable hr
    cases (TcpClient.step_cases hs).2 with
    | plain hm =>
      cases hm with
      | connect hcall hst => exact hi hlife
      | connectFails ha hst => exact hi hlife
      | disconnect hcall => exact hi hlife
      | stop hcall => exact hi hlife
      | enableRetry => exact hi hlife
      | destroyStop hcall ho hc => exact ho
      | destroy hcall ho hc hcc => exact ho
      | newTcpConnection hstk hl hw => exact hi hlife
      | fault hl hstk ha => exact hi hlife
      | removeFails hstk hc => exact hi hlife
      | testRetry hstk hr => exact hi hlife
      | testStart hstk hst => exact hi hlife
      | destructed hstk hst => exact hending.other (by rw [hstk]; exact List.mem_cons_self)
      | replace hq hcc => exact hi hlife
      | otherConnect ho hl hst => exact absurd (hl.symm.trans hlife) (by simp)
      | otherDisconnect ho hl => exact absurd (hl.symm.trans hlife) (by simp)
      | otherStop ho hl => exact absurd (hl.symm.trans hlife) (by simp)
      | otherDestroy ho hl => exact absurd hlife (by simp)
      | otherReturns ho =>
        have hidle := hi hlife
        rcases ho with ⟨ho | ho, _⟩ | ⟨ho, _⟩ <;> exact absurd (ho.symm.trans hidle) (by simp)
      | otherReplaces ho => exact absurd (ho.symm.trans (hi hlife)) (by simp)
      | otherDestructed ho => rfl
    | connector hm hb =>
      have hgone := (connectorMove_life hm).symm.trans hlife
      have hidle := hi hgone
      obtain ⟨rfl, _, _⟩ := connectorMove_own hm hgone hidle
      exact hidle
    | conn hm hcc hb =>
      have hidle := hi ((connMove_frame hm).2.symm.trans hlife)
      cases hm with
      | own hown => exact hidle
      | disconnect hcall hc => exact hidle
      | remove hstk hl hc => exact hidle
      | closed hstk hl => exact hidle
      | forceClose hstk hl => exact hidle
      | other hop ho =>
        rcases ho with ⟨ho, _⟩ | ⟨ho, _⟩ | ⟨ho | ho, _⟩ <;>
          exact absurd (ho.symm.trans hidle) (by simp)

/-! ## Who holds the connector -/

theorem waiting_iff {l : ConnectorLoop} :
    waiting l = true ↔ l.timers ≠ [] ∨ .start ∈ l.queue ∨ .stop ∈ l.queue := by
  unfold waiting
  rw [decide_eq_true_eq]

theorem owned_iff {w : ConnectorLife} : w.owned = true
    ↔ w.client.life ≠ .destroyed ∨ w.keeper ≠ .none ∨ waiting w.client.connector = true := by
  unfold owned
  rw [decide_eq_true_eq]

/-- A functor or timer that holds the connector waits on, or the loop thread runs it. -/
theorem waiting_step {l l' : ConnectorLoop} {b : ConnectorLoop.Label} (h : waiting l = true)
    (hs : l.step b = some l') : waiting l' = true ∨ (∃ k, b = .timer k)
      ∨ b = .next ∧ l'.connector.stack ≠ [] := by
  rw [waiting_iff] at h ⊢
  have hmore : ∀ {queue : List ConnectorFunctor} {timers : List Timestamp},
      (l.timers ≠ [] → timers ≠ []) → (∀ f ∈ l.queue, f ∈ queue) →
      (timers ≠ [] ∨ .start ∈ queue ∨ .stop ∈ queue) := by
    intro queue timers htimers hqueue
    rcases h with h | h | h
    · exact .inl (htimers h)
    · exact .inr (.inl (hqueue _ h))
    · exact .inr (.inr (hqueue _ h))
  cases (ConnectorLoop.step_cases hs).2 with
  | @run a c out hrun =>
    refine .inl ?_
    unfold ConnectorLoop.emit
    split
    · exact h
    · exact hmore id fun f hf => List.mem_append_left _ hf
    · exact hmore (fun _ => by simp) fun f hf => hf
    · exact h
  | threadQueue start => exact .inl (hmore id fun f hf => List.mem_append_left _ hf)
  | functor hq hstk hg => exact .inr (.inr ⟨rfl, by simp⟩)
  | reset hq hstk =>
    refine .inl ?_
    rw [hq] at h
    simpa using h
  | timer hk hstk => exact .inr (.inl ⟨_, rfl⟩)
  | _ => exact .inl h

theorem keeperAfter_ne {w : ConnectorLife} {a : TcpClient.Label} {client : TcpClient}
    (h : w.keeper ≠ .none) : w.keeperAfter a client ≠ .none := by
  unfold keeperAfter
  split
  · simp
  · simp
  · split
    · exact h
    · simp
  · split
    · simp
    · exact h
  · exact h

/-- **Somebody goes on to hold the connector**, or the step lets go of the last pointer. -/
theorem owned_step {w : ConnectorLife} {a : TcpClient.Label} {client : TcpClient}
    (hidle : w.client.life = .destroyed → w.client.other = .idle) (ho : w.owned = true)
    (hs : w.client.step a = some client) :
    ConnectorLife.owned { w with client, keeper := w.keeperAfter a client } = true
      ∨ w.LetsGo (.client a) := by
  rw [owned_iff] at ho
  by_cases hkeeper : w.keeper = .none
  · cases (TcpClient.step_cases hs).2 with
    | plain hm =>
      by_cases hwait : waiting w.client.connector = true
      · refine .inl (owned_iff.mpr (.inr (.inr ?_)))
        rw [← plain_connector hm] at hwait
        exact hwait
      · have hlife : w.client.life ≠ .destroyed :=
          ho.resolve_right fun hor => hor.elim (fun hne => hne hkeeper) hwait
        by_cases hlife' : client.life = .destroyed
        · have hreturns := (plain_life hm hlife').resolve_left hlife
          exact .inr ⟨Bool.eq_false_iff.mpr hwait, .inr ⟨hkeeper, hlife, a, rfl, hreturns⟩⟩
        · exact .inl (owned_iff.mpr (.inl hlife'))
    | @connector v b connector hm hb =>
      refine .inl (owned_iff.mpr ?_)
      by_cases hlife : w.client.life = .destroyed
      · have hwait : waiting w.client.connector = true :=
          (ho.resolve_left fun hne => hne hlife).resolve_left fun hne => hne hkeeper
        -- the client being gone, the loop takes a step of its own
        have hown : a = .connector b := by
          have hfree := hidle hlife
          cases hm with
          | own hown => rfl
          | startConnector hstk hl => exact absurd hlife hl
          | stopConnector hstk hl => exact absurd hlife hl
          | removed hstk hf hl => exact absurd hlife hl
          | assignTrue ho => exact absurd (ho.symm.trans hfree) (by simp)
          | queueStart ho => exact absurd (ho.symm.trans hfree) (by simp)
          | assignFalse ho =>
            rcases ho with ⟨ho, _⟩ | ⟨⟨_, ho⟩, _⟩ <;> exact absurd (ho.symm.trans hfree) (by simp)
          | queueStop ho =>
            rcases ho with ⟨ho, _⟩ | ⟨ho, _⟩ <;> exact absurd (ho.symm.trans hfree) (by simp)
        rcases waiting_step hwait hb with hw | ⟨k, hk⟩ | ⟨hnext, hstk⟩
        · exact .inr (.inr hw)
        · refine .inr (.inl ?_)
          rw [hown, hk]
          simp [keeperAfter]
        · refine .inr (.inl ?_)
          rw [hown, hnext]
          simp [keeperAfter, TcpClient.afterConnector, hstk]
      · refine .inl ?_
        show v.life ≠ .destroyed
        rw [connectorMove_life hm]
        exact hlife
    | @conn v i b cc world hm hcc hb =>
      refine .inl (owned_iff.mpr ?_)
      obtain ⟨hconnector, hlife⟩ := connMove_frame hm
      rcases ho with ho | ho | ho
      · exact .inl (by rw [← hlife] at ho; exact ho)
      · exact absurd hkeeper ho
      · exact .inr (.inr (by rw [← hconnector] at ho; exact ho))
  · exact .inl (owned_iff.mpr (.inr (.inl (keeperAfter_ne hkeeper))))

/-- The return of `~TcpClient`. -/
theorem returns_step {w w' : TcpClient} {a : TcpClient.Label} (h : w.Returns a)
    (hlife : w.life ≠ .destroyed) (hs : w.step a = some w') :
    w'.life = .destroyed ∧ w'.connector = w.connector := by
  unfold TcpClient.step at hs
  obtain ⟨_, hs⟩ := Option.ite_none_left_eq_some.mp hs
  rcases h with ⟨rfl, hhead⟩ | ⟨rfl, ho⟩
  · obtain ⟨rest, hstk⟩ := List.head?_eq_some_iff.mp hhead
    dsimp only at hs
    rw [hstk] at hs
    obtain ⟨_, hs⟩ := Option.ite_none_right_eq_some.mp hs
    obtain ⟨hdestroyed, _⟩ | ⟨_, hs⟩ := TcpClient.useMember_eq hs
    · exact absurd hdestroyed hlife
    · obtain ⟨_, hs⟩ := Option.ite_none_right_eq_some.mp hs
      rw [← Option.some.inj hs]
      exact ⟨rfl, rfl⟩
  · dsimp only at hs
    unfold TcpClient.otherNext at hs
    rw [ho] at hs
    rw [← Option.some.inj hs]
    exact ⟨rfl, rfl⟩

/-- The step that lets go of the last pointer leaves the connector alone. -/
theorem letsGo_step {w : ConnectorLife} {a : TcpClient.Label} {client : TcpClient}
    (h : w.LetsGo (.client a)) (hs : w.client.step a = some client) :
    ConnectorLife.owned { w with client, keeper := w.keeperAfter a client } = false
      ∧ client.connector = w.client.connector := by
  obtain ⟨hwait, ⟨ha, _⟩ | ⟨hkeeper, hlife, b, ha, hreturns⟩⟩ := h
  · exact absurd ha (by simp)
  · rw [← Label.client.inj ha] at hreturns
    obtain ⟨hdestroyed, hconnector⟩ := returns_step hreturns hlife hs
    refine ⟨?_, hconnector⟩
    have hkeeper' : w.keeperAfter a client = .none := by
      rcases hreturns with ⟨rfl, hhead⟩ | ⟨rfl, _⟩
      · unfold keeperAfter
        dsimp only
        rw [if_neg, hkeeper]
        rw [hhead]
        simp
      · exact hkeeper
    rw [Bool.eq_false_iff]
    intro howned
    rcases owned_iff.mp howned with ho | ho | ho
    · exact ho hdestroyed
    · exact ho hkeeper'
    · rw [show ConnectorLife.client { w with client, keeper := w.keeperAfter a client } = client
        from rfl, hconnector, hwait] at ho
      exact absurd ho (by simp)

/-! ## The invariant -/

/-- `channel_` is null outside of an attempt when no functor of `ResetChannel` is to come. -/
theorem channel_isSome_iff {l : ConnectorLoop} (h : l.Core) : l.connector.channel.isSome = false
    ↔ l.connector.state ≠ .kConnecting ∧ .resetChannel ∉ l.queue := by
  constructor
  · intro hch
    have hnone : l.connector.channel = none := by simpa using hch
    have hst : l.connector.state ≠ .kConnecting := fun hst => h.has_channel hst hnone
    exact ⟨hst, (h.channel_none_iff hst).mp hnone⟩
  · intro ⟨hst, hreset⟩
    rw [(h.channel_none_iff hst).mpr hreset]
    rfl

/-- The connector is gone, and its loop has nothing of it left. -/
structure Gone (w : ConnectorLife) : Prop where
  life : w.client.life = .destroyed
  keeper : w.keeper = .none
  timers : w.client.connector.timers = []
  queue : w.client.connector.queue = []

/-- The invariant of the connector's life. -/
structure Inv (tid otherTid : ThreadId) (hasConnectionCb : Bool) (w : ConnectorLife) : Prop where
  client : Reachable (TcpClient.machine tid otherTid hasConnectionCb) (fun _ _ => True) w.client
  late : w.lateReset = false
  held : w.destructed = none → w.owned = true
  gone : ∀ b, w.destructed = some b → b = false ∧ Gone w

theorem inv_create {client : TcpClient}
    (h : (TcpClient.machine tid otherTid hasConnectionCb).init client) :
    Inv tid otherTid hasConnectionCb (create client) where
  client := .init h
  late := rfl
  held := by
    intro _
    obtain ⟨_, now, rfl⟩ := h
    rfl
  gone := fun _ hb => absurd hb (by simp [create])

theorem release_owned {w : ConnectorLife} (h : w.owned = true) : w.release = w := if_pos h

theorem release_last {w : ConnectorLife} (h : w.owned = false) : w.release
    = { w with destructed := some w.client.connector.connector.channel.isSome } := by
  unfold release
  rw [h]
  rfl

/-- The last pointer is let go of: `~Connector` finds `channel_` null, and nothing is left. -/
theorem inv_release {w : ConnectorLife}
    (h : Reachable (TcpClient.machine tid otherTid hasConnectionCb) (fun _ _ => True) w.client)
    (hcore : w.client.connector.Core) (hlate : w.lateReset = false) (howned : w.owned = false)
    (hst : w.client.connector.connector.state ≠ .kConnecting)
    (hreset : .resetChannel ∉ w.client.connector.queue) :
    Inv tid otherTid hasConnectionCb w.release := by
  have hnot : w.owned ≠ true := by rw [howned]; simp
  have hwait : ¬ waiting w.client.connector = true :=
    fun hw => hnot (owned_iff.mpr (.inr (.inr hw)))
  rw [waiting_iff, not_or, not_or] at hwait
  obtain ⟨htimers, hstart, hstop⟩ := hwait
  rw [release_last howned]
  refine ⟨h, hlate, fun hd => absurd hd (by simp), fun b hb => ⟨?_, ?_, ?_, ?_, ?_⟩⟩
  · rw [← Option.some.inj hb]
    exact (channel_isSome_iff hcore).mpr ⟨hst, hreset⟩
  · by_contra hlife
    exact hnot (owned_iff.mpr (.inl hlife))
  · by_contra hkeeper
    exact hnot (owned_iff.mpr (.inr (.inl hkeeper)))
  · by_contra hne
    exact htimers hne
  · refine List.eq_nil_iff_forall_not_mem.mpr fun f hf => ?_
    cases f with
    | start => exact hstart hf
    | stop => exact hstop hf
    | resetChannel => exact hreset hf

theorem plain_destroyed {w w' : TcpClient} {a : TcpClient.Label} (h : TcpClient.PlainMove w a w')
    (hlife : w.life = .destroyed) : w'.life = .destroyed := by
  have hcalled : ∀ {p : Prop}, w.canCall = true → p := by
    intro p hcall
    have halive := (of_decide_eq_true hcall).1
    exact absurd (halive.symm.trans hlife) (by simp)
  cases h with
  | destroyStop hcall ho hc => exact hcalled hcall
  | destroy hcall ho hc hcc => exact hcalled hcall
  | otherDestroy ho hl => exact absurd (hl.symm.trans hlife) (by simp)
  | destructed hstk hs => rfl
  | otherDestructed ho => rfl
  | _ => exact hlife

/-- The client goes on behind `~Connector`, and nothing of the connector comes back. -/
theorem gone_step {w : ConnectorLife} (h : Gone w) (hidle : w.client.other = .idle)
    {a : TcpClient.Label} {client : TcpClient} (hs : w.client.step a = some client)
    (ha : ∀ b, a = .connector b → (∀ c, b ≠ .run c) ∧ ∀ error writable, b ≠ .event error writable) :
    Gone { w with client } := by
  obtain ⟨hlife, hkeeper, htimers, hqueue⟩ := h
  cases (TcpClient.step_cases hs).2 with
  | plain hm =>
    have hconnector := plain_connector hm
    exact ⟨plain_destroyed hm hlife, hkeeper, by rw [← hconnector] at htimers; exact htimers,
      by rw [← hconnector] at hqueue; exact hqueue⟩
  | @conn v i b cc world hm hcc hb =>
    obtain ⟨hconnector, hlife'⟩ := connMove_frame hm
    exact ⟨hlife'.trans hlife, hkeeper, by rw [← hconnector] at htimers; exact htimers,
      by rw [← hconnector] at hqueue; exact hqueue⟩
  | @connector v b connector hm hb =>
    obtain ⟨_, hown⟩ := connectorMove_own hm hlife hidle
    obtain ⟨hrun, hevent⟩ := ha b hown.1
    have hkept : connector.timers = [] ∧ connector.queue = [] := by
      cases (ConnectorLoop.step_cases hb).2 with
      | run hstep => exact absurd rfl (hrun _)
      | event hstk hr => exact absurd rfl (hevent _ _)
      | start hstk => exact absurd hown.2 (by simp [TcpClient.canStepConnector])
      | stop hstk => exact absurd hown.2 (by simp [TcpClient.canStepConnector])
      | closed ho => exact absurd hown.2 (by simp [TcpClient.canStepConnector])
      | restart ho hstk => exact absurd hown.2 (by simp [TcpClient.canStepConnector])
      | threadAssign start => exact absurd hown.2 (by simp [TcpClient.canStepConnector])
      | threadQueue start => exact absurd hown.2 (by simp [TcpClient.canStepConnector])
      | clock hle => exact ⟨htimers, hqueue⟩
      | phase hstk => exact ⟨htimers, hqueue⟩
      | functor hq hstk hg => exact absurd (hq.symm.trans hqueue) (by simp)
      | reset hq hstk => exact absurd (hq.symm.trans hqueue) (by simp)
      | timer hk hstk =>
        rw [htimers] at hk
        exact absurd hk (by simp)
    exact ⟨(connectorMove_life hm).trans hlife, hkeeper, hkept.1, hkept.2⟩

theorem stepGone_eq {w w' : ConnectorLife} {a : TcpClient.Label} (h : Gone w)
    (hs : w.stepGone a = some w') : ∃ client, w.client.step a = some client
      ∧ w' = { w with client }
      ∧ ∀ b, a = .connector b → (∀ c, b ≠ .run c)
        ∧ ∀ error writable, b ≠ .event error writable := by
  unfold stepGone at hs
  split at hs
  · exact absurd hs (by simp)
  · exact absurd hs (by simp)
  · obtain ⟨client, hc, he⟩ := Option.map_eq_some_iff.mp hs
    have hreset : w.runsReset = false := by
      unfold runsReset
      rw [h.queue]
      split <;> rfl
    rw [hreset] at he
    refine ⟨client, hc, he.symm, fun b hb => ?_⟩
    rw [← TcpClient.Label.connector.inj hb]
    exact ⟨fun _ => by simp, fun _ _ => by simp⟩
  · rename_i hrun hevent _
    obtain ⟨client, hc, he⟩ := Option.map_eq_some_iff.mp hs
    exact ⟨client, hc, he.symm, fun b hb => ⟨fun c hr => hrun c (hr ▸ hb),
      fun error writable hr => hevent error writable (hr ▸ hb)⟩⟩

/-- What a step does, from a state in which `~Connector` has found nothing wrong. -/
theorem step_eq {w w' : ConnectorLife} {a : Label} (h : Inv tid otherTid hasConnectionCb w)
    (hs : w.step a = some w') : w.client.connector.Core
      ∧ ((∃ v : ConnectorLife, w' = v.release ∧ w.destructed = none ∧ v.destructed = none
          ∧ v.lateReset = false
          ∧ Reachable (TcpClient.machine tid otherTid hasConnectionCb) (fun _ _ => True) v.client
          ∧ (v.owned = true ∧ ¬ w.LetsGo a
            ∨ w.LetsGo a ∧ v.owned = false ∧ v.client.connector = w.client.connector))
        ∨ Inv tid otherTid hasConnectionCb w' ∧ ¬ w.LetsGo a) := by
  unfold step at hs
  obtain ⟨hlive, hs⟩ := Option.ite_none_left_eq_some.mp hs
  have hhalt : w.client.halted = false := by
    rw [not_or] at hlive
    simpa using hlive.2
  refine ⟨(TcpClient.base_reachable h.client).core hhalt, ?_⟩
  cases a with
  | leave =>
    obtain ⟨hret, hs⟩ := Option.ite_none_right_eq_some.mp hs
    have hd : w.destructed = none := by
      cases hd : w.destructed with
      | none => rfl
      | some b =>
        unfold returns at hret
        rw [(h.gone b hd).2.keeper] at hret
        exact absurd hret (by simp)
    refine .inl ⟨{ w with keeper := .none }, (Option.some.inj hs).symm, hd, hd, h.late, h.client,
      ?_⟩
    by_cases howned : ConnectorLife.owned { w with keeper := .none } = true
    · refine .inl ⟨howned, fun hgo => ?_⟩
      obtain ⟨hwait, ⟨_, hlife⟩ | ⟨_, _, b, hb, _⟩⟩ := hgo
      · rcases owned_iff.mp howned with ho | ho | ho
        · exact ho hlife
        · exact ho rfl
        · exact absurd (hwait.symm.trans ho) (by simp)
      · exact absurd hb (by simp)
    · refine .inr ⟨⟨?_, .inl ⟨rfl, ?_⟩⟩, Bool.eq_false_iff.mpr howned, rfl⟩
      · rw [Bool.eq_false_iff]
        exact fun hw => howned (owned_iff.mpr (.inr (.inr hw)))
      · by_contra hlife
        exact howned (owned_iff.mpr (.inl hlife))
  | client b =>
    obtain ⟨_, hs⟩ := Option.ite_none_left_eq_some.mp hs
    have hidle := other_idle h.client
    split at hs
    · rename_i hd
      obtain ⟨d, hd⟩ := Option.isSome_iff_exists.mp hd
      obtain ⟨hfalse, hgone⟩ := h.gone d hd
      obtain ⟨client, hc, he, hb⟩ := stepGone_eq hgone hs
      rw [he]
      refine .inr ⟨⟨h.client.tail trivial hc, h.late, fun hn => absurd (hd.symm.trans hn) (by simp),
        fun d' hd' => ⟨?_, gone_step hgone (hidle hgone.life) hc hb⟩⟩, fun hgo => ?_⟩
      · rw [← Option.some.inj (hd.symm.trans hd')]
        exact hfalse
      · rcases hgo.2 with ⟨ha, _⟩ | ⟨_, hlife, _⟩
        · exact absurd ha (by simp)
        · exact hlife hgone.life
    · rename_i hd
      have hd : w.destructed = none := by simpa using hd
      obtain ⟨client, hc, he⟩ := Option.map_eq_some_iff.mp hs
      refine .inl ⟨_, he.symm, hd, hd, h.late, h.client.tail trivial hc, ?_⟩
      by_cases hgo : w.LetsGo (.client b)
      · obtain ⟨hnot, hconnector⟩ := letsGo_step hgo hc
        exact .inr ⟨hgo, hnot, hconnector⟩
      · exact .inl ⟨(owned_step hidle (h.held hd) hc).resolve_right hgo, hgo⟩

theorem inv_step {w w' : ConnectorLife} {a : Label} (h : Inv tid otherTid hasConnectionCb w)
    (hok : w.ResetFirst a) (hs : w.step a = some w') : Inv tid otherTid hasConnectionCb w' := by
  obtain ⟨hcore, ⟨v, he, _, hd, hlate, hr, hv⟩ | ⟨hinv, _⟩⟩ := step_eq h hs
  · rcases hv with ⟨howned, _⟩ | ⟨hgo, hnot, hconnector⟩
    · rw [he, release_owned howned]
      exact ⟨hr, hlate, fun _ => howned, fun b hb => absurd (hd.symm.trans hb) (by simp)⟩
    · obtain ⟨hst, hreset⟩ := hok hgo
      rw [he]
      refine inv_release hr ?_ hlate hnot ?_ ?_
      · rw [hconnector]
        exact hcore
      · rw [hconnector]
        exact hst
      · rw [hconnector]
        exact hreset
  · exact hinv

theorem inv_reachable {w : ConnectorLife}
    (h : Reachable (machine tid otherTid hasConnectionCb) ResetFirst w) :
    Inv tid otherTid hasConnectionCb w := by
  refine h.invariant (I := Inv tid otherTid hasConnectionCb) ?_
    fun w a w' _ hi hok hs => inv_step hi hok hs
  rintro w ⟨client, hinit, rfl⟩
  exact inv_create hinit

theorem Inv.clean {w : ConnectorLife} (h : Inv tid otherTid hasConnectionCb w) : w.Clean := by
  refine ⟨fun hd => ?_, h.late⟩
  exact absurd (h.gone true hd).1 (by simp)

/-- **Destroyed cleanly.** The loop thread or the other one destroys the client, in any state of its
connector. In every run in which the last shared pointer to the connector is let go of outside of
an attempt, when no functor of `ResetChannel` is queued: `channel_` is null when `~Connector` runs,
and no such functor runs behind it. And a step keeps this true exactly if it is so. -/
theorem destructor_clean {w : ConnectorLife}
    (h : Reachable (machine tid otherTid hasConnectionCb) ResetFirst w) :
    w.Clean ∧ ∀ a w', w.step a = some w' → (w'.Clean ↔ w.ResetFirst a) := by
  have hinv := inv_reachable h
  refine ⟨hinv.clean, fun a w' hs => ⟨fun hclean hgo => ?_, fun hok => ?_⟩⟩
  swap
  · exact (inv_step hinv hok hs).clean
  obtain ⟨hcore, ⟨v, he, _, _, _, _, hv⟩ | ⟨_, hnot⟩⟩ := step_eq hinv hs
  · obtain ⟨_, howned, hconnector⟩ := hv.resolve_left fun hv => hv.2 hgo
    refine (channel_isSome_iff hcore).mp ?_
    rw [Bool.eq_false_iff]
    intro hch
    refine hclean.1 ?_
    rw [he, release_last howned, hconnector, hch]
  · exact absurd hgo hnot

/-- The client is destroyed while its connector waits to connect again: the timer holds it until the
callback has run. -/
theorem destructor_clean_small : ∃ w, Reachable (machine 0 1 false) ResetFirst w
    ∧ w.destructed = some false ∧ w.Clean := by
  have hinit : (machine 0 1 false).init (create (.create 0 1 false ⟨0⟩)) :=
    ⟨_, ⟨by decide, ⟨0⟩, rfl⟩, rfl⟩
  have hexec : ((machine 0 1 false).exec ResetFirst (create (.create 0 1 false ⟨0⟩))
      [.client .connect, .client .next, .client (.connector (.run .next)),
        .client (.connector (.run (.connect (some .ECONNREFUSED)))),
        .client (.connector (.run .next)), .leave, .client (.destroy false), .client .next,
        .client (.connector (.run .next)), .leave, .client .next,
        .client (.connector (.clock ⟨100000000⟩)), .client (.connector .next),
        .client (.connector (.timer 0)), .client (.connector (.run .next)), .leave]).map (fun w =>
          decide (w.destructed = some false)) = some true := by decide +kernel
  obtain ⟨w, hr, hp⟩ := Machine.exec_reachable hinit hexec
  exact ⟨w, hr, of_decide_eq_true hp, (destructor_clean hr).1⟩

/-- The loop thread destroys a client that is connecting: `Stop` closes the socket and queues the
functor of `ResetChannel`, and then the last pointer is gone. -/
theorem destructor_finds_channel : ¬ ∀ w, Reachable (machine 0 1 false) (fun _ _ => True) w →
    w.Clean := by
  intro hall
  have hinit : (machine 0 1 false).init (create (.create 0 1 false ⟨0⟩)) :=
    ⟨_, ⟨by decide, ⟨0⟩, rfl⟩, rfl⟩
  have hexec : ((machine 0 1 false).exec (fun _ _ => True) (create (.create 0 1 false ⟨0⟩))
      [.client .connect, .client .next, .client (.connector (.run .next)),
        .client (.connector (.run (.connect (some .EINPROGRESS)))), .leave,
        .client (.destroy false), .client .next, .client (.connector (.run .next)), .leave,
        .client .next]).map (fun w => decide (w.destructed = some true)) = some true := by
    decide +kernel
  obtain ⟨w, hr, hp⟩ := Machine.exec_reachable hinit hexec
  exact (hall w hr).1 (of_decide_eq_true hp)

end ConnectorLife

end Windz
