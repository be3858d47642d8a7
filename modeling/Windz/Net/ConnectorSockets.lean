import Windz.Net.ConnectorProof

/-!
# What becomes of a connector's sockets

A socket of `Connect` is in a local variable, then that of the channel, then in a local
variable of `HandleWrite`, and somewhere on the way it is closed or given to `conn_cb_`.
`ended` counts how often, in the trace; `held` is the one for which it has not happened
yet. There is at most one, and none while a retry timer waits.
-/

namespace Windz

open Lib

namespace Connector

/-- How often the socket was closed or given to `conn_cb_`. -/
def ended (c : Connector) (s : Socket) : Nat := c.trace.count (.close s) + c.trace.count (.connCb s)

/-- The socket of the channel, during an attempt. -/
def attempted (c : Connector) : Option Socket :=
  if c.state = .kConnecting then c.channel.map (·.fd) else none

/-- The socket in the channel, or in hand behind `state_ = kConnected`. -/
def held (c : Connector) : Option Socket :=
  match c.stack with
  | .connected socket :: _ => some socket
  | _ => c.attempted

/-- The sockets neither closed nor given to `conn_cb_`. -/
def unresolved (c : Connector) : List Socket :=
  (List.range c.sockets).filter fun s => c.ended s = 0

/-- The calls of `Retry`. -/
def retries (c : Connector) : Nat :=
  c.trace.countP fun e => match e with
    | .retry _ => true
    | _ => false

theorem ended_logged {c c' : Connector} {es : List ConnectorEvent} (h : c'.trace = c.trace ++ es)
    (s : Socket) : c'.ended s = c.ended s + (es.count (.close s) + es.count (.connCb s)) := by
  unfold ended
  rw [h, List.count_append, List.count_append]
  omega

theorem held_top {c : Connector} {f : ConnectorFrame} {rest : List ConnectorFrame}
    (hs : c.stack = f :: rest) (hf : ∀ s, f ≠ .connected s) : c.held = c.attempted := by
  unfold held
  rw [hs]
  split
  · rename_i socket rest' he
    exact absurd (List.cons.inj he).1 (hf socket)
  · rfl

theorem held_handleWrite {c : Connector} (h : ∀ g ∈ c.stack, g = .handleWrite) :
    c.held = c.attempted := by
  cases hs : c.stack with
  | nil =>
    unfold held
    rw [hs]
  | cons f rest =>
    refine held_top hs fun s hf => ?_
    have hg := h f (by rw [hs]; exact List.mem_cons_self)
    exact absurd (hf.symm.trans hg) (by simp)

theorem attempted_none {c : Connector} (h : c.state ≠ .kConnecting) : c.attempted = none :=
  if_neg h

theorem attempted_some {c : Connector} {ch : ConnectorChannel} (h : c.state = .kConnecting)
    (hch : c.channel = some ch) : c.attempted = some ch.fd := by
  unfold attempted
  rw [if_pos h, hch]
  rfl

/-! ## One end for each socket -/

/-- Each socket has ended once, but for the one that is held. -/
structure Accounted (c : Connector) : Prop where
  ended : ∀ s, c.ended s = if s < c.sockets ∧ c.held ≠ some s then 1 else 0
  made : ∀ s, c.held = some s → s < c.sockets

theorem accounted_create : Accounted create where
  ended := by
    intro s
    rw [if_neg]
    · rfl
    · exact fun h => absurd h.1 (Nat.not_lt_zero s)
  made := by
    intro s h
    exact absurd h (by simp [held, create, attempted])

/-- Nothing becomes of a socket. -/
theorem Accounted.congr {c c' : Connector} (h : Accounted c) {es : List ConnectorEvent}
    (htrace : c'.trace = c.trace ++ es) (hsockets : c'.sockets = c.sockets)
    (hes : ∀ s, es.count (.close s) + es.count (.connCb s) = 0) (hheld : c'.held = c.held) :
    Accounted c' where
  ended := by
    intro s
    rw [ended_logged htrace, hes, hsockets, hheld, h.ended s]
    omega
  made := by
    rw [hheld, hsockets]
    exact h.made

/-- The socket that was held ends. -/
theorem Accounted.ends {c c' : Connector} (h : Accounted c) {socket : Socket}
    {es : List ConnectorEvent} (htrace : c'.trace = c.trace ++ es)
    (hsockets : c'.sockets = c.sockets) (hheld : c.held = some socket) (hnone : c'.held = none)
    (hes : ∀ s, es.count (.close s) + es.count (.connCb s) = if socket = s then 1 else 0) :
    Accounted c' where
  ended := by
    intro s
    have hmade := h.made socket hheld
    rw [ended_logged htrace, hes, h.ended s, hsockets, hnone, hheld]
    by_cases hs : socket = s
    · subst hs
      simp [hmade]
    · have hne : (some socket : Option Socket) ≠ some s := fun he => hs (Option.some.inj he)
      simp [hs, hne]
  made := by
    intro s hs
    exact absurd (hnone.symm.trans hs) (by simp)

/-- A socket is made, and held or ended. -/
theorem Accounted.makes {c c' : Connector} (h : Accounted c) {es : List ConnectorEvent}
    (htrace : c'.trace = c.trace ++ es) (hsockets : c'.sockets = c.sockets + 1)
    (hheld : c.held = none) (hheld' : ∀ s, c'.held = some s → c.sockets = s)
    (hes : ∀ s, es.count (.close s) + es.count (.connCb s)
      = if c.sockets = s ∧ c'.held ≠ some s then 1 else 0) : Accounted c' where
  ended := by
    intro s
    rw [ended_logged htrace, hes, h.ended s, hsockets, hheld]
    by_cases hs : c.sockets = s
    · subst hs
      simp
    · have hne : c'.held ≠ some s := fun he => hs (hheld' s he)
      have hlt : s < c.sockets + 1 ↔ s < c.sockets :=
        ⟨fun h => Nat.lt_of_le_of_ne (Nat.le_of_lt_succ h) (Ne.symm hs), Nat.lt_succ_of_lt⟩
      simp [hs, hne, hlt]
  made := by
    intro s hs
    rw [← hheld' s hs, hsockets]
    exact Nat.lt_succ_self _

end Connector

namespace ConnectorLoop

open Connector (Accounted held_top held_handleWrite attempted_none attempted_some)

/-- **A step inside the connector.** -/
theorem accounted_run {l : ConnectorLoop} {a : Connector.Label} {c : Connector}
    {out : Option ConnectorOutgoing} (hcore : Core l) (h : Accounted l.connector)
    (hs : ConnectorStep l.connector a c out) (hok : c.failed = none) : Accounted c := by
  have hsame : ∀ s : Socket, ([] : List ConnectorEvent).count (.close s)
      + ([] : List ConnectorEvent).count (.connCb s) = 0 := fun s => rfl
  have hnil : l.connector.trace = l.connector.trace ++ [] := (List.append_nil _).symm
  -- at `connected` a socket is in hand, and none at `connect`
  have hconnected : ∀ {socket : Socket} {rest : List ConnectorFrame},
      l.connector.stack = .connected socket :: rest →
      l.connector.state ≠ .kConnecting ∧ l.connector.held = some socket := by
    intro socket rest hstk
    refine ⟨by rw [(hcore.frame hstk).1]; simp, ?_⟩
    unfold Connector.held
    rw [hstk]
  have hconnect : ∀ {rest : List ConnectorFrame}, l.connector.stack = .connect :: rest →
      l.connector.state ≠ .kConnecting ∧ l.connector.held = none := by
    intro rest hstk
    have hst : l.connector.state = .kDisconnected := hcore.frame hstk
    have hne : l.connector.state ≠ .kConnecting := by
      rw [hst]
      simp
    exact ⟨hne, by rw [held_top hstk (by simp), attempted_none hne]⟩
  cases hs with
  | @skip f rest hstk hne =>
    refine h.congr hnil rfl hsame ?_
    rw [held_handleWrite (hcore.rest hstk)]
    refine (held_top hstk fun s hf => ?_).symm
    rw [hf] at hne
    exact hne
  | @test f rest hstk ht hstart =>
    refine h.congr hnil rfl hsame ?_
    rw [held_top rfl (by simp)]
    refine (held_top hstk fun s hf => ?_).symm
    rw [hf] at ht
    simp [Connector.Tests] at ht
  | startFails hstk hst => exact absurd hok (by simp)
  | timerFails hstk hst => exact absurd hok (by simp)
  | noChannel hst hch => exact absurd hok (by simp)
  | @stop rest ch hstk hst hch =>
    have hheld : l.connector.held = some ch.fd := by
      rw [held_top hstk (by simp), attempted_some hst hch]
    refine h.ends rfl rfl hheld ?_ ?_
    · rw [held_handleWrite (hcore.rest hstk)]
      rfl
    · intro s
      simp [List.count_cons]
  | @runAfter rest hstk hstart =>
    refine h.congr hnil rfl hsame ?_
    rw [held_handleWrite (hcore.rest hstk)]
    exact (held_top hstk (by simp)).symm
  | @connCb socket rest hstk hstart =>
    obtain ⟨hst, hheld⟩ := hconnected hstk
    refine h.ends rfl rfl hheld ?_ ?_
    · rw [held_handleWrite (hcore.rest hstk)]
      exact attempted_none hst
    · intro s
      simp [List.count_cons]
  | @closeConnected socket rest hstk hstart =>
    obtain ⟨hst, hheld⟩ := hconnected hstk
    refine h.ends rfl rfl hheld ?_ ?_
    · rw [held_handleWrite (hcore.rest hstk)]
      exact attempted_none hst
    · intro s
      simp [List.count_cons]
  | @handlerRetries a f rest ch hstk hset hch hf =>
    have hst := hcore.connecting hset
    have hheld : l.connector.held = some ch.fd := by
      rw [held_top hstk, attempted_some hst hch]
      intro s he
      rcases hf with ⟨hf, _⟩ | ⟨hf, _⟩ <;> exact absurd (he.symm.trans hf) (by simp)
    refine h.ends rfl rfl hheld ?_ ?_
    · rw [held_top rfl (by simp)]
      exact attempted_none (by simp [Connector.retry])
    · intro s
      simp [List.count_cons]
  | @connected rest ch hstk hset hch =>
    have hst := hcore.connecting hset
    refine h.congr rfl rfl ?_ ?_
    · intro s
      simp
    · rw [held_top hstk (by simp), attempted_some hst hch]
      rfl
  | @connecting errno rest hstk hc hch =>
    obtain ⟨hst, hheld⟩ := hconnect hstk
    refine h.makes (List.append_assoc _ _ _) rfl hheld ?_ ?_
    · intro s hs
      rw [held_handleWrite (hcore.rest hstk)] at hs
      exact Option.some.inj hs
    · intro s
      rw [held_handleWrite (hcore.rest hstk), if_neg]
      · simp
      · intro ⟨he, hne⟩
        exact hne (congrArg some he)
  | connectingFails hstk hc hch => exact absurd hok (by simp)
  | @connectRetries errno rest hstk hc =>
    obtain ⟨hst, hheld⟩ := hconnect hstk
    have hheld' : (Connector.retry { l.connector with
        sockets := l.connector.sockets + 1
        trace := l.connector.logged [.socket l.connector.sockets] } l.connector.sockets
          rest).held = none := by
      rw [held_top rfl (by simp)]
      exact attempted_none (by simp [Connector.retry])
    refine h.makes (List.append_assoc _ _ _) rfl hheld ?_ ?_
    · intro s hs
      exact absurd (hheld'.symm.trans hs) (by simp)
    · intro s
      rw [hheld']
      simp [List.count_cons]
  | @connectCloses errno rest hstk hc =>
    obtain ⟨hst, hheld⟩ := hconnect hstk
    have hheld' : Connector.held { l.connector with
        sockets := l.connector.sockets + 1
        trace := l.connector.logged [.socket l.connector.sockets] ++ [.close l.connector.sockets]
        stack := rest } = none := by
      rw [held_handleWrite (hcore.rest hstk)]
      exact attempted_none hst
    refine h.makes (List.append_assoc _ _ _) rfl hheld ?_ ?_
    · intro s hs
      exact absurd (hheld'.symm.trans hs) (by simp)
    · intro s
      rw [hheld']
      simp [List.count_cons]

/-! ## One of a socket and a timer -/

/-- Behind the one `Start`: `Restart` comes in `kConnected` with `start_` set, `Stop` at any time
and from any thread, and `Connect` after the functors of `ResetChannel`. That a connection closes
without a `Restart` does not concern the connector. -/
def Orderly (l : ConnectorLoop) : Label → Prop
  | .start | .threadAssign true | .threadQueue true | .closed false => False
  | .closed true => l.connector.state = .kConnected ∧ l.connector.start = true
  | .run (.connect _) => .resetChannel ∉ l.queue
  | .stop | .threadAssign false | .threadQueue false | .run .next | .run (.socket _) | .clock _
  | .next | .timer _ | .event _ _ => True

instance (l : ConnectorLoop) (a : Label) : Decidable (l.Orderly a) :=
  match a with
  | .start | .threadAssign true | .threadQueue true | .closed false => .isFalse id
  | .closed true =>
      inferInstanceAs (Decidable (l.connector.state = .kConnected ∧ l.connector.start = true))
  | .run (.connect _) => inferInstanceAs (Decidable (.resetChannel ∉ l.queue))
  | .stop | .threadAssign false | .threadQueue false | .run .next | .run (.socket _) | .clock _
  | .next | .timer _ | .event _ _ => .isTrue trivial

/-- A frame that may go on to `Connect`. -/
def Connects : ConnectorFrame → Prop
  | .start | .retryTimer | .restartTest | .connect => True
  | .stop | .retryTest | .handleWrite | .connected _ | .handleError => False

/-- The invariant when one attempt is made at a time. -/
structure Alone (l : ConnectorLoop) : Prop where
  core : Core l
  single : Single l
  accounted : l.connector.Accounted
  /-- No timer waits while the loop thread may come to `Connect`. -/
  connects : ∀ f ∈ l.connector.stack, Connects f → l.timers = []
  begins : .start ∈ l.connector.stack → l.connector.state = .kDisconnected
  notQueued : .start ∉ l.queue
  /-- A connection is open, or about to be, as long as `start_` is set in `kConnected`. -/
  opened : l.connector.state = .kConnected → l.connector.start = true →
    l.opened = 1 ∨ ∃ s rest, l.connector.stack = .connected s :: rest
  failed : l.connector.failed = none

theorem Orderly.afterReset {l : ConnectorLoop} {a : Label} (h : l.Orderly a) : l.AfterReset a := by
  unfold AfterReset
  split
  · exact fun _ => h
  · trivial

theorem Alone.noTimerPending {l l' : ConnectorLoop} {a : Label} (h : Alone l)
    (hs : l.step a = some l') : l.NoTimerPending a := by
  unfold NoTimerPending
  split
  · intro _
    cases (step_cases hs).2 with
    | run hrun =>
      have hstk : ∃ rest, l.connector.stack = .connect :: rest := by
        cases hrun with
        | connecting hstk _ _ => exact ⟨_, hstk⟩
        | connectingFails hstk _ _ => exact ⟨_, hstk⟩
        | connectRetries hstk _ => exact ⟨_, hstk⟩
        | connectCloses hstk _ => exact ⟨_, hstk⟩
        | handlerRetries _ _ _ hf =>
          rcases hf with ⟨_, ha⟩ | ⟨_, _, ha⟩ <;> exact absurd ha (by simp)
      obtain ⟨rest, hstk⟩ := hstk
      exact h.connects .connect (by rw [hstk]; exact List.mem_cons_self) trivial
  · trivial

/-- A step leaves the frame on top, or puts another in its place. -/
theorem stack_run {c c' : Connector} {a : Connector.Label} {out : Option ConnectorOutgoing}
    (hs : ConnectorStep c a c' out) (hf : c'.failed = none) :
    ∃ f rest, c.stack = f :: rest ∧ (c'.stack = rest ∨ ∃ g, c'.stack = g :: rest
      ∧ (g = .connect ∧ out = none ∧ c.Tests f ∨ g = .retryTest ∨ ∃ s, g = .connected s)) := by
  cases hs with
  | startFails hstk hst => exact absurd hf (by simp)
  | timerFails hstk hst => exact absurd hf (by simp)
  | noChannel hst hch => exact absurd hf (by simp)
  | connectingFails hstk hc hch => exact absurd hf (by simp)
  | test hstk ht hstart => exact ⟨_, _, hstk, .inr ⟨_, rfl, .inl ⟨rfl, rfl, ht⟩⟩⟩
  | handlerRetries hstk hset hch hframe =>
    exact ⟨_, _, hstk, .inr ⟨_, rfl, .inr (.inl rfl)⟩⟩
  | connected hstk hset hch => exact ⟨_, _, hstk, .inr ⟨_, rfl, .inr (.inr ⟨_, rfl⟩)⟩⟩
  | connectRetries hstk hc => exact ⟨_, _, hstk, .inr ⟨_, rfl, .inr (.inl rfl)⟩⟩
  | skip hstk hskip => exact ⟨_, _, hstk, .inl rfl⟩
  | stop hstk hst hch => exact ⟨_, _, hstk, .inl rfl⟩
  | runAfter hstk hstart => exact ⟨_, _, hstk, .inl rfl⟩
  | connCb hstk hstart => exact ⟨_, _, hstk, .inl rfl⟩
  | closeConnected hstk hstart => exact ⟨_, _, hstk, .inl rfl⟩
  | connecting hstk hc hch => exact ⟨_, _, hstk, .inl rfl⟩
  | connectCloses hstk hc => exact ⟨_, _, hstk, .inl rfl⟩

/-- The connection of `kConnected` is open, below any other frame than its own. -/
theorem Alone.opened_of_top {l : ConnectorLoop} (h : Alone l)
    (htop : ∀ s rest, l.connector.stack ≠ .connected s :: rest)
    (hst : l.connector.state = .kConnected) (hstart : l.connector.start = true) : l.opened = 1 := by
  rcases h.opened hst hstart with ho | ⟨s, rest, hstk⟩
  · exact ho
  · exact absurd hstk (htop s rest)

/-- No assertion fails. -/
theorem Alone.not_failed {l : ConnectorLoop} {a : Connector.Label} {c : Connector}
    {out : Option ConnectorOutgoing} (h : Alone l) (hok : l.Orderly (.run a))
    (hs : ConnectorStep l.connector a c out) : c.failed = none := by
  have hmem : ∀ {f : ConnectorFrame} {rest : List ConnectorFrame},
      l.connector.stack = f :: rest → f ∈ l.connector.stack := by
    intro f rest hstk
    rw [hstk]
    exact List.mem_cons_self
  cases hs with
  | startFails hstk hst => exact absurd (h.begins (hmem hstk)) hst
  | timerFails hstk hst => exact absurd (h.single.frames _ (hmem hstk)) hst
  | noChannel hst hch => exact absurd hch (h.core.has_channel hst)
  | connectingFails hstk hc hch =>
    have hst : l.connector.state = .kDisconnected := h.core.frame hstk
    have hnull := (h.core.channel_none_iff (by rw [hst]; simp)).mpr hok
    exact absurd (hch.symm.trans hnull) (by simp)
  | _ => exact h.failed

theorem connects_run {l : ConnectorLoop} {a : Connector.Label} {c : Connector}
    {out : Option ConnectorOutgoing} (h : Alone l) (hs : ConnectorStep l.connector a c out)
    (hf : c.failed = none) :
    (∀ f ∈ c.stack, Connects f → ({ l with connector := c }.emit out).timers = [])
      ∧ .start ∉ c.stack := by
  obtain ⟨f, rest, hstk, hstack⟩ := stack_run hs hf
  have hrest := h.core.rest hstk
  have hquiet : ∀ g ∈ rest, ¬ Connects g := by
    intro g hg hc
    rw [hrest g hg] at hc
    exact hc
  have hnot : .start ∉ rest := fun hmem => absurd (hrest _ hmem) (by simp)
  rcases hstack with he | ⟨g, he, hg⟩
  · rw [he]
    exact ⟨fun g hg hc => absurd hc (hquiet g hg), hnot⟩
  · rw [he]
    refine ⟨List.forall_mem_cons.mpr ⟨fun hc => ?_, fun g hg hc => absurd hc (hquiet g hg)⟩, ?_⟩
    · rcases hg with ⟨_, hout, ht⟩ | hg | ⟨s, hg⟩
      · rw [hout]
        refine h.connects f (by rw [hstk]; exact List.mem_cons_self) ?_
        rcases ht with ⟨hf | hf, _⟩ | hf <;> rw [hf] <;> trivial
      · rw [hg] at hc
        exact hc.elim
      · rw [hg] at hc
        exact hc.elim
    · intro hmem
      rcases List.mem_cons.mp hmem with hmem | hmem
      · rcases hg with ⟨hg, _⟩ | hg | ⟨s, hg⟩ <;> exact absurd (hmem.trans hg) (by simp)
      · exact hnot hmem

theorem opened_run {l : ConnectorLoop} {a : Connector.Label} {c : Connector}
    {out : Option ConnectorOutgoing} (h : Alone l) (hs : ConnectorStep l.connector a c out)
    (hf : c.failed = none) (hst : c.state = .kConnected) (hstart : c.start = true) :
    ({ l with connector := c }.emit out).opened = 1 ∨ ∃ s rest, c.stack = .connected s :: rest := by
  have hopen : ∀ {f : ConnectorFrame} {rest : List ConnectorFrame},
      l.connector.stack = f :: rest → (∀ s, f ≠ .connected s) → l.connector.state = .kConnected →
        l.connector.start = true → l.opened = 1 := by
    intro f rest hstk hne hst hstart
    refine h.opened_of_top (fun s rest' he => ?_) hst hstart
    rw [hstk] at he
    exact hne s (List.cons.inj he).1
  cases hs with
  | startFails hstk hst => exact absurd hf (by simp)
  | timerFails hstk hst => exact absurd hf (by simp)
  | connectingFails hstk hc hch => exact absurd hf (by simp)
  | @skip f rest hstk hskip =>
    refine .inl (hopen hstk (fun s he => ?_) hst hstart)
    rw [he] at hskip
    exact hskip
  | @test f rest hstk ht _ =>
    refine .inl (hopen hstk (fun s he => ?_) hst hstart)
    rw [he] at ht
    simp [Connector.Tests] at ht
  | runAfter hstk _ =>
    have hdisconnected : l.connector.state = .kDisconnected := h.core.frame hstk
    exact absurd (hst.symm.trans hdisconnected) (by simp)
  | connCb hstk _ =>
    have hnone := (h.core.frame hstk).2
    refine .inl ?_
    show l.opened + 1 = 1
    rw [hnone]
  | closeConnected hstk hs => exact absurd (hs.symm.trans hstart) (by simp)
  | connected hstk hset hch => exact .inr ⟨_, _, rfl⟩
  | connectCloses hstk hc =>
    have hdisconnected : l.connector.state = .kDisconnected := h.core.frame hstk
    exact absurd (hst.symm.trans hdisconnected) (by simp)
  | noChannel _ _ => exact absurd hst (by simp)
  | stop _ _ _ => exact absurd hst (by simp)
  | handlerRetries _ _ _ _ => exact absurd hst (by simp [Connector.retry])
  | connecting _ _ _ => exact absurd hst (by simp)
  | connectRetries _ _ => exact absurd hst (by simp [Connector.retry])

theorem emit_connector (l : ConnectorLoop) (c : Connector) (out : Option ConnectorOutgoing) :
    ({ l with connector := c }.emit out).connector = c := by
  unfold emit
  split <;> rfl

/-- **A step inside the connector.** -/
theorem alone_run {l : ConnectorLoop} {a : Connector.Label} {c : Connector}
    {out : Option ConnectorOutgoing} (h : Alone l) (hok : l.Orderly (.run a))
    (hstep : l.step (.run a) = some ({ l with connector := c }.emit out))
    (hs : ConnectorStep l.connector a c out) : Alone ({ l with connector := c }.emit out) := by
  have hfailed := h.not_failed hok hs
  have hconn := emit_connector l c out
  obtain ⟨hconnects, hstart⟩ := connects_run h hs hfailed
  refine ⟨?_, single_step h.core h.single (h.noTimerPending hstep) hstep, ?_, ?_, ?_, ?_, ?_, ?_⟩
  · exact (core_run h.core hs).resolve_left (by rw [hfailed]; simp)
  · rw [hconn]
    exact accounted_run h.core h.accounted hs hfailed
  · rw [hconn]
    exact hconnects
  · rw [hconn]
    exact fun hmem => absurd hmem hstart
  · unfold emit
    split
    · exact h.notQueued
    · simpa using h.notQueued
    · exact h.notQueued
    · exact h.notQueued
  · rw [hconn]
    exact opened_run h hs hfailed
  · rw [hconn]
    exact hfailed

/-- **A step keeps this.** -/
theorem alone_step {l l' : ConnectorLoop} {a : Label} (h : Alone l) (hok : l.Orderly a)
    (hs : l.step a = some l') : Alone l' := by
  have hsingle := single_step h.core h.single (h.noTimerPending hs) hs
  have hcore : Core l' := (core_step h.core (step_cases hs).2).resolve_left fun he =>
    (connecting_fails_iff h.core hs).mp he hok.afterReset
  -- the loop thread comes into the connector, with frames that are not those of a connection
  have hin : ∀ {c : Connector}, l.connector.stack = [] →
      (∀ s rest, c.stack ≠ .connected s :: rest) → c.attempted = l.connector.attempted →
        c.sockets = l.connector.sockets → (∃ es, c.trace = l.connector.trace ++ es
          ∧ ∀ s, es.count (.close s) + es.count (.connCb s) = 0) → c.Accounted := by
    intro c hstk hne ha hsockets ⟨es, htrace, hes⟩
    refine h.accounted.congr htrace hsockets hes ?_
    have hc : c.held = c.attempted := by
      unfold Connector.held
      split
      · rename_i s rest he
        exact absurd he (hne s rest)
      · rfl
    rw [hc, ha]
    unfold Connector.held
    rw [hstk]
  have hsame : ∃ es, l.connector.trace = l.connector.trace ++ es
      ∧ ∀ s, es.count (ConnectorEvent.close s) + es.count (.connCb s) = 0 :=
    ⟨[], (List.append_nil _).symm, fun s => rfl⟩
  have hopened : l.connector.stack = [] → l.connector.state = .kConnected →
      l.connector.start = true → l.opened = 1 := fun hstk => h.opened_of_top (by rw [hstk]; simp)
  cases (step_cases hs).2 with
  | run hrun => exact alone_run h hok hs hrun
  | start hstk => exact hok.elim
  | closed ho => exact hok.elim
  | stop hstk =>
    exact ⟨hcore, hsingle, hin hstk (by simp) rfl rfl hsame, by simp [Connects], by simp,
      h.notQueued, fun _ hstart => absurd hstart (by simp), h.failed⟩
  | restart ho hstk =>
    have hst : l.connector.state = .kConnected := hok.1
    have hnone := h.single.waits (by rw [hst]; simp)
    refine ⟨hcore, hsingle, hin hstk (by simp) ?_ rfl ⟨[.restart], rfl, by simp⟩,
      fun _ _ _ => hnone, by simp, h.notQueued, fun hst => absurd hst (by simp [Connector.restart]),
      h.failed⟩
    have hbefore : l.connector.attempted = none := attempted_none (by rw [hst]; simp)
    rw [hbefore]
    exact attempted_none (by simp [Connector.restart])
  | threadAssign start =>
    cases start with
    | true => exact hok.elim
    | false =>
      exact ⟨hcore, hsingle, { h.accounted with }, h.connects, h.begins, h.notQueued,
        fun _ hstart => absurd hstart (by simp), h.failed⟩
  | threadQueue start =>
    cases start with
    | true => exact hok.elim
    | false =>
      exact ⟨hcore, hsingle, h.accounted, h.connects, h.begins, by simpa using h.notQueued,
        h.opened, h.failed⟩
  | clock hle => exact { h with core := hcore, single := hsingle }
  | phase hstk => exact { h with core := hcore, single := hsingle }
  | @functor f g rest left hq hstk hg =>
    have hstop : g = .stop ∧ f = .stop := by
      refine hg.resolve_left fun hstart => h.notQueued ?_
      rw [hq, hstart.1]
      exact List.mem_cons_self
    rw [hstop.2]
    refine ⟨hstop.2 ▸ hcore, hstop.2 ▸ hsingle, hin hstk (by simp) rfl rfl hsame,
      by simp [Connects], by simp, ?_, fun hst hstart => .inl (hopened hstk hst hstart), h.failed⟩
    exact fun hmem => h.notQueued (by rw [hq]; exact List.mem_cons_of_mem _ hmem)
  | @reset rest left hq hstk =>
    have hst : l.connector.state ≠ .kConnecting :=
      fun hst => h.core.no_reset hst (by rw [hq]; exact List.mem_cons_self)
    refine ⟨hcore, hsingle, hin hstk (by simp) ?_ rfl hsame, by simp, by simp, ?_,
      fun hst hstart => .inl (hopened hstk hst hstart), h.failed⟩
    · rw [attempted_none hst]
      exact attempted_none hst
    · exact fun hmem => h.notQueued (by rw [hq]; exact List.mem_cons_of_mem _ hmem)
  | @timer k when hk hstk =>
    have hlast : (l.timers.eraseIdx k) = [] := by
      have hlt : k < l.timers.length := (List.getElem?_eq_some_iff.mp hk).1
      have hone := h.single.timers
      refine List.eq_nil_of_length_eq_zero ?_
      rw [List.length_eraseIdx_of_lt hlt]
      omega
    exact ⟨hcore, hsingle, hin hstk (by simp) rfl rfl hsame, fun _ _ _ => hlast, by simp,
      h.notQueued, fun hst hstart => .inl (hopened hstk hst hstart), h.failed⟩
  | @event error writable hstk hr =>
    have hframes : ∀ f ∈ Connector.eventFrames error writable,
        f = .handleError ∨ f = .handleWrite := by
      cases error <;> cases writable <;> simp [Connector.eventFrames]
    refine ⟨hcore, hsingle, hin hstk ?_ rfl rfl hsame, ?_, ?_, h.notQueued,
      fun hst hstart => .inl (hopened hstk hst hstart), h.failed⟩
    · intro s rest he
      have hmem : .connected s ∈ Connector.eventFrames error writable :=
        (show Connector.eventFrames error writable = .connected s :: rest from he)
          ▸ List.mem_cons_self
      rcases hframes _ hmem with he | he <;> exact absurd he (by simp)
    · intro f hf hc
      rcases hframes f hf with he | he <;>
        rw [he] at hc <;>
        exact hc.elim
    · intro hmem
      rcases hframes _ hmem with he | he <;> exact absurd he (by simp)

theorem alone_create {now : Timestamp} {l : ConnectorLoop} (h : (create now).step .start = some l) :
    Alone l := by
  have hl : l = { create now with
      connector := { Connector.create with start := true, stack := [.start] } } :=
    (Option.some.inj h).symm
  have hcore : Core l := (core_step (core_create now) (step_cases h).2).resolve_left
    (by rw [hl]; simp [Connector.create])
  rw [hl] at hcore ⊢
  have hsingle : Single { create now with
      connector := { Connector.create with start := true, stack := [.start] } } :=
    ⟨by simp [create], by simp [create], by simp [TimerFits], by simp [Connector.create]⟩
  refine ⟨hcore, hsingle,
    { Connector.accounted_create with }, fun _ _ _ => rfl, fun _ => rfl, by simp [create],
    fun hst => absurd hst (by simp [Connector.create]), rfl⟩

theorem alone_run_start {now : Timestamp} {l₀ l : ConnectorLoop} {as : List Label}
    (h : (create now).step .start = some l₀) (hr : Run machine Orderly l₀ as l) : Alone l :=
  hr.invariant (alone_create h) fun _ _ _ hi hok hs => alone_step hi hok hs

/-- A socket is held only out of `kDisconnected`. -/
theorem Core.held_state {l : ConnectorLoop} (h : Core l) {s : Socket}
    (hs : l.connector.held = some s) : l.connector.state ≠ .kDisconnected := by
  intro hst
  unfold Connector.held at hs
  split at hs
  · rename_i socket rest hstk
    exact absurd (hst.symm.trans (h.frame hstk).1) (by simp)
  · exact absurd ((attempted_none (by rw [hst]; simp)).symm.trans hs) (by simp)

/-- At most one socket is unresolved, and none while a timer waits. -/
theorem Alone.one_pending {l : ConnectorLoop} (h : Alone l) :
    l.connector.unresolved.length + l.timers.length ≤ 1 := by
  have htimers := h.single.timers
  have hiff : ∀ s ∈ List.range l.connector.sockets,
      (decide (l.connector.ended s = 0) = true ↔ l.connector.held = some s) := by
    intro s hs
    rw [decide_eq_true_eq, h.accounted.ended s]
    simp [List.mem_range.mp hs]
  unfold Connector.unresolved
  rw [← List.countP_eq_length_filter]
  cases hheld : l.connector.held with
  | none =>
    have hzero : (List.range l.connector.sockets).countP (fun s => l.connector.ended s = 0)
        = 0 := by
      rw [List.countP_eq_zero]
      intro s hs he
      exact absurd (hheld.symm.trans ((hiff s hs).mp he)) (by simp)
    omega
  | some k =>
    have hnone : l.timers = [] := h.single.waits (h.core.held_state hheld)
    have hone : (List.range l.connector.sockets).countP (fun s => l.connector.ended s = 0)
        = (List.range l.connector.sockets).count k := by
      refine List.countP_congr fun s hs => ?_
      rw [hiff s hs, hheld, beq_iff_eq, Option.some.injEq]
      exact eq_comm
    rw [hone, hnone, List.count_range]
    split <;> simp

end ConnectorLoop

end Windz
