import Windz.Net.AcceptorProof

/-!
# The spare descriptor of an acceptor

`idle_fd_` makes room for one connection when the table is full, if nothing else takes the
room in between. When something does, `idle_fd_` is -1, and there is nothing to give up any
more.

`Relief` follows one `HandleRead` on a full table, call by call.
-/

namespace Windz

open Lib

namespace Acceptor

variable {s s' : Acceptor} {fd conn : Nat} {u : FdUse}

/-! ## It is opened again -/

/-- The rest of the process opens nothing between `close(idle_fd_)` and `open`, which does not fail
by itself. -/
def SpareSafe (s : Acceptor) : Label → Prop
  | .otherOpens => s.pc.spare = true ∨ s.pc = .destroyed
  | .open fails => fails = false
  | _ => True

instance (s : Acceptor) : ∀ a, Decidable (SpareSafe s a)
  | .otherOpens => inferInstanceAs (Decidable (_ ∨ _))
  | .open fails => inferInstanceAs (Decidable (fails = false))
  | .setConnectionCallBack | .listen | .handleRead | .accept _ | .errno _ | .next
  | .callbackReturns | .destroy | .arrive | .abort _ | .otherCloses _ => .isTrue trivial

/-- While `idle_fd_` is given up something else is free, unless it is in hand. -/
structure Spared (s : Acceptor) : Prop where
  spare : s.pc.spare = true → s.idleFd ≠ none
  room : s.pc.spare = false → s.pc ≠ .destroyed → s.pc.hand = none →
    ∃ fd : Nat, s.table[fd]? = some none

theorem Spared.goOn (h : Spared s) {t : Acceptor} (hs : t.pc.spare = true)
    (hp : s.pc.spare = true) (hi : t.idleFd = s.idleFd) : Spared t where
  spare := fun _ => hi ▸ h.spare hp
  room := fun hn => absurd hn (by rw [hs]; exact nofun)

/-- A descriptor of the acceptor or of others is closed. -/
theorem free_closeFd (hi : Inv s) (hm : s.Mine fd u) (hu : u.mine = true) :
    (s.closeFd (some fd) u).table[fd]? = some none := by
  have hlt := Descriptors.lt_of_use ((hi.own fd u hu).mpr hm)
  rw [closeFd_mine hi hm hu]
  exact Descriptors.use_set_self hlt none

theorem Spared.next (h : Spared s) (hi : Inv s) (hs : s.next = some s') : Spared s' := by
  unfold Acceptor.next at hs
  cases hp : s.pc with
  | accepted fd conn =>
    rw [hp] at hs
    cases hs
    have hpc : s.pc.spare = true := by rw [hp]; rfl
    unfold dispatch
    split
    · exact h.goOn rfl hpc rfl
    · rw [closeFd_mine hi (u := .taken conn) (by show s.pc.hand = _; rw [hp]; rfl) rfl]
      exact h.goOn rfl hpc rfl
  | relieving =>
    rw [hp] at hs
    cases hs
    have hpc : s.pc.spare = true := by rw [hp]; rfl
    obtain ⟨fd, hfd⟩ := Option.ne_none_iff_exists'.mp (h.spare hpc)
    refine ⟨nofun, fun _ _ _ => ⟨fd, ?_⟩⟩
    rw [hfd]
    exact free_closeFd hi (u := .idle) ⟨hpc, hfd⟩ rfl
  | acceptedAgain socket =>
    rw [hp] at hs
    cases hs
    refine ⟨fun hn => ?_, fun _ _ _ => ?_⟩
    · cases socket <;> cases hn
    · cases socket with
      | none => exact h.room (by rw [hp]; rfl) (by rw [hp]; exact nofun) (by rw [hp]; rfl)
      | some p =>
        exact ⟨p.1, free_closeFd hi (u := .taken p.2) (by show s.pc.hand = _; rw [hp]; rfl) rfl⟩
  | closingSocket =>
    rw [hp] at hs
    cases hs
    have hpc : s.pc.spare = true := by rw [hp]; rfl
    refine h.goOn rfl hpc ?_
    rw [closeFd_mine hi (u := .listener) ⟨by rw [hp]; rfl, rfl⟩ rfl]
  | closingIdle =>
    rw [hp] at hs
    cases hs
    exact ⟨nofun, fun _ hn => absurd rfl hn⟩
  | outside | accepting | inCallback | acceptFailed | acceptingAgain | reopening | destroyed =>
    rw [hp] at hs
    cases hs

theorem Spared.reopen (h : Spared s) (hp : s.pc = .reopening) : Spared (s.reopen false) := by
  obtain ⟨fd, hfd⟩ := h.room (by rw [hp]; rfl) (by rw [hp]; exact nofun) (by rw [hp]; rfl)
  obtain ⟨fd', table, ha⟩ := Descriptors.allocate_of_free (u := FdUse.idle) hfd
  unfold Acceptor.reopen
  rw [if_neg nofun, ha]
  exact ⟨fun _ => nofun, fun hn => by cases hn⟩

theorem spared_step (h : Spared s) (hi : Inv s) {a : Label} (hok : SpareSafe s a)
    (hs : s.step a = some s') : Spared s' := by
  have hfault : ¬ s.fault = true := by
    rw [hi.noFault]
    exact nofun
  unfold Acceptor.step at hs
  rw [if_neg hfault] at hs
  cases a with
  | setConnectionCallBack | listen =>
    obtain ⟨-, he⟩ := Option.ite_none_right_eq_some.mp hs
    cases he
    exact ⟨h.spare, h.room⟩
  | handleRead =>
    obtain ⟨⟨hp, -⟩, he⟩ := Option.ite_none_right_eq_some.mp hs
    cases he
    exact h.goOn rfl (by rw [hp]; rfl) rfl
  | accept fails =>
    dsimp only at hs
    split at hs <;> cases hs
    · rename_i hp ha
      obtain ⟨table, rest, -, -, rfl⟩ := accept4_ok ha
      exact h.goOn rfl (by rw [hp]; rfl) rfl
    · rename_i hp ha
      exact h.goOn rfl (by rw [hp]; rfl) rfl
    · exact ⟨nofun, fun _ _ hn => by cases hn⟩
    · rename_i hp ha
      refine ⟨nofun, fun _ _ _ => ?_⟩
      exact h.room (by rw [hp]; rfl) (by rw [hp]; exact nofun) (by rw [hp]; rfl)
  | «open» fails =>
    obtain ⟨hp, he⟩ := Option.ite_none_right_eq_some.mp hs
    cases he
    rw [show fails = false from hok]
    exact h.reopen hp
  | errno e =>
    dsimp only at hs
    split at hs
    · rename_i hp
      cases hs
      exact h.goOn (by dsimp only; split <;> rfl) (by rw [hp]; rfl) rfl
    · cases hs
  | next => exact h.next hi hs
  | callbackReturns | destroy =>
    obtain ⟨hp, he⟩ := Option.ite_none_right_eq_some.mp hs
    cases he
    exact h.goOn rfl (by rw [hp]; rfl) rfl
  | arrive =>
    obtain ⟨-, he⟩ := Option.ite_none_right_eq_some.mp hs
    cases he
    exact ⟨h.spare, h.room⟩
  | abort conn =>
    obtain ⟨-, he⟩ := Option.ite_none_right_eq_some.mp hs
    cases he
    exact ⟨h.spare, h.room⟩
  | otherOpens =>
    obtain ⟨p, -, he⟩ := Option.map_eq_some_iff.mp hs
    cases he
    refine ⟨h.spare, fun hn hd => ?_⟩
    rcases hok with hs | hs
    · exact absurd (hs.symm.trans hn) nofun
    · exact absurd hs hd
  | otherCloses fd =>
    have hset : ∃ u, s' = { s with table := s.table.release fd }
        ∧ s.table[fd]? = some (some u) := by
      dsimp only at hs
      split at hs
      · rename_i hu
        cases hs
        exact ⟨_, rfl, hu⟩
      · rename_i hu
        cases hs
        exact ⟨_, rfl, hu⟩
      · cases hs
    obtain ⟨u, rfl, hu⟩ := hset
    exact ⟨h.spare, fun _ _ _ => ⟨fd, Descriptors.use_set_self (Descriptors.lt_of_use hu) none⟩⟩

theorem spared_reachable (h : Reachable machine SpareSafe s) : Spared s := by
  refine h.invariant (I := Spared) ?_ fun _ _ _ hr hi hok hs =>
    spared_step hi (inv_reachable hr) hok hs
  intro s hs
  obtain ⟨fd, hfd, -⟩ := hs.idle
  have hpc := hs.quiet.2.1
  exact ⟨fun _ => by rw [hfd]; exact nofun, fun hn => by rw [hpc] at hn; cases hn⟩

/-- What `HandleRead` does on a full table, with a connection waiting and `errno` kept. -/
def reliefLabels : List Label :=
  [.handleRead, .accept none, .errno .EMFILE, .next, .accept none, .next, .open false]

theorem accept4_full (hfull : s.table.full = true) (fails : Option AcceptErrno) :
    ∃ e, s.accept4 fails = .error e ∧ (fails = none → e = .EMFILE) := by
  unfold accept4
  cases fails with
  | some e => exact ⟨e, rfl, nofun⟩
  | none => exact ⟨.EMFILE, if_pos hfull, fun _ => rfl⟩

/-- The slot given up is the one that the connection and then `idle_fd_` get. -/
theorem relief_run (hi : Inv s) (hp : s.pc = .outside) (hl : s.listenning = true)
    (hfull : s.table.full = true) (hidle : s.idleFd = some fd) {rest : List Nat}
    (hb : s.backlog = conn :: rest) : Run machine SpareSafe s reliefLabels
      { s with backlog := rest, dropped := s.dropped ++ [conn] } := by
  have hok : ¬ s.fault = true := by
    rw [hi.noFault]
    exact nofun
  have hown : s.table[fd]? = some (some .idle) := (hi.own fd .idle rfl).mpr ⟨by rw [hp]; rfl, hidle⟩
  have hlt := Descriptors.lt_of_use hown
  let s₁ : Acceptor := { s with pc := .accepting }
  let s₂ : Acceptor := { s with pc := .acceptFailed .EMFILE }
  let s₃ : Acceptor := { s with pc := .relieving }
  let s₄ : Acceptor := { s with table := s.table.release fd, pc := .acceptingAgain }
  let s₅ : Acceptor := { s with
    table := s.table.set fd (some (.taken conn)), backlog := rest
    pc := .acceptedAgain (some (fd, conn)) }
  let s₆ : Acceptor := { s with
    table := s.table.release fd, backlog := rest, dropped := s.dropped ++ [conn]
    pc := .reopening }
  have h₁ : machine.step s .handleRead = some s₁ := (if_neg hok).trans (if_pos ⟨hp, hl⟩)
  have h₂ : machine.step s₁ (.accept none) = some s₂ := by
    have ha : s₁.accept4 none = .error .EMFILE := if_pos hfull
    show s₁.step (.accept none) = some s₂
    unfold Acceptor.step
    rw [if_neg hok]
    dsimp only
    rw [ha]
  have h₃ : machine.step s₂ (.errno .EMFILE) = some s₃ := if_neg hok
  have h₄ : machine.step s₃ .next = some s₄ := by
    have hc : s₃.closeFd (some fd) .idle = { s₃ with table := s.table.release fd } := if_pos hown
    refine (if_neg hok).trans ?_
    show some { s₃.closeFd s.idleFd .idle with pc := AcceptorPc.acceptingAgain } = some s₄
    rw [hidle, hc]
  have h₅ : machine.step s₄ (.accept none) = some s₅ := by
    have hfree : s₄.table.full = false :=
      Descriptors.full_false_iff.mpr ⟨fd, Descriptors.use_set_self hlt none⟩
    have ha : s₄.accept4 none = .ok (fd, conn, { s₅ with pc := .acceptingAgain }) := by
      unfold accept4
      dsimp only
      rw [if_neg (by rw [hfree]; exact nofun), show s₄.backlog = conn :: rest from hb]
      dsimp only
      rw [show s₄.table.allocate (.taken conn) = _ from Descriptors.allocate_released hfull hlt]
    show s₄.step (.accept none) = some s₅
    unfold Acceptor.step
    rw [if_neg hok]
    dsimp only
    rw [ha]
  have h₆ : machine.step s₅ .next = some s₆ := by
    refine (if_neg hok).trans ?_
    show some (s₅.closeAgain (some (fd, conn))) = some s₆
    have hc : s₅.closeFd (some fd) (.taken conn) =
        { s₅ with table := s₅.table.release fd } :=
      if_pos (Descriptors.use_set_self hlt _)
    unfold closeAgain
    dsimp only
    rw [hc]
    show some { s with
      table := Descriptors.release fd (s.table.set fd (some (.taken conn))), backlog := rest
      dropped := s.dropped ++ [conn], pc := AcceptorPc.reopening } = some s₆
    unfold Descriptors.release
    rw [List.set_set]
    rfl
  have h₇ : machine.step s₆ (.open false) =
      some { s with backlog := rest, dropped := s.dropped ++ [conn] } := by
    refine (if_neg hok).trans ((if_pos rfl).trans ?_)
    unfold Acceptor.reopen
    rw [if_neg nofun,
      show s₆.table.allocate .idle = _ from Descriptors.allocate_released hfull hlt,
      Descriptors.set_use hown]
    dsimp only
    rw [← hidle, ← hp]
  exact ((((((Run.one trivial h₁).tail trivial h₂).tail trivial h₃).tail trivial h₄).tail
    trivial h₅).tail trivial h₆).tail rfl h₇

/-! ## Every `HandleRead` on a full table -/

/-- A step inside one `HandleRead`: no system call fails by itself, `errno` behind the log messages
is what `accept4` left there, the rest of the process neither opens nor closes a descriptor, and the
kernel does not give up `conn`. -/
def ReliefSafe (conn : Nat) (s : Acceptor) (a : Label) : Prop :=
  s.pc ≠ .outside ∧
  match a with
  | .accept fails => fails = none
  | .errno e => s.pc = .acceptFailed e
  | .open fails => fails = false
  | .abort c => c ≠ conn
  | .otherOpens | .otherCloses _ => False
  | .setConnectionCallBack | .listen | .handleRead | .next | .callbackReturns | .destroy
  | .arrive => True

instance (conn : Nat) (s : Acceptor) : ∀ a, Decidable (ReliefSafe conn s a)
  | .accept _ | .errno _ | .open _ | .abort _ => inferInstanceAs (Decidable (_ ∧ _))
  | .otherOpens | .otherCloses _ => inferInstanceAs (Decidable (_ ∧ False))
  | .setConnectionCallBack | .listen | .handleRead | .next | .callbackReturns | .destroy
  | .arrive => inferInstanceAs (Decidable (_ ∧ True))

/-- How far a `HandleRead` that found the table of `s` full has come, with `fd` given up for
`conn`. -/
def ReliefAt (s : Acceptor) (fd conn : Nat) (t : Acceptor) : AcceptorPc → Prop
  | .accepting | .acceptFailed .EMFILE | .relieving =>
      t.table = s.table ∧ t.dropped = s.dropped ∧ t.backlog.head? = some conn
  | .acceptingAgain =>
      t.table = s.table.release fd ∧ t.dropped = s.dropped ∧ t.backlog.head? = some conn
  | .acceptedAgain (some (fd', conn')) =>
      fd' = fd ∧ conn' = conn ∧ t.table = s.table.set fd (some (.taken conn))
        ∧ t.dropped = s.dropped
  | .reopening => t.table = s.table.release fd ∧ t.dropped = s.dropped ++ [conn]
  | .outside => t.table = s.table ∧ t.dropped = s.dropped ++ [conn]
  | _ => False

/-- What holds all along. -/
structure Relief (s : Acceptor) (fd conn : Nat) (t : Acceptor) : Prop where
  /-- The place. -/
  place : ReliefAt s fd conn t t.pc
  /-- Nothing else changes, `idle_fd_` and what was handed out neither. -/
  frame : t = { s with
    pc := t.pc, table := t.table, backlog := t.backlog, arrivals := t.arrivals
    dropped := t.dropped, aborted := t.aborted }
  /-- The connections behind the first one stay with the kernel. -/
  waiting : ∀ c ∈ s.backlog, c = conn ∨ c ∈ t.backlog ∨ c ∈ t.aborted

theorem Relief.goOn {t : Acceptor} (h : Relief s fd conn t) {pc : AcceptorPc}
    (hpc : ReliefAt s fd conn t pc) : Relief s fd conn { t with pc } where
  place := by cases pc <;> exact hpc
  frame := by rw [h.frame]
  waiting := h.waiting

/-- The kernel's queue may change behind its first connection. -/
theorem Relief.queue {t : Acceptor} (h : Relief s fd conn t) {backlog aborted : List Nat}
    {arrivals : Nat}
    (hhead : t.backlog.head? = some conn → backlog.head? = some conn)
    (hkept : ∀ c, c ≠ conn → c ∈ t.backlog ∨ c ∈ t.aborted → c ∈ backlog ∨ c ∈ aborted) :
    Relief s fd conn { t with backlog, arrivals, aborted } where
  place := by
    have hplace := h.place
    dsimp only
    cases hp : t.pc with
    | accepting | relieving | acceptingAgain =>
      rw [hp] at hplace
      exact ⟨hplace.1, hplace.2.1, hhead hplace.2.2⟩
    | acceptFailed e =>
      rw [hp] at hplace
      cases e with
      | EMFILE => exact ⟨hplace.1, hplace.2.1, hhead hplace.2.2⟩
      | EAGAIN | ENFILE | other => cases hplace
    | acceptedAgain socket =>
      rw [hp] at hplace
      cases socket with
      | none => cases hplace
      | some p => exact hplace
    | reopening | outside =>
      rw [hp] at hplace
      exact hplace
    | accepted _ _ | inCallback | closingSocket | closingIdle | destroyed =>
      rw [hp] at hplace
      cases hplace
  frame := by rw [h.frame]
  waiting := fun c hc => by
    by_cases he : c = conn
    · exact .inl he
    · exact .inr (hkept c he ((h.waiting c hc).resolve_left he))

theorem Relief.accept {t : Acceptor} (h : Relief s fd conn t)
    (hown : s.table[fd]? = some (some .idle)) (hfull : s.table.full = true)
    (hs : t.step (.accept none) = some s') : Relief s fd conn s' := by
  have hplace := h.place
  unfold Acceptor.step at hs
  obtain ⟨-, hs⟩ := Option.ite_none_left_eq_some.mp hs
  dsimp only at hs
  cases hp : t.pc with
  | accepting =>
    rw [hp] at hplace hs
    have ha : t.accept4 none = .error .EMFILE := if_pos (by rw [hplace.1]; exact hfull)
    rw [ha] at hs
    cases hs
    exact h.goOn hplace
  | acceptingAgain =>
    rw [hp] at hplace hs
    obtain ⟨htable, hdropped, hhead⟩ := hplace
    obtain ⟨rest, hrest⟩ : ∃ rest, t.backlog = conn :: rest := by
      cases hb : t.backlog with
      | nil => rw [hb] at hhead; cases hhead
      | cons c rest => rw [hb] at hhead; exact ⟨rest, by rw [Option.some.inj hhead]⟩
    have hlt := Descriptors.lt_of_use hown
    have hfree : t.table.full = false := by
      rw [htable]
      exact Descriptors.full_false_iff.mpr ⟨fd, Descriptors.use_set_self hlt none⟩
    have hallocate : t.table.allocate (.taken conn)
        = some (fd, s.table.set fd (some (.taken conn))) := by
      rw [htable]
      exact Descriptors.allocate_released hfull hlt
    have ha : t.accept4 none = .ok (fd, conn,
        { t with table := s.table.set fd (some (.taken conn)), backlog := rest }) := by
      unfold accept4
      dsimp only
      rw [if_neg (by rw [hfree]; exact nofun), hrest]
      dsimp only
      rw [hallocate]
    rw [ha] at hs
    cases hs
    refine ⟨⟨rfl, rfl, rfl, hdropped⟩, by rw [h.frame], fun c hc => ?_⟩
    have hw := h.waiting c hc
    rw [hrest, List.mem_cons] at hw
    rcases hw with hw | (hw | hw) | hw
    · exact .inl hw
    · exact .inl hw
    · exact .inr (.inl hw)
    · exact .inr (.inr hw)
  | outside | accepted _ _ | inCallback | acceptFailed _ | relieving | acceptedAgain _ | reopening
  | closingSocket | closingIdle | destroyed =>
    rw [hp] at hs
    cases hs

theorem Relief.next {t : Acceptor} (h : Relief s fd conn t)
    (hown : s.table[fd]? = some (some .idle)) (hidle : s.idleFd = some fd)
    (hs : t.next = some s') : Relief s fd conn s' := by
  have hplace := h.place
  have hlt := Descriptors.lt_of_use hown
  unfold Acceptor.next at hs
  cases hp : t.pc with
  | relieving =>
    rw [hp] at hplace hs
    obtain ⟨htable, hdropped, hhead⟩ := hplace
    have hfd : t.idleFd = some fd := by rw [h.frame]; exact hidle
    have hc : t.closeFd (some fd) .idle = { t with table := s.table.release fd } := by
      have hspare : t.table[fd]? = some (some .idle) := by rw [htable]; exact hown
      exact (if_pos hspare).trans (by rw [htable])
    rw [hfd, hc] at hs
    cases hs
    exact ⟨⟨rfl, hdropped, hhead⟩, by rw [h.frame], h.waiting⟩
  | acceptedAgain socket =>
    rw [hp] at hplace hs
    cases socket with
    | none => cases hplace
    | some p =>
      obtain ⟨fd', conn'⟩ := p
      obtain ⟨rfl, rfl, htable, hdropped⟩ := hplace
      have hc : t.closeFd (some fd') (.taken conn') = { t with table := s.table.release fd' } := by
        have htaken : t.table[fd']? = some (some (.taken conn')) := by
          rw [htable]
          exact Descriptors.use_set_self hlt _
        refine (if_pos htaken).trans ?_
        rw [htable]
        unfold Descriptors.release
        rw [List.set_set]
      unfold closeAgain at hs
      dsimp only at hs
      rw [hc] at hs
      cases hs
      exact ⟨⟨rfl, by rw [hdropped]⟩, by rw [h.frame], h.waiting⟩
  | outside | accepting | inCallback | acceptFailed _ | acceptingAgain | reopening | destroyed =>
    rw [hp] at hs
    cases hs
  | accepted _ _ | closingSocket | closingIdle =>
    rw [hp] at hplace
    cases hplace

theorem Relief.reopen {t : Acceptor} (h : Relief s fd conn t)
    (hown : s.table[fd]? = some (some .idle)) (hfull : s.table.full = true)
    (hidle : s.idleFd = some fd) (hp : t.pc = .reopening) :
    Relief s fd conn (t.reopen false) := by
  have hplace := h.place
  rw [hp] at hplace
  obtain ⟨htable, hdropped⟩ := hplace
  have hlt := Descriptors.lt_of_use hown
  have hallocate : t.table.allocate .idle = some (fd, s.table) := by
    rw [htable, Descriptors.allocate_released hfull hlt, Descriptors.set_use hown]
  unfold Acceptor.reopen
  rw [if_neg nofun, hallocate]
  refine ⟨⟨rfl, hdropped⟩, ?_, h.waiting⟩
  dsimp only
  rw [h.frame, ← hidle]

/-- One step inside that `HandleRead`. -/
theorem Relief.step {t : Acceptor} (h : Relief s fd conn t)
    (hown : s.table[fd]? = some (some .idle)) (hfull : s.table.full = true)
    (hidle : s.idleFd = some fd) {a : Label} (hok : ReliefSafe conn t a)
    (hs : t.step a = some s') : Relief s fd conn s' := by
  obtain ⟨hinside, hok⟩ := hok
  cases a with
  | accept fails =>
    obtain rfl : fails = none := hok
    exact h.accept hown hfull hs
  | next =>
    unfold Acceptor.step at hs
    exact h.next hown hidle (Option.ite_none_left_eq_some.mp hs).2
  | «open» fails =>
    obtain rfl : fails = false := hok
    unfold Acceptor.step at hs
    obtain ⟨hp, he⟩ := Option.ite_none_right_eq_some.mp (Option.ite_none_left_eq_some.mp hs).2
    cases he
    exact h.reopen hown hfull hidle hp
  | errno e =>
    have hp : t.pc = .acceptFailed e := hok
    have hplace := h.place
    unfold Acceptor.step at hs
    have hs := (Option.ite_none_left_eq_some.mp hs).2
    dsimp only at hs
    rw [hp] at hs hplace
    cases hs
    cases e with
    | EMFILE => exact h.goOn hplace
    | EAGAIN | ENFILE | other => cases hplace
  | arrive =>
    unfold Acceptor.step at hs
    obtain ⟨-, he⟩ := Option.ite_none_right_eq_some.mp (Option.ite_none_left_eq_some.mp hs).2
    cases he
    refine h.queue (fun hhead => ?_) fun c _ hc => hc.imp_left (List.mem_append_left _)
    rw [List.head?_append, hhead]
    rfl
  | abort c =>
    have hne : c ≠ conn := hok
    unfold Acceptor.step at hs
    obtain ⟨-, he⟩ := Option.ite_none_right_eq_some.mp (Option.ite_none_left_eq_some.mp hs).2
    cases he
    refine h.queue (fun hhead => ?_) fun c' _ hc => ?_
    · obtain ⟨rest, hrest⟩ := List.head?_eq_some_iff.mp hhead
      rw [hrest, List.erase_cons_tail (by simpa using hne.symm)]
      rfl
    · by_cases he : c' = c
      · exact .inr (he ▸ List.mem_append_right _ (List.mem_singleton_self _))
      · exact hc.imp (List.mem_erase_of_ne he).mpr (List.mem_append_left _)
  | setConnectionCallBack | listen | destroy =>
    unfold Acceptor.step at hs
    obtain ⟨hp, -⟩ := Option.ite_none_right_eq_some.mp (Option.ite_none_left_eq_some.mp hs).2
    exact absurd hp hinside
  | handleRead =>
    unfold Acceptor.step at hs
    obtain ⟨hp, -⟩ := Option.ite_none_right_eq_some.mp (Option.ite_none_left_eq_some.mp hs).2
    exact absurd hp.1 hinside
  | callbackReturns =>
    have hplace := h.place
    unfold Acceptor.step at hs
    obtain ⟨hp, -⟩ := Option.ite_none_right_eq_some.mp (Option.ite_none_left_eq_some.mp hs).2
    rw [hp] at hplace
    cases hplace
  | otherOpens | otherCloses _ => cases hok

/-- **The spare descriptor does what it is kept for.** As long as the rest of the process opens
nothing between `close(idle_fd_)` and `open`, and that `open` does not fail by itself, `idle_fd_`
is a valid descriptor whenever it is not given up, in every run. A `HandleRead` on a full table with
a connection waiting can return, and whenever it returns after a run in which no system call failed
by itself, `errno` behind the log messages was what `accept4` left there, the rest of the process
neither opened nor closed a descriptor and the kernel did not give up that connection, it has
dropped the connection that had waited longest and left everything as it was but the kernel's
queue, where those behind it still are or have been given up. -/
theorem relief_keeps_spare (h : Reachable machine SpareSafe s) :
    (s.pc.spare = true → ∃ fd : Nat, s.idleFd = some fd ∧ s.table[fd]? = some (some .idle))
    ∧ (s.pc = .outside → s.listenning = true → s.table.full = true → ∀ conn rest,
      s.backlog = conn :: rest →
        Run machine SpareSafe s reliefLabels
          { s with backlog := rest, dropped := s.dropped ++ [conn] }
        ∧ ∀ s₁ as t, s.step .handleRead = some s₁ → Run machine (ReliefSafe conn) s₁ as t →
          t.pc = .outside →
          t = { s with
            dropped := s.dropped ++ [conn], backlog := t.backlog, arrivals := t.arrivals
            aborted := t.aborted }
          ∧ ∀ c ∈ rest, c ∈ t.backlog ∨ c ∈ t.aborted) := by
  have hi := inv_reachable h
  have hvalid : s.pc.spare = true → ∃ fd : Nat, s.idleFd = some fd
      ∧ s.table[fd]? = some (some .idle) := by
    intro hs
    obtain ⟨fd, hfd⟩ := Option.ne_none_iff_exists'.mp ((spared_reachable h).spare hs)
    exact ⟨fd, hfd, (hi.own fd .idle rfl).mpr ⟨hs, hfd⟩⟩
  refine ⟨hvalid, fun hp hl hfull conn rest hb => ?_⟩
  obtain ⟨fd, hfd, hown⟩ := hvalid (by rw [hp]; rfl)
  refine ⟨relief_run hi hp hl hfull hfd hb, fun s₁ as t hs hr hout => ?_⟩
  have h₁ : Relief s fd conn s₁ := by
    unfold Acceptor.step at hs
    obtain ⟨-, he⟩ := Option.ite_none_right_eq_some.mp (Option.ite_none_left_eq_some.mp hs).2
    cases he
    exact ⟨⟨rfl, rfl, by rw [hb]; rfl⟩, rfl, fun c hc => .inr (.inl hc)⟩
  have ht : Relief s fd conn t :=
    hr.invariant (I := Relief s fd conn) h₁ fun _ _ _ hi hok hs => hi.step hown hfull hfd hok hs
  have hplace := ht.place
  rw [hout] at hplace
  obtain ⟨htable, hdropped⟩ := hplace
  refine ⟨?_, fun c hc => ?_⟩
  · have hframe := ht.frame
    rw [hout, htable, hdropped, ← hp] at hframe
    exact hframe
  · -- each connection is in the queue once
    have hne : c ≠ conn := by
      have horder := hi.order
      rw [hb, List.pairwise_append] at horder
      have hlt := (List.pairwise_cons.mp horder.2.1).1 c hc
      omega
    exact (ht.waiting c (by rw [hb]; exact List.mem_cons_of_mem _ hc)).resolve_left hne

/-- Two connections wait at a full table, and a third arrives meanwhile. -/
theorem relief_keeps_spare_small : ∃ s t, Reachable machine SpareSafe s
    ∧ s.idleFd = some 1 ∧ s.table[1]? = some (some .idle)
    ∧ s.backlog = [0, 1] ∧ s.table.full = true
    ∧ (∃ s₁, s.step .handleRead = some s₁ ∧ Run machine (ReliefSafe 0) s₁
      [.accept none, .errno .EMFILE, .next, .arrive, .accept none, .next, .open false] t)
    ∧ t.backlog = [1, 2] ∧ t.dropped = [0] ∧ t.table = s.table := by
  have hexec : (machine.exec SpareSafe created4 [.listen, .otherOpens, .arrive, .arrive]).map
      (fun s => decide (s.idleFd = some 1 ∧ s.pc = .outside ∧ s.listenning = true
        ∧ s.table.full = true ∧ s.backlog = [0, 1] ∧ s.dropped = []
        ∧ ((s.step .handleRead).bind fun s₁ => (machine.exec (ReliefSafe 0) s₁
          [.accept none, .errno .EMFILE, .next, .arrive, .accept none, .next, .open false]).map
            fun t => (t.pc, t.backlog)) = some (.outside, [1, 2]))) = some true := by
    decide +kernel
  obtain ⟨s, hr, hp⟩ := Machine.exec_reachable (M := machine) created4_created hexec
  obtain ⟨hidle, hpc, hl, hfull, hb, hd, hrun⟩ := of_decide_eq_true hp
  obtain ⟨s₁, hs₁, hrun⟩ := Option.bind_eq_some_iff.mp hrun
  obtain ⟨t, ht, hout⟩ := Option.map_eq_some_iff.mp hrun
  have hrun := Machine.exec_run _ ht
  obtain ⟨hvalid, hrelief⟩ := relief_keeps_spare hr
  obtain ⟨fd, hfd, hopen⟩ := hvalid (by rw [hpc]; rfl)
  rw [hidle] at hfd
  cases hfd
  obtain ⟨he, -⟩ := (hrelief hpc hl hfull 0 [1] hb).2 s₁ _ t hs₁ hrun (Prod.mk.inj hout).1
  exact ⟨s, t, hr, hidle, hopen, hb, hfull, ⟨s₁, hs₁, hrun⟩, (Prod.mk.inj hout).2,
    by rw [he, hd]; rfl, by rw [he]⟩

/-! ## Without the spare descriptor -/

/-- The acceptor goes on, and nobody closes a descriptor. -/
def NothingFreed (_ : Acceptor) : Label → Prop
  | .destroy | .otherCloses _ => False
  | _ => True

instance (s : Acceptor) : ∀ a, Decidable (NothingFreed s a)
  | .destroy | .otherCloses _ => .isFalse id
  | .setConnectionCallBack | .listen | .handleRead | .accept _ | .open _ | .errno _ | .next
  | .callbackReturns | .arrive | .abort _ | .otherOpens => .isTrue trivial

/-- `idle_fd_` is -1, the table is full, and no connection is in hand. -/
structure Starved (s : Acceptor) : Prop where
  full : s.table.full = true
  idle : s.idleFd = none
  hand : s.pc.hand = none
  stays : s.pc.listens = true ∧ s.pc ≠ .closingSocket

/-- What does not change while the acceptor is starved. -/
structure Stuck (s t : Acceptor) : Prop where
  starved : Starved t
  table : t.table = s.table
  delivered : t.delivered = s.delivered
  dropped : t.dropped = s.dropped
  waiting : ∀ conn ∈ s.backlog, conn ∈ t.backlog ∨ conn ∈ t.aborted

theorem Stuck.goOn {t : Acceptor} (h : Stuck s t) {pc : AcceptorPc} {listenning hasConnCb : Bool}
    (hh : pc.hand = none) (hl : pc.listens = true) (hc : pc ≠ .closingSocket) :
    Stuck s { t with pc, listenning, hasConnCb } :=
  ⟨⟨h.starved.full, h.starved.idle, hh, hl, hc⟩, h.table, h.delivered, h.dropped, h.waiting⟩

theorem allocate_starved {t : Acceptor} (h : Starved t) (u : FdUse) : t.table.allocate u = none :=
  Descriptors.allocate_eq_none.mpr h.full

theorem stuck_step {t t' : Acceptor} (h : Stuck s t) {a : Label} (hok : NothingFreed t a)
    (hs : t.step a = some t') : Stuck s t' := by
  have hidle := h.starved.idle
  unfold Acceptor.step at hs
  obtain ⟨-, hs⟩ := Option.ite_none_left_eq_some.mp hs
  cases a with
  | setConnectionCallBack | listen =>
    obtain ⟨-, he⟩ := Option.ite_none_right_eq_some.mp hs
    cases he
    exact h.goOn h.starved.hand h.starved.stays.1 h.starved.stays.2
  | handleRead | callbackReturns =>
    obtain ⟨-, he⟩ := Option.ite_none_right_eq_some.mp hs
    cases he
    exact h.goOn rfl rfl nofun
  | accept fails =>
    obtain ⟨e, ha, -⟩ := accept4_full h.starved.full fails
    dsimp only at hs
    rw [ha] at hs
    split at hs
    · rename_i he
      cases he
    · cases hs
      exact h.goOn rfl rfl nofun
    · rename_i he
      cases he
    · cases hs
      exact h.goOn rfl rfl nofun
    · cases hs
  | «open» fails =>
    obtain ⟨-, he⟩ := Option.ite_none_right_eq_some.mp hs
    cases he
    have hnone : (if fails then none else t.table.allocate .idle) = none := by
      split
      · rfl
      · exact allocate_starved h.starved .idle
    unfold Acceptor.reopen
    rw [hnone]
    dsimp only
    rw [← hidle]
    exact h.goOn rfl rfl nofun
  | errno e =>
    dsimp only at hs
    split at hs
    · cases hs
      split <;> exact h.goOn rfl rfl nofun
    · cases hs
  | next =>
    have hclose : t.closeFd t.idleFd .idle = t := by rw [hidle]; rfl
    have hhand := h.starved.hand
    obtain ⟨hlisten, hsock⟩ := h.starved.stays
    unfold Acceptor.next at hs
    cases hp : t.pc with
    | accepted fd conn => rw [hp] at hhand; cases hhand
    | relieving =>
      rw [hp, hclose] at hs
      cases hs
      exact h.goOn rfl rfl nofun
    | acceptedAgain socket =>
      rw [hp] at hhand hs
      obtain rfl : socket = none := hhand
      cases hs
      exact h.goOn rfl rfl nofun
    | closingSocket => exact absurd hp hsock
    | closingIdle => rw [hp] at hlisten; cases hlisten
    | outside | accepting | inCallback | acceptFailed | acceptingAgain | reopening | destroyed =>
      rw [hp] at hs
      cases hs
  | destroy | otherCloses => cases hok
  | arrive =>
    obtain ⟨-, he⟩ := Option.ite_none_right_eq_some.mp hs
    cases he
    refine ⟨⟨h.starved.full, hidle, h.starved.hand, h.starved.stays⟩, h.table, h.delivered,
      h.dropped, fun conn hc => (h.waiting conn hc).imp_left fun hb => ?_⟩
    exact List.mem_append_left _ hb
  | abort conn =>
    obtain ⟨-, he⟩ := Option.ite_none_right_eq_some.mp hs
    cases he
    refine ⟨⟨h.starved.full, hidle, h.starved.hand, h.starved.stays⟩, h.table, h.delivered,
      h.dropped, fun c hc => ?_⟩
    by_cases he : c = conn
    · exact .inr (he ▸ List.mem_append_right _ (List.mem_singleton_self _))
    · exact (h.waiting c hc).imp (List.mem_erase_of_ne he).mpr (List.mem_append_left _)
  | otherOpens =>
    obtain ⟨p, ha, -⟩ := Option.map_eq_some_iff.mp hs
    rw [allocate_starved h.starved] at ha
    cases ha

/-- **The spare descriptor is lost for good.** Once `idle_fd_` is -1 and the table is full, in every
run in which nobody closes a descriptor, the acceptor accepts nothing any more, not even to close
it at once, however often `HandleRead` is called: the connections that wait go on waiting until
the kernel gives them up. -/
theorem without_spare_nothing_is_accepted (hp : s.pc = .outside) (hidle : s.idleFd = none)
    (hfull : s.table.full = true) {as : List Label} (hr : Run machine NothingFreed s as s') :
    s'.idleFd = none ∧ s'.table = s.table ∧ s'.delivered = s.delivered ∧ s'.dropped = s.dropped
    ∧ ∀ conn ∈ s.backlog, conn ∈ s'.backlog ∨ conn ∈ s'.aborted := by
  have hs : Stuck s s := ⟨⟨hfull, hidle, by rw [hp]; rfl, by rw [hp]; rfl, by rw [hp]; exact nofun⟩,
    rfl, rfl, rfl, fun _ => .inl⟩
  have hst := hr.invariant (I := Stuck s) hs fun _ _ _ hi hok hs => stuck_step hi hok hs
  exact ⟨hst.starved.idle, hst.table, hst.delivered, hst.dropped, hst.waiting⟩

/-- Another thread opens a file between `close(idle_fd_)` and `open`. -/
theorem without_spare_nothing_is_accepted_small : ∃ s s', Reachable machine (fun _ _ => True) s
    ∧ s.backlog = [1]
    ∧ Run machine NothingFreed s [.handleRead, .accept none, .errno .EMFILE, .next, .accept none,
      .next, .open false] s'
    ∧ s'.dropped = s.dropped ∧ (1 ∈ s'.backlog ∨ 1 ∈ s'.aborted) := by
  have hexec : (machine.exec (fun _ _ => True) created4
      [.listen, .otherOpens, .arrive, .arrive, .handleRead, .accept none, .errno .EMFILE, .next,
        .accept none, .next, .otherOpens, .open false]).map (fun s => decide
          (s.pc = .outside ∧ s.idleFd = none ∧ s.table.full = true ∧ s.backlog = [1]
            ∧ (machine.exec NothingFreed s [.handleRead, .accept none, .errno .EMFILE, .next,
              .accept none, .next, .open false]).isSome = true)) = some true := by decide +kernel
  obtain ⟨s, hr, hp⟩ := Machine.exec_reachable (M := machine) created4_created hexec
  obtain ⟨hpc, hidle, hfull, hb, hrun⟩ := of_decide_eq_true hp
  obtain ⟨s', hs'⟩ := Option.isSome_iff_exists.mp hrun
  have hrun := Machine.exec_run _ hs'
  obtain ⟨-, -, -, hdrop, hwait⟩ := without_spare_nothing_is_accepted hpc hidle hfull hrun
  exact ⟨s, s', hr, hb, hrun, hdrop, hwait 1 (by rw [hb]; exact List.mem_singleton_self 1)⟩

end Acceptor

end Windz
