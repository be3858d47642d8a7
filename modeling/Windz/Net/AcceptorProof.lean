import Mathlib.Data.List.Perm.Basic
import Windz.Net.Acceptor

/-!
# An acceptor closes what is its own

In every run, whatever the rest of the process opens and closes between two of its system
calls, the acceptor has open what `Mine` says and nothing else: `socket_`, `idle_fd_` and
the connection in its hands. So what it closes is its own, and every connection that
arrived is in one place.
-/

namespace Windz

open Lib

/-- A descriptor the acceptor has to close. -/
def FdUse.mine : FdUse → Bool
  | .listener | .idle | .taken _ => true
  | .handed _ | .other => false

namespace AcceptorPc

/-- `socket_` is not closed yet. -/
def listens : AcceptorPc → Bool
  | .closingIdle | .destroyed => false
  | _ => true

/-- `idle_fd_` is not given up. -/
def spare : AcceptorPc → Bool
  | .acceptingAgain | .acceptedAgain _ | .reopening | .destroyed => false
  | _ => true

/-- The connection accepted and not passed on, behind its descriptor. -/
def hand : AcceptorPc → Option (Nat × Nat)
  | .accepted fd conn => some (fd, conn)
  | .acceptedAgain socket => socket
  | _ => none

end AcceptorPc

namespace Acceptor

variable {s s' : Acceptor} {fd conn : Nat} {u : FdUse}

/-- What the acceptor has open. -/
def Mine (s : Acceptor) (fd : Nat) : FdUse → Prop
  | .listener => s.pc.listens = true ∧ fd = s.socket
  | .idle => s.pc.spare = true ∧ s.idleFd = some fd
  | .taken conn => s.pc.hand = some (fd, conn)
  | .handed _ | .other => False

/-- The connections handed to `conn_cb_`, in order. -/
def served (s : Acceptor) : List Nat := s.delivered.map Prod.fst

/-- The connection that `HandleRead` has accepted and not yet handed on. -/
def inHand (s : Acceptor) : List Nat := s.pc.hand.toList.map Prod.snd

/-- The invariant of an acceptor. -/
structure Inv (s : Acceptor) : Prop where
  noFault : s.fault = false
  own : ∀ fd u, u.mine = true → (s.table[fd]? = some (some u) ↔ s.Mine fd u)
  conns : (s.served ++ s.dropped ++ s.inHand ++ s.backlog ++ s.aborted).Perm
    (List.range s.arrivals)
  order : (s.served ++ s.inHand ++ s.backlog).Pairwise (· < ·)

/-! ## One descriptor opened or closed -/

theorem own_open {table : Descriptors FdUse} (h : Inv s)
    (ha : s.table.allocate u = some (fd, table))
    (hm : ∀ fd' v, v.mine = true → (s'.Mine fd' v ↔ s.Mine fd' v ∨ (fd' = fd ∧ v = u))) :
    ∀ fd' v, v.mine = true → (table[fd']? = some (some v) ↔ s'.Mine fd' v) := by
  intro fd' v hv
  obtain ⟨hfree, rfl⟩ := Descriptors.allocate_eq ha
  have hlt : fd < s.table.length := (List.getElem?_eq_some_iff.mp hfree).1
  rw [hm fd' v hv, ← h.own fd' v hv]
  by_cases he : fd = fd'
  · rw [← he, Descriptors.use_set_self hlt, hfree]
    simp [eq_comm]
  · rw [Descriptors.use_set_ne he]
    simp [Ne.symm he]

theorem own_close {x : Option FdUse} (h : Inv s) (hu : s.table[fd]? = some (some u))
    (hx : ∀ v, x = some v → v.mine = false)
    (hm : ∀ fd' v, v.mine = true → (s'.Mine fd' v ↔ s.Mine fd' v ∧ (fd' ≠ fd ∨ v ≠ u))) :
    ∀ fd' v, v.mine = true → ((s.table.set fd x)[fd']? = some (some v) ↔ s'.Mine fd' v) := by
  intro fd' v hv
  rw [hm fd' v hv, ← h.own fd' v hv]
  by_cases he : fd = fd'
  · rw [← he, Descriptors.use_set_self (Descriptors.lt_of_use hu), hu]
    constructor
    · intro hxv
      rw [hx v (Option.some.inj hxv)] at hv
      cases hv
    · rintro ⟨huv, hne | hne⟩
      · exact absurd rfl hne
      · exact absurd (Option.some.inj (Option.some.inj huv)).symm hne
  · rw [Descriptors.use_set_ne he]
    simp [Ne.symm he]

/-- What was opened for others is not the acceptor's, wherever it stands. -/
theorem own_other (h : Inv s) {x : Option FdUse} (hu : s.table[fd]? = some (some u))
    (hn : u.mine = false) (hx : ∀ v, x = some v → v.mine = false) :
    ∀ fd' v, v.mine = true → ((s.table.set fd x)[fd']? = some (some v) ↔ s.Mine fd' v) := by
  refine own_close h hu hx fun fd' v hv => ⟨fun hm => ⟨hm, .inr ?_⟩, fun hm => hm.1⟩
  rintro rfl
  rw [hn] at hv
  cases hv

/-! ## The steps -/

/-- The loop thread goes on and nothing is opened, closed or passed on. -/
theorem Inv.goOn (h : Inv s) {pc : AcceptorPc} {listenning hasConnCb : Bool}
    (hl : pc.listens = s.pc.listens) (hs : pc.spare = s.pc.spare ∨ s.idleFd = none)
    (hh : pc.hand = s.pc.hand) : Inv { s with pc, listenning, hasConnCb } where
  noFault := h.noFault
  own := by
    intro fd u hu
    rw [h.own fd u hu]
    rcases hs with hs | hs <;> cases u <;> simp [Mine, hl, hs, hh]
  conns := by
    have hc := h.conns
    unfold inHand at hc ⊢
    rw [hh]
    exact hc
  order := by
    have ho := h.order
    unfold inHand at ho ⊢
    rw [hh]
    exact ho

theorem accept4_ok {fails : Option AcceptErrno} {t : Acceptor}
    (h : s.accept4 fails = .ok (fd, conn, t)) : ∃ table rest, s.backlog = conn :: rest
      ∧ s.table.allocate (.taken conn) = some (fd, table)
      ∧ t = { s with table, backlog := rest } := by
  unfold accept4 at h
  split at h
  · cases h
  · split at h
    · cases h
    · split at h
      · cases h
      · rename_i hb
        split at h
        · rename_i ha
          cases h
          exact ⟨_, _, hb, ha, rfl⟩
        · cases h

/-- A connection is accepted. -/
theorem Inv.accept (h : Inv s) {fails : Option AcceptErrno} {t : Acceptor} {pc : AcceptorPc}
    (ha : s.accept4 fails = .ok (fd, conn, t)) (hn : s.pc.hand = none)
    (hl : pc.listens = s.pc.listens) (hs : pc.spare = s.pc.spare)
    (hh : pc.hand = some (fd, conn)) : Inv { t with pc } := by
  obtain ⟨table, rest, hb, hal, rfl⟩ := accept4_ok ha
  have hnone : s.inHand = [] := by
    unfold inHand
    rw [hn]
    rfl
  have hone : inHand { s with table, backlog := rest, pc } = [conn] := by
    unfold inHand
    rw [hh]
    rfl
  have hc := h.conns
  have ho := h.order
  rw [hnone, hb] at hc ho
  refine ⟨h.noFault, own_open h hal fun fd' v hv => ?_, ?_, ?_⟩
  · cases v with
    | listener => simp [Mine, hl]
    | idle => simp [Mine, hs]
    | taken c => simp [Mine, hh, hn, eq_comm (a := fd'), eq_comm (a := c)]
    | handed c | other => cases hv
  · rw [hone]
    simpa [served] using hc
  · rw [hone]
    simpa [served] using ho

/-- The connection in hand is handed on, or closed. -/
theorem Inv.pass (h : Inv s) (hh : s.pc.hand = some (fd, conn)) {pc : AcceptorPc}
    {x : Option FdUse} (hx : ∀ v, x = some v → v.mine = false)
    (hl : pc.listens = s.pc.listens) (hs : pc.spare = s.pc.spare) (hn : pc.hand = none)
    {delivered : List (Nat × Nat)} {dropped : List Nat}
    (hd : (delivered = s.delivered ++ [(conn, fd)] ∧ dropped = s.dropped)
      ∨ (delivered = s.delivered ∧ dropped = s.dropped ++ [conn])) :
    Inv { s with table := s.table.set fd x, pc, delivered, dropped } := by
  have hu : s.table[fd]? = some (some (.taken conn)) := (h.own fd _ rfl).mpr hh
  have hone : s.inHand = [conn] := by
    unfold inHand
    rw [hh]
    rfl
  have hnone : inHand { s with table := s.table.set fd x, pc, delivered, dropped } = [] := by
    unfold inHand
    rw [hn]
    rfl
  have hc := h.conns
  have ho := h.order
  rw [hone] at hc ho
  refine ⟨h.noFault, own_close h hu hx fun fd' v hv => ?_, ?_, ?_⟩
  · cases v with
    | listener => simp [Mine, hl]
    | idle => simp [Mine, hs]
    | taken c =>
      simp only [Mine, hh, hn, Option.some.injEq, Prod.mk.injEq, reduceCtorEq, false_iff]
      rintro ⟨⟨rfl, rfl⟩, hne | hne⟩ <;> exact hne rfl
    | handed c | other => cases hv
  · rw [hnone]
    rw [List.perm_iff_count] at hc ⊢
    intro a
    have hca := hc a
    rcases hd with ⟨rfl, rfl⟩ | ⟨rfl, rfl⟩ <;>
      simp only [served, List.map_append, List.map_cons, List.map_nil, List.count_append,
        List.append_nil] at hca ⊢ <;> omega
  · rw [hnone]
    rcases hd with ⟨rfl, rfl⟩ | ⟨rfl, rfl⟩
    · simpa [served] using ho
    · refine ho.sublist ?_
      rw [List.append_nil]
      exact (List.sublist_append_left _ _).append (List.Sublist.refl _)

/-- `close` of `socket_` or `idle_fd_`. -/
theorem Inv.give (h : Inv s) (hm : s.Mine fd u) (hu : u.mine = true) {pc : AcceptorPc}
    (hh : pc.hand = s.pc.hand)
    (hc : ∀ fd' v, v.mine = true →
      (Mine { s with pc } fd' v ↔ s.Mine fd' v ∧ (fd' ≠ fd ∨ v ≠ u))) :
    Inv { s with table := s.table.release fd, pc } := by
  have hown : ∀ fd' v, v.mine = true →
      ((s.table.set fd none)[fd']? = some (some v) ↔ Mine { s with pc } fd' v) :=
    own_close h ((h.own fd u hu).mpr hm) nofun hc
  have hi := h.conns
  have ho := h.order
  unfold inHand at hi ho
  rw [← hh] at hi ho
  exact ⟨h.noFault, fun fd' v hv => (hown fd' v hv).trans (by cases v <;> rfl), hi, ho⟩

theorem closeFd_mine (h : Inv s) (hm : s.Mine fd u) (hu : u.mine = true) :
    s.closeFd (some fd) u = { s with table := s.table.release fd } :=
  if_pos ((h.own fd u hu).mpr hm)

/-- `close(idle_fd_)`. -/
theorem Inv.closeIdle (h : Inv s) {pc : AcceptorPc} (hs : s.pc.spare = true)
    (hp : pc.spare = false) (hl : pc.listens = s.pc.listens) (hh : pc.hand = s.pc.hand) :
    Inv { s.closeFd s.idleFd .idle with pc } := by
  cases hi : s.idleFd with
  | none => exact h.goOn hl (.inr hi) hh
  | some fd =>
    have hm : s.Mine fd .idle := ⟨hs, hi⟩
    rw [closeFd_mine h hm rfl]
    refine h.give hm rfl hh fun fd' v hv => ?_
    cases v with
    | listener => simp [Mine, hl]
    | idle => simp [Mine, hs, hp, hi, eq_comm]
    | taken c => simp [Mine, hh]
    | handed c | other => cases hv

/-- `socket_.Close()`. -/
theorem Inv.closeSocket (h : Inv s) (hp : s.pc = .closingSocket) :
    Inv { s.closeFd (some s.socket) .listener with pc := .closingIdle } := by
  have hm : s.Mine s.socket .listener := ⟨by rw [hp]; rfl, rfl⟩
  rw [closeFd_mine h hm rfl]
  refine h.give hm rfl (by rw [hp]; rfl) fun fd' v hv => ?_
  cases v with
  | listener => simp [Mine, AcceptorPc.listens]
  | idle => simp [Mine, hp, AcceptorPc.spare]
  | taken c => simp [Mine, hp, AcceptorPc.hand]
  | handed c | other => cases hv

/-- `open`. -/
theorem Inv.reopen (h : Inv s) (hp : s.pc = .reopening) (fails : Bool) :
    Inv (s.reopen fails) := by
  unfold Acceptor.reopen
  have hhand : s.pc.hand = none := by rw [hp]; rfl
  have hc := h.conns
  have ho := h.order
  unfold inHand at hc ho
  rw [hhand] at hc ho
  split
  · rename_i fd table ha
    have ha : s.table.allocate .idle = some (fd, table) := by
      split at ha
      · cases ha
      · exact ha
    refine ⟨h.noFault, own_open h ha fun fd' v hv => ?_, hc, ho⟩
    cases v with
    | listener => simp [Mine, hp, AcceptorPc.listens]
    | idle => simp [Mine, hp, AcceptorPc.spare, eq_comm]
    | taken c => simp [Mine, hp, AcceptorPc.hand]
    | handed c | other => cases hv
  · refine ⟨h.noFault, fun fd u hu => (h.own fd u hu).trans ?_, hc, ho⟩
    cases u with
    | listener => simp [Mine, hp, AcceptorPc.listens]
    | idle => simp [Mine, hp, AcceptorPc.spare]
    | taken c => simp [Mine, hp, AcceptorPc.hand]
    | handed c | other => cases hu

/-- A connection arrives. -/
theorem Inv.arrive (h : Inv s) :
    Inv { s with backlog := s.backlog ++ [s.arrivals], arrivals := s.arrivals + 1 } where
  noFault := h.noFault
  own := h.own
  conns := by
    have hc := List.perm_iff_count.mp h.conns
    refine List.perm_iff_count.mpr fun a => ?_
    have hca := hc a
    simp only [served, inHand, List.range_succ, List.count_append] at hca ⊢
    omega
  order := by
    have ho := h.order
    show (s.served ++ s.inHand ++ (s.backlog ++ [s.arrivals])).Pairwise (· < ·)
    rw [← List.append_assoc]
    refine List.pairwise_append.mpr ⟨ho, List.pairwise_singleton _ _, fun a ha b hb => ?_⟩
    rw [List.mem_singleton.mp hb]
    refine List.mem_range.mp (h.conns.mem_iff.mp ?_)
    simp only [List.mem_append] at ha ⊢
    tauto

/-- The kernel gives up a connection that is not accepted yet. -/
theorem Inv.abort (h : Inv s) (hb : conn ∈ s.backlog) :
    Inv { s with backlog := s.backlog.erase conn, aborted := s.aborted ++ [conn] } where
  noFault := h.noFault
  own := h.own
  conns := by
    have hc := List.perm_iff_count.mp h.conns
    have he := List.perm_iff_count.mp (List.perm_cons_erase hb)
    refine List.perm_iff_count.mpr fun a => ?_
    have hca := hc a
    have hea := he a
    rw [← List.singleton_append, List.count_append] at hea
    simp only [served, inHand, List.count_append] at hca ⊢
    omega
  order := h.order.sublist ((List.Sublist.refl _).append List.erase_sublist)

theorem Inv.otherOpens (h : Inv s) {table : Descriptors FdUse}
    (ha : s.table.allocate .other = some (fd, table)) : Inv { s with table } := by
  refine ⟨h.noFault, own_open h ha fun fd' v hv => ⟨.inl, fun hm => hm.elim id ?_⟩, h.conns,
    h.order⟩
  rintro ⟨-, rfl⟩
  cases hv

theorem Inv.otherCloses (h : Inv s) (hu : s.table[fd]? = some (some u)) (hn : u.mine = false) :
    Inv { s with table := s.table.release fd } :=
  ⟨h.noFault, own_other h hu hn nofun, h.conns, h.order⟩

/-- The steps between two system calls. -/
theorem Inv.next (h : Inv s) (hs : s.next = some s') : Inv s' := by
  unfold Acceptor.next at hs
  cases hp : s.pc with
  | accepted fd conn =>
    have hhand : s.pc.hand = some (fd, conn) := by rw [hp]; rfl
    rw [hp] at hs
    cases hs
    unfold dispatch
    split
    · refine h.pass hhand (x := some (.handed conn)) ?_ (by rw [hp]; rfl) (by rw [hp]; rfl) rfl
        (.inl ⟨rfl, rfl⟩)
      rintro v ⟨⟩
      rfl
    · rw [closeFd_mine h (u := .taken conn) hhand rfl]
      exact h.pass hhand (x := none) nofun (by rw [hp]; rfl) (by rw [hp]; rfl) rfl (.inr ⟨rfl, rfl⟩)
  | relieving =>
    rw [hp] at hs
    cases hs
    exact h.closeIdle (by rw [hp]; rfl) rfl (by rw [hp]; rfl) (by rw [hp]; rfl)
  | acceptedAgain socket =>
    rw [hp] at hs
    cases hs
    unfold closeAgain
    cases socket with
    | none => exact h.goOn (by rw [hp]; rfl) (.inl (by rw [hp]; rfl)) (by rw [hp]; rfl)
    | some p =>
      have hhand : s.pc.hand = some (p.1, p.2) := by rw [hp]; rfl
      dsimp only
      rw [closeFd_mine h (u := .taken p.2) hhand rfl]
      exact h.pass hhand (x := none) nofun (by rw [hp]; rfl) (by rw [hp]; rfl) rfl (.inr ⟨rfl, rfl⟩)
  | closingSocket =>
    rw [hp] at hs
    cases hs
    exact h.closeSocket hp
  | closingIdle =>
    rw [hp] at hs
    cases hs
    exact h.closeIdle (by rw [hp]; rfl) rfl (by rw [hp]; rfl) (by rw [hp]; rfl)
  | outside | accepting | inCallback | acceptFailed | acceptingAgain | reopening | destroyed =>
    rw [hp] at hs
    cases hs

/-! ## Runs -/

theorem inv_created (h : Created s) : Inv s := by
  obtain ⟨-, hpc, hb, ha, hf, hd, hdr, hab⟩ := h.quiet
  obtain ⟨fd, hi, hfd⟩ := h.idle
  refine ⟨hf, fun fd' u hu => ?_, ?_, ?_⟩
  · constructor
    · intro hu'
      rcases h.rest fd' u hu' with rfl | he | rfl
      · rw [h.socket] at hu'
        cases hu'
        exact ⟨by rw [hpc]; rfl, rfl⟩
      · rw [hi] at he
        cases he
        rw [hfd] at hu'
        cases hu'
        exact ⟨by rw [hpc]; rfl, hi⟩
      · cases hu
    · intro hm
      cases u with
      | listener => rw [hm.2]; exact h.socket
      | idle =>
        have he : some fd = some fd' := hi.symm.trans hm.2
        cases he
        exact hfd
      | taken c =>
        unfold Mine at hm
        rw [hpc] at hm
        cases hm
      | handed c | other => cases hu
  · simp [served, inHand, hpc, hb, ha, hd, hdr, hab, AcceptorPc.hand]
  · simp [served, inHand, hpc, hb, hd, AcceptorPc.hand]

theorem inv_step (h : Inv s) {a : Label} (hs : s.step a = some s') : Inv s' := by
  have hok : ¬ s.fault = true := by
    rw [h.noFault]
    exact nofun
  unfold Acceptor.step at hs
  rw [if_neg hok] at hs
  cases a with
  | setConnectionCallBack | listen =>
    obtain ⟨-, he⟩ := Option.ite_none_right_eq_some.mp hs
    cases he
    exact h.goOn rfl (.inl rfl) rfl
  | handleRead =>
    obtain ⟨⟨hp, -⟩, he⟩ := Option.ite_none_right_eq_some.mp hs
    cases he
    exact h.goOn (by rw [hp]; rfl) (.inl (by rw [hp]; rfl)) (by rw [hp]; rfl)
  | accept fails =>
    dsimp only at hs
    split at hs <;> cases hs
    · rename_i hp ha
      exact h.accept ha (by rw [hp]; rfl) (by rw [hp]; rfl) (by rw [hp]; rfl) rfl
    · rename_i hp ha
      exact h.goOn (by rw [hp]; rfl) (.inl (by rw [hp]; rfl)) (by rw [hp]; rfl)
    · rename_i hp ha
      exact h.accept ha (by rw [hp]; rfl) (by rw [hp]; rfl) (by rw [hp]; rfl) rfl
    · rename_i hp ha
      exact h.goOn (by rw [hp]; rfl) (.inl (by rw [hp]; rfl)) (by rw [hp]; rfl)
  | «open» fails =>
    obtain ⟨hp, he⟩ := Option.ite_none_right_eq_some.mp hs
    cases he
    exact h.reopen hp fails
  | errno e =>
    dsimp only at hs
    split at hs
    · rename_i hp
      cases hs
      split <;> exact h.goOn (by rw [hp]; rfl) (.inl (by rw [hp]; rfl)) (by rw [hp]; rfl)
    · cases hs
  | next => exact h.next hs
  | callbackReturns | destroy =>
    obtain ⟨hp, he⟩ := Option.ite_none_right_eq_some.mp hs
    cases he
    exact h.goOn (by rw [hp]; rfl) (.inl (by rw [hp]; rfl)) (by rw [hp]; rfl)
  | arrive =>
    obtain ⟨-, he⟩ := Option.ite_none_right_eq_some.mp hs
    cases he
    exact h.arrive
  | abort conn =>
    obtain ⟨hb, he⟩ := Option.ite_none_right_eq_some.mp hs
    cases he
    exact h.abort hb
  | otherOpens =>
    obtain ⟨p, ha, he⟩ := Option.map_eq_some_iff.mp hs
    cases he
    exact h.otherOpens ha
  | otherCloses fd =>
    dsimp only at hs
    split at hs
    · rename_i hu
      cases hs
      exact h.otherCloses hu rfl
    · rename_i hu
      cases hs
      exact h.otherCloses hu rfl
    · cases hs

theorem inv_reachable {ok : Acceptor → Label → Prop} (h : Reachable machine ok s) : Inv s :=
  h.invariant (I := Inv) (fun _ => inv_created) fun _ _ _ _ hi _ hs => inv_step hi hs

/-- **What an acceptor closes is its own, and no connection is lost.** Whatever the rest of the
process opens and closes between its system calls and whichever of these fail: it never closes a
descriptor that is not its own; it has open `socket_`, `idle_fd_` and the connection in hand,
each as the place in the code says, and behind the destructor nothing; and every connection that
arrived was handed to `conn_cb_`, was accepted and closed, is in hand, waits in the kernel or was
given up there, once and in one of these ways, those handed on in the order of their arrival. -/
theorem acceptor_owns_descriptors (h : Reachable machine (fun _ _ => True) s) :
    s.fault = false
    ∧ (∀ fd u, u.mine = true → (s.table[fd]? = some (some u) ↔ s.Mine fd u))
    ∧ (s.pc = .destroyed → ∀ (fd : Nat) u, s.table[fd]? = some (some u) → u.mine = false)
    ∧ (s.served ++ s.dropped ++ s.inHand ++ s.backlog ++ s.aborted).Perm (List.range s.arrivals)
    ∧ s.served.Pairwise (· < ·) := by
  have hi := inv_reachable h
  refine ⟨hi.noFault, hi.own, fun hp fd u hu => ?_, hi.conns, ?_⟩
  · cases hm : u.mine with
    | false => rfl
    | true =>
      have hown := (hi.own fd u hm).mp hu
      cases u <;> simp [Mine, hp, AcceptorPc.listens, AcceptorPc.spare, AcceptorPc.hand] at hown
  · have ho := hi.order
    rw [List.append_assoc] at ho
    exact (List.pairwise_append.mp ho).1

/-- The descriptors 0 to 2 are the socket, `idle_fd_` and another one, and one more is free. -/
def created4 : Acceptor :=
  { socket := 0, idleFd := some 1, listenning := false, hasConnCb := false, pc := .outside
    table := [some .listener, some .idle, some .other, none], backlog := [], arrivals := 0
    fault := false, delivered := [], dropped := [], aborted := [] }

theorem created4_created : Created created4 where
  socket := rfl
  idle := ⟨1, rfl, rfl⟩
  rest := by
    intro fd use h
    match fd, h with
    | 0, _ => exact .inl rfl
    | 1, _ => exact .inr (.inl rfl)
    | 2, h => cases h; exact .inr (.inr rfl)
    | 3, h => cases h
    | _ + 4, h => cases h
  quiet := ⟨rfl, rfl, rfl, rfl, rfl, rfl, rfl, rfl⟩

/-- One connection is served and one dropped for the full table, and one is left behind. -/
theorem acceptor_owns_descriptors_small : ∃ s, Reachable machine (fun _ _ => True) s
    ∧ s.pc = .destroyed ∧ s.fault = false ∧ s.table = [none, none, some .other, some (.handed 0)]
    ∧ (∀ (fd : Nat) u, s.table[fd]? = some (some u) → u.mine = false)
    ∧ ([0] ++ [1] ++ [2] : List Nat).Perm (List.range s.arrivals) := by
  have hexec : (machine.exec (fun _ _ => True) created4
      [.setConnectionCallBack, .listen, .arrive, .handleRead, .accept none, .next, .arrive,
        .callbackReturns, .handleRead, .accept none, .errno .EMFILE, .next, .accept none, .arrive,
        .next, .open false, .destroy, .next, .next]).map (fun s => decide
          (s.pc = .destroyed ∧ s.table = [none, none, some .other, some (.handed 0)]
            ∧ s.delivered = [(0, 3)] ∧ s.dropped = [1] ∧ s.backlog = [2] ∧ s.aborted = [])) =
      some true := by decide +kernel
  obtain ⟨s, hr, hp⟩ := Machine.exec_reachable (M := machine) created4_created hexec
  obtain ⟨hpc, htable, hdel, hdrop, hback, hab⟩ := of_decide_eq_true hp
  obtain ⟨hfault, -, hgone, hconns, -⟩ := acceptor_owns_descriptors hr
  have hhand : s.inHand = [] := by
    unfold inHand
    rw [hpc]
    rfl
  unfold served at hconns
  rw [hdel, hdrop, hhand, hback, hab] at hconns
  exact ⟨s, hr, hpc, hfault, htable, hgone hpc, hconns⟩

end Acceptor

end Windz
