import Mathlib.Data.Finset.Max
import Windz.Net.ChannelLoopProof

/-!
# `~EventLoop`

A loop that is destroyed disables and closes the first channel of `channels_`, which is a
`std::set` of pointers, until there is none. Each round takes one out and puts none in, so
the loop ends; and as a `DisableReadWrite` is right in front of each `Close`, the rounds are
steps that the loop may take anyway, and what holds of its channels goes on holding.
-/

namespace Windz

open Lib

namespace ChannelLoop

variable {ι : Type}

/-- The loop of `~EventLoop`, as far as `n` passes of its test go. -/
def destroyLoop [LinearOrder ι] (fd : ι → Int) : Nat → ChannelLoop ι → Option (ChannelLoop ι)
  | 0, _ => none
  | n + 1, s =>
      if h : s.channels.Nonempty then
        let ch := s.channels.min' h
        let s := close fd (disableReadWrite fd s ch) ch
        -- `assert(events_ == 0)`
        if s.failed then none else destroyLoop fd n s
      else some s

variable {fd : ι → Int} {s s' : ChannelLoop ι} {c : ι}

/-! ## One round -/

section Round

variable [DecidableEq ι]

/-- `DisableReadWrite` of a channel in `channels_`. -/
theorem disableReadWrite_eq (h : Inv fd s) (hc : c ∈ s.channels) :
    disableReadWrite fd s c = { s with
      chan := Function.update s.chan c { s.chan c with events := 0, disabled := true }
      epoll := Function.update s.epoll (fd c) (some (c, 0))
      ctls := s.ctls ++ [(.mod, fd c, true)] } := by
  have hbits : (s.chan c).events &&& ~~~(EPOLLIN ||| EPOLLOUT) = 0 := h.bits c
  unfold disableReadWrite setEvents updateChannel
  rw [hbits]
  have hhas : (s.modify c fun ch => { ch with events := 0, disabled := true }).hasChannel c
      = true := decide_eq_true hc
  rw [if_pos hhas, epollCtl_mod (s := s.modify c _) (h.epoll_some hc), modify_chan]
  rfl

/-- What a round makes of the loop. -/
def closed (fd : ι → Int) (s : ChannelLoop ι) (c : ι) : ChannelLoop ι :=
  { s with
    chan := Function.update s.chan c
      { s.chan c with events := 0, handlers := fun _ => false, disabled := false }
    channels := s.channels.erase c
    epoll := Function.update s.epoll (fd c) none
    ctls := s.ctls ++ [(.mod, fd c, true), (.del, fd c, true)] }

theorem closed_chan (fd : ι → Int) (s : ChannelLoop ι) (c : ι) : (closed fd s c).chan c
    = { s.chan c with events := 0, handlers := fun _ => false, disabled := false } :=
  Function.update_self ..

theorem closed_chan_of_ne {c' : ι} (hne : c' ≠ c) : (closed fd s c).chan c' = s.chan c' :=
  Function.update_of_ne hne ..

theorem inv_disableReadWrite (hfd : Function.Injective fd) (h : Inv fd s) (c : ι) :
    Inv fd (disableReadWrite fd s c) := by
  have hok : ClosesDisabled s (.op c .disableReadWrite) := trivial
  exact inv_perform hfd h hok

theorem round_eq (hfd : Function.Injective fd) (h : Inv fd s) (hc : c ∈ s.channels) :
    close fd (disableReadWrite fd s c) c = closed fd s c := by
  have he := disableReadWrite_eq h hc
  have hdis : ((disableReadWrite fd s c).chan c).disabled = true := by
    rw [he]
    dsimp only
    rw [Function.update_self]
  rw [close_eq (inv_disableReadWrite hfd h c) hdis, he]
  unfold closed modify
  dsimp only
  rw [Function.update_self, Function.update_idem, Function.update_idem, List.append_assoc]
  rfl

/-- To its owner, the channel of a round has been disabled and closed. -/
theorem closed_owned (hfd : Function.Injective fd) (h : Inv fd s) (hc : c ∈ s.channels) (c' : ι) :
    (closed fd s c).owned c'
      = if c' = c then (s.owned c).disableReadWrite.close else s.owned c' := by
  have hzero : ((disableReadWrite fd s c).chan c).events = 0 := by
    rw [disableReadWrite_eq h hc]
    dsimp only
    rw [Function.update_self]
  have hdisable : ∀ c', (disableReadWrite fd s c).owned c'
      = if c' = c then (s.owned c).disableReadWrite else s.owned c' :=
    fun c' => perform_owned s c c' .disableReadWrite fun he => absurd he (by simp)
  have hclose : (close fd (disableReadWrite fd s c) c).owned c'
      = if c' = c then ((disableReadWrite fd s c).owned c).close
        else (disableReadWrite fd s c).owned c' :=
    perform_owned (disableReadWrite fd s c) c c' .close fun _ => hzero
  rw [← round_eq hfd h hc]
  refine hclose.trans ?_
  by_cases hcc : c' = c
  · rw [if_pos hcc, if_pos hcc]
    exact congrArg Channel.close ((hdisable c).trans (if_pos rfl))
  · rw [if_neg hcc, if_neg hcc]
    exact (hdisable c').trans (if_neg hcc)

/-- **A round is a run of the loop.** -/
theorem round_reachable (hfd : Function.Injective fd)
    (h : Reachable (machine fd) ClosesDisabled s) (hidle : s.pc = .idle) (hc : c ∈ s.channels) :
    Reachable (machine fd) ClosesDisabled (closed fd s c) := by
  have hi := inv_reachable hfd h
  have he := disableReadWrite_eq hi hc
  have hstep : ∀ (u : ChannelLoop ι) (op : ChannelOp), u.failed = false → u.pc = .idle →
      step fd u (.op c op) = some (perform fd u c op) := by
    intro u op hf hpc
    unfold step userCode
    rw [hf, hpc]
    rfl
  have hdisable : Reachable (machine fd) ClosesDisabled (disableReadWrite fd s c) :=
    .tail h (a := .op c .disableReadWrite) trivial (hstep s .disableReadWrite hi.asserted hidle)
  rw [← round_eq hfd hi hc]
  refine .tail hdisable (a := .op c .close) ?_ (hstep _ .close ?_ ?_)
  · show ((disableReadWrite fd s c).chan c).disabled = true
    rw [he]
    dsimp only
    rw [Function.update_self]
  · rw [he]
    exact hi.asserted
  · rw [he]
    exact hidle

end Round

/-! ## All rounds -/

/-- The kernel has what `channels_` has. -/
theorem Inv.epoll_empty (h : Inv fd s) (hempty : s.channels = ∅) (d : Int) : s.epoll d = none := by
  cases he : s.epoll d with
  | none => rfl
  | some p =>
    obtain ⟨hc, -⟩ := (h.registered p.1 d p.2).mp he
    rw [hempty] at hc
    exact absurd hc (Finset.notMem_empty _)

/-- The calls of `epoll_ctl` in a round. -/
def roundCtls (fd : ι → Int) (c : ι) : List (EpollCtl × Int × Bool) :=
  [(.mod, fd c, true), (.del, fd c, true)]

/-- What is left of a loop whose channels were those of `cs`. -/
structure Destroyed [DecidableEq ι] (fd : ι → Int) (s : ChannelLoop ι) (cs : List ι)
    (s' : ChannelLoop ι) : Prop where
  channels : s'.channels = ∅
  ctls : s'.ctls = s.ctls ++ cs.flatMap (roundCtls fd)
  cleared : ∀ c ∈ cs, (s'.chan c).events = 0 ∧ ∀ kind, (s'.chan c).handlers kind = false
  /-- To its owner, such a channel has been disabled and closed. -/
  seen : ∀ c ∈ cs, s'.owned c = (s.owned c).disableReadWrite.close
  others : ∀ c, c ∉ cs → s'.chan c = s.chan c
  started : s'.started = s.started
  idle : s'.pc = .idle

theorem Destroyed.nil [DecidableEq ι] (hempty : s.channels = ∅) (hidle : s.pc = .idle) :
    Destroyed fd s [] s where
  channels := hempty
  ctls := (List.append_nil _).symm
  cleared _ hc := absurd hc List.not_mem_nil
  seen _ hc := absurd hc List.not_mem_nil
  others _ _ := rfl
  started := rfl
  idle := hidle

theorem Destroyed.cons [DecidableEq ι] {cs : List ι} (hfd : Function.Injective fd)
    (hinv : Inv fd s) (hmem : c ∈ s.channels) (hc : c ∉ cs)
    (h : Destroyed fd (closed fd s c) cs s') : Destroyed fd s (c :: cs) s' where
  channels := h.channels
  ctls := by
    rw [h.ctls, List.flatMap_cons, ← List.append_assoc]
    rfl
  cleared c' hc' := by
    rcases List.mem_cons.mp hc' with he | hmem
    · rw [he, h.others c hc, closed_chan]
      exact ⟨rfl, fun _ => rfl⟩
    · exact h.cleared c' hmem
  seen c' hc' := by
    have hsame := closed_owned hfd hinv hmem c'
    rcases List.mem_cons.mp hc' with he | hmem'
    · -- out of `channels_` it stays as the round left it
      rw [he, if_pos rfl] at hsame
      rw [he, ← hsame]
      unfold owned hasChannel
      rw [h.others c hc, h.channels, decide_eq_false (Finset.notMem_empty c)]
      exact congrArg (Channel.mk _ · _) (decide_eq_false (Finset.notMem_erase c s.channels)).symm
    · rw [if_neg (by rintro rfl; exact hc hmem')] at hsame
      rw [h.seen c' hmem', hsame]
  others c' hc' := by
    rw [h.others c' fun hmem => hc' (List.mem_cons_of_mem c hmem)]
    refine closed_chan_of_ne fun he => hc' ?_
    rw [he]
    exact List.mem_cons_self
  started := h.started
  idle := h.idle

/-- **A loop that is destroyed takes out all its channels.** Whatever was done with them before,
each `Close` behind a `DisableReadWrite`: `~EventLoop` goes through its loop once for each channel
of `channels_`, in order, and each time its `MOD` and its `DEL` succeed and no assertion fails; in
the end the kernel has no descriptor of any channel, no channel that was there has a handler, its
owner finding it disabled and closed, and no handler has been started meanwhile. -/
theorem destructor_closes_channels {ι : Type} [LinearOrder ι] {fd : ι → Int} {s : ChannelLoop ι}
    (hfd : Function.Injective fd) (h : Reachable (machine fd) ClosesDisabled s)
    (hidle : s.pc = .idle) (n : Nat) (hn : s.channels.card < n) :
    ∃ s' cs, destroyLoop fd n s = some s' ∧ Reachable (machine fd) ClosesDisabled s'
      ∧ cs.Pairwise (· < ·) ∧ (∀ c, c ∈ cs ↔ c ∈ s.channels) ∧ (∀ d, s'.epoll d = none)
      ∧ Destroyed fd s cs s' := by
  induction n generalizing s with
  | zero => exact absurd hn (Nat.not_lt_zero _)
  | succ n ih =>
    unfold destroyLoop
    by_cases hne : s.channels.Nonempty
    · have hmem : s.channels.min' hne ∈ s.channels := s.channels.min'_mem hne
      have hreach := round_reachable hfd h hidle hmem
      have hcard : (closed fd s (s.channels.min' hne)).channels.card < n := by
        show (s.channels.erase _).card < n
        rw [Finset.card_erase_of_mem hmem]
        have hpos := Finset.card_pos.mpr hne
        omega
      obtain ⟨s', cs, hs', hreach', hsorted, hcs, hepoll, hdestroyed⟩ := ih hreach hidle hcard
      have hrest : ∀ c, c ∈ cs ↔ c ∈ s.channels.erase (s.channels.min' hne) := hcs
      have hnot : s.channels.min' hne ∉ cs := fun hc =>
        Finset.notMem_erase _ _ ((hrest _).mp hc)
      refine ⟨s', s.channels.min' hne :: cs, ?_, hreach', ?_, fun c => ?_, hepoll,
        hdestroyed.cons hfd (inv_reachable hfd h) hmem hnot⟩
      · have hasserted : (closed fd s (s.channels.min' hne)).failed = false :=
          (inv_reachable hfd h).asserted
        rw [dif_pos hne]
        dsimp only
        rw [round_eq hfd (inv_reachable hfd h) hmem, hasserted, if_neg Bool.false_ne_true]
        exact hs'
      · refine List.pairwise_cons.mpr ⟨fun c hc => ?_, hsorted⟩
        exact s.channels.min'_lt_of_mem_erase_min' hne ((hrest c).mp hc)
      · rw [List.mem_cons, hrest, Finset.mem_erase]
        constructor
        · rintro (rfl | ⟨-, hc⟩)
          · exact hmem
          · exact hc
        · intro hc
          by_cases he : c = s.channels.min' hne
          · exact .inl he
          · exact .inr ⟨he, hc⟩
    · have hempty : s.channels = ∅ := Finset.not_nonempty_iff_eq_empty.mp hne
      rw [dif_neg hne]
      refine ⟨s, [], rfl, h, List.Pairwise.nil, fun c => ?_,
        (inv_reachable hfd h).epoll_empty hempty, .nil hempty hidle⟩
      rw [hempty]
      exact ⟨fun hc => absurd hc List.not_mem_nil, fun hc => absurd hc (Finset.notMem_empty c)⟩

/-- Two channels, of which one has run its read handler. -/
theorem destructor_closes_channels_small : ∃ s s' : ChannelLoop Nat, ∃ cs,
    destroyLoop (fun c : Nat => (c : Int) + 5) 3 s = some s' ∧ (∀ d, s'.epoll d = none)
    ∧ Destroyed (fun c : Nat => (c : Int) + 5) s cs s' ∧ s.channels = {0, 1} := by
  have hfd : Function.Injective fun c : Nat => (c : Int) + 5 := by
    intro a b h
    dsimp only at h
    omega
  have hexec : ((machine (fun c : Nat => (c : Int) + 5)).exec ClosesDisabled (create Nat)
      [.setHandler 0 .read, .op 0 .enableReadWrite, .setHandler 1 .read, .op 1 .enableRead,
        .loopOnce [(5, EPOLLIN)], .dispatch true, .dispatch true, .dispatch true, .dispatch true,
        .dispatch true, .dispatch true]).map
        (fun s => decide (s.pc = .idle ∧ s.channels = {0, 1})) = some true := by decide +kernel
  obtain ⟨s, hr, hp⟩ := Machine.exec_reachable rfl hexec
  obtain ⟨hidle, hchannels⟩ := of_decide_eq_true hp
  have hcard : s.channels.card < 3 := by
    rw [hchannels]
    decide
  obtain ⟨s', cs, hs', -, -, -, hepoll, hdestroyed⟩ :=
    destructor_closes_channels hfd hr hidle 3 hcard
  exact ⟨s, s', cs, hs', hepoll, hdestroyed, hchannels⟩

end ChannelLoop

end Windz
