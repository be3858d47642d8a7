import Windz.Net.ChannelLoop

/-!
# `channels_` and the kernel agree

Whether a channel is registered is kept twice, in `channels_` and in the kernel. The
invariant says that the two are the same, with the mask of each channel, so that each
`epoll_ctl` finds what it expects. And a handler that is not set is not started:
`HandleEvents` tests each of them when it comes to it, so it makes no difference who has
closed the channel, and when.
-/

namespace Windz

open Lib

namespace ChannelLoop

variable {ι : Type}

/-- The bits that a mask never has. -/
def otherBits : BitVec 32 := ~~~(EPOLLIN ||| EPOLLOUT)

/-- The invariant of a loop and its channels. -/
structure Inv (fd : ι → Int) (s : ChannelLoop ι) : Prop where
  /-- The kernel has the channels of `channels_`, each with its descriptor and its mask. -/
  registered : ∀ c d mask, s.epoll d = some (c, mask) ↔
    c ∈ s.channels ∧ d = fd c ∧ mask = (s.chan c).events
  bits : ∀ c, (s.chan c).events &&& otherBits = 0
  disabled : ∀ c, (s.chan c).disabled = true → (s.chan c).events = 0 ∧ c ∈ s.channels
  succeeded : ∀ x ∈ s.ctls, x.2.2 = true
  asserted : s.failed = false

variable {fd : ι → Int} {s s' : ChannelLoop ι}

theorem inv_init : Inv fd (create ι) where
  registered _ _ _ := ⟨nofun, fun h => absurd h.1 (Finset.notMem_empty _)⟩
  bits _ := BitVec.zero_and
  disabled _ h := absurd h Bool.false_ne_true
  succeeded _ hx := absurd hx List.not_mem_nil
  asserted := rfl

/-- The handlers started do not concern the masks, nor does the place of the loop thread. -/
theorem Inv.goto (h : Inv fd s) (pc : DispatchPc ι) (started : List (ι × HandlerKind)) :
    Inv fd { s with pc, started } :=
  ⟨h.registered, h.bits, h.disabled, h.succeeded, h.asserted⟩

/-- What a step in library code can do: start a handler that is set, or go on. -/
theorem dispatch_cases {alive : Bool} (hs : s.dispatch alive = some s') :
    (∃ pc, s' = { s with pc })
    ∨ ∃ c kind active, (s.chan c).handlers kind = true ∧ s' = { s with
        pc := .inHandler c kind active, started := s.started ++ [(c, kind)] } := by
  unfold dispatch at hs
  split at hs
  · cases hs
  · cases hs
    exact .inl ⟨_, rfl⟩
  · cases hs
    exact .inl ⟨_, rfl⟩
  · rename_i c kind active hpc
    split at hs
    · rename_i hset
      cases hs
      exact .inr ⟨c, kind, active, hset.2, rfl⟩
    · cases hs
      exact .inl ⟨_, rfl⟩
  · cases hs
    exact .inl ⟨_, rfl⟩

/-! ## `epoll_ctl` -/

/-- A channel that is not in `channels_` is not known to the kernel. -/
theorem Inv.epoll_none (hfd : Function.Injective fd) (h : Inv fd s) {c : ι} (hc : c ∉ s.channels) :
    s.epoll (fd c) = none := by
  cases he : s.epoll (fd c) with
  | none => rfl
  | some p =>
    obtain ⟨hmem, hd, -⟩ := (h.registered p.1 (fd c) p.2).mp he
    rw [hfd hd] at hc
    exact absurd hmem hc

theorem Inv.epoll_some (h : Inv fd s) {c : ι} (hc : c ∈ s.channels) :
    s.epoll (fd c) = some (c, (s.chan c).events) := (h.registered c (fd c) _).mpr ⟨hc, rfl, rfl⟩

theorem epollCtl_add {c : ι} (h : s.epoll (fd c) = none) :
    epollCtl fd s .add c = { s with
      epoll := Function.update s.epoll (fd c) (some (c, (s.chan c).events))
      ctls := s.ctls ++ [(.add, fd c, true)] } := by
  unfold epollCtl
  rw [h]

theorem epollCtl_mod {c : ι} {p : ι × BitVec 32} (h : s.epoll (fd c) = some p) :
    epollCtl fd s .mod c = { s with
      epoll := Function.update s.epoll (fd c) (some (c, (s.chan c).events))
      ctls := s.ctls ++ [(.mod, fd c, true)] } := by
  unfold epollCtl
  rw [h]

theorem epollCtl_del {c : ι} {p : ι × BitVec 32} (h : s.epoll (fd c) = some p) :
    epollCtl fd s .del c = { s with
      epoll := Function.update s.epoll (fd c) none
      ctls := s.ctls ++ [(.del, fd c, true)] } := by
  unfold epollCtl
  rw [h]

/-- `epoll_ctl` concerns the kernel alone. -/
theorem epollCtl_frame (s : ChannelLoop ι) (ctl : EpollCtl) (c : ι) :
    (epollCtl fd s ctl c).chan = s.chan ∧ (epollCtl fd s ctl c).channels = s.channels
      ∧ (epollCtl fd s ctl c).started = s.started := by
  unfold epollCtl
  dsimp only
  split <;> exact ⟨rfl, rfl, rfl⟩

variable [DecidableEq ι]

@[simp] theorem modify_chan (s : ChannelLoop ι) (c : ι) (f : LoopChannel → LoopChannel) :
    (s.modify c f).chan c = f (s.chan c) := Function.update_self ..

theorem modify_chan_of_ne (s : ChannelLoop ι) {c c' : ι} (f : LoopChannel → LoopChannel)
    (h : c' ≠ c) : (s.modify c f).chan c' = s.chan c' := Function.update_of_ne h ..

/-- `Update` adds the channel or modifies it, and is not refused. -/
theorem updateChannel_eq (hfd : Function.Injective fd) (h : Inv fd s) (c : ι)
    (f : LoopChannel → LoopChannel) :
    ∃ ctl, updateChannel fd (s.modify c f) c = { s.modify c f with
      channels := insert c s.channels
      epoll := Function.update s.epoll (fd c) (some (c, (f (s.chan c)).events))
      ctls := s.ctls ++ [(ctl, fd c, true)] } := by
  unfold updateChannel
  by_cases hc : c ∈ s.channels
  · have hhas : (s.modify c f).hasChannel c = true := decide_eq_true hc
    refine ⟨.mod, ?_⟩
    rw [if_pos hhas, epollCtl_mod (s := s.modify c f) (h.epoll_some hc),
      Finset.insert_eq_of_mem hc, modify_chan]
    rfl
  · have hhas : ¬ (s.modify c f).hasChannel c = true := fun hhas => hc (of_decide_eq_true hhas)
    refine ⟨.add, ?_⟩
    rw [if_neg hhas, addChannel, epollCtl_add (s := { s.modify c f with channels := _ })
      (h.epoll_none hfd hc), modify_chan]
    rfl

/-- `RemoveChannel` of a channel in `channels_` is not refused. -/
theorem removeChannel_eq (h : Inv fd s) {c : ι} (hc : c ∈ s.channels)
    (f : LoopChannel → LoopChannel) :
    removeChannel fd (s.modify c f) c = { s.modify c f with
      channels := s.channels.erase c
      epoll := Function.update s.epoll (fd c) none
      ctls := s.ctls ++ [(.del, fd c, true)] } := by
  rw [removeChannel, epollCtl_del (s := { s.modify c f with channels := _ }) (h.epoll_some hc)]
  rfl

theorem succeeded_append {ctls : List (EpollCtl × Int × Bool)} (h : ∀ x ∈ ctls, x.2.2 = true)
    (ctl : EpollCtl) (d : Int) : ∀ x ∈ ctls ++ [(ctl, d, true)], x.2.2 = true := by
  intro x hx
  rcases List.mem_append.mp hx with hx | hx
  · exact h x hx
  · rw [List.mem_singleton.mp hx]

/-- The kernel is given the mask of a channel. -/
theorem Inv.register (hfd : Function.Injective fd) (h : Inv fd s) {c : ι}
    {f : LoopChannel → LoopChannel} (hbits : (f (s.chan c)).events &&& otherBits = 0)
    (hdis : (f (s.chan c)).disabled = true → (f (s.chan c)).events = 0) (ctl : EpollCtl) :
    Inv fd { s.modify c f with
      channels := insert c s.channels
      epoll := Function.update s.epoll (fd c) (some (c, (f (s.chan c)).events))
      ctls := s.ctls ++ [(ctl, fd c, true)] } := by
  refine ⟨?_, ?_, ?_, succeeded_append h.succeeded ctl (fd c), h.asserted⟩
  · intro c' d mask
    show Function.update s.epoll (fd c) _ d = _ ↔
      c' ∈ insert c s.channels ∧ d = fd c' ∧ mask = ((s.modify c f).chan c').events
    by_cases hd : d = fd c
    · rw [hd, Function.update_self, Option.some.injEq, Prod.mk.injEq]
      constructor
      · rintro ⟨hc, hmask⟩
        rw [← hc, modify_chan]
        exact ⟨Finset.mem_insert_self _ _, rfl, hmask.symm⟩
      · rintro ⟨-, hc, hmask⟩
        rw [← hfd hc, modify_chan] at hmask
        exact ⟨hfd hc, hmask.symm⟩
    · rw [Function.update_of_ne hd, h.registered]
      by_cases hc : c' = c
      · rw [hc]
        exact ⟨fun hreg => absurd hreg.2.1 hd, fun hreg => absurd hreg.2.1 hd⟩
      · rw [modify_chan_of_ne s f hc, Finset.mem_insert, or_iff_right hc]
  · intro c'
    show ((s.modify c f).chan c').events &&& otherBits = 0
    by_cases hc : c' = c
    · rw [hc, modify_chan]
      exact hbits
    · rw [modify_chan_of_ne s f hc]
      exact h.bits c'
  · intro c' hdis'
    change ((s.modify c f).chan c').disabled = true at hdis'
    show ((s.modify c f).chan c').events = 0 ∧ c' ∈ insert c s.channels
    by_cases hc : c' = c
    · rw [hc, modify_chan] at hdis' ⊢
      exact ⟨hdis hdis', Finset.mem_insert_self _ _⟩
    · rw [modify_chan_of_ne s f hc] at hdis' ⊢
      obtain ⟨hevents, hmem⟩ := h.disabled c' hdis'
      exact ⟨hevents, Finset.mem_insert_of_mem hmem⟩

/-- The kernel forgets a channel, whose mask stays. -/
theorem Inv.unregister (hfd : Function.Injective fd) (h : Inv fd s) {c : ι}
    {f : LoopChannel → LoopChannel} (hevents : (f (s.chan c)).events = (s.chan c).events)
    (hdis : (f (s.chan c)).disabled = false) :
    Inv fd { s.modify c f with
      channels := s.channels.erase c
      epoll := Function.update s.epoll (fd c) none
      ctls := s.ctls ++ [(.del, fd c, true)] } := by
  refine ⟨?_, ?_, ?_, succeeded_append h.succeeded .del (fd c), h.asserted⟩
  · intro c' d mask
    show Function.update s.epoll (fd c) none d = _ ↔
      c' ∈ s.channels.erase c ∧ d = fd c' ∧ mask = ((s.modify c f).chan c').events
    by_cases hd : d = fd c
    · rw [hd, Function.update_self]
      constructor
      · intro hnone
        cases hnone
      · rintro ⟨hc', hc, -⟩
        rw [hfd hc] at hc'
        exact absurd hc' (Finset.notMem_erase _ _)
    · rw [Function.update_of_ne hd, h.registered]
      by_cases hc : c' = c
      · rw [hc]
        exact ⟨fun hreg => absurd hreg.2.1 hd, fun hreg => absurd hreg.2.1 hd⟩
      · rw [modify_chan_of_ne s f hc, Finset.mem_erase, and_iff_right hc]
  · intro c'
    show ((s.modify c f).chan c').events &&& otherBits = 0
    by_cases hc : c' = c
    · rw [hc, modify_chan, hevents]
      exact h.bits c
    · rw [modify_chan_of_ne s f hc]
      exact h.bits c'
  · intro c' hdis'
    change ((s.modify c f).chan c').disabled = true at hdis'
    show ((s.modify c f).chan c').events = 0 ∧ c' ∈ s.channels.erase c
    by_cases hc : c' = c
    · rw [hc, modify_chan, hdis] at hdis'
      cases hdis'
    · rw [modify_chan_of_ne s f hc] at hdis' ⊢
      obtain ⟨hevents, hmem⟩ := h.disabled c' hdis'
      exact ⟨hevents, Finset.mem_erase.mpr ⟨hc, hmem⟩⟩

/-! ## The calls of a channel -/

theorem or_bits {e m : BitVec 32} (he : e &&& otherBits = 0) (hm : m &&& otherBits = 0) :
    (e ||| m) &&& otherBits = 0 := by
  rw [Channel.mask_set hm, he]

theorem and_bits {e : BitVec 32} (he : e &&& otherBits = 0) (m : BitVec 32) :
    e &&& m &&& otherBits = 0 := by
  rw [BitVec.and_assoc, BitVec.and_comm m, ← BitVec.and_assoc, he]
  exact BitVec.zero_and

theorem inv_setEvents (hfd : Function.Injective fd) (h : Inv fd s) {c : ι} {events : BitVec 32}
    {disabled : Bool} (hbits : events &&& otherBits = 0) (hdis : disabled = true → events = 0) :
    Inv fd (setEvents fd s c events disabled) := by
  obtain ⟨ctl, he⟩ := updateChannel_eq hfd h c fun ch => { ch with events, disabled }
  rw [setEvents, he]
  exact h.register hfd hbits hdis ctl

/-- `Close` behind `DisableReadWrite`. -/
theorem close_eq (h : Inv fd s) {c : ι} (hdis : (s.chan c).disabled = true) :
    close fd s c = { s.modify c fun ch =>
        { ch with handlers := fun _ => false, disabled := false } with
      channels := s.channels.erase c
      epoll := Function.update s.epoll (fd c) none
      ctls := s.ctls ++ [(.del, fd c, true)] } := by
  obtain ⟨hevents, hmem⟩ := h.disabled c hdis
  rw [close, if_pos hevents, removeChannel_eq h hmem]

theorem inv_perform (hfd : Function.Injective fd) (h : Inv fd s) {c : ι} {op : ChannelOp}
    (hok : ClosesDisabled s (.op c op)) : Inv fd (perform fd s c op) := by
  have hbits := h.bits c
  cases op with
  | enableRead => exact inv_setEvents hfd h (or_bits hbits (by decide)) nofun
  | disableRead => exact inv_setEvents hfd h (and_bits hbits _) nofun
  | enableWrite => exact inv_setEvents hfd h (or_bits hbits (by decide)) nofun
  | disableWrite => exact inv_setEvents hfd h (and_bits hbits _) nofun
  | enableReadWrite => exact inv_setEvents hfd h (or_bits hbits (by decide)) nofun
  | disableReadWrite => exact inv_setEvents hfd h (and_bits hbits _) fun _ => hbits
  | close =>
    show Inv fd (close fd s c)
    rw [close_eq h hok]
    exact h.unregister hfd rfl rfl

/-! ## One step -/

/-- A change that leaves the mask of a channel alone. -/
theorem Inv.touch (h : Inv fd s) (c : ι) {f : LoopChannel → LoopChannel}
    (hevents : ∀ ch, (f ch).events = ch.events) (hdis : ∀ ch, (f ch).disabled = ch.disabled) :
    Inv fd (s.modify c f) := by
  have hsame : ∀ c', ((s.modify c f).chan c').events = (s.chan c').events
      ∧ ((s.modify c f).chan c').disabled = (s.chan c').disabled := by
    intro c'
    by_cases hc : c' = c
    · rw [hc, modify_chan]
      exact ⟨hevents _, hdis _⟩
    · rw [modify_chan_of_ne s f hc]
      exact ⟨rfl, rfl⟩
  refine ⟨fun c' d mask => ?_, fun c' => ?_, fun c' hc' => ?_, h.succeeded, h.asserted⟩
  · rw [(hsame c').1]
    exact h.registered c' d mask
  · rw [(hsame c').1]
    exact h.bits c'
  · rw [(hsame c').2] at hc'
    rw [(hsame c').1]
    exact h.disabled c' hc'

theorem inv_setRevents (h : Inv fd s) (active : List (ι × BitVec 32)) :
    Inv fd (s.setRevents active) := by
  induction active generalizing s with
  | nil => exact h
  | cons p rest ih => exact ih (h.touch p.1 (fun _ => rfl) fun _ => rfl)

/-- What a step does. -/
inductive ChannelStep (fd : ι → Int) (s : ChannelLoop ι) : Label ι → ChannelLoop ι → Prop where
  | op (c : ι) (op : ChannelOp) : ChannelStep fd s (.op c op) (perform fd s c op)
  | setHandler (c : ι) (kind : HandlerKind) :
      ChannelStep fd s (.setHandler c kind) (s.modify c fun ch =>
        { ch with handlers := Function.update ch.handlers kind true })
  | tie (c : ι) : ChannelStep fd s (.tie c) (s.modify c fun ch => { ch with tied := true })
  | loopOnce {found : List (Int × BitVec 32)} (active : List (ι × BitVec 32)) :
      ChannelStep fd s (.loopOnce found)
        { s.setRevents active with pc := .dispatching (active.map Prod.fst) }
  | goes {alive : Bool} (pc : DispatchPc ι) : ChannelStep fd s (.dispatch alive) { s with pc }
  | starts {alive : Bool} {c : ι} {kind : HandlerKind} (active : List ι)
      (hset : (s.chan c).handlers kind = true) :
      ChannelStep fd s (.dispatch alive) { s with
        pc := .inHandler c kind active, started := s.started ++ [(c, kind)] }

theorem channel_cases {a : Label ι} (hs : step fd s a = some s') : ChannelStep fd s a s' := by
  unfold step at hs
  split at hs
  · cases hs
  cases a with
  | op c op =>
    cases (Option.ite_none_right_eq_some.mp hs).2
    exact .op c op
  | setHandler c kind =>
    cases (Option.ite_none_right_eq_some.mp hs).2
    exact .setHandler c kind
  | tie c =>
    cases (Option.ite_none_right_eq_some.mp hs).2
    exact .tie c
  | loopOnce found =>
    obtain ⟨-, hs⟩ := Option.ite_none_right_eq_some.mp hs
    obtain ⟨active, -, he⟩ := Option.map_eq_some_iff.mp hs
    rw [← he]
    exact .loopOnce active
  | dispatch alive =>
    rcases dispatch_cases hs with ⟨pc, he⟩ | ⟨c, kind, active, hset, he⟩
    · rw [he]
      exact .goes pc
    · rw [he]
      exact .starts active hset

theorem inv_step (hfd : Function.Injective fd) (h : Inv fd s) {a : Label ι}
    (hok : ClosesDisabled s a) (hs : ChannelStep fd s a s') : Inv fd s' := by
  cases hs with
  | op c op => exact inv_perform hfd h hok
  | setHandler c kind => exact h.touch c (fun _ => rfl) fun _ => rfl
  | tie c => exact h.touch c (fun _ => rfl) fun _ => rfl
  | loopOnce active => exact (inv_setRevents h active).goto _ _
  | goes pc => exact h.goto pc _
  | starts active hset => exact h.goto _ _

theorem inv_reachable (hfd : Function.Injective fd)
    (h : Reachable (machine fd) ClosesDisabled s) : Inv fd s := by
  refine h.invariant ?_ fun _ _ _ _ hi hok hs => inv_step hfd hi hok (channel_cases hs)
  intro s hs
  rw [show s = create ι from hs]
  exact inv_init

/-! ## What a call does to the channels -/

theorem setEvents_frame (fd : ι → Int) (s : ChannelLoop ι) (c : ι) (events : BitVec 32)
    (disabled : Bool) :
    (setEvents fd s c events disabled).chan
        = (s.modify c fun ch => { ch with events, disabled }).chan
      ∧ (setEvents fd s c events disabled).channels = insert c s.channels
      ∧ (setEvents fd s c events disabled).started = s.started := by
  unfold setEvents updateChannel addChannel
  by_cases hc : c ∈ s.channels
  · have hhas : (s.modify c fun ch => { ch with events, disabled }).hasChannel c = true :=
      decide_eq_true hc
    rw [if_pos hhas, Finset.insert_eq_of_mem hc]
    exact epollCtl_frame _ _ _
  · have hhas : ¬ (s.modify c fun ch => { ch with events, disabled }).hasChannel c = true :=
      fun hhas => hc (of_decide_eq_true hhas)
    rw [if_neg hhas]
    exact epollCtl_frame _ _ _

theorem close_frame (fd : ι → Int) {c : ι} (hevents : (s.chan c).events = 0) :
    (close fd s c).chan = (s.modify c fun ch =>
        { ch with handlers := fun _ => false, disabled := false }).chan
      ∧ (close fd s c).channels = s.channels.erase c ∧ (close fd s c).started = s.started := by
  rw [close, if_pos hevents]
  exact epollCtl_frame _ _ _

/-- The channel `c` after its mask was set, as its owner sees it. -/
theorem setEvents_owned (s : ChannelLoop ι) (c c' : ι) (events : BitVec 32) (disabled : Bool) :
    (setEvents fd s c events disabled).owned c'
      = if c' = c then { s.owned c with events, registered := true } else s.owned c' := by
  obtain ⟨hchan, hchannels, -⟩ := setEvents_frame fd s c events disabled
  unfold owned hasChannel
  rw [hchan, hchannels]
  by_cases hc : c' = c
  · rw [if_pos hc, hc, modify_chan, decide_eq_true (Finset.mem_insert_self _ _)]
  · rw [if_neg hc, modify_chan_of_ne s _ hc]
    simp only [Finset.mem_insert, hc, false_or]

/-- **The owner of a channel sees what it does with it, and no other channel changes.** -/
theorem perform_owned (s : ChannelLoop ι) (c c' : ι) (op : ChannelOp)
    (hok : op = .close → (s.chan c).events = 0) :
    (perform fd s c op).owned c' = if c' = c then op.apply (s.owned c) else s.owned c' := by
  cases op with
  | close =>
    obtain ⟨hchan, hchannels, -⟩ := close_frame fd (hok rfl)
    show (close fd s c).owned c' = if c' = c then (s.owned c).close else s.owned c'
    unfold owned hasChannel
    rw [hchan, hchannels]
    by_cases hc : c' = c
    · rw [if_pos hc, hc, modify_chan, decide_eq_false (Finset.notMem_erase _ _)]
      rfl
    · rw [if_neg hc, modify_chan_of_ne s _ hc]
      simp only [Finset.mem_erase, ne_eq, hc, not_false_eq_true, true_and]
  | _ => exact setEvents_owned s c c' _ _

/-! ## Handlers that are not set -/

theorem setRevents_frame (active : List (ι × BitVec 32)) (c : ι) :
    ((s.setRevents active).chan c).handlers = (s.chan c).handlers
      ∧ (s.setRevents active).started = s.started := by
  induction active generalizing s with
  | nil => exact ⟨rfl, rfl⟩
  | cons p rest ih =>
    obtain ⟨hhandlers, hstarted⟩ := ih (s := s.modify p.1 fun ch => { ch with revents := p.2 })
    refine ⟨hhandlers.trans ?_, hstarted⟩
    by_cases hc : c = p.1
    · rw [hc, modify_chan]
    · rw [modify_chan_of_ne s _ hc]

/-- No call of a channel sets a handler, or starts one. -/
theorem perform_off (fd : ι → Int) (c : ι) {c' : ι} (op : ChannelOp) {kind : HandlerKind}
    (hoff : (s.chan c').handlers kind = false) :
    ((perform fd s c op).chan c').handlers kind = false
      ∧ (perform fd s c op).started = s.started := by
  have hset : ∀ events disabled, ((setEvents fd s c events disabled).chan c').handlers kind = false
      ∧ (setEvents fd s c events disabled).started = s.started := by
    intro events disabled
    obtain ⟨hchan, -, hstarted⟩ := setEvents_frame fd s c events disabled
    refine ⟨?_, hstarted⟩
    rw [hchan]
    by_cases hc : c' = c
    · rw [hc, modify_chan]
      rw [hc] at hoff
      exact hoff
    · rw [modify_chan_of_ne s _ hc]
      exact hoff
  cases op with
  | close =>
    show ((close fd s c).chan c').handlers kind = false ∧ (close fd s c).started = s.started
    by_cases hevents : (s.chan c).events = 0
    · obtain ⟨hchan, -, hstarted⟩ := close_frame fd hevents
      refine ⟨?_, hstarted⟩
      rw [hchan]
      by_cases hc : c' = c
      · rw [hc, modify_chan]
      · rw [modify_chan_of_ne s _ hc]
        exact hoff
    · rw [close, if_neg hevents]
      exact ⟨hoff, rfl⟩
  | _ => exact hset _ _

/-- **A handler that is not set is not started by a step, and stays so** unless the step sets it. -/
theorem off_step {c : ι} {kind : HandlerKind} {a : Label ι} (ha : a ≠ .setHandler c kind)
    (hoff : (s.chan c).handlers kind = false) (hs : ChannelStep fd s a s') :
    (s'.chan c).handlers kind = false ∧ s'.started.count (c, kind) = s.started.count (c, kind) := by
  cases hs with
  | op c' op =>
    obtain ⟨hoff', hstarted⟩ := perform_off fd c' op hoff
    exact ⟨hoff', by rw [hstarted]⟩
  | setHandler c' kind' =>
    refine ⟨?_, rfl⟩
    by_cases hc : c = c'
    · have hkind : kind ≠ kind' := fun hk => ha (by rw [hc, hk])
      rw [← hc, modify_chan]
      exact (Function.update_of_ne hkind _ _).trans hoff
    · rw [modify_chan_of_ne s _ hc]
      exact hoff
  | tie c' =>
    refine ⟨?_, rfl⟩
    by_cases hc : c = c'
    · rw [← hc, modify_chan]
      exact hoff
    · rw [modify_chan_of_ne s _ hc]
      exact hoff
  | loopOnce active =>
    obtain ⟨hhandlers, hstarted⟩ := setRevents_frame (s := s) active c
    refine ⟨?_, by rw [← hstarted]⟩
    show ((s.setRevents active).chan c).handlers kind = false
    rw [hhandlers]
    exact hoff
  | goes pc => exact ⟨hoff, rfl⟩
  | @starts alive c' kind' active hset =>
    refine ⟨hoff, ?_⟩
    have hne : (c', kind') ≠ (c, kind) := by
      intro he
      obtain ⟨hc, hk⟩ := Prod.mk.inj he
      rw [hc, hk, hoff] at hset
      cases hset
    show (s.started ++ [(c', kind')]).count (c, kind) = _
    rw [List.count_append, List.count_singleton, beq_false_of_ne hne]
    rfl

/-- Over a run that does not set it. -/
theorem off_run {ok : ChannelLoop ι → Label ι → Prop} {c : ι} {kind : HandlerKind}
    {as : List (Label ι)} (h : Run (machine fd) ok s as s')
    (hoff : (s.chan c).handlers kind = false) (hnone : .setHandler c kind ∉ as) :
    (s'.chan c).handlers kind = false ∧ s'.started.count (c, kind) = s.started.count (c, kind) := by
  induction h with
  | nil => exact ⟨hoff, rfl⟩
  | tail hr _ hs ih =>
    obtain ⟨hoff', hcount⟩ := ih fun hmem => hnone (List.mem_append_left _ hmem)
    obtain ⟨hoff'', hcount'⟩ := off_step
      (fun ha => hnone (List.mem_append_right _ (List.mem_singleton.mpr ha.symm))) hoff'
      (channel_cases hs)
    exact ⟨hoff'', hcount'.trans hcount⟩

/-- **`channels_` is what the kernel has, and a closed channel is silent.** For any number of
channels with descriptors of their own, and every order of the calls that the loop thread makes,
each `Close` behind a `DisableReadWrite`: the kernel has exactly the channels of `channels_`, each
with its descriptor and the mask `events_`; every `ADD` found its descriptor unregistered and every
`MOD` and `DEL` found it registered; the assertion of `Close` holds; and after a `Close`, whoever
calls it and whatever events are still to be handled, no handler of the channel is started that is
not set anew. -/
theorem channels_match_epoll (hfd : Function.Injective fd)
    (h : Reachable (machine fd) ClosesDisabled s) :
    (∀ c d mask, s.epoll d = some (c, mask) ↔
        c ∈ s.channels ∧ d = fd c ∧ mask = (s.chan c).events)
    ∧ (∀ x ∈ s.ctls, x.2.2 = true)
    ∧ s.failed = false
    ∧ ∀ c s₁ as s' kind, ClosesDisabled s (.op c .close) → step fd s (.op c .close) = some s₁ →
        Run (machine fd) (fun _ _ => True) s₁ as s' → .setHandler c kind ∉ as →
        s'.started.count (c, kind) = s.started.count (c, kind) := by
  have hi := inv_reachable hfd h
  refine ⟨hi.registered, hi.succeeded, hi.asserted, ?_⟩
  intro c s₁ as s' kind hok hs hr hnone
  have he : s₁ = close fd s c := by
    cases channel_cases hs with
    | op c op => rfl
  have hclosed : (s₁.chan c).handlers kind = false ∧ s₁.started = s.started := by
    obtain ⟨hchan, -, hstarted⟩ := close_frame fd (hi.disabled c hok).1
    rw [he, hchan, modify_chan]
    exact ⟨rfl, hstarted⟩
  rw [(off_run hr hclosed.1 hnone).2, hclosed.2]

instance (s : ChannelLoop ι) (a : Label ι) : Decidable (ClosesDisabled s a) :=
  match a with
  | .op c .close => inferInstanceAs (Decidable ((s.chan c).disabled = true))
  | .op _ .enableRead | .op _ .disableRead | .op _ .enableWrite | .op _ .disableWrite
  | .op _ .enableReadWrite | .op _ .disableReadWrite | .setHandler _ _ | .tie _ | .loopOnce _
  | .dispatch _ => isTrue trivial

/-- Two channels are active. The first one's read handler closes both, so that neither its own write
handler nor the other channel's read handler is started. -/
theorem channels_match_epoll_small : ∃ s s₁ s' as,
    Reachable (machine (fun c : Nat => (c : Int) + 5)) ClosesDisabled s
    ∧ step (fun c : Nat => (c : Int) + 5) s (.op 1 .close) = some s₁
    ∧ Run (machine (fun c : Nat => (c : Int) + 5)) (fun _ _ => True) s₁ as s'
    ∧ s.pc = .inHandler 0 .read [1] ∧ s.channels = {1} ∧ s'.pc = .idle ∧ s'.channels = ∅
    ∧ s'.started = [(0, .read)] ∧ s.epoll 6 = some (1, (s.chan 1).events)
    ∧ s'.started.count (1, .read) = s.started.count (1, .read) := by
  have hfd : Function.Injective fun c : Nat => (c : Int) + 5 := by
    intro a b h
    dsimp only at h
    omega
  have hexec : ((machine (fun c : Nat => (c : Int) + 5)).exec ClosesDisabled (create Nat)
      [.setHandler 0 .read, .setHandler 0 .write, .op 0 .enableReadWrite, .setHandler 1 .read,
        .op 1 .enableRead, .loopOnce [(5, EPOLLIN ||| EPOLLOUT), (6, EPOLLIN)], .dispatch true,
        .dispatch true, .dispatch true, .op 0 .disableReadWrite, .op 0 .close,
        .op 1 .disableReadWrite]).bind (fun s =>
      (step (fun c : Nat => (c : Int) + 5) s (.op 1 .close)).bind fun s₁ =>
      ((machine (fun c : Nat => (c : Int) + 5)).exec (fun _ _ => True) s₁
        [.dispatch true, .dispatch true, .dispatch true, .dispatch true, .dispatch true,
          .dispatch true, .dispatch true]).map fun s' =>
        decide (s.pc = .inHandler 0 .read [1] ∧ s.channels = {1} ∧ (s.chan 1).disabled = true
          ∧ s'.pc = .idle ∧ s'.channels = ∅ ∧ s'.started = [(0, .read)])) = some true := by
    decide +kernel
  obtain ⟨s, hs, hrest⟩ := Option.bind_eq_some_iff.mp hexec
  obtain ⟨s₁, hclose, hrest⟩ := Option.bind_eq_some_iff.mp hrest
  obtain ⟨s', hs', hp⟩ := Option.map_eq_some_iff.mp hrest
  obtain ⟨hpc, hchannels, hdis, hpc', hchannels', hstarted⟩ := of_decide_eq_true hp
  have hreach : Reachable (machine fun c : Nat => (c : Int) + 5) ClosesDisabled s :=
    (Reachable.init rfl).run (Machine.exec_run _ hs)
  have hrun := Machine.exec_run _ hs'
  obtain ⟨hmatch, -, -, hsilent⟩ := channels_match_epoll hfd hreach
  have hmem : 1 ∈ s.channels := by
    rw [hchannels]
    exact Finset.mem_singleton_self 1
  exact ⟨s, s₁, s', _, hreach, hclose, hrun, hpc, hchannels, hpc', hchannels', hstarted,
    (hmatch 1 6 _).mpr ⟨hmem, rfl, rfl⟩, hsilent 1 s₁ _ s' .read hdis hclose hrun (by decide)⟩

end ChannelLoop

end Windz
