import Windz.Net.Sender

/-!
# The stream of a connection

A step leaves the stream as it is, unless a `SendInLoop` goes past its test of
`state_`, which puts the message behind everything but what the calls under it have
still to buffer, or a write fails for good.

From this, two results. When no `SendInLoop` begins inside another, the stream is
the messages of the calls that were kept, in the order in which they ran. When they
may, the stream restricted to one kept call is still that call's message.
-/

namespace Windz

namespace Sender

open ConnWorld (Label)

/-- A write that failed for good. -/
def Loses (a : Label) : Prop := a = .run (.write .pipe) ∨ a = .run (.write .connReset)

instance (a : Label) : Decidable (Loses a) := inferInstanceAs (Decidable (_ ∨ _))

/-- What a step does to the stream. -/
inductive StreamStep (v : Sender) (a : Label) (v' : Sender) : Prop where
  | same (hs : v'.stream = v.stream)
      (hr : v'.ran = v.ran ∨ ∃ call, v'.ran = v.ran ++ [(call, false)])
  | kept {call : SendCall} {rest : List Sending} (h : v.sending = .entered call :: rest)
      (hs : v'.stream = v.accepted ++ v.buffered ++ call.bytes ++ rest.flatMap Sending.rest)
      (hr : v'.ran = v.ran ++ [(call, true)])
  | lost (h : Loses a)

theorem stream_top {v : Sender} {s : Sending} {rest : List Sending} (h : v.sending = s :: rest) :
    v.stream = v.accepted ++ v.buffered ++ (s.rest ++ rest.flatMap Sending.rest) := by
  unfold stream
  rw [h, List.flatMap_cons]

/-- **What a step does to the stream.** -/
theorem stream_step {v v' : Sender} {a : Label} (hi : v.Inv) (h : v.Step a v') :
    StreamStep v a v' := by
  cases h with
  | quiet => exact .same rfl (.inl rfl)
  | call hb => exact .same rfl (.inl rfl)
  | threadCall ht htest => exact .same rfl (.inl rfl)
  | push hp => exact .same rfl (.inl rfl)
  | take hq hs =>
    refine .same ?_ (.inl rfl)
    rw [stream_top rfl, stream, hs]
    rfl
  | discard h =>
    refine .same ?_ (.inr ⟨_, rfl⟩)
    rw [stream_top h]
    rfl
  | direct h hb =>
    refine .kept h ?_ rfl
    rw [stream_top rfl]
    simp [Sending.rest]
  | queue h hne =>
    refine .kept h ?_ rfl
    rw [stream_top rfl]
    simp [Sending.rest]
  | queueEmpty h hnil =>
    refine .kept h ?_ rfl
    rw [hnil, List.append_nil]
    rfl
  | wrote h hd hne =>
    refine .same ?_ (.inl rfl)
    rw [stream_top h, stream_top rfl]
    simp [Sending.rest, hi.direct _ _ h, hd]
  | wroteAll h =>
    refine .same ?_ (.inl rfl)
    rw [stream_top h]
    simp [stream, finish, Sending.rest, hi.direct _ _ h]
  | lost h hr =>
    refine .lost ?_
    rcases hr with hr | hr
    · rw [hr]; exact .inl rfl
    · rw [hr]; exact .inr rfl
  | buffer h =>
    refine .same ?_ (.inl rfl)
    rw [stream_top h]
    simp [stream, finish, Sending.rest]
  | @wroteSome n hne =>
    refine .same ?_ (.inl rfl)
    unfold stream
    dsimp only
    rw [List.append_assoc v.accepted, List.take_append_drop]
  | drained =>
    refine .same ?_ (.inl rfl)
    unfold stream
    dsimp only
    rw [List.append_nil]
  | destroyed => exact .same rfl (.inl rfl)

/-! ## One `SendInLoop` at a time -/

/-- The bytes of the calls that were kept. -/
def kept (v : Sender) : List OutByte := (v.ran.filter Prod.snd).flatMap (·.1.bytes)

/-- No `SendInLoop` is inside another, and the stream is what was kept. -/
structure InOrder (v : Sender) : Prop where
  alone : v.sending.tail = []
  stream : v.stream = v.kept

/-- A step that begins no `SendInLoop` inside another, and loses nothing. -/
def Plain (v : Sender) (a : Label) : Prop :=
  (∀ message, a = .run (.call (.send message)) → v.sending = []) ∧ ¬ Loses a

theorem alone_step {v v' : Sender} {a : Label} (ha : v.sending.tail = []) (hok : Plain v a)
    (h : v.Step a v') : v'.sending.tail = [] := by
  have hrest : ∀ {s : Sending} {rest : List Sending}, v.sending = s :: rest → rest = [] := by
    intro s rest h
    rw [h] at ha
    exact ha
  have hpop : ∀ {s : Sending} {rest : List Sending}, v.sending = s :: rest → rest.tail = [] := by
    intro s rest h
    rw [hrest h]
    rfl
  cases h with
  | call hb => exact hok.1 _ rfl
  | take hq hs => rfl
  | discard h => exact hpop h
  | direct h hb => exact hrest h
  | queue h hne => exact hrest h
  | queueEmpty h hnil => exact hpop h
  | wrote h hd hne => exact hrest h
  | wroteAll h => exact hpop h
  | lost h hr => exact hpop h
  | buffer h => exact hpop h
  | _ => exact ha

theorem kept_ran {v v' : Sender} {call : SendCall} {b : Bool}
    (hr : v'.ran = v.ran ++ [(call, b)]) :
    v'.kept = v.kept ++ if b then call.bytes else [] := by
  unfold kept
  rw [hr]
  cases b <;> simp

/-- **Messages in order.** -/
theorem InOrder.step {v v' : Sender} {a : Label} (hi : v.Inv) (ho : v.InOrder)
    (hok : Plain v a) (h : v.Step a v') : v'.InOrder := by
  refine ⟨alone_step ho.alone hok h, ?_⟩
  cases stream_step hi h with
  | same hs hr =>
    rw [hs, ho.stream]
    rcases hr with hr | ⟨call, hr⟩
    · rw [kept, kept, hr]
    · rw [kept_ran hr]
      exact (List.append_nil _).symm
  | @kept call rest htop hs hr =>
    have hrest : rest = [] := by
      have ha := ho.alone
      rw [htop] at ha
      exact ha
    have hstream := ho.stream
    rw [stream_top htop] at hstream
    rw [hs, kept_ran hr, if_pos rfl, ← hstream, hrest]
    simp [Sending.rest]
  | lost hl => exact absurd hl hok.2

/-! ## One message at a time -/

/-- The bytes of call `i`. -/
def ofCall (i : Nat) (bs : List OutByte) : List OutByte := bs.filter (·.call = i)

theorem ofCall_append (i : Nat) (bs bs' : List OutByte) :
    ofCall i (bs ++ bs') = ofCall i bs ++ ofCall i bs' := List.filter_append _ _

theorem ofCall_self (call : SendCall) : ofCall call.id call.bytes = call.bytes := by
  refine List.filter_eq_self.mpr fun b hb => ?_
  obtain ⟨byte, _, he⟩ := List.mem_map.mp hb
  rw [← he, decide_eq_true_eq]

theorem ofCall_bytes {i : Nat} {call : SendCall} (hi : call.id ≠ i) : ofCall i call.bytes = [] := by
  refine List.filter_eq_nil_iff.mpr fun b hb => ?_
  obtain ⟨byte, _, he⟩ := List.mem_map.mp hb
  rw [← he, decide_eq_true_eq]
  exact hi

/-- The stream holds the message of each call kept, and of no other. -/
structure Whole (v : Sender) : Prop where
  whole : ∀ call, (call, true) ∈ v.ran → ofCall call.id v.stream = call.bytes
  none : ∀ i, (∀ call ∈ v.ranCalls, call.id ≠ i) → ofCall i v.stream = []

theorem Inv.ids_nodup {v : Sender} (hi : v.Inv) : (v.calls.map SendCall.id).Nodup := by
  rw [hi.ids]
  exact List.nodup_range

theorem Inv.mem_calls {v : Sender} (hi : v.Inv) {call : SendCall}
    (h : call ∈ v.ranCalls ∨ call ∈ v.waiting call.thread) : call ∈ v.calls := by
  have hfilter : call ∈ v.calls.filter (·.thread = call.thread) := by
    rw [hi.order, List.mem_append]
    exact h.imp_left fun h => List.mem_filter.mpr ⟨h, decide_eq_true rfl⟩
  exact (List.mem_filter.mp hfilter).1

/-- A call that waits has a number that no call that ran has. -/
theorem Inv.fresh {v : Sender} (hi : v.Inv) {call : SendCall}
    (hw : call ∈ v.waiting call.thread) : ∀ call' ∈ v.ranCalls, call'.id ≠ call.id := by
  intro call' hr hid
  have he : call' = call :=
    List.inj_on_of_nodup_map hi.ids_nodup (hi.mem_calls (.inl hr)) (hi.mem_calls (.inr hw)) hid
  have hnodup : (v.calls.filter (·.thread = call.thread)).Nodup := hi.ids_nodup.of_map.filter _
  rw [hi.order] at hnodup
  refine (List.nodup_append.mp hnodup).2.2 call ?_ call hw rfl
  rw [← he]
  exact List.mem_filter.mpr ⟨hr, decide_eq_true rfl⟩

theorem Inv.fresh_top {v : Sender} (hi : v.Inv) {call : SendCall} {rest : List Sending}
    (h : v.sending = .entered call :: rest) : ∀ call' ∈ v.ranCalls, call'.id ≠ call.id := by
  refine hi.fresh ?_
  unfold waiting
  rw [h, toRun_entered]
  refine List.mem_append_left _ (List.mem_filter.mpr ⟨?_, decide_eq_true rfl⟩)
  exact List.mem_append_left _ List.mem_cons_self

/-- The calls under the one on top have nothing of it to buffer. -/
theorem Inv.rest_ofCall {v : Sender} (hi : v.Inv) {call : SendCall} {rest : List Sending}
    (h : v.sending = .entered call :: rest) :
    ofCall call.id (rest.flatMap Sending.rest) = [] := by
  refine List.filter_eq_nil_iff.mpr fun b hb => ?_
  obtain ⟨s, hs, hbs⟩ := List.mem_flatMap.mp hb
  have hbuffers := hi.rest h s hs
  cases s with
  | buffering call' remain =>
    obtain ⟨_, hran, hown⟩ :=
      hi.own _ (by rw [h]; exact List.mem_cons_of_mem _ hs) call' remain rfl
    rw [decide_eq_true_eq, hown b hbs]
    exact hi.fresh_top h call' (mem_ranCalls hran)
  | entered call' => exact hbuffers.elim
  | writing call' => exact hbuffers.elim

/-- **Each message is whole.** -/
theorem Whole.step {v v' : Sender} {a : Label} (hi : v.Inv) (hw : v.Whole) (hok : ¬ Loses a)
    (h : v.Step a v') : v'.Whole := by
  cases stream_step hi h with
  | same hs hr =>
    have hran : ∀ call, (call, true) ∈ v'.ran → (call, true) ∈ v.ran := by
      intro call hc
      rcases hr with hr | ⟨call', hr⟩
      · rw [hr] at hc
        exact hc
      · rw [hr] at hc
        simpa using hc
    have hranCalls : ∀ call ∈ v.ranCalls, call ∈ v'.ranCalls := by
      intro call hc
      rcases hr with hr | ⟨call', hr⟩
      · rw [ranCalls, hr]
        exact hc
      · rw [ranCalls, hr, List.map_append]
        exact List.mem_append_left _ hc
    refine ⟨fun call hc => ?_, fun i hn => ?_⟩
    · rw [hs]
      exact hw.whole call (hran call hc)
    · rw [hs]
      exact hw.none i fun call hc => hn call (hranCalls call hc)
  | @kept call₀ rest htop hs hr =>
    have hfresh := hi.fresh_top htop
    -- for a call, what the step adds to its part of the stream
    have hadd : ∀ i, call₀.id ≠ i → ofCall i v'.stream = ofCall i v.stream := by
      intro i hne
      rw [hs, stream_top htop]
      simp only [ofCall_append, ofCall_bytes hne, Sending.rest, List.append_nil, List.nil_append]
    refine ⟨fun call hc => ?_, fun i hn => ?_⟩
    · rw [hr] at hc
      rcases List.mem_append.mp hc with hc | hc
      · rw [hadd _ (hfresh call (mem_ranCalls hc)).symm]
        exact hw.whole call hc
      · have he : call = call₀ := by simpa using hc
        have hnone := hw.none call₀.id hfresh
        rw [stream_top htop, ofCall_append, List.append_eq_nil_iff] at hnone
        rw [he, hs, ofCall_append, ofCall_append, hnone.1, hi.rest_ofCall htop, ofCall_self,
          List.nil_append, List.append_nil]
    · have hran : v'.ranCalls = v.ranCalls ++ [call₀] := by
        rw [ranCalls, hr, List.map_append]
        rfl
      rw [hran] at hn
      rw [hadd i (hn call₀ (List.mem_append_right _ List.mem_cons_self))]
      exact hw.none i fun call hc => hn call (List.mem_append_left _ hc)
  | lost hl => exact absurd hl hok

theorem ofCall_id {v : Sender} (hi : v.Inv) {call call' : SendCall} (hc : call ∈ v.ranCalls)
    (hc' : call' ∈ v.ranCalls) (hid : call'.id = call.id) : call' = call := by
  exact List.inj_on_of_nodup_map hi.ids_nodup (hi.mem_calls (.inl hc')) (hi.mem_calls (.inl hc)) hid

/-- A call that ran is accepted in full unless it has still to buffer, nothing being buffered. -/
theorem Whole.ran_accepted_iff {v : Sender} (hi : v.Inv) (hw : v.Whole) (hb : v.buffered = [])
    (hs : ∀ s ∈ v.sending, s.Buffers) {call : SendCall} (hc : (call, true) ∈ v.ran) :
    ofCall call.id v.accepted = call.bytes ↔ ∀ remain, .buffering call remain ∉ v.sending := by
  have hran : call ∈ v.ranCalls := mem_ranCalls hc
  have hwhole := hw.whole call hc
  unfold stream at hwhole
  rw [hb, List.append_nil, ofCall_append] at hwhole
  constructor
  · intro hacc remain hmem
    rw [hacc] at hwhole
    obtain ⟨hne, _, hown⟩ := hi.own _ hmem call remain rfl
    obtain ⟨b, hb⟩ := List.exists_mem_of_ne_nil remain hne
    have hnil := List.append_right_eq_self.mp hwhole
    rw [ofCall, List.filter_eq_nil_iff] at hnil
    refine hnil b (List.mem_flatMap.mpr ⟨_, hmem, hb⟩) ?_
    rw [decide_eq_true_eq]
    exact hown b hb
  · intro hnone
    have hnil : ofCall call.id (v.sending.flatMap Sending.rest) = [] := by
      refine List.filter_eq_nil_iff.mpr fun b hb => ?_
      obtain ⟨s, hsend, hbs⟩ := List.mem_flatMap.mp hb
      have hbuffers := hs s hsend
      cases s with
      | buffering call' remain =>
        obtain ⟨_, hran', hown⟩ := hi.own _ hsend call' remain rfl
        rw [decide_eq_true_eq, hown b hbs]
        intro hid
        have he := ofCall_id hi hran (mem_ranCalls hran') hid
        rw [he] at hsend
        exact hnone remain hsend
      | entered call' => exact hbuffers.elim
      | writing call' => exact hbuffers.elim
    rw [hnil, List.append_nil] at hwhole
    exact hwhole

/-- A call that waits in the loop has no byte in the stream. -/
theorem Whole.posted_accepted {v : Sender} (hi : v.Inv) (hw : v.Whole) {call : SendCall}
    (hc : call ∈ v.posted) : ofCall call.id v.accepted = [] := by
  have hwait : call ∈ v.waiting call.thread := by
    refine List.mem_append_left _ (List.mem_filter.mpr ⟨?_, decide_eq_true rfl⟩)
    exact List.mem_append_right _ hc
  have hnone := hw.none call.id (hi.fresh hwait)
  unfold stream at hnone
  rw [List.append_assoc, ofCall_append] at hnone
  exact (List.append_eq_nil_iff.mp hnone).1

/-- **What the socket has of a call that returned**, nothing being buffered and no call having been
discarded: all of it, unless the call waits in the loop or has still to buffer. -/
theorem Whole.accepted_iff {v : Sender} (hi : v.Inv) (hw : v.Whole) (hb : v.buffered = [])
    (hs : ∀ s ∈ v.sending, s.Buffers) (hkept : ∀ p ∈ v.ran, p.2 = true) {call : SendCall}
    (hc : call ∈ v.returned) :
    ofCall call.id v.accepted = call.bytes
      ↔ (call.message ≠ [] → call ∉ v.posted ∧ ∀ remain, .buffering call remain ∉ v.sending) := by
  have hbytes : call.bytes = [] ↔ call.message = [] := List.map_eq_nil_iff
  by_cases hp : call ∈ v.posted
  · rw [Whole.posted_accepted hi hw hp]
    constructor
    · intro hnil hne
      exact absurd (hbytes.mp hnil.symm) hne
    · intro h
      by_cases hmsg : call.message = []
      · exact (hbytes.mpr hmsg).symm
      · exact absurd hp (h hmsg).1
  · have hran : (call, true) ∈ v.ran := by
      rcases hi.returned call hc with hr | hr | hr
      · obtain ⟨⟨call', b⟩, hmem, he⟩ := List.mem_map.mp hr
        have htrue := hkept _ hmem
        dsimp only at he htrue
        rw [he, htrue] at hmem
        exact hmem
      · rw [toRun_of_buffers hs] at hr
        exact absurd hr List.not_mem_nil
      · exact absurd hr hp
    rw [Whole.ran_accepted_iff hi hw hb hs hran]
    constructor
    · exact fun h _ => ⟨hp, h⟩
    · intro h remain hmem
      refine (h ?_).2 remain hmem
      -- a call with something to buffer has a message
      intro hmsg
      obtain ⟨hne, _, hown⟩ := hi.own _ hmem call remain rfl
      obtain ⟨b, hb'⟩ := List.exists_mem_of_ne_nil remain hne
      have hwhole := hw.whole call hran
      rw [hbytes.mpr hmsg, ofCall, List.filter_eq_nil_iff] at hwhole
      refine hwhole b (List.mem_append_right _ (List.mem_flatMap.mpr ⟨_, hmem, hb'⟩)) ?_
      rw [decide_eq_true_eq]
      exact hown b hb'

end Sender

end Windz
