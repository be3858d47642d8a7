import Mathlib.Data.List.Nodup
import Windz.Net.TcpConnection
import Windz.Net.ConnWorld

/-!
# The sending side of a connection

What `Send` is about, with the rest of the connection left out: the bytes the
socket has accepted, those in `output_buf_`, the calls of `SendInLoop` in progress,
innermost first, and the calls that wait to run, in the queue of the loop or in a
thread between its test of `state_` and `QueueInLoop`.

`Sender.Step` is what can happen to these. Two things are shown of every run of
such steps. The calls of one thread are, in their order, first those whose
`SendInLoop` has run and then those that wait. And the stream, which is the bytes
accepted, then those buffered, then those still to be buffered, is touched only
by a call that begins, which adds its message, and by a failed write.
-/

namespace Windz

/-- A `SendInLoop` in progress. -/
inductive Sending where
  /-- Before the test of `state_`. -/
  | entered (call : SendCall)
  /-- Before the direct write. -/
  | writing (call : SendCall)
  /-- Before `output_buf_.Write`. -/
  | buffering (call : SendCall) (remain : List OutByte)

namespace Sending

/-- The bytes that are neither written nor buffered yet. -/
def rest : Sending → List OutByte
  | entered _ => []
  | writing call => call.bytes
  | buffering _ remain => remain

/-- The call whose `SendInLoop` has yet to look at `state_`. -/
def toRun : Sending → Option SendCall
  | entered call => some call
  | _ => none

/-- `SendInLoop` is about to buffer its rest. -/
def Buffers : Sending → Prop
  | buffering _ _ => True
  | _ => False

end Sending

/-- What is sent on a connection, and how far it has got. -/
structure Sender where
  /-- The thread of the loop. -/
  tid : ThreadId
  /-- What the socket has accepted. -/
  accepted : List OutByte
  /-- What `output_buf_` holds. -/
  buffered : List OutByte
  /-- The channel's interest in writing. -/
  enabled : Bool
  /-- `DestroyConnection` has begun. -/
  destroyed : Bool
  /-- The calls of `SendInLoop` that the loop thread is in, innermost first. -/
  sending : List Sending
  /-- Those in the queue of the loop. -/
  posted : List SendCall
  /-- The call of each other thread that is behind its test of `state_`. -/
  testing : ThreadId → Option SendCall
  /-- The calls of `Send`, in order. -/
  calls : List SendCall
  /-- Those whose `SendInLoop` ran, and whether it kept the message. -/
  ran : List (SendCall × Bool)
  /-- Those that have returned. -/
  returned : List SendCall

namespace Sender

open ConnWorld (Label)

/-- The stream of bytes as far as it is settled. -/
def stream (v : Sender) : List OutByte :=
  v.accepted ++ v.buffered ++ v.sending.flatMap Sending.rest

/-- The calls of thread `t` that wait for their `SendInLoop`. -/
def waiting (v : Sender) (t : ThreadId) : List SendCall :=
  (v.sending.filterMap Sending.toRun ++ v.posted).filter (·.thread = t) ++ (v.testing t).toList

/-- The calls whose `SendInLoop` has run. -/
def ranCalls (v : Sender) : List SendCall := v.ran.map Prod.fst

theorem mem_ranCalls {v : Sender} {call : SendCall} {kept : Bool} (h : (call, kept) ∈ v.ran) :
    call ∈ v.ranCalls := List.mem_map.mpr ⟨_, h, rfl⟩

/-- `SendInLoop` of a call returns. -/
def finish (v : Sender) (call : SendCall) (rest : List Sending) : Sender :=
  { v with
    sending := rest
    returned := if call.thread = v.tid then v.returned ++ [call] else v.returned }

/-- What a step does to the sending side. -/
inductive Step (v : Sender) : Label → Sender → Prop where
  | quiet {a : Label} : Step v a v
  -- `Send` in the loop thread, and in another
  | call {message : List UInt8} (hb : ∀ s ∈ v.sending, s.Buffers) :
      Step v (.run (.call (.send message)))
        { v with
          calls := v.calls ++ [⟨v.calls.length, v.tid, message⟩]
          sending := .entered ⟨v.calls.length, v.tid, message⟩ :: v.sending }
  | threadCall {t : ThreadId} {message : List UInt8} (ht : t ≠ v.tid)
      (hi : v.testing t = none) :
      Step v (.threadCall t (.send message))
        { v with
          calls := v.calls ++ [⟨v.calls.length, t, message⟩]
          testing := Function.update v.testing t (some ⟨v.calls.length, t, message⟩) }
  | push {t : ThreadId} {call : SendCall} (hp : v.testing t = some call) :
      Step v (.threadNext t)
        { v with
          posted := v.posted ++ [call]
          returned := v.returned ++ [call]
          testing := Function.update v.testing t none }
  | take {call : SendCall} {rest : List SendCall} (hq : v.posted = call :: rest)
      (hs : v.sending = []) :
      Step v .functor { v with posted := rest, sending := [.entered call] }
  -- `SendInLoop`
  | discard {call : SendCall} {rest : List Sending} (h : v.sending = .entered call :: rest) :
      Step v (.run .next) ({ v with ran := v.ran ++ [(call, false)] }.finish call rest)
  | direct {call : SendCall} {rest : List Sending} (h : v.sending = .entered call :: rest)
      (hb : v.buffered = []) :
      Step v (.run .next)
        { v with ran := v.ran ++ [(call, true)], sending := .writing call :: rest }
  | queue {call : SendCall} {rest : List Sending} (h : v.sending = .entered call :: rest)
      (hne : call.bytes ≠ []) :
      Step v (.run .next)
        { v with
          ran := v.ran ++ [(call, true)]
          sending := .buffering call call.bytes :: rest }
  | queueEmpty {call : SendCall} {rest : List Sending} (h : v.sending = .entered call :: rest)
      (hnil : call.bytes = []) :
      Step v (.run .next) ({ v with ran := v.ran ++ [(call, true)] }.finish call rest)
  | wrote {r : WriteResult} {call : SendCall} {rest : List Sending} {done remain : List OutByte}
      (h : v.sending = .writing call :: rest) (hd : call.bytes = done ++ remain)
      (hne : remain ≠ []) :
      Step v (.run (.write r))
        { v with accepted := v.accepted ++ done, sending := .buffering call remain :: rest }
  | wroteAll {r : WriteResult} {call : SendCall} {rest : List Sending}
      (h : v.sending = .writing call :: rest) :
      Step v (.run (.write r)) ({ v with accepted := v.accepted ++ call.bytes }.finish call rest)
  | lost {r : WriteResult} {call : SendCall} {rest : List Sending}
      (h : v.sending = .writing call :: rest) (hr : r = .pipe ∨ r = .connReset) :
      Step v (.run (.write r)) (v.finish call rest)
  | buffer {call : SendCall} {remain : List OutByte} {rest : List Sending}
      (h : v.sending = .buffering call remain :: rest) :
      Step v (.run .next)
        ({ v with buffered := v.buffered ++ remain, enabled := true }.finish call rest)
  -- `HandleWrite`
  | wroteSome {n : Nat} (hne : v.buffered.drop n ≠ []) :
      Step v (.run (.write (.wrote n)))
        { v with
          accepted := v.accepted ++ v.buffered.take n
          buffered := v.buffered.drop n }
  | drained {n : Nat} :
      Step v (.run (.write (.wrote n)))
        { v with accepted := v.accepted ++ v.buffered, buffered := [], enabled := false }
  | destroyed : Step v (.run .next) { v with enabled := false, destroyed := true }

/-! ## What holds in every run -/

/-- What every run keeps. -/
structure Inv (v : Sender) : Prop where
  /-- Only the innermost `SendInLoop` is not about to buffer. -/
  nested : ∀ s ∈ v.sending.tail, s.Buffers
  /-- A direct write finds nothing buffered. -/
  direct : ∀ call rest, v.sending = .writing call :: rest → v.buffered = []
  /-- What is to be buffered is some bytes of a call that ran. -/
  own : ∀ s ∈ v.sending, ∀ call remain, s = .buffering call remain →
    remain ≠ [] ∧ (call, true) ∈ v.ran ∧ ∀ b ∈ remain, b.call = call.id
  writing : ∀ s ∈ v.sending, ∀ call, s = .writing call → (call, true) ∈ v.ran
  /-- Calls are numbered. -/
  ids : v.calls.map SendCall.id = List.range v.calls.length
  /-- The calls of a thread are those that ran, then those that wait, in order. -/
  order : ∀ t, v.calls.filter (·.thread = t) = v.ranCalls.filter (·.thread = t) ++ v.waiting t
  posted : ∀ call ∈ v.posted, call.thread ≠ v.tid
  testing : ∀ t call, v.testing t = some call → call.thread = t ∧ t ≠ v.tid
  /-- A call that has returned waits in the loop or has run. -/
  returned : ∀ call ∈ v.returned,
    call ∈ v.ranCalls ∨ call ∈ v.sending.filterMap Sending.toRun ∨ call ∈ v.posted
  enabled : v.destroyed = false → (v.enabled = true ↔ v.buffered ≠ [])

/-! ## The step lemmas -/

theorem toRun_entered (call : SendCall) (rest : List Sending) :
    (Sending.entered call :: rest).filterMap Sending.toRun
      = call :: rest.filterMap Sending.toRun := rfl

theorem toRun_of_buffers {ss : List Sending} (h : ∀ s ∈ ss, s.Buffers) :
    ss.filterMap Sending.toRun = [] := by
  rw [List.filterMap_eq_nil_iff]
  intro s hs
  cases s with
  | buffering call remain => rfl
  | entered call => exact (h _ hs).elim
  | writing call => exact (h _ hs).elim

theorem Inv.rest {v : Sender} (hi : v.Inv) {s : Sending} {rest : List Sending}
    (h : v.sending = s :: rest) : ∀ s ∈ rest, s.Buffers := by
  have hn := hi.nested
  rw [h] at hn
  exact hn

/-- What waits to buffer is not in `write`. -/
theorem not_writing {rest : List Sending} (h : ∀ s ∈ rest, s.Buffers) (call : SendCall)
    (rest' : List Sending) : rest ≠ .writing call :: rest' := by
  intro he
  rw [he] at h
  exact h _ List.mem_cons_self

theorem nested_step {v v' : Sender} {a : Label} (hi : v.Inv) (h : v.Step a v') :
    ∀ s ∈ v'.sending.tail, s.Buffers := by
  have hpop : ∀ {s : Sending} {rest : List Sending}, v.sending = s :: rest →
      ∀ s ∈ rest.tail, s.Buffers := fun h s hs => hi.rest h s (List.mem_of_mem_tail hs)
  cases h with
  | call hb => exact hb
  | take hq hs => exact fun s hs => absurd hs List.not_mem_nil
  | discard h => exact hpop h
  | direct h hb => exact hi.rest h
  | queue h hne => exact hi.rest h
  | queueEmpty h hnil => exact hpop h
  | wrote h hd hne => exact hi.rest h
  | wroteAll h => exact hpop h
  | lost h hr => exact hpop h
  | buffer h => exact hpop h
  | _ => exact hi.nested

theorem direct_step {v v' : Sender} {a : Label} (hi : v.Inv) (h : v.Step a v') :
    ∀ call rest, v'.sending = .writing call :: rest → v'.buffered = [] := by
  intro call' rest' hs'
  have hpop : ∀ {s : Sending} {rest : List Sending}, v.sending = s :: rest →
      rest = .writing call' :: rest' → v'.buffered = [] :=
    fun h hr => absurd hr (not_writing (hi.rest h) _ _)
  cases h with
  | call hb => exact absurd (List.cons.inj hs').1 (by simp)
  | take hq hs => exact absurd (List.cons.inj hs').1 (by simp)
  | discard h => exact hpop h hs'
  | direct h hb => exact hb
  | queue h hne => exact absurd (List.cons.inj hs').1 (by simp)
  | queueEmpty h hnil => exact hpop h hs'
  | wrote h hd hne => exact absurd (List.cons.inj hs').1 (by simp)
  | wroteAll h => exact hpop h hs'
  | lost h hr => exact hpop h hs'
  | buffer h => exact hpop h hs'
  | wroteSome hne =>
    rw [hi.direct _ _ hs'] at hne
    exact absurd List.drop_nil hne
  | drained => rfl
  | _ => exact hi.direct _ _ hs'

theorem own_step {v v' : Sender} {a : Label} (hi : v.Inv) (h : v.Step a v') :
    ∀ s ∈ v'.sending, ∀ call remain, s = .buffering call remain →
      remain ≠ [] ∧ (call, true) ∈ v'.ran ∧ ∀ b ∈ remain, b.call = call.id := by
  have hbytes : ∀ call : SendCall, ∀ b ∈ call.bytes, b.call = call.id := by
    intro call b hb
    obtain ⟨byte, _, he⟩ := List.mem_map.mp hb
    rw [← he]
  -- the frames that stay, with more calls that ran
  have hkeep : ∀ {s : Sending} {rest : List Sending} {more : List (SendCall × Bool)},
      v.sending = s :: rest → ∀ s ∈ rest, ∀ call remain, s = .buffering call remain →
        remain ≠ [] ∧ (call, true) ∈ v.ran ++ more ∧ ∀ b ∈ remain, b.call = call.id := by
    intro s rest more h s' hs' call remain he
    obtain ⟨h1, h2, h3⟩ := hi.own s' (by rw [h]; exact List.mem_cons_of_mem _ hs') call remain he
    exact ⟨h1, List.mem_append_left _ h2, h3⟩
  have hpop : ∀ {s : Sending} {rest : List Sending}, v.sending = s :: rest →
      ∀ s ∈ rest, ∀ call remain, s = .buffering call remain →
        remain ≠ [] ∧ (call, true) ∈ v.ran ∧ ∀ b ∈ remain, b.call = call.id := by
    intro s rest h s' hs'
    exact hi.own s' (by rw [h]; exact List.mem_cons_of_mem _ hs')
  cases h with
  | call hb =>
    intro s hs call remain he
    rcases List.mem_cons.mp hs with hs | hs
    · rw [he] at hs; exact absurd hs (by simp)
    · exact hi.own s hs call remain he
  | take hq hs =>
    intro s hs' call remain he
    rw [List.mem_singleton.mp hs'] at he
    exact absurd he (by simp)
  | discard h => exact hkeep h
  | queueEmpty h hnil => exact hkeep h
  | direct h hb =>
    intro s hs call remain he
    rcases List.mem_cons.mp hs with hs | hs
    · rw [he] at hs; exact absurd hs (by simp)
    · exact hkeep h s hs call remain he
  | @queue call₀ rest h hne =>
    intro s hs call remain he
    rcases List.mem_cons.mp hs with hs | hs
    · rw [hs] at he
      obtain ⟨h1, h2⟩ := Sending.buffering.inj he
      rw [← h1, ← h2]
      exact ⟨hne, List.mem_append_right _ List.mem_cons_self, hbytes call₀⟩
    · exact hkeep h s hs call remain he
  | @wrote r call₀ rest done remain₀ h hd hne =>
    intro s hs call remain he
    rcases List.mem_cons.mp hs with hs | hs
    · rw [hs] at he
      obtain ⟨h1, h2⟩ := Sending.buffering.inj he
      rw [← h1, ← h2]
      refine ⟨hne, hi.writing _ (by rw [h]; exact List.mem_cons_self) _ rfl, fun b hb => ?_⟩
      exact hbytes call₀ b (by rw [hd]; exact List.mem_append_right _ hb)
    · exact hpop h s hs call remain he
  | wroteAll h => exact hpop h
  | lost h hr => exact hpop h
  | buffer h => exact hpop h
  | _ => exact hi.own

theorem writing_step {v v' : Sender} {a : Label} (hi : v.Inv) (h : v.Step a v') :
    ∀ s ∈ v'.sending, ∀ call, s = .writing call → (call, true) ∈ v'.ran := by
  -- what lies under the top is about to buffer
  have hunder : ∀ {s : Sending} {rest : List Sending}, v.sending = s :: rest →
      ∀ s ∈ rest, ∀ call, s = .writing call → (call, true) ∈ v'.ran := by
    intro s rest h s' hs' call he
    rw [he] at hs'
    exact (hi.rest h _ hs').elim
  cases h with
  | call hb =>
    intro s hs call he
    rcases List.mem_cons.mp hs with hs | hs
    · rw [he] at hs; exact absurd hs (by simp)
    · exact hi.writing s hs call he
  | take hq hs =>
    intro s hs' call he
    rw [List.mem_singleton.mp hs'] at he
    exact absurd he (by simp)
  | direct h hb =>
    intro s hs call he
    rcases List.mem_cons.mp hs with hs | hs
    · rw [hs] at he
      rw [← Sending.writing.inj he]
      exact List.mem_append_right _ List.mem_cons_self
    · exact hunder h s hs call he
  | queue h hne =>
    intro s hs call he
    rcases List.mem_cons.mp hs with hs | hs
    · rw [he] at hs; exact absurd hs (by simp)
    · exact hunder h s hs call he
  | wrote h hd hne =>
    intro s hs call he
    rcases List.mem_cons.mp hs with hs | hs
    · rw [he] at hs; exact absurd hs (by simp)
    · exact hunder h s hs call he
  | discard h => exact hunder h
  | queueEmpty h hnil => exact hunder h
  | wroteAll h => exact hunder h
  | lost h hr => exact hunder h
  | buffer h => exact hunder h
  | _ => exact hi.writing

theorem ids_step {v v' : Sender} {a : Label} (hi : v.Inv) (h : v.Step a v') :
    v'.calls.map SendCall.id = List.range v'.calls.length := by
  have hadd : ∀ call : SendCall, call.id = v.calls.length →
      (v.calls ++ [call]).map SendCall.id = List.range (v.calls ++ [call]).length := by
    intro call hid
    rw [List.map_append, hi.ids, List.length_append, List.length_singleton, List.range_succ,
      List.map_singleton, hid]
  cases h with
  | call hb => exact hadd _ rfl
  | threadCall ht hi => exact hadd _ rfl
  | _ => exact hi.ids

/-- A call that is done with waiting goes to the end of those that ran. -/
theorem order_ran {v : Sender} (hi : v.Inv) {call : SendCall} {rest : List Sending}
    (h : v.sending = .entered call :: rest) (kept : Bool) (sending : List Sending)
    (hs : sending.filterMap Sending.toRun = rest.filterMap Sending.toRun) (t : ThreadId) :
    v.calls.filter (·.thread = t)
      = ((v.ran ++ [(call, kept)]).map Prod.fst).filter (·.thread = t)
        ++ { v with sending }.waiting t := by
  rw [hi.order t]
  unfold waiting ranCalls
  rw [h, hs, List.map_append, List.filter_append]
  by_cases ht : call.thread = t
  · simp [Sending.toRun, ht]
  · simp [Sending.toRun, ht]

theorem order_step {v v' : Sender} {a : Label} (hi : v.Inv) (h : v.Step a v') (t : ThreadId) :
    v'.calls.filter (·.thread = t) = v'.ranCalls.filter (·.thread = t) ++ v'.waiting t := by
  -- steps that change no call that waits
  have hsame : ∀ {s : Sending} {rest sending : List Sending}, v.sending = s :: rest →
      s.toRun = none → sending.filterMap Sending.toRun = rest.filterMap Sending.toRun →
      v.calls.filter (·.thread = t)
        = v.ranCalls.filter (·.thread = t) ++ { v with sending }.waiting t := by
    intro s rest sending h hs he
    rw [hi.order t]
    unfold waiting
    rw [h, he, List.filterMap_cons_none hs]
  cases h with
  | call hb =>
    rw [List.filter_append, hi.order t]
    unfold waiting ranCalls
    dsimp only
    rw [toRun_entered, toRun_of_buffers hb]
    by_cases ht : v.tid = t
    · -- nothing of the loop's thread waited
      have hq : v.posted.filter (·.thread = t) = [] := by
        rw [List.filter_eq_nil_iff]
        intro call hc
        rw [← ht, decide_eq_true_eq]
        exact hi.posted call hc
      have ht' : v.testing t = none := by
        cases htest : v.testing t with
        | none => rfl
        | some call => exact absurd ht.symm (hi.testing t call htest).2
      simp [hq, ht', ht]
    · simp [ht]
  | @threadCall t' message ht htest =>
    rw [List.filter_append, hi.order t]
    unfold waiting ranCalls
    dsimp only
    by_cases hu : t = t'
    · rw [hu, Function.update_self, htest]
      simp
    · rw [Function.update_of_ne hu]
      simp [Ne.symm hu]
  | @push t' call hp =>
    rw [hi.order t]
    unfold waiting ranCalls
    dsimp only
    have hthread := (hi.testing t' call hp).1
    by_cases hu : t = t'
    · rw [hu, Function.update_self, hp]
      simp [hthread]
    · rw [Function.update_of_ne hu]
      simp [hthread, Ne.symm hu]
  | take hq hs =>
    rw [hi.order t]
    unfold waiting ranCalls
    dsimp only
    rw [hs, hq]
    rfl
  | discard h => exact order_ran hi h _ _ rfl t
  | queueEmpty h hnil => exact order_ran hi h _ _ rfl t
  | direct h hb => exact order_ran hi h _ _ rfl t
  | queue h hne => exact order_ran hi h _ _ rfl t
  | wrote h hd hne => exact hsame h rfl rfl
  | wroteAll h => exact hsame h rfl rfl
  | lost h hr => exact hsame h rfl rfl
  | buffer h => exact hsame h rfl rfl
  | _ => exact hi.order t

theorem posted_step {v v' : Sender} {a : Label} (hi : v.Inv) (h : v.Step a v') :
    ∀ call ∈ v'.posted, call.thread ≠ v'.tid := by
  cases h with
  | @push t call hp =>
    intro call' hc
    rcases List.mem_append.mp hc with hc | hc
    · exact hi.posted call' hc
    · obtain ⟨hthread, ht⟩ := hi.testing t call hp
      rw [List.mem_singleton.mp hc, hthread]
      exact ht
  | take hq hs =>
    intro call' hc
    exact hi.posted call' (by rw [hq]; exact List.mem_cons_of_mem _ hc)
  | _ => exact hi.posted

theorem testing_step {v v' : Sender} {a : Label} (hi : v.Inv) (h : v.Step a v') :
    ∀ t call, v'.testing t = some call → call.thread = t ∧ t ≠ v'.tid := by
  cases h with
  | @threadCall t' message ht htest =>
    intro t call hc
    dsimp only at hc
    by_cases hu : t = t'
    · rw [hu, Function.update_self] at hc
      rw [← Option.some.inj hc, hu]
      exact ⟨rfl, ht⟩
    · rw [Function.update_of_ne hu] at hc
      exact hi.testing t call hc
  | @push t' call' hp =>
    intro t call hc
    dsimp only at hc
    by_cases hu : t = t'
    · rw [hu, Function.update_self] at hc
      exact absurd hc (by simp)
    · rw [Function.update_of_ne hu] at hc
      exact hi.testing t call hc
  | _ => exact hi.testing

/-- Where the calls that have returned are found when the call on top has run. -/
theorem returned_ran {v : Sender} (hi : v.Inv) {call : SendCall} {rest sending : List Sending}
    (h : v.sending = .entered call :: rest) (kept : Bool)
    (hs : sending.filterMap Sending.toRun = rest.filterMap Sending.toRun) :
    ∀ call' ∈ call :: v.returned,
      call' ∈ (v.ran ++ [(call, kept)]).map Prod.fst
        ∨ call' ∈ sending.filterMap Sending.toRun ∨ call' ∈ v.posted := by
  have hhere : call ∈ (v.ran ++ [(call, kept)]).map Prod.fst := by simp
  intro call' hc
  rcases List.mem_cons.mp hc with hc | hc
  · rw [hc]
    exact .inl hhere
  · rcases hi.returned call' hc with hr | hr | hr
    · rw [List.map_append]
      exact .inl (List.mem_append_left _ hr)
    · rw [h, toRun_entered] at hr
      rcases List.mem_cons.mp hr with hr | hr
      · rw [hr]
        exact .inl hhere
      · rw [hs]
        exact .inr (.inl hr)
    · exact .inr (.inr hr)

theorem mem_finish_returned {tid : ThreadId} {returned : List SendCall} {call call' : SendCall}
    (h : call' ∈ if call.thread = tid then returned ++ [call] else returned) :
    call' ∈ call :: returned := by
  split at h
  · rcases List.mem_append.mp h with h | h
    · exact List.mem_cons_of_mem _ h
    · rw [List.mem_singleton.mp h]
      exact List.mem_cons_self
  · exact List.mem_cons_of_mem _ h

theorem returned_step {v v' : Sender} {a : Label} (hi : v.Inv) (h : v.Step a v') :
    ∀ call ∈ v'.returned,
      call ∈ v'.ranCalls ∨ call ∈ v'.sending.filterMap Sending.toRun ∨ call ∈ v'.posted := by
  -- a call that returns having run before
  have hpop : ∀ {s : Sending} {call : SendCall} {rest : List Sending}, v.sending = s :: rest →
      s.toRun = none → call ∈ v.ranCalls → ∀ call' ∈ call :: v.returned,
        call' ∈ v.ranCalls ∨ call' ∈ rest.filterMap Sending.toRun ∨ call' ∈ v.posted := by
    intro s call rest h hs hran call' hc
    rcases List.mem_cons.mp hc with hc | hc
    · rw [hc]
      exact .inl hran
    · have hr := hi.returned call' hc
      rw [h, List.filterMap_cons_none hs] at hr
      exact hr
  have hwriting : ∀ {call : SendCall} {rest : List Sending}, v.sending = .writing call :: rest →
      call ∈ v.ranCalls := by
    intro call rest h
    exact mem_ranCalls (hi.writing _ (by rw [h]; exact List.mem_cons_self) call rfl)
  cases h with
  | call hb =>
    intro call' hc
    rcases hi.returned call' hc with hr | hr | hr
    · exact .inl hr
    · exact .inr (.inl (List.mem_cons_of_mem _ hr))
    · exact .inr (.inr hr)
  | push hp =>
    intro call' hc
    rcases List.mem_append.mp hc with hc | hc
    · rcases hi.returned call' hc with hr | hr | hr
      · exact .inl hr
      · exact .inr (.inl hr)
      · exact .inr (.inr (List.mem_append_left _ hr))
    · exact .inr (.inr (List.mem_append_right _ hc))
  | take hq hs =>
    intro call' hc
    have hr := hi.returned call' hc
    rw [hs, hq] at hr
    rcases hr with hr | hr | hr
    · exact .inl hr
    · exact absurd hr List.not_mem_nil
    · rcases List.mem_cons.mp hr with hr | hr
      · rw [hr]
        exact .inr (.inl List.mem_cons_self)
      · exact .inr (.inr hr)
  | discard h => exact fun call' hc => returned_ran hi h _ rfl call' (mem_finish_returned hc)
  | queueEmpty h hnil => exact fun call' hc => returned_ran hi h _ rfl call' (mem_finish_returned hc)
  | direct h hb =>
    exact fun call' hc => returned_ran hi h _ rfl call' (List.mem_cons_of_mem _ hc)
  | queue h hne =>
    exact fun call' hc => returned_ran hi h _ rfl call' (List.mem_cons_of_mem _ hc)
  | wrote h hd hne =>
    exact fun call' hc => hpop h rfl (hwriting h) call' (List.mem_cons_of_mem _ hc)
  | wroteAll h => exact fun call' hc => hpop h rfl (hwriting h) call' (mem_finish_returned hc)
  | lost h hr => exact fun call' hc => hpop h rfl (hwriting h) call' (mem_finish_returned hc)
  | buffer h =>
    intro call' hc
    have hown := hi.own _ (by rw [h]; exact List.mem_cons_self) _ _ rfl
    exact hpop h rfl (mem_ranCalls hown.2.1) call' (mem_finish_returned hc)
  | _ => exact hi.returned

theorem enabled_step {v v' : Sender} {a : Label} (hi : v.Inv) (h : v.Step a v') :
    v'.destroyed = false → (v'.enabled = true ↔ v'.buffered ≠ []) := by
  cases h with
  | buffer h =>
    intro _
    have hown := hi.own _ (by rw [h]; exact List.mem_cons_self) _ _ rfl
    exact ⟨fun _ => List.append_ne_nil_of_right_ne_nil _ hown.1, fun _ => rfl⟩
  | wroteSome hne =>
    intro hd
    have hbefore : v.buffered ≠ [] := by
      intro hnil
      rw [hnil] at hne
      exact hne List.drop_nil
    exact ⟨fun _ => hne, fun _ => (hi.enabled hd).mpr hbefore⟩
  | drained => exact fun _ => ⟨fun h => absurd h Bool.false_ne_true, fun h => absurd rfl h⟩
  | destroyed => exact fun hd => absurd hd.symm Bool.false_ne_true
  | _ => exact hi.enabled

/-- **A step keeps the invariant.** -/
theorem Inv.step {v v' : Sender} {a : Label} (hi : v.Inv) (h : v.Step a v') : v'.Inv where
  nested := nested_step hi h
  direct := direct_step hi h
  own := own_step hi h
  writing := writing_step hi h
  ids := ids_step hi h
  order := order_step hi h
  posted := posted_step hi h
  testing := testing_step hi h
  returned := returned_step hi h
  enabled := enabled_step hi h

end Sender

end Windz
