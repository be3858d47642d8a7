import Windz.Base.Util

/-!
# Nothing is repeated and nothing skipped

The invariant of each loop says where its variables stand after the answers used up so
far: what is left and the position make up the size, the sum is the position, and the
bytes behind the calls are those up to the position.
-/

namespace Windz

open Lib

namespace Util

/-! ## The counters -/

theorem toNat_sub_ofNat {n : UInt64} {k : Nat} (h : k ≤ n.toNat) :
    (n - UInt64.ofNat k).toNat = n.toNat - k := by
  have hk : (UInt64.ofNat k).toNat = k :=
    UInt64.toNat_ofNat_of_lt' (Nat.lt_of_le_of_lt h n.toNat_lt)
  have hle : UInt64.ofNat k ≤ n := UInt64.le_iff_toNat_le.mpr (by rw [hk]; exact h)
  rw [UInt64.toNat_sub_of_le _ _ hle, hk]

/-- A sum that is not negative has not wrapped. -/
theorem toInt_ofNat_of_nonneg {n : Nat} (hn : n < 2 ^ 64) (h : 0 ≤ Int64.ofNat n) :
    (Int64.ofNat n).toInt = n := by
  have h : 0 ≤ (Int64.ofNat n).toInt := Int64.le_iff_toInt_le.mp h
  have hsize : Int64.size = 2 ^ 64 := rfl
  rw [Int64.toInt_ofNat'] at h ⊢
  rw [Int.bmod_def, hsize] at h ⊢
  split at h <;> omega

theorem not_gt_zero_iff {n : UInt64} : ¬ n > 0 ↔ n.toNat = 0 := by
  rw [gt_iff_lt, UInt64.lt_iff_toNat_lt]
  exact Nat.not_lt_eq _ _ ▸ Nat.le_zero

/-! ## `Writen` -/

/-- The variables of `Writen` before a call. -/
structure Writing (buf : List UInt8) (n : UInt64) (s : WriteState) : Prop where
  left : s.nleft.toNat + s.p = n.toNat
  sum : s.writesum = Int64.ofNat s.p
  inside : s.p ≤ buf.length
  accepted : s.accepted = buf.take s.p

/-- **One call** accepts the bytes that come next. -/
theorem Writing.answered {buf : List UInt8} {n : UInt64} {s : WriteState} (h : Writing buf n s)
    {a : Answer Nat} {next : Next WriteState (Int64 × List UInt8)}
    (hnext : (writeLoop buf).answered s a = some next) :
    (∃ s', next = .again s' ∧ Writing buf n s') ∨ next = .stop (-1, s.accepted) := by
  cases a with
  | ok k =>
    obtain ⟨hle, hnext⟩ := Option.ite_none_right_eq_some.mp hnext
    obtain ⟨bs, hbs, hnext⟩ := Option.map_eq_some_iff.mp hnext
    obtain ⟨hin, hbs⟩ := Option.ite_none_right_eq_some.mp hbs
    refine .inl ⟨_, hnext.symm, ?_, ?_, hin, ?_⟩
    · show (s.nleft - UInt64.ofNat k).toNat + (s.p + k) = n.toNat
      have hleft := h.left
      rw [toNat_sub_ofNat hle]
      omega
    · show s.writesum + Int64.ofNat k = Int64.ofNat (s.p + k)
      rw [h.sum, Int64.ofNat_add]
    · show s.accepted ++ bs = buf.take (s.p + k)
      rw [h.accepted, ← Option.some.inj hbs, List.take_add]
  | eintr =>
    cases hnext
    exact .inl ⟨s, rfl, h⟩
  | ewouldblock =>
    cases hnext
    exact .inr rfl
  | error =>
    cases hnext
    exact .inr rfl

/-- **What `Writen` writes**: all of the buffer when it does not fail, and then nothing else;
else bytes from its front. -/
theorem writen_spec {buf accepted : List UInt8} {n : UInt64} {as rest : List (Answer Nat)}
    {r : Int64} (h : writen buf n as = some ((r, accepted), rest)) :
    accepted <+: buf
      ∧ (0 ≤ r → r.toInt = n.toNat ∧ n.toNat ≤ buf.length ∧ accepted = buf.take n.toNat) := by
  have hstart : Writing buf n { nleft := n, writesum := 0, p := 0, accepted := [] } :=
    ⟨rfl, rfl, Nat.zero_le _, rfl⟩
  suffices hrule : ∃ used, as = used ++ rest ∧ accepted <+: buf
      ∧ (0 ≤ r → r.toInt = n.toNat ∧ n.toNat ≤ buf.length ∧ accepted = buf.take n.toNat) by
    obtain ⟨-, -, hq⟩ := hrule
    exact hq
  refine Retry.rule (I := fun _ => Writing buf n)
    (Q := fun _ (q : Int64 × List UInt8) => q.2 <+: buf
      ∧ (0 ≤ q.1 → q.1.toInt = n.toNat ∧ n.toNat ≤ buf.length ∧ q.2 = buf.take n.toNat))
    ?_ ?_ ?_ hstart h
  · intro _ s q hs hdone
    obtain ⟨hzero, hq⟩ := Option.ite_none_left_eq_some.mp hdone
    rw [not_gt_zero_iff] at hzero
    have hp : s.p = n.toNat := by
      have hleft := hs.left
      omega
    rw [← Option.some.inj hq]
    refine ⟨by rw [hs.accepted]; exact List.take_prefix _ _, fun hr => ⟨?_, ?_, ?_⟩⟩
    · have hr : 0 ≤ s.writesum := hr
      show s.writesum.toInt = _
      rw [hs.sum, hp] at hr ⊢
      exact toInt_ofNat_of_nonneg n.toNat_lt hr
    · rw [← hp]
      exact hs.inside
    · rw [← hp]
      exact hs.accepted
  · intro _ s a q hs _ hnext
    rcases hs.answered hnext with ⟨s', hs', -⟩ | hstop
    · cases hs'
    · cases hstop
      refine ⟨by rw [hs.accepted]; exact List.take_prefix _ _, fun hr =>
        absurd hr (show ¬ (0 : Int64) ≤ -1 by decide)⟩
  · intro _ s a s' hs _ hnext
    rcases hs.answered hnext with ⟨u, hu, hwriting⟩ | hstop
    · cases hu
      exact hwriting
    · cases hstop

/-- `WriteFd` writes the string. -/
theorem writeFd_spec {buf : StdString} {accepted : List UInt8} {as rest : List (Answer Nat)}
    {r : Int64} (h : writeFd buf as = some ((r, accepted), rest)) (hr : 0 ≤ r) :
    r.toInt = buf.bytes.length ∧ accepted = buf.bytes := by
  have hsize : buf.size.toNat = buf.bytes.length :=
    UInt64.toNat_ofNat_of_lt' (Nat.lt_trans buf.length_lt (by decide))
  obtain ⟨hlen, -, haccepted⟩ := (writen_spec h).2 hr
  rw [hsize] at hlen haccepted
  refine ⟨hlen, haccepted.trans ?_⟩
  unfold StdString.cStr
  rw [List.take_left]

/-! ## Reading -/

/-- The bytes that came with the answers, which are those next in the stream. -/
def delivered (as : List (Answer (List UInt8))) : List UInt8 :=
  as.flatMap fun
    | .ok bs => bs
    | _ => []

/-- An answer that does not end a reading. -/
def Going (a : Answer (List UInt8)) : Prop := a = .eintr ∨ ∃ bs, bs ≠ [] ∧ a = .ok bs

/-- The end of the file, or nothing to read for now. -/
def Ends (a : Answer (List UInt8)) : Prop := a = .ok [] ∨ a = .ewouldblock

theorem delivered_concat (as : List (Answer (List UInt8))) (a : Answer (List UInt8)) :
    delivered (as ++ [a]) = delivered as ++ delivered [a] := by
  unfold delivered
  rw [List.flatMap_append]

theorem delivered_ok (as : List (Answer (List UInt8))) (bs : List UInt8) :
    delivered (as ++ [.ok bs]) = delivered as ++ bs := by
  rw [delivered_concat]
  unfold delivered
  rw [List.flatMap_singleton]

theorem delivered_eintr (as : List (Answer (List UInt8))) :
    delivered (as ++ [.eintr]) = delivered as := by
  rw [delivered_concat]
  exact List.append_nil _

theorem Ends.delivered {a : Answer (List UInt8)} (h : Ends a) : delivered [a] = [] := by
  rcases h with h | h
  · rw [h]
    rfl
  · rw [h]
    rfl

/-- Up to its last answer, which ended it, the reading went on. -/
def Ended (used : List (Answer (List UInt8))) : Prop :=
  ∃ before last, used = before ++ [last] ∧ (∀ a ∈ before, Going a) ∧ Ends last

theorem going_concat {as : List (Answer (List UInt8))} {a : Answer (List UInt8)}
    (has : ∀ b ∈ as, Going b) (ha : Going a) : ∀ b ∈ as ++ [a], Going b := by
  intro b hb
  rcases List.mem_append.mp hb with hb | hb
  · exact has b hb
  · rw [List.mem_singleton.mp hb]
    exact ha

/-- The answer that ends a reading brings nothing. -/
theorem ended_concat {as : List (Answer (List UInt8))} {a : Answer (List UInt8)} (h : Ends a)
    (has : ∀ b ∈ as, Going b) :
    delivered (as ++ [a]) = delivered as ∧ Ended (as ++ [a]) := by
  rw [delivered_concat, h.delivered, List.append_nil]
  exact ⟨rfl, as, a, rfl, has, h⟩

/-! ### `Readn` -/

/-- The variables of `Readn` before a call. -/
structure Reading (buf : List UInt8) (n : UInt64) (used : List (Answer (List UInt8)))
    (s : ReadState) : Prop where
  going : ∀ a ∈ used, Going a
  left : s.nleft.toNat + s.p = n.toNat
  sum : s.readsum = Int64.ofNat s.p
  count : s.p = (delivered used).length
  inside : s.p ≤ buf.length
  stored : s.buf = delivered used ++ buf.drop s.p

/-- What `Readn` gives when it does not fail. -/
structure HasRead (buf : List UInt8) (n : UInt64) (used : List (Answer (List UInt8)))
    (q : Int64 × List UInt8) : Prop where
  count : q.1.toInt = (delivered used).length
  le : (delivered used).length ≤ n.toNat
  inside : (delivered used).length ≤ buf.length
  stored : q.2 = delivered used ++ buf.drop (delivered used).length
  short : (delivered used).length < n.toNat → Ended used

/-- **One call** stores its bytes behind those before. -/
theorem Reading.ok {buf : List UInt8} {n : UInt64} {used : List (Answer (List UInt8))}
    {s : ReadState} (h : Reading buf n used s) {bs : List UInt8} (hne : bs ≠ [])
    (hle : bs.length ≤ s.nleft.toNat) (hin : s.p + bs.length ≤ s.buf.length) :
    Reading buf n (used ++ [.ok bs])
      { nleft := s.nleft - UInt64.ofNat bs.length
        readsum := s.readsum + Int64.ofNat bs.length
        p := s.p + bs.length
        buf := overwrite s.buf s.p bs } := by
  have hlen : s.buf.length = buf.length := by
    have hinside := h.inside
    rw [h.stored, List.length_append, ← h.count, List.length_drop]
    omega
  refine ⟨going_concat h.going (.inr ⟨bs, hne, rfl⟩), ?_, ?_, ?_, hlen ▸ hin, ?_⟩
  · show (s.nleft - UInt64.ofNat bs.length).toNat + (s.p + bs.length) = n.toNat
    have hleft := h.left
    rw [toNat_sub_ofNat hle]
    omega
  · show s.readsum + Int64.ofNat bs.length = Int64.ofNat (s.p + bs.length)
    rw [h.sum, Int64.ofNat_add]
  · show s.p + bs.length = _
    rw [delivered_ok, List.length_append, h.count]
  · show overwrite s.buf s.p bs = delivered (used ++ [.ok bs]) ++ buf.drop (s.p + bs.length)
    rw [delivered_ok]
    unfold overwrite
    rw [h.stored, h.count, List.take_left, ← List.drop_drop, List.drop_left, List.drop_drop]

/-- What is known when the loop ends, behind a call or before one. -/
theorem Reading.hasRead {buf : List UInt8} {n : UInt64} {used used' : List (Answer (List UInt8))}
    {s : ReadState} (h : Reading buf n used s) (hsame : delivered used' = delivered used)
    (hended : s.nleft.toNat ≠ 0 → Ended used') (hsum : 0 ≤ s.readsum) :
    HasRead buf n used' (s.readsum, s.buf) := by
  have hleft := h.left
  have hle : s.p ≤ n.toNat := by omega
  rw [h.sum] at hsum
  have hcount := toInt_ofNat_of_nonneg (Nat.lt_of_le_of_lt hle n.toNat_lt) hsum
  rw [← h.sum] at hcount
  refine ⟨?_, ?_, ?_, ?_, fun hlt => hended ?_⟩
  · rw [hsame, ← h.count]
    exact hcount
  · rw [hsame, ← h.count]
    exact hle
  · rw [hsame, ← h.count]
    exact h.inside
  · rw [hsame, ← h.count]
    exact h.stored
  · rw [hsame, ← h.count] at hlt
    omega

/-- **What `Readn` reads.** -/
theorem readn_spec {buf buf' : List UInt8} {n : UInt64} {as rest : List (Answer (List UInt8))}
    {r : Int64} (h : readn buf n as = some ((r, buf'), rest)) (hr : 0 ≤ r) :
    ∃ used, as = used ++ rest ∧ HasRead buf n used (r, buf') := by
  have hstart : Reading buf n [] { nleft := n, readsum := 0, p := 0, buf } :=
    ⟨fun _ ha => absurd ha List.not_mem_nil, rfl, rfl, rfl, Nat.zero_le _, rfl⟩
  suffices hrule : ∃ used, as = used ++ rest ∧ (0 ≤ r → HasRead buf n used (r, buf')) by
    obtain ⟨used, hused, hq⟩ := hrule
    exact ⟨used, hused, hq hr⟩
  refine Retry.rule (I := Reading buf n) (Q := fun used q => 0 ≤ q.1 → HasRead buf n used q)
    ?_ ?_ ?_ hstart h
  · intro used s q hs hdone
    obtain ⟨hzero, hq⟩ := Option.ite_none_left_eq_some.mp hdone
    rw [not_gt_zero_iff] at hzero
    rw [← Option.some.inj hq]
    exact hs.hasRead rfl fun hne => absurd hzero hne
  · intro used s a q hs _ hnext
    cases a with
    | ok bs =>
      obtain ⟨-, hnext⟩ := Option.ite_none_right_eq_some.mp hnext
      split at hnext
      · rename_i hnil
        cases hnext
        have hends : Ends (.ok bs) := .inl (by rw [hnil])
        obtain ⟨hsame, hended⟩ := ended_concat hends hs.going
        exact hs.hasRead hsame fun _ => hended
      · cases hnext
    | eintr => cases hnext
    | ewouldblock =>
      cases hnext
      obtain ⟨hsame, hended⟩ := ended_concat (.inr rfl) hs.going
      exact hs.hasRead hsame fun _ => hended
    | error =>
      cases hnext
      exact fun hr => absurd hr (show ¬ (0 : Int64) ≤ -1 by decide)
  · intro used s a s' hs _ hnext
    cases a with
    | ok bs =>
      obtain ⟨⟨hle, hin⟩, hnext⟩ := Option.ite_none_right_eq_some.mp hnext
      split at hnext
      · cases hnext
      · rename_i hne
        cases hnext
        exact hs.ok hne hle hin
    | eintr =>
      cases hnext
      exact ⟨going_concat hs.going (.inl rfl), hs.left, hs.sum,
        by rw [delivered_eintr]; exact hs.count, hs.inside,
        by rw [delivered_eintr]; exact hs.stored⟩
    | ewouldblock => cases hnext
    | error => cases hnext

/-! ### `ReadFd` -/

/-- The variables of `ReadFd` before a call. -/
structure Appending (buf : StdString) (used : List (Answer (List UInt8))) (s : ReadFdState) :
    Prop where
  going : ∀ a ∈ used, Going a
  sum : s.readsum = Int64.ofNat (delivered used).length
  appended : s.buf.bytes = buf.bytes ++ delivered used

/-- **One call** appends its bytes. -/
theorem Appending.ok {buf buf' : StdString} {used : List (Answer (List UInt8))} {s : ReadFdState}
    (h : Appending buf used s) {bs : List UInt8} (hne : bs ≠ [])
    (happend : s.buf.append bs = some buf') :
    Appending buf (used ++ [.ok bs])
      { readsum := s.readsum + Int64.ofNat bs.length, buf := buf' } := by
  unfold StdString.append at happend
  split at happend
  · cases happend
    refine ⟨going_concat h.going (.inr ⟨bs, hne, rfl⟩), ?_, ?_⟩
    · show s.readsum + Int64.ofNat bs.length = _
      rw [h.sum, delivered_ok, List.length_append, Int64.ofNat_add]
    · show s.buf.bytes ++ bs = _
      rw [h.appended, delivered_ok, List.append_assoc]
  · cases happend

/-- What is known when the loop ends. The string holds the bytes, so the sum has not wrapped. -/
theorem Appending.ended {buf : StdString} {used : List (Answer (List UInt8))} {s : ReadFdState}
    (h : Appending buf used s) {a : Answer (List UInt8)} (ha : Ends a) :
    Ended (used ++ [a]) ∧ s.readsum.toInt = (delivered (used ++ [a])).length
      ∧ s.buf.bytes = buf.bytes ++ delivered (used ++ [a]) := by
  have hlt : (delivered used).length < 2 ^ 63 := by
    have hle := s.buf.length_lt
    rw [h.appended, List.length_append] at hle
    omega
  obtain ⟨hsame, hended⟩ := ended_concat ha h.going
  rw [hsame, h.sum]
  exact ⟨hended, Int64.toInt_ofNat_of_lt hlt, h.appended⟩

/-- **What `ReadFd` reads.** -/
theorem readFd_spec {buf buf' : StdString} {as rest : List (Answer (List UInt8))} {r : Int64}
    (h : readFd buf as = some ((some r, buf'), rest)) (hr : 0 ≤ r) :
    ∃ used, as = used ++ rest ∧ Ended used ∧ r.toInt = (delivered used).length
      ∧ buf'.bytes = buf.bytes ++ delivered used := by
  have hstart : Appending buf [] { readsum := 0, buf } :=
    ⟨fun _ ha => absurd ha List.not_mem_nil, rfl, (List.append_nil _).symm⟩
  suffices hrule : ∃ used, as = used ++ rest ∧ ∀ r', some r = some r' → 0 ≤ r' → Ended used
      ∧ r'.toInt = (delivered used).length ∧ buf'.bytes = buf.bytes ++ delivered used by
    obtain ⟨used, hused, hq⟩ := hrule
    exact ⟨used, hused, hq r rfl hr⟩
  refine Retry.rule (I := Appending buf)
    (Q := fun used (q : Option Int64 × StdString) => ∀ r, q.1 = some r → 0 ≤ r → Ended used
      ∧ r.toInt = (delivered used).length ∧ q.2.bytes = buf.bytes ++ delivered used)
    (fun _ _ _ _ hdone => absurd hdone (by simp [readFdLoop])) ?_ ?_ hstart h
  · intro used s a q hs _ hnext
    cases a with
    | ok bs =>
      obtain ⟨-, hnext⟩ := Option.ite_none_right_eq_some.mp hnext
      split at hnext
      · rename_i hnil
        cases hnext
        intro r hsum _
        rw [← Option.some.inj hsum]
        exact hs.ended (.inl (by rw [hnil]))
      · split at hnext
        · cases hnext
          intro r hthrown
          cases hthrown
        · cases hnext
    | eintr => cases hnext
    | ewouldblock =>
      cases hnext
      intro r hsum _
      rw [← Option.some.inj hsum]
      exact hs.ended (.inr rfl)
    | error =>
      cases hnext
      intro r hminus hr
      rw [← Option.some.inj hminus] at hr
      exact absurd hr (by decide)
  · intro used s a s' hs _ hnext
    cases a with
    | ok bs =>
      obtain ⟨-, hnext⟩ := Option.ite_none_right_eq_some.mp hnext
      split at hnext
      · cases hnext
      · rename_i hne
        split at hnext
        · cases hnext
        · rename_i buf'' happend
          cases hnext
          exact hs.ok hne happend
    | eintr =>
      cases hnext
      exact ⟨going_concat hs.going (.inl rfl), by rw [delivered_eintr]; exact hs.sum,
        by rw [delivered_eintr]; exact hs.appended⟩
    | ewouldblock => cases hnext
    | error => cases hnext

/-! ## Interruptions -/

/-- The call has failed with `EINTR`. -/
def Answer.interrupted {α : Type} : Answer α → Bool
  | .eintr => true
  | _ => false

/-- The answers without the interruptions. -/
def uninterrupted {α : Type} (as : List (Answer α)) : List (Answer α) :=
  as.filter fun a => !a.interrupted

/-- A loop that calls again after an interruption gives the same without it. -/
theorem run_uninterrupted {σ ρ α : Type} {l : Retry σ (Answer α) ρ}
    (h : ∀ s, l.answered s .eintr = some (.again s)) (s : σ) (as : List (Answer α)) :
    (l.run s (uninterrupted as)).map Prod.fst = (l.run s as).map Prod.fst := by
  refine Retry.run_filter (fun s a ha => ?_) s as
  cases a with
  | eintr => exact h s
  | ok _ => cases ha
  | ewouldblock => cases ha
  | error => cases ha

/-- **The loops repeat nothing and skip nothing.** Whatever the calls answer: when `Writen` returns
`r ≥ 0`, this is `n` and the descriptor has accepted the `n` bytes of the buffer; when `Readn` does,
the first `r` bytes of the buffer are those that came next in the stream, at most `n`, and
fewer only at the end of the file or when there was nothing to read; when `ReadFd` does, it
has appended the `r` bytes up to there. What the calls answer between may be interrupted
anywhere. -/
theorem retry_law :
    (∀ {buf accepted : List UInt8} {n : UInt64} {as rest : List (Answer Nat)} {r : Int64},
      writen buf n as = some ((r, accepted), rest) → 0 ≤ r →
        r.toInt = n.toNat ∧ n.toNat ≤ buf.length ∧ accepted = buf.take n.toNat)
      ∧ (∀ {buf : StdString} {accepted : List UInt8} {as rest : List (Answer Nat)} {r : Int64},
        writeFd buf as = some ((r, accepted), rest) → 0 ≤ r →
          r.toInt = buf.bytes.length ∧ accepted = buf.bytes)
      ∧ (∀ {buf buf' : List UInt8} {n : UInt64} {as rest : List (Answer (List UInt8))} {r : Int64},
        readn buf n as = some ((r, buf'), rest) → 0 ≤ r →
          ∃ used, as = used ++ rest ∧ HasRead buf n used (r, buf'))
      ∧ (∀ {buf buf' : StdString} {as rest : List (Answer (List UInt8))} {r : Int64},
        readFd buf as = some ((some r, buf'), rest) → 0 ≤ r →
          ∃ used, as = used ++ rest ∧ Ended used ∧ r.toInt = (delivered used).length
            ∧ buf'.bytes = buf.bytes ++ delivered used)
      ∧ (∀ buf n as,
        (writen buf n (uninterrupted as)).map Prod.fst = (writen buf n as).map Prod.fst)
      ∧ (∀ buf as, (writeFd buf (uninterrupted as)).map Prod.fst = (writeFd buf as).map Prod.fst)
      ∧ (∀ buf n as, (readn buf n (uninterrupted as)).map Prod.fst = (readn buf n as).map Prod.fst)
      ∧ ∀ buf as, (readFd buf (uninterrupted as)).map Prod.fst = (readFd buf as).map Prod.fst :=
  ⟨fun h => (writen_spec h).2, writeFd_spec, readn_spec, readFd_spec,
    fun _ _ as => run_uninterrupted (fun _ => rfl) _ as,
    fun _ as => run_uninterrupted (fun _ => rfl) _ as,
    fun _ _ as => run_uninterrupted (fun _ => rfl) _ as,
    fun _ as => run_uninterrupted (fun _ => rfl) _ as⟩

/-- Three bytes written in two calls, and two of four read before the end of the file. -/
theorem retry_law_small :
    ([1, 2, 3] : List UInt8) = [1, 2, 3, 4].take (3 : UInt64).toNat
      ∧ ∃ used, [.ok [7], .eintr, .ok [8], .ok []] = used ++ []
        ∧ HasRead [0, 0, 0, 0] 4 used (2, [7, 8, 0, 0]) :=
  ⟨(retry_law.1 (show writen [1, 2, 3, 4] 3 [.ok 1, .eintr, .ok 2] = some ((3, [1, 2, 3]), []) by
      decide) (by decide)).2.2,
    retry_law.2.2.1 (by decide) (by decide)⟩

end Util

end Windz
