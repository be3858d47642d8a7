import Windz.Net.TcpConnection

/-!
# The life of a connection

What the owner and the user of a connection rely on, said without the code: a
connection is established once, told about once, read and written, closed by one
call of `close_cb_`, and destroyed, which is told about once more. `Lifecycle cb t p`
says that the trace `t` is the beginning of such a life and has got to phase `p`,
`cb` being whether there is a `connection_cb_`.

The properties of such traces are proved here, by induction on the trace.
-/

namespace Windz

/-- The phases of a connection. -/
inductive Phase where
  | fresh
  -- established, and `connection_cb_` about to be called
  | announcing
  | opened
  /-- `close_cb_` has been called. -/
  | closed
  -- destroyed, and `connection_cb_` about to be called
  | announcingEnd
  | destroyed
deriving DecidableEq

namespace Phase

/-- The phase behind an event, if the event can come there. -/
def next (cb : Bool) : Phase → ConnEvent → Option Phase
  | fresh, .establishConnection => some (if cb then announcing else opened)
  | announcing, .connectionCb .establish true => if cb then some opened else none
  | opened, .handleRead | opened, .messageCb | opened, .handleWrite | opened, .handleClose =>
      some opened
  | opened, .closeCb => some closed
  -- `HandleWrite` behind the `HandleRead` of the same event
  | closed, .handleWrite => some closed
  | closed, .destroyConnection => some (if cb then announcingEnd else destroyed)
  | announcingEnd, .connectionCb .destroy false => if cb then some destroyed else none
  | _, _ => none

/-- How often `EstablishConnection`, `close_cb_` and `DestroyConnection` have been called. -/
def establishes : Phase → Nat
  | fresh => 0
  | _ => 1

/-- How often `close_cb_` has been called. -/
def closes : Phase → Nat
  | fresh | announcing | opened => 0
  | _ => 1

/-- How often `DestroyConnection` has. -/
def destroys : Phase → Nat
  | announcingEnd | destroyed => 1
  | _ => 0

/-- The calls of `connection_cb_`, each with its caller and `connected()`. -/
def announced (cb : Bool) : Phase → List (ConnCaller × Bool)
  | fresh | announcing => []
  | opened | closed | announcingEnd => if cb then [(.establish, true)] else []
  | destroyed => if cb then [(.establish, true), (.destroy, false)] else []

end Phase

/-- The trace is the beginning of a life, up to the phase. -/
inductive Lifecycle (cb : Bool) : List ConnEvent → Phase → Prop where
  | nil : Lifecycle cb [] .fresh
  | snoc {t : List ConnEvent} {p p' : Phase} {e : ConnEvent} (h : Lifecycle cb t p)
      (hn : p.next cb e = some p') : Lifecycle cb (t ++ [e]) p'

/-- The call of `connection_cb_` that an event is. -/
def ConnEvent.announced : ConnEvent → Option (ConnCaller × Bool)
  | .connectionCb caller connected => some (caller, connected)
  | _ => none

namespace Lifecycle

variable {cb : Bool} {t : List ConnEvent} {p : Phase}

/-- One event changes the counts as the phase says. -/
theorem next_counts {p p' : Phase} {e : ConnEvent} (h : p.next cb e = some p') :
    p'.establishes = p.establishes + [e].count .establishConnection
      ∧ p'.closes = p.closes + [e].count .closeCb
      ∧ p'.destroys = p.destroys + [e].count .destroyConnection := by
  cases cb <;> revert h <;> unfold Phase.next <;> split <;> intro h <;>
    first | (cases h; done) | (cases h; decide)

theorem counts (h : Lifecycle cb t p) :
    t.count .establishConnection = p.establishes ∧ t.count .closeCb = p.closes
      ∧ t.count .destroyConnection = p.destroys := by
  induction h with
  | nil => exact ⟨rfl, rfl, rfl⟩
  | snoc h hn ih =>
    obtain ⟨h1, h2, h3⟩ := next_counts hn
    rw [List.count_append, List.count_append, List.count_append, ih.1, ih.2.1, ih.2.2]
    exact ⟨h1.symm, h2.symm, h3.symm⟩

theorem closes_le (p : Phase) : p.closes ≤ 1 := by cases p <;> decide

theorem establishes_le (p : Phase) : p.establishes ≤ 1 := by cases p <;> decide

theorem destroys_le (p : Phase) : p.destroys ≤ p.closes := by cases p <;> decide

/-- `close_cb_` is called at most once. -/
theorem closeCb_once (h : Lifecycle cb t p) : t.count .closeCb ≤ 1 := by
  rw [h.counts.2.1]
  exact closes_le p

theorem establish_once (h : Lifecycle cb t p) : t.count .establishConnection ≤ 1 := by
  rw [h.counts.1]
  exact establishes_le p

theorem destroy_once (h : Lifecycle cb t p) : t.count .destroyConnection ≤ 1 := by
  rw [h.counts.2.2]
  exact Nat.le_trans (destroys_le p) (closes_le p)

/-- What is in a pair of events of which the second is the last one of the trace. -/
theorem pair_snoc {t : List ConnEvent} {e a b : ConnEvent} (h : [a, b].Sublist (t ++ [e])) :
    [a, b].Sublist t ∨ b = e ∧ a ∈ t := by
  obtain ⟨l₁, l₂, he, h1, h2⟩ := List.sublist_append_iff.mp h
  rcases List.sublist_singleton.mp h2 with hl | hl
  · rw [hl, List.append_nil] at he
    rw [he]
    exact .inl h1
  · rw [hl] at he
    have hpair : [a] ++ [b] = l₁ ++ [e] := he
    obtain ⟨ha, hb⟩ := List.append_inj' hpair rfl
    rw [← ha] at h1
    exact .inr ⟨(List.cons.inj hb).1, List.singleton_sublist.mp h1⟩

/-- No `message_cb_` after `close_cb_`. -/
theorem no_message_after_close (h : Lifecycle cb t p) : ¬ [.closeCb, .messageCb].Sublist t := by
  induction h with
  | nil => simp
  | @snoc t p p' e h hn ih =>
    intro hsub
    rcases pair_snoc hsub with hsub | ⟨he, hmem⟩
    · exact ih hsub
    · rw [← he] at hn
      have hclosed : 0 < p.closes := by
        rw [← h.counts.2.1]
        exact List.count_pos_iff.mpr hmem
      cases p <;> first | (cases hn; done) | exact absurd hclosed (by decide)

/-- `DestroyConnection` comes after `close_cb_`. -/
theorem close_before_destroy (h : Lifecycle cb t p) :
    ¬ [.destroyConnection, .closeCb].Sublist t
      ∧ (.destroyConnection ∈ t → .closeCb ∈ t) := by
  constructor
  · induction h with
    | nil => simp
    | @snoc t p p' e h hn ih =>
      intro hsub
      rcases pair_snoc hsub with hsub | ⟨he, hmem⟩
      · exact ih hsub
      · rw [← he] at hn
        have hdestroyed : 0 < p.destroys := by
          rw [← h.counts.2.2]
          exact List.count_pos_iff.mpr hmem
        cases p <;> first | (cases hn; done) | exact absurd hdestroyed (by decide)
  · intro hmem
    have hdestroyed := List.count_pos_iff.mpr hmem
    rw [h.counts.2.2] at hdestroyed
    rw [← List.count_pos_iff, h.counts.2.1]
    exact Nat.lt_of_lt_of_le hdestroyed (destroys_le p)

/-- `EstablishConnection` comes before anything else. -/
theorem establish_first (h : Lifecycle cb t p) (hne : t ≠ []) :
    t.head? = some .establishConnection := by
  induction h with
  | nil => exact absurd rfl hne
  | @snoc t p p' e h hn ih =>
    by_cases ht : t = []
    · rw [ht] at h ⊢
      -- the first event is of phase `fresh`
      have hp : p = .fresh := by
        have hcount := h.counts.1
        cases p <;> first | rfl | exact absurd hcount (by decide)
      rw [hp] at hn
      cases e <;> first | rfl | cases hn
    · rw [List.head?_append, ih ht]
      rfl

theorem next_announced {p p' : Phase} {e : ConnEvent} (h : p.next cb e = some p') :
    p'.announced cb = p.announced cb ++ [e].filterMap ConnEvent.announced := by
  cases cb <;> revert h <;> unfold Phase.next <;> split <;> intro h <;>
    first | (cases h; done) | (cases h; decide)

theorem announced_eq (h : Lifecycle cb t p) :
    t.filterMap ConnEvent.announced = p.announced cb := by
  induction h with
  | nil => rfl
  | snoc h hn ih => rw [List.filterMap_append, ih, next_announced hn]

/-- `connection_cb_` is called at most twice: connected, and then not. -/
theorem announced_twice (h : Lifecycle cb t p) :
    t.filterMap ConnEvent.announced <+: [(.establish, true), (.destroy, false)] := by
  rw [h.announced_eq]
  cases cb <;> cases p <;> simp [Phase.announced]

end Lifecycle

end Windz
