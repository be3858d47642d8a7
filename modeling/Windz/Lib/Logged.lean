import Mathlib.Init

/-!
# Computations with a log

A computation that writes down what it does and may fail. Two computations `Agree` when
they are one and the same, give a result, and every entry of the log is as it should be;
the rules take them apart step by step, and what is known of the result of the first step
is there for the second.
-/

namespace Windz.Lib

variable {ω α β : Type}

/-- A computation that has written `log`, with its result unless it has failed. -/
structure Logged (ω α : Type) where
  /-- What was written down, oldest first. -/
  log : List ω
  /-- The result, `none` when the computation has failed. -/
  result : Option α

namespace Logged

instance : Monad (Logged ω) where
  pure a := ⟨[], some a⟩
  bind x f :=
    match x.result with
    | none => ⟨x.log, none⟩
    | some a => ⟨x.log ++ (f a).log, (f a).result⟩

theorem bind_some {x : Logged ω α} {a : α} (f : α → Logged ω β) (h : x.result = some a) :
    x >>= f = ⟨x.log ++ (f a).log, (f a).result⟩ := by
  show (match x.result with
    | none => ⟨x.log, none⟩
    | some a => ⟨x.log ++ (f a).log, (f a).result⟩ : Logged ω β) = _
  rw [h]

@[simp] theorem result_pure (a : α) : (pure a : Logged ω α).result = some a := rfl

@[simp] theorem result_bind (x : Logged ω α) (f : α → Logged ω β) :
    (x >>= f).result = x.result.bind fun a => (f a).result := by
  cases h : x.result with
  | none =>
    show (match x.result with
      | none => ⟨x.log, none⟩
      | some a => ⟨x.log ++ (f a).log, (f a).result⟩ : Logged ω β).result = _
    rw [h]
    rfl
  | some a =>
    rw [bind_some f h]
    rfl

/-- A computation without a log. -/
def ofOption (r : Option α) : Logged ω α := ⟨[], r⟩

@[simp] theorem result_ofOption (r : Option α) : (ofOption r : Logged ω α).result = r := rfl

/-- One entry of the log. -/
def record (v : ω) (a : α) : Logged ω α := ⟨[v], some a⟩

@[simp] theorem result_record (v : ω) (a : α) : (record v a).result = some a := rfl

/-- The two are the same, with entries that are `ok` and a result that satisfies `post`. -/
structure Agree (ok : ω → Prop) (post : α → Prop) (x y : Logged ω α) : Prop where
  same : x = y
  log : ∀ v ∈ x.log, ok v
  returns : ∃ a, x.result = some a ∧ post a

variable {ok : ω → Prop} {post : α → Prop} {post' : β → Prop}

theorem Agree.pure {a : α} (h : post a) : Agree ok post (pure a) (pure a) :=
  ⟨rfl, fun _ hv => absurd hv List.not_mem_nil, a, rfl, h⟩

/-- **One step after the other.** -/
theorem Agree.bind {x y : Logged ω α} {f g : α → Logged ω β} (h : Agree ok post x y)
    (hfg : ∀ a, post a → Agree ok post' (f a) (g a)) : Agree ok post' (x >>= f) (y >>= g) := by
  obtain ⟨a, ha, hpost⟩ := h.returns
  obtain ⟨hsame, hlog, b, hb, hpost'⟩ := hfg a hpost
  rw [← h.same, bind_some f ha, bind_some g ha]
  refine ⟨by rw [hsame], fun v hv => ?_, b, hb, hpost'⟩
  rcases List.mem_append.mp hv with hv | hv
  · exact h.log v hv
  · exact hlog v hv

end Logged

end Windz.Lib
