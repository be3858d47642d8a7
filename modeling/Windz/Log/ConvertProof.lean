import Windz.Log.Convert

/-!
# The conversions write canonical numerals

A numeral is text for one number only, so it is enough to know the digits that the
loop stores. It finds them last digit first, which is how `numeral_eq_concat` takes a
numeral apart, and the result holds of every type at once: a sign is the only thing
in which they differ.
-/

namespace Windz

open Lib
open Integer (toInt literal)

namespace LogStream

/-! ## Texts of numbers -/

/-- The character of a decimal digit. -/
def decimalChar (d : Nat) : UInt8 := '0'.toUInt8 + UInt8.ofNat d

/-- The character of a hexadecimal digit. -/
def hexChar (d : Nat) : UInt8 :=
  if d < 10 then '0'.toUInt8 + UInt8.ofNat d else 'a'.toUInt8 + UInt8.ofNat (d - 10)

/-- The sign of a number. -/
def sign (v : Int) : List UInt8 := if v < 0 then [minus] else []

/-- `s` is the canonical decimal numeral of `v`: a `-` if it is negative, and the digits. -/
def IsDecimal (s : List UInt8) (v : Int) : Prop :=
  ∃ ds, IsNumeral 10 ds v.natAbs ∧ s = sign v ++ ds.map decimalChar

/-- `s` is the canonical lower-case hexadecimal numeral of `n`. -/
def IsHex (s : List UInt8) (n : Nat) : Prop := ∃ ds, IsNumeral 16 ds n ∧ s = ds.map hexChar

/-- A number in decimal. -/
def decimal (v : Int) : List UInt8 := sign v ++ (numeral 10 v.natAbs).map decimalChar

/-- A number in hexadecimal. -/
def hex (n : Nat) : List UInt8 := (numeral 16 n).map hexChar

/-- Reading digits from left to right. -/
def readDigits (b : Nat) (value : UInt8 → Nat) (s : List UInt8) : Nat :=
  s.foldl (fun n c => b * n + value c) 0

/-- The digit a character stands for, in decimal. -/
def decimalValue (c : UInt8) : Nat := (c - '0'.toUInt8).toNat

/-- The digit a character stands for, in hexadecimal. -/
def hexValue (c : UInt8) : Nat :=
  if c < 'a'.toUInt8 then (c - '0'.toUInt8).toNat else (c - 'a'.toUInt8).toNat + 10

/-- The number that a decimal numeral stands for. -/
def readDecimal : List UInt8 → Int
  | [] => 0
  | c :: s => if c = minus then -(readDigits 10 decimalValue s : Int)
      else readDigits 10 decimalValue (c :: s)

/-- The number that a hexadecimal numeral stands for. -/
def readHex (s : List UInt8) : Nat := readDigits 16 hexValue s

theorem isDecimal_iff {s : List UInt8} {v : Int} : IsDecimal s v ↔ s = decimal v := by
  constructor
  · intro ⟨ds, hds, he⟩
    rw [he, hds.eq_numeral (by decide)]
    rfl
  · intro he
    exact ⟨_, isNumeral_numeral (by decide) _, he⟩

theorem isHex_iff {s : List UInt8} {n : Nat} : IsHex s n ↔ s = hex n := by
  constructor
  · intro ⟨ds, hds, he⟩
    rw [he, hds.eq_numeral (by decide)]
    rfl
  · intro he
    exact ⟨_, isNumeral_numeral (by decide) _, he⟩

/-! ## Reading back -/

theorem readDigits_map {b n : Nat} {value : UInt8 → Nat} {char : Nat → UInt8}
    (hvalue : ∀ d < b, value (char d) = d) {ds : List Nat} (h : IsNumeral b ds n) :
    readDigits b value (ds.map char) = n := by
  have key : ∀ l : List Nat, (∀ d ∈ l, d < b) →
      (l.map char).foldr (fun c n => b * n + value c) 0 = Nat.ofDigits b l := by
    intro l hl
    induction l with
    | nil => rfl
    | cons d l ih =>
      rw [List.map_cons, List.foldr_cons, ih fun e he => hl e (List.mem_cons_of_mem _ he),
        hvalue d (hl d List.mem_cons_self), Nat.ofDigits_cons, Nat.add_comm]
  unfold readDigits
  rw [← List.foldr_reverse, ← List.map_reverse,
    key _ fun d hd => h.digit d (List.mem_reverse.mp hd), h.value]

theorem decimalValue_char : ∀ d < 10, decimalValue (decimalChar d) = d := by decide

theorem hexValue_char : ∀ d < 16, hexValue (hexChar d) = d := by decide

theorem decimalChar_ne_minus : ∀ d < 10, decimalChar d ≠ minus := by decide

theorem IsDecimal.read {s : List UInt8} {v : Int} (h : IsDecimal s v) : readDecimal s = v := by
  obtain ⟨ds, hds, he⟩ := h
  have hread := readDigits_map decimalValue_char hds
  rw [he]
  by_cases hneg : v < 0
  · rw [sign, if_pos hneg]
    rw [List.singleton_append, readDecimal, if_pos rfl, hread]
    omega
  · rw [sign, if_neg hneg, List.nil_append]
    cases ds with
    | nil => exact absurd rfl hds.ne_nil
    | cons d ds =>
      rw [List.map_cons] at hread ⊢
      rw [readDecimal, if_neg (decimalChar_ne_minus d (hds.digit d List.mem_cons_self)), hread]
      omega

theorem IsHex.read {s : List UInt8} {n : Nat} (h : IsHex s n) : readHex s = n := by
  obtain ⟨ds, hds, he⟩ := h
  rw [he]
  exact readDigits_map hexValue_char hds

/-! ## The loop -/

section Loop

variable {T : Type} [Integer T] {r : Radix} {char : Nat → UInt8} {value : T}

/-- The table gives the digit of every remainder that can occur. -/
def Radix.Spells (T : Type) [Integer T] (r : Radix) (char : Nat → UInt8) : Prop :=
  ∀ i : T, r.digit ((toInt i).tmod r.base) = some (char ((toInt i).natAbs % r.base))

/-- **The loop stores the digits, last digit first.** -/
theorem digitLoop_eq (hr : Radix.Spells T r char) (mem : List UInt8) (p : Nat) (i : T) :
    digitLoop r mem p i
      = (copyIn mem p ((numeral r.base (toInt i).natAbs).reverse.map char)).map
          fun m => (m, p + (numeral r.base (toInt i).natAbs).length) := by
  fun_induction digitLoop r mem p i with
  | case1 mem p i hnone =>
    rw [r.toInt_mod, hr i, Option.bind_some] at hnone
    rw [numeral_eq_concat r.one_lt, List.reverse_append, List.reverse_singleton,
      List.singleton_append, List.map_cons, copyIn, hnone]
    rfl
  | case2 mem p i mem' hsome hne ih =>
    rw [ih]
    rw [r.toInt_mod, hr i, Option.bind_some] at hsome
    have hdiv := r.natAbs_div i
    have hq : (toInt i).natAbs / r.base ≠ 0 := by
      rw [← hdiv]
      exact fun h0 => hne (Int.natAbs_eq_zero.mp h0)
    rw [numeral_eq_concat r.one_lt (toInt i).natAbs, if_neg hq, List.reverse_append,
      List.reverse_singleton, List.singleton_append, List.map_cons, copyIn, hsome, hdiv,
      List.length_append, List.length_singleton]
    show _ = (copyIn mem' (p + 1) _).map _
    congr 1
    funext m
    rw [Nat.add_assoc, Nat.add_comm 1]
  | case3 mem p i mem' hsome hz =>
    rw [r.toInt_mod, hr i, Option.bind_some] at hsome
    have hdiv := r.natAbs_div i
    have hq : (toInt i).natAbs / r.base = 0 := by
      rw [← hdiv, Int.natAbs_eq_zero]
      exact not_not.mp hz
    rw [numeral_eq_concat r.one_lt, if_pos hq, List.nil_append, List.reverse_singleton,
      List.map_singleton, copyIn, hsome]
    rfl

end Loop

theorem zero_eq : ∀ d < 10, zero (Int.ofNat d) = some (decimalChar d)
    ∧ zero (-Int.ofNat d) = some (decimalChar d) := by decide

theorem digitsHex_eq : ∀ d < 16, hexRadix.digit (Int.ofNat d) = some (hexChar d) := by decide

/-- The table reads the same from its middle in both directions, for remainders of either sign. -/
theorem decimalRadix_spells (T : Type) [Integer T] : Radix.Spells T decimalRadix decimalChar := by
  intro i
  have hlt : (toInt i).natAbs % 10 < 10 := Nat.mod_lt _ (by decide)
  obtain ⟨hpos, hneg⟩ := zero_eq _ hlt
  show zero ((toInt i).tmod (10 : Nat)) = some (decimalChar ((toInt i).natAbs % 10))
  rcases Int.natAbs_eq (toInt i) with hi | hi
  · rw [hi, ← Int.ofNat_tmod, Int.natAbs_natCast]
    exact hpos
  · rw [hi, Int.neg_tmod, ← Int.ofNat_tmod, Int.natAbs_neg, Int.natAbs_natCast]
    exact hneg

theorem hexRadix_spells : Radix.Spells UInt64 hexRadix hexChar := by
  intro i
  show hexRadix.digit ((i.toNat : Int).tmod (16 : Nat)) = some (hexChar (i.toNat % 16))
  rw [← Int.ofNat_tmod]
  exact digitsHex_eq _ (Nat.mod_lt _ (by decide))

/-! ## The whole conversion -/

variable {T : Type} [Integer T] {mem : List UInt8} {buf : Nat}

/-- A text stored in reverse and a NUL behind it, in pieces, and then the reversal. -/
theorem reverse_stored {s t : List UInt8} (h : buf + (s ++ t).length < mem.length) :
    ∃ m m' m'', copyIn mem buf t.reverse = some m
      ∧ copyIn m (buf + t.length) s.reverse = some m'
      ∧ store? m' (buf + t.length + s.length) nul = some m''
      ∧ reverse? m'' buf (buf + t.length + s.length)
        = some (overwrite mem buf (s ++ t ++ [nul])) := by
  have hlen : buf + ((s ++ t).reverse ++ [nul]).length ≤ mem.length := by
    rw [List.length_append, List.length_reverse, List.length_singleton]
    omega
  have hrev := reverse?_overwrite hlen
  rw [List.length_reverse, List.reverse_reverse, List.length_append] at hrev
  have hcopy := copyIn_eq _ _ _ hlen
  rw [List.reverse_append, List.append_assoc, copyIn_append] at hcopy
  obtain ⟨m, hm, hcopy⟩ := Option.bind_eq_some_iff.mp hcopy
  rw [copyIn_append, List.length_reverse] at hcopy
  obtain ⟨m', hm', hcopy⟩ := Option.bind_eq_some_iff.mp hcopy
  rw [List.length_reverse, copyIn] at hcopy
  obtain ⟨m'', hm'', hcopy⟩ := Option.bind_eq_some_iff.mp hcopy
  refine ⟨m, m', m'', hm, hm', hm'', ?_⟩
  rw [Option.some.inj hcopy, ← List.append_assoc, ← List.reverse_append, Nat.add_assoc,
    Nat.add_comm t.length]
  exact hrev

theorem storeSign_eq (m : List UInt8) (p : Nat) (v : Int) :
    storeSign m p v = (copyIn m p (sign v).reverse).map fun mem => (mem, p + (sign v).length) := by
  unfold storeSign
  by_cases hneg : v < 0
  · rw [if_pos hneg, sign, if_pos hneg, List.reverse_singleton, copyIn]
    cases store? m p minus <;> rfl
  · rw [if_neg hneg, sign, if_neg hneg]
    rfl

theorem convert_eq (v : T) (h : buf + (decimal (toInt v)).length < mem.length) :
    convert mem buf v
      = some (overwrite mem buf (decimal (toInt v) ++ [nul]), (decimal (toInt v)).length) := by
  obtain ⟨m, m', m'', hm, hm', hm'', hrev⟩ := reverse_stored h
  rw [List.length_map] at hm' hm'' hrev
  rw [← List.map_reverse] at hm
  have hloop : digitLoop decimalRadix mem buf v
      = some (m, buf + (numeral 10 (toInt v).natAbs).length) := by
    rw [digitLoop_eq (decimalRadix_spells T)]
    exact congrArg (Option.map _) hm
  have hlen : (decimal (toInt v)).length
      = (numeral 10 (toInt v).natAbs).length + (sign (toInt v)).length := by
    rw [decimal, List.length_append, List.length_map, Nat.add_comm]
  unfold convert
  rw [hloop, Option.bind_eq_bind, Option.bind_some]
  dsimp only [Option.bind_eq_bind]
  rw [storeSign_eq, hm', Option.map_some, Option.bind_some]
  dsimp only
  rw [hm'', Option.bind_some, hrev, Option.bind_some, hlen, Nat.add_assoc, Nat.add_sub_cancel_left]
  rfl

theorem convertHex_eq (v : UInt64) (h : buf + (hex v.toNat).length < mem.length) :
    convertHex mem buf v
      = some (overwrite mem buf (hex v.toNat ++ [nul]), (hex v.toNat).length) := by
  obtain ⟨m, m', m'', hm, hm', hm'', hrev⟩ := reverse_stored (s := []) (t := hex v.toNat) h
  rw [List.reverse_nil, copyIn] at hm'
  rw [← Option.some.inj hm', List.length_nil, Nat.add_zero] at hm''
  rw [List.length_nil, Nat.add_zero, List.nil_append] at hrev
  have hlen : (hex v.toNat).length = (numeral 16 v.toNat).length := List.length_map _
  have hloop : digitLoop hexRadix mem buf v = some (m, buf + (hex v.toNat).length) := by
    rw [digitLoop_eq hexRadix_spells, List.map_reverse, hlen]
    exact congrArg (Option.map _) hm
  unfold convertHex
  rw [hloop, Option.bind_eq_bind, Option.bind_some]
  dsimp only [Option.bind_eq_bind]
  rw [hm'', Option.bind_some, hrev, Option.bind_some, Nat.add_sub_cancel_left]
  rfl

theorem decimal_length_le (v : T) : (decimal (toInt v)).length ≤ 21 := by
  have hdigits : (numeral 10 (toInt v).natAbs).length ≤ 20 :=
    numeral_length_le (by decide) (by decide) (Integer.small v)
  have hsign : (sign (toInt v)).length ≤ 1 := by
    unfold sign
    split <;> simp
  rw [decimal, List.length_append, List.length_map]
  omega

theorem hex_length_le (v : UInt64) : (hex v.toNat).length ≤ 16 := by
  have hlt := v.toNat_lt
  rw [hex, List.length_map]
  exact numeral_length_le (by decide) (by decide) hlt

/--
**Integers are written as canonical numerals.**

For every value of every type, and any memory with room for the numeral and a NUL, `Convert` puts
both at `buf`, changes nothing else and returns the length of the numeral; so does `ConvertHex`.
The numerals are the canonical ones, are read back as the value, and differ for different values.
-/
theorem convert_writes_numeral :
    (∀ (t : IntegerType) (v : t.Value) (mem : List UInt8) (buf : Nat),
      buf + (decimal (toInt v)).length < mem.length →
        convert mem buf v
          = some (overwrite mem buf (decimal (toInt v) ++ [nul]), (decimal (toInt v)).length))
    ∧ (∀ (t : IntegerType) (v : t.Value),
        (∀ s, IsDecimal s (toInt v) ↔ s = decimal (toInt v))
        ∧ readDecimal (decimal (toInt v)) = toInt v
        ∧ ∀ w : t.Value, decimal (toInt w) = decimal (toInt v) → w = v)
    ∧ (∀ (v : UInt64) (mem : List UInt8) (buf : Nat), buf + (hex v.toNat).length < mem.length →
        convertHex mem buf v
          = some (overwrite mem buf (hex v.toNat ++ [nul]), (hex v.toNat).length))
    ∧ ∀ v : UInt64, (∀ s, IsHex s v.toNat ↔ s = hex v.toNat)
        ∧ readHex (hex v.toNat) = v.toNat
        ∧ ∀ w : UInt64, hex w.toNat = hex v.toNat → w = v := by
  refine ⟨fun t v mem buf h => convert_eq v h, fun t v => ⟨fun s => isDecimal_iff, ?_, ?_⟩,
    fun v mem buf h => convertHex_eq v h, fun v => ⟨fun s => isHex_iff, ?_, ?_⟩⟩
  · exact (isDecimal_iff.mpr rfl).read
  · intro w he
    apply Integer.toInt_injective
    rw [← (isDecimal_iff.mpr rfl : IsDecimal (decimal (toInt w)) _).read, he,
      (isDecimal_iff.mpr rfl : IsDecimal (decimal (toInt v)) _).read]
  · exact (isHex_iff.mpr rfl).read
  · intro w he
    apply UInt64.toNat.inj
    rw [← (isHex_iff.mpr rfl : IsHex (hex w.toNat) _).read, he,
      (isHex_iff.mpr rfl : IsHex (hex v.toNat) _).read]

/-- The smallest `long`, and an address. -/
theorem convert_writes_numeral_small :
    convert (List.replicate 23 7) 1 (Int64.minValue : IntegerType.Value .long)
      = some (7 :: text "-9223372036854775808" ++ [nul, 7], 20)
    ∧ convertHex (List.replicate 8 7) 2 0xbeef = some ([7, 7] ++ text "beef" ++ [nul, 7], 4) := by
  have hlong := convert_writes_numeral.1 .long Int64.minValue (List.replicate 23 7) 1
    (by decide +kernel)
  have hhex := convert_writes_numeral.2.2.1 0xbeef (List.replicate 8 7) 2 (by decide +kernel)
  exact ⟨hlong.trans (by decide +kernel), hhex.trans (by decide +kernel)⟩

end LogStream

end Windz
