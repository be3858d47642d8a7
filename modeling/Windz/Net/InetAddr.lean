import Mathlib.Data.List.TakeWhile
import Windz.Lib.Numeral

/-!
# `InetAddr`

The address of `net/Socket.h` and `net/Socket.cpp`: four bytes and a port as they are in
memory, in network order, and their texts. `inet_pton` and `inet_ntop` are those of the C
library for `AF_INET`, as documented: dotted decimal, each number of up to three digits and
with no leading zero.

`inet_pton` answers 0 for a text that is no address and a negative number only for a family
it does not know, so the constructor does not notice a text that is none.
-/

namespace Windz

open Lib

/-- `in_addr`: its bytes, in the order in which they are in memory. -/
structure InAddr where
  /-- The first number of the text. -/
  b₁ : UInt8
  /-- The second number. -/
  b₂ : UInt8
  /-- The third number. -/
  b₃ : UInt8
  /-- The last number. -/
  b₄ : UInt8
deriving DecidableEq

namespace InetText

/-- The character between the numbers. -/
def dot : UInt8 := '.'.toUInt8

/-- The character before the port. -/
def colon : UInt8 := ':'.toUInt8

/-- The first digit. -/
def zero : UInt8 := '0'.toUInt8

/-- `%u`, and `std::to_string`. -/
def decimal (n : Nat) : List UInt8 := (numeral 10 n).map fun d => zero + UInt8.ofNat d

/-- `isdigit`. -/
def IsDigit (c : UInt8) : Prop := zero ≤ c ∧ c ≤ '9'.toUInt8

instance (c : UInt8) : Decidable (IsDigit c) := inferInstanceAs (Decidable (_ ∧ _))

/-- The value of digits. -/
def value (s : List UInt8) : Nat := Nat.ofDigits 10 (s.map fun c => c.toNat - zero.toNat).reverse

/-- `s` is a number of an address. -/
structure Octet (s : List UInt8) (n : UInt8) : Prop where
  /-- There is a digit. -/
  ne_nil : s ≠ []
  /-- There are at most three. -/
  short : s.length ≤ 3
  /-- Nothing but digits. -/
  digit : ∀ c ∈ s, IsDigit c
  /-- A number of several digits does not begin with a zero. -/
  leading : s.head? = some zero → s = [zero]
  /-- The digits are written for `n`. -/
  value : value s = n.toNat

/-- The number that `s` is, if it is one of an address. -/
def octet? (s : List UInt8) : Option UInt8 :=
  if 0 < s.length ∧ s.length ≤ 3 ∧ s.all (fun c => IsDigit c) = true
      ∧ (s.head? = some zero → s = [zero]) ∧ value s < 256 then
    some (UInt8.ofNat (value s))
  else none

/-- `inet_ntop`. -/
def inetNtop (a : InAddr) : List UInt8 :=
  [dot].intercalate [decimal a.b₁.toNat, decimal a.b₂.toNat, decimal a.b₃.toNat, decimal a.b₄.toNat]

/-- `inet_pton`. -/
def inetPton (s : List UInt8) : Option InAddr :=
  match (s.splitOn dot).map octet? with
  | [some b₁, some b₂, some b₃, some b₄] => some ⟨b₁, b₂, b₃, b₄⟩
  | _ => none

end InetText

open InetText

/-- `InetAddr`: the fields of `addr_` that it sets. -/
structure InetAddr where
  /-- `sin_addr` -/
  addr : InAddr
  /-- `sin_port`, the high byte first. -/
  port : UInt8 × UInt8
deriving DecidableEq

/-- `htons`: the two bytes of the result in memory. -/
def htons (port : UInt16) : UInt8 × UInt8 :=
  (UInt8.ofNat (port.toNat / 256), UInt8.ofNat (port.toNat % 256))

/-- `ntohs`. -/
def ntohs (port : UInt8 × UInt8) : UInt16 := UInt16.ofNat (port.1.toNat * 256 + port.2.toNat)

/-- The address 0.0.0.0, a number of the host. -/
def INADDR_ANY : UInt32 := 0x00000000

/-- The address 127.0.0.1, a number of the host. -/
def INADDR_LOOPBACK : UInt32 := 0x7f000001

/-- A number of the host, which is little-endian, in memory. -/
def hostBytes (x : UInt32) : InAddr :=
  ⟨x.toUInt8, (x >>> 8).toUInt8, (x >>> 16).toUInt8, (x >>> 24).toUInt8⟩

namespace InetAddr

/-- `InetAddr(port, loopback)`, which does not convert the address. -/
def ofPort (port : UInt16) (loopback : Bool) : InetAddr :=
  ⟨hostBytes (if loopback then INADDR_LOOPBACK else INADDR_ANY), htons port⟩

/-- `InetAddr(ip, port)`, the address being all zero before `inet_pton`. -/
def ofText (ip : List UInt8) (port : UInt16) : InetAddr :=
  ⟨(inetPton (ip.takeWhile fun c => c ≠ 0)).getD ⟨0, 0, 0, 0⟩, htons port⟩

/-- `IpString`. -/
def ipString (a : InetAddr) : List UInt8 := inetNtop a.addr

/-- `PortUint16`. -/
def portUint16 (a : InetAddr) : UInt16 := ntohs a.port

/-- `IpPortString`. -/
def ipPortString (a : InetAddr) : List UInt8 :=
  a.ipString ++ colon :: decimal a.portUint16.toNat

end InetAddr

namespace InetText

/-! ## Numbers -/

theorem digit_value : ∀ d < 10,
    IsDigit (zero + UInt8.ofNat d) ∧ (zero + UInt8.ofNat d).toNat - zero.toNat = d := by decide

/-- A digit is the character of its value. -/
theorem IsDigit.value_spec {c : UInt8} (h : IsDigit c) :
    c.toNat - zero.toNat < 10 ∧ zero + UInt8.ofNat (c.toNat - zero.toNat) = c := by
  have hlow : zero.toNat ≤ c.toNat := UInt8.le_iff_toNat_le.mp h.1
  have hhigh : c.toNat ≤ 57 := UInt8.le_iff_toNat_le.mp h.2
  have hz : zero.toNat = 48 := rfl
  have hlt : c.toNat - zero.toNat < 256 := by omega
  refine ⟨by omega, UInt8.toNat_inj.mp ?_⟩
  rw [UInt8.toNat_add, UInt8.toNat_ofNat_of_lt' hlt]
  omega

theorem decimal_digit (n : Nat) : ∀ c ∈ decimal n, IsDigit c := by
  intro c hc
  obtain ⟨d, hd, rfl⟩ := List.mem_map.mp hc
  exact (digit_value d ((isNumeral_numeral (by decide) n).digit d hd)).1

theorem decimal_value (n : Nat) : value (decimal n) = n := by
  have hnumeral := isNumeral_numeral (show 1 < 10 by decide) n
  have hmap : (decimal n).map (fun c => c.toNat - zero.toNat) = numeral 10 n := by
    unfold decimal
    rw [List.map_map]
    exact (List.map_congr_left fun d hd => (digit_value d (hnumeral.digit d hd)).2).trans
      (List.map_id _)
  unfold value
  rw [hmap, hnumeral.value]

theorem decimal_injective : Function.Injective decimal := by
  intro n m h
  rw [← decimal_value n, h, decimal_value]

theorem decimal_leading {n : Nat} (h : (decimal n).head? = some zero) : decimal n = [zero] := by
  have hnumeral := isNumeral_numeral (show 1 < 10 by decide) n
  unfold decimal at h ⊢
  rw [List.head?_map] at h
  obtain ⟨d, hd, hz⟩ := Option.map_eq_some_iff.mp h
  have hlt := hnumeral.digit d (List.mem_of_head? hd)
  have hd0 : d = 0 := by
    have := (digit_value d hlt).2
    rw [hz] at this
    omega
  rw [hnumeral.leading (hd0 ▸ hd)]
  rfl

theorem decimal_octet (n : UInt8) : Octet (decimal n.toNat) n where
  ne_nil := by
    unfold decimal
    rw [ne_eq, List.map_eq_nil_iff]
    exact (isNumeral_numeral (by decide) n.toNat).ne_nil
  short := by
    unfold decimal
    rw [List.length_map]
    exact numeral_length_le (by decide) (by decide) (Nat.lt_trans n.toNat_lt (by decide))
  digit := decimal_digit n.toNat
  leading := decimal_leading
  value := decimal_value n.toNat

/-- **A number of an address is written in one way only.** -/
theorem Octet.eq_decimal {s : List UInt8} {n : UInt8} (h : Octet s n) : s = decimal n.toNat := by
  have hnumeral : IsNumeral 10 (s.map fun c => c.toNat - zero.toNat) n.toNat := by
    refine ⟨by simpa using h.ne_nil, fun d hd => ?_, h.value, fun hz => ?_⟩
    · obtain ⟨c, hc, rfl⟩ := List.mem_map.mp hd
      exact (h.digit c hc).value_spec.1
    · rw [List.head?_map] at hz
      obtain ⟨c, hc, h0⟩ := Option.map_eq_some_iff.mp hz
      have hzero : c = zero := by
        rw [← (h.digit c (List.mem_of_head? hc)).value_spec.2, h0]
        rfl
      rw [h.leading (hzero ▸ hc)]
      rfl
  unfold decimal
  rw [← hnumeral.eq_numeral (by decide), List.map_map]
  exact ((List.map_congr_left fun c hc => (h.digit c hc).value_spec.2).trans
    (List.map_id _)).symm

theorem octet?_eq_some_iff {s : List UInt8} {n : UInt8} : octet? s = some n ↔ Octet s n := by
  unfold octet?
  constructor
  · intro h
    obtain ⟨⟨hpos, hshort, hall, hlead, hlt⟩, he⟩ := Option.ite_none_right_eq_some.mp h
    refine ⟨List.length_pos_iff.mp hpos, hshort, fun c hc => ?_, hlead, ?_⟩
    · exact of_decide_eq_true (List.all_eq_true.mp hall c hc)
    · rw [← Option.some.inj he, UInt8.toNat_ofNat_of_lt' hlt]
  · intro h
    have hlt : value s < 256 := by
      rw [h.value]
      exact n.toNat_lt
    have hall : s.all (fun c => IsDigit c) = true :=
      List.all_eq_true.mpr fun c hc => decide_eq_true (h.digit c hc)
    rw [if_pos ⟨List.length_pos_iff.mpr h.ne_nil, h.short, hall, h.leading, hlt⟩, h.value,
      UInt8.ofNat_toNat]

theorem not_mem_of_digit {s : List UInt8} {x : UInt8} (hs : ∀ c ∈ s, IsDigit c)
    (hx : ¬ IsDigit x) : x ∉ s := fun hmem => hx (hs x hmem)

theorem Octet.dot_not_mem {s : List UInt8} {n : UInt8} (h : Octet s n) : dot ∉ s :=
  not_mem_of_digit h.digit (by decide)

/-! ## Addresses -/

/-- `s` is dotted decimal for `a`. -/
def Dotted (s : List UInt8) (a : InAddr) : Prop :=
  ∃ s₁ s₂ s₃ s₄, s = [dot].intercalate [s₁, s₂, s₃, s₄]
    ∧ Octet s₁ a.b₁ ∧ Octet s₂ a.b₂ ∧ Octet s₃ a.b₃ ∧ Octet s₄ a.b₄

/-- **`inet_pton` takes dotted decimal and nothing else.** -/
theorem inetPton_eq_some_iff {s : List UInt8} {a : InAddr} :
    inetPton s = some a ↔ Dotted s a := by
  unfold inetPton
  constructor
  · intro h
    split at h
    · rename_i b₁ b₂ b₃ b₄ hsplit
      obtain ⟨s₁, l₁, hl, h₁, hrest⟩ := List.map_eq_cons_iff.mp hsplit
      obtain ⟨s₂, l₂, hl₁, h₂, hrest⟩ := List.map_eq_cons_iff.mp hrest
      obtain ⟨s₃, l₃, hl₂, h₃, hrest⟩ := List.map_eq_cons_iff.mp hrest
      obtain ⟨s₄, l₄, hl₃, h₄, hrest⟩ := List.map_eq_cons_iff.mp hrest
      have hnil := List.map_eq_nil_iff.mp hrest
      rw [← Option.some.inj h]
      refine ⟨s₁, s₂, s₃, s₄, ?_, octet?_eq_some_iff.mp h₁, octet?_eq_some_iff.mp h₂,
        octet?_eq_some_iff.mp h₃, octet?_eq_some_iff.mp h₄⟩
      rw [← hnil, ← hl₃, ← hl₂, ← hl₁, ← hl]
      exact (List.intercalate_splitOn dot).symm
    · cases h
  · rintro ⟨s₁, s₂, s₃, s₄, hs, h₁, h₂, h₃, h₄⟩
    have hdots : ∀ t ∈ [s₁, s₂, s₃, s₄], dot ∉ t := by
      intro t ht
      simp only [List.mem_cons, List.not_mem_nil, or_false] at ht
      rcases ht with rfl | rfl | rfl | rfl
      · exact h₁.dot_not_mem
      · exact h₂.dot_not_mem
      · exact h₃.dot_not_mem
      · exact h₄.dot_not_mem
    rw [hs, List.splitOn_intercalate dot hdots (List.cons_ne_nil _ _)]
    simp only [List.map_cons, List.map_nil, octet?_eq_some_iff.mpr h₁, octet?_eq_some_iff.mpr h₂,
      octet?_eq_some_iff.mpr h₃, octet?_eq_some_iff.mpr h₄]

theorem inetNtop_dotted (a : InAddr) : Dotted (inetNtop a) a :=
  ⟨_, _, _, _, rfl, decimal_octet _, decimal_octet _, decimal_octet _, decimal_octet _⟩

/-- The dotted decimal text of an address is the one that `inet_ntop` writes. -/
theorem dotted_iff {s : List UInt8} {a : InAddr} : Dotted s a ↔ s = inetNtop a := by
  constructor
  · rintro ⟨s₁, s₂, s₃, s₄, rfl, h₁, h₂, h₃, h₄⟩
    rw [h₁.eq_decimal, h₂.eq_decimal, h₃.eq_decimal, h₄.eq_decimal]
    rfl
  · rintro rfl
    exact inetNtop_dotted a

/-- The text of an address has dots and digits only. -/
theorem inetNtop_chars (a : InAddr) : ∀ c ∈ inetNtop a, c = dot ∨ IsDigit c := by
  intro c hc
  unfold inetNtop at hc
  simp only [List.intercalate_cons_cons, List.intercalate_singleton, List.mem_append,
    List.mem_singleton] at hc
  rcases hc with (hc | hc) | (hc | hc) | (hc | hc) | hc
  all_goals first | exact .inl hc | exact .inr (decimal_digit _ c hc)

/-- It fits into 16 bytes with the NUL behind it. -/
theorem inetNtop_length (a : InAddr) : (inetNtop a).length ≤ 15 := by
  have h₁ := (decimal_octet a.b₁).short
  have h₂ := (decimal_octet a.b₂).short
  have h₃ := (decimal_octet a.b₃).short
  have h₄ := (decimal_octet a.b₄).short
  unfold inetNtop
  simp only [List.intercalate_cons_cons, List.intercalate_singleton, List.length_append,
    List.length_singleton]
  omega

end InetText

/-! ## Ports -/

theorem ntohs_htons (port : UInt16) : ntohs (htons port) = port := by
  have hlt := port.toNat_lt
  have hhigh : port.toNat / 256 < 256 := by omega
  have hlow : port.toNat % 256 < 256 := by omega
  unfold ntohs htons
  dsimp only
  rw [UInt8.toNat_ofNat_of_lt' hhigh, UInt8.toNat_ofNat_of_lt' hlow,
    show port.toNat / 256 * 256 + port.toNat % 256 = port.toNat by omega, UInt16.ofNat_toNat]

theorem htons_ntohs (port : UInt8 × UInt8) : htons (ntohs port) = port := by
  have hhigh := port.1.toNat_lt
  have hlow := port.2.toNat_lt
  have hlt : port.1.toNat * 256 + port.2.toNat < 65536 := by omega
  unfold ntohs htons
  rw [UInt16.toNat_ofNat_of_lt' hlt,
    show (port.1.toNat * 256 + port.2.toNat) / 256 = port.1.toNat by omega,
    show (port.1.toNat * 256 + port.2.toNat) % 256 = port.2.toNat by omega, UInt8.ofNat_toNat,
    UInt8.ofNat_toNat]

namespace InetAddr

theorem cString_ipString (a : InetAddr) : a.ipString.takeWhile (fun c => c ≠ 0) = a.ipString := by
  refine List.takeWhile_eq_self_iff.mpr fun c hc => decide_eq_true ?_
  rintro rfl
  rcases inetNtop_chars a.addr _ hc with he | hdigit
  · exact absurd he (by decide)
  · exact absurd hdigit (by decide)

theorem ofText_ipString (a : InetAddr) : ofText a.ipString a.portUint16 = a := by
  unfold ofText
  rw [cString_ipString, portUint16, htons_ntohs]
  have haddr : inetPton a.ipString = some a.addr :=
    inetPton_eq_some_iff.mpr (inetNtop_dotted a.addr)
  rw [haddr, Option.getD_some]

theorem ipPortString_injective : Function.Injective ipPortString := by
  intro a b h
  have hcolon : ∀ x : InetAddr, colon ∉ x.ipString := by
    intro x hmem
    rcases inetNtop_chars x.addr _ hmem with he | hdigit
    · exact absurd he (by decide)
    · exact absurd hdigit (by decide)
  have hport : colon ∉ decimal a.portUint16.toNat :=
    not_mem_of_digit (decimal_digit _) (by decide)
  have hport' : colon ∉ decimal b.portUint16.toNat :=
    not_mem_of_digit (decimal_digit _) (by decide)
  obtain ⟨hip, -, hdecimal⟩ := (List.append_cons_inj_of_notMem (hcolon b) hport').mp h.symm
  have hsame : a.portUint16 = b.portUint16 := UInt16.toNat_inj.mp (decimal_injective hdecimal.symm)
  rw [← ofText_ipString a, ← ofText_ipString b, hip, hsame]

/-- What `INADDR_ANY` and `INADDR_LOOPBACK` are when they are not converted. -/
theorem ofPort_ipString (port : UInt16) :
    (ofPort port false).ipString = [48, 46, 48, 46, 48, 46, 48]
    ∧ (ofPort port true).ipString = [49, 46, 48, 46, 48, 46, 49, 50, 55] := by
  show inetNtop (hostBytes INADDR_ANY) = _ ∧ inetNtop (hostBytes INADDR_LOOPBACK) = _
  decide +kernel

/-- **Texts and addresses.** An address is read back from its two texts, two addresses have
different texts of both, and `buf` is large enough. A text gives its port, and the address that it
is dotted decimal for, which is the one address with that text; a text that is no dotted decimal up
to its first NUL gives 0.0.0.0. A port alone gives 0.0.0.0 as well, with `loopback` 1.0.0.127. -/
theorem address_text_round_trip (a : InetAddr) (ip : List UInt8) (port : UInt16) :
    ofText a.ipString a.portUint16 = a
    ∧ (∀ b : InetAddr, a.ipPortString = b.ipPortString → a = b)
    ∧ a.ipString.length + 1 ≤ 16
    ∧ (ofText ip port).portUint16 = port
    ∧ (∀ i, Dotted (ip.takeWhile fun c => c ≠ 0) i → (ofText ip port).addr = i)
    ∧ (∀ i, Dotted (ip.takeWhile fun c => c ≠ 0) i ↔ (ip.takeWhile fun c => c ≠ 0) = inetNtop i)
    ∧ ((∀ i, ¬ Dotted (ip.takeWhile fun c => c ≠ 0) i) →
        (ofText ip port).addr = ⟨0, 0, 0, 0⟩)
    -- "0.0.0.0" and "1.0.0.127"
    ∧ (∀ loopback, (ofPort port loopback).portUint16 = port)
    ∧ (ofPort port false).ipString = [48, 46, 48, 46, 48, 46, 48]
    ∧ (ofPort port true).ipString = [49, 46, 48, 46, 48, 46, 49, 50, 55] := by
  refine ⟨ofText_ipString a, fun b h => ipPortString_injective h,
    Nat.succ_le_succ (inetNtop_length a.addr), ntohs_htons port, fun i hi => ?_,
    fun i => dotted_iff, fun hnone => ?_, fun _ => ntohs_htons port, ofPort_ipString port⟩
  · unfold ofText
    rw [inetPton_eq_some_iff.mpr hi, Option.getD_some]
  · unfold ofText
    cases hp : inetPton (ip.takeWhile fun c => c ≠ 0) with
    | none => rfl
    | some i => exact absurd (inetPton_eq_some_iff.mp hp) (hnone i)

-- "127.0.0.1", "1.2.3" and "01.2.3.4"
example : (ofText [49, 50, 55, 46, 48, 46, 48, 46, 49] 80).addr = ⟨127, 0, 0, 1⟩
    ∧ (ofText [49, 46, 50, 46, 51] 80).addr = ⟨0, 0, 0, 0⟩
    ∧ (ofText [48, 49, 46, 50, 46, 51, 46, 52] 80).addr = ⟨0, 0, 0, 0⟩ := by decide +kernel

end InetAddr

end Windz
