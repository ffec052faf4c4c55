/-
# Decimal text of 64-bit values

A value in two 32-bit halves is divided and multiplied by ten in four parts of 16 bits.
-/
import Priot.Numerics.Integer64
import Priot.Lib.CText
import Mathlib.Data.Nat.Bitwise

namespace Priot.Numerics.Integer64

open Lib List

/-! ## the functions -/

/-- `( word >> 16 ) & 0x0ffff` as an `unsigned long`. -/
def upper (word : UInt32) : UInt64 := ((word >>> 16) &&& 0x0ffff).toUInt64

/-- `word & 0x0ffff` as an `unsigned long`. -/
def lower (word : UInt32) : UInt64 := (word &&& 0x0ffff).toUInt64

/-- Two parts as a word. -/
def join (high low : UInt64) : UInt32 := (high <<< 16).toUInt32 ||| low.toUInt32

/-- `ulQ` and `ulR` for one part, with the remainder of the part above it. -/
def divPart (part ulR : UInt64) : UInt64 × UInt64 :=
  let ulT := part + (ulR <<< 16)
  (ulT / 10, ulT % 10)

/-- `_Integer64_divBy10`: the quotient and the remainder. -/
def divBy10 (number : Integer64) : Integer64 × UInt32 :=
  let (q₃, ulR) := divPart (upper number.high) 0
  let (q₂, ulR) := divPart (lower number.high) ulR
  let (q₁, ulR) := divPart (upper number.low) ulR
  let (q₀, ulR) := divPart (lower number.low) ulR
  ({ high := join q₃ q₂, low := join q₁ q₀ }, ulR.toUInt32)

/-- `ulP & 0x0ffff` and `ulK` for one part, with the carry of the part below it. -/
def multPart (part ulK : UInt64) : UInt64 × UInt64 :=
  let ulP := part * 10 + ulK
  (ulP &&& 0x0ffff, ulP >>> 16)

def multBy10 (number : Integer64) : Integer64 :=
  let (p₀, ulK) := multPart (lower number.low) 0
  let (p₁, ulK) := multPart (upper number.low) ulK
  let (p₂, ulK) := multPart (lower number.high) ulK
  let (p₃, _) := multPart (upper number.high) ulK
  { high := join p₃ p₂, low := join p₁ p₀ }

def INTEGER64_STRING_SIZE : Nat := 21

def isZero (number : Integer64) : Bool := number.low == 0 && number.high == 0

/-- The loop of `Integer64_uint64ToString`, in front of the digits that are written. Without a `break` the copy would
begin before the array. -/
def digitLoop : Nat → Integer64 → Text → Option Text
  | 0, _, _ => none
  | rounds + 1, u64a, aRes =>
    let (u64b, u) := divBy10 u64a
    let aRes := UInt8.ofNat (48 + u.toNat) :: aRes
    if isZero u64b then some aRes else digitLoop rounds u64b aRes

/-- `Integer64_uint64ToString`: the text in the buffer. -/
def uint64ToString (number : Integer64) : Option Text := digitLoop INTEGER64_STRING_SIZE number []

def addUInt16 (number : Integer64) (amount : UInt16) : Integer64 := addUInt32 number amount.toUInt32

def inverted (number : Integer64) : Integer64 := { high := ~~~number.high, low := ~~~number.low }

def int64ToString (number : Integer64) : Option Text :=
  if number.high &&& 0x80000000 ≠ 0 then (uint64ToString (addUInt32 number.inverted 1)).map (45 :: ·)
  else uint64ToString number

/-- The loop of `Integer64_stringToInt64`, with `ok`. -/
def readLoop : Integer64 → Int → Text → Integer64 × Int
  | number, ok, [] => (number, ok)
  | number, ok, c :: s =>
    if isdigit c then readLoop (addUInt16 (multBy10 number) (c.toUInt16 - 48)) 1 s else (number, ok)

/-- `Integer64_stringToInt64`: the number, and what is returned. -/
def stringToInt64 (s : Text) : Integer64 × Int :=
  let sign := s.head? = some 45
  let (number, ok) := readLoop ⟨0, 0⟩ 0 (if sign then s.drop 1 else s)
  (if sign then addUInt16 number.inverted 1 else number, ok)

/-! ## parts of 16 bits -/

variable {part carry high low : UInt64}

theorem upper_toNat (word : UInt32) : (upper word).toNat = word.toNat / 65536 := by
  have hword := word.toNat_lt
  have hmask : (word >>> 16 &&& 0x0ffff).toNat = word.toNat >>> 16 &&& 2 ^ 16 - 1 := by
    rw [UInt32.toNat_and, UInt32.toNat_shiftRight]
    rfl
  unfold upper
  rw [UInt32.toNat_toUInt64, hmask, Nat.and_two_pow_sub_one_eq_mod, Nat.shiftRight_eq_div_pow]
  omega

theorem lower_toNat (word : UInt32) : (lower word).toNat = word.toNat % 65536 := by
  have hmask : (word &&& 0x0ffff).toNat = word.toNat &&& 2 ^ 16 - 1 := UInt32.toNat_and ..
  unfold lower
  rw [UInt32.toNat_toUInt64, hmask, Nat.and_two_pow_sub_one_eq_mod]

theorem join_toNat (hhigh : high.toNat < 65536) (hlow : low.toNat < 65536) :
    (join high low).toNat = high.toNat * 65536 + low.toNat := by
  have hshift : (high <<< 16).toUInt32.toNat = high.toNat <<< 16 := by
    rw [UInt64.toNat_toUInt32, UInt64.toNat_shiftLeft]
    show high.toNat <<< 16 % 2 ^ 64 % 2 ^ 32 = _
    rw [Nat.shiftLeft_eq]
    omega
  have hsame : low.toUInt32.toNat = low.toNat := by
    rw [UInt64.toNat_toUInt32]
    omega
  unfold join
  rw [UInt32.toNat_or, hshift, hsame, ← Nat.shiftLeft_add_eq_or_of_lt (i := 16) hlow, Nat.shiftLeft_eq]

theorem divPart_spec (hpart : part.toNat < 65536) (hcarry : carry.toNat < 10) :
    (divPart part carry).1.toNat = (carry.toNat * 65536 + part.toNat) / 10 ∧
    (divPart part carry).2.toNat = (carry.toNat * 65536 + part.toNat) % 10 := by
  have hsum : (part + carry <<< 16).toNat = carry.toNat * 65536 + part.toNat := by
    rw [UInt64.toNat_add, UInt64.toNat_shiftLeft]
    show (part.toNat + carry.toNat <<< 16 % 2 ^ 64) % 2 ^ 64 = _
    rw [Nat.shiftLeft_eq]
    omega
  unfold divPart
  exact ⟨by rw [UInt64.toNat_div, hsum]; rfl, by rw [UInt64.toNat_mod, hsum]; rfl⟩

theorem multPart_spec (hpart : part.toNat < 65536) (hcarry : carry.toNat < 10) :
    (multPart part carry).1.toNat = (part.toNat * 10 + carry.toNat) % 65536 ∧
    (multPart part carry).2.toNat = (part.toNat * 10 + carry.toNat) / 65536 := by
  have hsum : (part * 10 + carry).toNat = part.toNat * 10 + carry.toNat := by
    rw [UInt64.toNat_add, UInt64.toNat_mul]
    show (part.toNat * 10 % 2 ^ 64 + carry.toNat) % 2 ^ 64 = _
    omega
  unfold multPart
  constructor
  · rw [UInt64.toNat_and, hsum]
    exact Nat.and_two_pow_sub_one_eq_mod _ 16
  · rw [UInt64.toNat_shiftRight, hsum]
    exact Nat.shiftRight_eq_div_pow _ 16

variable {n : Integer64}

theorem value_parts (n : Integer64) : n.value = (((upper n.high).toNat * 65536 + (lower n.high).toNat) * 65536 +
    (upper n.low).toNat) * 65536 + (lower n.low).toNat ∧ (upper n.high).toNat < 65536 ∧
    (lower n.high).toNat < 65536 ∧ (upper n.low).toNat < 65536 ∧ (lower n.low).toNat < 65536 := by
  have := n.high.toNat_lt
  have := n.low.toNat_lt
  simp only [upper_toNat, lower_toNat]
  unfold value
  omega

theorem divBy10_spec (n : Integer64) : (divBy10 n).1.value = n.value / 10 ∧ (divBy10 n).2.toNat = n.value % 10 := by
  obtain ⟨hvalue, h₃, h₂, h₁, h₀⟩ := value_parts n
  obtain ⟨d₃, hd₃⟩ : ∃ d, divPart (upper n.high) 0 = d := ⟨_, rfl⟩
  obtain ⟨d₂, hd₂⟩ : ∃ d, divPart (lower n.high) d₃.2 = d := ⟨_, rfl⟩
  obtain ⟨d₁, hd₁⟩ : ∃ d, divPart (upper n.low) d₂.2 = d := ⟨_, rfl⟩
  obtain ⟨d₀, hd₀⟩ : ∃ d, divPart (lower n.low) d₁.2 = d := ⟨_, rfl⟩
  have hdiv : divBy10 n = (⟨join d₃.1 d₂.1, join d₁.1 d₀.1⟩, d₀.2.toUInt32) := by
    rw [← hd₀, ← hd₁, ← hd₂, ← hd₃]
    rfl
  obtain ⟨q₃, r₃⟩ : d₃.1.toNat = (0 * 65536 + _) / 10 ∧ d₃.2.toNat = (0 * 65536 + _) % 10 :=
    hd₃ ▸ @divPart_spec _ 0 h₃ (by decide)
  obtain ⟨q₂, r₂⟩ := hd₂ ▸ @divPart_spec _ d₃.2 h₂ (by omega)
  obtain ⟨q₁, r₁⟩ := hd₁ ▸ @divPart_spec _ d₂.2 h₁ (by omega)
  obtain ⟨q₀, r₀⟩ := hd₀ ▸ @divPart_spec _ d₁.2 h₀ (by omega)
  rw [hdiv]
  constructor
  · show (join d₃.1 d₂.1).toNat * 4294967296 + (join d₁.1 d₀.1).toNat = _
    rw [join_toNat (by omega) (by omega), join_toNat (by omega) (by omega)]
    omega
  · show d₀.2.toUInt32.toNat = _
    rw [UInt64.toNat_toUInt32]
    omega

theorem multBy10_value (n : Integer64) : (multBy10 n).value = n.value * 10 % 18446744073709551616 := by
  obtain ⟨hvalue, h₃, h₂, h₁, h₀⟩ := value_parts n
  obtain ⟨m₀, hm₀⟩ : ∃ m, multPart (lower n.low) 0 = m := ⟨_, rfl⟩
  obtain ⟨m₁, hm₁⟩ : ∃ m, multPart (upper n.low) m₀.2 = m := ⟨_, rfl⟩
  obtain ⟨m₂, hm₂⟩ : ∃ m, multPart (lower n.high) m₁.2 = m := ⟨_, rfl⟩
  obtain ⟨m₃, hm₃⟩ : ∃ m, multPart (upper n.high) m₂.2 = m := ⟨_, rfl⟩
  have hmult : multBy10 n = ⟨join m₃.1 m₂.1, join m₁.1 m₀.1⟩ := by
    rw [← hm₃, ← hm₂, ← hm₁, ← hm₀]
    rfl
  obtain ⟨p₀, k₀⟩ : m₀.1.toNat = (_ + 0) % 65536 ∧ m₀.2.toNat = (_ + 0) / 65536 :=
    hm₀ ▸ @multPart_spec _ 0 h₀ (by decide)
  obtain ⟨p₁, k₁⟩ := hm₁ ▸ @multPart_spec _ m₀.2 h₁ (by omega)
  obtain ⟨p₂, k₂⟩ := hm₂ ▸ @multPart_spec _ m₁.2 h₂ (by omega)
  obtain ⟨p₃, -⟩ := hm₃ ▸ @multPart_spec _ m₂.2 h₃ (by omega)
  rw [hmult]
  show (join m₃.1 m₂.1).toNat * 4294967296 + (join m₁.1 m₀.1).toNat = _
  rw [join_toNat (by omega) (by omega), join_toNat (by omega) (by omega)]
  omega

/-! ## text -/

/-- The number that digits stand for, behind those read already. -/
def valueFrom (v : Nat) (ds : Text) : Nat := ds.foldl (fun v c => v * 10 + (c.toNat - 48)) v

/-- The canonical numeral of a number. -/
structure Canonical (t : Text) (v : Nat) : Prop where
  digits : ∀ c ∈ t, isdigit c = true
  value : valueFrom 0 t = v
  nonempty : t ≠ []
  leading : t.head? = some 48 → t = [48]

/-- The two's-complement value. -/
def signed (n : Integer64) : Int := if n.value < 2 ^ 63 then n.value else (n.value : Int) - 2 ^ 64

/-- The canonical numeral of a number with a sign. -/
def SignedCanonical (t : Text) (v : Int) : Prop :=
  if v < 0 then ∃ u, t = 45 :: u ∧ Canonical u v.natAbs else Canonical t v.natAbs

variable {t : Text} {v : Nat}

theorem digit_facts : ∀ d, d < 10 → isdigit (UInt8.ofNat (48 + d)) = true ∧ (UInt8.ofNat (48 + d)).toNat - 48 = d ∧
    (UInt8.ofNat (48 + d) = 48 → d = 0) ∧ UInt8.ofNat (48 + d) ≠ 45 := by
  decide

theorem Canonical.single (hv : v < 10) : Canonical [UInt8.ofNat (48 + v)] v where
  digits c hc := mem_singleton.mp hc ▸ (digit_facts v hv).1
  value := (Nat.zero_add _).trans (digit_facts v hv).2.1
  nonempty := cons_ne_nil _ _
  leading h := by rw [Option.some.inj h]

theorem Canonical.concat (h : Canonical t (v / 10)) (hv : 10 ≤ v) : Canonical (t ++ [UInt8.ofNat (48 + v % 10)]) v where
  digits c hc := by
    rcases mem_append.mp hc with hc | hc
    · exact h.digits c hc
    · rw [mem_singleton.mp hc]
      exact (digit_facts (v % 10) (by omega)).1
  value := by
    have hfold : valueFrom 0 (t ++ [UInt8.ofNat (48 + v % 10)]) =
        valueFrom 0 t * 10 + ((UInt8.ofNat (48 + v % 10)).toNat - 48) := foldl_append ..
    rw [hfold, h.value, (digit_facts (v % 10) (by omega)).2.1]
    omega
  nonempty := append_ne_nil_of_right_ne_nil t (cons_ne_nil _ _)
  leading hzero := by
    -- a zero in front would be all of the quotient
    obtain ⟨c, u, rfl⟩ := exists_cons_of_ne_nil h.nonempty
    have hvalue := h.value
    rw [h.leading hzero] at hvalue
    have : valueFrom 0 [48] = 0 := rfl
    omega

theorem isZero_iff (n : Integer64) : isZero n = true ↔ n.value = 0 := by
  unfold isZero value
  rw [Bool.and_eq_true, beq_iff_eq, beq_iff_eq, ← UInt32.toNat_inj, ← UInt32.toNat_inj]
  show n.low.toNat = 0 ∧ n.high.toNat = 0 ↔ _
  omega

theorem digitLoop_succ (rounds : Nat) (n : Integer64) (acc : Text) : digitLoop (rounds + 1) n acc =
    if n.value < 10 then some (UInt8.ofNat (48 + n.value % 10) :: acc)
    else digitLoop rounds (divBy10 n).1 (UInt8.ofNat (48 + n.value % 10) :: acc) := by
  obtain ⟨hq, hr⟩ := divBy10_spec n
  have hzero : isZero (divBy10 n).1 = true ↔ n.value < 10 := by
    rw [isZero_iff, hq]
    omega
  rw [← hr]
  exact if_congr hzero rfl rfl

theorem digitLoop_spec {k rounds : Nat} (hk : k ≤ rounds) (hn : n.value < 10 ^ (k + 1)) (acc : Text) :
    ∃ t, digitLoop (rounds + 1) n acc = some (t ++ acc) ∧ Canonical t n.value ∧ t.length ≤ k + 1 := by
  induction k generalizing n rounds acc with
  | zero =>
    rw [Nat.zero_add, Nat.pow_one] at hn
    refine ⟨[UInt8.ofNat (48 + n.value % 10)], ?_, ?_, le_rfl⟩
    · rw [digitLoop_succ, if_pos hn]
      rfl
    · rw [Nat.mod_eq_of_lt hn]
      exact .single hn
  | succ k ih =>
    rw [digitLoop_succ]
    by_cases hten : n.value < 10
    · refine ⟨[UInt8.ofNat (48 + n.value % 10)], if_pos hten, ?_, by simp⟩
      rw [Nat.mod_eq_of_lt hten]
      exact .single hten
    · rw [Nat.pow_succ] at hn
      obtain ⟨rounds, rfl⟩ := Nat.exists_eq_succ_of_ne_zero (show rounds ≠ 0 by omega)
      have hq := (divBy10_spec n).1
      obtain ⟨t, hloop, ht, hlen⟩ := @ih (divBy10 n).1 rounds (by omega) (by omega)
        (UInt8.ofNat (48 + n.value % 10) :: acc)
      rw [hq] at ht
      refine ⟨t ++ [UInt8.ofNat (48 + n.value % 10)], ?_, ht.concat (by omega), ?_⟩
      · rw [if_neg hten, hloop, append_assoc]
        rfl
      · rw [length_append, length_singleton]
        omega

theorem uint64ToString_spec (n : Integer64) : ∃ t, uint64ToString n = some t ∧ Canonical t n.value ∧ t.length ≤ 20 := by
  have hn := n.value_lt
  obtain ⟨t, hloop, ht⟩ := @digitLoop_spec n 19 20 (by omega) (by omega) []
  rw [append_nil] at hloop
  exact ⟨t, hloop, ht⟩

theorem valueFrom_mod (v : Nat) (ds : Text) :
    valueFrom (v % 18446744073709551616) ds % 18446744073709551616 = valueFrom v ds % 18446744073709551616 := by
  induction ds generalizing v with
  | nil => exact Nat.mod_mod _ _
  | cons c ds ih =>
    show valueFrom (v % 18446744073709551616 * 10 + (c.toNat - 48)) ds % _ = valueFrom (v * 10 + (c.toNat - 48)) ds % _
    rw [← ih, ← ih (v * 10 + _)]
    congr 2
    omega

theorem readLoop_spec (n : Integer64) (ok : Int) {ds : Text} (hds : ∀ c ∈ ds, isdigit c = true) :
    (readLoop n ok ds).1.value = valueFrom n.value ds % 18446744073709551616 ∧
    (readLoop n ok ds).2 = if ds = [] then ok else 1 := by
  induction ds generalizing n ok with
  | nil => exact ⟨(Nat.mod_eq_of_lt n.value_lt).symm, rfl⟩
  | cons c ds ih =>
    have hc := hds c mem_cons_self
    have hdigit : (c.toUInt16 - 48).toUInt32.toNat = c.toNat - 48 := by
      unfold isdigit at hc
      rw [Bool.and_eq_true, decide_eq_true_eq, decide_eq_true_eq, UInt8.le_iff_toNat_le, UInt8.le_iff_toNat_le] at hc
      have h₁ : (48 : UInt8).toNat = 48 := rfl
      have h₂ : (57 : UInt8).toNat = 57 := rfl
      rw [UInt16.toNat_toUInt32, UInt16.toNat_sub, UInt8.toNat_toUInt16]
      show (2 ^ 16 - 48 + c.toNat) % 2 ^ 16 = _
      omega
    obtain ⟨hvalue, hok⟩ := ih (addUInt16 (multBy10 n) (c.toUInt16 - 48)) 1 fun c hc => hds c (mem_cons_of_mem _ hc)
    rw [readLoop, if_pos hc]
    refine ⟨?_, ?_⟩
    · rw [hvalue]
      unfold addUInt16
      rw [addUInt32_value, multBy10_value, hdigit, Nat.mod_add_mod, valueFrom_mod]
      rfl
    · rw [hok, ite_self, if_neg (cons_ne_nil _ _)]

/-! ## round trips -/

theorem inverted_value (n : Integer64) : n.inverted.value = 18446744073709551615 - n.value := by
  have := n.high.toNat_lt
  have := n.low.toNat_lt
  unfold inverted value
  rw [UInt32.toNat_not, UInt32.toNat_not]
  show (4294967296 - 1 - n.high.toNat) * 4294967296 + (4294967296 - 1 - n.low.toNat) = _
  omega

theorem negated_value (n : Integer64) :
    (addUInt32 n.inverted 1).value = (18446744073709551616 - n.value) % 18446744073709551616 := by
  have := n.value_lt
  rw [addUInt32_value, inverted_value]
  show (18446744073709551615 - n.value + 1) % _ = _
  omega

theorem sign_iff (n : Integer64) : n.high &&& 0x80000000 ≠ 0 ↔ 9223372036854775808 ≤ n.value := by
  have hhigh := n.high.toNat_lt
  have := n.low.toNat_lt
  have hbit : (n.high &&& 0x80000000).toNat = (n.high.toNat.testBit 31).toNat * 2 ^ 31 := by
    rw [UInt32.toNat_and]
    exact Nat.and_two_pow _ 31
  rw [ne_eq, ← UInt32.toNat_inj, hbit, Nat.testBit_eq_decide_div_mod_eq]
  show ¬ _ = 0 ↔ _
  unfold value
  by_cases hset : n.high.toNat / 2 ^ 31 % 2 = 1
  · rw [decide_eq_true hset, Bool.toNat_true]
    omega
  · rw [decide_eq_false hset, Bool.toNat_false]
    omega

theorem stringToInt64_digits {ds : Text} (hds : ∀ c ∈ ds, isdigit c = true) :
    (stringToInt64 ds).1.value = valueFrom 0 ds % 18446744073709551616 ∧
    (stringToInt64 ds).2 = if ds = [] then 0 else 1 := by
  have hsign : ds.head? ≠ some 45 := by
    intro h
    exact absurd (hds 45 (mem_of_mem_head? h)) (by decide)
  unfold stringToInt64
  simp only [if_neg hsign]
  exact readLoop_spec ⟨0, 0⟩ 0 hds

theorem stringToInt64_minus {ds : Text} (hds : ∀ c ∈ ds, isdigit c = true) : (stringToInt64 (45 :: ds)).1.value =
    (18446744073709551616 - valueFrom 0 ds % 18446744073709551616) % 18446744073709551616 ∧
    (stringToInt64 (45 :: ds)).2 = if ds = [] then 0 else 1 := by
  obtain ⟨hvalue, hok⟩ := readLoop_spec ⟨0, 0⟩ 0 hds
  have hread : stringToInt64 (45 :: ds) =
      (addUInt32 (readLoop ⟨0, 0⟩ 0 ds).1.inverted 1, (readLoop ⟨0, 0⟩ 0 ds).2) := rfl
  rw [hread, negated_value, hvalue]
  exact ⟨rfl, hok⟩

/-- Every value is written as its canonical numeral and read back, with a sign and without; and all digits are read as
the number that they stand for. -/
theorem decimal_roundTrip (n : Integer64) :
    (∃ t, uint64ToString n = some t ∧ Canonical t n.value ∧ t.length ≤ INTEGER64_STRING_SIZE ∧
      stringToInt64 t = (n, 1)) ∧
    (∃ t, int64ToString n = some t ∧ SignedCanonical t n.signed ∧ t.length ≤ INTEGER64_STRING_SIZE ∧
      stringToInt64 t = (n, 1)) ∧
    ∀ ds, (∀ c ∈ ds, isdigit c = true) → (stringToInt64 ds).1.value = valueFrom 0 ds % 2 ^ 64 ∧
      (stringToInt64 ds).2 = if ds = [] then 0 else 1 := by
  have hlt := n.value_lt
  have hread : ∀ {t}, Canonical t n.value → stringToInt64 t = (n, 1) := by
    intro t ht
    obtain ⟨hvalue, hok⟩ := stringToInt64_digits ht.digits
    rw [ht.value, Nat.mod_eq_of_lt hlt, value_inj] at hvalue
    rw [if_neg ht.nonempty] at hok
    exact Prod.ext hvalue hok
  obtain ⟨t, hwrite, ht, hlen⟩ := uint64ToString_spec n
  have hsize : t.length ≤ INTEGER64_STRING_SIZE := hlen.trans (by decide)
  refine ⟨⟨t, hwrite, ht, hsize, hread ht⟩, ?_, fun ds hds => stringToInt64_digits hds⟩
  unfold int64ToString SignedCanonical signed
  by_cases hsign : n.high &&& 0x80000000 ≠ 0
  · have hge := (sign_iff n).mp hsign
    have hvalue : (addUInt32 n.inverted 1).value = 18446744073709551616 - n.value := by
      rw [negated_value]
      omega
    obtain ⟨u, hwrite, hu, hlen⟩ := uint64ToString_spec (addUInt32 n.inverted 1)
    have hnat : ((n.value : Int) - 2 ^ 64).natAbs = (addUInt32 n.inverted 1).value := by omega
    rw [if_pos hsign, hwrite, if_neg (by omega), hnat]
    refine ⟨45 :: u, rfl, ?_, Nat.succ_le_succ hlen, ?_⟩
    · rw [if_pos (by omega)]
      exact ⟨u, rfl, hu⟩
    obtain ⟨hback, hok⟩ := stringToInt64_minus hu.digits
    rw [if_neg hu.nonempty] at hok
    refine Prod.ext (value_inj.mp ?_) hok
    rw [hback, hu.value, hvalue]
    show _ = n.value
    omega
  · have hlow : n.value < 2 ^ 63 := by
      have := mt (sign_iff n).mpr hsign
      omega
    rw [if_neg hsign, if_pos hlow, Int.natAbs_natCast]
    refine ⟨t, hwrite, ?_, hsize, hread ht⟩
    rw [if_neg (by omega)]
    exact ht

end Priot.Numerics.Integer64
