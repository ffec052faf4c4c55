/-
# Numbers in text

Text is a list of octets without a zero octet, a pointer into it is what follows. The conversions of the C library
in the `C` locale, and that numerals are read back as the number they were written for.
-/
import Mathlib.Data.List.Basic
import Mathlib.Tactic.Ring

namespace Priot.Lib

open List

/-- Octets up to the terminating zero. -/
abbrev Text := List UInt8

/-! ## characters -/

def isspace (c : UInt8) : Bool := c == 32 || (9 ≤ c && c ≤ 13)

def isdigit (c : UInt8) : Bool := 48 ≤ c && c ≤ 57

def isalpha (c : UInt8) : Bool := (65 ≤ c && c ≤ 90) || (97 ≤ c && c ≤ 122)

/-- The value of a digit in the bases up to 16. -/
def digitVal (c : UInt8) : Option Nat :=
  if isdigit c then some (c.toNat - 48)
  else if 97 ≤ c && c ≤ 102 then some (c.toNat - 87)
  else if 65 ≤ c && c ≤ 70 then some (c.toNat - 55)
  else none

/-- The digit of a value, in lower case. -/
def digitChar (d : Nat) : UInt8 := UInt8.ofNat (if d < 10 then 48 + d else 87 + d)

/-- A character that does not continue a number, nor is an `x` that would. -/
def Stops (t : Text) : Prop := ∀ c ∈ t.head?, digitVal c = none ∧ c ≠ 120 ∧ c ≠ 88

/-! ## conversions -/

/-- Digits in front of a text, behind those read already. -/
def readDigits (base : Nat) : Nat → Text → Nat × Text
  | n, [] => (n, [])
  | n, c :: t =>
    match digitVal c with
    | none => (n, c :: t)
    | some d => if d < base then readDigits base (n * base + d) t else (n, c :: t)

/-- Whether a text begins with a digit. -/
def startsDigit (base : Nat) (t : Text) : Bool :=
  match t with
  | [] => false
  | c :: _ => (digitVal c).any (· < base)

/-- White space and a sign; whether it is a minus. -/
def skipSign (t : Text) : Bool × Text :=
  let s := t.dropWhile isspace
  if s.head? = some 45 then (true, s.drop 1)
  else if s.head? = some 43 then (false, s.drop 1)
  else (false, s)

/-- A `0x` in front of a digit. -/
def hexMark (s : Text) : Prop :=
  s.head? = some 48 ∧ ((s.drop 1).head? = some 120 ∨ (s.drop 1).head? = some 88) ∧ startsDigit 16 (s.drop 2) = true

instance (s : Text) : Decidable (hexMark s) := inferInstanceAs (Decidable (_ ∧ _))

/-- The base of the digits, and where they begin; base 0 is told by the text. -/
def skipMark (base : Nat) (s : Text) : Nat × Text :=
  if (base = 0 ∨ base = 16) ∧ hexMark s then (16, s.drop 2)
  else if base = 0 then (if s.head? = some 48 then 8 else 10, s)
  else (base, s)

/-- The digits of a number: its sign, its magnitude and its end. -/
def convert (base : Nat) (t : Text) : Option (Bool × Nat × Text) :=
  let (negative, s) := skipSign t
  let (b, s) := skipMark base s
  if startsDigit b s then some (negative, readDigits b 0 s) else none

/-- `strtoul`: the value and the end pointer. -/
def strtoul (base : Nat) (t : Text) : Nat × Text :=
  match convert base t with
  | none => (0, t)
  | some (negative, n, rest) =>
    if n ≥ 2 ^ 64 then (2 ^ 64 - 1, rest) else (if negative then (2 ^ 64 - n) % 2 ^ 64 else n, rest)

/-- `strtol` in base 10. -/
def strtol (t : Text) : Int :=
  match convert 10 t with
  | none => 0
  | some (negative, n, _) => if negative then max (-(n : Int)) (-2 ^ 63) else min (n : Int) (2 ^ 63 - 1)

/-- `atoi`: `( int ) strtol`. -/
def atoi (t : Text) : Int32 := Int32.ofInt (strtol t)

/-- `sscanf( t, "%2x", … )`, where it converts. -/
def sscanf2x (t : Text) : Option Nat :=
  let s := (t.dropWhile isspace).take 2
  if s = [48, 120] ∨ s = [48, 88] then none
  else (convert 16 s).map fun (negative, n, _) => if negative then (2 ^ 32 - n) % 2 ^ 32 else n

/-! ## numerals -/

/-- The digits of a number, with enough rounds. -/
def numeral (base : Nat) : Nat → Nat → Text
  | 0, n => [digitChar (n % base)]
  | fuel + 1, n =>
    if n < base then [digitChar n] else numeral base fuel (n / base) ++ [digitChar (n % base)]

/-- `%u`. -/
def decimal (n : Nat) : Text := numeral 10 n n

/-- `%d`. -/
def signedDecimal (v : Int) : Text := if v < 0 then 45 :: decimal v.natAbs else decimal v.natAbs

/-- `%02x` of an octet. -/
def hex2 (b : UInt8) : Text := [digitChar (b.toNat / 16), digitChar (b.toNat % 16)]

theorem digitVal_digitChar : ∀ d, d < 16 → digitVal (digitChar d) = some d := by decide

theorem readDigits_stops {base n : Nat} {t : Text} (h : Stops t) : readDigits base n t = (n, t) := by
  cases t with
  | nil => rfl
  | cons c t =>
    rw [readDigits, (h c rfl).1]

theorem readDigits_digitChar {base d : Nat} (hbase : base ≤ 16) (hd : d < base) (n : Nat) (t : Text) :
    readDigits base n (digitChar d :: t) = readDigits base (n * base + d) t := by
  rw [readDigits, digitVal_digitChar d (by omega)]
  exact if_pos hd

/-- A numeral is read as its number, and reading goes on behind it. -/
theorem readDigits_numeral {base : Nat} (hlower : 2 ≤ base) (hupper : base ≤ 16) {fuel n : Nat} (hn : n ≤ fuel)
    (t : Text) : readDigits base 0 (numeral base fuel n ++ t) = readDigits base n t := by
  induction fuel generalizing n t with
  | zero =>
    obtain rfl : n = 0 := by omega
    show readDigits base 0 (digitChar (0 % base) :: t) = _
    rw [Nat.zero_mod, readDigits_digitChar hupper (by omega)]
    simp
  | succ fuel ih =>
    unfold numeral
    split
    · next hlt =>
      show readDigits base 0 (digitChar n :: t) = _
      rw [readDigits_digitChar hupper hlt]
      simp
    · next hge =>
      have hdiv : n / base < n := Nat.div_lt_self (by omega) (by omega)
      rw [append_assoc, ih (by omega)]
      show readDigits base (n / base) (digitChar (n % base) :: t) = _
      rw [readDigits_digitChar hupper (Nat.mod_lt _ (by omega)), Nat.div_add_mod']

/-- The first digit is not zero, unless the number is. -/
theorem numeral_head {base : Nat} (hbase : 2 ≤ base) {fuel n : Nat} (hn : n ≤ fuel) :
    ∃ d t, numeral base fuel n = digitChar d :: t ∧ d < base ∧ (0 < n → 0 < d) ∧ (n = 0 → t = []) := by
  induction fuel generalizing n with
  | zero =>
    obtain rfl : n = 0 := by omega
    exact ⟨0 % base, [], rfl, Nat.mod_lt _ (by omega), fun h => absurd h (by omega), fun _ => rfl⟩
  | succ fuel ih =>
    unfold numeral
    split
    · next hlt => exact ⟨n, [], rfl, hlt, fun h => h, fun _ => rfl⟩
    · next hge =>
      have hdiv : n / base < n := Nat.div_lt_self (by omega) (by omega)
      obtain ⟨d, t, heq, hd, hpos, -⟩ := ih (n := n / base) (by omega)
      refine ⟨d, t ++ [digitChar (n % base)], by rw [heq]; rfl, hd, fun _ => hpos ?_, fun h => by omega⟩
      exact Nat.div_pos (by omega) (by omega)

theorem numeral_digits {base : Nat} (hbase : 0 < base) (fuel n : Nat) :
    ∀ c ∈ numeral base fuel n, ∃ d, d < base ∧ c = digitChar d := by
  induction fuel generalizing n with
  | zero =>
    intro c hc
    exact ⟨n % base, Nat.mod_lt _ hbase, mem_singleton.mp hc⟩
  | succ fuel ih =>
    unfold numeral
    split
    · next hlt =>
      intro c hc
      exact ⟨n, hlt, mem_singleton.mp hc⟩
    · intro c hc
      rcases mem_append.mp hc with hc | hc
      · exact ih _ c hc
      · exact ⟨n % base, Nat.mod_lt _ hbase, mem_singleton.mp hc⟩

theorem length_numeral_le {base : Nat} (k : Nat) {fuel n : Nat}
    (hn : n < base ^ (k + 1)) : (numeral base fuel n).length ≤ k + 1 := by
  induction fuel generalizing n k with
  | zero => simp [numeral]
  | succ fuel ih =>
    unfold numeral
    split
    · simp
    · next hge =>
      cases k with
      | zero =>
        rw [Nat.zero_add, Nat.pow_one] at hn
        exact absurd hn hge
      | succ k =>
        rw [length_append, length_singleton]
        have := ih k (n := n / base) (Nat.div_lt_of_lt_mul (by rw [← Nat.pow_succ']; exact hn))
        omega

theorem lt_pow_length_numeral {base : Nat} (hbase : 2 ≤ base) {fuel n : Nat} (hn : n ≤ fuel) :
    n < base ^ (numeral base fuel n).length := by
  induction fuel generalizing n with
  | zero =>
    obtain rfl : n = 0 := by omega
    exact Nat.pow_pos (by omega)
  | succ fuel ih =>
    unfold numeral
    split
    · next hlt =>
      rw [length_singleton, Nat.pow_one]
      exact hlt
    · next hge =>
      have hdiv : n / base < n := Nat.div_lt_self (by omega) (by omega)
      have hlt := ih (n := n / base) (by omega)
      rw [length_append, length_singleton, Nat.pow_succ]
      exact (Nat.div_lt_iff_lt_mul (by omega)).1 hlt

theorem digit_facts : ∀ d, d < 10 → isspace (digitChar d) = false ∧ isdigit (digitChar d) = true ∧
    digitChar d ≠ 45 ∧ digitChar d ≠ 43 ∧ digitChar d ≠ 35 ∧ digitChar d ≠ 46 ∧ digitChar d ≠ 34 ∧
    digitChar d ≠ 39 ∧ digitChar d ≠ 92 ∧ (0 < d → digitChar d ≠ 48) ∧ digitChar d ≠ 120 ∧ digitChar d ≠ 88 ∧
    digitChar d ≠ 58 ∧ digitChar d ≠ 0 := by decide

theorem decimal_facts {n : Nat} {c : UInt8} (h : c ∈ decimal n) : isspace c = false ∧ isdigit c = true ∧
    c ≠ 45 ∧ c ≠ 43 ∧ c ≠ 35 ∧ c ≠ 46 ∧ c ≠ 34 ∧ c ≠ 39 ∧ c ≠ 92 ∧ c ≠ 120 ∧ c ≠ 88 ∧ c ≠ 58 ∧ c ≠ 0 := by
  obtain ⟨d, hd, rfl⟩ := numeral_digits (by omega) n n c h
  obtain ⟨h₁, h₂, h₃, h₄, h₅, h₆, h₇, h₈, h₉, -, h₁₀, h₁₁, h₁₂, h₁₃⟩ := digit_facts d hd
  exact ⟨h₁, h₂, h₃, h₄, h₅, h₆, h₇, h₈, h₉, h₁₀, h₁₁, h₁₂, h₁₃⟩

/-- The first digit of a decimal numeral. -/
theorem decimal_cons (n : Nat) : ∃ d t, decimal n = digitChar d :: t ∧ d < 10 ∧ (0 < n → digitChar d ≠ 48) ∧
    (n = 0 → t = []) := by
  obtain ⟨d, t, h, hd, hpos, hnil⟩ := @numeral_head 10 (by omega) n n (Nat.le_refl n)
  exact ⟨d, t, h, hd, fun hn => (digit_facts d hd).2.2.2.2.2.2.2.2.2.1 (hpos hn), hnil⟩

theorem length_decimal_le {n : Nat} (hn : n < 2 ^ 32) : (decimal n).length ≤ 10 :=
  length_numeral_le 9 (by omega)

theorem readDigits_decimal {n : Nat} {t : Text} (ht : Stops t) : readDigits 10 0 (decimal n ++ t) = (n, t) := by
  unfold decimal
  rw [readDigits_numeral (by omega) (by omega) (Nat.le_refl n), readDigits_stops ht]

theorem skipSign_decimal (n : Nat) (t : Text) : skipSign (decimal n ++ t) = (false, decimal n ++ t) ∧
      skipSign (45 :: decimal n ++ t) = (true, decimal n ++ t) := by
  obtain ⟨d, s, hs, hd, -⟩ := decimal_cons n
  obtain ⟨hspace, -, hminus, hplus, -⟩ := digit_facts d hd
  rw [hs]
  constructor
  · unfold skipSign
    rw [cons_append, dropWhile_cons_of_neg (by rw [hspace]; simp)]
    simp [hminus, hplus]
  · unfold skipSign
    rw [cons_append, dropWhile_cons_of_neg (by decide)]
    simp

/-- A decimal numeral is read in base 10, and in base 0 too, where a leading zero would count. -/
theorem skipMark_decimal {base : Nat} (hbase : base = 0 ∨ base = 10) (n : Nat) {t : Text} (ht : Stops t) :
    ∃ b, skipMark base (decimal n ++ t) = (b, decimal n ++ t) ∧ startsDigit b (decimal n ++ t) = true ∧
      readDigits b 0 (decimal n ++ t) = (n, t) := by
  obtain ⟨d, s, hs, hd, hpos, hzero⟩ := decimal_cons n
  have hval := digitVal_digitChar d (by omega)
  have hhead : (decimal n ++ t).head? = some (digitChar d) := by
    rw [hs]
    rfl
  have hhex : ¬ hexMark (decimal n ++ t) := by
    rintro ⟨hz, hx, -⟩
    rw [hhead, Option.some.injEq] at hz
    have hn : n = 0 := by
      by_contra hne
      exact hpos (by omega) hz
    rw [hs, hzero hn] at hx
    rcases hx with hx | hx
    · exact (ht 120 hx).2.1 rfl
    · exact (ht 88 hx).2.2 rfl
  have hten : startsDigit 10 (decimal n ++ t) = true := by
    rw [hs]
    simp [startsDigit, hval, hd]
  unfold skipMark
  rw [if_neg fun h => hhex h.2]
  rcases hbase with rfl | rfl
  · rw [if_pos rfl, hhead]
    by_cases hz : digitChar d = 48
    · -- the number is zero, and octal
      have hn : n = 0 := by
        by_contra hne
        exact hpos (by omega) hz
      subst hn
      refine ⟨8, by rw [if_pos (by rw [hz])], rfl, ?_⟩
      show readDigits 8 0 (digitChar 0 :: t) = _
      rw [readDigits_digitChar (by omega) (by omega), readDigits_stops ht]
    · exact ⟨10, by rw [if_neg (by simpa using hz)], hten, readDigits_decimal ht⟩
  · exact ⟨10, rfl, hten, readDigits_decimal ht⟩

theorem convert_decimal {base n : Nat} (hbase : base = 0 ∨ base = 10) {t : Text} (ht : Stops t) :
    convert base (decimal n ++ t) = some (false, n, t) ∧ convert base (45 :: decimal n ++ t) = some (true, n, t) := by
  obtain ⟨b, hmark, hstart, hread⟩ := skipMark_decimal hbase n ht
  obtain ⟨hsign, hminus⟩ := skipSign_decimal n t
  unfold convert
  rw [hsign, hminus]
  simp only [hmark, if_pos hstart, hread, and_self]

theorem strtoul_decimal {n : Nat} (hn : n < 2 ^ 32) {t : Text} (ht : Stops t) :
    strtoul 0 (decimal n ++ t) = (n, t) := by
  unfold strtoul
  rw [(convert_decimal (.inl rfl) ht).1]
  simp only []
  rw [if_neg (by omega)]
  rfl

/-- `atoi` undoes `%d`. -/
theorem atoi_signedDecimal (v : Int32) {t : Text} (ht : Stops t) : atoi (signedDecimal v.toInt ++ t) = v := by
  have hlower := v.le_toInt
  have hupper := v.toInt_lt
  unfold atoi strtol signedDecimal
  by_cases hneg : v.toInt < 0
  · rw [if_pos hneg, (convert_decimal (.inr rfl) ht).2]
    simp only [if_true]
    rw [max_eq_left (by omega), show -(v.toInt.natAbs : Int) = v.toInt by omega, Int32.ofInt_toInt]
  · rw [if_neg hneg, (convert_decimal (.inr rfl) ht).1]
    simp only [Bool.false_eq_true, if_false]
    rw [min_eq_left (by omega), show (v.toInt.natAbs : Int) = v.toInt by omega, Int32.ofInt_toInt]

theorem hexDigit_facts : ∀ d, d < 16 → isspace (digitChar d) = false ∧ digitChar d ≠ 45 ∧ digitChar d ≠ 43 ∧
    digitChar d ≠ 120 ∧ digitChar d ≠ 88 ∧ digitChar d ≠ 0 ∧ digitChar d ≠ 35 := by decide

theorem convert_hexDigits {h l : Nat} (hh : h < 16) (hl : l < 16) :
    convert 16 [digitChar h, digitChar l] = some (false, h * 16 + l, []) := by
  obtain ⟨hspace, hminus, hplus, -⟩ := hexDigit_facts h hh
  obtain ⟨-, -, -, hx, hX, -⟩ := hexDigit_facts l hl
  have hsign : skipSign [digitChar h, digitChar l] = (false, [digitChar h, digitChar l]) := by
    unfold skipSign
    rw [dropWhile_cons_of_neg (by rw [hspace]; simp)]
    simp [hminus, hplus]
  have hmark : skipMark 16 [digitChar h, digitChar l] = (16, [digitChar h, digitChar l]) := by
    unfold skipMark
    rw [if_neg]
    · rfl
    · rintro ⟨-, -, hmark, -⟩
      simp [hx, hX] at hmark
  have hstart : startsDigit 16 [digitChar h, digitChar l] = true := by
    simp [startsDigit, digitVal_digitChar h hh, hh]
  unfold convert
  rw [hsign]
  simp only [hmark, if_pos hstart]
  rw [readDigits_digitChar (by omega) hh, readDigits_digitChar (by omega) hl, Nat.zero_mul, Nat.zero_add]
  rfl

/-- `%2x` undoes `%02x`. -/
theorem sscanf2x_hex2 (b : UInt8) (t : Text) : sscanf2x (hex2 b ++ t) = some b.toNat := by
  have hb := b.toNat_lt
  have hh : b.toNat / 16 < 16 := by omega
  have hl : b.toNat % 16 < 16 := by omega
  obtain ⟨hspace, -⟩ := hexDigit_facts _ hh
  obtain ⟨-, -, -, hx, hX, -⟩ := hexDigit_facts _ hl
  have htake : ((hex2 b ++ t).dropWhile isspace).take 2 = [digitChar (b.toNat / 16), digitChar (b.toNat % 16)] := by
    unfold hex2
    rw [cons_append, dropWhile_cons_of_neg (by rw [hspace]; simp)]
    rfl
  unfold sscanf2x
  simp only [htake]
  rw [if_neg (by simp [hx, hX]), convert_hexDigits hh hl]
  simp only [Option.map_some, Bool.false_eq_true, if_false]
  rw [Nat.div_add_mod']

end Priot.Lib
