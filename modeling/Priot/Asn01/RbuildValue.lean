/-
# What the octets of the reverse encoders mean

The numbers in the contents the reverse encoders write: two's-complement values, the two words of a
64-bit value, octets of a floating value, subidentifiers.
-/
import Priot.Asn01.RbuildSpec

namespace Priot.Asn01

open Octets List

/-! ## integers -/

theorem signOf_eq (x : Int) : signOf x = 0 ∨ signOf x = -1 := by
  rw [signOf]
  split <;> simp

theorem checkOverflowSigned_bounds (x : Int) : signOf (checkOverflowSigned x) * 256 ^ 4 ≤ checkOverflowSigned x ∧
      checkOverflowSigned x < (signOf (checkOverflowSigned x) + 1) * 256 ^ 4 := by
  have h : -(2 : Int) ^ 32 ≤ checkOverflowSigned x ∧ checkOverflowSigned x < 2 ^ 32 := by
    rw [checkOverflowSigned]
    split
    · omega
    · split <;> omega
  rw [signOf]
  split <;> omega

theorem checkOverflowUnsigned_lt (x : Nat) : checkOverflowUnsigned x < 2 ^ 32 := by
  rw [checkOverflowUnsigned]
  split <;> omega

theorem checkOverflowUnsigned_idem (x : Nat) :
    checkOverflowUnsigned (checkOverflowUnsigned x) = checkOverflowUnsigned x := by
  have h := checkOverflowUnsigned_lt x
  rw [checkOverflowUnsigned, if_neg (by omega)]

theorem checkOverflowSigned_of_range {x : Int} (hlo : -2 ^ 31 ≤ x) (hhi : x < 2 ^ 31) : checkOverflowSigned x = x := by
  rw [checkOverflowSigned, if_neg (by omega), if_neg (by omega)]

theorem checkOverflowUnsigned_of_range {x : Nat} (h : x < 2 ^ 32) : checkOverflowUnsigned x = x := by
  rw [checkOverflowUnsigned, if_neg (by omega)]

theorem writeSigned_length_le_five {t x : Int} (hlo : t * 256 ^ 4 ≤ x) (hhi : x < (t + 1) * 256 ^ 4)
    (fuel : Nat) : (writeSigned t fuel x).length ≤ 5 := by
  have hout : (shiftOut t fuel (x / 256)).length ≤ 3 := by
    refine Octets.shiftOut_length_le_of_bounds fuel ?_ ?_ <;> omega
  have hpad := Octets.signPad_length_le t (shiftOut t fuel (x / 256) ++ [lowOctet x])
  rw [length_append, length_singleton] at hpad
  rw [writeSigned]
  omega

theorem bounds_nine {t x : Int} (ht : t = 0 ∨ t = -1) (hlo : t * 256 ^ 4 ≤ x)
    (hhi : x < (t + 1) * 256 ^ 4) : t * 256 ^ (8 + 1) ≤ x ∧ x < (t + 1) * 256 ^ (8 + 1) := by
  rcases ht with rfl | rfl <;> constructor <;> norm_num at * <;> omega

theorem signed_intContent (v : Int) : signed (writeSigned (signOf (checkOverflowSigned v)) 8 (checkOverflowSigned v))
      = checkOverflowSigned v := by
  have hb := checkOverflowSigned_bounds v
  have h9 := bounds_nine (signOf_eq _) hb.1 hb.2
  exact Octets.signed_writeSigned (signOf_eq _) h9.1 h9.2

theorem intContent_length_le (v : Int) :
    (writeSigned (signOf (checkOverflowSigned v)) 8 (checkOverflowSigned v)).length ≤ 5 :=
  writeSigned_length_le_five (checkOverflowSigned_bounds v).1 (checkOverflowSigned_bounds v).2 8

theorem unsignedContent {x : Nat} (hx : x < 2 ^ 32) :
    UnsignedContent (writeSigned 0 8 x) ∧ signWord (writeSigned 0 8 x) = 0 ∧ beNat (writeSigned 0 8 x) = x := by
  have hlo : (0 : Int) * 256 ^ 4 ≤ x := by omega
  have hhi : (x : Int) < (0 + 1) * 256 ^ 4 := by omega
  have hlen := writeSigned_length_le_five hlo hhi 8
  have h9 := bounds_nine (Or.inl rfl) hlo hhi
  have hval := Octets.writeSigned_value (Or.inl rfl) h9.1 h9.2
  rw [zero_mul, zero_add] at hval
  refine ⟨⟨Octets.writeSigned_ne_nil _ _ _, by omega, by omega⟩,
    Octets.signPad_signWord (Or.inl rfl) (by simp), ?_⟩
  exact_mod_cast hval.symm

/-! ## 64-bit values -/

theorem lowWord_value (t low : Int) : (lowWord t low).length ≤ 4 ∧
      t * 256 ^ (lowWord t low).length + beNat (lowWord t low) ≡ low [ZMOD 2 ^ 32] := by
  have hlen := Octets.shiftOut_length_le t 3 (low / 256)
  have hmod := Octets.shiftOut_emod t 3 (low / 256)
  refine ⟨by rw [lowWord, length_append, length_singleton]; omega, ?_⟩
  have hmul := (hmod.mul_left' (c := 256)).symm
  have hoct := Octets.lowOctet_toNat low
  have hdiv := Int.emod_add_mul_ediv low 256
  rw [lowWord, length_append, Octets.beNat_append, length_singleton,
    Octets.beNat_singleton, pow_one]
  push_cast
  rw [hoct]
  calc t * 256 ^ ((shiftOut t 3 (low / 256)).length + 1)
        + ((beNat (shiftOut t 3 (low / 256)) : Int) * 256 + low % 256)
      = low % 256 + 256 * (t * 256 ^ (shiftOut t 3 (low / 256)).length
          + (beNat (shiftOut t 3 (low / 256)) : Int)) := by ring
    _ ≡ low % 256 + 256 * (low / 256) [ZMOD 2 ^ 32] := hmul.add_left _
    _ = low := hdiv

theorem highWord_value {t high : Int} (ht : t = 0 ∨ t = -1) (hlo : t * 256 ^ 4 ≤ high)
    (hhi : high < (t + 1) * 256 ^ 4) : (highWord t high).length ≤ 4 ∧
      high = t * 256 ^ (highWord t high).length + beNat (highWord t high) := by
  have hlo' : t * 256 ^ 3 ≤ high / 256 := by omega
  have hhi' : high / 256 < (t + 1) * 256 ^ 3 := by omega
  have hlen := Octets.shiftOut_length_le_of_bounds 4 hlo' hhi'
  have hlo4 : t * 256 ^ 4 ≤ high / 256 := by
    rcases ht with rfl | rfl <;> omega
  have hhi4 : high / 256 < (t + 1) * 256 ^ 4 := by
    rcases ht with rfl | rfl <;> omega
  have hval := Octets.shiftOut_value hlo4 hhi4
  refine ⟨by rw [highWord, length_append, length_singleton]; omega, ?_⟩
  have hoct := Octets.lowOctet_toNat high
  have hdiv := Int.emod_add_mul_ediv high 256
  rw [highWord, length_append, Octets.beNat_append, length_singleton,
    Octets.beNat_singleton, pow_one]
  push_cast
  rw [hoct]
  calc high = high % 256 + 256 * (high / 256) := hdiv.symm
    _ = high % 256 + 256 * (t * 256 ^ (shiftOut t 4 (high / 256)).length
          + (beNat (shiftOut t 4 (high / 256)) : Int)) := by rw [← hval]
    _ = _ := by ring

theorem wordsBody_value {t high : Int} (ht : t = 0 ∨ t = -1) (hlo : t * 256 ^ 4 ≤ high)
    (hhi : high < (t + 1) * 256 ^ 4) (low : Int) : (wordsBody t high low).length ≤ 8 ∧
      t * 256 ^ (wordsBody t high low).length + beNat (wordsBody t high low) = high * 2 ^ 32 + low % 2 ^ 32 := by
  obtain ⟨hlen, hlow⟩ := lowWord_value t low
  rw [wordsBody]
  split
  · obtain ⟨hhlen, hhigh⟩ := highWord_value ht hlo hhi
    -- the low word with its sign octets is four octets long
    set filled := replicate (4 - (lowWord t low).length) (lowOctet t) ++ lowWord t low
      with hfilled
    have hflen : filled.length = 4 := by
      rw [hfilled, length_append, length_replicate]
      omega
    have hfill := Octets.signFill_value ht (4 - (lowWord t low).length) (lowWord t low)
    rw [← hfilled, hflen] at hfill
    rw [hfill] at hlow
    have hlt := Octets.beNat_lt filled
    rw [hflen] at hlt
    have hword : (beNat filled : Int) = low % 2 ^ 32 := by
      have hmod : (t * 256 ^ 4 + beNat filled) % 2 ^ 32 = low % 2 ^ 32 := hlow
      omega
    rw [append_assoc, ← hfilled, length_append, hflen, Octets.beNat_append, hflen]
    refine ⟨by omega, ?_⟩
    push_cast
    rw [hword, pow_add]
    calc t * (256 ^ (highWord t high).length * 256 ^ 4)
          + ((beNat (highWord t high) : Int) * 256 ^ 4 + low % 2 ^ 32)
        = (t * 256 ^ (highWord t high).length + (beNat (highWord t high) : Int)) * 2 ^ 32
            + low % 2 ^ 32 := by ring
      _ = high * 2 ^ 32 + low % 2 ^ 32 := by rw [← hhigh]
  · next heq =>
    rw [ne_eq, not_not] at heq
    refine ⟨by omega, ?_⟩
    have hlt := Octets.beNat_lt (lowWord t low)
    have hpow : (256 : Int) ^ (lowWord t low).length ≤ 2 ^ 32 := by
      calc (256 : Int) ^ (lowWord t low).length ≤ 256 ^ 4 := pow_le_pow_right₀ (by norm_num) hlen
        _ = 2 ^ 32 := by norm_num
    have hmod : (t * 256 ^ (lowWord t low).length + beNat (lowWord t low)) % 2 ^ 32
        = low % 2 ^ 32 := hlow
    have hlt' : (beNat (lowWord t low) : Int) < 256 ^ (lowWord t low).length := by exact_mod_cast hlt
    rw [heq]
    rcases ht with rfl | rfl
    · rw [zero_mul, zero_add] at hmod ⊢
      omega
    · generalize (256 : Int) ^ (lowWord (-1) low).length = p at *
      omega

theorem writeWords_value {t high : Int} (ht : t = 0 ∨ t = -1) (hlo : t * 256 ^ 4 ≤ high)
    (hhi : high < (t + 1) * 256 ^ 4) (hneg : t = -1 → -2 ^ 31 ≤ high) (low : Int) :
    let c := writeWords t high low
    c ≠ [] ∧ c.length ≤ 9 ∧ (c.length = 9 → c.head? = some 0) ∧ signWord c = t ∧
      t * 256 ^ c.length + beNat c = high * 2 ^ 32 + low % 2 ^ 32 := by
  obtain ⟨hlen, hval⟩ := wordsBody_value ht hlo hhi low
  have hne := wordsBody_ne_nil t high low
  have hpad := Octets.signPad_length_le t (wordsBody t high low)
  have hvalue := Octets.signPad_value' ht hval.symm
  simp only
  rw [writeWords]
  refine ⟨Octets.signPad_ne_nil hne, by omega, fun h9 => ?_, Octets.signPad_signWord ht hne,
    hvalue.symm⟩
  -- nine octets: a sign octet stands in front of eight, and then it is zero
  obtain ⟨b, os, hbody⟩ := exists_cons_of_ne_nil hne
  rw [hbody] at hlen hval h9 ⊢
  simp only [signPad, signOctets] at h9 ⊢
  split at h9
  · next hsign =>
    rw [if_pos hsign]
    rcases ht with rfl | rfl
    · rfl
    · exfalso
      simp only [length_append, length_cons, length_nil] at h9
      have hos : os.length = 7 := by omega
      have hlow : 0 ≤ low % 2 ^ 32 := Int.emod_nonneg _ (by norm_num)
      have hhigh := hneg rfl
      have hos_lt := Octets.beNat_lt os
      rw [hos] at hos_lt
      rw [length_cons, hos, Octets.beNat_cons, hos] at hval
      push_cast at hval
      have hb : 128 ≤ b.toNat := by
        norm_num at hval hos_lt
        omega
      rw [(Octets.hiBit_iff b).mpr hb] at hsign
      exact hsign rfl
  · simp only [nil_append] at h9
    omega

theorem wordsContent_unsigned64 (high low : UInt32) :
    WordsContent (0, 0) (writeWords 0 high.toNat low.toNat) high low := by
  have hh := high.toNat_lt
  have hl := low.toNat_lt
  have hlo : (0 : Int) * 256 ^ 4 ≤ high.toNat := by omega
  have hhi : (high.toNat : Int) < (0 + 1) * 256 ^ 4 := by omega
  obtain ⟨hne, hle, hnine, -, hval⟩ :=
    writeWords_value (Or.inl rfl) hlo hhi (by omega) low.toNat
  refine wordsContent_unsigned hne hle hnine ?_
  rw [zero_mul, zero_add] at hval
  omega

theorem wordsContent_signed64 (high low : UInt32) :
    let c := writeWords (signOfWord high) high.toInt32.toInt low.toInt32.toInt
    WordsContent (signStart c) c high low := by
  have hh := high.toNat_lt
  have hl := low.toNat_lt
  have hhigh := toInt32_toInt high
  have hlow := toInt32_toInt low
  have hsign : signOfWord high = if high.toInt32.toInt < 0 then -1 else 0 := rfl
  have hbounds : signOfWord high * 256 ^ 4 ≤ high.toInt32.toInt ∧
      high.toInt32.toInt < (signOfWord high + 1) * 256 ^ 4 ∧
      (signOfWord high = -1 → -2 ^ 31 ≤ high.toInt32.toInt) := by
    rw [hsign]
    split at hhigh <;> split <;> omega
  obtain ⟨hne, hle, hnine, hsw, hval⟩ := writeWords_value (signOf_eq _) hbounds.1 hbounds.2.1
    hbounds.2.2 low.toInt32.toInt
  have hmod : low.toInt32.toInt % 2 ^ 32 = low.toNat := by
    split at hlow <;> omega
  rw [hmod] at hval
  exact wordsContent_signed (signOf_eq _) hne hle hnine hsw hval

/-! ## floating point -/

theorem wordOctets_value {n v : Nat} (h : v < 256 ^ n) : beNat (wordOctets n v) = v := by
  induction n generalizing v with
  | zero =>
    rw [pow_zero] at h
    rw [wordOctets, Octets.beNat_nil]
    omega
  | succ n ih =>
    have hdiv : v / 256 < 256 ^ n := by
      rw [Nat.div_lt_iff_lt_mul (by norm_num), ← pow_succ]
      exact h
    rw [wordOctets, Octets.beNat_append, ih hdiv, length_singleton, Octets.beNat_singleton,
      Octets.toNat_ofNat_of_lt (by omega), pow_one]
    omega

/-! ## object identifiers -/

theorem subidsContent_subidOctets (subids : List Oid) : SubidsContent subids (subidOctets subids) := by
  induction subids with
  | nil => exact .nil
  | cons v subids ih =>
    have hv := v.toNat_lt
    exact .cons (Base128.write_isNumeral (by omega)) ih

theorem subidOctets_length_le (subids : List Oid) : (subidOctets subids).length ≤ 5 * subids.length := by
  induction subids with
  | nil => simp [subidOctets]
  | cons v subids ih =>
    have hv := Base128.write_length_le 4 v.toNat
    have hcons : subidOctets (v :: subids) = Base128.write 4 v.toNat ++ subidOctets subids := rfl
    rw [hcons, length_append, length_cons]
    omega

end Priot.Asn01
