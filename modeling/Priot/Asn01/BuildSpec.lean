/-
# The octets of the forward encoders

The buffer has at most `0xffff` octets, so the lengths are those the reverse encoders write too, and the length of a
content that is too long is never written short.
-/
import Priot.Asn01.Build
import Priot.Asn01.RbuildValue

namespace Priot.Asn01

open Octets List

/-! ## runs that succeed -/

variable {s s' : WBuf}

theorem run_bind_eq_some {α β : Type} {m : Build α} {f : α → Build β} {b : β} : (m >>= f).run s = some (b, s') ↔
      ∃ a s₁, m.run s = some (a, s₁) ∧ (f a).run s₁ = some (b, s') := by
  simp only [StateT.run_bind, Option.bind_eq_bind, Option.bind_eq_some_iff, Prod.exists]

theorem run_pure_eq_some {α : Type} {a b : α} : (pure a : Build α).run s = some (b, s') ↔ a = b ∧ s = s' := by
  simp only [StateT.run_pure, Option.pure_def, Option.some.injEq, Prod.mk.injEq]

theorem run_get_eq_some {a : WBuf} : (get : Build WBuf).run s = some (a, s') ↔ s = a ∧ s = s' := by
  constructor
  · intro h
    cases h
    exact ⟨rfl, rfl⟩
  · rintro ⟨rfl, rfl⟩
    rfl

variable {u : Unit}

theorem run_guard_eq_some {p : Prop} [Decidable p] : (guard p : Build Unit).run s = some (u, s') ↔ p ∧ s = s' := by
  unfold guard
  split
  · next h => simp only [run_pure_eq_some, true_and, h]
  · next h =>
    simp only [h, false_and, iff_false]
    intro h'
    cases h'

theorem run_lift_eq_some {α : Type} {o : Option α} {a : α} :
    (liftM o : Build α).run s = some (a, s') ↔ o = some a ∧ s = s' := by
  cases o with
  | none =>
    simp only [reduceCtorEq, false_and, iff_false]
    intro h
    cases h
  | some b =>
    simp only [Option.some.injEq]
    constructor
    · intro h
      cases h
      exact ⟨rfl, rfl⟩
    · rintro ⟨rfl, rfl⟩
      rfl

theorem run_emit_eq_some {bs : List UInt8} :
    (emit bs).run s = some (u, s') ↔ s' = { s with out := s.out ++ bs } := by
  constructor
  · intro h
    cases h
    rfl
  · rintro rfl
    rfl

variable {n : Nat}

theorem run_spend_eq_some :
    (spend n).run s = some (u, s') ↔ s' = { s with left := s.left - n } := by
  constructor
  · intro h
    cases h
    rfl
  · rintro rfl
    rfl

theorem run_buildHeaderCheck_eq_some : (buildHeaderCheck n).run s = some (u, s') ↔ n ≤ s.left ∧ s = s' := by
  unfold buildHeaderCheck
  simp only [run_bind_eq_some, run_get_eq_some, run_guard_eq_some, Nat.not_lt]
  constructor
  · rintro ⟨_, _, ⟨rfl, rfl⟩, h⟩
    exact h
  · exact fun h => ⟨s, s, ⟨rfl, rfl⟩, h⟩

/-- From `s` to `s'` the octets `bs` have been written, and counted. -/
structure Wrote (s : WBuf) (bs : List UInt8) (s' : WBuf) : Prop where
  out : s'.out = s.out ++ bs
  left : s'.left + bs.length = s.left

theorem Wrote.trans {s₁ : WBuf} {bs cs : List UInt8} (h : Wrote s bs s₁) (h' : Wrote s₁ cs s') :
    Wrote s (bs ++ cs) s' where
  out := by rw [h'.out, h.out, append_assoc]
  left := by
    have hl := h.left
    have hl' := h'.left
    rw [length_append]
    omega

theorem Wrote.left_le {bs : List UInt8} (h : Wrote s bs s') : s'.left ≤ s.left := by
  have := h.left
  omega

theorem wrote_emit_spend {bs : List UInt8} (hs : bs.length ≤ s.left)
    (h : s' = { s with out := s.out ++ bs, left := s.left - bs.length }) : Wrote s bs s' := by
  subst h
  exact ⟨rfl, Nat.sub_add_cancel hs⟩

/-! ## headers -/

theorem lengthOctets_short (h : n < 0x80) : lengthOctets n = [UInt8.ofNat n] := by
  rw [lengthOctets, if_pos (by omega)]

theorem lengthOctets_long (hlo : 0x7f < n) (hhi : n ≤ 0xff) : lengthOctets n = [0x81, UInt8.ofNat n] := by
  have hsplit : lengthSplit 8 n = (n, []) := by rw [lengthSplit, if_neg (by omega)]
  have hcount : UInt8.ofNat (0 + 1 ||| 0x80) = 0x81 := by decide
  rw [lengthOctets, if_neg (by omega), hsplit, Nat.mod_eq_of_lt (by omega), length_nil, hcount]

theorem lengthOctets_longer (hlo : 0xff < n) (hhi : n ≤ 0xffff) :
    lengthOctets n = [0x82, UInt8.ofNat (n / 256 % 256), UInt8.ofNat (n % 256)] := by
  have hsplit : lengthSplit 8 n = (n / 256, [UInt8.ofNat (n % 256)]) := by
    rw [lengthSplit, if_pos hlo, lengthSplit, if_neg (by omega)]
    rfl
  have hcount : UInt8.ofNat (0 + 1 + 1 ||| 0x80) = 0x82 := by decide
  rw [lengthOctets, if_neg (by omega), hsplit, length_cons, length_nil, hcount]

theorem buildLength_wrote (hn : n ≤ 0xffff)
    (h : (buildLength n).run s = some (u, s')) : Wrote s (lengthOctets n) s' := by
  unfold buildLength at h
  split at h
  · next hshort =>
    simp only [run_bind_eq_some, run_buildHeaderCheck_eq_some, run_emit_eq_some,
      run_spend_eq_some] at h
    obtain ⟨-, _, ⟨hleft, rfl⟩, -, _, rfl, rfl⟩ := h
    rw [lengthOctets_short hshort]
    exact wrote_emit_spend hleft rfl
  · next hshort =>
    split at h
    · next hlong =>
      simp only [run_bind_eq_some, run_buildHeaderCheck_eq_some, run_emit_eq_some,
        run_spend_eq_some] at h
      obtain ⟨-, _, ⟨hleft, rfl⟩, -, _, rfl, rfl⟩ := h
      rw [lengthOctets_long (by omega) hlong]
      exact wrote_emit_spend hleft rfl
    · next hlong =>
      simp only [run_bind_eq_some, run_buildHeaderCheck_eq_some, run_emit_eq_some,
        run_spend_eq_some] at h
      obtain ⟨-, _, ⟨hleft, rfl⟩, -, _, rfl, rfl⟩ := h
      rw [lengthOctets_longer (by omega) hn]
      exact wrote_emit_spend hleft rfl

theorem buildLength_left_le (h : (buildLength n).run s = some (u, s')) : s'.left ≤ s.left := by
  unfold buildLength at h
  split at h
  · simp only [run_bind_eq_some, run_buildHeaderCheck_eq_some, run_emit_eq_some,
      run_spend_eq_some] at h
    obtain ⟨-, _, ⟨-, rfl⟩, -, _, rfl, rfl⟩ := h
    exact Nat.sub_le _ _
  · split at h
    · simp only [run_bind_eq_some, run_buildHeaderCheck_eq_some, run_emit_eq_some,
        run_spend_eq_some] at h
      obtain ⟨-, _, ⟨-, rfl⟩, -, _, rfl, rfl⟩ := h
      exact Nat.sub_le _ _
    · simp only [run_bind_eq_some, run_buildHeaderCheck_eq_some, run_emit_eq_some,
        run_spend_eq_some] at h
      obtain ⟨-, _, ⟨-, rfl⟩, -, _, rfl, rfl⟩ := h
      exact Nat.sub_le _ _

variable {type : UInt8}

theorem buildHeader_wrote (hn : n ≤ 0xffff)
    (h : (buildHeader type n).run s = some (u, s')) : Wrote s (headerOctets type n) s' := by
  unfold buildHeader at h
  simp only [run_bind_eq_some, run_buildHeaderCheck_eq_some, run_emit_eq_some,
    run_spend_eq_some] at h
  obtain ⟨-, _, ⟨hleft, rfl⟩, -, _, rfl, -, _, rfl, h⟩ := h
  have htag : Wrote s [type] ⟨s.out ++ [type], s.left - 1⟩ := wrote_emit_spend hleft rfl
  exact htag.trans (buildLength_wrote hn h)

theorem buildHeader_left_le (h : (buildHeader type n).run s = some (u, s')) : s'.left ≤ s.left := by
  unfold buildHeader at h
  simp only [run_bind_eq_some, run_buildHeaderCheck_eq_some, run_emit_eq_some,
    run_spend_eq_some] at h
  obtain ⟨-, _, ⟨-, rfl⟩, -, _, rfl, -, _, rfl, h⟩ := h
  exact (buildLength_left_le h).trans (Nat.sub_le _ _)

/-- A header with the check behind it: the content has room, so its length is written in full. -/
theorem checkedHeader_wrote {s₁ : WBuf} {v : Unit}
    (hs : s.left ≤ 0xffff) (h : (buildHeader type n).run s = some (u, s₁))
    (hcheck : (buildHeaderCheck n).run s₁ = some (v, s')) : Wrote s (headerOctets type n) s' ∧ n ≤ s'.left := by
  obtain ⟨hn, rfl⟩ := run_buildHeaderCheck_eq_some.mp hcheck
  have hle := buildHeader_left_le h
  exact ⟨buildHeader_wrote (by omega) h, hn⟩

theorem Wrote.tlv {content : List UInt8} {s₁ : WBuf}
    (h : Wrote s (headerOctets type content.length) s₁) (hc : Wrote s₁ content s') :
    Wrote s (tlv type content) s' := h.trans hc

theorem sequenceOctets_length (type : UInt8) (n : Nat) : (sequenceOctets type n).length = 4 := rfl

theorem isTlv_sequence {content : List UInt8} (h : content.length ≤ 0xffff) :
    IsTlv type content (sequenceOctets type content.length ++ content) := by
  have hbe : beNat [UInt8.ofNat (content.length / 256 % 256), UInt8.ofNat (content.length % 256)]
      = content.length := by
    rw [Octets.beNat_cons, Octets.beNat_singleton, Octets.toNat_ofNat_of_lt (by omega),
      Octets.toNat_ofNat_of_lt (by omega), length_singleton, pow_one]
    omega
  have hlong := isLength_long (b := 0x82)
    (o := [UInt8.ofNat (content.length / 256 % 256), UInt8.ofNat (content.length % 256)])
    (by simp) (by simp) (by simp) (by rw [hbe]; omega)
  rw [hbe] at hlong
  exact ⟨⟨_, hlong, rfl⟩⟩

theorem buildSequence_wrote (h : (buildSequence type n).run s = some (u, s')) : Wrote s (sequenceOctets type n) s' := by
  unfold buildSequence at h
  simp only [run_bind_eq_some, run_buildHeaderCheck_eq_some, run_emit_eq_some,
    run_spend_eq_some] at h
  obtain ⟨⟨⟩, _, ⟨hleft, rfl⟩, ⟨⟩, _, rfl, rfl⟩ := h
  exact wrote_emit_spend hleft rfl

theorem buildSequenceAt_out {h datalength : Nat}
    {before blank after : List UInt8} (hrun : (buildSequenceAt h datalength type n).run s = some (u, s'))
    (hlen : 4 ≤ datalength) (hout : s.out = before ++ (blank ++ after)) (hh : before.length = h)
    (hblank : blank.length = 4) : s'.out = before ++ (sequenceOctets type n ++ after) ∧ s'.left = s.left := by
  subst hh
  unfold buildSequenceAt at hrun
  rw [if_pos (by omega)] at hrun
  cases hrun
  have hafter : s.out.drop (before.length + 4) = after := by
    rw [hout, ← append_assoc]
    exact drop_left' (by rw [length_append, hblank])
  have hbefore : s.out.take before.length = before := by
    rw [hout]
    exact take_left' rfl
  refine ⟨?_, rfl⟩
  show s.out.take before.length ++ sequenceOctets type n ++ s.out.drop (before.length + 4) = _
  rw [hafter, hbefore, append_assoc]

/-! ## trimming -/

theorem longOctets_length (w n : Nat) : (longOctets w n).length = n := by
  induction n generalizing w with
  | zero => rfl
  | succ n ih => rw [longOctets, length_cons, ih]

variable {w : Nat}

theorem beNat_longOctets (hw : w < 2 ^ 64) (hn : n ≤ 8) : beNat (longOctets w n) = w / 256 ^ (8 - n) := by
  induction n generalizing w with
  | zero =>
    rw [longOctets, Octets.beNat_nil, Nat.div_eq_of_lt]
    norm_num
    exact hw
  | succ n ih =>
    have hpow : 256 ^ n * 256 ^ (8 - (n + 1)) = 2 ^ 56 := by
      rw [← pow_add, show n + (8 - (n + 1)) = 7 by omega]
      norm_num
    have hpow' : 256 ^ (8 - n) = 256 * 256 ^ (8 - (n + 1)) := by
      rw [← pow_succ', show 8 - (n + 1) + 1 = 8 - n by omega]
    have hshift : w * 256 % 2 ^ 64 = 256 * (w % 2 ^ 56) := by omega
    have hlt : (w * 256) % 2 ^ 64 < 2 ^ 64 := Nat.mod_lt _ (by norm_num)
    rw [longOctets, Octets.beNat_cons, longOctets_length, ih hlt (by omega), hshift, hpow',
      Nat.mul_div_mul_left _ _ (by norm_num), Octets.toNat_ofNat_of_lt (by omega)]
    -- `w` is its top octet and the rest
    have hpos : 0 < 256 ^ (8 - (n + 1)) := Nat.pow_pos (by norm_num)
    calc w / 2 ^ 56 * 256 ^ n + w % 2 ^ 56 / 256 ^ (8 - (n + 1))
        = (w % 2 ^ 56 + w / 2 ^ 56 * 256 ^ n * 256 ^ (8 - (n + 1))) / 256 ^ (8 - (n + 1)) := by
          rw [Nat.add_mul_div_right _ _ hpos, Nat.add_comm]
      _ = w / 256 ^ (8 - (n + 1)) := by
          rw [Nat.mul_assoc, hpow, Nat.mod_add_div']

/-- A `u_long` read as signed. -/
def signedLong (w : Nat) : Int := if w < 2 ^ 63 then w else w - 2 ^ 64

theorem signWord_longOctets (hw : w < 2 ^ 64) : signWord (longOctets w (n + 1)) = if w < 2 ^ 63 then 0 else -1 := by
  have htop : (UInt8.ofNat (w / 2 ^ 56)).toNat = w / 2 ^ 56 := Octets.toNat_ofNat_of_lt (by omega)
  rw [longOctets, signWord]
  by_cases h : w < 2 ^ 63
  · have hhi : hiBit (UInt8.ofNat (w / 2 ^ 56)) = false := by
      rw [Octets.hiBit_false_iff, htop]
      omega
    rw [hhi, if_pos h]
    rfl
  · have hhi : hiBit (UInt8.ofNat (w / 2 ^ 56)) = true := by
      rw [Octets.hiBit_iff, htop]
      omega
    rw [hhi, if_neg h]
    rfl

/-- What the trimming loop keeps: between one octet and all of them, and the value, which moves up
with the octets. -/
structure Trimmed (w n : Nat) (r : Nat × Nat) : Prop where
  lt : r.1 < 2 ^ 64
  pos : 1 ≤ r.2
  le : r.2 ≤ n
  dvd : 256 ^ (8 - r.2) ∣ r.1
  value : signedLong r.1 = signedLong w * 256 ^ (n - r.2)

theorem trimmed_trimLong (hw : w < 2 ^ 64) (hn : 1 ≤ n) (hn' : n ≤ 8)
    (hdvd : 256 ^ (8 - n) ∣ w) : Trimmed w n (trimLong w n) := by
  induction n generalizing w with
  | zero => contradiction
  | succ n ih =>
    match n with
    | 0 => exact ⟨hw, le_refl _, le_refl _, hdvd, by simp [trimLong]⟩
    | n + 1 =>
      rw [trimLong]
      split
      · next htop =>
        have hlt : w * 256 % 2 ^ 64 < 2 ^ 64 := Nat.mod_lt _ (by norm_num)
        have hshift : signedLong (w * 256 % 2 ^ 64) = signedLong w * 256 := by
          unfold signedLong
          split_ifs <;> omega
        have hdvd' : 256 ^ (8 - (n + 1)) ∣ w * 256 % 2 ^ 64 := by
          have hpow : 256 ^ (8 - (n + 1)) = 256 ^ (8 - (n + 1 + 1)) * 256 := by
            rw [← pow_succ, show 8 - (n + 1 + 1) + 1 = 8 - (n + 1) by omega]
          rw [Nat.dvd_mod_iff]
          · rw [hpow]
            exact Nat.mul_dvd_mul_right hdvd 256
          · rw [show (2 : Nat) ^ 64 = 256 ^ 8 by norm_num]
            exact Nat.pow_dvd_pow 256 (by omega)
        obtain ⟨h₁, h₂, h₃, h₄, h₅⟩ := ih hlt (by omega) (by omega) hdvd'
        refine ⟨h₁, h₂, by omega, h₄, ?_⟩
        rw [h₅, hshift, mul_assoc, ← pow_succ',
          show n + 1 - (trimLong (w * 256 % 2 ^ 64) (n + 1)).2 + 1
            = n + 1 + 1 - (trimLong (w * 256 % 2 ^ 64) (n + 1)).2 by omega]
      · exact ⟨hw, by simp, le_refl _, hdvd, by simp⟩

/-- The octets of an eight-octet value that are sent. -/
def trimmedOctets (w : Nat) : List UInt8 := longOctets (trimLong w 8).1 (trimLong w 8).2

theorem trimmedOctets_length (hw : w < 2 ^ 64) : 1 ≤ (trimmedOctets w).length ∧ (trimmedOctets w).length ≤ 8 := by
  have ht := trimmed_trimLong hw (by norm_num) (le_refl 8) (one_dvd w)
  rw [trimmedOctets, longOctets_length]
  exact ⟨ht.pos, ht.le⟩

theorem signedLong_nonneg_iff (hw : w < 2 ^ 64) : 0 ≤ signedLong w ↔ w < 2 ^ 63 := by
  unfold signedLong
  split <;> omega

theorem trimmedOctets_signWord (hw : w < 2 ^ 64) : signWord (trimmedOctets w) = if w < 2 ^ 63 then 0 else -1 := by
  have ht := trimmed_trimLong hw (by norm_num) (le_refl 8) (one_dvd w)
  obtain ⟨n, hn⟩ : ∃ n, (trimLong w 8).2 = n + 1 := ⟨(trimLong w 8).2 - 1, by have := ht.pos; omega⟩
  have hpow : (0 : Int) < 256 ^ (8 - (trimLong w 8).2) := by positivity
  have hsame : (trimLong w 8).1 < 2 ^ 63 ↔ w < 2 ^ 63 := by
    rw [← signedLong_nonneg_iff ht.lt, ← signedLong_nonneg_iff hw, ht.value]
    exact mul_nonneg_iff_of_pos_right hpow
  rw [trimmedOctets, hn, signWord_longOctets ht.lt]
  simp only [hsame]

theorem signed_trimmedOctets (hw : w < 2 ^ 64) : signed (trimmedOctets w) = signedLong w := by
  have ht := trimmed_trimLong hw (by norm_num) (le_refl 8) (one_dvd w)
  have hpos := ht.pos
  have hle := ht.le
  have hpow : (0 : Int) < 256 ^ (8 - (trimLong w 8).2) := by positivity
  obtain ⟨n, hn⟩ : ∃ n, (trimLong w 8).2 = n + 1 := ⟨(trimLong w 8).2 - 1, by omega⟩
  have hsign : signWord (trimmedOctets w) = if (trimLong w 8).1 < 2 ^ 63 then 0 else -1 := by
    rw [trimmedOctets, hn, signWord_longOctets ht.lt]
  have hlen : (trimmedOctets w).length = (trimLong w 8).2 := longOctets_length _ _
  have hnat : beNat (trimmedOctets w) = (trimLong w 8).1 / 256 ^ (8 - (trimLong w 8).2) :=
    beNat_longOctets ht.lt hle
  obtain ⟨q, hq⟩ := ht.dvd
  have hq' : beNat (trimmedOctets w) = q := by
    rw [hnat, hq, Nat.mul_div_cancel_left _ (Nat.pow_pos (by norm_num))]
  have hint : ((trimLong w 8).1 : Int) = 256 ^ (8 - (trimLong w 8).2) * q := by
    rw [hq]
    push_cast
    rfl
  have hfull : (256 : Int) ^ (trimLong w 8).2 * 256 ^ (8 - (trimLong w 8).2) = 2 ^ 64 := by
    rw [← pow_add, show (trimLong w 8).2 + (8 - (trimLong w 8).2) = 8 by omega]
    norm_num
  -- both sides moved up to the top of the word are the same
  have hmoved : signed (trimmedOctets w) * 256 ^ (8 - (trimLong w 8).2)
      = signedLong w * 256 ^ (8 - (trimLong w 8).2) := by
    rw [← ht.value, Octets.signed_eq, hsign, hlen, hq', add_mul, mul_assoc, hfull, signedLong]
    split
    · linarith
    · linarith
  exact mul_right_cancel₀ hpow.ne' hmoved

theorem signedLong_pattern {v : Int} (hlo : -2 ^ 63 ≤ v) (hhi : v < 2 ^ 63) : signedLong (v % 2 ^ 64).toNat = v := by
  unfold signedLong
  split <;> omega

theorem checkOverflowSigned_range (v : Int) : -2 ^ 63 ≤ checkOverflowSigned v ∧ checkOverflowSigned v < 2 ^ 63 := by
  have hbounds := checkOverflowSigned_bounds v
  rcases signOf_eq (checkOverflowSigned v) with h | h <;> rw [h] at hbounds <;> omega

theorem trimmedInt (v : Int) : signed (trimmedOctets (checkOverflowSigned v % 2 ^ 64).toNat) = checkOverflowSigned v ∧
      trimmedOctets (checkOverflowSigned v % 2 ^ 64).toNat ≠ [] ∧
      (trimmedOctets (checkOverflowSigned v % 2 ^ 64).toNat).length ≤ 8 := by
  have hlt : (checkOverflowSigned v % 2 ^ 64).toNat < 2 ^ 64 := by omega
  obtain ⟨hlo, hhi⟩ := checkOverflowSigned_range v
  have hlen := trimmedOctets_length hlt
  refine ⟨?_, ?_, hlen.2⟩
  · rw [signed_trimmedOctets hlt, signedLong_pattern hlo hhi]
  · exact length_pos_iff.mp (by omega)

/-- The octets of an unsigned value: a zero in front when the top bit is set. -/
def unsignedOctets (w : Nat) : List UInt8 :=
  if w / 2 ^ 63 = 1 then 0 :: longOctets w 8 else trimmedOctets w

/-! The pair of words is the one word in two halves. -/

theorem shiftWords_word {w : Nat × Nat} (h₂ : w.2 < 2 ^ 32) : (shiftWords w).1 < 2 ^ 32 ∧ (shiftWords w).2 < 2 ^ 32 ∧
      word64 (shiftWords w) = word64 w * 256 % 2 ^ 64 := by
  simp only [shiftWords, word64]
  omega

theorem trimWords_word {w : Nat × Nat} (h₁ : w.1 < 2 ^ 32) (h₂ : w.2 < 2 ^ 32) :
    (trimWords w n).1.1 < 2 ^ 32 ∧ (trimWords w n).1.2 < 2 ^ 32 ∧
      (word64 (trimWords w n).1, (trimWords w n).2) = trimLong (word64 w) n := by
  induction n generalizing w with
  | zero => exact ⟨h₁, h₂, rfl⟩
  | succ n ih =>
    match n with
    | 0 => exact ⟨h₁, h₂, rfl⟩
    | n + 1 =>
      have htop : w.1 % 2 ^ 32 / 2 ^ 23 = word64 w / 2 ^ 55 := by
        simp only [word64]
        omega
      rw [trimWords, trimLong, htop]
      split
      · obtain ⟨h₁', h₂', hword⟩ := shiftWords_word h₂
        rw [← hword]
        exact ih h₁' h₂'
      · exact ⟨h₁, h₂, rfl⟩

theorem wordsOctets_word {w : Nat × Nat} (h₁ : w.1 < 2 ^ 32) (h₂ : w.2 < 2 ^ 32) :
    wordsOctets w n = longOctets (word64 w) n := by
  induction n generalizing w with
  | zero => rfl
  | succ n ih =>
    obtain ⟨h₁', h₂', hword⟩ := shiftWords_word h₂
    have htop : w.1 / 2 ^ 24 % 256 = word64 w / 2 ^ 56 := by
      simp only [word64]
      omega
    rw [wordsOctets, longOctets, ih h₁' h₂', hword, htop]

theorem wordsOctets_length (w : Nat × Nat) (n : Nat) : (wordsOctets w n).length = n := by
  induction n generalizing w with
  | zero => rfl
  | succ n ih => rw [wordsOctets, length_cons, ih]

theorem trimmedWords {w : Nat × Nat} (h₁ : w.1 < 2 ^ 32) (h₂ : w.2 < 2 ^ 32) :
    wordsOctets (trimWords w 8).1 (trimWords w 8).2 = trimmedOctets (word64 w) := by
  obtain ⟨h₁', h₂', htrim⟩ := trimWords_word (n := 8) h₁ h₂
  rw [wordsOctets_word h₁' h₂', trimmedOctets, ← htrim]

/-! ## subidentifiers -/

theorem subidGroups_length (v n : Nat) : (subidGroups v n).length = n := by
  induction n with
  | zero => rfl
  | succ n ih => rw [subidGroups, length_cons, ih]

theorem subidGroups_hi (v n : Nat) : ∀ b ∈ subidGroups v n, 128 ≤ b.toNat := by
  induction n with
  | zero => simp [subidGroups]
  | succ n ih =>
    intro b hb
    rw [subidGroups, mem_cons] at hb
    rcases hb with rfl | hb
    · rw [Octets.toNat_ofNat_of_lt (by omega)]
      omega
    · exact ih b hb

theorem subidGroups_value (v n : Nat) : Base128.value (subidGroups v n) = v / 128 % 128 ^ n := by
  induction n with
  | zero => rw [subidGroups, Base128.value_nil, pow_zero, Nat.mod_one]
  | succ n ih =>
    have hgroup : (UInt8.ofNat (v / 128 ^ (n + 1) % 128 + 128)).toNat % 128 = v / 128 / 128 ^ n % 128 := by
      rw [Octets.toNat_ofNat_of_lt (by omega), Nat.div_div_eq_div_mul, ← pow_succ']
      omega
    rw [subidGroups, Base128.value, foldl_cons, Base128.foldl_value, ih, subidGroups_length,
      hgroup, Nat.zero_mul, Nat.zero_add, Nat.mod_pow_succ]
    ring

theorem subidSize_spec {v : Nat} (hv : v < 2 ^ 32) : 1 ≤ subidSize v ∧ v < 128 ^ subidSize v := by
  unfold subidSize
  split_ifs <;> norm_num <;> omega

theorem buildSubid_isNumeral {v : Nat} (hv : v < 2 ^ 32) : Base128.IsNumeral (buildSubid v) v where
  split := by
    refine ⟨subidGroups v (subidSize v - 1), UInt8.ofNat (v % 128), rfl, subidGroups_hi _ _, ?_⟩
    rw [Octets.toNat_ofNat_of_lt (by omega)]
    omega
  value_eq := by
    obtain ⟨hpos, hlt⟩ := subidSize_spec hv
    have hdiv : v / 128 < 128 ^ (subidSize v - 1) := by
      rw [Nat.div_lt_iff_lt_mul (by norm_num), ← pow_succ, Nat.sub_add_cancel hpos]
      exact hlt
    rw [buildSubid, Base128.value_append, subidGroups_value, Nat.mod_eq_of_lt hdiv,
      Base128.value_singleton, Octets.toNat_ofNat_of_lt (by omega), length_singleton, pow_one]
    omega

theorem buildSubid_length (v : Oid) : (buildSubid v.toNat).length = subidSize v.toNat := by
  have hpos := (subidSize_spec v.toNat_lt).1
  rw [buildSubid, length_append, subidGroups_length, length_singleton,
    Nat.sub_add_cancel hpos]

theorem subidsContent_buildSubid (values : List Oid) :
    SubidsContent values (values.flatMap fun v => buildSubid v.toNat) := by
  induction values with
  | nil => exact .nil
  | cons v values ih => exact .cons (buildSubid_isNumeral v.toNat_lt) ih

/-! ## the encoders of the values -/

theorem buildNull_wrote (h : (buildNull type).run s = some (u, s')) : Wrote s (tlv type []) s' := by
  have hw := buildHeader_wrote (n := 0) (by norm_num) h
  rw [tlv, append_nil]
  exact hw

section values

variable {type : UInt8} {s s' : WBuf} {u : Unit} (hs : s.left ≤ 0xffff)

include hs

theorem content_wrote {content : List UInt8} {n : Nat} {s₁ s₂ s₃ : WBuf} (hlen : content.length = n)
    (hheader : (buildHeader type n).run s = some (u, s₁))
    (hcheck : (buildHeaderCheck n).run s₁ = some (u, s₂))
    (hwrite : s₃ = { s₂ with out := s₂.out ++ content, left := s₂.left - n }) :
    Wrote s (tlv type content) s₃ := by
  subst hlen
  obtain ⟨hw, hle⟩ := checkedHeader_wrote hs hheader hcheck
  exact hw.tlv (wrote_emit_spend hle hwrite)

variable {size : Nat}

theorem buildInt_wrote {v : Int} (h : (buildInt type v size).run s = some (u, s')) :
    size = 8 ∧ Wrote s (tlv type (trimmedOctets (checkOverflowSigned v % 2 ^ 64).toNat)) s' := by
  unfold buildInt at h
  simp only [run_bind_eq_some, run_guard_eq_some, run_emit_eq_some, run_spend_eq_some] at h
  obtain ⟨⟨⟩, _, ⟨rfl, rfl⟩, ⟨⟩, s₁, hheader, ⟨⟩, s₂, hcheck, ⟨⟩, _, rfl, rfl⟩ := h
  exact ⟨rfl, content_wrote hs (longOctets_length _ _) hheader hcheck rfl⟩

theorem buildUnsignedInt_wrote {v : Nat} (h : (buildUnsignedInt type v size).run s = some (u, s')) :
    size = 8 ∧ Wrote s (tlv type (unsignedOctets (checkOverflowUnsigned v))) s' := by
  unfold buildUnsignedInt at h
  simp only [run_bind_eq_some, run_guard_eq_some] at h
  obtain ⟨⟨⟩, _, ⟨rfl, rfl⟩, h⟩ := h
  refine ⟨rfl, ?_⟩
  unfold unsignedOctets
  split at h
  · next htop =>
    simp only [run_bind_eq_some, run_emit_eq_some, run_spend_eq_some] at h
    obtain ⟨⟨⟩, s₁, hheader, ⟨⟩, s₂, hcheck, ⟨⟩, _, rfl, rfl⟩ := h
    rw [if_pos htop]
    exact content_wrote hs (by rw [length_cons, longOctets_length]) hheader hcheck rfl
  · next htop =>
    simp only [run_bind_eq_some, run_emit_eq_some, run_spend_eq_some] at h
    obtain ⟨⟨⟩, s₁, hheader, ⟨⟩, s₂, hcheck, ⟨⟩, _, rfl, rfl⟩ := h
    rw [if_neg htop]
    exact content_wrote hs (longOctets_length _ _) hheader hcheck rfl

theorem buildString_wrote {str : List UInt8} (h : (buildString type str).run s = some (u, s')) :
    Wrote s (tlv type str) s' := by
  unfold buildString at h
  simp only [run_bind_eq_some, run_emit_eq_some, run_spend_eq_some] at h
  obtain ⟨⟨⟩, s₁, hheader, ⟨⟩, s₂, hcheck, ⟨⟩, _, rfl, rfl⟩ := h
  exact content_wrote hs rfl hheader hcheck rfl

theorem buildBitstring_wrote {str : List UInt8}
    (h : (buildBitstring type str).run s = some (u, s')) : str ≠ [] ∧ Wrote s (tlv type str) s' := by
  unfold buildBitstring at h
  simp only [run_bind_eq_some, run_guard_eq_some] at h
  obtain ⟨⟨⟩, _, ⟨hne, rfl⟩, h⟩ := h
  refine ⟨?_, buildString_wrote hs h⟩
  rintro rfl
  exact hne Nat.one_pos

theorem opaque_wrote {tag : UInt8} {content : List UInt8} {n : Nat} {s₁ s₂ : WBuf}
    (hlen : content.length = n) (hheader : (buildOpaqueHeader tag n).run s = some (u, s₁))
    (hwrite : s₂ = { s₁ with out := s₁.out ++ content, left := s₁.left - n }) :
    Wrote s (tlv asnOPAQUE (special tag content)) s₂ := by
  subst hlen
  unfold buildOpaqueHeader at hheader
  simp only [run_bind_eq_some, run_emit_eq_some, run_spend_eq_some] at hheader
  obtain ⟨⟨⟩, s₃, hheader, ⟨⟩, s₄, hcheck, ⟨⟩, _, rfl, rfl⟩ := hheader
  refine content_wrote (n := content.length + 3) hs (special_length tag content) hheader hcheck ?_
  subst hwrite
  simp only [special, append_assoc, cons_append, nil_append, WBuf.mk.injEq, true_and]
  omega

theorem buildFloating_wrote {tag : UInt8} {octets : List UInt8}
    (h : (buildFloating tag octets size).run s = some (u, s')) :
    size = octets.length ∧ Wrote s (tlv asnOPAQUE (special tag octets)) s' := by
  unfold buildFloating at h
  simp only [run_bind_eq_some, run_guard_eq_some, run_emit_eq_some, run_spend_eq_some] at h
  obtain ⟨⟨⟩, _, ⟨rfl, rfl⟩, ⟨⟩, s₁, hheader, ⟨⟩, _, rfl, rfl⟩ := h
  exact ⟨rfl, opaque_wrote hs rfl hheader rfl⟩

theorem buildSignedInt64_wrote {high low : UInt32} (h : (buildSignedInt64 high low size).run s = some (u, s')) :
    size = 8 ∧ Wrote s (tlv asnOPAQUE
      (special asnOPAQUE_I64 (trimmedOctets (high.toNat * 2 ^ 32 + low.toNat)))) s' := by
  have hhigh := high.toNat_lt
  have hlow := low.toNat_lt
  have hw : ((checkOverflowSigned high.toNat % 2 ^ 32).toNat, checkOverflowUnsigned low.toNat)
      = (high.toNat, low.toNat) := by
    have h₁ : (checkOverflowSigned high.toNat % 2 ^ 32).toNat = high.toNat := by
      unfold checkOverflowSigned
      split_ifs <;> omega
    rw [h₁, checkOverflowUnsigned_of_range hlow]
  unfold buildSignedInt64 at h
  simp only [run_bind_eq_some, run_guard_eq_some, run_emit_eq_some, run_spend_eq_some, hw] at h
  obtain ⟨⟨⟩, _, ⟨rfl, rfl⟩, ⟨⟩, s₁, hheader, ⟨⟩, _, rfl, rfl⟩ := h
  refine ⟨rfl, ?_⟩
  have hwords := trimmedWords (w := (high.toNat, low.toNat)) hhigh hlow
  rw [word64] at hwords
  rw [← hwords]
  refine opaque_wrote hs ?_ hheader rfl
  rw [wordsOctets_length]

/-- The header a 64-bit unsigned value gets from its type, around its content. -/
def counter64Octets (t : Unsigned64Type) (content : List UInt8) : List UInt8 :=
  match t with
  | .counter64 => tlv asnCOUNTER64 content
  | .opaqueCounter64 => tlv asnOPAQUE (special asnOPAQUE_COUNTER64 content)
  | .opaqueU64 => tlv asnOPAQUE (special asnOPAQUE_U64 content)

theorem counter64_wrote {t : Unsigned64Type} {content : List UInt8} {n : Nat} {s₁ s₂ : WBuf}
    (hlen : content.length = n) (hheader : (buildCounter64Header t.tag n).run s = some (u, s₁))
    (hwrite : s₂ = { s₁ with out := s₁.out ++ content, left := s₁.left - n }) :
    Wrote s (counter64Octets t content) s₂ := by
  cases t with
  | counter64 =>
    unfold buildCounter64Header at hheader
    rw [if_neg (by decide), if_neg (by decide)] at hheader
    simp only [run_bind_eq_some] at hheader
    obtain ⟨⟨⟩, s₃, hheader, hcheck⟩ := hheader
    exact content_wrote hs hlen hheader hcheck hwrite
  | opaqueCounter64 => exact opaque_wrote hs hlen hheader hwrite
  | opaqueU64 => exact opaque_wrote hs hlen hheader hwrite

theorem buildUnsignedInt64_wrote {t : Unsigned64Type} {high low : UInt32}
    (h : (buildUnsignedInt64 t.tag high low size).run s = some (u, s')) : size = 8 ∧ Wrote s
      (counter64Octets t (unsignedOctets (high.toNat * 2 ^ 32 + low.toNat))) s' := by
  have hhigh := high.toNat_lt
  have hlow := low.toNat_lt
  have hw : (checkOverflowUnsigned high.toNat, checkOverflowUnsigned low.toNat)
      = (high.toNat, low.toNat) := by
    rw [checkOverflowUnsigned_of_range hhigh, checkOverflowUnsigned_of_range hlow]
  have htop : checkOverflowUnsigned high.toNat / 2 ^ 31 % 2
      = (high.toNat * 2 ^ 32 + low.toNat) / 2 ^ 63 := by
    rw [checkOverflowUnsigned_of_range hhigh]
    omega
  unfold buildUnsignedInt64 at h
  simp only [run_bind_eq_some, run_guard_eq_some, hw] at h
  obtain ⟨⟨⟩, _, ⟨rfl, rfl⟩, h⟩ := h
  refine ⟨rfl, ?_⟩
  unfold unsignedOctets
  split at h
  · next hbit =>
    simp only [run_bind_eq_some, run_emit_eq_some, run_spend_eq_some] at h
    obtain ⟨⟨⟩, s₁, hheader, ⟨⟩, _, rfl, rfl⟩ := h
    have hwords := wordsOctets_word (w := (high.toNat, low.toNat)) (n := 8) hhigh hlow
    rw [word64] at hwords
    rw [htop] at hbit
    rw [if_pos hbit, ← hwords]
    exact counter64_wrote hs (by rw [length_cons, wordsOctets_length]) hheader rfl
  · next hbit =>
    simp only [run_bind_eq_some, run_emit_eq_some, run_spend_eq_some] at h
    obtain ⟨⟨⟩, s₁, hheader, ⟨⟩, _, rfl, rfl⟩ := h
    have hwords := trimmedWords (w := (high.toNat, low.toNat)) hhigh hlow
    rw [word64] at hwords
    rw [htop] at hbit
    rw [if_neg hbit, ← hwords]
    exact counter64_wrote hs (wordsOctets_length _ _) hheader rfl

theorem buildObjid_wrote {objid : ObjId} (h : (buildObjid type objid).run s = some (u, s')) :
    ∃ values, buildObjidValues objid = some values ∧ objid.length ≤ 128 ∧
      Wrote s (tlv type (values.flatMap fun v => buildSubid v.toNat)) s' := by
  unfold buildObjid at h
  simp only [run_bind_eq_some, run_lift_eq_some, run_guard_eq_some, run_emit_eq_some,
    run_spend_eq_some] at h
  obtain ⟨values, _, ⟨hvalues, rfl⟩, ⟨⟩, _, ⟨hlen, rfl⟩, ⟨⟩, s₁, hheader, ⟨⟩, s₂, hcheck, ⟨⟩, _, rfl, rfl⟩ := h
  refine ⟨values, hvalues, Nat.not_lt.mp hlen, content_wrote hs ?_ hheader hcheck rfl⟩
  rw [length_flatMap]
  refine congrArg sum (map_congr_left fun v _ => buildSubid_length v)

end values

end Priot.Asn01
