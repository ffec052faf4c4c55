/-
# Integers that are passed on

Decoder and encoders cut a value down to 32 bits by the same macro, which leaves the low bits as a number without
sign: what was too small may change each time.
-/
import Priot.Asn01.BuildSpec

namespace Priot.Asn01

open Octets

variable {data : Mem} {dl : Nat} {v x : Int} {r : Parsed Int}

/-- The value that the octets of an INTEGER encode. -/
def encodedInt (data : Mem) (dataLength : Nat) : Option Int :=
  (parseLengthAt data 1 dataLength).map fun h => signed ((data.drop h.2).take h.1)

/-- `Asn_parseInt` reads these octets as `v`, whatever is behind them. -/
def ReadsAs (bs : List UInt8) (v : Int) : Prop :=
  ∀ (rest : Mem) (dl : Nat), bs.length ≤ dl →
    parseInt (bs ++ₛ rest) dl = ⟨asnINTEGER, some ⟨v, dl - bs.length, bs.length⟩⟩

/-- Both encoders, where they succeed, write octets that are read as the value. -/
structure Forwarded (v : Int) : Prop where
  built : ∀ s s' u, (buildInt asnINTEGER v 8).run s = some (u, s') → ∃ bs, s'.out = s.out ++ bs ∧ ReadsAs bs v
  rbuilt : ∀ s s' : RBuf, s.Room 0 → (reallocRbuildInt asnINTEGER v 8).exec s = (.ok (), s') →
    ∃ bs, s'.out = bs ++ s.out ∧ ReadsAs bs v

/-- What is to be had of a value `v` that is stored for `x`. -/
structure KeptInt (x v : Int) : Prop where
  range : -2 ^ 31 ≤ v ∧ v ≤ 2 ^ 31 - 1
  exact : -2 ^ 31 ≤ x → x ≤ 2 ^ 31 - 1 → v = x
  forwarded : Forwarded v

/-- The value has 32 bits, or its low 32 bits are small enough. -/
def LowFits (x : Int) : Prop :=
  (-2 ^ 31 ≤ x ∧ x ≤ 2 ^ 31 - 1) ∨ (2 ^ 31 - 1 < x ∧ x % 2 ^ 32 ≤ 2 ^ 31 - 1) ∨ (x < -2 ^ 31 ∧ x % 2 ^ 32 ≤ 2 ^ 31)

/-! ## encoding again -/

theorem readsAs_tlv {content : List UInt8} (hne : content ≠ []) (hlen : content.length ≤ 8) :
    ReadsAs (tlv asnINTEGER content) (checkOverflowSigned (signed content)) := by
  intro rest dl hdl
  exact parseInt_tlv rest (isTlv_tlv (by omega)) hne hlen hdl

theorem buildInt_readsAs {s s' : WBuf} {u : Unit} (h : (buildInt asnINTEGER v 8).run s = some (u, s')) :
    ∃ bs, s'.out = s.out ++ bs ∧ ReadsAs bs (checkOverflowSigned (checkOverflowSigned v)) := by
  obtain ⟨hvalue, hne, hlen⟩ := trimmedInt v
  have hlong : (trimmedOctets (checkOverflowSigned v % 2 ^ 64).toNat).length =
      (trimLong (checkOverflowSigned v % 2 ^ 64).toNat 8).2 := longOctets_length _ _
  unfold buildInt at h
  simp only [run_bind_eq_some, run_guard_eq_some, run_emit_eq_some, run_spend_eq_some,
    run_buildHeaderCheck_eq_some] at h
  obtain ⟨⟨⟩, _, ⟨-, rfl⟩, ⟨⟩, s₁, hheader, ⟨⟩, _, ⟨-, rfl⟩, ⟨⟩, _, rfl, rfl⟩ := h
  rw [← hlong] at hheader
  have hwrote := buildHeader_wrote (by omega) hheader
  refine ⟨tlv asnINTEGER (trimmedOctets (checkOverflowSigned v % 2 ^ 64).toNat), ?_, ?_⟩
  · rw [tlv, ← List.append_assoc, ← hwrote.out]
    rfl
  · have hreads := readsAs_tlv hne hlen
    rwa [hvalue] at hreads

theorem rbuildInt_readsAs {s s' : RBuf} (hs : s.Room 0) (h : (reallocRbuildInt asnINTEGER v 8).exec s = (.ok (), s')) :
    ∃ bs, s'.out = bs ++ s.out ∧ ReadsAs bs (checkOverflowSigned (checkOverflowSigned v)) := by
  obtain ⟨-, -, hout⟩ := (emits_reallocRbuildInt asnINTEGER v).of_exec hs h
  have hlen := intContent_length_le v
  have hreads := readsAs_tlv (Octets.writeSigned_ne_nil (signOf (checkOverflowSigned v)) 8 (checkOverflowSigned v))
    (by omega)
  rw [signed_intContent] at hreads
  exact ⟨_, hout, hreads⟩

theorem forwarded_of_range (hlo : -2 ^ 31 ≤ v) (hhi : v < 2 ^ 31) : Forwarded v := by
  have hv : checkOverflowSigned (checkOverflowSigned v) = v := by
    rw [checkOverflowSigned_of_range hlo hhi, checkOverflowSigned_of_range hlo hhi]
  constructor
  · intro s s' u h
    exact hv ▸ buildInt_readsAs h
  · intro s s' hs h
    exact hv ▸ rbuildInt_readsAs hs h

/-! ## what is stored -/

theorem checkOverflowSigned_range_iff (x : Int) :
    (-2 ^ 31 ≤ checkOverflowSigned x ∧ checkOverflowSigned x ≤ 2 ^ 31 - 1) ↔ LowFits x := by
  unfold LowFits checkOverflowSigned
  split_ifs <;> omega

theorem encodedInt_of_parseInt (h : (parseInt data dl).result = some r) :
    ∃ x, encodedInt data dl = some x ∧ r.value = checkOverflowSigned x := by
  unfold parseInt at h
  simp only [Option.bind_eq_bind, Option.bind_eq_some_iff, pure, Option.some.injEq] at h
  obtain ⟨-, -, ⟨n, k⟩, hlength, -, -, rfl⟩ := h
  refine ⟨signed ((data.drop k).take n), ?_, rfl⟩
  unfold encodedInt
  rw [hlength]
  rfl

/-- What `Asn_parseInt` stores is a 32-bit value that can be passed on where the low bits of what was encoded are
small enough, and only there. -/
theorem parseInt_kept_iff (h : (parseInt data dl).result = some r) :
    ∃ x, encodedInt data dl = some x ∧ (KeptInt x r.value ↔ LowFits x) := by
  obtain ⟨x, hx, hr⟩ := encodedInt_of_parseInt h
  refine ⟨x, hx, ?_⟩
  rw [hr, ← checkOverflowSigned_range_iff]
  constructor
  · exact fun hkept => hkept.range
  · intro hrange
    refine ⟨hrange, fun hlo hhi => checkOverflowSigned_of_range hlo (by omega), ?_⟩
    exact forwarded_of_range hrange.1 (by omega)

theorem parseInt_kept_iff_five :
    ∃ x, encodedInt ([2, 1, 5] ++ₛ Stream'.const 0) 3 = some x ∧ (KeptInt x 5 ↔ LowFits x) :=
  parseInt_kept_iff (r := ⟨5, 0, 3⟩) (by decide)

/-- 2^31 is stored as it is. -/
theorem not_parseInt_kept :
    ¬ ∀ (data : Mem) (dl : Nat) (r : Parsed Int) (x : Int), (parseInt data dl).result = some r →
      encodedInt data dl = some x → KeptInt x r.value := by
  intro hall
  have hkept := hall ([2, 5, 0, 0x80, 0, 0, 0] ++ₛ Stream'.const 0) 7 ⟨2 ^ 31, 0, 7⟩ (2 ^ 31) (by decide) (by decide)
  exact absurd hkept.range.2 (by decide)

end Priot.Asn01
