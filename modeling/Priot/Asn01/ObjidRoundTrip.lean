/-
# Object identifiers that are read as they were encoded

Both encoders put the first two subidentifiers into one, in 32 bits. The decoder takes the two apart by thresholds of
its own, which are not those of the encoders.
-/
import Priot.Asn01.BuildSpec

namespace Priot.Asn01

open List

/-! ## the first two subidentifiers -/

/-- The encoders accept the first two subidentifiers. -/
def FirstAccepted (x y : Oid) : Prop := ¬ (x > 2 ∨ (y > 40 ∧ x < 2))

/-- A second subidentifier of 40 is too large below 0 and 1, and below 2 it has to leave room for 80. -/
def FirstKept (x y : Oid) : Prop := (x < 2 → y ≠ 40) ∧ (x = 2 → y.toNat < 2 ^ 32 - 80)

instance (x y : Oid) : Decidable (FirstKept x y) := inferInstanceAs (Decidable (_ ∧ _))

/-- What is combined is taken apart again if and only if the second one is not one of the few that are accepted and
collide. -/
theorem splitFirst_combine_iff {x y : Oid} (h : FirstAccepted x y) : splitFirst (x * 40 + y) = (x, y) ↔ FirstKept x y := by
  obtain ⟨htwo, hforty⟩ := not_or.mp h
  have hx : x.toNat ≤ 2 := UInt32.le_iff_toNat_le.mp (UInt32.not_lt.mp htwo)
  have hy : x.toNat < 2 → y.toNat ≤ 40 := by
    intro hlt
    by_contra hgt
    have hgt : y.toNat > 40 := by omega
    exact hforty ⟨hgt, hlt⟩
  constructor
  · intro hsplit
    by_contra hkept
    have hcases : (x = 0 ∧ y = 40) ∨ (x = 1 ∧ y = 40) ∨ (x = 2 ∧ 2 ^ 32 - 80 ≤ y.toNat) := by
      by_contra hnone
      refine hkept ⟨fun hlt h40 => ?_, fun h2 => ?_⟩
      · have hlt : x.toNat < 2 := hlt
        rcases (by omega : x.toNat = 0 ∨ x.toNat = 1) with h0 | h1
        · exact hnone (.inl ⟨UInt32.toNat_inj.mp h0, h40⟩)
        · exact hnone (.inr (.inl ⟨UInt32.toNat_inj.mp h1, h40⟩))
      · by_contra hbig
        exact hnone (.inr (.inr ⟨h2, by omega⟩))
    rcases hcases with ⟨rfl, rfl⟩ | ⟨rfl, rfl⟩ | ⟨rfl, hbig⟩
    · exact absurd hsplit (by decide)
    · exact absurd hsplit (by decide)
    · -- the sum wraps to less than 80, which is below 0 or 1
      have hlt := y.toNat_lt
      have hsum : ((2 : Oid) * 40 + y).toNat = y.toNat - (2 ^ 32 - 80) := by
        rw [UInt32.toNat_add]
        show (80 + y.toNat) % 2 ^ 32 = _
        omega
      have hfirst : (splitFirst (2 * 40 + y)).1 ≠ 2 := by
        have h80 : (2 : Oid) * 40 + y < 80 := by
          show ((2 : Oid) * 40 + y).toNat < 80
          omega
        unfold splitFirst
        split_ifs
        · show (1 : Oid) ≠ 2
          decide
        · show (0 : Oid) ≠ 2
          decide
        · show (1 : Oid) ≠ 2
          decide
      exact hfirst (congrArg Prod.fst hsplit)
  · rintro ⟨hne, hroom⟩
    refine splitFirst_combine (UInt32.not_lt.mp htwo) (fun hlt => ?_) fun h2 => ?_
    · have hle := hy hlt
      have h40 : y.toNat ≠ 40 := fun heq => hne hlt (UInt32.toNat_inj.mp heq)
      show y.toNat < 40
      omega
    · have := hroom h2
      omega

/-! ## what is written -/

theorem subidSize_le (v : Nat) : subidSize v ≤ 5 := by
  unfold subidSize
  split_ifs <;> decide

theorem subids_length_le (values : List Oid) : (values.flatMap fun v => buildSubid v.toNat).length ≤ 5 * values.length := by
  induction values with
  | nil => exact Nat.le_refl 0
  | cons v values ih =>
    have hv := subidSize_le v.toNat
    rw [flatMap_cons, length_append, buildSubid_length, length_cons]
    omega

/-- The forward encoder writes the object identifier whatever the room that it has. -/
theorem buildObjid_writes {o : ObjId} {s s' : WBuf} {u : Unit} (h : (buildObjid asnOBJECT_ID o).run s = some (u, s')) :
    ∃ values, buildObjidValues o = some values ∧ o.length ≤ 128 ∧
      s'.out = s.out ++ tlv asnOBJECT_ID (values.flatMap fun v => buildSubid v.toNat) := by
  unfold buildObjid at h
  simp only [run_bind_eq_some, run_lift_eq_some, run_guard_eq_some, run_emit_eq_some, run_spend_eq_some] at h
  obtain ⟨values, _, ⟨hvalues, rfl⟩, ⟨⟩, _, ⟨hlen, rfl⟩, ⟨⟩, s₁, hheader, ⟨⟩, s₂, hcheck, ⟨⟩, _, rfl, rfl⟩ := h
  obtain ⟨-, rfl⟩ := run_buildHeaderCheck_eq_some.mp hcheck
  have hvalues_len : values.length ≤ 128 := by
    match o, hvalues with
    | [], hvalues =>
      cases hvalues
      decide
    | [x], hvalues =>
      simp only [buildObjidValues, Option.ite_none_left_eq_some, Option.some.injEq] at hvalues
      rw [← hvalues.2]
      show 1 ≤ 128
      decide
    | x :: y :: rest, hvalues =>
      simp only [buildObjidValues, Option.ite_none_left_eq_some, Option.some.injEq] at hvalues
      rw [← hvalues.2.2]
      simp only [length_cons] at hlen ⊢
      have : TYPES_MAX_OID_LEN = 128 := rfl
      omega
  have hcontent : (values.flatMap fun v => buildSubid v.toNat).length = (values.map fun v => subidSize v.toNat).sum := by
    rw [length_flatMap]
    exact congrArg sum (map_congr_left fun v _ => buildSubid_length v)
  have hcount := subids_length_le values
  have hout := (buildHeader_wrote (by omega) hheader).out
  refine ⟨values, hvalues, Nat.not_lt.mp hlen, ?_⟩
  show s₁.out ++ _ = _
  rw [hout, append_assoc, tlv, hcontent]

/-- The octets that one of the encoders has written for an object identifier. -/
inductive Encoded (o : ObjId) (bs : List UInt8) : Prop
  | forward {s s' : WBuf} {u : Unit} (hrun : (buildObjid asnOBJECT_ID o).run s = some (u, s'))
      (hout : s'.out = s.out ++ bs)
  | reverse {s s' : RBuf} {u : Unit} (hroom : s.offset ≤ s.pkt.length)
      (hrun : (reallocRbuildObjid asnOBJECT_ID o).exec s = (.ok u, s')) (hout : s'.out = bs ++ s.out)

theorem Encoded.tlv {x y : Oid} {o : ObjId} {bs : List UInt8} (h : Encoded (x :: y :: o) bs) (hlen : o.length ≤ 126) :
    FirstAccepted x y ∧ ∃ content, IsTlv asnOBJECT_ID content bs ∧ SubidsContent ((x * 40 + y) :: o) content ∧
      content.length ≤ 0x7fffffff := by
  cases h with
  | forward hrun hout =>
    obtain ⟨values, hvalues, -, hwritten⟩ := buildObjid_writes hrun
    simp only [buildObjidValues, Option.ite_none_left_eq_some, Option.some.injEq] at hvalues
    obtain ⟨htwo, hforty, rfl⟩ := hvalues
    rw [hwritten, append_cancel_left_eq] at hout
    have hcontent := subids_length_le ((x * 40 + y) :: o)
    rw [length_cons] at hcontent
    refine ⟨not_or.mpr ⟨htwo, hforty⟩, _, ?_, subidsContent_buildSubid _, by omega⟩
    rw [← hout]
    exact isTlv_tlv (by omega)
  | reverse hroom hrun hout =>
    cases hcontent : objidContent (x :: y :: o) with
    | none => exact absurd hrun (refuses_reallocRbuildObjid asnOBJECT_ID hcontent).not_ok
    | some content =>
      have hemits := emits_reallocRbuildObjid asnOBJECT_ID hcontent
      obtain ⟨-, -, hwritten⟩ := hemits.of_exec (by rw [RBuf.Room]; omega) hrun
      rw [hwritten, append_cancel_right_eq] at hout
      simp only [objidContent, Option.ite_none_left_eq_some, Option.some.injEq] at hcontent
      obtain ⟨haccepted, rfl⟩ := hcontent
      have hle := subidOctets_length_le ((x * 40 + y) :: o)
      rw [length_cons] at hle
      refine ⟨haccepted, _, ?_, subidsContent_subidOctets _, by omega⟩
      rw [← hout]
      exact isTlv_tlv (by omega)

/-! ## what is read -/

/-- What an encoder accepts is read back if and only if the decoder takes the first two subidentifiers apart as they
were combined. -/
theorem parseObjid_encoded_iff {x y : Oid} {o : ObjId} (hlen : (x :: y :: o).length ≤ 128) {bs : List UInt8}
    (h : Encoded (x :: y :: o) bs) (rest : Mem) {dl : Nat} (hdl : bs.length ≤ dl) :
    parseObjid (bs ++ₛ rest) dl TYPES_MAX_OID_LEN =
        (⟨asnOBJECT_ID, some ⟨x :: y :: o, dl - bs.length, bs.length⟩⟩, (x :: y :: o).length) ↔
      FirstKept x y := by
  have ho : o.length ≤ 126 := by
    simp only [length_cons] at hlen
    omega
  obtain ⟨haccepted, content, htlv, hsubids, hcontent⟩ := h.tlv ho
  have hread := parseObjid_tlv rest htlv hsubids (by rw [length_cons]; omega) hcontent hdl
  rw [hread, ← splitFirst_combine_iff haccepted]
  constructor
  · intro heq
    have hobjid : objidOfSubids ((x * 40 + y) :: o) = x :: y :: o := by
      simp only [Prod.mk.injEq, ParseOut.mk.injEq, Option.some.injEq, Parsed.mk.injEq] at heq
      exact heq.1.2.1
    simp only [objidOfSubids, List.cons.injEq] at hobjid
    exact Prod.ext hobjid.1 hobjid.2.1
  · intro hsplit
    rw [objidOfSubids, hsplit]
    rfl

theorem parseObjid_encoded_iff_internet : parseObjid ([6, 3, 43, 6, 1] ++ₛ Stream'.const 0) 5 TYPES_MAX_OID_LEN =
    (⟨asnOBJECT_ID, some ⟨[1, 3, 6, 1], 0, 5⟩⟩, 4) ↔ FirstKept 1 3 := by
  have hrun : (buildObjid asnOBJECT_ID [1, 3, 6, 1]).run ⟨[], 64⟩ = some ((), ⟨[6, 3, 43, 6, 1], 59⟩) := rfl
  exact parseObjid_encoded_iff (by decide) (.forward hrun rfl) (Stream'.const 0) (Nat.le_refl 5)

/-- 0.40 is accepted by both encoders, and read as 1.0. -/
theorem parseObjid_encoded_forty :
    (buildObjid asnOBJECT_ID [0, 40]).run ⟨[], 64⟩ = some ((), ⟨[6, 1, 40], 61⟩) ∧
      ((reallocRbuildObjid asnOBJECT_ID [0, 40]).exec ⟨List.replicate 8 0, 0, false, Stream'.const true⟩).1 = .ok () ∧
      ((reallocRbuildObjid asnOBJECT_ID [0, 40]).exec ⟨List.replicate 8 0, 0, false, Stream'.const true⟩).2.out =
        [6, 1, 40] ∧
      parseObjid ([6, 1, 40] ++ₛ Stream'.const 0) 3 TYPES_MAX_OID_LEN =
        (⟨asnOBJECT_ID, some ⟨[1, 0], 0, 3⟩⟩, 2) := by
  refine ⟨rfl, rfl, rfl, ?_⟩
  decide

end Priot.Asn01
