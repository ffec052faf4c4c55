/-
# Which object identifiers `Asn01_parseObjid` reads

A subidentifier is shifted into 64 bits and looked at when it has ended. What is read is what stands there as long as
no subidentifier needs more.
-/
import Priot.Asn01.Local
import Priot.Asn01.Tlv

namespace Priot.Asn01

open Base128 Octets List

/-! ## object identifiers in a memory -/

/-- A definite length, in one octet or with at most eight octets behind the first. -/
inductive DefiniteLength : List UInt8 → Nat → Prop
  | short {b : UInt8} (h : b.toNat < 128) : DefiniteLength [b] b.toNat
  | long {b : UInt8} {o : List UInt8} (hb : b.toNat = 128 + o.length) (hpos : o ≠ []) (hlen : o.length ≤ 8) :
    DefiniteLength (b :: o) (beNat o)

/-- In front of a memory there is an object identifier of so many octets, with these values in its content. -/
def ObjidAt (m : Mem) (values : List Nat) (size : Nat) : Prop :=
  ∃ lo content rest, m = (asnOBJECT_ID :: (lo ++ content)) ++ₛ rest ∧ DefiniteLength lo content.length ∧
    content.length ≤ 0x7fffffff ∧ Numerals values content ∧ size = 1 + lo.length + content.length

/-- The arcs of an object identifier. The first value has two of them; without one there is the arc 0. -/
def arcs : List Nat → ObjId
  | [] => [0]
  | v :: values =>
    if v < 80 then UInt32.ofNat (v / 40) :: UInt32.ofNat (v % 40) :: values.map UInt32.ofNat
    else 2 :: UInt32.ofNat (v - 80) :: values.map UInt32.ofNat

theorem objidOfSubids_map {values : List Nat} (h : ∀ v ∈ values, v < 2 ^ 32) :
    objidOfSubids (values.map UInt32.ofNat) = arcs values := by
  cases values with
  | nil => rfl
  | cons v values =>
    have hv := h v mem_cons_self
    have hnat : (UInt32.ofNat v).toNat = v := by
      rw [UInt32.toNat_ofNat']
      exact Nat.mod_eq_of_lt hv
    have hsplit : splitFirst (UInt32.ofNat v) =
        if v < 80 then (UInt32.ofNat (v / 40), UInt32.ofNat (v % 40)) else (2, UInt32.ofNat (v - 80)) := by
      have hsmall : ∀ n < 2 ^ 32, (UInt32.ofNat n).toNat = n := by
        intro n hn
        rw [UInt32.toNat_ofNat']
        exact Nat.mod_eq_of_lt hn
      split
      · have hx : (UInt32.ofNat (v / 40)).toNat = v / 40 := hsmall _ (by omega)
        have hy : (UInt32.ofNat (v % 40)).toNat = v % 40 := hsmall _ (by omega)
        have hsum : UInt32.ofNat (v / 40) * 40 + UInt32.ofNat (v % 40) = UInt32.ofNat v := by
          apply UInt32.toNat_inj.mp
          rw [UInt32.toNat_add, UInt32.toNat_mul, hx, hy, hnat]
          show (v / 40 * 40 % 2 ^ 32 + v % 40) % 2 ^ 32 = v
          omega
        rw [← hsum]
        refine splitFirst_combine ?_ (fun _ => ?_) fun h2 => ?_
        · show (UInt32.ofNat (v / 40)).toNat ≤ 2
          omega
        · show (UInt32.ofNat (v % 40)).toNat < 40
          omega
        · omega
      · have hy : (UInt32.ofNat (v - 80)).toNat = v - 80 := hsmall _ (by omega)
        have hsum : (2 : Oid) * 40 + UInt32.ofNat (v - 80) = UInt32.ofNat v := by
          apply UInt32.toNat_inj.mp
          rw [UInt32.toNat_add, hy, hnat]
          show (80 + (v - 80)) % 2 ^ 32 = v
          omega
        rw [← hsum]
        exact splitFirst_combine (by decide) (fun hlt => absurd hlt (by decide)) fun _ => by omega
    rw [map_cons, objidOfSubids, hsplit, arcs]
    split <;> rfl

/-! ## lengths -/

theorem DefiniteLength.isLength {lo : List UInt8} {n : Nat} (h : DefiniteLength lo n) (hn : n ≤ 0x7fffffff) :
    IsLength lo n := by
  cases h with
  | short hb =>
    rename_i b
    have hshort := isLength_short (n := b.toNat) (by omega)
    rw [UInt8.ofNat_toNat] at hshort
    exact hshort
  | long hb hpos hlen => exact isLength_long hb hpos hlen (by omega)

theorem parseLength_definite {m : Mem} {n k : Nat} (h : parseLength m = ⟨some n, some k⟩) :
    ∃ lo rest, DefiniteLength lo n ∧ lo.length = k ∧ m = lo ++ₛ rest := by
  have hm : m = Stream'.cons m.head m.tail := (Stream'.eta m).symm
  unfold parseLength at h
  dsimp only at h
  by_cases hhi : hiBit m.head = true
  · have hhead := (hiBit_iff m.head).mp hhi
    have hlt := m.head.toNat_lt
    rw [if_pos hhi] at h
    by_cases hzero : m.head.toNat % 128 = 0
    · rw [if_pos hzero] at h
      cases h
    rw [if_neg hzero] at h
    by_cases hmany : m.head.toNat % 128 > 8
    · rw [if_pos hmany] at h
      cases h
    rw [if_neg hmany] at h
    by_cases hneg : beNat (m.tail.take (m.head.toNat % 128)) ≥ 2 ^ 63
    · rw [if_pos hneg] at h
      cases h
    rw [if_neg hneg] at h
    have hlen : (m.tail.take (m.head.toNat % 128)).length = m.head.toNat % 128 := Stream'.length_take _ _
    have hcount : m.head.toNat = 128 + (m.tail.take (m.head.toNat % 128)).length := by omega
    have hpos : m.tail.take (m.head.toNat % 128) ≠ [] := by
      intro hnil
      rw [hnil] at hlen
      exact hzero hlen.symm
    cases h
    refine ⟨m.head :: m.tail.take (m.head.toNat % 128), m.tail.drop (m.head.toNat % 128), .long hcount hpos (by omega),
      ?_, ?_⟩
    · rw [length_cons, hlen, Nat.add_comm]
    · rw [Stream'.cons_append_stream, Stream'.append_take_drop]
      exact hm
  · rw [if_neg hhi] at h
    cases h
    refine ⟨[m.head], m.tail, .short ?_, rfl, hm⟩
    have := mt (hiBit_iff m.head).mpr hhi
    omega

theorem parseLengthAt_definite {m : Mem} {dl n bufp : Nat} (h : parseLengthAt m 1 dl = some (n, bufp)) :
    ∃ lo rest, DefiniteLength lo n ∧ bufp = 1 + lo.length ∧ m.drop 1 = lo ++ₛ rest ∧ n ≤ 0x7fffffff ∧
      n + bufp ≤ dl := by
  obtain ⟨k, hparse, rfl, hfits, hmax, -⟩ := parseLengthAt_eq_some h
  obtain ⟨lo, rest, hlo, rfl, hm⟩ := parseLength_definite hparse
  exact ⟨lo, rest, hlo, rfl, hm, hmax, hfits⟩

/-! ## subidentifiers -/

theorem parseSubid_cases (v : Nat) {content : List UInt8} (hne : content ≠ []) :
    ∃ init last rest, content = init ++ (last :: rest) ∧ (∀ b ∈ init, 128 ≤ b.toNat) ∧ (128 ≤ last.toNat → rest = []) ∧
      parseSubid v content = ((v * 128 ^ (init.length + 1) + value (init ++ [last])) % 2 ^ 64, last, rest) := by
  induction content generalizing v with
  | nil => exact absurd rfl hne
  | cons b bs ih =>
    rw [parseSubid]
    have hmod : (v * 128 % 2 ^ 64 + b.toNat % 128) % 2 ^ 64 = (v * 128 + b.toNat % 128) % 2 ^ 64 := by omega
    rw [hmod]
    by_cases hmore : hiBit b = true ∧ bs ≠ []
    · obtain ⟨init, last, rest, rfl, hinit, hlast, hsub⟩ := ih ((v * 128 + b.toNat % 128) % 2 ^ 64) hmore.2
      refine ⟨b :: init, last, rest, rfl, ?_, hlast, ?_⟩
      · intro c hc
        rcases mem_cons.mp hc with rfl | hc
        · exact (hiBit_iff c).mp hmore.1
        · exact hinit c hc
      · rw [if_pos hmore, hsub]
        have hcombine : v * 128 ^ ((b :: init).length + 1) + value (b :: init ++ [last]) =
            (v * 128 + b.toNat % 128) * 128 ^ (init.length + 1) + value (init ++ [last]) := by
          rw [cons_append, Base128.value_cons, length_cons, length_append, length_singleton]
          ring
        rw [hcombine, Nat.add_mod, Nat.mod_mul_mod, ← Nat.add_mod]
    · rw [if_neg hmore]
      refine ⟨[], b, bs, rfl, fun c hc => absurd hc not_mem_nil, fun hb => ?_, ?_⟩
      · by_contra hbs
        exact hmore ⟨(hiBit_iff b).mpr hb, hbs⟩
      · simp only [nil_append, length_nil, Nat.zero_add, pow_one, Base128.value_singleton]

theorem parseSubids_eq_some {original n left : Nat} {content : List UInt8} {subids : List Oid}
    (h : parseSubids original n content = (left, some subids)) : ∃ values, Numerals values content ∧ values.length ≤ n ∧
      subids = values.map (fun v => UInt32.ofNat (v % 2 ^ 64)) ∧ ∀ v ∈ values, v % 2 ^ 64 < 2 ^ 32 := by
  induction n generalizing content left subids with
  | zero =>
    cases content with
    | nil =>
      cases h
      exact ⟨[], .nil, Nat.le_refl 0, rfl, fun v hv => absurd hv not_mem_nil⟩
    | cons b bs => cases h
  | succ n ih =>
    cases content with
    | nil =>
      cases h
      exact ⟨[], .nil, Nat.zero_le _, rfl, fun v hv => absurd hv not_mem_nil⟩
    | cons b bs =>
      obtain ⟨init, last, rest, hcontent, hinit, hlast, hsub⟩ := parseSubid_cases 0 (cons_ne_nil b bs)
      rw [Nat.zero_mul, Nat.zero_add] at hsub
      simp only [parseSubids, hsub] at h
      by_cases hcut : rest = [] ∧ hiBit last = true
      · rw [if_pos hcut] at h
        cases h
      · rw [if_neg hcut] at h
        by_cases hlarge : value (init ++ [last]) % 2 ^ 64 > 0xffffffff
        · rw [if_pos hlarge] at h
          cases h
        · rw [if_neg hlarge] at h
          cases hothers : parseSubids original n rest with
          | mk left' others =>
            rw [hothers] at h
            cases others with
            | none => cases h
            | some others =>
              cases h
              obtain ⟨values, hnumerals, hcount, hvalues, hsmall⟩ := ih hothers
              have hlow : last.toNat < 128 := by
                by_contra hhigh
                exact hcut ⟨hlast (by omega), (hiBit_iff last).mpr (by omega)⟩
              have hnumeral : IsNumeral (init ++ [last]) (value (init ++ [last])) :=
                ⟨⟨init, last, rfl, hinit, hlow⟩, rfl⟩
              refine ⟨value (init ++ [last]) :: values, ?_, ?_, ?_, ?_⟩
              · rw [hcontent, show init ++ (last :: rest) = (init ++ [last]) ++ rest by rw [append_assoc]; rfl]
                exact .cons hnumeral hnumerals
              · rw [length_cons]
                omega
              · rw [map_cons, hvalues]
              · intro v hv
                rcases mem_cons.mp hv with rfl | hv
                · omega
                · exact hsmall v hv

theorem subidsContent_of_numerals {values : List Nat} {content : List UInt8} (h : Numerals values content)
    (hsmall : ∀ v ∈ values, v < 2 ^ 32) : SubidsContent (values.map UInt32.ofNat) content := by
  induction h with
  | nil => exact .nil
  | @cons v values bs content hnumeral hnumerals ih =>
    have hv : (UInt32.ofNat v).toNat = v := by
      rw [UInt32.toNat_ofNat']
      exact Nat.mod_eq_of_lt (hsmall v mem_cons_self)
    refine .cons ?_ (ih fun w hw => hsmall w (mem_cons_of_mem _ hw))
    rw [hv]
    exact hnumeral

/-! ## the whole of it -/

/-- What is read is an object identifier that stands there and fits, and every one of these is read, when no
subidentifier that is too large looks small in 64 bits. -/
theorem parseObjid_eq_some_iff (m : Mem) (dl : Nat)
    (hwide : ∀ values size, ObjidAt m values size → size ≤ dl → ∀ v ∈ values, v % 2 ^ 64 < 2 ^ 32 → v < 2 ^ 32)
    (p : Parsed ObjId) :
    (parseObjid m dl TYPES_MAX_OID_LEN).1.result = some p ↔
      ∃ values size, ObjidAt m values size ∧ size ≤ dl ∧ (∀ v ∈ values, v < 2 ^ 32) ∧ values.length ≤ 127 ∧
        p = ⟨arcs values, dl - size, size⟩ := by
  constructor
  · intro h
    unfold parseObjid at h
    by_cases htype : m.head ≠ asnOBJECT_ID
    · simp only [if_pos htype] at h
      cases h
    simp only [if_neg htype] at h
    cases hlength : parseLengthAt m 1 dl with
    | none =>
      rw [hlength] at h
      cases h
    | some r =>
      obtain ⟨n, bufp⟩ := r
      rw [hlength] at h
      obtain ⟨lo, rest, hlo, rfl, hdrop, hmax, hfits⟩ := parseLengthAt_definite hlength
      have hcontent : (m.drop (1 + lo.length)).take n = rest.take n := by
        rw [← Stream'.drop_drop, hdrop, Stream'.drop_append_stream]
      have hlen : (rest.take n).length = n := Stream'.length_take _ _
      have hm : m = (asnOBJECT_ID :: (lo ++ rest.take n)) ++ₛ rest.drop n := by
        rw [Stream'.cons_append_stream, Stream'.append_append_stream, Stream'.append_take_drop, ← hdrop,
          ← not_not.mp htype]
        exact (Stream'.eta m).symm
      cases hsubids : parseSubids TYPES_MAX_OID_LEN (TYPES_MAX_OID_LEN - 1) (rest.take n) with
      | mk left subids =>
        simp only [hcontent, hsubids] at h
        cases subids with
        | none => cases h
        | some subids =>
          obtain ⟨values, hnumerals, hcount, hvalues, hsmall⟩ := parseSubids_eq_some hsubids
          have hat : ObjidAt m values (1 + lo.length + n) :=
            ⟨lo, rest.take n, rest.drop n, hm, by rw [hlen]; exact hlo, by omega, hnumerals, by rw [hlen]⟩
          have hfit : 1 + lo.length + n ≤ dl := by omega
          have hall : ∀ v ∈ values, v < 2 ^ 32 := fun v hv => hwide _ _ hat hfit v hv (hsmall v hv)
          have hmap : values.map (fun v => UInt32.ofNat (v % 2 ^ 64)) = values.map UInt32.ofNat := by
            refine map_congr_left fun v hv => ?_
            rw [Nat.mod_eq_of_lt (Nat.lt_trans (hall v hv) (by decide))]
          refine ⟨values, 1 + lo.length + n, hat, hfit, hall, hcount, ?_⟩
          have hresult : some (⟨objidOfSubids subids, dl - (n + (1 + lo.length)), 1 + lo.length + n⟩ : Parsed ObjId) =
              some p := h
          rw [hvalues, hmap, objidOfSubids_map hall, Nat.add_comm n] at hresult
          exact (Option.some.inj hresult).symm
  · rintro ⟨values, size, ⟨lo, content, rest, rfl, hlo, hmax, hnumerals, rfl⟩, hdl, hsmall, hcount, rfl⟩
    have htlv : IsTlv asnOBJECT_ID content (asnOBJECT_ID :: (lo ++ content)) := ⟨⟨lo, hlo.isLength hmax, rfl⟩⟩
    have hlen : (asnOBJECT_ID :: (lo ++ content)).length = 1 + lo.length + content.length := by
      rw [length_cons, length_append]
      omega
    have hplaces : (values.map UInt32.ofNat).length ≤ 127 := by
      rw [length_map]
      exact hcount
    have hroom : (asnOBJECT_ID :: (lo ++ content)).length ≤ dl := by
      rw [hlen]
      exact hdl
    rw [parseObjid_tlv rest htlv (subidsContent_of_numerals hnumerals hsmall) hplaces hmax hroom,
      objidOfSubids_map hsmall, hlen]

theorem parseObjid_eq_some_iff_internet :
    (parseObjid ([6, 3, 43, 6, 1] ++ₛ Stream'.const 0) 5 TYPES_MAX_OID_LEN).1.result = some ⟨[1, 3, 6, 1], 0, 5⟩ ↔
      ∃ values size, ObjidAt ([6, 3, 43, 6, 1] ++ₛ Stream'.const 0) values size ∧ size ≤ 5 ∧
        (∀ v ∈ values, v < 2 ^ 32) ∧ values.length ≤ 127 ∧
        (⟨[1, 3, 6, 1], 0, 5⟩ : Parsed ObjId) = ⟨arcs values, 5 - size, size⟩ := by
  refine parseObjid_eq_some_iff _ 5 (fun values size hat hsize v hv _ => ?_) ⟨[1, 3, 6, 1], 0, 5⟩
  obtain ⟨lo, content, rest, -, -, -, hnumerals, rfl⟩ := hat
  -- A content of four octets at most has no subidentifier that is too large.
  have hlt := hnumerals.lt hv
  have hle : 128 ^ content.length ≤ 128 ^ 4 := Nat.pow_le_pow_right (by decide) (by omega)
  omega

/-- A content of no octets is taken for the arc 0, a length with more than eight octets behind the first is refused,
and so is one of more than 2^31 - 1. -/
theorem parseObjid_not_exact :
    (parseObjid ([6, 0] ++ₛ Stream'.const 0) 2 TYPES_MAX_OID_LEN).1.result = some ⟨[0], 0, 2⟩ ∧
      (parseObjid ([6, 0x89, 0, 0, 0, 0, 0, 0, 0, 0, 1, 1] ++ₛ Stream'.const 0) 12 TYPES_MAX_OID_LEN).1.result = none ∧
      ∀ rest dl, (parseObjid ([6, 0x84, 0x80, 0, 0, 0] ++ₛ rest) dl TYPES_MAX_OID_LEN).1.result = none := by
  refine ⟨rfl, rfl, fun rest dl => ?_⟩
  have hlength : IsLength [0x84, 0x80, 0, 0, 0] 0x80000000 :=
    @isLength_long 0x84 [0x80, 0, 0, 0] rfl (cons_ne_nil _ _) (by decide) (by decide)
  have hdrop : ([6, 0x84, 0x80, 0, 0, 0] ++ₛ rest).drop 1 = [0x84, 0x80, 0, 0, 0] ++ₛ rest := rfl
  have hrefused : parseLengthAt ([6, 0x84, 0x80, 0, 0, 0] ++ₛ rest) 1 dl = none := by
    rw [parseLengthAt, hdrop, hlength]
    rfl
  have htype : ¬([6, 0x84, 0x80, 0, 0, 0] ++ₛ rest).head ≠ asnOBJECT_ID := fun h => h rfl
  rw [parseObjid, hrefused]
  simp only [if_neg htype]

end Priot.Asn01
