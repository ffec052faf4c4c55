/-
# The octets of `Api_pduBuild`

When the forward encoder succeeds it has written a message that carries what the reverse encoder's
does, except for object identifiers with less than two subidentifiers.
-/
import Priot.Api.RoundTrip
import Priot.Api.Wire
import Priot.Asn01.BuildSpec

namespace Priot.Api

open Asn01 Octets

/-! ## what comes back -/

/-- The subidentifiers the forward encoder encodes for a name. -/
def builtSubids : ObjId → List Oid
  | [] => [0]
  | [x] => [x * 40]
  | x :: y :: rest => (x * 40 + y) :: rest

/-- What a name comes back as. -/
def builtObjid (o : ObjId) : ObjId := objidOfSubids (builtSubids o)

/-- What a value comes back as. -/
def builtValue : VarValue → VarValue
  | .objectId o => .objectId (builtObjid o)
  | v => sentValue v

def builtVar (vp : VariableList) : VariableList := ⟨builtObjid vp.name, builtValue vp.value⟩

/-- What a PDU comes back as. -/
def builtPdu (pdu : Pdu VariableList) : Pdu VariableList :=
  { sentPdu pdu with
    enterprise := builtObjid (pdu.enterprise.take pdu.enterpriseLength)
    enterpriseLength := (builtObjid (pdu.enterprise.take pdu.enterpriseLength)).length
    vars := pdu.vars.map builtVar }

/-- The values the forward encoder takes. -/
def BuildAccepted : VarValue → Prop
  | .objectId o => o.length ≤ 128
  | .bitString s => s ≠ []
  | .unknown _ => False
  | _ => True

/-! ## contents -/

theorem encodesInt_build {v : Int} : EncodesInt (checkOverflowSigned (checkOverflowSigned v))
      (tlv asnINTEGER (trimmedOctets (checkOverflowSigned v % 2 ^ 64).toNat)) := by
  obtain ⟨hval, hne, hlen⟩ := trimmedInt v
  refine ⟨_, isTlv_tlv (by omega), hne, hlen, ?_⟩
  rw [hval]

theorem unsignedOctets_spec {w : Nat} (hw : w < 2 ^ 64) : unsignedOctets w ≠ [] ∧ (unsignedOctets w).length ≤ 9 ∧
      ((unsignedOctets w).length = 9 → (unsignedOctets w).head? = some 0) ∧
      signWord (unsignedOctets w) = 0 ∧ beNat (unsignedOctets w) = w := by
  unfold unsignedOctets
  split
  · next htop =>
    have hlen := longOctets_length w 8
    have hval := beNat_longOctets hw (le_refl 8)
    refine ⟨by simp, by simp [hlen], fun _ => rfl, rfl, ?_⟩
    rw [Octets.beNat_cons, hval]
    simp
  · next htop =>
    have hlt : w < 2 ^ 63 := by omega
    have hlen := trimmedOctets_length hw
    have hsign := trimmedOctets_signWord hw
    have hval := signed_trimmedOctets hw
    rw [if_pos hlt] at hsign
    rw [Octets.signed_eq, hsign, signedLong, if_pos hlt, zero_mul, zero_add] at hval
    refine ⟨List.length_pos_iff.mp (by omega), by omega, fun h => by omega, hsign, ?_⟩
    exact_mod_cast hval

theorem encodesUnsigned_build (t : UnsignedType) (v : Nat) :
    EncodesUnsigned t (checkOverflowUnsigned v) (tlv t.tag (unsignedOctets (checkOverflowUnsigned v))) := by
  have hlt := checkOverflowUnsigned_lt v
  obtain ⟨hne, hlen, hnine, hsign, hval⟩ := unsignedOctets_spec (w := checkOverflowUnsigned v) (by omega)
  refine ⟨_, isTlv_tlv (by omega), ⟨hne, hlen, hnine⟩, hsign, by omega, ?_⟩
  rw [hval, checkOverflowUnsigned_idem]

theorem wordsContent_unsignedOctets (high low : UInt32) :
    WordsContent (0, 0) (unsignedOctets (high.toNat * 2 ^ 32 + low.toNat)) high low := by
  have hh := high.toNat_lt
  have hl := low.toNat_lt
  obtain ⟨hne, hlen, hnine, -, hval⟩ := unsignedOctets_spec (w := high.toNat * 2 ^ 32 + low.toNat)
    (by omega)
  exact wordsContent_unsigned hne hlen hnine hval

theorem wordsContent_trimmedOctets (high low : UInt32) :
    WordsContent (signStart (trimmedOctets (high.toNat * 2 ^ 32 + low.toNat)))
      (trimmedOctets (high.toNat * 2 ^ 32 + low.toNat)) high low := by
  have hh := high.toNat_lt
  have hl := low.toNat_lt
  have hlt : high.toNat * 2 ^ 32 + low.toNat < 2 ^ 64 := by omega
  have hlen := trimmedOctets_length hlt
  have hval := signed_trimmedOctets hlt
  have hsign := trimmedOctets_signWord hlt
  refine wordsContent_signed (t := signWord (trimmedOctets (high.toNat * 2 ^ 32 + low.toNat)))
    ?_ (List.length_pos_iff.mp (by omega)) (by omega) (fun h => by omega) rfl ?_
  · rw [hsign]
    split <;> simp
  · rw [← Octets.signed_eq, hval, signedLong, toInt32_toInt]
    split_ifs <;> omega

theorem buildObjidValues_eq {o : ObjId} {values : List Oid} (h : buildObjidValues o = some values) :
    values = builtSubids o := by
  match o, h with
  | [], h =>
    cases h
    rfl
  | [x], h =>
    simp only [buildObjidValues, Option.ite_none_left_eq_some, Option.some.injEq] at h
    exact h.2.symm
  | x :: y :: rest, h =>
    simp only [buildObjidValues, Option.ite_none_left_eq_some, Option.some.injEq] at h
    exact h.2.2.symm

theorem builtSubids_length {o : ObjId} (h : o.length ≤ 128) : (builtSubids o).length ≤ 127 := by
  match o with
  | [] => simp [builtSubids]
  | [x] => simp [builtSubids]
  | x :: y :: rest =>
    simp only [builtSubids, List.length_cons] at h ⊢
    omega

/-! ## values and varbinds -/

section values

variable {s s' : WBuf} {u : Unit} (hs : s.left ≤ 0xffff)

include hs

theorem buildObjid_encodes {o : ObjId} (h : (buildObjid asnOBJECT_ID o).run s = some (u, s')) :
    o.length ≤ 128 ∧ ∃ bs, Wrote s bs s' ∧ EncodesObjid (builtObjid o) bs := by
  obtain ⟨values, hvalues, hlen, hw⟩ := buildObjid_wrote hs h
  obtain rfl := buildObjidValues_eq hvalues
  have hle := hw.left
  have hge := tlv_length_ge asnOBJECT_ID ((builtSubids o).flatMap fun v => buildSubid v.toNat)
  exact ⟨hlen, _, hw, _, _, isTlv_tlv (by omega), subidsContent_buildSubid _, builtSubids_length hlen,
    rfl⟩

theorem buildValue_wire {v : VarValue} (h : (buildValue v).run s = some (u, s')) :
    BuildAccepted v ∧ ∃ bs, Wrote s bs s' ∧ Wire (builtValue v) bs := by
  cases v with
  | integer v size =>
    obtain ⟨rfl, hw⟩ := buildInt_wrote hs h
    obtain ⟨hval, hne, hlen⟩ := trimmedInt v
    have henc := Encodes.integer (isTlv_tlv (by omega)) hne hlen
    rw [hval] at henc
    exact ⟨trivial, _, hw, henc⟩
  | unsigned t v size =>
    obtain ⟨rfl, hw⟩ := buildUnsignedInt_wrote hs h
    obtain ⟨c, htlv, hu, hsign, hlt, hval⟩ := encodesUnsigned_build t v
    have henc := Encodes.unsigned htlv hu hsign hlt
    rw [hval] at henc
    exact ⟨trivial, _, hw, henc⟩
  | unsigned64 t high low size =>
    obtain ⟨rfl, hw⟩ := buildUnsignedInt64_wrote hs h
    have hwords := wordsContent_unsignedOctets high low
    have hlen := hwords.length_le
    refine ⟨trivial, _, hw, ?_⟩
    cases t with
    | counter64 => exact .counter64 (isTlv_tlv (by omega)) hwords
    | opaqueCounter64 =>
      exact .opaque64 (by decide) (isTlv_tlv (by rw [special_length]; omega)) hwords
    | opaqueU64 => exact .opaque64 (by decide) (isTlv_tlv (by rw [special_length]; omega)) hwords
  | string t str => exact ⟨trivial, _, buildString_wrote hs h, rfl⟩
  | objectId o =>
    obtain ⟨hlen, bs, hw, hobjid⟩ := buildObjid_encodes hs h
    obtain ⟨subids, c, htlv, hsubids, hcount, hobjid⟩ := hobjid
    refine ⟨hlen, bs, hw, ?_⟩
    show Encodes (.objectId (builtObjid o)) bs
    rw [← hobjid]
    exact .objectId htlv hsubids hcount
  | null t => exact ⟨trivial, _, buildNull_wrote h, .null (isTlv_tlv (by norm_num))⟩
  | bitString str =>
    obtain ⟨hne, hw⟩ := buildBitstring_wrote hs h
    have hle := hw.left
    have hge := tlv_length_ge asnBIT_STR str
    exact ⟨hne, _, hw, .bitString (isTlv_tlv (by omega)) hne⟩
  | float bits size =>
    obtain ⟨hsize, hw⟩ := buildFloating_wrote hs h
    have henc := Encodes.float (c := wordOctets 4 bits.toNat)
      (isTlv_tlv (by rw [special_length, wordOctets_length]; norm_num)) (wordOctets_length 4 _)
    rw [wordOctets_value bits.toNat_lt, UInt32.ofNat_toNat] at henc
    exact ⟨trivial, _, hw, henc⟩
  | double bits size =>
    obtain ⟨hsize, hw⟩ := buildFloating_wrote hs h
    have henc := Encodes.double (c := wordOctets 8 bits.toNat)
      (isTlv_tlv (by rw [special_length, wordOctets_length]; norm_num)) (wordOctets_length 8 _)
    rw [wordOctets_value bits.toNat_lt, UInt64.ofNat_toNat] at henc
    exact ⟨trivial, _, hw, henc⟩
  | signed64 high low size =>
    obtain ⟨rfl, hw⟩ := buildSignedInt64_wrote hs h
    have hwords := wordsContent_trimmedOctets high low
    have hlen := hwords.length_le
    exact ⟨trivial, _, hw, .signed64 (isTlv_tlv (by rw [special_length]; omega)) hwords⟩
  | unknown t => cases h

theorem buildVarOp_wire {vp : VariableList} (h : (buildVarOp vp).run s = some (u, s')) :
    vp.name.length ≤ 128 ∧ BuildAccepted vp.value ∧ ∃ bs, Wrote s bs s' ∧ WireVarBind (builtVar vp) bs := by
  unfold buildVarOp at h
  simp only [run_bind_eq_some, run_get_eq_some, run_buildHeaderCheck_eq_some, run_emit_eq_some,
    run_spend_eq_some] at h
  obtain ⟨_, _, ⟨rfl, rfl⟩, ⟨⟩, _, ⟨hleft, rfl⟩, ⟨⟩, _, rfl, ⟨⟩, _, rfl, ⟨⟩, s₁, hname, ⟨⟩, s₂, hvalue,
    _, _, ⟨rfl, rfl⟩, hpatch⟩ := h
  have hblank : Wrote s [0, 0, 0, 0] ⟨s.out ++ [0, 0, 0, 0], s.left - 4⟩ := wrote_emit_spend hleft rfl
  have hs₁ := hblank.left_le.trans hs
  obtain ⟨hnameLen, name, hwname, hencname⟩ := buildObjid_encodes hs₁ hname
  obtain ⟨haccepted, value, hwvalue, hwire⟩ := buildValue_wire (hwname.left_le.trans hs₁) hvalue
  have hall := hblank.trans (hwname.trans hwvalue)
  have hlen := hall.left
  simp only [List.length_append, List.length_cons, List.length_nil] at hlen
  have hcontent : s₂.out.length - s.out.length - 4 = (name ++ value).length := by
    rw [hall.out]
    simp only [List.length_append, List.length_cons, List.length_nil]
    omega
  have hpos : 4 ≤ (name ++ value).length := by
    obtain ⟨_, _, htlv, -⟩ := id hencname
    have hge := htlv.length_bounds
    have hge' := hwire.length_ge
    rw [List.length_append]
    omega
  rw [hcontent] at hpatch
  obtain ⟨hout, hleft'⟩ := buildSequenceAt_out hpatch hpos hall.out rfl rfl
  refine ⟨hnameLen, haccepted, _, ⟨hout, ?_⟩, name, value, hencname, hwire,
    isTlv_sequence (by rw [List.length_append]; omega)⟩
  rw [hleft']
  simp only [sequenceOctets, List.length_append, List.length_cons, List.length_nil]
  omega

theorem buildVarBinds_wire {vars : List VariableList} (h : (buildVarBinds vars).run s = some (u, s')) :
    (∀ vp ∈ vars, vp.name.length ≤ 128 ∧ BuildAccepted vp.value) ∧
      ∃ bs, Wrote s bs s' ∧ WireVarBinds (vars.map builtVar) bs := by
  induction vars generalizing s with
  | nil =>
    cases h
    exact ⟨by simp, [], ⟨(List.append_nil _).symm, rfl⟩, .nil⟩
  | cons vp rest ih =>
    unfold buildVarBinds at h
    rw [run_bind_eq_some] at h
    obtain ⟨⟨⟩, s₁, hone, hrest⟩ := h
    obtain ⟨hname, hvalue, bs, hw, hwire⟩ := buildVarOp_wire hs hone
    obtain ⟨hall, cs, hw', hwire'⟩ := ih (hw.left_le.trans hs) hrest
    refine ⟨?_, bs ++ cs, hw.trans hw', .cons hwire hwire'⟩
    rintro v (_ | ⟨_, hv⟩)
    · exact ⟨hname, hvalue⟩
    · exact hall v hv

/-! ## the PDU -/

theorem buildFields_encodes {pdu : Pdu VariableList} (h : (buildFields pdu).run s = some (u, s')) :
    (pdu.command = PRIOT_MSG_TRAP → (pdu.enterprise.take pdu.enterpriseLength).length ≤ 128) ∧
      ∃ bs, Wrote s bs s' ∧ EncodesFields { builtPdu pdu with command := pdu.command } bs := by
  unfold buildFields at h
  by_cases hc : pdu.command = PRIOT_MSG_TRAP
  · rw [if_neg (not_not.mpr hc)] at h
    unfold buildTrapFields at h
    simp only [run_bind_eq_some] at h
    obtain ⟨⟨⟩, s₁, he, ⟨⟩, s₂, ha, ⟨⟩, s₃, ht, ⟨⟩, s₄, hsp, htm⟩ := h
    obtain ⟨hlen, b₁, hw₁, henc₁⟩ := buildObjid_encodes hs he
    have hs₁ := hw₁.left_le.trans hs
    have hw₂ := buildString_wrote hs₁ ha
    have hs₂ := hw₂.left_le.trans hs₁
    obtain ⟨-, hw₃⟩ := buildInt_wrote hs₂ ht
    have hs₃ := hw₃.left_le.trans hs₂
    obtain ⟨-, hw₄⟩ := buildInt_wrote hs₃ hsp
    obtain ⟨-, hw₅⟩ := buildUnsignedInt_wrote (hw₄.left_le.trans hs₃) htm
    refine ⟨fun _ => hlen, _, hw₁.trans (hw₂.trans (hw₃.trans (hw₄.trans hw₅))), ?_⟩
    rw [EncodesFields, if_pos hc]
    simp only [builtPdu, sentPdu]
    exact ⟨_, _, _, _, _, henc₁, isTlv_tlv (by rw [Vector.length_toList]; norm_num), encodesInt_build,
      encodesInt_build, encodesUnsigned_build .timeticks _, rfl⟩
  · rw [if_pos hc] at h
    unfold buildRequestFields at h
    simp only [run_bind_eq_some] at h
    obtain ⟨⟨⟩, s₁, hr, ⟨⟩, s₂, he, hi⟩ := h
    obtain ⟨-, hw₁⟩ := buildInt_wrote hs hr
    have hs₁ := hw₁.left_le.trans hs
    obtain ⟨-, hw₂⟩ := buildInt_wrote hs₁ he
    obtain ⟨-, hw₃⟩ := buildInt_wrote (hw₂.left_le.trans hs₁) hi
    refine ⟨fun h0 => absurd h0 hc, _, hw₁.trans (hw₂.trans hw₃), ?_⟩
    rw [EncodesFields, if_neg hc]
    simp only [builtPdu, sentPdu]
    exact ⟨_, _, _, encodesInt_build, encodesInt_build, encodesInt_build, rfl⟩

end values

/-- What has been encoded by the forward encoder fits. -/
structure BuildFits (pdu : Pdu VariableList) : Prop where
  enterprise_le : pdu.command = PRIOT_MSG_TRAP →
    (pdu.enterprise.take pdu.enterpriseLength).length ≤ 128
  vars_le : ∀ vp ∈ pdu.vars, vp.name.length ≤ 128 ∧ BuildAccepted vp.value

theorem pduBuild_wire {pdu : Pdu VariableList} {size : Nat} (hsize : size ≤ 0xffff) {s' : WBuf}
    (h : (pduBuild pdu).run ⟨[], size⟩ = some ((), s')) : BuildFits pdu ∧ s'.out.length ≤ 0xffff ∧
      ∃ fields varBinds seq, WirePdu pdu.command (builtPdu pdu) fields varBinds seq s'.out := by
  unfold pduBuild at h
  simp only [run_bind_eq_some, run_get_eq_some] at h
  obtain ⟨_, _, ⟨rfl, rfl⟩, _, _, ⟨rfl, rfl⟩, ⟨⟩, s₁, hheader, _, _, ⟨rfl, rfl⟩, ⟨⟩, s₂, hfields, _, _,
    ⟨rfl, rfl⟩, ⟨⟩, s₃, hseq, _, _, ⟨rfl, rfl⟩, ⟨⟩, s₄, hvars, _, _, ⟨rfl, rfl⟩, ⟨⟩, s₅, hpatch,
    hpatch'⟩ := h
  have hw₁ := buildSequence_wrote hheader
  obtain ⟨henterprise, fields, hw₂, hfields⟩ := buildFields_encodes (hw₁.left_le.trans hsize) hfields
  have hw₃ := buildSequence_wrote hseq
  have hle₃ := (hw₁.trans (hw₂.trans hw₃)).left_le
  obtain ⟨hall, varBinds, hw₄, hwire⟩ := buildVarBinds_wire (hle₃.trans hsize) hvars
  have hw := hw₁.trans (hw₂.trans (hw₃.trans hw₄))
  have hleft := hw.left
  simp only [List.length_append, sequenceOctets_length] at hleft
  have hout₁ := congrArg List.length hw₁.out
  have hout₂ := congrArg List.length hw₂.out
  have hout₃ := congrArg List.length hw₃.out
  have hout₄ := congrArg List.length hw₄.out
  simp only [List.length_append, List.length_nil, sequenceOctets_length] at hout₁ hout₂ hout₃ hout₄
  -- the header of the varbinds, then the header of the PDU
  rw [show s₄.out.length - s₃.out.length = varBinds.length by omega] at hpatch
  have hout₅ : s₅.out = s₂.out
      ++ (sequenceOctets asnSEQUENCE_CONSTRUCTOR varBinds.length ++ varBinds) :=
    (buildSequenceAt_out hpatch (by show 4 ≤ size; omega)
      (by rw [hw₄.out, hw₃.out, List.append_assoc]) rfl (sequenceOctets_length _ _)).1
  set seq := sequenceOctets asnSEQUENCE_CONSTRUCTOR varBinds.length ++ varBinds with hseqdef
  have hlenseq : seq.length = varBinds.length + 4 := by
    rw [hseqdef, List.length_append, sequenceOctets_length, Nat.add_comm]
  rw [show s₄.out.length - s₁.out.length = (fields ++ seq).length by
    rw [List.length_append]
    omega] at hpatch'
  have hout : s'.out = []
      ++ (sequenceOctets (commandOctet pdu.command) (fields ++ seq).length ++ (fields ++ seq)) :=
    (buildSequenceAt_out hpatch' (by show 4 ≤ size - 4; omega)
      (by rw [hout₅, hw₂.out, hw₁.out, List.append_assoc, List.append_assoc]) rfl
      (sequenceOctets_length _ _)).1
  rw [List.nil_append] at hout
  have hlen : s'.out.length = 4 + (fields ++ seq).length := by
    rw [hout, List.length_append, sequenceOctets_length]
  rw [List.length_append] at hlen
  refine ⟨⟨henterprise, hall⟩, by omega, fields, varBinds, seq, rfl, hfields, hwire,
    isTlv_sequence (by omega), ?_, ?_⟩
  · rw [hout]
    exact isTlv_sequence (by rw [List.length_append]; omega)
  · rw [MAX_WIRE]
    omega

end Priot.Api
