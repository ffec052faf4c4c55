/-
# What `Api_pduParse` makes of well-formed messages

`Encodes v bs`: the octets `bs` are an encoding of the value `v`, in any form that senders may choose. Whatever is
encoded so, the decoder reads back, and takes exactly these octets.
-/
import Priot.Api.PduParse
import Priot.Asn01.Tlv

namespace Priot.Api

open Asn01 Octets

/-! ## values -/

/-- The encodings of a value. -/
inductive Encodes : VarValue → List UInt8 → Prop
  | integer {c bs : List UInt8} : IsTlv asnINTEGER c bs → c ≠ [] → c.length ≤ 8 →
    Encodes (.integer (checkOverflowSigned (signed c)) 8) bs
  | unsigned {t : UnsignedType} {c bs : List UInt8} : IsTlv t.tag c bs → UnsignedContent c →
    signWord c = 0 → beNat c < 2 ^ 64 → Encodes (.unsigned t (checkOverflowUnsigned (beNat c)) 8) bs
  | counter64 {c bs : List UInt8} {high low : UInt32} : IsTlv asnCOUNTER64 c bs →
    WordsContent (0, 0) c high low → Encodes (.unsigned64 .counter64 high low 8) bs
  | opaque64 {t : Unsigned64Type} {c bs : List UInt8} {high low : UInt32} : t ≠ .counter64 →
    IsTlv asnOPAQUE (special t.tag c) bs → WordsContent (0, 0) c high low →
      Encodes (.unsigned64 t high low 8) bs
  | signed64 {c bs : List UInt8} {high low : UInt32} :
    IsTlv asnOPAQUE (special asnOPAQUE_I64 c) bs → WordsContent (signStart c) c high low →
      Encodes (.signed64 high low 8) bs
  | float {c bs : List UInt8} : IsTlv asnOPAQUE (special asnOPAQUE_FLOAT c) bs → c.length = 4 →
    Encodes (.float (UInt32.ofNat (beNat c)) 4) bs
  | double {c bs : List UInt8} : IsTlv asnOPAQUE (special asnOPAQUE_DOUBLE c) bs → c.length = 8 →
    Encodes (.double (UInt64.ofNat (beNat c)) 8) bs
  | string {t : StringType} {c bs : List UInt8} : IsTlv t.tag c bs →
    (t = .ipaddress → c.length = 4) →
    (t = .opaqueStr → ∃ b os, c = b :: os ∧ b ≠ asnOPAQUE_TAG1) → Encodes (.string t c) bs
  | objectId {subids : List Oid} {c bs : List UInt8} : IsTlv asnOBJECT_ID c bs →
    SubidsContent subids c → subids.length ≤ 127 → Encodes (.objectId (objidOfSubids subids)) bs
  | null {t : NullType} {bs : List UInt8} : IsTlv t.tag [] bs → Encodes (.null t) bs
  | bitString {c bs : List UInt8} : IsTlv asnBIT_STR c bs → c ≠ [] → Encodes (.bitString c) bs

/-- What the decoder of a varbind needs to know of its value: the header is accepted, ends where the
value's own length says, and the value is decoded. -/
def ValueDecoded (v : VarValue) (bs : List UInt8) (rest : Mem) (dl : Nat) : Prop :=
  ∃ vl k, parseHeader (bs ++ₛ rest) dl = ⟨some v.type, some (vl, k)⟩ ∧ k + vl = bs.length ∧
    parseVarValue v.type vl (bs ++ₛ rest) = ⟨v.type, v.valueLength, some v, false⟩

section values

variable {tag : UInt8} {c bs : List UInt8} (rest : Mem) {dl : Nat}

theorem ValueDecoded.plain {v : VarValue} (h : IsTlv v.type c bs)
    (hext : asnIsExtensionId v.type = false) (hne : v.type ≠ asnOPAQUE) (hdl : bs.length ≤ dl)
    (hmax : bs.length ≤ MAX_PACKET_LENGTH)
    (hv : parseVarValue v.type c.length (bs ++ₛ rest) = ⟨v.type, v.valueLength, some v, false⟩) :
    ValueDecoded v bs rest dl := by
  have hlen := h.length_bounds
  rw [MAX_PACKET_LENGTH] at hmax
  exact ⟨c.length, bs.length - c.length,
    parseHeader_tlv rest h hext (fun h0 => absurd h0 hne) (by omega) hdl, by omega, hv⟩

theorem ValueDecoded.special {v : VarValue} (htag : isOpaqueSpecial v.type = true)
    (h : IsTlv asnOPAQUE (special v.type c) bs) (hc : c.length ≤ 9) (hdl : bs.length ≤ dl)
    (hv : parseVarValue v.type c.length (bs ++ₛ rest) = ⟨v.type, v.valueLength, some v, false⟩) :
    ValueDecoded v bs rest dl := by
  have hlen := h.length_bounds
  rw [special_length] at hlen
  exact ⟨c.length, bs.length - c.length, parseHeader_special rest htag h hc hdl, by omega, hv⟩

theorem unsignedTypeOf_tag (t : UnsignedType) : unsignedTypeOf t.tag = t := by cases t <;> rfl

theorem unsigned64TypeOf_tag (t : Unsigned64Type) : unsigned64TypeOf t.tag = t := by cases t <;> rfl

theorem stringTypeOf_tag (t : StringType) : stringTypeOf t.tag = t := by cases t <;> rfl

/-! The branch of the switch each type goes to. -/

theorem parseVarValue_integer (vl : Nat) (m : Mem) : parseVarValue asnINTEGER vl m =
      .ofParse (parseInt m MAX_PACKET_LENGTH) 8 fun _ v => .integer v 8 := rfl

theorem parseVarValue_unsigned (t : UnsignedType) (vl : Nat) (m : Mem) : parseVarValue t.tag vl m =
      .ofParse (parseUnsignedInt m MAX_PACKET_LENGTH) 8 fun t v => .unsigned (unsignedTypeOf t) v 8 := by
  cases t <;> rfl

theorem parseVarValue_unsigned64 (t : Unsigned64Type) (vl : Nat) (m : Mem) : parseVarValue t.tag vl m =
      .ofParse (parseUnsignedInt64 m MAX_PACKET_LENGTH) 8 fun t v => .unsigned64 (unsigned64TypeOf t) v.1 v.2 8 := by
  cases t <;> rfl

theorem parseVarValue_signed64 (vl : Nat) (m : Mem) : parseVarValue asnOPAQUE_I64 vl m =
      .ofParse (parseSignedInt64 m MAX_PACKET_LENGTH) 8 fun _ v => .signed64 v.1 v.2 8 := rfl

theorem parseVarValue_float (vl : Nat) (m : Mem) : parseVarValue asnOPAQUE_FLOAT vl m =
      .ofParse (parseFloat m MAX_PACKET_LENGTH) 4 fun _ v => .float v 4 := rfl

theorem parseVarValue_double (vl : Nat) (m : Mem) : parseVarValue asnOPAQUE_DOUBLE vl m =
      .ofParse (parseDouble m MAX_PACKET_LENGTH) 8 fun _ v => .double v 8 := rfl

theorem parseVarValue_string (t : StringType) (vl : Nat) (m : Mem) (hip : t = .ipaddress → vl = 4) :
    parseVarValue t.tag vl m = parseStringValue t.tag vl m := by
  cases t with
  | ipaddress =>
    rw [hip rfl]
    rfl
  | octetStr | opaqueStr | nsap => rfl

theorem parseVarValue_objectId (vl : Nat) (m : Mem) :
    parseVarValue asnOBJECT_ID vl m =
      (let (out, valueLength) := parseObjid m MAX_PACKET_LENGTH TYPES_MAX_OID_LEN
       .ofParse out (if out.result.isSome then 4 * valueLength else valueLength)
         fun _ v => .objectId v) := rfl

theorem parseVarValue_null (t : NullType) (vl : Nat) (m : Mem) :
    parseVarValue t.tag vl m = ⟨t.tag, vl, some (.null t), false⟩ := by
  cases t <;> rfl

theorem parseVarValue_bitString (vl : Nat) (m : Mem) :
    parseVarValue asnBIT_STR vl m =
      (let out := parseBitstring m MAX_PACKET_LENGTH vl
       .ofParse out ((out.result.map (·.value.length)).getD vl) fun _ s => .bitString s) := rfl

theorem Encodes.decoded {v : VarValue} (h : Encodes v bs) (dl : Nat) (hdl : bs.length ≤ dl)
    (hmax : bs.length ≤ MAX_PACKET_LENGTH) : ValueDecoded v bs rest dl := by
  have hmax' : bs.length ≤ 0x7fffffff := hmax
  cases h with
  | integer h hne hc =>
    refine .plain rest h (show asnIsExtensionId asnINTEGER = false by decide)
      (show asnINTEGER ≠ asnOPAQUE by decide) hdl hmax ?_
    rw [VarValue.type, parseVarValue_integer, parseInt_tlv rest h hne hc hmax]
    rfl
  | @unsigned t c _ h hu hs hv =>
    refine .plain rest h (show asnIsExtensionId t.tag = false by cases t <;> decide)
      (show t.tag ≠ asnOPAQUE by cases t <;> decide) hdl hmax ?_
    rw [VarValue.type, parseVarValue_unsigned, parseUnsignedInt_tlv rest h hu hs hv hmax]
    simp only [ValueOut.ofParse, unsignedTypeOf_tag, VarValue.valueLength]
  | counter64 h hw =>
    refine .plain rest h (show asnIsExtensionId asnCOUNTER64 = false by decide)
      (show asnCOUNTER64 ≠ asnOPAQUE by decide) hdl hmax ?_
    rw [VarValue.type, parseVarValue_unsigned64, parseUnsignedInt64_tlv rest h hw hmax]
    rfl
  | @opaque64 t c _ high low hne h hw =>
    have htag : t.tag = asnOPAQUE_COUNTER64 ∨ t.tag = asnOPAQUE_U64 := by
      cases t with
      | counter64 => contradiction
      | opaqueCounter64 | opaqueU64 => decide
    refine .special rest (show isOpaqueSpecial t.tag = true by
      rcases htag with h | h <;> rw [h] <;> decide) h hw.length_le hdl ?_
    rw [VarValue.type, parseVarValue_unsigned64, parseUnsignedInt64_special rest htag h hw hmax]
    simp only [ValueOut.ofParse, unsigned64TypeOf_tag, VarValue.valueLength]
  | signed64 h hw =>
    refine .special rest (show isOpaqueSpecial asnOPAQUE_I64 = true by decide) h hw.length_le hdl ?_
    rw [VarValue.type, parseVarValue_signed64, parseSignedInt64_special rest h hw hmax]
    rfl
  | float h hc =>
    refine .special rest (show isOpaqueSpecial asnOPAQUE_FLOAT = true by decide) h (by omega) hdl ?_
    rw [VarValue.type, parseVarValue_float, parseFloat, parseFloating_special rest hc (by omega) h hmax]
    rfl
  | double h hc =>
    refine .special rest (show isOpaqueSpecial asnOPAQUE_DOUBLE = true by decide) h (by omega) hdl ?_
    rw [VarValue.type, parseVarValue_double, parseDouble,
      parseFloating_special rest hc (by omega) h hmax]
    rfl
  | @string t c _ h hip hop =>
    have hlen := h.length_bounds
    have hext : asnIsExtensionId t.tag = false := by cases t <;> decide
    have hnotOpq : t.tag = asnOPAQUE → t = .opaqueStr := by cases t <;> decide
    refine ⟨c.length, bs.length - c.length,
      parseHeader_tlv rest h hext (fun h0 => hop (hnotOpq h0)) (by omega) hdl, by omega, ?_⟩
    rw [VarValue.type, parseVarValue_string t _ _ hip, parseStringValue,
      parseString_tlv rest h (by omega) hmax (le_refl _)]
    simp only [ValueOut.ofParse, stringTypeOf_tag, VarValue.valueLength, Option.map_some,
      Option.getD_some]
  | @objectId subids c _ h hs hn =>
    have hlen := h.length_bounds
    refine .plain rest h (show asnIsExtensionId asnOBJECT_ID = false by decide)
      (show asnOBJECT_ID ≠ asnOPAQUE by decide) hdl hmax ?_
    rw [VarValue.type, parseVarValue_objectId, parseObjid_tlv rest h hs hn (by omega) hmax]
    simp only [ValueOut.ofParse, Option.isSome_some, if_true, VarValue.valueLength,
      objidOfSubids_length]
  | @null t _ h =>
    refine .plain rest h (show asnIsExtensionId t.tag = false by cases t <;> decide)
      (show t.tag ≠ asnOPAQUE by cases t <;> decide) hdl hmax ?_
    rw [VarValue.type, parseVarValue_null]
    rfl
  | bitString h hne =>
    have hlen := h.length_bounds
    refine .plain rest h (show asnIsExtensionId asnBIT_STR = false by decide)
      (show asnBIT_STR ≠ asnOPAQUE by decide) hdl hmax ?_
    rw [VarValue.type, parseVarValue_bitString,
      parseBitstring_tlv rest h hne (by omega) hmax (le_refl _)]
    rfl

end values

/-! ## varbinds -/

/-- The encodings of a name: one with two subidentifiers or more comes back as it is, so the decoded
name is `objidOfSubids` of what has been encoded. -/
def EncodesObjid (o : ObjId) (bs : List UInt8) : Prop :=
  ∃ subids c, IsTlv asnOBJECT_ID c bs ∧ SubidsContent subids c ∧ subids.length ≤ 127 ∧
    objidOfSubids subids = o

/-- The encodings of a varbind. -/
def EncodesVarBind (vp : VariableList) (bs : List UInt8) : Prop :=
  ∃ name value, EncodesObjid vp.name name ∧ Encodes vp.value value ∧
    IsTlv asnSEQUENCE_CONSTRUCTOR (name ++ value) bs

/-- The encodings of a list of varbinds. -/
inductive EncodesVarBinds : List VariableList → List UInt8 → Prop
  | nil : EncodesVarBinds [] []
  | cons {vp : VariableList} {vars : List VariableList} {bs content : List UInt8} :
    EncodesVarBind vp bs → EncodesVarBinds vars content → EncodesVarBinds (vp :: vars) (bs ++ content)

variable {bs : List UInt8}

theorem EncodesObjid.parseObjid {o : ObjId} (h : EncodesObjid o bs) (rest : Mem)
    (dl : Nat) (hdl : bs.length ≤ dl) (hmax : bs.length ≤ MAX_PACKET_LENGTH) :
    parseObjid (bs ++ₛ rest) dl TYPES_MAX_OID_LEN =
      (⟨asnOBJECT_ID, some ⟨o, dl - bs.length, bs.length⟩⟩, o.length) := by
  obtain ⟨subids, c, htlv, hs, hn, rfl⟩ := h
  have hlen := htlv.length_bounds
  rw [MAX_PACKET_LENGTH] at hmax
  rw [parseObjid_tlv rest htlv hs hn (by omega) hdl, objidOfSubids_length]

theorem parseSequence_tlv {tag : UInt8} {c : List UInt8} (h : IsTlv tag c bs)
    (hext : asnIsExtensionId tag = false) (hne : tag ≠ asnOPAQUE) (rest : Mem) {dl : Nat}
    (hdl : bs.length ≤ dl) (hc : c.length ≤ 0x7fffffff) :
    parseSequence (bs ++ₛ rest) dl tag = some (c.length, bs.length - c.length) := by
  have hhead := parseHeader_tlv rest h hext (fun h0 => absurd h0 hne) hc hdl
  rw [parseSequence, hhead]
  exact if_pos rfl

theorem ParsedVar.ofVar_not_badType {v : VarValue} (h : Encodes v bs)
    (name : ObjId) : ParsedVar.isBadType (.ofVar ⟨name, v⟩) = false := by
  cases h <;> rfl

theorem EncodesVarBind.parseVarBind {vp : VariableList} (h : EncodesVarBind vp bs)
    (rest : Mem) (length : Nat) (hl : bs.length ≤ length) (hmax : bs.length ≤ MAX_PACKET_LENGTH) :
    parseVarBind (bs ++ₛ rest) length = (ParsedVar.ofVar vp, some (bs.length, length - bs.length)) := by
  obtain ⟨name, value, hname, hvalue, hseq⟩ := h
  have hmax' : bs.length ≤ 0x7fffffff := hmax
  have hlen := hseq.length_bounds
  rw [List.length_append] at hlen
  have hsequence := parseSequence_tlv hseq (by decide) (by decide) rest hl (by
    rw [List.length_append]
    omega)
  have hstart := hseq.drop rest
  set start := bs.length - (name ++ value).length with hstartdef
  rw [List.length_append] at hstartdef hsequence
  have hsplit : (name ++ value) ++ₛ rest = name ++ₛ (value ++ₛ rest) :=
    Stream'.append_append_stream ..
  -- the name, then the value behind it
  have hobjid := hname.parseObjid (value ++ₛ rest) (name.length + value.length) (by omega) (by
    rw [MAX_PACKET_LENGTH]
    omega)
  have hval : (bs ++ₛ rest).drop (start + name.length) = value ++ₛ rest := by
    rw [← Stream'.drop_drop, hstart, hsplit, Stream'.drop_append_stream]
  obtain ⟨vl, k, hheader, hk, hdecoded⟩ := hvalue.decoded rest
    (name.length + value.length - name.length) (by omega) (by rw [MAX_PACKET_LENGTH]; omega)
  have hop : parseVarOp (bs ++ₛ rest) length =
      ⟨vp.name.length, some vp.value.type,
        some ⟨vp.name, vl, start + name.length, bs.length, length - bs.length⟩⟩ := by
    have hused : start + name.length + k + vl = bs.length := by omega
    simp only [parseVarOp, hsequence, hstart, hsplit, hobjid, hval, hheader, hused]
  simp only [Api.parseVarBind, hop, Option.getD_some, hval, hdecoded, ParsedVar.ofVar,
    Bool.false_eq_true, if_false]

/-- The list of varbinds, whatever follows it. -/
theorem EncodesVarBinds.parseVarBinds {vars : List VariableList}
    (h : EncodesVarBinds vars bs) (rest : Mem) {fuel : Nat} (hfuel : bs.length ≤ fuel)
    (hmax : bs.length ≤ MAX_PACKET_LENGTH) :
    parseVarBinds fuel (bs ++ₛ rest) bs.length 0 = (0, vars.map ParsedVar.ofVar) := by
  induction h generalizing fuel with
  | nil => cases fuel <;> rfl
  | @cons vp vars bs content hvp hvars ih =>
    have hmax' : (bs ++ content).length ≤ 0x7fffffff := hmax
    have hpos : 0 < bs.length := by
      obtain ⟨name, value, -, -, hseq⟩ := hvp
      have := hseq.length_bounds
      omega
    rw [List.length_append] at hfuel hmax hmax' ⊢
    obtain ⟨fuel, rfl⟩ : ∃ k, fuel = k + 1 := ⟨fuel - 1, by omega⟩
    have hone := hvp.parseVarBind (content ++ₛ rest) (bs.length + content.length)
      (by omega) (by rw [MAX_PACKET_LENGTH]; omega)
    have hbad : ParsedVar.isBadType (.ofVar vp) = false := by
      obtain ⟨name, value, -, hvalue, -⟩ := hvp
      exact ParsedVar.ofVar_not_badType hvalue vp.name
    have hrec := @ih fuel (by omega) (by rw [MAX_PACKET_LENGTH]; omega)
    rw [Stream'.append_append_stream]
    simp only [Api.parseVarBinds, hone, hbad, Bool.false_eq_true, if_false, Nat.add_sub_cancel_left,
      Stream'.drop_append_stream, hrec, List.map_cons]
    rw [if_neg (by omega)]

/-! ## PDUs -/

/-- The encodings of an `INTEGER` field. -/
def EncodesInt (v : Int) (bs : List UInt8) : Prop :=
  ∃ c, IsTlv asnINTEGER c bs ∧ c ≠ [] ∧ c.length ≤ 8 ∧ checkOverflowSigned (signed c) = v

/-- The encodings of an unsigned field. -/
def EncodesUnsigned (t : UnsignedType) (v : Nat) (bs : List UInt8) : Prop :=
  ∃ c, IsTlv t.tag c bs ∧ UnsignedContent c ∧ signWord c = 0 ∧ beNat c < 2 ^ 64 ∧
    checkOverflowUnsigned (beNat c) = v

/-- The encodings of the fields in front of the varbinds. -/
def EncodesFields (pdu : Pdu VariableList) (bs : List UInt8) : Prop :=
  if pdu.command = PRIOT_MSG_TRAP then
    ∃ b₁ b₂ b₃ b₄ b₅, EncodesObjid pdu.enterprise b₁ ∧ IsTlv asnIPADDRESS pdu.agentAddr.toList b₂ ∧
      EncodesInt pdu.trapType b₃ ∧ EncodesInt pdu.specificType b₄ ∧
      EncodesUnsigned .timeticks pdu.time b₅ ∧ bs = b₁ ++ (b₂ ++ (b₃ ++ (b₄ ++ b₅)))
  else
    ∃ b₁ b₂ b₃, EncodesInt pdu.reqid b₁ ∧ EncodesInt pdu.errstat b₂ ∧ EncodesInt pdu.errindex b₃ ∧
      bs = b₁ ++ (b₂ ++ b₃)

variable {pdu : Pdu VariableList}

theorem EncodesFields.of_command {command : Int} {fields : List UInt8}
    (h : EncodesFields { pdu with command := command } fields)
    (hiff : pdu.command = PRIOT_MSG_TRAP ↔ command = PRIOT_MSG_TRAP) : EncodesFields pdu fields := by
  unfold EncodesFields at h ⊢
  by_cases hc : command = PRIOT_MSG_TRAP
  · rw [if_pos hc] at h
    rw [if_pos (hiff.mpr hc)]
    exact h
  · rw [if_neg hc] at h
    rw [if_neg fun h0 => hc (hiff.mp h0)]
    exact h

/-- The encodings of a PDU. -/
structure EncodesPdu (pdu : Pdu VariableList) (content bs : List UInt8) : Prop where
  command_mem : pdu.command = PRIOT_MSG_TRAP ∨ pdu.command ∈ requestCommands
  tlv : ∃ tag : UInt8, (tag.toNat : Int) = pdu.command ∧ IsTlv tag content bs
  content_eq : ∃ fields varBinds seq, EncodesFields pdu fields ∧ EncodesVarBinds pdu.vars varBinds ∧
    IsTlv asnSEQUENCE_CONSTRUCTOR varBinds seq ∧ content = fields ++ seq

/-- The members of a PDU the fields of a message are stored in; a response is marked as one. -/
def storeFields (old : Pdu ParsedVar) (pdu : Pdu VariableList) : Pdu ParsedVar :=
  if pdu.command = PRIOT_MSG_TRAP then
    { old with enterprise := pdu.enterprise, enterpriseLength := pdu.enterprise.length,
               agentAddr := pdu.agentAddr, trapType := pdu.trapType,
               specificType := pdu.specificType, time := pdu.time }
  else
    { old with reqid := pdu.reqid, errstat := pdu.errstat, errindex := pdu.errindex,
               flags := if pdu.command = PRIOT_MSG_RESPONSE ∨ pdu.command = PRIOT_MSG_REPORT then
                   old.flags ||| PRIOT_UCD_MSG_FLAG_RESPONSE_PDU
                 else old.flags }

/-- The PDU a receiver holds: what has been sent, over the members the message has no field for. -/
def received (old : Pdu ParsedVar) (pdu : Pdu VariableList) : Pdu ParsedVar :=
  { storeFields { old with command := pdu.command,
                           flags := old.flags &&& ~~~PRIOT_UCD_MSG_FLAG_RESPONSE_PDU } pdu with
    vars := pdu.vars.map ParsedVar.ofVar }

theorem EncodesInt.parseInt {v : Int} (h : EncodesInt v bs) (rest : Mem) (dl : Nat) (hdl : bs.length ≤ dl) :
    parseInt (bs ++ₛ rest) dl = ⟨asnINTEGER, some ⟨v, dl - bs.length, bs.length⟩⟩ := by
  obtain ⟨c, htlv, hne, hc, rfl⟩ := h
  exact parseInt_tlv rest htlv hne hc hdl

theorem EncodesUnsigned.parseUnsignedInt {t : UnsignedType} {v : Nat}
    (h : EncodesUnsigned t v bs) (rest : Mem) (dl : Nat) (hdl : bs.length ≤ dl) :
    parseUnsignedInt (bs ++ₛ rest) dl = ⟨t.tag, some ⟨v, dl - bs.length, bs.length⟩⟩ := by
  obtain ⟨c, htlv, hu, hs, hv, rfl⟩ := h
  exact parseUnsignedInt_tlv rest htlv hu hs hv hdl

theorem overlayAddr_toList (addr new : Vector UInt8 4) : overlayAddr addr new.toList = new := by
  refine Vector.ext fun i hi => ?_
  have hlen : i < new.toList.length := by rwa [Vector.length_toList]
  simp only [overlayAddr, Vector.getElem_ofFn, List.getD_eq_getElem?_getD,
    List.getElem?_append_left hlen, List.getElem?_eq_getElem hlen, Option.getD_some,
    Vector.getElem_toList]

theorem parseTrapFields_append (hc : pdu.command = PRIOT_MSG_TRAP) (h : EncodesFields pdu bs) (old : Pdu ParsedVar) (rest : Mem) {length : Nat}
    (hl : bs.length ≤ length) (hmax : bs.length ≤ MAX_PACKET_LENGTH) : parseTrapFields ⟨old, bs ++ₛ rest, length⟩
      = .ok ⟨storeFields old pdu, rest, length - bs.length⟩ := by
  rw [EncodesFields, if_pos hc] at h
  obtain ⟨b₁, b₂, b₃, b₄, b₅, h₁, h₂, h₃, h₄, h₅, rfl⟩ := h
  simp only [List.length_append] at hl hmax ⊢
  have hmax' := hmax
  rw [MAX_PACKET_LENGTH] at hmax'
  simp only [Stream'.append_append_stream]
  have hobjid := h₁.parseObjid (b₂ ++ₛ (b₃ ++ₛ (b₄ ++ₛ (b₅ ++ₛ rest)))) length (by omega) (by
    rw [MAX_PACKET_LENGTH]; omega)
  have haddr : pdu.agentAddr.toList.length = 4 := Vector.length_toList ..
  have hstr : parseString (b₂ ++ₛ (b₃ ++ₛ (b₄ ++ₛ (b₅ ++ₛ rest)))) (length - b₁.length) 4
      = ⟨asnIPADDRESS, some ⟨pdu.agentAddr.toList, length - b₁.length - b₂.length, b₂.length⟩⟩ :=
    parseString_tlv (t := .ipaddress) _ h₂ (by omega) (by omega) (by omega)
  have htrap := h₃.parseInt (b₄ ++ₛ (b₅ ++ₛ rest)) (length - b₁.length - b₂.length) (by omega)
  have hspec := h₄.parseInt (b₅ ++ₛ rest) (length - b₁.length - b₂.length - b₃.length) (by omega)
  have htime := h₅.parseUnsignedInt rest
    (length - b₁.length - b₂.length - b₃.length - b₄.length) (by omega)
  simp only [parseTrapFields, hobjid, bind, Except.bind, Cursor.field, Stream'.drop_append_stream,
    hstr, htrap, hspec, htime, overlayAddr_toList, storeFields, if_pos hc]
  simp only [Nat.sub_sub, Nat.add_assoc]

theorem parseRequestFields_append (hc : pdu.command ≠ PRIOT_MSG_TRAP) (h : EncodesFields pdu bs) (old : Pdu ParsedVar) (rest : Mem) {length : Nat}
    (hl : bs.length ≤ length) :
    parseRequestFields ⟨old, bs ++ₛ rest, length⟩
      = .ok ⟨{ old with reqid := pdu.reqid, errstat := pdu.errstat, errindex := pdu.errindex }, rest,
          length - bs.length⟩ := by
  rw [EncodesFields, if_neg hc] at h
  obtain ⟨b₁, b₂, b₃, h₁, h₂, h₃, rfl⟩ := h
  simp only [List.length_append] at hl ⊢
  simp only [Stream'.append_append_stream]
  have hreqid := h₁.parseInt (b₂ ++ₛ (b₃ ++ₛ rest)) length (by omega)
  have herrstat := h₂.parseInt (b₃ ++ₛ rest) (length - b₁.length) (by omega)
  have herrindex := h₃.parseInt rest (length - b₁.length - b₂.length) (by omega)
  simp only [parseRequestFields, bind, Except.bind, Cursor.field, hreqid, herrstat, herrindex,
    Stream'.drop_append_stream]
  simp only [Nat.sub_sub, Nat.add_assoc]

theorem EncodesFields.parseFields (h : EncodesFields pdu bs)
    (hcommand : pdu.command = PRIOT_MSG_TRAP ∨ pdu.command ∈ requestCommands)
    {old : Pdu ParsedVar} (hold : old.command = pdu.command) (rest : Mem) {length : Nat}
    (hl : bs.length ≤ length) (hmax : bs.length ≤ MAX_PACKET_LENGTH) : parseFields ⟨old, bs ++ₛ rest, length⟩
      = .ok ⟨storeFields old pdu, rest, length - bs.length⟩ := by
  simp only [Api.parseFields, hold]
  by_cases hc : pdu.command = PRIOT_MSG_TRAP
  · rw [if_pos hc]
    exact parseTrapFields_append hc h old rest hl hmax
  · rw [if_neg hc, if_pos (hcommand.resolve_left hc)]
    split
    · next hresp =>
      rw [parseRequestFields_append hc h _ rest hl]
      simp only [storeFields, if_neg hc, if_pos hresp, hold]
    · next hresp =>
      rw [parseRequestFields_append hc h _ rest hl]
      simp only [storeFields, if_neg hc, if_neg hresp]

theorem Pdu.vars_eta {p : Pdu ParsedVar} {vars : List ParsedVar} (h : p.vars = vars) :
    { p with vars := vars } = p := by
  subst h
  rfl

theorem commandTag {tag : UInt8} {command : Int} (htag : (tag.toNat : Int) = command)
    (h : command = PRIOT_MSG_TRAP ∨ command ∈ requestCommands) : asnIsExtensionId tag = false ∧ tag ≠ asnOPAQUE := by
  have hrange : 0xa0 ≤ tag.toNat ∧ tag.toNat ≤ 0xa8 := by
    simp only [requestCommands, List.mem_cons, List.not_mem_nil, or_false, PRIOT_MSG_TRAP,
      PRIOT_MSG_RESPONSE, PRIOT_MSG_REPORT, PRIOT_MSG_GET, PRIOT_MSG_GETNEXT, PRIOT_MSG_GETBULK,
      PRIOT_MSG_SET, PRIOT_MSG_TRAP2, PRIOT_MSG_INFORM] at h
    omega
  have hall : ∀ i : Fin 256, 0xa0 ≤ i.val ∧ i.val ≤ 0xa8 →
      asnIsExtensionId (UInt8.ofNat i.val) = false ∧ UInt8.ofNat i.val ≠ asnOPAQUE := by
    decide +kernel
  have h := hall ⟨tag.toNat, tag.toNat_lt⟩ hrange
  rwa [UInt8.ofNat_toNat] at h

/-- The PDU before its varbinds are linked in. -/
def receivedHead (old : Pdu ParsedVar) (pdu : Pdu VariableList) : Pdu ParsedVar :=
  storeFields { old with command := pdu.command,
                         flags := old.flags &&& ~~~PRIOT_UCD_MSG_FLAG_RESPONSE_PDU } pdu

/-- `pdu->variables` is written when the first varbind is linked in. -/
def linkVars (pdu : Pdu ParsedVar) (vars : List ParsedVar) : Pdu ParsedVar :=
  if vars = [] then pdu else { pdu with vars := vars }

/-- A message with well-formed fields: what remains is the list of varbinds, whatever is in it. -/
theorem EncodesFields.pduParse {fields varBinds seq : List UInt8}
    {tag : UInt8} (hfields : EncodesFields pdu fields)
    (hcommand : pdu.command = PRIOT_MSG_TRAP ∨ pdu.command ∈ requestCommands)
    (htag : (tag.toNat : Int) = pdu.command) (htlv : IsTlv tag (fields ++ seq) bs)
    (hseq : IsTlv asnSEQUENCE_CONSTRUCTOR varBinds seq)
    (hmax : (fields ++ seq).length ≤ MAX_PACKET_LENGTH) (old : Pdu ParsedVar) (rest : Mem) :
    let r := Api.parseVarBinds varBinds.length (varBinds ++ₛ rest) varBinds.length 0
    Api.pduParse old (bs ++ₛ rest) bs.length = (r.1, linkVars (receivedHead old pdu) r.2) := by
  obtain ⟨hext, hnotOpq⟩ := commandTag htag hcommand
  have hmax' := hmax
  rw [MAX_PACKET_LENGTH, List.length_append] at hmax'
  have hslen := hseq.length_bounds
  have hheader := parseHeader_tlv rest htlv hext (fun h0 => absurd h0 hnotOpq) hmax (le_refl _)
  have hdrop := htlv.drop rest
  rw [Stream'.append_append_stream] at hdrop
  have hparse : ∀ start : Pdu ParsedVar, start.command = pdu.command →
      Api.parseFields ⟨start, fields ++ₛ (seq ++ₛ rest), (fields ++ seq).length⟩
        = .ok ⟨storeFields start pdu, seq ++ₛ rest, seq.length⟩ := by
    intro start hstart
    rw [hfields.parseFields hcommand hstart _ (by simp) (by rw [MAX_PACKET_LENGTH]; omega),
      List.length_append, Nat.add_sub_cancel_left]
  have hsequence := parseSequence_tlv hseq (by decide) (by decide) rest (le_refl _) (by omega)
  simp only [Api.pduParse, hheader, Option.getD_some, htag, hdrop, hparse, hsequence, hseq.drop rest]
  rcases Api.parseVarBinds varBinds.length (varBinds ++ₛ rest) varBinds.length 0 with ⟨rc, _ | ⟨vp, vars⟩⟩
  · rfl
  · rfl

theorem storeFields_vars (old : Pdu ParsedVar) (pdu : Pdu VariableList) : (storeFields old pdu).vars = old.vars := by
  rw [storeFields]
  split <;> rfl

theorem EncodesPdu.pduParse {content : List UInt8}
    (h : EncodesPdu pdu content bs) (hmax : content.length ≤ MAX_PACKET_LENGTH)
    {old : Pdu ParsedVar} (hold : old.vars = []) (rest : Mem) :
    pduParse old (bs ++ₛ rest) bs.length = (0, received old pdu) := by
  obtain ⟨tag, htag, htlv⟩ := h.tlv
  obtain ⟨fields, varBinds, seq, hfields, hvars, hseq, rfl⟩ := h.content_eq
  have hmax' := hmax
  rw [MAX_PACKET_LENGTH, List.length_append] at hmax'
  have hslen := hseq.length_bounds
  have hbinds := hvars.parseVarBinds rest (le_refl varBinds.length) (by
    rw [MAX_PACKET_LENGTH]
    omega)
  rw [hfields.pduParse h.command_mem htag htlv hseq hmax old rest, hbinds]
  refine congrArg (Prod.mk (0 : Int)) ?_
  unfold linkVars
  split
  · next hnil =>
    -- nothing has been linked in: `pdu->variables` is what it was
    rw [received, show pdu.vars.map ParsedVar.ofVar = [] from hnil]
    exact (Pdu.vars_eta (by rw [receivedHead, storeFields_vars]; exact hold)).symm
  · rfl

theorem pduParse_tooLong {tag : UInt8} {content : List UInt8} (h : IsTlv tag content bs)
    (hmax : MAX_PACKET_LENGTH < content.length) (old : Pdu ParsedVar) (rest : Mem) (length : Nat) :
    pduParse old (bs ++ₛ rest) length = (-1, old) := by
  rw [MAX_PACKET_LENGTH] at hmax
  have hnone : parseLengthAt (bs ++ₛ rest) 1 length = none := by
    obtain ⟨lo, hlo, rfl⟩ := h.split
    have hdrop : (tag :: (lo ++ content) ++ₛ rest).drop 1 = lo ++ₛ (content ++ₛ rest) :=
      Stream'.append_append_stream lo content rest
    have hcheck : parseLengthCheck (some (1 + lo.length)) content.length length = true := by
      simp only [parseLengthCheck, Bool.or_eq_true, decide_eq_true_eq]
      omega
    simp only [parseLengthAt, hdrop, hlo (content ++ₛ rest), hcheck, if_true]
  have hheader : (parseHeader (bs ++ₛ rest) length).result = none := by
    rw [parseHeader, hnone]
    split <;> rfl
  rw [pduParse, hheader]

end Priot.Api
