/-
# Round trip of the reverse encoder

What `Api_pduReallocRbuild` appends, `Api_pduParse` decodes to the PDU that was sent.
-/
import Priot.Api.Decode
import Priot.Api.RbuildSpec
import Priot.Asn01.RbuildValue

namespace Priot.Api

open Asn01 Octets

/-! ## what can be sent unchanged -/

/-- Object identifiers whose first two subidentifiers can be told apart again. -/
structure ObjidInRange (o : ObjId) : Prop where
  two_le : 2 ≤ o.length
  length_le : o.length ≤ 128
  first_le : ∀ x y rest, o = x :: y :: rest → x ≤ 2
  second_lt : ∀ x y rest, o = x :: y :: rest → x < 2 → y < 40
  sum_lt : ∀ x y rest, o = x :: y :: rest → x = 2 → 80 + y.toNat < 2 ^ 32

/-- Values in the range of their type. -/
def ValueInRange : VarValue → Prop
  | .integer v _ => -2 ^ 31 ≤ v ∧ v < 2 ^ 31
  | .unsigned _ v _ => v < 2 ^ 32
  | .unsigned64 _ _ _ _ => True
  | .string .ipaddress s => s.length = 4
  | .string .opaqueStr s => ∃ b os, s = b :: os ∧ b ≠ asnOPAQUE_TAG1
  | .string .octetStr _ | .string .nsap _ => True
  | .objectId o => ObjidInRange o
  | .null _ => True
  | .bitString s => s ≠ []
  | .float _ _ | .double _ _ | .signed64 _ _ _ => True
  | .unknown _ => True

/-- PDUs with a command `Api_pduParse` knows and all fields in the range of their types. -/
structure InRange (pdu : Pdu VariableList) : Prop where
  command_mem : pdu.command = PRIOT_MSG_TRAP ∨ pdu.command ∈ requestCommands
  request : pdu.command ≠ PRIOT_MSG_TRAP →
    (-2 ^ 31 ≤ pdu.reqid ∧ pdu.reqid < 2 ^ 31) ∧ (-2 ^ 31 ≤ pdu.errstat ∧ pdu.errstat < 2 ^ 31) ∧
      (-2 ^ 31 ≤ pdu.errindex ∧ pdu.errindex < 2 ^ 31)
  trap : pdu.command = PRIOT_MSG_TRAP →
    (-2 ^ 31 ≤ pdu.trapType ∧ pdu.trapType < 2 ^ 31) ∧
      (-2 ^ 31 ≤ pdu.specificType ∧ pdu.specificType < 2 ^ 31) ∧ pdu.time < 2 ^ 32 ∧
      ObjidInRange pdu.enterprise ∧ pdu.enterpriseLength = pdu.enterprise.length
  names : ∀ vp ∈ pdu.vars, ObjidInRange vp.name
  values : ∀ vp ∈ pdu.vars, ValueInRange vp.value

/-! ## from the octets written to an encoding -/

theorem isTlv_of_length {type : UInt8} {content : List UInt8}
    (h : (tlv type content).length ≤ MAX_PACKET_LENGTH) : IsTlv type content (tlv type content) := by
  have hge := tlv_length_ge type content
  rw [MAX_PACKET_LENGTH] at h
  exact isTlv_tlv (by omega)

/-- The subidentifiers that are encoded for a name. -/
def sentSubids : ObjId → List Oid
  | [] => [0, 0]
  | [x] => [x]
  | x :: y :: rest => (x * 40 + y) :: rest

/-- What a name comes back as. -/
def sentObjid (o : ObjId) : ObjId := objidOfSubids (sentSubids o)

theorem sentObjid_of_range {o : ObjId} (h : ObjidInRange o) : sentObjid o = o := by
  match o, h.two_le with
  | x :: y :: rest, _ =>
    rw [sentObjid, sentSubids, objidOfSubids, splitFirst_combine (h.first_le x y rest rfl)
      (h.second_lt x y rest rfl) (h.sum_lt x y rest rfl)]

theorem isNumeral_singleton {b : UInt8} (h : b.toNat < 128) : Base128.IsNumeral [b] b.toNat where
  split := ⟨[], b, rfl, by simp, h⟩
  value_eq := by
    rw [Base128.value_singleton]
    omega

theorem subidsContent_objidContent {o : ObjId} {c : List UInt8} (h : objidContent o = some c) :
    SubidsContent (sentSubids o) c := by
  match o, h with
  | [], h =>
    rw [objidContent, Option.some.injEq] at h
    subst h
    have hzero : Base128.IsNumeral [0] (0 : Oid).toNat := isNumeral_singleton (by decide)
    exact .cons hzero (.cons hzero .nil)
  | [x], h =>
    simp only [objidContent, Option.ite_none_left_eq_some, Option.some.injEq] at h
    obtain ⟨hx, rfl⟩ := h
    have hx' : x.toNat ≤ 2 := by
      rw [gt_iff_lt, UInt32.lt_iff_toNat_lt] at hx
      have htwo : (2 : UInt32).toNat = 2 := rfl
      omega
    have hval : (UInt8.ofNat (x.toNat % 256)).toNat = x.toNat := by
      rw [Octets.toNat_ofNat_of_lt (by omega)]
      omega
    have hnum := isNumeral_singleton (b := UInt8.ofNat (x.toNat % 256)) (by omega)
    rw [hval] at hnum
    exact .cons hnum .nil
  | x :: y :: rest, h =>
    simp only [objidContent, Option.ite_none_left_eq_some, Option.some.injEq] at h
    obtain ⟨-, rfl⟩ := h
    exact subidsContent_subidOctets _

theorem sentSubids_length {o : ObjId} (h : o.length ≤ 128) : (sentSubids o).length ≤ 127 := by
  match o with
  | [] => simp [sentSubids]
  | [x] => simp [sentSubids]
  | x :: y :: rest =>
    simp only [sentSubids, List.length_cons] at h ⊢
    omega

theorem encodesObjid_objidContent {o : ObjId} (ho : o.length ≤ 128) {c : List UInt8}
    (h : objidContent o = some c) (hmax : (tlv asnOBJECT_ID c).length ≤ MAX_PACKET_LENGTH) :
    EncodesObjid (sentObjid o) (tlv asnOBJECT_ID c) :=
  ⟨_, _, isTlv_of_length hmax, subidsContent_objidContent h, sentSubids_length ho, rfl⟩

/-- What a value comes back as. -/
def sentValue : VarValue → VarValue
  | .integer v _ => .integer (checkOverflowSigned (checkOverflowSigned v)) 8
  | .unsigned t v _ => .unsigned t (checkOverflowUnsigned v) 8
  | .unsigned64 t high low _ => .unsigned64 t high low 8
  | .objectId o => .objectId (sentObjid o)
  | .float bits _ => .float bits 4
  | .double bits _ => .double bits 8
  | .signed64 high low _ => .signed64 high low 8
  | v => v

/-- Values the decoder accepts from whoever encodes them. -/
def ValueAccepted : VarValue → Prop
  | .string .ipaddress s => s.length = 4
  | .string .opaqueStr s => ∃ b os, s = b :: os ∧ b ≠ asnOPAQUE_TAG1
  | .objectId o => o.length ≤ 128
  | .bitString s => s ≠ []
  | _ => True

variable {bs : List UInt8}

theorem encodes_valueOctets {v : VarValue} (hv : ValueAccepted v)
    (h : valueOctets v = some bs) (hmax : bs.length ≤ MAX_PACKET_LENGTH) : Encodes (sentValue v) bs := by
  cases v with
  | integer v size =>
    obtain ⟨rfl, rfl⟩ := of_sized h
    have hlen := intContent_length_le v
    have henc := Encodes.integer (isTlv_of_length hmax) (Octets.writeSigned_ne_nil _ _ _) (by omega)
    rwa [signed_intContent] at henc
  | unsigned t v size =>
    obtain ⟨rfl, rfl⟩ := of_sized h
    have hlt := checkOverflowUnsigned_lt v
    obtain ⟨hu, hs, hval⟩ := unsignedContent hlt
    have henc := Encodes.unsigned (isTlv_of_length hmax) hu hs (by omega)
    rwa [hval, checkOverflowUnsigned_idem] at henc
  | unsigned64 t high low size =>
    obtain ⟨rfl, rfl⟩ := of_sized h
    cases t with
    | counter64 => exact .counter64 (isTlv_of_length hmax) (wordsContent_unsigned64 high low)
    | opaqueCounter64 =>
      exact .opaque64 (by decide) (isTlv_of_length hmax) (wordsContent_unsigned64 high low)
    | opaqueU64 =>
      exact .opaque64 (by decide) (isTlv_of_length hmax) (wordsContent_unsigned64 high low)
  | string t s =>
    simp only [valueOctets, Option.some.injEq] at h
    subst h
    refine .string (isTlv_of_length hmax) (fun ht => ?_) (fun ht => ?_)
    · subst ht
      exact hv
    · subst ht
      exact hv
  | objectId o =>
    simp only [valueOctets, Option.map_eq_some_iff] at h
    obtain ⟨c, hc, rfl⟩ := h
    exact .objectId (isTlv_of_length hmax) (subidsContent_objidContent hc) (sentSubids_length hv)
  | null t =>
    simp only [valueOctets, Option.some.injEq] at h
    subst h
    exact .null (isTlv_of_length hmax)
  | bitString s =>
    simp only [valueOctets, Option.some.injEq] at h
    subst h
    exact .bitString (isTlv_of_length hmax) hv
  | float bits size =>
    obtain ⟨rfl, rfl⟩ := of_sized h
    have henc := Encodes.float (isTlv_of_length hmax) (wordOctets_length 4 _)
    rwa [wordOctets_value bits.toNat_lt, UInt32.ofNat_toNat] at henc
  | double bits size =>
    obtain ⟨rfl, rfl⟩ := of_sized h
    have henc := Encodes.double (isTlv_of_length hmax) (wordOctets_length 8 _)
    rwa [wordOctets_value bits.toNat_lt, UInt64.ofNat_toNat] at henc
  | signed64 high low size =>
    obtain ⟨rfl, rfl⟩ := of_sized h
    exact .signed64 (isTlv_of_length hmax) (wordsContent_signed64 high low)
  | unknown t => contradiction

theorem sentValue_of_range {v : VarValue} (hv : ValueInRange v) (h : valueOctets v = some bs) : sentValue v = v := by
  cases v with
  | integer v size =>
    rw [sentValue, checkOverflowSigned_of_range hv.1 hv.2, checkOverflowSigned_of_range hv.1 hv.2, (of_sized h).1]
  | unsigned t v size =>
    rw [sentValue, checkOverflowUnsigned_of_range hv, (of_sized h).1]
  | unsigned64 t high low size | float bits size | double bits size | signed64 high low size =>
    simp only [valueOctets, Option.ite_none_right_eq_some] at h
    rw [sentValue, h.1]
  | objectId o => rw [sentValue, sentObjid_of_range hv]
  | string t s | null t | bitString s | unknown t => rfl

theorem ValueInRange.accepted {v : VarValue} (hv : ValueInRange v) : ValueAccepted v := by
  cases v with
  | string t s => cases t <;> exact hv
  | objectId o => exact hv.length_le
  | bitString s => exact hv
  | integer v size | unsigned t v size | unsigned64 t high low size | null t | float bits size
  | double bits size | signed64 high low size | unknown t => trivial

/-! ## varbinds and PDUs -/

def sentVar (vp : VariableList) : VariableList := ⟨sentObjid vp.name, sentValue vp.value⟩

/-- What a PDU comes back as. -/
def sentPdu (pdu : Pdu VariableList) : Pdu VariableList :=
  { pdu with
    command := pdu.command % 256
    reqid := checkOverflowSigned (checkOverflowSigned pdu.reqid)
    errstat := checkOverflowSigned (checkOverflowSigned pdu.errstat)
    errindex := checkOverflowSigned (checkOverflowSigned pdu.errindex)
    enterprise := sentObjid (pdu.enterprise.take pdu.enterpriseLength)
    enterpriseLength := (sentObjid (pdu.enterprise.take pdu.enterpriseLength)).length
    trapType := checkOverflowSigned (checkOverflowSigned pdu.trapType)
    specificType := checkOverflowSigned (checkOverflowSigned pdu.specificType)
    time := checkOverflowUnsigned pdu.time
    vars := pdu.vars.map sentVar }

/-- PDUs the decoder accepts from whoever encodes them: the command octet is known and belongs to
the fields that are sent, and every part is accepted. -/
structure PduAccepted (pdu : Pdu VariableList) : Prop where
  command_mem : pdu.command % 256 = PRIOT_MSG_TRAP ∨ pdu.command % 256 ∈ requestCommands
  trap_iff : pdu.command % 256 = PRIOT_MSG_TRAP → pdu.command = PRIOT_MSG_TRAP
  enterprise_le : pdu.command = PRIOT_MSG_TRAP → pdu.enterpriseLength ≤ 128
  names_le : ∀ vp ∈ pdu.vars, vp.name.length ≤ 128
  values : ∀ vp ∈ pdu.vars, ValueAccepted vp.value

theorem commandOctet_toNat (command : Int) : ((commandOctet command).toNat : Int) = command % 256 :=
  Octets.lowOctet_toNat command

theorem encodesInt_intOctets (v : Int) : EncodesInt (checkOverflowSigned (checkOverflowSigned v)) (intOctets v) := by
  have hlen := intContent_length_le v
  refine ⟨_, isTlv_tlv (by omega), Octets.writeSigned_ne_nil _ _ _, by omega, ?_⟩
  rw [signed_intContent]

theorem encodesUnsigned_tlv (t : UnsignedType) (v : Nat) :
    EncodesUnsigned t (checkOverflowUnsigned v) (tlv t.tag (writeSigned 0 8 (checkOverflowUnsigned v))) := by
  have hlt := checkOverflowUnsigned_lt v
  obtain ⟨hu, hs, hval⟩ := unsignedContent hlt
  have hlen := hu.length_le
  refine ⟨_, isTlv_tlv (by omega), hu, hs, by omega, ?_⟩
  rw [hval, checkOverflowUnsigned_idem]

theorem encodesVarBind_varOpOctets {vp : VariableList} (hname : vp.name.length ≤ 128)
    (hvalue : ValueAccepted vp.value) (h : varOpOctets vp = some bs)
    (hmax : bs.length ≤ MAX_PACKET_LENGTH) : EncodesVarBind (sentVar vp) bs := by
  obtain ⟨value, hv, name, hn, rfl⟩ := varOpOctets_eq_some h
  have hge := tlv_length_ge asnSEQUENCE_CONSTRUCTOR (tlv asnOBJECT_ID name ++ value)
  rw [List.length_append] at hge
  exact ⟨_, _, encodesObjid_objidContent hname hn (by omega), encodes_valueOctets hvalue hv (by omega),
    isTlv_of_length hmax⟩

theorem encodesVarBinds_varBindsOctets {vars : List VariableList}
    (hnames : ∀ vp ∈ vars, vp.name.length ≤ 128) (hvalues : ∀ vp ∈ vars, ValueAccepted vp.value) (h : varBindsOctets vars = some bs) (hmax : bs.length ≤ MAX_PACKET_LENGTH) :
    EncodesVarBinds (vars.map sentVar) bs := by
  induction vars generalizing bs with
  | nil =>
    rw [varBindsOctets, Option.some.injEq] at h
    subst h
    exact .nil
  | cons vp rest ih =>
    obtain ⟨octets, hv, others, hr, rfl⟩ := varBindsOctets_cons_eq_some h
    rw [List.length_append] at hmax
    exact .cons
      (encodesVarBind_varOpOctets (hnames vp (by simp)) (hvalues vp (by simp)) hv (by omega))
      (ih (fun v hm => hnames v (by simp [hm])) (fun v hm => hvalues v (by simp [hm])) hr (by omega))

variable {pdu : Pdu VariableList}

theorem encodesFields_fieldOctets
    (henterprise : pdu.command = PRIOT_MSG_TRAP →
      (pdu.enterprise.take pdu.enterpriseLength).length ≤ 128)
    (h : fieldOctets pdu = some bs) (hmax : bs.length ≤ MAX_PACKET_LENGTH) :
    EncodesFields { sentPdu pdu with command := pdu.command } bs := by
  rw [fieldOctets] at h
  split at h
  · next hc =>
    rw [Option.some.injEq] at h
    subst h
    rw [EncodesFields, if_neg hc]
    exact ⟨_, _, _, encodesInt_intOctets _, encodesInt_intOctets _, encodesInt_intOctets _,
      List.append_assoc ..⟩
  · next hc =>
    rw [ne_eq, not_not] at hc
    simp only [Option.bind_eq_bind, Option.bind_eq_some_iff, Option.pure_def,
      Option.some.injEq] at h
    obtain ⟨enterprise, he, rfl⟩ := h
    have haddr : pdu.agentAddr.toList.length = 4 := Vector.length_toList ..
    simp only [List.length_append] at hmax
    rw [EncodesFields, if_pos hc]
    refine ⟨_, _, _, _, _, encodesObjid_objidContent (henterprise hc) he (by omega),
      isTlv_tlv (by rw [Vector.length_toList]; omega), encodesInt_intOctets _, encodesInt_intOctets _,
      encodesUnsigned_tlv .timeticks _, ?_⟩
    simp only [List.append_assoc]
    rfl

theorem encodesPdu_pduContent (hp : PduAccepted pdu) {content : List UInt8}
    (h : pduContent pdu = some content) (hmax : content.length ≤ MAX_PACKET_LENGTH) :
    EncodesPdu (sentPdu pdu) content (tlv (commandOctet pdu.command) content) := by
  obtain ⟨varBinds, hv, fields, hf, rfl⟩ := pduContent_eq_some h
  have hmax' := hmax
  rw [MAX_PACKET_LENGTH] at hmax'
  have hge := tlv_length_ge asnSEQUENCE_CONSTRUCTOR varBinds
  rw [List.length_append] at hmax hmax'
  have hfields := encodesFields_fieldOctets (fun hc => by
    rw [List.length_take]
    exact (Nat.min_le_left _ _).trans (hp.enterprise_le hc)) hf (by omega)
  have hiff : (sentPdu pdu).command = PRIOT_MSG_TRAP ↔ pdu.command = PRIOT_MSG_TRAP :=
    ⟨hp.trap_iff, fun hc => by rw [sentPdu, hc]; rfl⟩
  refine ⟨hp.command_mem, ⟨_, commandOctet_toNat _, isTlv_tlv (by rw [List.length_append]; omega)⟩,
    _, _, _, hfields.of_command hiff,
    encodesVarBinds_varBindsOctets hp.names_le hp.values hv (by omega),
    isTlv_of_length (by omega), rfl⟩

/-! ## the round trip -/

theorem command_emod {command : Int} (h : command = PRIOT_MSG_TRAP ∨ command ∈ requestCommands) :
    command % 256 = command := by
  simp only [requestCommands, List.mem_cons, List.not_mem_nil, or_false, PRIOT_MSG_TRAP,
    PRIOT_MSG_RESPONSE, PRIOT_MSG_REPORT, PRIOT_MSG_GET, PRIOT_MSG_GETNEXT, PRIOT_MSG_GETBULK,
    PRIOT_MSG_SET, PRIOT_MSG_TRAP2, PRIOT_MSG_INFORM] at h
  omega

theorem InRange.pduAccepted (h : InRange pdu) : PduAccepted pdu where
  command_mem := by
    rw [command_emod h.command_mem]
    exact h.command_mem
  trap_iff := by
    rw [command_emod h.command_mem]
    exact id
  enterprise_le := fun hc => by
    obtain ⟨-, -, -, ho, hlen⟩ := h.trap hc
    rw [hlen]
    exact ho.length_le
  names_le := fun vp hm => (h.names vp hm).length_le
  values := fun vp hm => (h.values vp hm).accepted

theorem sentVar_of_range {vars : List VariableList} (hnames : ∀ vp ∈ vars, ObjidInRange vp.name)
    (hvalues : ∀ vp ∈ vars, ValueInRange vp.value) (h : varBindsOctets vars = some bs) : vars.map sentVar = vars := by
  induction vars generalizing bs with
  | nil => rfl
  | cons vp rest ih =>
    obtain ⟨octets, hv, others, hr, rfl⟩ := varBindsOctets_cons_eq_some h
    obtain ⟨value, hval, -⟩ := varOpOctets_eq_some hv
    have hone : sentVar vp = vp := by
      rw [sentVar, sentObjid_of_range (hnames vp (by simp)),
        sentValue_of_range (hvalues vp (by simp)) hval]
    rw [List.map_cons, hone,
      ih (fun v hm => hnames v (by simp [hm])) (fun v hm => hvalues v (by simp [hm])) hr]

theorem received_sentPdu (h : InRange pdu) {content : List UInt8}
    (hc : pduContent pdu = some content) (old : Pdu ParsedVar) : received old (sentPdu pdu) = received old pdu := by
  obtain ⟨varBinds, hv, -⟩ := pduContent_eq_some hc
  have hcommand := command_emod h.command_mem
  have hvars := sentVar_of_range h.names h.values hv
  by_cases htrap : pdu.command = PRIOT_MSG_TRAP
  · obtain ⟨ht, hs, htime, ho, hlen⟩ := h.trap htrap
    have hint : ∀ {v : Int}, -2 ^ 31 ≤ v ∧ v < 2 ^ 31 →
        checkOverflowSigned (checkOverflowSigned v) = v := fun hr => by
      rw [checkOverflowSigned_of_range hr.1 hr.2, checkOverflowSigned_of_range hr.1 hr.2]
    simp only [received, storeFields, sentPdu, hcommand, if_pos htrap, hvars, hlen, List.take_length,
      sentObjid_of_range ho, hint ht, hint hs, checkOverflowUnsigned_of_range htime]
  · obtain ⟨hr, hs, hi⟩ := h.request htrap
    have hint : ∀ {v : Int}, -2 ^ 31 ≤ v ∧ v < 2 ^ 31 →
        checkOverflowSigned (checkOverflowSigned v) = v := fun hr => by
      rw [checkOverflowSigned_of_range hr.1 hr.2, checkOverflowSigned_of_range hr.1 hr.2]
    simp only [received, storeFields, sentPdu, hcommand, if_neg htrap, hvars, hint hr, hint hs,
      hint hi]

/-- What a successful build has appended is decoded to the PDU that was given, if its length is one
the decoder lets through and the header of the varbind list has been written. -/
theorem pduParse_pduReallocRbuild {pdu : Pdu VariableList} (hpdu : InRange pdu) {s s' : RBuf}
    (hs : s.offset ≤ s.pkt.length) (hbuild : (pduReallocRbuild pdu).exec s = (.ok (), s'))
    (hheader : VarBindHeaderWritten pdu s) :
    ∃ content, s'.out = tlv (commandOctet pdu.command) content ++ s.out ∧
      (content.length ≤ MAX_PACKET_LENGTH → ∀ (old : Pdu ParsedVar) (rest : Mem), old.vars = [] →
        pduParse old (tlv (commandOctet pdu.command) content ++ₛ rest)
          (tlv (commandOctet pdu.command) content).length = (0, received old pdu)) := by
  obtain ⟨content, hcontent, hout⟩ := pduReallocRbuild_ok hs hbuild hheader
  refine ⟨content, hout, fun hmax old rest hold => ?_⟩
  rw [← received_sentPdu hpdu hcontent]
  exact (encodesPdu_pduContent hpdu.pduAccepted hcontent hmax).pduParse hmax hold rest

/-- A PDU with one varbind, for the runs on fixed inputs. -/
def samplePdu (command : Int) (vars : List VariableList) : Pdu VariableList where
  command := command
  flags := 0
  reqid := 7
  errstat := 0
  errindex := 0
  enterprise := [1, 3, 6]
  enterpriseLength := 3
  agentAddr := Vector.replicate 4 0
  trapType := 0
  specificType := 0
  time := 0
  vars := vars

/-- An empty buffer, with the answers the allocator will give. -/
def emptyBuf (alloc : Stream' Bool) : RBuf := ⟨[], 0, true, alloc⟩

theorem emptyBuf_room (alloc : Stream' Bool) : (emptyBuf alloc).Room 0 := Nat.le_refl 0

theorem emptyBuf_granted : (emptyBuf (Stream'.const true)).Granted := ⟨rfl, fun _ => rfl⟩

theorem emptyBuf_out (alloc : Stream' Bool) : (emptyBuf alloc).out = [] := rfl

theorem objidInRange_of_decide {x y : Oid} {rest : List Oid} (hlen : rest.length ≤ 126)
    (hx : x < 2) (hy : y < 40) : ObjidInRange (x :: y :: rest) where
  two_le := by simp
  length_le := by
    simp only [List.length_cons]
    omega
  first_le := by
    rintro _ _ _ ⟨⟩
    exact UInt32.le_of_lt hx
  second_lt := by
    rintro _ _ _ ⟨⟩ _
    exact hy
  sum_lt := by
    rintro _ _ _ ⟨⟩ h2
    rw [h2] at hx
    exact absurd hx (by decide)

theorem samplePdu_inRange {vars : List VariableList} (hnames : ∀ vp ∈ vars, ObjidInRange vp.name)
    (hvalues : ∀ vp ∈ vars, ValueInRange vp.value) : InRange (samplePdu PRIOT_MSG_GET vars) where
  command_mem := Or.inr (show PRIOT_MSG_GET ∈ requestCommands by decide)
  request := fun _ => by
    simp only [samplePdu]
    norm_num
  trap := fun h => absurd h (show PRIOT_MSG_GET ≠ PRIOT_MSG_TRAP by decide)
  names := hnames
  values := hvalues

/-- A GET with one varbind comes back. -/
theorem pduParse_pduReallocRbuild_get :
    let pdu := samplePdu PRIOT_MSG_GET [⟨[1, 3, 6, 1], .integer (-129) 8⟩]
    ∃ s', (pduReallocRbuild pdu).exec (emptyBuf (Stream'.const true)) = (.ok (), s') ∧
      ∃ content, s'.out = tlv 0xa0 content ∧ ∀ rest : Mem,
        pduParse freshPdu (tlv 0xa0 content ++ₛ rest) (tlv 0xa0 content).length
          = (0, received freshPdu pdu) := by
  intro pdu
  have hrange : InRange pdu := samplePdu_inRange
    (by simpa using objidInRange_of_decide (by decide) (by decide) (by decide))
    (by simp [ValueInRange])
  have hroom := emptyBuf_room (Stream'.const true)
  have hcontent : pduContent pdu = some [2, 1, 7, 2, 1, 0, 2, 1, 0, 48, 11, 48, 9, 6, 3, 43, 6, 1, 2, 2,
      255, 127] := by decide +kernel
  obtain ⟨s', hs', hout₀⟩ := pduReallocRbuild_granted hroom emptyBuf_granted hcontent
  obtain ⟨content, hout, hparse⟩ := pduParse_pduReallocRbuild hrange hroom hs'
    (varBindHeaderWritten_of_granted hroom emptyBuf_granted)
  have hlen : content.length ≤ MAX_PACKET_LENGTH := by
    have hge := tlv_length_ge (commandOctet pdu.command) content
    rw [emptyBuf_out, List.append_nil] at hout hout₀
    rw [← hout, hout₀] at hge
    exact le_trans ((Nat.le_add_right ..).trans hge) (by decide +kernel)
  rw [emptyBuf_out, List.append_nil] at hout
  exact ⟨s', hs', content, hout, fun rest => hparse hlen freshPdu rest rfl⟩

/-- A GET whose only value is an `OCTET STRING` of `n` octets. -/
def stringPdu (n : Nat) : Pdu VariableList :=
  samplePdu PRIOT_MSG_GET [⟨[1, 3, 6, 1], .string .octetStr (List.replicate n 0)⟩]

theorem stringPdu_inRange (n : Nat) : InRange (stringPdu n) := by
  have hname : ObjidInRange [1, 3, 6, 1] :=
    objidInRange_of_decide (by decide) (by decide) (by decide)
  exact samplePdu_inRange (by simpa using hname) (by simp [ValueInRange])

theorem pduContent_stringPdu (n : Nat) : ∃ content, pduContent (stringPdu n) = some content ∧ n ≤ content.length ∧
      content.length ≤ n + 100 := by
  have hname : objidContent [1, 3, 6, 1] = some [43, 6, 1] := by decide +kernel
  let fields := intOctets 7 ++ intOctets 0 ++ intOctets 0
  have hfields : fields.length = 9 := by decide +kernel
  obtain ⟨value, hv⟩ : ∃ v, v = tlv asnOCTET_STR (List.replicate n 0) := ⟨_, rfl⟩
  obtain ⟨varBind, hvb⟩ : ∃ v, v = tlv asnSEQUENCE_CONSTRUCTOR (tlv asnOBJECT_ID [43, 6, 1] ++ value) :=
    ⟨_, rfl⟩
  have hcontent : pduContent (stringPdu n)
      = some (fields ++ tlv asnSEQUENCE_CONSTRUCTOR (varBind ++ [])) := by
    simp only [pduContent, stringPdu, samplePdu, varBindsOctets, varOpOctets, valueOctets, hname,
      Option.bind_eq_bind, Option.bind_some, Option.pure_def, hvb, hv]
    rfl
  have hvalue := tlv_length_le asnOCTET_STR (List.replicate n 0)
  have hvalue' := tlv_length_ge asnOCTET_STR (List.replicate n 0)
  have hone := tlv_length_le asnSEQUENCE_CONSTRUCTOR (tlv asnOBJECT_ID [43, 6, 1] ++ value)
  have hone' := tlv_length_ge asnSEQUENCE_CONSTRUCTOR (tlv asnOBJECT_ID [43, 6, 1] ++ value)
  have hoid : (tlv asnOBJECT_ID [43, 6, 1]).length = 5 := by decide +kernel
  have hall := tlv_length_le asnSEQUENCE_CONSTRUCTOR (varBind ++ [])
  have hall' := tlv_length_ge asnSEQUENCE_CONSTRUCTOR (varBind ++ [])
  rw [← hv, List.length_replicate] at hvalue hvalue'
  rw [← hvb, List.length_append, hoid] at hone hone'
  rw [List.append_nil] at hall hall' hcontent
  refine ⟨_, hcontent, ?_, ?_⟩ <;> rw [List.length_append, hfields] <;> omega

/-- Of the PDUs in range, one of more than 2^31 - 1 octets is built and then refused; one is built
without the header of its varbind list when the memory for that, and only for that, is refused; and a
generic trap number of 33 bits is built and comes back as zero. -/
theorem pduParse_pduReallocRbuild_not_all :
    (∃ s', (pduReallocRbuild (stringPdu (2 ^ 31))).exec (emptyBuf (Stream'.const true)) = (.ok (), s') ∧
      InRange (stringPdu (2 ^ 31)) ∧
      ∀ rest, (pduParse freshPdu (s'.out ++ₛ rest) s'.out.length).1 = -1) ∧
    (let pdu := samplePdu PRIOT_MSG_GET []
     let run := (pduReallocRbuild pdu).exec (emptyBuf (Stream'.cons false (Stream'.const true)))
     InRange pdu ∧ run.1 = .ok () ∧
      (pduParse freshPdu (run.2.out ++ₛ Stream'.const 0) run.2.out.length).1 = -1) ∧
    (let pdu := { samplePdu PRIOT_MSG_TRAP [] with trapType := 2 ^ 32 }
     let run := (pduReallocRbuild pdu).exec (emptyBuf (Stream'.const true))
     let parsed := pduParse freshPdu (run.2.out ++ₛ Stream'.const 0) run.2.out.length
     run.1 = .ok () ∧ parsed.1 = 0 ∧ parsed.2.trapType = 0) := by
  refine ⟨?_, ⟨samplePdu_inRange (by simp) (by simp), by decide +kernel, by decide +kernel⟩,
    by decide +kernel, by decide +kernel, by decide +kernel⟩
  obtain ⟨content, hcontent, hge, hle⟩ := pduContent_stringPdu (2 ^ 31)
  have hmax : MAX_PACKET_LENGTH < content.length := by
    rw [MAX_PACKET_LENGTH]
    omega
  obtain ⟨s', hs', hout⟩ :=
    pduReallocRbuild_granted (emptyBuf_room _) emptyBuf_granted hcontent
  rw [emptyBuf_out, List.append_nil] at hout
  refine ⟨s', hs', stringPdu_inRange _, fun rest => ?_⟩
  rw [hout, pduParse_tooLong (isTlv_tlv (by omega)) hmax]

end Priot.Api
