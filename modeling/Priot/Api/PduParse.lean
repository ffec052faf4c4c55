/-
# `Priot_parseVarOp`, `Api_pduParse`

A PDU is decoded in one pass. A failing call returns `-1` and leaves the PDU as far as it got, so every step carries
the PDU. Allocation succeeds; what `malloc` returns is uninitialised, which `ParsedVar` makes visible.
-/
import Priot.Asn01.Parse

namespace Priot.Api

open Asn01

/-! ## one varbind (`Priot.c`) -/

/-- A varbind split into its parts: the name, the length of the value, the octets before the value
and before the next varbind, and the new `*listlength`. -/
structure VarOp where
  name : ObjId
  valLength : Nat
  varVal : Nat
  used : Nat
  listlength : Nat
  deriving DecidableEq

/-- What `Priot_parseVarOp` leaves: `*var_name_len`, `*var_val_type` when stored, the result. -/
structure VarOpOut where
  nameLength : Nat
  type : Option UInt8
  result : Option VarOp
  deriving DecidableEq

def parseVarOp (data : Mem) (listlength : Nat) : VarOpOut :=
  match parseSequence data listlength asnSEQUENCE_CONSTRUCTOR with
  | none => ⟨TYPES_MAX_OID_LEN, none, none⟩
  | some (varOpLen, start) =>
    let (out, nameLength) := parseObjid (data.drop start) varOpLen TYPES_MAX_OID_LEN
    match out.result with
    | none => ⟨nameLength, none, none⟩
    | some name =>
      let varVal := start + name.used
      let header := parseHeader (data.drop varVal) name.datalength
      match header.result with
      | none => ⟨nameLength, header.type, none⟩
      | some (valLength, k) =>
        let used := varVal + k + valLength
        ⟨nameLength, header.type, some ⟨name.value, valLength, varVal, used, listlength - used⟩⟩

/-! ## one value -/

/-- `vp->type`, `vp->valueLength` and `vp->value` after the switch over the type; `failed` stands
for `return -1`. -/
structure ValueOut where
  type : UInt8
  valueLength : Nat
  value : Option VarValue
  failed : Bool
  deriving DecidableEq

def ValueOut.ofParse {α : Type} (out : ParseOut α) (valueLength : Nat) (value : UInt8 → α → VarValue) :
    ValueOut :=
  match out.result with
  | none => ⟨out.type, valueLength, none, true⟩
  | some r => ⟨out.type, valueLength, some (value out.type r.value), false⟩

/-- The case labels for the unsigned 32-bit types. -/
def unsignedTypeOf (t : UInt8) : UnsignedType :=
  if t = asnCOUNTER then .counter else if t = asnGAUGE then .gauge
  else if t = asnTIMETICKS then .timeticks else .uinteger

/-- The types a 64-bit value can have once decoded. -/
def unsigned64TypeOf (t : UInt8) : Unsigned64Type :=
  if t = asnOPAQUE_COUNTER64 then .opaqueCounter64 else if t = asnOPAQUE_U64 then .opaqueU64
  else .counter64

/-- The case labels for the string types. -/
def stringTypeOf (t : UInt8) : StringType :=
  if t = asnIPADDRESS then .ipaddress else if t = asnOPAQUE then .opaqueStr
  else if t = asnNSAP then .nsap else .octetStr

/-- The case labels for the types without a value. -/
def nullTypeOf (t : UInt8) : NullType :=
  if t = PRIOT_NOSUCHOBJECT then .noSuchObject else if t = PRIOT_NOSUCHINSTANCE then .noSuchInstance
  else if t = PRIOT_ENDOFMIBVIEW then .endOfMibView else .null

/-- The string cases, which read `vp->valueLength` as the size of the block they copy to. -/
def parseStringValue (type : UInt8) (valueLength : Nat) (varVal : Mem) : ValueOut :=
  let out := parseString varVal MAX_PACKET_LENGTH valueLength
  ValueOut.ofParse out ((out.result.map (·.value.length)).getD valueLength)
    fun _ s => .string (stringTypeOf type) s

/-- The switch of `Api_pduParse` over `vp->type`. `len`, the bound given to the value decoders, is
`MAX_PACKET_LENGTH`, not what is left of the message. -/
def parseVarValue (type : UInt8) (valueLength : Nat) (varVal : Mem) : ValueOut :=
  let len := MAX_PACKET_LENGTH
  if type = asnINTEGER then
    ValueOut.ofParse (parseInt varVal len) 8 fun _ v => .integer v 8
  else if type = asnCOUNTER ∨ type = asnGAUGE ∨ type = asnTIMETICKS ∨ type = asnUINTEGER then
    ValueOut.ofParse (parseUnsignedInt varVal len) 8 fun t v => .unsigned (unsignedTypeOf t) v 8
  else if type = asnOPAQUE_COUNTER64 ∨ type = asnOPAQUE_U64 ∨ type = asnCOUNTER64 then
    ValueOut.ofParse (parseUnsignedInt64 varVal len) 8 fun t v =>
      .unsigned64 (unsigned64TypeOf t) v.1 v.2 8
  else if type = asnOPAQUE_FLOAT then
    ValueOut.ofParse (parseFloat varVal len) 4 fun _ v => .float v 4
  else if type = asnOPAQUE_DOUBLE then
    ValueOut.ofParse (parseDouble varVal len) 8 fun _ v => .double v 8
  else if type = asnOPAQUE_I64 then
    ValueOut.ofParse (parseSignedInt64 varVal len) 8 fun _ v => .signed64 v.1 v.2 8
  else if type = asnIPADDRESS then
    if valueLength ≠ 4 then ⟨type, valueLength, none, true⟩
    else parseStringValue type valueLength varVal
  else if type = asnOCTET_STR ∨ type = asnOPAQUE ∨ type = asnNSAP then
    parseStringValue type valueLength varVal
  else if type = asnOBJECT_ID then
    let (out, valueLength) := parseObjid varVal len TYPES_MAX_OID_LEN
    ValueOut.ofParse out (if out.result.isSome then 4 * valueLength else valueLength)
      fun _ v => .objectId v
  else if type = PRIOT_NOSUCHOBJECT ∨ type = PRIOT_NOSUCHINSTANCE ∨ type = PRIOT_ENDOFMIBVIEW ∨
      type = asnNULL then
    ⟨type, valueLength, some (.null (nullTypeOf type)), false⟩
  else if type = asnBIT_STR then
    let out := parseBitstring varVal len valueLength
    ValueOut.ofParse out ((out.result.map (·.value.length)).getD valueLength) fun _ s => .bitString s
  else if h : type ∉ varTypes then ⟨type, valueLength, some (.unknown ⟨type, h⟩), false⟩
  else ⟨type, valueLength, none, false⟩

/-! ## the varbind list -/

/-- One round of the loop over the varbinds: the varbind as it is left, and unless the call fails
here the octets it took and the new `*length`. -/
def parseVarBind (data : Mem) (length : Nat) : ParsedVar × Option (Nat × Nat) :=
  let op := parseVarOp data length
  match op.result with
  | none => (⟨none, op.nameLength, op.type, none, none⟩, none)
  | some r =>
    -- the type is stored whenever the header of the value is accepted
    let type := op.type.getD 0
    let v := parseVarValue type r.valLength (data.drop r.varVal)
    (⟨some r.name, op.nameLength, some v.type, some v.valueLength, v.value⟩,
      if v.failed then none else some (r.used, r.listlength))

/-- The varbind has a type the switch does not list (`badtype = -1`). -/
def ParsedVar.isBadType (vp : ParsedVar) : Bool :=
  match vp.value with
  | some (.unknown _) => true
  | _ => false

/-- `while ( ( int )*length > 0 )`: the return code and the varbinds linked in. A varbind takes at
least one octet, so `fuel` rounds do for `fuel` octets. -/
def parseVarBinds : Nat → Mem → Nat → Int → Int × List ParsedVar
  | 0, _, _, badtype => (badtype, [])
  | fuel + 1, data, length, badtype =>
    if length = 0 then (badtype, [])
    else match parseVarBind data length with
    | (vp, none) => (-1, [vp])
    | (vp, some (used, length)) =>
      let badtype := if ParsedVar.isBadType vp then -1 else badtype
      let (rc, vars) := parseVarBinds fuel (data.drop used) length badtype
      (rc, vp :: vars)

/-! ## the PDU -/

/-- The decoder between two fields. -/
structure Cursor where
  pdu : Pdu ParsedVar
  data : Mem
  length : Nat

/-- Decode one field and store it; on failure the PDU is what the call leaves. -/
def Cursor.field {α : Type} (c : Cursor) (parse : Mem → Nat → ParseOut α)
    (store : Pdu ParsedVar → α → Pdu ParsedVar) : Except (Pdu ParsedVar) Cursor :=
  match (parse c.data c.length).result with
  | none => .error c.pdu
  | some r => .ok ⟨store c.pdu r.value, c.data.drop r.used, r.datalength⟩

/-- `memmove` of at most four octets over `pdu->agentAddr`, and the zero octet after a shorter
one. -/
def overlayAddr (addr : Vector UInt8 4) (s : List UInt8) : Vector UInt8 4 :=
  Vector.ofFn fun i => (s ++ [0]).getD i.val addr[i]

/-- The fields of a v1 TRAP. -/
def parseTrapFields (c : Cursor) : Except (Pdu ParsedVar) Cursor := do
  let (out, enterpriseLength) := parseObjid c.data c.length TYPES_MAX_OID_LEN
  let c : Cursor := { c with pdu := { c.pdu with enterpriseLength := enterpriseLength } }
  let c ← c.field (fun _ _ => out) fun p o => { p with enterprise := o }
  let c ← c.field (parseString · · 4) fun p s => { p with agentAddr := overlayAddr p.agentAddr s }
  let c ← c.field parseInt fun p v => { p with trapType := v }
  let c ← c.field parseInt fun p v => { p with specificType := v }
  c.field parseUnsignedInt fun p v => { p with time := v }

/-- The fields of every other PDU. -/
def parseRequestFields (c : Cursor) : Except (Pdu ParsedVar) Cursor := do
  let c ← c.field parseInt fun p v => { p with reqid := v }
  let c ← c.field parseInt fun p v => { p with errstat := v }
  c.field parseInt fun p v => { p with errindex := v }

def PRIOT_UCD_MSG_FLAG_RESPONSE_PDU : UInt64 := 0x100

/-- The commands other than TRAP that `Api_pduParse` has a case for. -/
def requestCommands : List Int :=
  [PRIOT_MSG_RESPONSE, PRIOT_MSG_REPORT, PRIOT_MSG_GET, PRIOT_MSG_GETNEXT, PRIOT_MSG_GETBULK,
    PRIOT_MSG_SET, PRIOT_MSG_TRAP2, PRIOT_MSG_INFORM]

/-- The switch over `pdu->command`. -/
def parseFields (c : Cursor) : Except (Pdu ParsedVar) Cursor :=
  if c.pdu.command = PRIOT_MSG_TRAP then parseTrapFields c
  else if c.pdu.command ∈ requestCommands then
    if c.pdu.command = PRIOT_MSG_RESPONSE ∨ c.pdu.command = PRIOT_MSG_REPORT then
      parseRequestFields
        { c with pdu := { c.pdu with flags := c.pdu.flags ||| PRIOT_UCD_MSG_FLAG_RESPONSE_PDU } }
    else parseRequestFields c
  else .error c.pdu

/-- A PDU fresh from `calloc`. -/
def freshPdu : Pdu ParsedVar where
  command := 0
  flags := 0
  reqid := 0
  errstat := 0
  errindex := 0
  enterprise := []
  enterpriseLength := 0
  agentAddr := Vector.replicate 4 0
  trapType := 0
  specificType := 0
  time := 0
  vars := []

/-- `Api_pduParse`: the return code and the PDU as it is left. -/
def pduParse (pdu : Pdu ParsedVar) (data : Mem) (length : Nat) : Int × Pdu ParsedVar :=
  let header := parseHeader data length
  match header.result with
  | none => (-1, pdu)
  | some (length, k) =>
    let command : Int := (header.type.getD 0).toNat
    let pdu := { pdu with command := command,
                          flags := pdu.flags &&& ~~~PRIOT_UCD_MSG_FLAG_RESPONSE_PDU }
    match parseFields ⟨pdu, data.drop k, length⟩ with
    | .error pdu => (-1, pdu)
    | .ok c =>
      match parseSequence c.data c.length asnSEQUENCE_CONSTRUCTOR with
      | none => (-1, c.pdu)
      | some (length, k) =>
        match parseVarBinds length (c.data.drop k) length 0 with
        | (rc, []) => (rc, c.pdu)
        | (rc, vars) => (rc, { c.pdu with vars := vars })

end Priot.Api
