/-
# `Asn01.h`, `Priot.h`, `Types.h` — tags, object identifiers, varbinds and PDUs

The data the BER layer works on. A varbind's value is a union in C whose live member is chosen by
the type octet; here `VarValue` carries both, so that a value and its type octet cannot disagree.
-/
import Mathlib.Data.Stream.Init
import Mathlib.Data.List.Basic

namespace Priot

/-- `typedef uint32_t oid`. -/
abbrev Oid := UInt32

/-- An object identifier: its subidentifiers. -/
abbrev ObjId := List Oid

/-- Memory from a data pointer on. A message is a prefix of it, what follows is whatever the buffer
held before. -/
abbrev Mem := Stream' UInt8

/-! ## tags (`Asn01.h`, `Priot.h`) -/

def asnINTEGER : UInt8 := 0x02
def asnBIT_STR : UInt8 := 0x03
def asnOCTET_STR : UInt8 := 0x04
def asnNULL : UInt8 := 0x05
def asnOBJECT_ID : UInt8 := 0x06
/-- `asnSEQUENCE | asnCONSTRUCTOR`. -/
def asnSEQUENCE_CONSTRUCTOR : UInt8 := 0x30
def asnIPADDRESS : UInt8 := 0x40
def asnCOUNTER : UInt8 := 0x41
def asnGAUGE : UInt8 := 0x42
def asnTIMETICKS : UInt8 := 0x43
def asnOPAQUE : UInt8 := 0x44
def asnNSAP : UInt8 := 0x45
def asnCOUNTER64 : UInt8 := 0x46
def asnUINTEGER : UInt8 := 0x47
/-- `asnCONTEXT | asnEXTENSION_ID`, the first octet of the tag inside a special Opaque. -/
def asnOPAQUE_TAG1 : UInt8 := 0x9f
def asnOPAQUE_COUNTER64 : UInt8 := 0x76
def asnOPAQUE_FLOAT : UInt8 := 0x78
def asnOPAQUE_DOUBLE : UInt8 := 0x79
def asnOPAQUE_I64 : UInt8 := 0x7a
def asnOPAQUE_U64 : UInt8 := 0x7b
def PRIOT_NOSUCHOBJECT : UInt8 := 0x80
def PRIOT_NOSUCHINSTANCE : UInt8 := 0x81
def PRIOT_ENDOFMIBVIEW : UInt8 := 0x82

def asnIsExtensionId (b : UInt8) : Bool := b &&& 0x1f == 0x1f

/-- The second tag octets `Asn01_parseHeader` takes for a 64-bit or floating value in an Opaque. -/
def isOpaqueSpecial (b : UInt8) : Bool :=
  b == asnOPAQUE_COUNTER64 || b == asnOPAQUE_U64 || b == asnOPAQUE_FLOAT ||
    b == asnOPAQUE_DOUBLE || b == asnOPAQUE_I64

theorem isOpaqueSpecial_iff {b : UInt8} : isOpaqueSpecial b = true ↔
    b = asnOPAQUE_COUNTER64 ∨ b = asnOPAQUE_U64 ∨ b = asnOPAQUE_FLOAT ∨ b = asnOPAQUE_DOUBLE ∨ b = asnOPAQUE_I64 := by
  simp only [isOpaqueSpecial, Bool.or_eq_true, beq_iff_eq, or_assoc]

def PRIOT_MSG_GET : Int := 0xa0
def PRIOT_MSG_GETNEXT : Int := 0xa1
def PRIOT_MSG_RESPONSE : Int := 0xa2
def PRIOT_MSG_SET : Int := 0xa3
def PRIOT_MSG_TRAP : Int := 0xa4
def PRIOT_MSG_GETBULK : Int := 0xa5
def PRIOT_MSG_INFORM : Int := 0xa6
def PRIOT_MSG_TRAP2 : Int := 0xa7
def PRIOT_MSG_REPORT : Int := 0xa8

def TYPES_MAX_OID_LEN : Nat := 128

/-- `MAX_PACKET_LENGTH` of `Api.c`, and the largest length `_Asn01_parseLengthCheck` lets through. -/
def MAX_PACKET_LENGTH : Nat := 0x7fffffff

/-! ## values and varbinds -/

/-- The types `Asn01_parseUnsignedInt` accepts. -/
inductive UnsignedType
  | counter | gauge | timeticks | uinteger
  deriving DecidableEq, Repr

def UnsignedType.tag : UnsignedType → UInt8
  | .counter => asnCOUNTER
  | .gauge => asnGAUGE
  | .timeticks => asnTIMETICKS
  | .uinteger => asnUINTEGER

/-- The types `Asn01_parseUnsignedInt64` delivers. -/
inductive Unsigned64Type
  | counter64 | opaqueCounter64 | opaqueU64
  deriving DecidableEq, Repr

def Unsigned64Type.tag : Unsigned64Type → UInt8
  | .counter64 => asnCOUNTER64
  | .opaqueCounter64 => asnOPAQUE_COUNTER64
  | .opaqueU64 => asnOPAQUE_U64

/-- The types `Asn01_parseString` accepts. -/
inductive StringType
  | octetStr | ipaddress | opaqueStr | nsap
  deriving DecidableEq, Repr

def StringType.tag : StringType → UInt8
  | .octetStr => asnOCTET_STR
  | .ipaddress => asnIPADDRESS
  | .opaqueStr => asnOPAQUE
  | .nsap => asnNSAP

/-- The types without a value. -/
inductive NullType
  | null | noSuchObject | noSuchInstance | endOfMibView
  deriving DecidableEq, Repr

def NullType.tag : NullType → UInt8
  | .null => asnNULL
  | .noSuchObject => PRIOT_NOSUCHOBJECT
  | .noSuchInstance => PRIOT_NOSUCHINSTANCE
  | .endOfMibView => PRIOT_ENDOFMIBVIEW

/-- Every type octet the switches over `vp->type` list. -/
def varTypes : List UInt8 :=
  [asnINTEGER, asnGAUGE, asnCOUNTER, asnTIMETICKS, asnUINTEGER, asnOPAQUE_COUNTER64, asnOPAQUE_U64,
    asnCOUNTER64, asnOCTET_STR, asnIPADDRESS, asnOPAQUE, asnNSAP, asnOBJECT_ID, asnNULL, asnBIT_STR,
    PRIOT_NOSUCHOBJECT, PRIOT_NOSUCHINSTANCE, PRIOT_ENDOFMIBVIEW, asnOPAQUE_FLOAT,
    asnOPAQUE_DOUBLE, asnOPAQUE_I64]

/-- `vp->type` with the live member of `vp->value`. `size` is `vp->valueLength` where the C value has
a fixed size, which the encoders check; elsewhere the length is that of the data. Floating values
are bit patterns. -/
inductive VarValue
  | integer (v : Int) (size : Nat)
  | unsigned (t : UnsignedType) (v : Nat) (size : Nat)
  | unsigned64 (t : Unsigned64Type) (high low : UInt32) (size : Nat)
  | string (t : StringType) (s : List UInt8)
  | objectId (o : ObjId)
  | null (t : NullType)
  | bitString (s : List UInt8)
  | float (bits : UInt32) (size : Nat)
  | double (bits : UInt64) (size : Nat)
  | signed64 (high low : UInt32) (size : Nat)
  | unknown (t : { t : UInt8 // t ∉ varTypes })
  deriving DecidableEq

/-- `vp->type`. -/
def VarValue.type : VarValue → UInt8
  | .integer _ _ => asnINTEGER
  | .unsigned t _ _ => t.tag
  | .unsigned64 t _ _ _ => t.tag
  | .string t _ => t.tag
  | .objectId _ => asnOBJECT_ID
  | .null t => t.tag
  | .bitString _ => asnBIT_STR
  | .float _ _ => asnOPAQUE_FLOAT
  | .double _ _ => asnOPAQUE_DOUBLE
  | .signed64 _ _ _ => asnOPAQUE_I64
  | .unknown t => t.1

/-- `vp->valueLength`; `sizeof( oid )` is 4. -/
def VarValue.valueLength : VarValue → Nat
  | .integer _ n | .unsigned _ _ n | .unsigned64 _ _ _ n => n
  | .string _ s => s.length
  | .objectId o => 4 * o.length
  | .null _ => 0
  | .bitString s => s.length
  | .float _ n | .double _ n | .signed64 _ _ n => n
  | .unknown _ => 0

/-- A varbind as its sender holds it: `name` and `nameLength`, `type`, `value` and `valueLength`. -/
structure VariableList where
  name : ObjId
  value : VarValue
  deriving DecidableEq

/-- A varbind as `Api_pduParse` leaves it in a block from `malloc`: a member is `none` as long as
nothing has been stored in it (for `name`, as long as it is `NULL`). -/
structure ParsedVar where
  name : Option ObjId
  nameLength : Nat
  type : Option UInt8
  valueLength : Option Nat
  value : Option VarValue
  deriving DecidableEq

/-- A varbind completely filled in. -/
def ParsedVar.ofVar (vp : VariableList) : ParsedVar where
  name := some vp.name
  nameLength := vp.name.length
  type := some vp.value.type
  valueLength := some vp.value.valueLength
  value := some vp.value

/-- `Types_Pdu`, less the members neither encoder nor `Api_pduParse` touches; `vars` is
`pdu->variables`. -/
structure Pdu (V : Type) where
  command : Int
  flags : UInt64
  reqid : Int
  errstat : Int
  errindex : Int
  enterprise : ObjId
  enterpriseLength : Nat
  agentAddr : Vector UInt8 4
  trapType : Int
  specificType : Int
  time : Nat
  vars : List V
  deriving DecidableEq

end Priot
