/-
# `Mib.c` — the indexes of a table row and the OID they make up

`Mib_buildOidNoalloc` writes the values of a list of varbinds as subidentifiers, `Mib_parseOidIndexes` takes
them apart again under the types of the varbinds. Integers are stored with the low octet first, as the
host does. Allocations succeed.
-/
import Priot.Asn01.Types
import Mathlib.Tactic.Ring

namespace Priot.Mib

/-- The types the two switches over `var->type` list; `other` is every other type. -/
inductive IndexType
  | integer | counter | gauge | timeticks | ipaddress | impliedObjectId | objectId | impliedOctetStr
  | opaqueStr | octetStr | other
  deriving DecidableEq, Repr

/-- What `var->value` points to. -/
inductive Value
  | integer (v : Int)
  | string (s : List UInt8)
  | objectId (o : ObjId)
  deriving DecidableEq, Repr

/-- `VariableList`, as an index; `value` is `none` where the pointer is `NULL`. -/
structure IndexVar where
  type : IndexType
  value : Option Value
  valueLength : Nat
  deriving DecidableEq, Repr

/-- A varbind with a type and nothing else. -/
def IndexVar.fresh (t : IndexType) : IndexVar := { type := t, value := none, valueLength := 0 }

namespace IndexVar

/-- `*( var->value.integer )`. -/
def integer (var : IndexVar) : Int :=
  match var.value with
  | some (.integer v) => v
  | _ => 0

/-- `var->value.string`. -/
def string (var : IndexVar) : List UInt8 :=
  match var.value with
  | some (.string s) => s
  | _ => []

/-- `var->value.objectId`. -/
def objectId (var : IndexVar) : ObjId :=
  match var.value with
  | some (.objectId o) => o
  | _ => []

end IndexVar

/-- `sizeof( oid )`. -/
def SIZEOF_OID : Nat := 4

/-- `sizeof( long )`. -/
def SIZEOF_LONG : Nat := 8

/-! ## building -/

/-- A `long` assigned to an `oid`. -/
def oidOfLong (v : Int) : Oid := UInt32.ofNat (v % 2 ^ 32).toNat

/-- `memcpy( &ipaddr, s, sizeof( ipaddr ) )`. -/
def ipaddrOfOctets (s : List UInt8) : UInt32 :=
  (s.getD 0 0).toUInt32 + ((s.getD 1 0).toUInt32 <<< 8) + ((s.getD 2 0).toUInt32 <<< 16) +
    ((s.getD 3 0).toUInt32 <<< 24)

/-- The name the switch of `Mib_buildOidSegment` writes. -/
def segmentName (var : IndexVar) : Option ObjId :=
  match var.type with
  | .integer | .counter | .gauge | .timeticks => some [oidOfLong var.integer]
  | .ipaddress =>
    let ipaddr := ipaddrOfOctets var.string
    some [(ipaddr >>> 24) &&& 0xff, (ipaddr >>> 16) &&& 0xff, (ipaddr >>> 8) &&& 0xff, (ipaddr >>> 0) &&& 0xff]
  | .impliedObjectId => some (var.objectId.take (var.valueLength / SIZEOF_OID))
  | .objectId =>
    some (UInt32.ofNat (var.valueLength / SIZEOF_OID) :: var.objectId.take (var.valueLength / SIZEOF_OID))
  | .impliedOctetStr => some ((var.string.take var.valueLength).map (·.toUInt32))
  | .opaqueStr | .octetStr =>
    some (UInt32.ofNat var.valueLength :: (var.string.take var.valueLength).map (·.toUInt32))
  | .other => none

/-- `Mib_buildOidSegment`: `var->name`, or `ErrorCode_GENERR`. -/
def buildOidSegment (var : IndexVar) : Option ObjId :=
  (segmentName var).bind fun name => if name.length > TYPES_MAX_OID_LEN then none else some name

/-- The loop of `Mib_buildOidNoalloc`. -/
def buildLoop (inLen : Nat) : ObjId → List IndexVar → Option ObjId
  | out, [] => some out
  | out, var :: indexes =>
    match buildOidSegment var with
    | none => none
    | some name => if name.length + out.length ≤ inLen then buildLoop inLen (out ++ name) indexes else none

/-- `Mib_buildOidNoalloc` with a prefix or `NULL`: what is written to `in`, or `ErrorCode_GENERR`. -/
def buildOidNoalloc (inLen : Nat) (pre : Option ObjId) (indexes : List IndexVar) : Option ObjId :=
  match pre with
  | some pre => if inLen < pre.length then none else buildLoop inLen pre indexes
  | none => buildLoop inLen [] indexes

/-! ## parsing -/

/-- The memory `Client_setVarValue` is given, by what it is read as for the type of the varbind. -/
inductive Memory
  | oid (v : Oid)
  | long (v : Nat)
  | octets (s : List UInt8)
  | oids (o : ObjId)

/-- `( long ) *val_int`. -/
def longOfInt (v : Oid) : Int := if v.toNat < 2 ^ 31 then v.toNat else (v.toNat : Int) - 2 ^ 32

/-- `Client_setVarValue`, for the types and lengths it is called with here. -/
def setVarValue (vars : IndexVar) : Memory → IndexVar
  | .oid v =>
    { vars with
      value := some (.integer (if vars.type = .integer then longOfInt v else v.toNat))
      valueLength := SIZEOF_LONG }
  | .long v => { vars with value := some (.integer (v % 2 ^ 32 : Nat)), valueLength := SIZEOF_LONG }
  | .octets s => { vars with value := some (.string s), valueLength := s.length }
  | .oids o => { vars with value := some (.objectId o), valueLength := SIZEOF_OID * o.length }

/-- The sum of the first four subidentifiers, each shifted to its place. -/
def ipaddrOfOid (oidIndex : ObjId) : UInt32 :=
  (oidIndex.getD 0 0 <<< 24) + (oidIndex.getD 1 0 <<< 16) + (oidIndex.getD 2 0 <<< 8) + oidIndex.getD 3 0

/-- The octets of `htonl( uitmp )`. -/
def htonl (uitmp : UInt32) : List UInt8 :=
  [(uitmp >>> 24).toUInt8, (uitmp >>> 16).toUInt8, (uitmp >>> 8).toUInt8, uitmp.toUInt8]

/-- `( int )( *oidLen )`. -/
def intOfSize (n : Nat) : Int := longOfInt (UInt32.ofNat n)

/-- The length of an OID or a string, and where its subidentifiers begin. The error is what
`*oidStart` and `*oidLen` are left at. -/
def indexLength (oidIndex : ObjId) (var : IndexVar) (complete : Bool) : Except ObjId (Nat × ObjId) :=
  if var.type = .impliedObjectId ∨ var.type = .impliedOctetStr then
    .ok ((if var.valueLength = 0 then oidIndex.length else var.valueLength) % 2 ^ 32, oidIndex)
  else
    match oidIndex with
    | uitmp :: rest =>
      if uitmp.toNat > rest.length ∧ complete = false then .error (oidIndex.take rest.length)
      else .ok (uitmp.toNat, rest)
    | [] => .ok (0, [])

/-- The first `uitmp` subidentifiers, with zeros where there are none left. -/
def takePadded (uitmp : Nat) (oidIndex : ObjId) : ObjId :=
  oidIndex.take uitmp ++ List.replicate (uitmp - oidIndex.length) 0

/-- `Mib_parseOneOidIndex`: the OID that is left and the varbind, or what is left where the result is
`ErrorCode_GENERR`. -/
def parseOneOidIndex (oidIndex : ObjId) (var : IndexVar) (complete : Bool) :
    Except ObjId (ObjId × IndexVar) :=
  if oidIndex.length = 0 ∧ complete = false then .error oidIndex
  else
    match var.type with
    | .integer | .counter | .gauge | .timeticks =>
      match oidIndex with
      | v :: rest => .ok (rest, setVarValue var (.oid v))
      | [] => .ok ([], setVarValue var (.long 0))
    | .ipaddress =>
      if 4 > oidIndex.length ∧ complete = false then .error oidIndex
      else if (oidIndex.take 4).any (· > 255) then .error oidIndex
      else .ok (if 4 > intOfSize oidIndex.length then [] else oidIndex.drop 4,
        setVarValue var (.octets (htonl (ipaddrOfOid oidIndex))))
    | .objectId | .impliedObjectId =>
      match indexLength oidIndex var complete with
      | .error left => .error left
      | .ok (uitmp, rest) =>
        if uitmp > TYPES_MAX_OID_LEN then .error (oidIndex.take rest.length)
        else .ok (rest.drop uitmp, setVarValue var (.oids (takePadded uitmp rest)))
    | .opaqueStr | .octetStr | .impliedOctetStr =>
      match indexLength oidIndex var complete with
      | .error left => .error left
      | .ok (uitmp, rest) =>
        -- a string without octets leaves the varbind as it is
        if uitmp = 0 then .ok (rest, var)
        else if uitmp > TYPES_MAX_OID_LEN then .error (oidIndex.take rest.length)
        else .ok (rest.drop uitmp,
          { var with value := some (.string ((takePadded uitmp rest).map (·.toUInt8))), valueLength := uitmp })
    | .other => .error oidIndex

/-- `Mib_parseOidIndexes`: the varbinds, or `ErrorCode_GENERR`. -/
def parseOidIndexes : ObjId → List IndexVar → Option (List IndexVar)
  | oidIndex, [] => if oidIndex.length = 0 then some [] else none
  | oidIndex, var :: data =>
    if oidIndex.length = 0 then none
    else
      match parseOneOidIndex oidIndex var false with
      | .error _ => none
      | .ok (rest, var) => (parseOidIndexes rest data).map (var :: ·)

end Priot.Mib
