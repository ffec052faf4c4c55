/-
# Parsing an AgentX message (`Protocol.c`)

What is left of the message is the octets from `bufp` on, and `*length` is how many there are. To read behind the
message, to write behind a buffer or to take `*length` below zero is a fault. Allocations succeed.
-/
import Priot.Agentx.CheckPacket

namespace Priot.Agentx

open Api Octets List

/-! ## data -/

inductive Fault
  | read
  | write
  | wrap
  deriving DecidableEq

def API_MAX_MSG_SIZE : Nat := 1472

def asnPRIV_INCL_RANGE : UInt8 := 0xc2

def asnPRIV_EXCL_RANGE : UInt8 := 0xc3

/-- The types of a value that is kept as octets and sent in an Opaque as it stands. -/
inductive Opaque64Type
  | i64
  | u64
  | counter64
  deriving DecidableEq

/-- `vp->type` with the live member of `vp->value`. Floating values are bit patterns. -/
inductive Value
  | integer (v : Int)
  | unsigned (t : UnsignedType) (v : Nat)
  | string (t : StringType) (s : List UInt8)
  | objectId (o : ObjId)
  | range (inclusive : Bool) (o : ObjId)
  | counter64 (high low : UInt32)
  | null (t : NullType)
  | float (bits : UInt32)
  | double (bits : UInt64)
  | opaque64 (t : Opaque64Type) (s : List UInt8)
  | bitString (s : List UInt8)
  deriving DecidableEq

structure Variable where
  name : ObjId
  value : Value
  deriving DecidableEq

/-- `Types_Pdu`, less the members that this file does not touch. `communityLen` is the length of `community`; `vars` is
`pdu->variables`. -/
@[ext]
structure AgentxPdu where
  version : Int
  command : Int
  flags : UInt64
  sessid : Int
  transid : Int
  reqid : Int
  /-- `non_repeaters` in a GetBulk. -/
  errstat : Int
  /-- `max_repetitions` in a GetBulk. -/
  errindex : Int
  time : UInt64
  priority : Int
  rangeSubid : Int
  community : Option (List UInt8)
  contextName : Option (List UInt8)
  contextNameLen : Nat
  vars : List Variable
  deriving DecidableEq

def AgentxPdu.addVariable (pdu : AgentxPdu) (name : ObjId) (value : Value) : AgentxPdu :=
  { pdu with vars := pdu.vars ++ [⟨name, value⟩] }

/-- What `Protocol_parse` returns. -/
inductive Returned
  | noError
  | badVersion
  | asnParseErr
  | unknownPdu
  deriving DecidableEq

def AGENTX_VERSION_BASE : UInt8 := 192

def AGENTX_MSG_OPEN : Int := 1

def AGENTX_MSG_CLOSE : Int := 2

def AGENTX_MSG_REGISTER : Int := 3

def AGENTX_MSG_UNREGISTER : Int := 4

def AGENTX_MSG_GET : Int := 5

def AGENTX_MSG_GETNEXT : Int := 6

def AGENTX_MSG_GETBULK : Int := 7

def AGENTX_MSG_TESTSET : Int := 8

def AGENTX_MSG_COMMITSET : Int := 9

def AGENTX_MSG_UNDOSET : Int := 10

def AGENTX_MSG_CLEANUPSET : Int := 11

def AGENTX_MSG_NOTIFY : Int := 12

def AGENTX_MSG_PING : Int := 13

def AGENTX_MSG_INDEX_ALLOCATE : Int := 14

def AGENTX_MSG_INDEX_DEALLOCATE : Int := 15

def AGENTX_MSG_ADD_AGENT_CAPS : Int := 16

def AGENTX_MSG_REMOVE_AGENT_CAPS : Int := 17

def AGENTX_MSG_RESPONSE : Int := 18

def AGENTX_MSG_FLAG_NON_DEFAULT_CONTEXT : UInt64 := 0x08

def AGENTX_FLAGS_NETWORK_BYTE_ORDER : UInt64 := 0x10

def PRIOT_UCD_MSG_FLAG_FORCE_PDU_COPY : UInt64 := 0x400

def PRIOT_UCD_MSG_FLAG_ALWAYS_IN_VIEW : UInt64 := 0x800

def isAgentxVersion (version : UInt64) : Bool :=
  version &&& AGENTX_VERSION_BASE.toUInt64 = AGENTX_VERSION_BASE.toUInt64

/-! ## fields -/

/-- A field of `size` octets, of which so many are read, that nobody has checked. -/
def field (read size : Nat) (rest : List UInt8) : Except Fault (List UInt8 × List UInt8) :=
  if rest.length < read then .error .read
  else if rest.length < size then .error .wrap
  else .ok (rest.take size, rest.drop size)

def parseInt (networkByteOrder : Bool) (data : List UInt8) : Int := castInt (parseUInt networkByteOrder data)

def parseShort (networkByteOrder : Bool) (data : List UInt8) : Nat :=
  beNat (if networkByteOrder then data.take 2 else (data.take 2).reverse)

/-- The subidentifiers that are sent. -/
def parseSubids (networkByteOrder : Bool) : Nat → List UInt8 → ObjId
  | 0, _ => []
  | n + 1, data => UInt32.ofNat (parseUInt networkByteOrder data) :: parseSubids networkByteOrder n (data.drop 4)

/-- `Protocol_parseOid` into a buffer of `capacity` subidentifiers, with the inclusive octet. Nothing is `NULL`. -/
def parseOid (networkByteOrder : Bool) (capacity oidLen : Nat) (data : List UInt8) :
    Except Fault (Option (UInt8 × ObjId × List UInt8)) :=
  match data with
  | nSubid :: pre :: inc :: _ :: rest =>
    if nSubid = 0 ∧ pre = 0 then .ok (some (inc, [0, 0], rest))
    else
      let tmpOidLen := if pre ≠ 0 then nSubid.toNat + 5 else nSubid.toNat
      if oidLen < tmpOidLen then .ok none
      else if rest.length < 4 * nSubid.toNat then .ok none
      else if capacity < tmpOidLen then .error .write
      else .ok (some (inc, (if pre ≠ 0 then [1, 3, 6, 1, pre.toUInt32] else []) ++
        parseSubids networkByteOrder nSubid.toNat rest, rest.drop (4 * nSubid.toNat)))
  | _ => .ok none

/-- A length with the padding. -/
def padded (len : Nat) : Nat := (len + 3) / 4 * 4

/-- `Protocol_parseString` into a buffer of `strLen` octets. -/
def parseString (networkByteOrder : Bool) (strLen : Nat) (data : List UInt8) :
    Except Fault (Option (List UInt8 × List UInt8)) :=
  if data.length < 4 then .ok none
  else
    let len := parseUInt networkByteOrder data
    if data.length < (len + 4) % 2 ^ 32 then .ok none
    else if len > strLen then .ok none
    else if data.length < len + 4 then .error .read
    -- the terminating zero
    else if len ≥ strLen then .error .write
    else if data.length < padded len + 4 then .error .wrap
    else .ok (some ((data.drop 4).take len, data.drop (padded len + 4)))

/-- The rest of `Protocol_parseOpaque`, and what becomes of the value. -/
def opaqueValue (s : List UInt8) : Value :=
  match s with
  | tag :: sub :: size :: body =>
    if body = [] ∨ tag ≠ asnOPAQUE_TAG1 then .string .opaqueStr s
    else if sub = asnOPAQUE_FLOAT then
      if body.length ≠ 4 ∨ size ≠ 4 then .string .opaqueStr s else .float (UInt32.ofNat (beNat body))
    else if sub = asnOPAQUE_DOUBLE then
      if body.length ≠ 8 ∨ size ≠ 8 then .string .opaqueStr s else .double (UInt64.ofNat (beNat body))
    else .string .opaqueStr s
  | s => .string .opaqueStr s

/-- The cases of the switch in `Protocol_parseVarbind`. -/
inductive Case
  | integer
  | unsigned (t : UnsignedType)
  | string (t : StringType)
  | opaqueStr
  | objectId
  | range (inclusive : Bool)
  | counter64
  | null (t : NullType)
  deriving DecidableEq

/-- The case of a type, and nothing for `default`. -/
def caseOf (type : Nat) : Option Case :=
  if type = asnINTEGER.toNat then some .integer
  else if type = asnCOUNTER.toNat then some (.unsigned .counter)
  else if type = asnGAUGE.toNat then some (.unsigned .gauge)
  else if type = asnTIMETICKS.toNat then some (.unsigned .timeticks)
  else if type = asnUINTEGER.toNat then some (.unsigned .uinteger)
  else if type = asnOCTET_STR.toNat then some (.string .octetStr)
  else if type = asnIPADDRESS.toNat then some (.string .ipaddress)
  else if type = asnOPAQUE.toNat then some .opaqueStr
  else if type = asnPRIV_INCL_RANGE.toNat then some (.range true)
  else if type = asnPRIV_EXCL_RANGE.toNat then some (.range false)
  else if type = asnOBJECT_ID.toNat then some .objectId
  else if type = asnCOUNTER64.toNat then some .counter64
  else if type = asnNULL.toNat then some (.null .null)
  else if type = PRIOT_NOSUCHOBJECT.toNat then some (.null .noSuchObject)
  else if type = PRIOT_NOSUCHINSTANCE.toNat then some (.null .noSuchInstance)
  else if type = PRIOT_ENDOFMIBVIEW.toNat then some (.null .endOfMibView)
  else none

/-- `Counter64`, the upper half in front when the order is that of the network. -/
def counter64Of (networkByteOrder : Bool) (data : List UInt8) : Value :=
  let first := UInt32.ofNat (parseUInt networkByteOrder data)
  let second := UInt32.ofNat (parseUInt networkByteOrder (data.drop 4))
  if networkByteOrder then .counter64 first second else .counter64 second first

/-- A value for one of the cases; an OID is written to the octets of the data buffer. -/
def parseValue (networkByteOrder : Bool) (c : Case) (data : List UInt8) :
    Except Fault (Option (Value × List UInt8)) :=
  match c with
  | .integer => do
    let (v, rest) ← field 4 4 data
    return some (.integer (parseInt networkByteOrder v), rest)
  | .unsigned t => do
    let (v, rest) ← field 4 4 data
    return some (.unsigned t (parseUInt networkByteOrder v), rest)
  | .string t => do
    let read ← parseString networkByteOrder API_MAX_MSG_SIZE data
    return read.map fun (s, rest) => (.string t s, rest)
  | .opaqueStr => do
    let read ← parseString networkByteOrder API_MAX_MSG_SIZE data
    return read.map fun (s, rest) => (opaqueValue s, rest)
  | .objectId => do
    let read ← parseOid networkByteOrder (API_MAX_MSG_SIZE / 4) API_MAX_MSG_SIZE data
    return read.map fun (_, o, rest) => (.objectId o, rest)
  | .range inclusive => do
    let read ← parseOid networkByteOrder (API_MAX_MSG_SIZE / 4) API_MAX_MSG_SIZE data
    return read.map fun (_, o, rest) => (.range inclusive o, rest)
  | .counter64 => do
    let (v, rest) ← field 8 8 data
    return some (counter64Of networkByteOrder v, rest)
  | .null t => return some (.null t, data)

def parseVarbind (networkByteOrder : Bool) (data : List UInt8) : Except Fault (Option (Variable × List UInt8)) := do
  let (head, rest) ← field 2 4 data
  match ← parseOid networkByteOrder TYPES_MAX_OID_LEN TYPES_MAX_OID_LEN rest with
  | none => return none
  | some (_, name, rest) =>
    match caseOf (parseShort networkByteOrder head) with
    | none => return none
    | some c => do
      let read ← parseValue networkByteOrder c rest
      return read.map fun (value, rest) => (⟨name, value⟩, rest)

/-! ## lists -/

variable {networkByteOrder : Bool} {data rest : List UInt8}

theorem field_eq_ok {read size : Nat} {x : List UInt8 × List UInt8} (hread : read ≤ size) :
    field read size data = .ok x ↔ size ≤ data.length ∧ x = (data.take size, data.drop size) := by
  unfold field
  split_ifs with h₁ h₂
  · exact iff_of_false (fun h => nomatch h) fun h => by omega
  · exact iff_of_false (fun h => nomatch h) fun h => by omega
  · rw [Except.ok.injEq]
    exact ⟨fun h => ⟨by omega, h.symm⟩, fun h => h.2.symm⟩

theorem parseOid_length {capacity oidLen : Nat} {inc : UInt8} {o : ObjId}
    (h : parseOid networkByteOrder capacity oidLen data = .ok (some (inc, o, rest))) : rest.length < data.length := by
  unfold parseOid at h
  split at h
  · split at h
    · cases h
      simp only [length_cons]
      omega
    · rename_i nSubid pre _ _ _ _
      dsimp only at h
      generalize (if pre ≠ 0 then nSubid.toNat + 5 else nSubid.toNat) = tmpOidLen at h
      split at h
      · cases h
      · split at h
        · cases h
        · split at h
          · cases h
          · cases h
            simp only [length_cons, length_drop]
            omega
  · cases h

theorem parseString_length {strLen : Nat} {s : List UInt8}
    (h : parseString networkByteOrder strLen data = .ok (some (s, rest))) : rest.length < data.length := by
  unfold parseString at h
  dsimp only at h
  split_ifs at h with h₁ h₂ h₃ h₄ h₅ h₆ <;>
    simp only [Except.ok.injEq, Option.some.injEq, Prod.mk.injEq, reduceCtorEq] at h
  rw [← h.2, length_drop]
  omega

theorem parseValue_length {c : Case} {value : Value} (h : parseValue networkByteOrder c data = .ok (some (value, rest))) :
    rest.length ≤ data.length := by
  have hfield : ∀ {n : Nat} {v : List UInt8}, field n n data = .ok (v, rest) → rest.length ≤ data.length := by
    intro n v hv
    obtain ⟨-, hx⟩ := (field_eq_ok (Nat.le_refl n)).mp hv
    cases hx
    rw [length_drop]
    exact Nat.sub_le _ _
  cases c with
  | integer | unsigned t | counter64 =>
    simp only [parseValue, bind, Except.bind] at h
    split at h
    · cases h
    · rename_i hv
      cases h
      exact hfield hv
  | string t | opaqueStr =>
    simp only [parseValue, bind, Except.bind] at h
    split at h
    · cases h
    · rename_i read hread
      obtain ⟨⟨s, rest'⟩, rfl, hx⟩ := Option.map_eq_some_iff.mp (Except.ok.inj h)
      cases hx
      exact Nat.le_of_lt (parseString_length hread)
  | objectId | range inclusive =>
    simp only [parseValue, bind, Except.bind] at h
    split at h
    · cases h
    · rename_i read hread
      obtain ⟨⟨inc, o, rest'⟩, rfl, hx⟩ := Option.map_eq_some_iff.mp (Except.ok.inj h)
      cases hx
      exact Nat.le_of_lt (parseOid_length hread)
  | null t =>
    cases h
    exact Nat.le_refl _

theorem parseVarbind_length {v : Variable} (h : parseVarbind networkByteOrder data = .ok (some (v, rest))) :
    rest.length < data.length := by
  simp only [parseVarbind, bind, Except.bind] at h
  split at h
  · cases h
  · rename_i hhead
    obtain ⟨hlen, hx⟩ := (field_eq_ok (by omega)).mp hhead
    cases hx
    split at h
    · cases h
    · rename_i hoid
      split at h
      · cases h
      · have hname := parseOid_length hoid
        rw [length_drop] at hname
        split at h
        · cases h
        · split at h
          · cases h
          · rename_i hvalue
            obtain ⟨⟨value, rest'⟩, rfl, hx⟩ := Option.map_eq_some_iff.mp (Except.ok.inj h)
            cases hx
            have hvalue : rest'.length ≤ _ := parseValue_length hvalue
            show rest'.length < data.length
            omega

/-- The loop over a VarBind list, with the variables that there are. -/
def parseVarbinds (networkByteOrder : Bool) (data : List UInt8) (vars : List Variable) :
    Except Fault (Returned × List Variable) :=
  if data = [] then .ok (.noError, vars)
  else
    match _h : parseVarbind networkByteOrder data with
    | .error f => .error f
    | .ok none => .ok (.asnParseErr, vars)
    | .ok (some (v, rest)) => parseVarbinds networkByteOrder rest (vars ++ [v])
  termination_by data.length
  decreasing_by exact parseVarbind_length _h

/-- A round of the loop over a SearchRange list. -/
def parseRange (networkByteOrder : Bool) (data : List UInt8) : Except Fault (Option (Variable × List UInt8)) := do
  match ← parseOid networkByteOrder TYPES_MAX_OID_LEN TYPES_MAX_OID_LEN data with
  | none => return none
  | some (inc, name, rest) =>
    let read ← parseOid networkByteOrder TYPES_MAX_OID_LEN TYPES_MAX_OID_LEN rest
    return read.map fun (_, o, rest) => (⟨name, .range (inc ≠ 0) o⟩, rest)

theorem parseRange_length {v : Variable} (h : parseRange networkByteOrder data = .ok (some (v, rest))) :
    rest.length < data.length := by
  simp only [parseRange, bind, Except.bind] at h
  split at h
  · cases h
  · rename_i hoid
    split at h
    · cases h
    · have hname := parseOid_length hoid
      split at h
      · cases h
      · rename_i hend
        obtain ⟨⟨inc, o, rest'⟩, rfl, hx⟩ := Option.map_eq_some_iff.mp (Except.ok.inj h)
        cases hx
        have hend : rest'.length < _ := parseOid_length hend
        show rest'.length < data.length
        omega

/-- The loop over a SearchRange list. -/
def parseRanges (networkByteOrder : Bool) (data : List UInt8) (vars : List Variable) :
    Except Fault (Returned × List Variable) :=
  if data = [] then .ok (.noError, vars)
  else
    match _h : parseRange networkByteOrder data with
    | .error f => .error f
    | .ok none => .ok (.asnParseErr, vars)
    | .ok (some (v, rest)) => parseRanges networkByteOrder rest (vars ++ [v])
  termination_by data.length
  decreasing_by exact parseRange_length _h

/-! ## messages -/

/-- What a header leaves in the message. -/
def AgentxPdu.withHeader (pdu : AgentxPdu) (data : List UInt8) : AgentxPdu :=
  let flags := pdu.flags ||| (data.getD 2 0).toUInt64
  let order : Bool := flags &&& AGENTX_FLAGS_NETWORK_BYTE_ORDER ≠ 0
  { pdu with
    version := (AGENTX_VERSION_BASE ||| data.getD 0 0).toNat
    command := (data.getD 1 0).toNat
    flags := flags
    sessid := parseInt order (data.drop 4)
    transid := parseInt order (data.drop 8)
    reqid := parseInt order (data.drop 12) }

def parseHeader (pdu : AgentxPdu) (data : List UInt8) : AgentxPdu × Option (List UInt8) :=
  if data.length < 20 then (pdu, none)
  else
    let pdu := pdu.withHeader data
    let payload := parseInt (pdu.flags &&& AGENTX_FLAGS_NETWORK_BYTE_ORDER ≠ 0) (data.drop 16)
    (pdu, if ((data.drop 20).length : Int) ≠ payload % 2 ^ 64 then none else some (data.drop 20))

/-- What is left in the message by the loop over a list. -/
def AgentxPdu.withVars (pdu : AgentxPdu) (read : Except Fault (Returned × List Variable)) :
    Except Fault (Returned × AgentxPdu) :=
  read.map fun (code, vars) => (code, { pdu with vars := vars })

/-- An OID and a string, as one variable. -/
def parseDescription (networkByteOrder : Bool) (pdu : AgentxPdu) (data : List UInt8) :
    Except Fault (Returned × AgentxPdu) := do
  match ← parseOid networkByteOrder TYPES_MAX_OID_LEN TYPES_MAX_OID_LEN data with
  | none => return (.asnParseErr, pdu)
  | some (_, name, rest) =>
    match ← parseString networkByteOrder API_MAX_MSG_SIZE rest with
    | none => return (.asnParseErr, pdu)
    | some (s, _) => return (.noError, pdu.addVariable name (.string .octetStr s))

/-- `end_oid_buf[ pdu->range_subid - 1 ] = range_bound`, where the range is not 0. -/
def parseRegistration (networkByteOrder : Bool) (pdu : AgentxPdu) (rangeSubid : UInt8) (data : List UInt8) :
    Except Fault (Returned × AgentxPdu) := do
  match ← parseOid networkByteOrder TYPES_MAX_OID_LEN TYPES_MAX_OID_LEN data with
  | none => return (.asnParseErr, pdu)
  | some (_, name, rest) =>
    if rangeSubid = 0 then return (.noError, pdu.addVariable name (.null .null))
    else
      let (v, _) ← field 4 4 rest
      if rangeSubid.toNat > TYPES_MAX_OID_LEN then throw .write
      else
        let rangeBound := UInt32.ofNat (parseUInt networkByteOrder v)
        return (.noError, pdu.addVariable name (.range true (name.set (rangeSubid.toNat - 1) rangeBound)))

/-- The switch of `Protocol_parse`. -/
def parseBody (networkByteOrder : Bool) (pdu : AgentxPdu) (data : List UInt8) :
    Except Fault (Returned × AgentxPdu) :=
  if pdu.command = AGENTX_MSG_OPEN then do
    let (head, rest) ← field 1 4 data
    parseDescription networkByteOrder { pdu with time := (head.headD 0).toUInt64 } rest
  else if pdu.command = AGENTX_MSG_CLOSE then do
    let (head, _) ← field 1 4 data
    return (.noError, { pdu with errstat := (head.headD 0).toNat })
  else if pdu.command = AGENTX_MSG_UNREGISTER ∨ pdu.command = AGENTX_MSG_REGISTER then do
    let (head, rest) ← field 3 4 data
    let time := if pdu.command = AGENTX_MSG_REGISTER then (head.getD 0 0).toUInt64 else pdu.time
    parseRegistration networkByteOrder
      { pdu with time := time, priority := (head.getD 1 0).toNat, rangeSubid := (head.getD 2 0).toNat }
      (head.getD 2 0) rest
  else if pdu.command = AGENTX_MSG_GETBULK then do
    let (head, rest) ← field 4 4 data
    let pdu := { pdu with
      errstat := parseShort networkByteOrder head
      errindex := parseShort networkByteOrder (head.drop 2) }
    pdu.withVars (parseRanges networkByteOrder rest pdu.vars)
  else if pdu.command = AGENTX_MSG_GETNEXT ∨ pdu.command = AGENTX_MSG_GET then
    pdu.withVars (parseRanges networkByteOrder data pdu.vars)
  else if pdu.command = AGENTX_MSG_RESPONSE then do
    let (time, rest) ← field 4 4 data
    let (errors, rest) ← field 4 4 rest
    let pdu := { pdu with
      flags := pdu.flags ||| PRIOT_UCD_MSG_FLAG_RESPONSE_PDU
      time := UInt64.ofInt (parseInt networkByteOrder time)
      errstat := parseShort networkByteOrder errors
      errindex := parseShort networkByteOrder (errors.drop 2) }
    pdu.withVars (parseVarbinds networkByteOrder rest pdu.vars)
  else if pdu.command = AGENTX_MSG_INDEX_ALLOCATE ∨ pdu.command = AGENTX_MSG_INDEX_DEALLOCATE ∨
      pdu.command = AGENTX_MSG_NOTIFY ∨ pdu.command = AGENTX_MSG_TESTSET then
    pdu.withVars (parseVarbinds networkByteOrder data pdu.vars)
  else if pdu.command = AGENTX_MSG_COMMITSET ∨ pdu.command = AGENTX_MSG_UNDOSET ∨
      pdu.command = AGENTX_MSG_CLEANUPSET ∨ pdu.command = AGENTX_MSG_PING then
    return (.noError, pdu)
  else if pdu.command = AGENTX_MSG_ADD_AGENT_CAPS then
    parseDescription networkByteOrder pdu data
  else if pdu.command = AGENTX_MSG_REMOVE_AGENT_CAPS then do
    match ← parseOid networkByteOrder TYPES_MAX_OID_LEN TYPES_MAX_OID_LEN data with
    | none => return (.asnParseErr, pdu)
    | some (_, name, _) => return (.noError, pdu.addVariable name (.null .null))
  else return (.unknownPdu, pdu)

/-- What a context in front of the payload leaves in the message. -/
def AgentxPdu.withContext (pdu : AgentxPdu) (s : List UInt8) : AgentxPdu :=
  let pdu := { pdu with community := some s }
  if s.length > 0 ∧ pdu.contextName = none then
    { pdu with contextName := some (s.takeWhile (· ≠ 0)), contextNameLen := s.length }
  else pdu

/-- The flags of a message behind its header. -/
def controlFlags (flags : UInt64) : UInt64 :=
  (flags ||| PRIOT_UCD_MSG_FLAG_ALWAYS_IN_VIEW ||| PRIOT_UCD_MSG_FLAG_FORCE_PDU_COPY) &&&
    ~~~PRIOT_UCD_MSG_FLAG_RESPONSE_PDU

/-- `Protocol_parse` behind the header. -/
def parsePayload (pdu : AgentxPdu) (data : List UInt8) : Except Fault (Returned × AgentxPdu) :=
  let order : Bool := pdu.flags &&& AGENTX_FLAGS_NETWORK_BYTE_ORDER ≠ 0
  if pdu.flags &&& AGENTX_MSG_FLAG_NON_DEFAULT_CONTEXT ≠ 0 then do
    match ← parseString order API_MAX_MSG_SIZE data with
    | none => return (.asnParseErr, pdu)
    | some (s, rest) => parseBody order (pdu.withContext s) rest
  else parseBody order pdu data

/-- `Protocol_parse` for a session of some version, with what it leaves in the message. -/
def parse (version : UInt64) (pdu : AgentxPdu) (data : List UInt8) : Except Fault (Returned × AgentxPdu) :=
  if ¬ isAgentxVersion version then .ok (.badVersion, pdu)
  else
    match parseHeader pdu data with
    | (pdu, none) => .ok (.asnParseErr, pdu)
    | (pdu, some rest) => parsePayload { pdu with flags := controlFlags pdu.flags } rest

end Priot.Agentx
