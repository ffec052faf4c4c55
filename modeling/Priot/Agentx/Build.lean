/-
# Building an AgentX message (`Protocol.c`)

What is written is a list of octets. The buffer grows as it has to, and allocations succeed, so that what stops a
build is a type that cannot be sent, or a message whose variables are not the ones that its type needs.
-/
import Priot.Agentx.Protocol

namespace Priot.Agentx

/-! ## fields -/

/-- Why nothing is built. In the last case there is no variable, its value has no such member, or what is read lies
behind its end. -/
inductive NotBuilt
  | badBuild
  | unknownPdu
  | misread
  deriving DecidableEq

/-- The octets of a `u_int`, the highest one in front. -/
def octetsOf (value : UInt32) : List UInt8 :=
  [(value >>> 24).toUInt8, (value >>> 16).toUInt8, (value >>> 8).toUInt8, value.toUInt8]

/-- `Protocol_reallocBuildInt`, and `Protocol_buildInt`. -/
def reallocBuildInt (networkByteOrder : Bool) (value : UInt32) : List UInt8 :=
  if networkByteOrder then octetsOf value else (octetsOf value).reverse

def reallocBuildShort (networkByteOrder : Bool) (value : UInt16) : List UInt8 :=
  if networkByteOrder then [(value >>> 8).toUInt8, value.toUInt8] else [value.toUInt8, (value >>> 8).toUInt8]

/-- An OID below 1.3.6.1, with a next subidentifier that fits in an octet and is not 0. -/
def IsInternet (name : ObjId) : Prop :=
  5 ≤ name.length ∧ name.take 4 = [1, 3, 6, 1] ∧ 0 < name.getD 4 0 ∧ name.getD 4 0 < 256

instance (name : ObjId) : Decidable (IsInternet name) := by
  unfold IsInternet
  infer_instance

/-- The header of an OID, and the subidentifiers that are sent. -/
def oidOctets (networkByteOrder : Bool) (pre inclusive : UInt8) (name : ObjId) : List UInt8 :=
  [UInt8.ofNat name.length, pre, inclusive, 0] ++ name.flatMap (reallocBuildInt networkByteOrder)

def reallocBuildOid (networkByteOrder : Bool) (inclusive : UInt8) (name : ObjId) : List UInt8 :=
  let inclusive := if name = [] then 0 else inclusive
  if IsInternet name then oidOctets networkByteOrder (name.getD 4 0).toUInt8 inclusive (name.drop 5)
  else oidOctets networkByteOrder 0 inclusive name

/-- The zeros behind a string. -/
def padding (len : Nat) : List UInt8 :=
  if len % 4 ≠ 0 then List.replicate (4 - len % 4) 0 else []

def reallocBuildString (networkByteOrder : Bool) (s : List UInt8) : List UInt8 :=
  reallocBuildInt networkByteOrder (UInt32.ofNat s.length) ++ (s ++ padding s.length)

def reallocBuildFloat (networkByteOrder : Bool) (bits : UInt32) : List UInt8 :=
  reallocBuildString networkByteOrder ([asnOPAQUE_TAG1, asnOPAQUE_FLOAT, 4] ++ octetsOf bits)

def reallocBuildDouble (networkByteOrder : Bool) (bits : UInt64) : List UInt8 :=
  reallocBuildString networkByteOrder
    ([asnOPAQUE_TAG1, asnOPAQUE_DOUBLE, 8] ++ octetsOf (bits >>> 32).toUInt32 ++ octetsOf bits.toUInt32)

/-! ## variables -/

def Value.sentType : Value → UInt8
  | .integer _ => asnINTEGER
  | .unsigned t _ => t.tag
  | .string t _ => t.tag
  | .objectId _ | .range _ _ => asnOBJECT_ID
  | .counter64 _ _ => asnCOUNTER64
  | .null t => t.tag
  | .float _ | .double _ | .opaque64 _ _ => asnOPAQUE
  | .bitString _ => asnBIT_STR

/-- The switch of `Protocol_reallocBuildVarbind`. -/
def reallocBuildValue (networkByteOrder : Bool) : Value → Except NotBuilt (List UInt8)
  | .integer v => .ok (reallocBuildInt networkByteOrder (UInt32.ofInt v))
  | .unsigned _ v => .ok (reallocBuildInt networkByteOrder (UInt32.ofNat v))
  | .float bits => .ok (reallocBuildFloat networkByteOrder bits)
  | .double bits => .ok (reallocBuildDouble networkByteOrder bits)
  | .opaque64 _ s => .ok (reallocBuildString networkByteOrder s)
  | .string t s => if t = .nsap then .error .badBuild else .ok (reallocBuildString networkByteOrder s)
  | .objectId o | .range _ o => .ok (reallocBuildOid networkByteOrder 1 o)
  | .counter64 high low =>
    .ok (if networkByteOrder then reallocBuildInt networkByteOrder high ++ reallocBuildInt networkByteOrder low
      else reallocBuildInt networkByteOrder low ++ reallocBuildInt networkByteOrder high)
  | .null _ => .ok []
  | .bitString _ => .error .badBuild

def reallocBuildVarbind (networkByteOrder : Bool) (vp : Variable) : Except NotBuilt (List UInt8) := do
  let value ← reallocBuildValue networkByteOrder vp.value
  return reallocBuildShort networkByteOrder vp.value.sentType.toUInt16 ++ [0, 0] ++
    (reallocBuildOid networkByteOrder 0 vp.name ++ value)

/-- `vp->value.string`, as long as `vp->valueLength` says. -/
def Value.octets : Value → Except NotBuilt (List UInt8)
  | .string _ s | .opaque64 _ s | .bitString s => .ok s
  | .null _ => .ok []
  | _ => .error .misread

/-- `vp->value.objectId`, as long as `vp->valueLength` says. -/
def Value.oid : Value → Except NotBuilt ObjId
  | .objectId o | .range _ o => .ok o
  | .null _ => .ok []
  | _ => .error .misread

/-- A round of the loop over the variables of a Get. -/
def reallocBuildRange (networkByteOrder : Bool) (vp : Variable) : Except NotBuilt (List UInt8) := do
  let inc := match vp.value with
    | .range true _ => 1
    | _ => 0
  let o ← vp.value.oid
  return reallocBuildOid networkByteOrder inc vp.name ++ reallocBuildOid networkByteOrder 0 o

/-- `for ( vp = pdu->variables; vp != NULL; vp = vp->next )`. -/
def buildEach (build : Variable → Except NotBuilt (List UInt8)) : List Variable → Except NotBuilt (List UInt8)
  | [] => .ok []
  | vp :: vars => do
    let first ← build vp
    let others ← buildEach build vars
    return first ++ others

/-- An OID and a string, from the first variable. -/
def buildDescription (networkByteOrder : Bool) : List Variable → Except NotBuilt (List UInt8)
  | [] => .error .misread
  | vp :: _ => do
    let s ← vp.value.octets
    return reallocBuildOid networkByteOrder 0 vp.name ++ reallocBuildString networkByteOrder s

/-- What follows the first four octets of a registration. -/
def buildRegistration (networkByteOrder : Bool) (rangeSubid : Int) : List Variable → Except NotBuilt (List UInt8)
  | [] => .error .misread
  | vp :: _ => do
    if rangeSubid = 0 then return reallocBuildOid networkByteOrder 0 vp.name
    else
      let o ← vp.value.oid
      -- `vp->value.objectId[ pdu->range_subid - 1 ]`
      if rangeSubid < 1 ∨ (o.length : Int) < rangeSubid then throw .misread
      else
        return reallocBuildOid networkByteOrder 0 vp.name ++
          reallocBuildInt networkByteOrder (o.getD (rangeSubid.toNat - 1) 0)

/-! ## messages -/

/-- The commands whose message has no context. -/
def dropsContext (command : Int) : Bool :=
  command = AGENTX_MSG_OPEN || command = AGENTX_MSG_CLOSE || command = AGENTX_MSG_RESPONSE ||
    command = AGENTX_MSG_COMMITSET || command = AGENTX_MSG_UNDOSET || command = AGENTX_MSG_CLEANUPSET

/-- The context of the message, in `pdu->community`. `strdup` copies `pdu->contextName` up to its first zero, and what
is sent of the copy is as long as `pdu->contextNameLen` says. -/
def AgentxPdu.copyContext (pdu : AgentxPdu) : Except NotBuilt AgentxPdu :=
  match pdu.contextName, pdu.community with
  | some name, none =>
    let copy := name.takeWhile (· ≠ 0) ++ [0]
    if copy.length < pdu.contextNameLen then .error .misread
    else .ok { pdu with
      community := some (copy.take pdu.contextNameLen)
      flags := pdu.flags ||| AGENTX_MSG_FLAG_NON_DEFAULT_CONTEXT }
  | _, _ => .ok pdu

/-- What `_Protocol_reallocBuild` makes of the message before it builds it. -/
def AgentxPdu.prepare (pdu : AgentxPdu) : Except NotBuilt AgentxPdu :=
  if dropsContext pdu.command then
    AgentxPdu.copyContext { pdu with flags := pdu.flags &&& ~~~AGENTX_MSG_FLAG_NON_DEFAULT_CONTEXT }
  else pdu.copyContext

/-- The first twenty octets, of which the last four are set when the rest is there. -/
def header (networkByteOrder : Bool) (pdu : AgentxPdu) (payload : UInt32) : List UInt8 :=
  [1, UInt8.ofInt pdu.command, pdu.flags.toUInt8, 0] ++ (reallocBuildInt networkByteOrder (UInt32.ofInt pdu.sessid) ++
    (reallocBuildInt networkByteOrder (UInt32.ofInt pdu.transid) ++
      (reallocBuildInt networkByteOrder (UInt32.ofInt pdu.reqid) ++ reallocBuildInt networkByteOrder payload)))

/-- The context behind the header. -/
def buildContext (networkByteOrder : Bool) (pdu : AgentxPdu) : List UInt8 :=
  if pdu.flags &&& AGENTX_MSG_FLAG_NON_DEFAULT_CONTEXT ≠ 0 then
    reallocBuildString networkByteOrder (pdu.community.getD [])
  else []

/-- The switch of `_Protocol_reallocBuild`. -/
def buildBody (networkByteOrder : Bool) (pdu : AgentxPdu) : Except NotBuilt (List UInt8) :=
  if pdu.command = AGENTX_MSG_OPEN then do
    let description ← buildDescription networkByteOrder pdu.vars
    return [pdu.time.toUInt8, 0, 0, 0] ++ description
  else if pdu.command = AGENTX_MSG_CLOSE then
    return [UInt8.ofInt pdu.errstat, 0, 0, 0]
  else if pdu.command = AGENTX_MSG_REGISTER ∨ pdu.command = AGENTX_MSG_UNREGISTER then do
    let timeout := if pdu.command = AGENTX_MSG_REGISTER then pdu.time.toUInt8 else 0
    let registration ← buildRegistration networkByteOrder pdu.rangeSubid pdu.vars
    return [timeout, UInt8.ofInt pdu.priority, UInt8.ofInt pdu.rangeSubid, 0] ++ registration
  else if pdu.command = AGENTX_MSG_GETBULK then do
    let ranges ← buildEach (reallocBuildRange networkByteOrder) pdu.vars
    return reallocBuildShort networkByteOrder (UInt16.ofInt pdu.errstat) ++
      (reallocBuildShort networkByteOrder (UInt16.ofInt pdu.errindex) ++ ranges)
  else if pdu.command = AGENTX_MSG_GET ∨ pdu.command = AGENTX_MSG_GETNEXT then
    buildEach (reallocBuildRange networkByteOrder) pdu.vars
  else if pdu.command = AGENTX_MSG_RESPONSE then do
    let varbinds ← buildEach (reallocBuildVarbind networkByteOrder) pdu.vars
    return reallocBuildInt networkByteOrder pdu.time.toUInt32 ++
      (reallocBuildShort networkByteOrder (UInt16.ofInt pdu.errstat) ++
        (reallocBuildShort networkByteOrder (UInt16.ofInt pdu.errindex) ++ varbinds))
  else if pdu.command = AGENTX_MSG_INDEX_ALLOCATE ∨ pdu.command = AGENTX_MSG_INDEX_DEALLOCATE ∨
      pdu.command = AGENTX_MSG_NOTIFY ∨ pdu.command = AGENTX_MSG_TESTSET then
    buildEach (reallocBuildVarbind networkByteOrder) pdu.vars
  else if pdu.command = AGENTX_MSG_COMMITSET ∨ pdu.command = AGENTX_MSG_UNDOSET ∨ pdu.command = AGENTX_MSG_PING ∨
      pdu.command = AGENTX_MSG_CLEANUPSET then
    return []
  else if pdu.command = AGENTX_MSG_ADD_AGENT_CAPS then
    buildDescription networkByteOrder pdu.vars
  else if pdu.command = AGENTX_MSG_REMOVE_AGENT_CAPS then
    match pdu.vars with
    | [] => .error .misread
    | vp :: _ => .ok (reallocBuildOid networkByteOrder 0 vp.name)
  else .error .unknownPdu

/-- The message behind the preparations, its length put in when it is known. -/
def buildPrepared (networkByteOrder : Bool) (pdu : AgentxPdu) : Except NotBuilt (List UInt8) := do
  let body ← buildBody networkByteOrder pdu
  let payload := buildContext networkByteOrder pdu ++ body
  return header networkByteOrder pdu (UInt32.ofNat payload.length) ++ payload

/-- `Protocol_reallocBuild`, from the start of the buffer on. -/
def reallocBuild (pdu : AgentxPdu) : Except NotBuilt (List UInt8) := do
  let pdu ← pdu.prepare
  buildPrepared (pdu.flags &&& AGENTX_FLAGS_NETWORK_BYTE_ORDER ≠ 0) pdu

end Priot.Agentx
