/-
# The AgentX master (`Master.c`)

The requests of one registration are sent to a subagent and marked as delegated; the answer is delivered later. Memory
can always be had. A request has its varbinds to itself, `requestvb` is one of them, and the ones behind it are its
repetitions. Of the sessions only is kept what is done to requests when one is closed.
-/
import Priot.Agentx.Protocol
import Priot.Proxy.Handler

namespace Priot.Agentx

open Agent Proxy Registry

/-! ## data -/

/-- A varbind of a request. Without a value it is of the type `asnPRIV_RETRY`. -/
structure RequestVar where
  name : ObjId
  value : Option Value
  deriving DecidableEq

/-- `RequestInfo`: the varbinds that have been answered, `requestvb` and the ones behind it. `startA` is that of the
subtree. Of the subtree's session is kept whether it is the one that closing finds the request by. -/
structure Request where
  answered : List RequestVar
  requestvb : RequestVar
  behind : List RequestVar
  repeats : Nat
  rangeEnd : ObjId
  startA : ObjId
  inclusive : Nat
  ofSession : Bool
  delegated : Bool
  processed : Bool
  status : Int
  deriving DecidableEq

def Request.varbinds (r : Request) : List RequestVar := r.answered ++ r.requestvb :: r.behind

/-- `DelegatedCache`; the mode is the one of `reqinfo`. -/
structure DelegatedCache where
  transactionId : Int
  mode : Mode
  requests : List Request

/-- The session of a subagent, with what is read of its `subsession`. -/
structure AxSession where
  sessid : Int
  networkByteOrder : Bool

/-- What `Master_handler` leaves: the requests, what it sends, and the cache for the answer. -/
structure Handled where
  requests : List Request
  pdu : Option AgentxPdu
  cache : Option DelegatedCache

/-- `Client_setVarTypedValue`, as far as it changes a value of the type it is for. -/
def setVarTypedValue : Value → Value
  | .integer v => .integer (if v > 0xffffffff then v % 2 ^ 32 else v)
  | .unsigned t v => .unsigned t (if v > 0xffffffff then v % 2 ^ 32 else v)
  | value => value

/-- A message that has arrived: an error status has two octets, and the variables have been put there by
`Api_pduAddVariable`, which stores them in the same way. -/
structure Message where
  pdu : AgentxPdu
  errstat_nonneg : 0 ≤ pdu.errstat
  errstat_lt : pdu.errstat < 2 ^ 16
  stored : ∀ x ∈ pdu.vars, setVarTypedValue x.value = x.value

/-- Why `Master_gotResponse` is called. -/
inductive Operation
  | timedOut
  | disconnect
  | sendFailed
  | receivedMessage (message : Message)
  | other

/-- The modes in which values are asked for. -/
def Asks (mode : Mode) : Prop := mode = .get ∨ mode = .getNext ∨ mode = .getBulk

instance : DecidablePred Asks := fun _ => inferInstanceAs (Decidable (_ ∨ _ ∨ _))

/-! ## errors -/

def requestSetError (r : Request) (mode : Mode) (error : Int) : Request :=
  let r := { r with processed := true, delegated := false }
  match exception error with
  | some t =>
    if Asks mode then { r with requestvb := { r.requestvb with value := some (.null t) } }
    else if mode = .setReserve1 then { r with status := errNoCreation }
    else { r with status := errNoSuchName }
  | none => { r with status := if error < 0 then errGenErr else error }

/-- `Agent_setRequestError`, for the first request of the list. -/
def setRequestError (mode : Mode) (error : Int) : List Request → List Request
  | [] => []
  | r :: rs => requestSetError r mode error :: rs

/-- `AgentHandler_handlerMarkRequestsAsDelegated( requests, REQUEST_IS_NOT_DELEGATED )`. -/
def markNotDelegated (requests : List Request) : List Request := requests.map fun r => { r with delegated := false }

/-- What `MasterAdmin_closeAgentxSession` does to the requests, in `Agent_removeDelegatedRequestsForSession`. -/
def closeAgentxSession (mode : Mode) (requests : List Request) : List Request :=
  requests.map fun r => if r.ofSession then requestSetError r mode errGenErr else r

/-! ## `Master_handler` -/

/-- The command that is sent; nothing is in `RESERVE2` or in a mode that the handler does not know. -/
def commandOf : Mode → Option Int
  | .get => some AGENTX_MSG_GET
  | .getNext | .getBulk => some AGENTX_MSG_GETNEXT
  | .setReserve1 => some AGENTX_MSG_TESTSET
  | .setAction => some AGENTX_MSG_COMMITSET
  | .setUndo => some AGENTX_MSG_UNDOSET
  | .setCommit | .setFree => some AGENTX_MSG_CLEANUPSET
  | .setBegin | .setReserve2 | .finishedSuccess | .finishedFailure => none

/-- The variable for a request. One of an unknown type is not added. -/
def variableFor (mode : Mode) (r : Request) : Option Variable :=
  if mode = .getNext ∨ mode = .getBulk then
    if oidCompare r.requestvb.name r.startA = .lt then some ⟨r.startA, .range true r.rangeEnd⟩
    else some ⟨r.requestvb.name, .range (r.inclusive ≠ 0) r.rangeEnd⟩
  else r.requestvb.value.map fun value => ⟨r.requestvb.name, setVarTypedValue value⟩

/-- What becomes of a request that is sent: it is delegated unless there will be no answer. -/
def handOver (mode : Mode) (command : Int) (r : Request) : Request :=
  { r with
    inclusive := if mode = .getNext ∨ mode = .getBulk then 0 else r.inclusive
    delegated := command ≠ AGENTX_MSG_CLEANUPSET }

/-- `Client_pduCreate`, and the members that are set then. -/
def newPdu (axSession : AxSession) (command reqid transid : Int) (contextName : Option (List UInt8)) : AgentxPdu where
  version := 193
  command := command
  flags := (if contextName.isSome then AGENTX_MSG_FLAG_NON_DEFAULT_CONTEXT else 0) |||
    (if axSession.networkByteOrder then AGENTX_FLAGS_NETWORK_BYTE_ORDER else 0)
  sessid := axSession.sessid
  transid := transid
  reqid := reqid
  errstat := -1
  errindex := -1
  time := 0
  priority := 0
  rangeSubid := 0
  community := contextName
  contextName := none
  contextNameLen := 0
  vars := []

def masterHandler (axSession : Option AxSession) (contextName : Option (List UInt8)) (mode : Mode)
    (reqid transid : Int) (requests : List Request) : Handled :=
  match axSession with
  | none => ⟨setRequestError mode errGenErr requests, none, none⟩
  | some axSession =>
    match commandOf mode with
    | none => ⟨requests, none, none⟩
    | some command =>
      let pdu := newPdu axSession command reqid transid contextName
      let requests' := requests.map (handOver mode command)
      { requests := requests'
        pdu := some { pdu with vars := requests.filterMap (variableFor mode) }
        cache := if command ≠ AGENTX_MSG_CLEANUPSET then some ⟨transid, mode, requests'⟩ else none }

/-! ## `Master_gotResponse` -/

/-- `AgentHandler_handlerCheckCache`, with the transactions that wait for something delegated. -/
def handlerCheckCache (agentDelegatedList : List Int) (cache : Option DelegatedCache) : Option DelegatedCache :=
  cache.filter fun cache => cache.transactionId ∈ agentDelegatedList

/-- `err`, for a `pdu->errstat` that is not `AGENTX_ERR_NOERROR`. -/
def responseError (errstat : Int) : Int :=
  if errstat = 266 ∨ errstat = 267 ∨ errstat = 268 then errGenErr else errstat.bmod (2 ^ 32)

/-- The loop of the error branch, from request number `i` on, and its `ret`. -/
def errorLoop (mode : Mode) (err errindex : Int) : Int → List Request → List Request × Bool
  | _, [] => ([], false)
  | i, r :: rs =>
    let rest := errorLoop mode err errindex (i + 1) rs
    let r := if i = errindex then requestSetError r mode err else r
    ({ r with delegated := false } :: rest.1, decide (i = errindex) || rest.2)

/-- A request gets its variable. -/
def answer (var : Variable) (r : Request) : Request :=
  let r := if var.value ≠ .null .endOfMibView then
    { r with requestvb := { name := var.name, value := some (setVarTypedValue var.value) } } else r
  { r with delegated := false }

/-- The loop over variables and requests. -/
def answerLoop : List Variable → List Request → List Request
  | var :: vars, r :: rs => answer var r :: answerLoop vars rs
  | [], rs => rs
  | _ :: _, [] => []

/-- The body of the loop of `BulkToNext_fixRequests`. -/
def fixRequest (r : Request) : Request :=
  if 0 < r.repeats ∧ r.requestvb.value ≠ some (.null .null) ∧ r.requestvb.value ≠ none ∧
      oidCompare r.requestvb.name r.rangeEnd = .lt ∧ r.behind ≠ [] then
    { r with
      answered := r.answered ++ [r.requestvb]
      requestvb := { name := r.requestvb.name, value := none }
      behind := r.behind.tail
      repeats := r.repeats - 1
      inclusive := if r.inclusive = 2 then 0 else r.inclusive }
  else r

/-- A response, whatever it says. -/
def gotMessage (mode : Mode) (pdu : AgentxPdu) (requests : List Request) : List Request :=
  if pdu.errstat ≠ 0 then
    let loop := errorLoop mode (responseError pdu.errstat) pdu.errindex 1 requests
    if loop.2 then loop.1 else setRequestError mode errGenErr loop.1
  else if Asks mode then
    let answered := answerLoop pdu.vars requests
    -- request || var
    let answered := if requests.length ≠ pdu.vars.length then setRequestError mode errGenErr answered else answered
    if mode = .getBulk then answered.map fixRequest else answered
  else markNotDelegated requests

/-- `Master_gotResponse`: what it returns, and the requests of the cache, if that is still valid. `found` says that
`Api_sessPointer` finds the session when the time is up. -/
def gotResponse (agentDelegatedList : List Int) (found : Bool) (cache : Option DelegatedCache) (operation : Operation) :
    Int × Option (List Request) :=
  match handlerCheckCache agentDelegatedList cache with
  | none => (0, none)
  | some ⟨_, mode, requests⟩ =>
    match operation with
    | .timedOut =>
      let requests := setRequestError mode errGenErr (markNotDelegated requests)
      (0, some (if found then closeAgentxSession mode requests else requests))
    | .disconnect | .sendFailed =>
      (0, some (setRequestError mode errGenErr (markNotDelegated (closeAgentxSession mode requests))))
    | .receivedMessage message => (1, some (gotMessage mode message.pdu requests))
    | .other => (0, some requests)

end Priot.Agentx
