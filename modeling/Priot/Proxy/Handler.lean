/-
# `proxy.c` — a subtree that another agent serves

Requests below the local name are sent on with the remote base in its place, and the names that come back are
rewritten. The name to be sent is put together in the cells that follow the base in the entry's buffer. Memory can
always be had. Names have at most 128 subidentifiers, so those of varbinds are in `nameLoc`. What
`BulkToNext_fixRequests` does is an input.
-/
import Priot.Agent.Session
import Priot.Lib.Buffer
import Priot.Registry.Oid
import Mathlib.Tactic.Ring

namespace Priot.Proxy

open Agent Lib Registry

/-! ## data -/

abbrev maxOidLen : Nat := 128

def maxSubid : Oid := 0xFFFFFFFF

/-- `oid[asnMAX_OID_LEN]`. -/
abbrev OidBuffer := Buffer Oid maxOidLen

/-- `struct simple_proxy`. Of the session only is kept whether there is one. -/
structure SimpleProxy where
  name : OidBuffer
  nameLen : Nat
  base : OidBuffer
  baseLen : Nat
  sess : Bool

/-- `requestvb`, whose name is in `nameLoc`. -/
structure RequestVar where
  nameLoc : OidBuffer
  nameLength : Nat
  value : VarValue

def RequestVar.name (v : RequestVar) : ObjId := v.nameLoc.read v.nameLength

/-- `RequestInfo`. -/
structure Request where
  requestvb : RequestVar
  delegated : Bool
  processed : Bool
  status : Int

/-- What the proxy sends: the command and the varbinds. -/
structure Sent where
  command : Command
  varList : List VariableList

/-- The PDU that comes back. -/
structure Response where
  errstat : Int
  errindex : Int
  varList : List VariableList

/-- Why `proxy_got_response` is called. -/
inductive Operation
  | timedOut
  | receivedMessage (pdu : Response)
  | other

def errNoSuchName : Int := 2
def errNoCreation : Int := 11

/-! ## errors -/

/-- A `long` given as an `int`. -/
def intOfLong (v : Int) : Int := Int.bmod v (2 ^ 32)

/-- The exceptions among the error values. -/
def exception (error : Int) : Option NullType :=
  if error = 0x80 then some .noSuchObject
  else if error = 0x81 then some .noSuchInstance
  else if error = 0x82 then some .endOfMibView
  else none

def requestSetError (r : Request) (mode : Mode) (error : Int) : Request :=
  let r := { r with processed := true, delegated := false }
  match exception error with
  | some t =>
    match mode with
    | .get | .getNext | .getBulk => { r with requestvb := { r.requestvb with value := .null t } }
    | .setReserve1 => { r with status := errNoCreation }
    | _ => { r with status := errNoSuchName }
  | none => { r with status := if error < 0 then errGenErr else error }

/-- `Agent_setRequestError( reqinfo, requests, error )`, for the first request of the list. -/
def setRequestError (mode : Mode) (error : Int) : List Request → List Request
  | [] => []
  | r :: rs => requestSetError r mode error :: rs

/-- `Agent_requestSetErrorIdx`. The count starts at 2, so the first request is the second one as well. -/
def requestSetErrorIdx (mode : Mode) (error idx : Int) (requests : List Request) : List Request :=
  requests.modify (idx - 2).toNat fun r => requestSetError r mode error

/-- `AgentHandler_handlerMarkRequestsAsDelegated( requests, REQUEST_IS_NOT_DELEGATED )`. -/
def markNotDelegated (requests : List Request) : List Request := requests.map fun r => { r with delegated := false }

/-- `Client_setVarObjid`, for a name that `nameLoc` has room for. -/
def setVarObjid (v : RequestVar) (name : ObjId) : Option RequestVar := do
  let nameLoc ← v.nameLoc.write 0 name
  return { v with nameLoc := nameLoc, nameLength := name.length }

/-! ## requests on their way out -/

/-- What becomes of the name of a request: it is too long, or it is sent as `name`. Both buffers may have been
written to. -/
inductive Translated
  | tooLong
  | ask (sp : SimpleProxy) (v : RequestVar) (name : ObjId)

/-- A GETNEXT with a name before the base asks for what follows the last name before it. -/
def restart (sp : SimpleProxy) (v : RequestVar) : Option Translated := do
  let ourname ← v.nameLoc.write 0 (sp.base.read sp.baseLen)
  let last ← ourname.cells[sp.baseLen - 1]?
  if last ≤ 1 then
    return .ask sp { v with nameLoc := ourname } (ourname.read (sp.baseLen - 1))
  else
    let ourname ← ourname.write (sp.baseLen - 1) [last - 1]
    let ourname ← ourname.write sp.baseLen [maxSubid]
    return .ask sp { v with nameLoc := ourname } (ourname.read (sp.baseLen + 1))

/-- `ourlength - sp->name_len + sp->base_len` for values of type `size_t`. -/
def translatedLength (sp : SimpleProxy) (ourlength : Nat) : Nat :=
  (ourlength + 2 ^ 64 - sp.nameLen + sp.baseLen) % 2 ^ 64

/-- The body of the loop of `proxy_handler`. -/
def translate (sp : SimpleProxy) (mode : Mode) (v : RequestVar) : Option Translated :=
  if sp.baseLen ≠ 0 ∧ mode = .getNext ∧ oidCompare v.name (sp.base.read sp.baseLen) = .lt then
    restart sp v
  else if 0 < sp.baseLen then
    let ourlength := translatedLength sp v.nameLength
    if ourlength > maxOidLen then some .tooLong
    else if v.nameLength > sp.nameLen then do
      let base ← sp.base.write sp.baseLen (v.name.drop sp.nameLen)
      return .ask { sp with base := base } v (base.read ourlength)
    else some (.ask sp v (sp.base.read ourlength))
  else some (.ask sp v v.name)

/-- The loop of `proxy_handler`. It ends early at a name that is too long; the requests before it are marked as
delegated then, and nothing is sent. -/
def forwardLoop (sp : SimpleProxy) (mode : Mode) :
    List Request → Option (SimpleProxy × List Request × Option (List VariableList))
  | [] => some (sp, [], some [])
  | r :: rs => do
    match ← translate sp mode r.requestvb with
    | .tooLong => return (sp, r :: rs, none)
    | .ask sp v name =>
      let rest ← forwardLoop sp mode rs
      return (rest.1, { r with requestvb := v, delegated := true } :: rest.2.1,
        rest.2.2.map (⟨name, r.requestvb.value⟩ :: ·))

/-- How `proxy_handler` ends: it returns a code and has sent nothing, or it has sent a request. -/
inductive Handled
  | returned (code : Int) (requests : List Request)
  | sent (sp : SimpleProxy) (pdu : Sent) (requests : List Request)

/-- The part of `proxy_handler` behind the switch. -/
def forward (handlerProxy : Option SimpleProxy) (mode : Mode) (command : Command)
    (requests : List Request) : Option Handled :=
  match handlerProxy with
  | none => some (.returned errNoError (setRequestError mode errGenErr requests))
  | some sp => do
    let (sp, requests, vars) ← forwardLoop sp mode requests
    match vars with
    | none => return .returned errNoError requests
    | some vars =>
      -- `proxy_fill_in_session` only looks whether there is a session.
      if sp.sess then return .sent sp ⟨command, vars⟩ requests
      else return .returned errNoError (setRequestError mode errGenErr requests)

/-- `proxy_handler`; `handlerProxy` is `handler->myvoid`. -/
def proxyHandler (handlerProxy : Option SimpleProxy) (mode : Mode) (requests : List Request) : Option Handled :=
  match mode with
  | .get => forward handlerProxy mode .get requests
  | .getNext => forward handlerProxy mode .getNext requests
  | .getBulk => forward handlerProxy mode .getBulk requests
  | .setAction => forward handlerProxy mode .set requests
  | .setUndo =>
    if requests.any (fun r => r.status = errNoError) then
      some (.returned errUndoFailed (setRequestError mode errUndoFailed requests))
    else some (.returned errNoError requests)
  | _ => some (.returned errNoError requests)

/-! ## the response -/

/-- A name is not below the subtree whose first `len` subidentifiers are in the buffer. -/
def outOfRange (buffer : OidBuffer) (len : Nat) (name : ObjId) : Bool :=
  name.length < len || oidCompare (name.take len) (buffer.read len) ≠ .eq

/-- `myname` and `myname_len`, or nothing if the name would be too long; `stack` is what was on the stack. -/
def rewriteBack (stack : OidBuffer) (sp : SimpleProxy) (name : ObjId) : Option (Option ObjId) := do
  let myname ← stack.write 0 (sp.name.read sp.nameLen)
  let mynameLen := sp.nameLen + name.length - sp.baseLen
  if mynameLen > maxOidLen then return none
  else if name.length > sp.baseLen then
    let myname ← myname.write sp.nameLen (name.drop sp.baseLen)
    return some (myname.read mynameLen)
  else return some (myname.read mynameLen)

/-- How a request takes a varbind of the response. -/
inductive Taken
  | tooLong (r : Request)
  | updated (r : Request)

/-- The body of the loop of `proxy_got_response`. -/
def takeVar (stack : OidBuffer) (sp : SimpleProxy) (r : Request) (var : VariableList) : Option Taken :=
  let r := { r with requestvb := { r.requestvb with value := var.value }, delegated := false }
  if sp.baseLen ≠ 0 ∧ outOfRange sp.base sp.baseLen var.name then
    some (.updated { r with requestvb := { r.requestvb with value := .null .null } })
  else if sp.baseLen = 0 ∧ outOfRange sp.name sp.nameLen var.name then
    some (.updated { r with requestvb := { r.requestvb with value := .null .null } })
  else if sp.baseLen ≠ 0 then do
    match ← rewriteBack stack sp var.name with
    | none => return .tooLong r
    | some myname => return .updated { r with requestvb := ← setVarObjid r.requestvb myname }
  else do
    return .updated { r with requestvb := ← setVarObjid r.requestvb var.name }

/-- How the loop of `proxy_got_response` ends: at a name that is too long, or at the end of one of the lists, `rest`
being whether there are requests or varbinds left. -/
inductive Ended
  | tooLong
  | through (rest : Bool)

/-- The loop of `proxy_got_response`. -/
def updateLoop (stack : OidBuffer) (sp : SimpleProxy) :
    List Request → List VariableList → Option (List Request × Ended)
  | r :: rs, var :: vars => do
    match ← takeVar stack sp r var with
    | .tooLong r => return (r :: rs, .tooLong)
    | .updated r =>
      let rest ← updateLoop stack sp rs vars
      return (r :: rest.1, rest.2)
  | [], [] => some ([], .through false)
  | rs, _ => some (rs, .through true)

/-- `proxy_got_response`; `localinfo` is the entry in the delegated cache, which is still valid. -/
def proxyGotResponse (fixRequests : List Request → List Request) (stack : OidBuffer)
    (localinfo : Option SimpleProxy) (mode : Mode) (operation : Operation) (requests : List Request) :
    Option (Int × List Request) :=
  match localinfo, operation with
  | none, _ => some (errNoError, requests)
  | some _, .timedOut =>
    let requests := markNotDelegated requests
    some (0, if mode ≠ .getNext then setRequestError mode errGenErr requests else requests)
  | some sp, .receivedMessage pdu =>
    if pdu.errstat ≠ errNoError then
      let requests := markNotDelegated requests
      let requests :=
        if mode = .getNext ∧ pdu.errstat = errNoSuchName then requests
        else requestSetErrorIdx mode (intOfLong pdu.errstat) (intOfLong pdu.errindex) requests
      some (1, if mode = .getBulk then fixRequests requests else requests)
    else do
      let (requests, ended) ← updateLoop stack sp requests pdu.varList
      match ended with
      | .tooLong => return (1, setRequestError mode errGenErr requests)
      | .through rest =>
        let requests := if rest then setRequestError mode errGenErr requests else requests
        return (1, if mode = .getBulk then fixRequests requests else requests)
  | some _, .other => some (1, requests)

end Priot.Proxy
