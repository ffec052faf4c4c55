/-
# Outstanding requests

Requests that wait for an answer are in a singly linked list with a pointer to its last node. Callbacks may send
further requests. The list lives in memory as in the source, and to follow a pointer to a node that is not there is a
fault. Whether a packet could be built and sent, the node that is allocated, message ids, clocks, and what callbacks
send and return are inputs. Serial numbers and the log are not in the source.
-/
import Priot.Lib.LinkedList
import Priot.Lib.Outcome
import Mathlib.Data.List.Basic
import Mathlib.Tactic.Ring

namespace Priot.Requests

open Lib

/-! ## data -/

/-- What an answer in version 3 has to repeat of the PDU it answers. -/
structure PduFields where
  reqid : Int
  version : Int
  securityModel : Int
  securityLevel : Int
  contextEngineID : List UInt8
  contextName : List UInt8
  securityEngineID : List UInt8
  securityName : List UInt8
  deriving DecidableEq

/-- `Api_RequestList`. `serial` is the number of the request; `callback` says that it has one of its own. -/
structure Request where
  serial : Nat
  requestId : Int
  messageId : Int
  callback : Bool
  retries : Nat
  timeout : Nat
  expireM : Nat
  pdu : PduFields
  deriving DecidableEq

/-- The session: how often a request is sent again, and whether there is a callback for requests without one. -/
structure Sess where
  retries : Nat
  callback : Bool

inductive CallbackOp
  | receivedMessage
  | timedOut
  deriving DecidableEq

/-- An incoming response or report. `noEngineMemory` says that the memory for an engine id could not be had. -/
structure Message where
  fields : PduFields
  msgid : Int
  report : Bool
  notInTimeWindow : Bool
  noEngineMemory : Bool
  deriving DecidableEq

/-- Why a request has left the list, with the request as it was then. -/
inductive Cause
  | message (pdu : Message) (rp : Request)
  | timeout (now : Nat) (rp : Request)
  deriving DecidableEq

inductive Event
  | send (serial : Nat)
  | transmit (serial : Nat)
  | callback (op : CallbackOp) (serial : Nat) (accepted : Bool)
  | finish (serial : Nat) (cause : Cause)
  deriving DecidableEq

/-- `Api_InternalSession_s`: the list, the memory it is in, the number of the next request, and the log, with the
newest event first. -/
structure InternalSession where
  heap : Heap Request
  requests : Option Ptr
  requestsEnd : Option Ptr
  serial : Nat
  log : List Event

inductive Fault
  | badPointer
  | inUse
  | rounds
  deriving DecidableEq

/-- A request to be sent. `sent` says that the packet could be built and sent, and `node` is what is allocated
for it. -/
structure Send where
  sent : Bool
  node : Option Ptr
  pdu : PduFields
  msgid : Int
  callback : Bool
  timeout : Nat
  now : Nat

/-- One run of a callback: what it sends, and whether it returns 1. -/
structure Call where
  sends : List Send
  accepted : Bool

/-- How it goes when a request is sent again. Building the packet may change its PDU. -/
inductive Resend
  | noBuffer
  | notSent (msgid : Int) (pdu : PduFields)
  | sent (msgid : Int) (pdu : PduFields) (now : Nat)

def versionThree : Int := 3
def secModelUsm : Int := 3

namespace InternalSession

def record (s : InternalSession) (e : Event) : InternalSession := { s with log := e :: s.log }

/-- The node a pointer leads to. -/
def deref (s : InternalSession) (p : Ptr) : Except Fault (Cell Request) :=
  match s.heap p with
  | some c => .ok c
  | none => .error .badPointer

def store (s : InternalSession) (p : Ptr) (c : Cell Request) : InternalSession :=
  { s with heap := Function.update s.heap p (some c) }

def free (s : InternalSession) (p : Ptr) : InternalSession :=
  { s with heap := Function.update s.heap p none }

/-- `free`, which does nothing for `NULL`. -/
def freeme (s : InternalSession) : Option Ptr → InternalSession
  | some p => s.free p
  | none => s

/-- An empty list. -/
def opened (heap : Heap Request) : InternalSession := ⟨heap, none, none, 0, []⟩

end InternalSession

open InternalSession

/-! ## sending -/

/-- The request that is made for a PDU. -/
def Send.request (x : Send) (serial : Nat) : Request :=
  { serial, requestId := x.pdu.reqid, messageId := x.msgid, callback := x.callback, retries := 0,
    timeout := x.timeout, expireM := x.now + x.timeout, pdu := x.pdu }

/-- `_Api_sessAsyncSend`, from the sending of the packet. -/
def sessAsyncSend (s : InternalSession) (x : Send) : Except Fault InternalSession :=
  match x.sent, x.node with
  | false, _ => .ok s
  | true, none => .ok s
  | true, some p =>
    if (s.heap p).isSome then .error .inUse
    else
      let rp := x.request s.serial
      let s := { s with serial := s.serial + 1, log := .transmit s.serial :: .send s.serial :: s.log }
      match s.requestsEnd with
      | some e => do
        let c ← s.deref e
        .ok { (s.store p ⟨c.next, rp⟩).store e ⟨some p, c.data⟩ with requestsEnd := some p }
      | none => .ok { s.store p ⟨s.requests, rp⟩ with requests := some p, requestsEnd := some p }

def sendAll : InternalSession → List Send → Except Fault InternalSession
  | s, [] => .ok s
  | s, x :: xs => do
    let s ← sessAsyncSend s x
    sendAll s xs

/-- The callback of a request, or else of the session, is run; the result is 1 where there is none. A callback that
`calls` says nothing about returns 1. -/
def runCallback (sp : Sess) (s : InternalSession) (op : CallbackOp) (rp : Request) (calls : List Call) :
    Except Fault (InternalSession × Bool × List Call) :=
  if rp.callback || sp.callback then
    match calls with
    | call :: calls => do
      let s ← sendAll s call.sends
      .ok (s.record (.callback op rp.serial call.accepted), call.accepted, calls)
    | [] => .ok (s.record (.callback op rp.serial true), true, [])
  else .ok (s, true, calls)

/-- `_Api_resendRequest`, with `incr_retries` set. The result says that it is not 0. -/
def resendRequest (s : InternalSession) (p : Ptr) : Resend → Except Fault (InternalSession × Bool)
  | .noBuffer => .ok (s, false)
  | .notSent msgid pdu => do
    let c ← s.deref p
    let rp := { c.data with retries := c.data.retries + 1, messageId := msgid, pdu }
    .ok (s.store p ⟨c.next, rp⟩, true)
  | .sent msgid pdu now => do
    let c ← s.deref p
    let rp := { c.data with retries := c.data.retries + 1, messageId := msgid, pdu, expireM := now + c.data.timeout }
    .ok ((s.store p ⟨c.next, rp⟩).record (.transmit rp.serial), false)

/-- What leads to the request behind `orp`, or to the first, leads to `next`. -/
def setNext (s : InternalSession) (orp next : Option Ptr) : Except Fault InternalSession :=
  match orp with
  | some o => do
    let c ← s.deref o
    .ok (s.store o ⟨next, c.data⟩)
  | none => .ok { s with requests := next }

/-- A request is taken out of the list, behind `orp` or at its beginning. -/
def unlinkRequest (s : InternalSession) (orp : Option Ptr) (p : Ptr) : Except Fault InternalSession := do
  let c ← s.deref p
  let s ← setNext s orp c.next
  .ok { s with requestsEnd := if s.requestsEnd = some p then orp else s.requestsEnd }

/-! ## answers -/

def v3VerifyMsg (rp : Request) (pdu : Message) : Bool :=
  if pdu.report then true
  else if rp.requestId ≠ pdu.fields.reqid ∨ rp.pdu.reqid ≠ pdu.fields.reqid then false
  else if rp.pdu.version ≠ pdu.fields.version then false
  else if rp.pdu.securityModel ≠ pdu.fields.securityModel then false
  else if rp.pdu.securityLevel ≠ pdu.fields.securityLevel then false
  else if rp.pdu.contextEngineID ≠ pdu.fields.contextEngineID then false
  else if rp.pdu.contextName ≠ pdu.fields.contextName then false
  else if pdu.fields.securityModel = secModelUsm ∧ rp.pdu.securityEngineID ≠ pdu.fields.securityEngineID then false
  else if rp.pdu.securityName ≠ pdu.fields.securityName then false
  else true

/-- What the scan does at a request: go on, stop, or run its callback. -/
inductive Scan
  | skip
  | stop
  | callback
  deriving DecidableEq

def scan (pdu : Message) (rp : Request) : Scan :=
  if pdu.fields.version = versionThree then
    if rp.messageId ≠ pdu.msgid then .skip
    else if v3VerifyMsg rp pdu then .callback
    else .stop
  else if rp.requestId ≠ pdu.fields.reqid then .skip
  else .callback

/-- The message has been accepted for the request at `p`: it is sent again or deleted. -/
def accept (sp : Sess) (pdu : Message) (resend : Resend) (s : InternalSession) (orp : Option Ptr) (p : Ptr) :
    Except Fault InternalSession := do
  let c ← s.deref p
  if pdu.report ∧ pdu.notInTimeWindow ∧ c.data.retries ≤ sp.retries then
    let (s, _) ← resendRequest s p resend
    .ok s
  else if pdu.report ∧ pdu.noEngineMemory then .ok s
  else
    let s ← unlinkRequest s orp p
    .ok ((s.record (.finish c.data.serial (.message pdu c.data))).free p)

/-- The loop over the requests in `_Api_sessProcessPacket`. -/
def packetLoop (sp : Sess) (pdu : Message) (resend : Resend) :
    Nat → InternalSession → List Call → Option Ptr → Option Ptr → Except Fault InternalSession
  | _, s, _, _, none => .ok s
  | 0, _, _, _, some _ => .error .rounds
  | n + 1, s, calls, orp, some p => do
    let c ← s.deref p
    match scan pdu c.data with
    | .skip => packetLoop sp pdu resend n s calls (some p) c.next
    | .stop => .ok s
    | .callback => do
      let (s, accepted, calls) ← runCallback sp s .receivedMessage c.data calls
      if accepted then accept sp pdu resend s orp p
      else do
        let c ← s.deref p
        packetLoop sp pdu resend n s calls (some p) c.next

/-- How many requests callbacks may still send. -/
def sendsLeft (calls : List Call) : Nat := (calls.map fun c => c.sends.length).sum

/-- `_Api_sessProcessPacket` for a response or a report. -/
def sessProcessPacket (sp : Sess) (s : InternalSession) (pdu : Message) (resend : Resend) (calls : List Call) :
    Except Fault InternalSession :=
  packetLoop sp pdu resend (s.serial + sendsLeft calls) s calls none s.requests

/-! ## timeouts -/

/-- The loop in `Api_sessTimeout`. A deleted request is freed when the loop has gone on from it. -/
def timeoutLoop (sp : Sess) (now : Nat) (resends : Nat → Resend) :
    Nat → InternalSession → List Call → Option Ptr → Option Ptr → Option Ptr → Except Fault InternalSession
  | _, s, _, _, freeme, none => .ok (s.freeme freeme)
  | 0, _, _, _, _, some _ => .error .rounds
  | n + 1, s, calls, orp, freeme, some p => do
    let s := s.freeme freeme
    let c ← s.deref p
    if c.data.expireM < now then
      if sp.retries ≤ c.data.retries then
        let (s, _, calls) ← runCallback sp s .timedOut c.data calls
        let s ← unlinkRequest s orp p
        let s := s.record (.finish c.data.serial (.timeout now c.data))
        let c ← s.deref p
        timeoutLoop sp now resends n s calls orp (some p) c.next
      else
        let (s, failed) ← resendRequest s p (resends c.data.serial)
        if failed then .ok s
        else
          let c ← s.deref p
          timeoutLoop sp now resends n s calls (some p) none c.next
    else timeoutLoop sp now resends n s calls (some p) none c.next

def sessTimeout (sp : Sess) (s : InternalSession) (now : Nat) (resends : Nat → Resend) (calls : List Call) :
    Except Fault InternalSession :=
  timeoutLoop sp now resends (s.serial + sendsLeft calls) s calls none none s.requests

/-! ## runs -/

/-- What may happen in a session. -/
inductive Action
  | send (x : Send)
  | packet (pdu : Message) (resend : Resend) (calls : List Call)
  | timeout (now : Nat) (resends : Nat → Resend) (calls : List Call)

def step (sp : Sess) (s : InternalSession) : Action → Except Fault InternalSession
  | .send x => sessAsyncSend s x
  | .packet pdu resend calls => sessProcessPacket sp s pdu resend calls
  | .timeout now resends calls => sessTimeout sp s now resends calls

/-- The states that a session comes to by actions that all meet `A`. -/
inductive Reachable (sp : Sess) (A : InternalSession → Action → Prop) : InternalSession → Prop
  | opened (heap : Heap Request) : Reachable sp A (.opened heap)
  | step {s s' : InternalSession} {a : Action} :
      Reachable sp A s → A s a → step sp s a = .ok s' → Reachable sp A s'

end Priot.Requests
