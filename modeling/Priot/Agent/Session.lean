/-
# Processing one request

The agent sorts the varbinds of a request into cache entries and calls the handlers of every entry, which may delegate
what they are asked. What handlers do is an input, and so are the varbinds that a search has to ask for again. Values
are of any type. The log of calls and reports is not in the source.
-/
import Mathlib.Data.List.Basic

namespace Priot.Agent

/-! ## data -/

def errNoError : Int := 0
def errGenErr : Int := 5
def errNoAccess : Int := 6
def errCommitFailed : Int := 14
def errUndoFailed : Int := 15
def errNotWritable : Int := 17

inductive Command
  | get
  | getNext
  | getBulk
  | set
  deriving DecidableEq

inductive Mode
  | get
  | getNext
  | getBulk
  | setBegin
  | setReserve1
  | setReserve2
  | setAction
  | setCommit
  | setFree
  | setUndo
  | finishedSuccess
  | finishedFailure
  deriving DecidableEq

/-- `RequestInfo`: what is asked of a handler for the varbind at an index. -/
structure RequestInfo where
  index : Nat
  status : Int
  delegated : Bool
  deriving DecidableEq

/-- A phase begins, with something delegated or not; a handler is called for an entry; an error is reported. -/
inductive Event
  | phase (mode : Mode) (delegated : Bool)
  | call (mode : Mode) (indexes : List Nat)
  | error (mode : Mode)
  deriving DecidableEq

/-- `AgentSession`. `inclusives` says that a varbind of a GETNEXT asks for an inclusive range. -/
structure AgentSession (V : Type) where
  transid : Nat
  command : Command
  inclusives : Bool
  mode : Mode
  oldmode : Mode
  status : Int
  index : Nat
  treecache : List (List RequestInfo)
  vars : V
  origVars : V
  log : List Event

/-- What the agent sends back. -/
structure Response (V : Type) where
  vars : V
  errstat : Int
  errindex : Nat
  deriving DecidableEq

/-! What others do. -/

/-- What the handlers do in one pass: the errors they set on requests, 0 for none; the requests they delegate; the
status they return for an entry; and the varbinds they fill. -/
structure Pass (V : Type) where
  report : Nat → Int
  delegate : Nat → Bool
  ret : Nat → Int
  fill : V → V

/-- A pass in which nothing happens. -/
def Pass.idle {V : Type} : Pass V := ⟨fun _ => errNoError, fun _ => false, fun _ => errNoError, id⟩

/-- What a search leaves to be asked again, by entries, and the pass in which it is. -/
structure Round (V : Type) where
  again : List (List Nat)
  pass : Pass V

/-- How the varbinds are sorted into the cache, unless the request is refused with a status and an index. -/
inductive Setup
  | refused (status : Int) (index : Nat)
  | grouped (entries : List (List Nat))

/-- What others do while a session is processed, until it is answered or has something delegated. -/
structure Script (V : Type) where
  setup : Setup
  first : Pass V
  rounds : List (Round V)
  phases : List (Pass V)
  finish : V → V

variable {V : Type}

namespace AgentSession

/-- `Agent_initAgentPriotSession`. -/
def init (transid : Nat) (command : Command) (inclusives : Bool) (vars : V) : AgentSession V :=
  { transid, command, inclusives, mode := .setReserve1, oldmode := .setReserve1, status := errNoError, index := 0,
    treecache := [], vars, origVars := vars, log := [] }

def record (asp : AgentSession V) (e : Event) : AgentSession V := { asp with log := asp.log ++ [e] }

/-- The requests of all entries. -/
def requests (asp : AgentSession V) : List RequestInfo := asp.treecache.flatten

end AgentSession

/-! ## the status of requests -/

def checkForDelegated (asp : AgentSession V) : Bool := asp.requests.any (·.delegated)

/-- `Agent_checkRequestsStatus`, for one request. -/
def checkRequest (lookForSpecific : Int) (asp : AgentSession V) (r : RequestInfo) : AgentSession V :=
  if r.status ≠ errNoError ∧ (lookForSpecific = 0 ∨ r.status = lookForSpecific) ∧
      (lookForSpecific ≠ 0 ∨ asp.index = 0 ∨ r.index < asp.index) then
    { asp with index := r.index, status := r.status }
  else asp

def checkRequestsStatus (asp : AgentSession V) (requests : List RequestInfo) (lookForSpecific : Int) :
    AgentSession V :=
  requests.foldl (checkRequest lookForSpecific) asp

def checkAllRequestsStatus (asp : AgentSession V) (lookForSpecific : Int) : AgentSession V :=
  asp.treecache.foldl (fun asp requests => checkRequestsStatus asp requests lookForSpecific) asp

/-! ## one pass -/

/-- What a handler makes of a request. -/
def Pass.apply (p : Pass V) (r : RequestInfo) : RequestInfo :=
  { r with status := if p.report r.index ≠ errNoError then p.report r.index else r.status,
           delegated := p.delegate r.index }

/-- The errors of a pass for an entry: those set on requests, and the one returned. -/
def Pass.errors (p : Pass V) (mode : Mode) (i : Nat) (requests : List RequestInfo) : List Event :=
  if requests.any (fun r => p.report r.index ≠ errNoError) || p.ret i ≠ errNoError then [.error mode] else []

/-- The errors that a phase looks for, or 0 for any. -/
def lookFor : Mode → Int
  | .setCommit => errCommitFailed
  | .setUndo => errUndoFailed
  | _ => 0

/-- The loop in `Agent_handleVarRequests`: `i` entries are done, the first error is in `finalStatus`. -/
def varRequestsLoop (p : Pass V) (asp : AgentSession V) (i : Nat) (finalStatus : Int) (done : List (List RequestInfo)) :
    List (List RequestInfo) → AgentSession V × Int
  | [] => ({ asp with treecache := done, vars := p.fill asp.vars }, finalStatus)
  | requests :: rest =>
    let requests' := requests.map p.apply
    let asp := { asp with
      log := asp.log ++ .call asp.mode (requests.map (·.index)) :: p.errors asp.mode i requests }
    let asp := checkRequestsStatus asp requests' (lookFor asp.mode)
    let status := if asp.status ≠ errNoError then asp.status else p.ret i
    let finalStatus := if finalStatus = errNoError ∧ status ≠ errNoError then status else finalStatus
    varRequestsLoop p asp (i + 1) finalStatus (done ++ [requests']) rest

def handleVarRequests (asp : AgentSession V) (p : Pass V) : AgentSession V × Int :=
  varRequestsLoop p (asp.record (.phase asp.mode (checkForDelegated asp))) 0 errNoError [] asp.treecache

/-- The requests of an entry as `Agent_addVarbindToCache` makes them. -/
def newRequests (indexes : List Nat) : List RequestInfo := indexes.map fun i => ⟨i, errNoError, false⟩

/-- `Agent_checkGetnextResults` ends the pass of a GET that is made first for inclusive ranges. -/
def endSpecial (asp : AgentSession V) : AgentSession V :=
  { asp with mode := if asp.mode = .get then asp.oldmode else asp.mode }

def reassignRequests (asp : AgentSession V) (again : List (List Nat)) : AgentSession V :=
  { asp with treecache := again.map newRequests }

/-- `Agent_handleGetnextLoop`, for what is left to be asked again of the requests in the cache, if there are any. -/
def handleGetnextLoop : AgentSession V → List (Round V) → AgentSession V × Int
  | asp, [] => if checkForDelegated asp then (asp, errNoError) else (endSpecial asp, errNoError)
  | asp, r :: rounds =>
    if checkForDelegated asp then (asp, errNoError)
    else if asp.treecache = [] then (endSpecial asp, errNoError)
    else
      let (asp, status) := handleVarRequests (reassignRequests (endSpecial asp) r.again) r.pass
      if status ≠ errNoError then (asp, status)
      else handleGetnextLoop asp rounds

/-! ## the phases of a SET -/

/-- The mode that follows, in `Agent_handleSet`. -/
def nextMode (asp : AgentSession V) : AgentSession V :=
  match asp.mode with
  | .setBegin => { asp with mode := .setReserve1, status := errNoError }
  | .setReserve1 => { asp with mode := if asp.status ≠ errNoError then .setFree else .setReserve2 }
  | .setReserve2 => { asp with mode := if asp.status ≠ errNoError then .setFree else .setAction }
  | .setAction => { asp with mode := if asp.status ≠ errNoError then .setUndo else .setCommit }
  | .setCommit => { asp with mode := if asp.status ≠ errNoError then .finishedFailure else .finishedSuccess }
  | .setUndo => { asp with mode := .finishedFailure }
  | .setFree => { asp with mode := .finishedFailure }
  | .get | .getNext | .getBulk | .finishedSuccess | .finishedFailure => asp

def Mode.finished (m : Mode) : Bool := m = .finishedSuccess || m = .finishedFailure

/-- `Agent_handleSet`, with the handlers' part in the phase that it begins. -/
def handleSet (asp : AgentSession V) (p : Pass V) : AgentSession V :=
  let asp := nextMode asp
  if asp.mode.finished then asp
  else
    let (asp, status) := handleVarRequests asp p
    if (status ≠ errNoError ∧ asp.status = errNoError) ∨ status = errCommitFailed ∨ status = errUndoFailed then
      { asp with status }
    else asp

/-- How many steps a SET may still take. -/
def Mode.rank : Mode → Nat
  | .setBegin => 5
  | .setReserve1 => 4
  | .setReserve2 => 3
  | .setAction => 2
  | .setCommit | .setFree | .setUndo => 1
  | .get | .getNext | .getBulk | .finishedSuccess | .finishedFailure => 0

/-- The loop in `Agent_handleSetLoop`, for as many steps as there may be. -/
def setSteps : Nat → AgentSession V → List (Pass V) → AgentSession V
  | 0, asp, _ => asp
  | n + 1, asp, passes =>
    if asp.mode.finished then asp
    else
      let asp := handleSet asp (passes.headD .idle)
      if checkForDelegated asp then asp
      else setSteps n asp passes.tail

def handleSetLoop (asp : AgentSession V) (passes : List (Pass V)) : AgentSession V × Int :=
  let asp := setSteps asp.mode.rank asp passes
  (asp, if checkForDelegated asp then errNoError else asp.status)

/-! ## requests -/

/-- The part of `Agent_handlePdu` for a GETNEXT or GETBULK: the first pass, which is a GET if there are inclusive
ranges, and the search. -/
def handleSearch (asp : AgentSession V) (mode : Mode) (s : Script V) : AgentSession V × Int :=
  let (asp, status) := handleVarRequests
    { asp with
      mode := if asp.inclusives then .get else mode
      oldmode := if asp.inclusives then mode else asp.oldmode } s.first
  if status ≠ errNoError then
    if asp.inclusives then handleGetnextLoop { asp with status := errNoError } s.rounds
    else (asp, status)
  else handleGetnextLoop asp s.rounds

/-- `Agent_handlePdu`, for varbinds that are sorted into entries. -/
def handleEntries (asp : AgentSession V) (s : Script V) : AgentSession V × Int :=
  match asp.command with
  | .get => handleVarRequests { asp with mode := .get } s.first
  | .getNext => handleSearch asp .getNext s
  | .getBulk => handleSearch asp .getBulk s
  | .set => handleSetLoop { asp with mode := .setBegin } s.phases

def handlePdu (asp : AgentSession V) (s : Script V) : AgentSession V × Int :=
  match s.setup with
  | .refused status index => ({ asp with index }, status)
  | .grouped entries => handleEntries { asp with treecache := entries.map newRequests } s

def wrapUpRequest (asp : AgentSession V) (status : Int) (finish : V → V) : AgentSession V × Option (Response V) :=
  let asp := { asp with
    status := if status ≠ errNoError ∧ asp.status = errNoError then status else asp.status
    vars := finish asp.vars }
  (asp, some
    { vars := if status = errNoError then asp.vars else asp.origVars, errstat := asp.status, errindex := asp.index })

/-- `Agent_handleRequest`, for a request that is not queued. There is no answer yet where something is delegated. -/
def handleRequest (asp : AgentSession V) (s : Script V) : AgentSession V × Option (Response V) :=
  let (asp, status) := handlePdu asp s
  if checkForDelegated asp then ({ asp with status }, none)
  else wrapUpRequest asp status s.finish

def checkDelayedRequest (asp : AgentSession V) (s : Script V) : AgentSession V × Option (Response V) :=
  let wrapUp (asp : AgentSession V) :=
    if checkForDelegated asp then (asp, none) else wrapUpRequest asp errNoError s.finish
  let setTop (asp : AgentSession V) :=
    let asp := (handleSetLoop asp s.phases).1
    if asp.mode.finished then wrapUp asp else (asp, none)
  match asp.mode with
  | .getBulk | .getNext => wrapUp (handleGetnextLoop (checkAllRequestsStatus asp 0) s.rounds).1
  | .setCommit => setTop (checkAllRequestsStatus asp errCommitFailed)
  | .setUndo => setTop (checkAllRequestsStatus asp errUndoFailed)
  | .setBegin | .setReserve1 | .setReserve2 | .setAction | .setFree => setTop asp
  | .get | .finishedSuccess | .finishedFailure => wrapUp asp

/-- What `Agent_checkOutstandingAgentRequests` does with a session on the delegated list. -/
def checkOutstanding (asp : AgentSession V) (s : Script V) : AgentSession V × Option (Response V) :=
  if checkForDelegated asp then (asp, none)
  else checkDelayedRequest (checkAllRequestsStatus asp 0) s

/-- A delegated request is completed, with an error or with 0, and its varbind may be filled. -/
structure Completion (V : Type) where
  index : Nat
  status : Int
  fill : V → V

/-- The request that is completed, as it is then. -/
def Completion.apply (c : Completion V) (r : RequestInfo) : RequestInfo :=
  if r.index = c.index ∧ r.delegated then
    { r with delegated := false, status := if c.status ≠ errNoError then c.status else r.status }
  else r

def complete (asp : AgentSession V) (c : Completion V) : AgentSession V :=
  let asked := asp.requests.any fun r => r.index = c.index && r.delegated
  if asked then
    { asp with
      treecache := asp.treecache.map (·.map c.apply)
      vars := c.fill asp.vars
      log := asp.log ++ if c.status ≠ errNoError then [.error asp.mode] else [] }
  else asp

end Priot.Agent
