/-
# SET requests in the subagent

The subagent keeps what a TestSet said and runs the phases of an internal SET from it. Each phase is a request to the
internal agent, and the response comes later. Memory can always be had, and a request can always be sent. The internal
agent answers with the variables that it was given.
-/
import Priot.Lib.LinkedList

namespace Priot.Subagent

open Lib

/-! ## data -/

/-- `PRIOT_MSG_INTERNAL_SET_RESERVE1` and so on. -/
inductive Mode
  | reserve1
  | reserve2
  | action
  | commit
  | free
  | undo
  deriving DecidableEq

/-- `AGENTX_MSG_TESTSET` and so on. -/
inductive Command
  | testSet
  | commitSet
  | undoSet
  | cleanupSet
  deriving DecidableEq

def AGENTX_ERR_PARSE_FAILED : Int := 266
def AGENTX_ERR_PROCESSING_ERROR : Int := 268
def PRIOT_ERR_NOERROR : Int := 0

/-- `AgentSetInfo_s`. Nothing is stored as the error status before the first phase has ended. -/
structure AgentSetInfo (V : Type) where
  transID : Int
  sess : Ptr
  mode : Mode
  errstat : Option Int
  varList : List V

/-- A request to the internal agent. -/
structure InternalPdu (V : Type) where
  command : Mode
  transid : Int
  vars : List V

/-- `_subagent_sets`, each with its address, the next address to be allocated, and the requests to the internal agent
that it has not yet answered, each with the `AgentSetInfo_s` that is passed along. -/
structure State (V : Type) where
  sets : List (Ptr × AgentSetInfo V)
  brk : Ptr
  pending : List (Ptr × InternalPdu V)

/-- What happens at a step: a request to the internal agent is sent, one is answered, or an answer to the master is
sent. -/
inductive Output (V : Type)
  | internal (magic : Ptr) (pdu : InternalPdu V)
  | answered (magic : Ptr) (mode : Mode) (errstat : Int)
  | error (sess : Ptr) (transid errstat : Int)
  | response (sess : Ptr) (transid errstat : Int)

variable {V : Type}

def fresh : State V := ⟨[], 0, []⟩

/-! ## saved sets -/

/-- The test for a saved set that all searches make. -/
def isFor (sess : Ptr) (transid : Int) (x : Ptr × AgentSetInfo V) : Bool :=
  x.2.sess = sess ∧ x.2.transID = transid

/-- `Subagent_saveSetVars`. There is no clone of an empty list. -/
def saveSetVars (s : State V) (ss : Ptr) (transid : Int) (vars : List V) : Option (Ptr × State V) :=
  if vars.isEmpty then none
  else some (s.brk, { s with
    sets := (s.brk, ⟨transid, ss, .reserve1, none, vars⟩) :: s.sets
    brk := s.brk + 1 })

def restoreSetVars (s : State V) (sess : Ptr) (transid : Int) : Option (Ptr × AgentSetInfo V) :=
  match s.sets.find? (isFor sess transid) with
  | some x => if x.2.varList.isEmpty then none else some x
  | none => none

def freeSetVars (s : State V) (ss : Ptr) (transid : Int) : State V :=
  { s with sets := s.sets.eraseP (isFor ss transid) }

/-- A saved set is written to. -/
def setInfo (s : State V) (p : Ptr) (f : AgentSetInfo V → AgentSetInfo V) : State V :=
  { s with sets := s.sets.map fun x => if x.1 = p then (x.1, f x.2) else x }

/-- The mode of the saved set and the command of the request are set, and the request is sent. -/
def submit (s : State V) (asi : Ptr) (mode : Mode) (transid : Int) (vars : List V) :
    State V × List (Output V) :=
  let pdu : InternalPdu V := ⟨mode, transid, vars⟩
  let s := setInfo s asi fun a => { a with mode := mode }
  ({ s with pending := s.pending ++ [(asi, pdu)] }, [.internal asi pdu])

/-! ## the handlers -/

/-- `Subagent_handleAgentxPacket`, for the requests of a SET. -/
def handleAgentxPacket (s : State V) (session : Ptr) (command : Command) (transid : Int) (vars : List V) :
    State V × List (Output V) :=
  match command with
  | .testSet =>
    match saveSetVars s session transid vars with
    | none => (s, [.error session transid AGENTX_ERR_PARSE_FAILED])
    | some (asi, s) => submit s asi .reserve1 transid vars
  | .commitSet =>
    match restoreSetVars s session transid with
    | none => (s, [.error session transid AGENTX_ERR_PROCESSING_ERROR])
    | some (asi, a) =>
      if a.mode ≠ .reserve2 then (s, [.error session transid AGENTX_ERR_PROCESSING_ERROR])
      else submit s asi .action transid a.varList
  | .cleanupSet =>
    match restoreSetVars s session transid with
    | none => (s, [.error session transid AGENTX_ERR_PROCESSING_ERROR])
    | some (asi, a) =>
      if a.mode = .reserve1 ∨ a.mode = .reserve2 then submit s asi .free transid a.varList
      else if a.mode = .action then submit s asi .commit transid a.varList
      else (s, [])
  | .undoSet =>
    match restoreSetVars s session transid with
    | none => (s, [.error session transid AGENTX_ERR_PROCESSING_ERROR])
    | some (asi, a) => submit s asi .undo transid a.varList

/-- `Subagent_handleSubagentSetResponse`, for a response to `pdu`. -/
def handleSubagentSetResponse (s : State V) (asi : Ptr) (pdu : InternalPdu V) (errstat : Int) :
    Option (State V × List (Output V)) := do
  let a ← s.sets.lookup asi
  let s := setInfo s asi fun a => { a with errstat := some errstat }
  if a.mode = .reserve1 then
    if errstat = PRIOT_ERR_NOERROR then some (submit s asi .reserve2 pdu.transid pdu.vars)
    else some (s, [.response a.sess pdu.transid errstat])
  else
    let s := if a.mode = .free ∨ a.mode = .undo ∨ a.mode = .commit then freeSetVars s a.sess pdu.transid else s
    some (s, [.response a.sess pdu.transid errstat])

/-- A request of the master arrives, or the internal agent has answered the request about a saved set. -/
inductive Event (V : Type)
  | packet (session : Ptr) (command : Command) (transid : Int) (vars : List V)
  | completed (asi : Ptr) (errstat : Int)

/-- One event. -/
def step (s : State V) : Event V → Option (State V × List (Output V))
  | .packet session command transid vars => some (handleAgentxPacket s session command transid vars)
  | .completed asi errstat => do
    let pdu ← s.pending.lookup asi
    let (s, out) ← handleSubagentSetResponse { s with pending := s.pending.eraseP (·.1 = asi) } asi pdu errstat
    some (s, .answered asi pdu.command errstat :: out)

end Priot.Subagent
