/-
# The image of the remote subtree

An instance below the remote base appears below the local name, and requests are answered as if it were there. What
comes of one request is said here without the buffers and the other requests.
-/
import Priot.OidStash.Next
import Priot.Proxy.Handler

namespace Priot.Proxy

open Agent Lib OidStash

/-! ## the remote agent -/

/-- An agent with a fixed set of instances, which all have values. What it says about a name that it does not have is
its own choice. -/
structure RemoteAgent where
  instances : List (ObjId × VarValue)
  missing : ObjId → NullType
  fits : ∀ i ∈ instances, i.1.length ≤ maxOidLen
  valued : ∀ i ∈ instances, ∀ t, i.2 ≠ .null t

namespace RemoteAgent

def value (A : RemoteAgent) (x : ObjId) : Option VarValue := A.instances.lookup x

def get (A : RemoteAgent) (x : ObjId) : VariableList := ⟨x, (A.value x).getD (.null (A.missing x))⟩

/-- The first instance behind a name. -/
def next (A : RemoteAgent) (x : ObjId) : Option ObjId := least ((A.instances.map Prod.fst).filter (x < ·))

def getNext (A : RemoteAgent) (x : ObjId) : VariableList :=
  match A.next x with
  | some y => A.get y
  | none => ⟨x, .null .endOfMibView⟩

def answerVar (A : RemoteAgent) (getNext : Bool) (x : ObjId) : VariableList := if getNext then A.getNext x else A.get x

def answer (A : RemoteAgent) (pdu : Sent) : Response :=
  ⟨Agent.errNoError, 0, pdu.varList.map fun v => A.answerVar (pdu.command = .getNext) v.name⟩

/-- There is an instance strictly between two names. -/
def Between (A : RemoteAgent) (x y : ObjId) : Prop := ∃ z v, A.value z = some v ∧ x < z ∧ z < y

end RemoteAgent

/-! ## what a request should get -/

variable (name base : ObjId) (A : RemoteAgent) (mode : Mode) (o : ObjId)

/-- Where the instances are on the remote agent. -/
def remote : ObjId := if base = [] then name else base

/-- A varbind is the image of an instance. -/
def Image (v : VariableList) : Prop := ∃ s, v.name = name ++ s ∧ A.value (remote name base ++ s) = some v.value

/-- A request for `o` is about the name `x`. -/
def Sought (x : ObjId) : Prop := if mode = .getNext then o < x else x = o

/-- How a request has ended. -/
inductive Outcome
  | pending
  | failed
  | unanswered
  | answered (v : VariableList)

/-- A varbind that is passed on; one without a value is no answer. -/
def Outcome.ofVar (v : VariableList) : Outcome :=
  match v.value with
  | .null _ => .unanswered
  | _ => .answered v

/-- A GET is answered with the image of that name, a GETNEXT with the first image behind its name. Where there is
none the request is left without an answer, so that the agent can look elsewhere. -/
def Correct : Outcome → Prop
  | .answered v => Image name base A v ∧ Sought mode o v.name ∧
      ∀ w, Image name base A w → Sought mode o w.name → ¬ w.name < v.name
  | .unanswered => ∀ w, Image name base A w → ¬ Sought mode o w.name
  | .pending => False
  | .failed => False

/-! ## when it does -/

/-- The name can be translated within 128 subidentifiers. -/
def Sendable : Prop :=
  base = [] ∨ (mode = .getNext ∧ o < base) ∨
    (name.length ≤ o.length + base.length ∧ o.length + base.length ≤ name.length + maxOidLen)

/-- The last name before `x.y.z` that is not below another one: `x.y` if `z` is 0 or 1, and `x.y.(z-1).MAX`
otherwise. -/
def lastBefore (base : ObjId) : ObjId :=
  match base.getLast? with
  | none => []
  | some last => if last ≤ 1 then base.dropLast else base.dropLast ++ [last - 1, maxSubid]

/-- The search for what follows `o` begins in the right place. -/
structure Reached : Prop where
  /-- A name before the base: the search begins at the start of the base, and must be allowed to. -/
  restarted : base ≠ [] → o < base →
    (A.Between (lastBefore base) base ∧ ∀ w, Image name base A w → ¬ o < w.name) ∨
    (¬ A.Between (lastBefore base) base ∧ ∀ w, Image name base A w → o < w.name)
  /-- A name before the subtree and no base: the search begins at the name itself. -/
  ahead : base = [] → ¬ name <+: o → A.Between o name → ∀ w, ¬ Image name base A w
  /-- A name before the subtree that is shorter than its name, not before the base: as many subidentifiers are cut
  off the base. -/
  shorter : base ≠ [] → ¬ o < base → ¬ name <+: o → o.length < name.length →
    A.Between (base.take (o.length + base.length - name.length)) base → ∀ w, ¬ Image name base A w
  /-- Another name before the subtree, not before the base: its end is taken for what follows the base. -/
  beside : base ≠ [] → ¬ o < base → ¬ name <+: o → name.length ≤ o.length →
    ∀ s v, A.value (base ++ s) = some v → o.drop name.length < s

/-- The first image behind the name is not too long. -/
def Short : Prop :=
  ∀ v, Image name base A v → o < v.name → (∀ w, Image name base A w → o < w.name → ¬ w.name < v.name) →
    v.name.length ≤ maxOidLen

/-! ## what it gets -/

/-- The name that is sent for `o`. -/
def asked : ObjId :=
  if base ≠ [] ∧ mode = .getNext ∧ o < base then lastBefore base
  else if base = [] then o
  else if name.length < o.length then base ++ o.drop name.length
  else base.take (o.length + base.length - name.length)

/-- The name that the requester sees for a name of the response. -/
def back (x : ObjId) : ObjId := if base = [] then x else name ++ x.drop base.length

/-- What comes of a varbind of the response; nothing if its name becomes too long. -/
def takenAs (var : VariableList) : Option Outcome :=
  if remote name base <+: var.name then
    if (back name base var.name).length ≤ maxOidLen then some (.ofVar ⟨back name base var.name, var.value⟩) else none
  else some .unanswered

/-- What comes of a request. -/
def result : Option Outcome := takenAs name base (A.answerVar (mode = .getNext) (asked name base mode o))

end Priot.Proxy
