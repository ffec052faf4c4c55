/-
# `OidStash.c`

A tree of nodes with one subidentifier each. The children of a node are kept in `childrenSize`
lists, by their value modulo `childrenSize`. Allocations succeed, and an OID has less than `2 ^ 32`
subidentifiers.
-/
import Priot.Asn01.Types

namespace Priot.OidStash

variable {D : Type}

/-- `ErrorCode_SUCCESS`, `ErrorCode_GENERR`. -/
inductive ErrorCode
  | success | generr
  deriving DecidableEq, Repr

/-- `OidStashNode_t` with the list that begins at each of its `children`. The parent of a node is
known to who walks down to it. -/
inductive Node (D : Type)
  | mk (value : Oid) (data : Option D) (children : List (List (Node D)))

def CHILDREN_SIZE : Nat := 31

namespace Node

def value : Node D → Oid
  | mk value _ _ => value

def data : Node D → Option D
  | mk _ data _ => data

def children : Node D → List (List (Node D))
  | mk _ _ children => children

def childrenSize (n : Node D) : Nat := n.children.length

/-- `OidStash_createNode`, and `->value = value`. -/
def create (value : Oid) : Node D := mk value none (List.replicate CHILDREN_SIZE [])

/-- `children[ value % childrenSize ]`. -/
def bucket (n : Node D) (value : Oid) : List (Node D) :=
  n.children.getD (value.toNat % n.childrenSize) []

/-- `for ( loopp = tmpp; loopp; loopp = loopp->nextSibling )` until the value is found. -/
def child (n : Node D) (value : Oid) : Option (Node D) := (n.bucket value).find? (·.value == value)

def setData (n : Node D) (d : D) : Node D := mk n.value (some d) n.children

/-- A child changed where it stands. -/
def replaceFirst (c : Node D) : List (Node D) → List (Node D)
  | [] => []
  | s :: siblings => if s.value = c.value then c :: siblings else s :: replaceFirst c siblings

/-- A child that has been changed below, or a new one, which goes in front of its siblings. -/
def setChild (n : Node D) (c : Node D) : Node D :=
  mk n.value n.data (n.children.set (c.value.toNat % n.childrenSize)
    (if (n.child c.value).isSome then replaceFirst c (n.bucket c.value) else c :: n.bucket c.value))

end Node

/-- The loop of `OidStash_addData` from `curnode` on, and what is done at its end. -/
def addPath : List Oid → Node D → D → ErrorCode × Node D
  | [], curnode, data =>
    if curnode.data.isSome then (.generr, curnode) else (.success, curnode.setData data)
  | v :: lookup, curnode, data =>
    let r := addPath lookup ((curnode.child v).getD (Node.create v)) data
    (r.1, curnode.setChild r.2)

def addData (root : Option (Node D)) (lookup : List Oid) (data : D) : ErrorCode × Option (Node D) :=
  if lookup = [] then (.generr, root)
  else
    let r := addPath lookup (root.getD (Node.create 0)) data
    (r.1, some r.2)

/-- The node below `curnode` that `lookup` leads to. -/
def descend : List Oid → Node D → Option (Node D)
  | [], curnode => some curnode
  | v :: lookup, curnode => (curnode.child v).bind (descend lookup)

/-- `OidStash_getNode`: `tmpp` is `NULL` as long as no step has been made. -/
def getNode (root : Option (Node D)) (lookup : List Oid) : Option (Node D) :=
  if lookup = [] then none else root.bind (descend lookup)

def getData (root : Option (Node D)) (lookup : List Oid) : Option D :=
  (getNode root lookup).bind Node.data

/-- The closest matching node, in front of its ancestors, and what of `lookup` is left. -/
def closest : List Oid → Node D → List (Node D) → List (Node D) × List Oid
  | [], curnode, ancestors => (curnode :: ancestors, [])
  | v :: lookup, curnode, ancestors =>
    match curnode.child v with
    | none => (curnode :: ancestors, v :: lookup)
    | some c => closest lookup c (curnode :: ancestors)

/-- `!do_bigger || value > bigger_than`. -/
def above (bound : Option Oid) (value : Oid) : Bool :=
  match bound with
  | none => true
  | some biggerThan => value > biggerThan

/-- The inner `for`: the best child so far, and whether it is the best there can be. -/
def scanBucket (size : Nat) (bound : Option Oid) : Option (Node D) → List (Node D) → Option (Node D) × Bool
  | tmpp, [] => (tmpp, false)
  | tmpp, loopp :: siblings =>
    if above bound loopp.value && tmpp.all (fun t => t.value > loopp.value) then
      if loopp.value.toNat ≤ size - 1 then (some loopp, true)
      else scanBucket size bound (some loopp) siblings
    else scanBucket size bound tmpp siblings

/-- The outer `for`, from some list of children on. -/
def scanChildren (size : Nat) (bound : Option Oid) :
    Option (Node D) → List (List (Node D)) → Option (Node D)
  | tmpp, [] => tmpp
  | tmpp, bucket :: buckets =>
    match scanBucket size bound tmpp bucket with
    | (tmpp, true) => tmpp
    | (tmpp, false) => scanChildren size bound tmpp buckets

/-- The `do … while ( curnode )` loop; `curnode` is in front of its ancestors. A node is returned in
front of its ancestors too; `none` is a loop that needs more rounds. -/
def nextLoop : Nat → List (Node D) → Option Oid → Option (Option (List (Node D)))
  | 0, _, _ => none
  | _ + 1, [], _ => some none
  | fuel + 1, curnode :: ancestors, bound =>
    match scanChildren curnode.childrenSize bound none curnode.children with
    | some tmpp =>
      if tmpp.data.isSome then some (some (tmpp :: curnode :: ancestors))
      else nextLoop fuel (tmpp :: curnode :: ancestors) none
    | none => nextLoop fuel ancestors (some curnode.value)

/-- `OidStash_getNextNode`. The bound is taken from `lookup[ i + 1 ]` where `i` subidentifiers of `lookup` have
been matched. -/
def getNextNode (fuel : Nat) (root : Option (Node D)) (lookup : List Oid) :
    Option (Option (List (Node D))) :=
  match root with
  | none => some none
  | some root =>
    let (chain, left) := closest lookup root []
    nextLoop fuel chain (left.drop 1).head?

/-- The OID of a node that stands in front of its ancestors. -/
def chainOid (chain : List (Node D)) : List Oid := (chain.dropLast.map Node.value).reverse

end Priot.OidStash
