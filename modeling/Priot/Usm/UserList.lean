/-
# The list of users

The users are a doubly linked list in memory, in the order in which their table is walked through. To follow a pointer
to a node that is not there is a fault, and so is a loop that takes more rounds than there are nodes.
-/
import Priot.Lib.Compare
import Priot.Lib.DoublyLinked

namespace Priot.Usm

open Lib

/-! ## data -/

/-- The octets of a string in front of its zero. -/
abbrev CString : Type := { s : List UInt8 // 0 ∉ s }

/-- `Usm_User_s`, as far as the list looks at it. An `engineID` that is `NULL` has the length 0. -/
structure User where
  engineID : Option (List UInt8)
  name : CString
  deriving DecidableEq

def User.engineIDLen (u : User) : Nat := (u.engineID.getD []).length

/-- `strcmp`, with the zero behind each string. -/
def strcmp (a b : CString) : Int := memcmp (min a.1.length b.1.length + 1) a.1 b.1

/-- `memcmp( a->engineID, b->engineID, b->engineIDLen )`. -/
def memcmpID (a b : User) : Int := memcmp b.engineIDLen (a.engineID.getD []) (b.engineID.getD [])

/-! ## `Usm_addUserToList` -/

/-- Where a user goes: behind a node of the list, in front of it, or into its place. -/
inductive Place
  | behind
  | here
  | same
  deriving DecidableEq

/-- The lengths are equal, and so are the engine IDs. -/
def sameEngine (nptr user : User) : Bool :=
  nptr.engineIDLen = user.engineIDLen ∧ ((nptr.engineID = none ∧ user.engineID = none) ∨ memcmpID nptr user = 0)

/-- The conditions of the loop, in their order. -/
def User.place (nptr user : User) : Place :=
  if nptr.engineIDLen > user.engineIDLen then .here
  else if user.engineID = none ∧ nptr.engineID ≠ none then .here
  else if nptr.engineIDLen = user.engineIDLen ∧
      (nptr.engineID ≠ none ∧ user.engineID ≠ none ∧ memcmpID nptr user > 0) then .here
  else if nptr.engineID = none ∧ user.engineID ≠ none then .behind
  else if sameEngine nptr user ∧ nptr.name.1.length > user.name.1.length then .here
  else if sameEngine nptr user ∧ nptr.name.1.length = user.name.1.length ∧ strcmp nptr.name user.name > 0 then .here
  else if sameEngine nptr user ∧ nptr.name.1.length = user.name.1.length ∧ strcmp nptr.name user.name = 0 then .same
  else .behind

/-- The loop, in so many rounds at most: `nptr`, `pptr`, and whether `nptr` is to be replaced. -/
def addLoop (nodes : Nodes User) (user : User) : Nat → Option Ptr → Option Ptr → Option (Option Ptr × Option Ptr × Bool)
  | 0, _, _ => none
  | _ + 1, none, pptr => some (none, pptr, false)
  | rounds + 1, some p, pptr => (nodes p).bind fun nptr =>
    match nptr.data.place user with
    | .behind => addLoop nodes user rounds nptr.next (some p)
    | .here => some (some p, pptr, false)
    | .same => some (some p, pptr, true)

/-- The old entry is taken out and freed; `nptr` goes on to the next. -/
def dropOld (nodes : Nodes User) (pptr nptr : Option Ptr) : Option (Nodes User × Option Ptr) :=
  nptr.bind fun p => (nodes p).bind fun optr =>
    (setNext nodes pptr optr.next).bind fun nodes =>
      (setPrev nodes optr.next pptr).map fun nodes => (Function.update nodes p none, optr.next)

/-- `Usm_addUserToList`: the memory and the head of the list. -/
def addUserToList (nodes : Nodes User) (rounds : Nat) (user : Ptr) (puserList : Option Ptr) :
    Option (Nodes User × Option Ptr) :=
  (nodes user).bind fun node =>
    (addLoop nodes node.data rounds puserList none).bind fun (nptr, pptr, old) =>
      (if old then dropOld nodes pptr nptr else some (nodes, nptr)).bind fun (nodes, nptr) =>
        (setPrev (Function.update nodes user (some ⟨pptr, nptr, node.data⟩)) nptr (some user)).bind fun nodes =>
          (setNext nodes pptr (some user)).bind fun nodes =>
            (rewind nodes rounds user).map fun head => (nodes, some head)

/-! ## `Usm_removeUserFromList` -/

/-- The loop: what stands before the user in the list, if the user is there. -/
def removeLoop (nodes : Nodes User) (user : Option Ptr) : Nat → Option Ptr → Option Ptr → Option (Option (Ptr × Option Ptr))
  | 0, _, _ => none
  | _ + 1, none, _ => some none
  | rounds + 1, some p, pptr =>
    if some p = user then some (some (p, pptr))
    else (nodes p).bind fun nptr => removeLoop nodes user rounds nptr.next (some p)

/-- `Usm_removeUserFromList`: the memory, the head of the list and what is returned. -/
def removeUserFromList (nodes : Nodes User) (rounds : Nat) (user : Option Ptr) (ppuserList : Option Ptr) :
    Option (Nodes User × Option Ptr × Option Ptr) :=
  match ppuserList with
  | none => some (nodes, none, none)
  | some head => (removeLoop nodes user rounds (some head) none).bind fun
    | none => some (nodes, some head, none)
    | some (p, pptr) => (nodes p).bind fun nptr =>
      (setNext nodes pptr nptr.next).bind fun nodes =>
        (setPrev nodes nptr.next pptr).map fun nodes =>
          if p = head then (nodes, nptr.next, nptr.next) else (nodes, some head, some head)

/-! ## `Usm_getUserFromList` -/

/-- The name is the same, and so is the engine ID. -/
def User.matches (ptr : User) (engineID : Option (List UInt8)) (name : CString) : Bool :=
  strcmp ptr.name name = 0 ∧ ptr.engineIDLen = (engineID.getD []).length ∧
    ((ptr.engineID = none ∧ engineID = none) ∨ (ptr.engineID ≠ none ∧ engineID ≠ none ∧
      memcmp (engineID.getD []).length (ptr.engineID.getD []) (engineID.getD []) = 0))

def getLoop (nodes : Nodes User) (engineID : Option (List UInt8)) (name : CString) : Nat → Option Ptr → Option (Option Ptr)
  | 0, _ => none
  | _ + 1, none => some none
  | rounds + 1, some p => (nodes p).bind fun ptr =>
    if ptr.data.matches engineID name then some (some p) else getLoop nodes engineID name rounds ptr.next

/-- A name that is `NULL` is the empty one. -/
def nameOf (name : Option CString) : CString := name.getD ⟨[], List.not_mem_nil⟩

/-- `Usm_getUserFromList`, with `_usm_noNameUser`. -/
def getUserFromList (nodes : Nodes User) (rounds : Nat) (noNameUser : Option Ptr) (engineID : Option (List UInt8))
    (name : Option CString) (puserList : Option Ptr) (useDefault : Bool) : Option (Option Ptr) :=
  (getLoop nodes engineID (nameOf name) rounds puserList).map fun
    | some p => some p
    | none => if useDefault ∧ (nameOf name).1 = [] then noNameUser else none

end Priot.Usm
