/-
# The access table

The list of access entries, and the choice of the one that decides about a message. A name is kept behind an octet
with its length, in an array that is zero where nothing is written. Memory can always be had; storage type and bit
mask are left out.
-/
import Priot.Lib.CText
import Priot.Lib.Compare
import Priot.Lib.Choice

namespace Priot.AccessControl

open Lib

/-! ## data -/

def VACM_MAX_STRING : Nat := 32

def VACM_MAX_VIEWS : Nat := 8

def CONTEXT_MATCH_EXACT : Int := 1

def CONTEXT_MATCH_PREFIX : Int := 2

def PRIOT_SEC_MODEL_ANY : Int := 0

/-- An array of `VACM_VACMSTRINGLEN` octets with a text that fits. -/
@[ext]
structure VacmString where
  text : Text
  fits : text.length ≤ VACM_MAX_STRING
  deriving DecidableEq

/-- The text behind its length. -/
def lengthPrefixed (t : Text) : List UInt8 := UInt8.ofNat t.length :: t

def VacmString.octets (s : VacmString) : List UInt8 := lengthPrefixed s.text

/-- The length octet. -/
def VacmString.len (s : VacmString) : Nat := (s.octets.headD 0).toNat

/-- `Vacm_AccessEntry_s`. -/
@[ext]
structure AccessEntry where
  groupName : VacmString
  contextPrefix : VacmString
  securityModel : Int
  securityLevel : Int
  contextMatch : Int
  views : List Text
  status : Int
  deriving DecidableEq

/-- A message as far as its access is decided by it. -/
structure Query where
  groupName : Text
  contextName : Text
  securityModel : Int
  securityLevel : Int

/-! ## making and destroying entries -/

/-- Whether the loop of `Vacm_createAccessEntry` stops at `lp`. -/
def stopsAt (vp lp : AccessEntry) : Bool :=
  let cmp := memcmp (vp.groupName.text.length + 1) lp.groupName.octets vp.groupName.octets
  if cmp > 0 then true
  else if cmp < 0 then false
  else
    let cmp := memcmp (vp.contextPrefix.text.length + 1) lp.contextPrefix.octets vp.contextPrefix.octets
    if cmp > 0 then true
    else if cmp < 0 then false
    else if lp.securityModel > vp.securityModel then true
    else if lp.securityModel < vp.securityModel then false
    else lp.securityLevel > vp.securityLevel

/-- The new entry goes in front of the first one that stops the loop. -/
def link (vp : AccessEntry) : List AccessEntry → List AccessEntry
  | [] => [vp]
  | lp :: rest => if stopsAt vp lp then vp :: lp :: rest else lp :: link vp rest

/-- An entry as `calloc` and `Vacm_createAccessEntry` leave it. -/
def newEntry (groupName contextPrefix : VacmString) (securityModel securityLevel : Int) : AccessEntry where
  groupName := groupName
  contextPrefix := contextPrefix
  securityModel := securityModel
  securityLevel := securityLevel
  contextMatch := 0
  views := List.replicate VACM_MAX_VIEWS []
  status := 0

/-- `Vacm_createAccessEntry`: the new entry and the list with it, or nothing when a name is too long. -/
def createAccessEntry (groupName contextPrefix : Text) (securityModel securityLevel : Int)
    (accessList : List AccessEntry) : Option (AccessEntry × List AccessEntry) :=
  if hg : groupName.length ≤ VACM_MAX_STRING then
    if hc : contextPrefix.length ≤ VACM_MAX_STRING then
      let vp := newEntry ⟨groupName, hg⟩ ⟨contextPrefix, hc⟩ securityModel securityLevel
      some (vp, link vp accessList)
    else none
  else none

def destroyAccessEntry (groupName contextPrefix : Text) (securityModel securityLevel : Int)
    (accessList : List AccessEntry) : List AccessEntry :=
  accessList.eraseP fun vp => vp.securityModel = securityModel ∧ vp.securityLevel = securityLevel ∧
    vp.groupName.text = groupName ∧ vp.contextPrefix.text = contextPrefix

/-- What callers fill in once they have an entry. -/
def AccessEntry.fill (e : AccessEntry) (contextMatch status : Int) (views : List Text) : AccessEntry :=
  { e with contextMatch := contextMatch, status := status, views := views }

/-! ## choosing an entry -/

/-- The tests of `Vacm_chooseBest` on an entry chosen before. -/
def beats (current candidate : AccessEntry) : Bool :=
  (current.securityModel = PRIOT_SEC_MODEL_ANY ∧ candidate.securityModel ≠ PRIOT_SEC_MODEL_ANY) ∨
  (current.contextMatch = CONTEXT_MATCH_PREFIX ∧ candidate.contextMatch = CONTEXT_MATCH_EXACT) ∨
  (current.contextMatch = CONTEXT_MATCH_PREFIX ∧ current.contextPrefix.len < candidate.contextPrefix.len) ∨
  current.securityLevel < candidate.securityLevel

def chooseBest : Option AccessEntry → AccessEntry → AccessEntry
  | none, candidate => candidate
  | some current, candidate => if beats current candidate then candidate else current

/-- The condition of the loop in `Vacm_getAccessEntry`. -/
def selects (groupName context : Text) (securityModel securityLevel : Int) (vp : AccessEntry) : Bool :=
  (securityModel = vp.securityModel ∨ vp.securityModel = PRIOT_SEC_MODEL_ANY) ∧
  securityLevel ≥ vp.securityLevel ∧
  memcmp (groupName.length + 1) vp.groupName.octets (lengthPrefixed groupName) = 0 ∧
  ((vp.contextMatch = CONTEXT_MATCH_EXACT ∧ context.length = vp.contextPrefix.len ∧
      memcmp (context.length + 1) vp.contextPrefix.octets (lengthPrefixed context) = 0) ∨
   (vp.contextMatch = CONTEXT_MATCH_PREFIX ∧ context.length ≥ vp.contextPrefix.len ∧
      memcmp vp.contextPrefix.len vp.contextPrefix.octets.tail (lengthPrefixed context).tail = 0))

def getAccessEntry (q : Query) (accessList : List AccessEntry) : Option AccessEntry :=
  if VACM_MAX_STRING < q.groupName.length then none
  else if VACM_MAX_STRING < q.contextName.length then none
  else accessList.foldl (fun best vp =>
    if selects q.groupName q.contextName q.securityModel q.securityLevel vp then some (chooseBest best vp)
    else best) none

/-! ## the tables that there are -/

inductive Op
  | create (groupName contextPrefix : Text) (securityModel securityLevel : Int)
  | fill (n : Nat) (contextMatch status : Int) (views : List Text)
  | destroy (groupName contextPrefix : Text) (securityModel securityLevel : Int)

def Op.apply (accessList : List AccessEntry) : Op → List AccessEntry
  | .create g c m l => ((createAccessEntry g c m l accessList).map Prod.snd).getD accessList
  | .fill n m s v => accessList.modify n fun e => e.fill m s v
  | .destroy g c m l => destroyAccessEntry g c m l accessList

/-- A table that some sequence of calls leaves. -/
def Reachable (accessList : List AccessEntry) : Prop :=
  ∃ ops : List Op, ops.foldl Op.apply [] = accessList

end Priot.AccessControl
