/-
# Saving the access table (`Vacm.c`)

An access entry is written as one line for its standard views and one for each other view. Where a line would have
`NULL` or an array that is not set be read, a view be read in part or a view be written that there is not, there is no
result.
-/
import Mathlib.Data.Fintype.Basic
import Priot.ReadConfig.Line
import Priot.AccessControl.VacmVars

namespace Priot.AccessControl

open Lib ReadConfig

/-! ## data -/

def VACM_VIEW_READ : Fin VACM_MAX_VIEWS := (0 : Fin 8)

def VACM_VIEW_WRITE : Fin VACM_MAX_VIEWS := (1 : Fin 8)

def VACM_VIEW_NOTIFY : Fin VACM_MAX_VIEWS := (2 : Fin 8)

def tcSTORAGE_TYPE_NONVOLATILE : Int32 := 3

/-- `Vacm_AccessEntry_s` with its storage type. -/
@[ext]
structure StoredEntry where
  groupName : VacmString
  contextPrefix : VacmString
  securityModel : Int32
  securityLevel : Int32
  contextMatch : Int32
  views : Fin VACM_MAX_VIEWS → Text
  storageType : Int32
  status : Int32
  deriving DecidableEq

/-- The entry as the access of a message is decided by it. -/
def StoredEntry.entry (e : StoredEntry) : AccessEntry :=
  ⟨e.groupName, e.contextPrefix, e.securityModel.toInt, e.securityLevel.toInt, e.contextMatch.toInt,
    List.ofFn e.views, e.status.toInt⟩

/-! ## saving -/

/-- A name with its terminating zero. -/
def saveName (name : Text) : Text := saveOctetString (some (name ++ [0]))

/-- `"%d %d %d %d %d "`, the group name and the context prefix. -/
def saveIndex (e : StoredEntry) : Text :=
  signedDecimal e.status.toInt ++ 32 :: signedDecimal e.storageType.toInt ++
    32 :: signedDecimal e.securityModel.toInt ++ 32 :: signedDecimal e.securityLevel.toInt ++
    32 :: signedDecimal e.contextMatch.toInt ++ 32 :: saveName e.groupName.text ++
    32 :: saveName e.contextPrefix.text

/-- The line of `Vacm_saveAccess` behind its token. -/
def saveAccess (e : StoredEntry) : Text :=
  saveIndex e ++ 32 :: saveName (e.views VACM_VIEW_READ) ++ 32 :: saveName (e.views VACM_VIEW_WRITE) ++
    32 :: saveName (e.views VACM_VIEW_NOTIFY)

/-- The line of `Vacm_saveAuthAccess` behind its token. -/
def saveAuthAccess (e : StoredEntry) (authtype : Fin VACM_MAX_VIEWS) : Text :=
  saveIndex e ++ 32 :: signedDecimal authtype.val ++ 32 :: 32 :: saveName (e.views authtype)

/-- A line by its token, and what stands behind it. -/
inductive SavedLine
  | access (line : Text)
  | authAccess (line : Text)
  deriving DecidableEq

/-- The lines of one entry. -/
def saveEntry (e : StoredEntry) : List SavedLine :=
  (if e.views VACM_VIEW_READ ≠ [] ∨ e.views VACM_VIEW_WRITE ≠ [] ∨ e.views VACM_VIEW_NOTIFY ≠ [] then
    [.access (saveAccess e)] else []) ++
  (List.finRange VACM_MAX_VIEWS).filterMap fun i =>
    if VACM_VIEW_NOTIFY < i ∧ e.views i ≠ [] then some (.authAccess (saveAuthAccess e i)) else none

/-- What `Vacm_save` writes for the access entries. -/
def save (accessList : List StoredEntry) : List SavedLine :=
  (accessList.filter fun aptr => aptr.storageType = tcSTORAGE_TYPE_NONVOLATILE).flatMap saveEntry

/-! ## finding or making the entry of a line -/

/-- What `Vacm_getAccessEntry` asks of an entry when it has kept another one. -/
def storedTakes (q : Query) (best : Option StoredEntry) (vp : StoredEntry) : Bool :=
  selects q.groupName q.contextName q.securityModel q.securityLevel vp.entry &&
    best.all fun current => beats current.entry vp.entry

/-- `Vacm_getAccessEntry`, with the place of the entry. -/
def getStoredEntry (q : Query) (accessList : List StoredEntry) : Option (StoredEntry × Nat) :=
  if VACM_MAX_STRING < q.groupName.length then none
  else if VACM_MAX_STRING < q.contextName.length then none
  else keepAt (storedTakes q) accessList

/-- An entry as `calloc` and `Vacm_createAccessEntry` leave it. -/
def newStoredEntry (groupName contextPrefix : VacmString) (securityModel securityLevel : Int32) : StoredEntry where
  groupName := groupName
  contextPrefix := contextPrefix
  securityModel := securityModel
  securityLevel := securityLevel
  contextMatch := 0
  views := fun _ => []
  storageType := 0
  status := 0

/-- `Vacm_createAccessEntry`: the place of the new entry and the list with it, or nothing when a name is too long. -/
def createStoredEntry (groupName contextPrefix : Text) (securityModel securityLevel : Int32)
    (accessList : List StoredEntry) : Option (Nat × List StoredEntry) :=
  if hg : groupName.length ≤ VACM_MAX_STRING then
    if hc : contextPrefix.length ≤ VACM_MAX_STRING then
      let vp := newStoredEntry ⟨groupName, hg⟩ ⟨contextPrefix, hc⟩ securityModel securityLevel
      let i := accessList.findIdx fun lp => stopsAt vp.entry lp.entry
      some (i, accessList.insertIdx i vp)
    else none
  else none

/-! ## loading -/

/-- What becomes of the array that an octet string is read into. -/
inductive Reading
  | untouched
  | partly
  | written (s : Text)

/-- `ReadConfig_readOctetString` into an array of `VACM_VACMSTRINGLEN` octets, at a pointer that may be `NULL`. -/
def readArray (readfrom : Option Text) : Option Text × Reading :=
  match readfrom with
  | none => (none, .untouched)
  | some readfrom =>
    let isHex : Bool := readfrom.head? = some 48 ∧
      ((readfrom.drop 1).head? = some 120 ∨ (readfrom.drop 1).head? = some 88)
    let ilen := hexLength (readfrom.drop 2)
    let (next, s) := readOctetString readfrom (some VACM_VACMSTRINGLEN)
    (next,
      match s with
      | none => if ilen % 2 ≠ 0 then .untouched else .partly
      | some s => if isHex ∧ ilen / 2 ≥ VACM_VACMSTRINGLEN then .untouched else .written (cstr s))

/-- `Vacm_parseConfigAccessCommon`. There is no result where a number is read at `NULL` or a name is not read. Else
`NULL` is returned, or the place of the entry, the pointer and the list. -/
def parseConfigAccessCommon (line : Text) (accessList : List StoredEntry) :
    Option (Option (Nat × Option Text × List StoredEntry)) := do
  let status := atoi line
  let line ← skipToken line
  let storageType := atoi line
  let line ← skipToken line
  let securityModel := atoi line
  let line ← skipToken line
  let securityLevel := atoi line
  let line ← skipToken line
  let contextMatch := atoi line
  let group := readArray (skipToken line)
  let context := readArray group.1
  match group.2, context.2 with
  | .written groupName, .written contextPrefix =>
    let found :=
      match getStoredEntry ⟨groupName, contextPrefix, securityModel.toInt, securityLevel.toInt⟩ accessList with
      | some (_, i) => some (i, accessList)
      | none => createStoredEntry groupName contextPrefix securityModel securityLevel accessList
    some (found.map fun (i, accessList) => (i, context.1, accessList.modify i fun aptr =>
      { aptr with
        status := status
        storageType := storageType
        securityModel := securityModel
        securityLevel := securityLevel
        contextMatch := contextMatch }))
  | _, _ => none

/-- What has been read for a view of the entry at a place. -/
def storeView (i : Nat) (view : Fin VACM_MAX_VIEWS) (reading : Reading) (accessList : List StoredEntry) :
    Option (List StoredEntry) :=
  match reading with
  | .untouched => some accessList
  | .partly => none
  | .written s => some (accessList.modify i fun aptr => { aptr with views := Function.update aptr.views view s })

def parseConfigAccess (line : Text) (accessList : List StoredEntry) : Option (List StoredEntry) := do
  match ← parseConfigAccessCommon line accessList with
  | none => some accessList
  | some (i, line, accessList) =>
    let readView := readArray line
    let writeView := readArray readView.1
    let notifyView := readArray writeView.1
    let accessList ← storeView i VACM_VIEW_READ readView.2 accessList
    let accessList ← storeView i VACM_VIEW_WRITE writeView.2 accessList
    storeView i VACM_VIEW_NOTIFY notifyView.2 accessList

/-- `Vacm_parseConfigAuthAccess`. There is no result where there is no such view. -/
def parseConfigAuthAccess (line : Text) (accessList : List StoredEntry) : Option (List StoredEntry) := do
  match ← parseConfigAccessCommon line accessList with
  | none => some accessList
  | some (_, none, accessList) => some accessList
  | some (i, some line, accessList) =>
    let authtype := (atoi line).toInt
    if h : 0 ≤ authtype ∧ authtype.toNat < VACM_MAX_VIEWS then
      storeView i ⟨authtype.toNat, h.2⟩ (readArray (skipToken line)).2 accessList
    else none

/-- A line with the function that its token is registered for. -/
def loadLine (accessList : List StoredEntry) : SavedLine → Option (List StoredEntry)
  | .access line => parseConfigAccess line accessList
  | .authAccess line => parseConfigAuthAccess line accessList

/-- The lines one after the other, from an empty table on. -/
def restore (lines : List SavedLine) : Option (List StoredEntry) := lines.foldlM loadLine []

end Priot.AccessControl
