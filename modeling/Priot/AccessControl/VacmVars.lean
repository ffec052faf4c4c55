/-
# Writing to the tables (`vacm_vars.c`)

The columns of the two tables that a SET can change. The row is found by what decides about the access of a message.
What a function keeps in its static variables is passed on.
-/
import Priot.AccessControl.View
import Priot.Api.SessRead
import Priot.Lib.Buffer

namespace Priot.AccessControl

open Asn01 Api Lib

/-! ## what is written -/

def VACM_VACMSTRINGLEN : Nat := 34

def PRIOT_ERR_NOERROR : Int := 0

def PRIOT_ERR_NOSUCHNAME : Int := 2

def PRIOT_ERR_WRONGTYPE : Int := 7

def PRIOT_ERR_WRONGLENGTH : Int := 8

def PRIOT_ERR_WRONGVALUE : Int := 10

def PRIOT_ERR_INCONSISTENTVALUE : Int := 12

def PRIOT_ERR_INCONSISTENTNAME : Int := 18

def STORAGE_TYPE_VOLATILE : Int := 2

def STORAGE_TYPE_NONVOLATILE : Int := 3

/-- The phases of a SET, `IMPL_RESERVE1` to `IMPL_UNDO`. -/
inductive Action
  | reserve1
  | reserve2
  | act
  | commit
  | free
  | undo
  deriving DecidableEq

/-- `var_val`, as octets and as the `long` that it points to, with its type and its length. -/
structure SetValue where
  octets : List UInt8
  long : Int
  type : UInt8

/-- An access entry with the octets of its views. -/
structure AccessRow where
  groupName : VacmString
  contextPrefix : VacmString
  securityModel : Int
  securityLevel : Int
  contextMatch : Int
  views : Fin VACM_MAX_VIEWS → Buffer UInt8 VACM_VACMSTRINGLEN
  status : Int

/-- The octets of an array up to the terminating zero. -/
def cstr (octets : List UInt8) : Text := octets.takeWhile (· ≠ 0)

/-- The entry as the access of a message is decided by it. -/
def AccessRow.entry (row : AccessRow) : AccessEntry :=
  ⟨row.groupName, row.contextPrefix, row.securityModel, row.securityLevel, row.contextMatch,
    List.ofFn fun i => cstr (row.views i).cells, row.status⟩

/-- `memcpy` to the start of an array. What does not fit is a value that the first phase refuses. -/
def overwrite (array : Buffer UInt8 VACM_VACMSTRINGLEN) (octets : List UInt8) : Buffer UInt8 VACM_VACMSTRINGLEN :=
  (array.write 0 octets).getD array

/-! ## finding a row -/

def ACCESS_MIB_LENGTH : Nat := 11

def VIEW_MIB_LENGTH : Nat := 12

/-- The octets of a name, unless there is one too large. -/
def parseOctets (oidIndex : ObjId) : Option Text :=
  if ∃ subid ∈ oidIndex, subid.toNat > 255 then none else some (oidIndex.map fun subid => UInt8.ofNat subid.toNat)

/-- `access_parse_oid`: group name, context prefix, model and level. -/
def accessParseOid (oidIndex : ObjId) : Option (Text × Text × Int × Int) :=
  match oidIndex with
  | [] => none
  | first :: rest =>
    let groupNameL := first.toNat
    match rest[groupNameL]? with
    | none => none
    | some second =>
      let contextPrefixL := second.toNat
      if oidIndex.length ≠ groupNameL + contextPrefixL + 4 then none
      else do
        let groupName ← parseOctets (rest.take groupNameL)
        let contextPrefix ← parseOctets ((rest.drop (groupNameL + 1)).take contextPrefixL)
        let model ← oidIndex[groupNameL + contextPrefixL + 2]?
        let level ← oidIndex[groupNameL + contextPrefixL + 3]?
        some (groupName, contextPrefix, castInt model.toNat, castInt level.toNat)

/-- What `Vacm_getAccessEntry` asks of an entry when it has kept another one. -/
def accessTakes (q : Query) (best : Option AccessRow) (vp : AccessRow) : Bool :=
  selects q.groupName q.contextName q.securityModel q.securityLevel vp.entry &&
    best.all fun current => beats current.entry vp.entry

/-- `Vacm_getAccessEntry`, with the place of the entry. -/
def getAccessRow (q : Query) (accessList : List AccessRow) : Option (AccessRow × Nat) :=
  if VACM_MAX_STRING < q.groupName.length then none
  else if VACM_MAX_STRING < q.contextName.length then none
  else keepAt (accessTakes q) accessList

def accessParseAccessEntry (accessList : List AccessRow) (name : ObjId) : Option (AccessRow × Nat) :=
  match accessParseOid (name.drop ACCESS_MIB_LENGTH) with
  | none => none
  | some (groupName, contextPrefix, model, level) =>
    getAccessRow ⟨cstr groupName, cstr contextPrefix, model, level⟩ accessList

/-- `view_parse_oid`: the name of the view, and the subtree behind its length. An OID that names a row goes on behind
the name. -/
def viewParseOid (oidIndex : ObjId) : Option (Text × ObjId) :=
  match oidIndex with
  | [] => none
  | first :: rest =>
    let viewNameL := first.toNat
    if rest.length < viewNameL then none
    else do
      let viewName ← parseOctets (rest.take viewNameL)
      some (viewName, (rest.drop viewNameL).tail)

/-- What `Vacm_getViewEntry` asks of an entry when it has kept another one. -/
def viewTakes (viewName : Text) (viewSubtree : ObjId) (best : Option ViewEntry) (vp : ViewEntry) : Bool :=
  viewSelects viewName viewSubtree .ignoreMask vp && best.all fun current => decide (longer current vp)

/-- `Vacm_getViewEntry` with `VACM_MODE_IGNORE_MASK`, with the place of the entry. -/
def getViewRow (viewName : Text) (viewSubtree : ObjId) (viewList : List ViewEntry) : Option (ViewEntry × Nat) :=
  if viewName.length > VACM_MAX_STRING then none
  else keepAt (viewTakes viewName viewSubtree) viewList

def viewParseViewEntry (viewList : List ViewEntry) (name : ObjId) : Option (ViewEntry × Nat) :=
  match viewParseOid (name.drop VIEW_MIB_LENGTH) with
  | none => none
  | some (viewName, viewSubtree) => getViewRow (cstr viewName) viewSubtree viewList

/-! ## the columns -/

/-- What a function returns, its static variables, and the row if it has written to it. -/
structure Written (Static Row : Type) where
  code : Int
  static : Static
  row : Option Row

/-- `string` and `resetOnFail`. -/
structure ViewNameStatic where
  string : Buffer UInt8 VACM_VACMSTRINGLEN
  resetOnFail : Bool

/-- `write_vacmAccessReadViewName`, `write_vacmAccessWriteViewName` and `write_vacmAccessNotifyViewName`, with
`aptr`. -/
def writeViewName (view : Fin VACM_MAX_VIEWS) (action : Action) (v : SetValue) (s : ViewNameStatic)
    (aptr : Option AccessRow) : Written ViewNameStatic AccessRow :=
  match action, aptr with
  | .reserve1, _ =>
    let s := { s with resetOnFail := false }
    if v.type ≠ asnOCTET_STR then ⟨PRIOT_ERR_WRONGTYPE, s, none⟩
    else if v.octets.length > 32 then ⟨PRIOT_ERR_WRONGLENGTH, s, none⟩
    else ⟨PRIOT_ERR_NOERROR, s, none⟩
  | .reserve2, none => ⟨PRIOT_ERR_INCONSISTENTNAME, s, none⟩
  | .reserve2, some aptr =>
    ⟨PRIOT_ERR_NOERROR, ⟨aptr.views view, true⟩,
      some { aptr with views := Function.update aptr.views view (overwrite (aptr.views view) (v.octets ++ [0])) }⟩
  | .free, some aptr =>
    if s.resetOnFail then
      ⟨PRIOT_ERR_NOERROR, s, some { aptr with
        views := Function.update aptr.views view (overwrite (aptr.views view) (s.string.read v.octets.length)) }⟩
    else ⟨PRIOT_ERR_NOERROR, s, none⟩
  | _, _ => ⟨PRIOT_ERR_NOERROR, s, none⟩

def writeVacmAccessReadViewName := writeViewName ⟨0, by decide⟩

def writeVacmAccessWriteViewName := writeViewName ⟨1, by decide⟩

def writeVacmAccessNotifyViewName := writeViewName ⟨2, by decide⟩

def writeVacmAccessContextMatch (action : Action) (v : SetValue) (aptr : Option AccessRow) : Written Unit AccessRow :=
  if v.type ≠ asnINTEGER then ⟨PRIOT_ERR_WRONGTYPE, (), none⟩
  else if v.octets.length > 8 then ⟨PRIOT_ERR_WRONGLENGTH, (), none⟩
  else match action, aptr with
  | .commit, none => ⟨PRIOT_ERR_NOSUCHNAME, (), none⟩
  | .commit, some aptr =>
    if v.long = CONTEXT_MATCH_EXACT ∨ v.long = CONTEXT_MATCH_PREFIX then
      ⟨PRIOT_ERR_NOERROR, (), some { aptr with contextMatch := v.long }⟩
    else ⟨PRIOT_ERR_WRONGVALUE, (), none⟩
  | _, _ => ⟨PRIOT_ERR_NOERROR, (), none⟩

/-- `write_vacmViewMask`. `string` has the first `length` octets only. -/
def writeVacmViewMask (action : Action) (v : SetValue) (string : List UInt8) (vptr : Option ViewEntry) :
    Written (List UInt8) ViewEntry :=
  match action, vptr with
  | .reserve1, _ =>
    if v.type ≠ asnOCTET_STR then ⟨PRIOT_ERR_WRONGTYPE, string, none⟩
    else if v.octets.length > 16 then ⟨PRIOT_ERR_WRONGLENGTH, string, none⟩
    else ⟨PRIOT_ERR_NOERROR, string, none⟩
  | .reserve2, none => ⟨PRIOT_ERR_INCONSISTENTNAME, string, none⟩
  | .reserve2, some vptr => ⟨PRIOT_ERR_NOERROR, vptr.viewMask, some { vptr with viewMask := v.octets }⟩
  | .free, some vptr => ⟨PRIOT_ERR_NOERROR, string, some { vptr with viewMask := string }⟩
  | _, _ => ⟨PRIOT_ERR_NOERROR, string, none⟩

def writeVacmViewType (action : Action) (v : SetValue) (oldValue : Int) (vptr : Option ViewEntry) :
    Written Int ViewEntry :=
  match action, vptr with
  | .reserve1, _ =>
    if v.type ≠ asnINTEGER then ⟨PRIOT_ERR_WRONGTYPE, oldValue, none⟩
    else if v.octets.length ≠ 8 then ⟨PRIOT_ERR_WRONGLENGTH, oldValue, none⟩
    else if v.long < 1 ∨ v.long > 2 then ⟨PRIOT_ERR_WRONGVALUE, oldValue, none⟩
    else ⟨PRIOT_ERR_NOERROR, oldValue, none⟩
  | .reserve2, none => ⟨PRIOT_ERR_INCONSISTENTNAME, oldValue, none⟩
  | .reserve2, some vptr =>
    ⟨PRIOT_ERR_NOERROR, vptr.viewType, some { vptr with viewType := Int.bmod v.long (2 ^ 32) }⟩
  | .undo, some vptr => ⟨PRIOT_ERR_NOERROR, oldValue, some { vptr with viewType := Int.bmod oldValue (2 ^ 32) }⟩
  | _, _ => ⟨PRIOT_ERR_NOERROR, oldValue, none⟩

def writeVacmViewStorageType (action : Action) (v : SetValue) (oldValue : Int) (vptr : Option ViewEntry) :
    Written Int ViewEntry :=
  match action, vptr with
  | .reserve1, _ =>
    if v.type ≠ asnINTEGER then ⟨PRIOT_ERR_WRONGTYPE, oldValue, none⟩
    else if v.octets.length ≠ 8 then ⟨PRIOT_ERR_WRONGLENGTH, oldValue, none⟩
    else ⟨PRIOT_ERR_NOERROR, oldValue, none⟩
  | .reserve2, none => ⟨PRIOT_ERR_INCONSISTENTNAME, oldValue, none⟩
  | .reserve2, some vptr =>
    if (v.long = STORAGE_TYPE_VOLATILE ∨ v.long = STORAGE_TYPE_NONVOLATILE) ∧
        (vptr.viewStorageType = STORAGE_TYPE_VOLATILE ∨ vptr.viewStorageType = STORAGE_TYPE_NONVOLATILE) then
      ⟨PRIOT_ERR_NOERROR, vptr.viewStorageType, some { vptr with viewStorageType := v.long }⟩
    else if v.long = vptr.viewStorageType then ⟨PRIOT_ERR_NOERROR, oldValue, none⟩
    else ⟨PRIOT_ERR_INCONSISTENTVALUE, oldValue, none⟩
  | .undo, some vptr =>
    ⟨PRIOT_ERR_NOERROR, oldValue, some { vptr with viewStorageType := Int.bmod oldValue (2 ^ 32) }⟩
  | _, _ => ⟨PRIOT_ERR_NOERROR, oldValue, none⟩

/-- A function with the row that its OID finds, and the table behind it. -/
def onRow {Static Row : Type} (table : List Row) (found : Option (Row × Nat))
    (write : Option Row → Written Static Row) : Written Static Row × List Row :=
  let w := write (found.map Prod.fst)
  (w, writeAt table found w.row)

end Priot.AccessControl
