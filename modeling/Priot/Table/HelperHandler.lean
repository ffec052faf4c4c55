/-
# The table helper (`Table.c`)

For each request the column and the indexes are taken from its name, and the next handler is called if there is a
request left that it is for. Memory can always be had. What happens after the next handler is left out.
-/
import Priot.Proxy.Handler
import Priot.Table.BuildOid

namespace Priot.Table

open Agent Mib Proxy Registry

/-! ## data -/

/-- `ColumnInfo`, a range or a list that is not empty. -/
inductive ColumnInfo
  | range (low high : Oid)
  | list (first : Oid) (others : List Oid)

/-- `TableRegistrationInfo`. The indexes have a type only; columns are numbered from 1. -/
structure TableRegistrationInfo where
  indexes : List IndexType
  minColumn : Oid
  maxColumn : Oid
  validColumns : Option (List ColumnInfo)
  minColumn_pos : 0 < minColumn

structure TableRequestInfo where
  colnum : Oid
  numberIndexes : Nat
  indexes : List IndexVar
  indexOid : ObjId

/-- `RequestInfo`, with the name and the type of its varbind, and what `Table_extractTableInfo` finds. -/
structure Request where
  name : ObjId
  type : UInt8
  processed : Bool
  delegated : Bool
  status : Int
  info : Option TableRequestInfo

/-- What the helper leaves: the requests, whether the next handler is called, and what is returned if it is not. -/
structure Handled where
  requests : List Request
  called : Bool
  status : Int

def errWrongType : Int := 7

def isSet (mode : Mode) : Prop := ¬ (mode = .get ∨ mode = .getNext ∨ mode = .getBulk)

instance : DecidablePred isSet := fun _ => inferInstanceAs (Decidable (¬ _))

/-! ## errors -/

def requestSetError (r : Request) (mode : Mode) (error : Int) : Request :=
  let r := { r with processed := true, delegated := false }
  match exception error with
  | some t =>
    if ¬ isSet mode then { r with type := t.tag }
    else if mode = .setReserve1 then { r with status := errNoCreation }
    else { r with status := errNoSuchName }
  | none => { r with status := if error < 0 then errGenErr else error }

def helperCleanup (r : Request) (mode : Mode) (status : Int) : Request :=
  { requestSetError r mode status with info := none }

/-- What becomes of a request outside the table, or without a column. -/
def reject (mode : Mode) (r : Request) : Request :=
  if mode = .setReserve1 then helperCleanup r mode errNotWritable
  else if mode = .get then helperCleanup r mode PRIOT_NOSUCHOBJECT.toNat
  else r

/-! ## columns -/

/-- The nearer of a column and the closest one so far, which is 0 if there is none. -/
def nearer (column closest : Oid) : Oid := if column < closest ∨ closest = 0 then column else closest

/-- The loop of `Table_closestColumn`. -/
def closestFrom (current : Oid) : Oid → List ColumnInfo → Oid
  | closest, [] => closest
  | closest, .range low high :: validColumns =>
    if current < low then closestFrom current (nearer low closest) validColumns
    else if current ≤ high then current
    else closestFrom current closest validColumns
  | closest, .list first others :: validColumns =>
    if current < first then closestFrom current (nearer first closest) validColumns
    else if current > (first :: others).getLastD first then closestFrom current closest validColumns
    else
      -- skip anything less than current
      let column := ((first :: others).find? fun column => ¬ column < current).getD first
      if current = column then current else closestFrom current (nearer column closest) validColumns

def closestColumn (current : Oid) (validColumns : List ColumnInfo) : Oid := closestFrom current 0 validColumns

/-! ## one request -/

/-- The name, as far as the entry of the table is concerned; nothing is left of one that is out of range. -/
def enterTable (rootoid : ObjId) (mode : Mode) (name : ObjId) : Option ObjId :=
  let tmpLen := if rootoid.length > name.length then name.length else rootoid.length
  if oidCompare rootoid (name.take tmpLen) = .gt then
    if mode = .getNext then some rootoid else none
  else if rootoid.length < name.length ∧ name.getD rootoid.length 0 ≠ 1 then
    if name.getD rootoid.length 0 < 1 ∧ mode = .getNext then some (name.take rootoid.length) else none
  else some name

/-- Where a name leads: the column and the name that is left, no valid column, or out of range. -/
inductive Column
  | found (colnum : Oid) (name : ObjId)
  | unknown (name : ObjId)
  | outOfRange

/-- Column verification, when `var->nameLength` is `nameLength`. -/
def verifyColumn (rootoid : ObjId) (reg : TableRegistrationInfo) (name : ObjId) (nameLength : Nat) (colnum : Oid) :
    Column :=
  match reg.validColumns with
  | none => .found colnum (name.take nameLength)
  | some validColumns =>
    let column := name.getD (rootoid.length + 1) 0
    let closest := closestColumn column validColumns
    if closest = 0 then .unknown (name.take nameLength)
    else if closest ≠ column then .found closest (name.take (rootoid.length + 2))
    else .found closest (name.take nameLength)

/-- The column of a name below the entry. -/
def columnOf (rootoid : ObjId) (reg : TableRegistrationInfo) (mode : Mode) (name : ObjId) : Column :=
  if name.length > rootoid.length + 1 then
    let column := name.getD (rootoid.length + 1) 0
    if column < reg.minColumn then
      if mode = .getNext then verifyColumn rootoid reg name (rootoid.length + 1) reg.minColumn else .outOfRange
    else if column > reg.maxColumn then .outOfRange
    else verifyColumn rootoid reg name name.length column
  else if mode = .getNext ∨ mode = .getBulk then .found reg.minColumn name
  else .outOfRange

/-- What the loop over the indexes leaves. -/
structure Indexes where
  indexes : List IndexVar
  numberIndexes : Nat
  tmpLen : Int

/-- The loop over the indexes. A `tmpLen` of -1 says that nothing is left of the name. -/
def indexLoop (numberIndexes : Nat) (incomplete : Bool) (tmpLen : Int) (tmpName : ObjId) : List IndexVar → Indexes
  | [] => ⟨[], numberIndexes, tmpLen⟩
  | vb :: vbs =>
    if incomplete ∧ tmpLen ≠ 0 then ⟨vb :: vbs, numberIndexes, 0⟩
    else
      match parseOneOidIndex tmpName vb true with
      | .error left =>
        let rest := indexLoop numberIndexes true (-1) left vbs
        { rest with indexes := vb :: rest.indexes }
      | .ok (left, vb) =>
        let rest :=
          if incomplete then indexLoop numberIndexes incomplete left.length left vbs
          else if left.length = 0 then indexLoop (numberIndexes + 1) true (-1) left vbs
          else indexLoop (numberIndexes + 1) incomplete left.length left vbs
        { rest with indexes := vb :: rest.indexes }

/-- How a round over the requests ends: with the next one, with something to do for the next handler, or with the
loop. -/
inductive Round
  | next (r : Request)
  | need (r : Request)
  | stop (r : Request)

/-- The body of the loop over the requests. -/
def processRequest (rootoid : ObjId) (reg : TableRegistrationInfo) (mode : Mode) (r : Request) : Round :=
  if r.processed then .next r
  else if mode = .get ∧ r.type ≠ asnNULL then .next (requestSetError r mode errWrongType)
  else
    match enterTable rootoid mode r.name with
    | none => .next (reject mode r)
    | some name =>
      let info := r.info.getD ⟨0, 0, reg.indexes.map .fresh, []⟩
      match columnOf rootoid reg mode name with
      | .outOfRange => .next (reject mode { r with name := name, info := some info })
      | .unknown name => .next { r with name := name, info := some { info with colnum := 0 } }
      | .found colnum name =>
        let indexOid := name.drop (rootoid.length + 2)
        let parsed := indexLoop info.numberIndexes (indexOid = []) (if indexOid = [] then -1 else indexOid.length)
          indexOid info.indexes
        let r := { r with name := name, info := some ⟨colnum, parsed.numberIndexes, parsed.indexes, indexOid⟩ }
        if mode ≠ .getNext ∧ (parsed.numberIndexes ≠ reg.indexes.length ∨ parsed.tmpLen ≠ -1) then
          if isSet mode then .stop (helperCleanup r mode errNoCreation)
          else .next (helperCleanup r mode PRIOT_NOSUCHINSTANCE.toNat)
        else .need r

/-! ## all requests -/

/-- The loop over the requests, with `need_processing`; `none` when it has been stopped. -/
def requestLoop (rootoid : ObjId) (reg : TableRegistrationInfo) (mode : Mode) :
    Nat → List Request → List Request × Option Nat
  | need, [] => ([], some need)
  | need, r :: requests =>
    match processRequest rootoid reg mode r with
    | .next r =>
      let rest := requestLoop rootoid reg mode need requests
      (r :: rest.1, rest.2)
    | .need r =>
      let rest := requestLoop rootoid reg mode (need + 1) requests
      (r :: rest.1, rest.2)
    | .stop r => (r :: requests, none)

/-- `AgentHandler_freeRequestDataSets`, for the first request of a list. -/
def freeRequestDataSets : List Request → List Request
  | [] => []
  | r :: requests => { r with info := none } :: requests

/-- `Table_helperHandler` up to the call of the next handler. `stateReference` says that there are data for the next
handler in the agent's. -/
def helperHandler (rootoid : ObjId) (reg : TableRegistrationInfo) (stateReference : Bool) (mode : Mode)
    (requests : List Request) : Handled :=
  if reg.indexes = [] then ⟨requests, false, errGenErr⟩
  else if stateReference ∧ isSet mode then ⟨requests, true, errNoError⟩
  else if isSet mode ∧ mode ≠ .setReserve1 then
    ⟨requests, (requests.head?.bind Request.info).isSome, errNoError⟩
  else
    let loop := requestLoop rootoid reg mode 0 requests
    match loop.2 with
    | none => ⟨freeRequestDataSets loop.1, false, errNoError⟩
    | some need => ⟨loop.1, need ≠ 0, errNoError⟩

end Priot.Table
