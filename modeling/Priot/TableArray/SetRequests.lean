/-
# SET requests to a table array

Requests are grouped by index. A group has a row, which is edited in place; of a row from the container a copy is
kept. To use a row that has been freed is a fault (`none`). A callback comes to a new content of the row and a new
flag `row_deleted`; the content is whatever a row holds besides its index.
-/
import Priot.Lib.Memory
import Priot.BabySteps.Helper
import Mathlib.Data.List.Lex

namespace Priot.TableArray

open BabySteps Lib

abbrev Index := List Nat

abbrev Ptr := Nat

/-- A row: its `Types_Index`, and the rest. -/
structure Row (α : Type) where
  index : Index
  content : α
  deriving DecidableEq

/-- `TableArrayCallbacks`, as far as SET requests use it. -/
structure TableArrayCallbacks (α : Type) where
  createRow : Option (Index → Option (Row α))
  duplicateRow : Option (Row α → Option (Row α))
  rowCopy : Row α → Row α → Row α
  /-- `set_reserve1` to `set_undo`: the content of `existing_row` and `row_deleted`, by index. -/
  set : Mode → Option (Index → α → Bool → α × Bool)

structure Request where
  processed : Bool
  index : Index

/-- `RequestGroup`. The requests are given by their places. -/
structure Group where
  index : Index
  existingRow : Option Ptr
  undoInfo : Option Ptr
  rowCreated : Bool
  rowDeleted : Bool
  list : List Nat
  deriving DecidableEq

/-- The rows, the pointers in the container, and the errors set for requests. -/
structure State (α : Type) where
  heap : Memory (Row α)
  table : List Ptr
  errors : List (Nat × Int)

def errNotWritable : Int := 17
def errGenErr : Int := 5
def errResourceUnavailable : Int := 13
def errCommitFailed : Int := 14
def noSuchInstance : Int := 129

variable {α : Type}

/-! ## the container -/

def find (heap : Memory (Row α)) (key : Index) : List Ptr → Option (Option Ptr)
  | [] => some none
  | p :: ps => do
    let row ← heap.cell p
    if row.index = key then some (some p) else find heap key ps

/-- The place of a row in the container. -/
def place (heap : Memory (Row α)) (p : Ptr) (key : Index) : List Ptr → List Ptr
  | [] => [p]
  | q :: qs => if (heap.cell q).any fun row => row.index < key then q :: place heap p key qs else p :: q :: qs

def insert (heap : Memory (Row α)) (table : List Ptr) (p : Ptr) : Option (Int × List Ptr) := do
  let row ← heap.cell p
  match ← find heap row.index table with
  | some _ => some (-1, table)
  | none => some (0, place heap p row.index table)

def remove (heap : Memory (Row α)) (table : List Ptr) (p : Ptr) : Option (Int × List Ptr) := do
  let row ← heap.cell p
  match ← find heap row.index table with
  | some q => some (0, table.erase q)
  | none => some (-1, table)

/-! ## grouping -/

/-- `CONTAINER_INSERT` of a group. -/
def insertGroup (g : Group) : List Group → List Group
  | [] => [g]
  | g' :: gs => if g'.index < g.index then g' :: insertGroup g gs else g :: g' :: gs

/-- A request joins the group that there is. -/
def addRequest (k : Nat) (key : Index) (gs : List Group) : List Group :=
  gs.map fun g => if g.index = key then { g with list := k :: g.list } else g

/-- `TableArray_groupRequests`, from a request on. -/
def groupRequests (cb : TableArrayCallbacks α) (mode : Mode) :
    Nat → List Request → State α → List Group → Option (State α × List Group)
  | _, [], st, gs => some (st, gs)
  | k, current :: requests, st, gs =>
    if current.processed then groupRequests cb mode (k + 1) requests st gs
    else if gs.any fun g => g.index = current.index then
      groupRequests cb mode (k + 1) requests st (addRequest k current.index gs)
    else do
      match ← find st.heap current.index st.table with
      | some p =>
        let row ← st.heap.cell p
        groupRequests cb mode (k + 1) requests st (insertGroup ⟨row.index, some p, none, false, false, [k]⟩ gs)
      | none =>
        match cb.createRow with
        | none =>
          let error := if mode = .get then noSuchInstance else errNotWritable
          groupRequests cb mode (k + 1) requests { st with errors := st.errors ++ [(k, error)] } gs
        | some createRow =>
          match createRow current.index with
          | none => groupRequests cb mode (k + 1) requests { st with errors := st.errors ++ [(k, errGenErr)] } gs
          | some row =>
            groupRequests cb mode (k + 1) requests { st with heap := st.heap.alloc row }
              (insertGroup ⟨row.index, some st.heap.next, none, true, false, [k]⟩ gs)

/-! ## a group in a phase -/

/-- `Agent_setRequestError` for the head of the list. -/
def State.setError (st : State α) (ag : Group) (rc : Int) : State α :=
  { st with errors := st.errors ++ (ag.list.head?.map fun k => (k, rc)).toList }

/-- A callback of the group, if there is one. -/
def callback (cb : TableArrayCallbacks α) (mode : Mode) (st : State α) (ag : Group) : Option (State α × Group) :=
  match cb.set mode with
  | none => some (st, ag)
  | some set => do
    let p ← ag.existingRow
    let row ← st.heap.cell p
    let (content, deleted) := set ag.index row.content ag.rowDeleted
    let heap ← st.heap.write p ⟨row.index, content⟩
    some ({ st with heap }, { ag with rowDeleted := deleted })

/-- `delete_row`, of the row of the group. -/
def deleteExisting (st : State α) (ag : Group) : Option (State α × Group) := do
  let heap ← st.heap.free (← ag.existingRow)
  some ({ st with heap }, { ag with existingRow := none })

/-- `delete_row`, of the copy. -/
def deleteUndo (st : State α) (ag : Group) : Option (State α × Group) :=
  match ag.undoInfo with
  | none => some (st, ag)
  | some u => do
    let heap ← st.heap.free u
    some ({ st with heap }, { ag with undoInfo := none })

/-- What the container is told in COMMIT. -/
def commitTable (st : State α) (ag : Group) : Option (Int × List Ptr) :=
  if ag.rowCreated = false then
    if ag.rowDeleted then do remove st.heap st.table (← ag.existingRow) else some (0, st.table)
  else if ag.rowDeleted = false then do insert st.heap st.table (← ag.existingRow) else some (0, st.table)

def processSetGroup (cb : TableArrayCallbacks α) (mode : Mode) (st : State α) (ag : Group) :
    Option (State α × Group) :=
  match mode with
  | .reserve1 =>
    if ag.rowCreated then callback cb .reserve1 st ag
    else do
      let row ← st.heap.cell (← ag.existingRow)
      match cb.duplicateRow.bind fun duplicateRow => duplicateRow row with
      | none => some (st.setError ag errResourceUnavailable, { ag with undoInfo := none })
      | some copy =>
        callback cb .reserve1 { st with heap := st.heap.alloc copy } { ag with undoInfo := some st.heap.next }
  | .reserve2 => callback cb .reserve2 st ag
  | .action => callback cb .action st ag
  | .commit => do
    let (rc, table) ← commitTable st ag
    if rc ≠ 0 then some (st.setError ag errCommitFailed, ag)
    else
      let (st, ag) ← callback cb .commit { st with table } ag
      let (st, ag) ← deleteUndo st ag
      if ag.rowCreated = false ∧ ag.rowDeleted then deleteExisting st ag else some (st, ag)
  | .free => do
    let (st, ag) ← callback cb .free st ag
    if ag.rowCreated then deleteExisting st ag else deleteUndo st ag
  | .undo => do
    let (st, ag) ← callback cb .undo st ag
    if ag.rowCreated then deleteExisting st ag
    else
      let p ← ag.existingRow
      let heap ← st.heap.write p (cb.rowCopy (← st.heap.cell p) (← st.heap.cell (← ag.undoInfo)))
      deleteUndo { st with heap } ag
  | .get => some (st.setError ag errGenErr, ag)

/-- `CONTAINER_FOR_EACH` over the groups. -/
def forEach (f : State α → Group → Option (State α × Group)) : State α → List Group → Option (State α × List Group)
  | st, [] => some (st, [])
  | st, g :: gs => do
    let (st, g) ← f st g
    let (st, gs) ← forEach f st gs
    some (st, g :: gs)

/-! ## a SET -/

/-- `TableArray_processSetRequests`, with the groups that it has saved for the requests, if it has. -/
def processSetRequests (cb : TableArrayCallbacks α) (requests : List Request) (mode : Mode) (st : State α)
    (saved : Option (List Group)) : Option (State α × List Group) := do
  let (st, gs) ← match saved with
    | some gs => some (st, gs)
    | none => groupRequests cb mode 0 requests st []
  forEach (processSetGroup cb mode) st gs

/-- The phases of a SET. -/
def phases (cb : TableArrayCallbacks α) (requests : List Request) :
    List Mode → State α → Option (List Group) → Option (State α)
  | [], st, _ => some st
  | mode :: modes, st, saved => do
    let (st, gs) ← processSetRequests cb requests mode st saved
    phases cb requests modes st (some gs)

end Priot.TableArray
