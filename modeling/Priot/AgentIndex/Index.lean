/-
# The index registry

Index values are handed out per OID: a row in order of the values, the rows in order of the OIDs. An entry that is
given back stays in its row. Memory can always be had. What a subagent passes on is left out.
-/
import Priot.AgentIndex.Values
import Priot.Lib.Grid

namespace Priot.AgentIndex

open Lib

/-! ## data -/

/-- What `Index_s` holds: the varbind, and whether and to which session it is allocated. Its `next_idx` and `next_oid`
are the links of its cell; `prev_oid` is not used. -/
structure Index where
  name : ObjId
  value : IndexValue
  allocated : Bool
  session : Option Ptr
  deriving DecidableEq

/-- The registry behind `agentIndex_indexHead`, and the address of the next entry to be allocated. -/
structure IndexRegistry where
  heap : Heap (Hung Index)
  brk : Nat
  indexHead : Option Ptr

/-- The name and the value of the varbind in a request. Of the value only the type counts when any will do. -/
structure VarBind where
  name : ObjId
  value : IndexValue
  deriving DecidableEq

inductive Flags
  | allocateThisIndex
  | allocateAnyIndex
  | allocateNewIndex
  deriving DecidableEq

def INDEX_ERR_WRONG_TYPE : Int := -2
def INDEX_ERR_NOT_ALLOCATED : Int := -3
def INDEX_ERR_WRONG_SESSION : Int := -4
def PRIOT_ERR_NOERROR : Int := 0

def fresh : IndexRegistry := ⟨fun _ => none, 0, none⟩

/-! ## the requests -/

/-- The search for an OID. -/
def seekOid (s : IndexRegistry) (name : ObjId) : Option Sought :=
  seek toDown (fun e : Index => some (sign (Registry.oidCompare name e.name))) s.heap s.brk none s.indexHead 1

/-- The search for a value from `idxptr` on. -/
def seekValue (s : IndexRegistry) (value : IndexValue) (idxptr : Ptr) : Option Sought :=
  seek toNext (fun e : Index => compareValues value e.value) s.heap s.brk none (some idxptr) 1

/-- The search for an entry that is not allocated, or, where a new value is asked for, for the end. -/
def seekUnused (s : IndexRegistry) (flags : Flags) (idxptr : Ptr) : Option Sought :=
  seek toNext (fun e : Index => some (if flags = .allocateAnyIndex ∧ e.allocated = false then 0 else 1))
    s.heap s.brk none (some idxptr) 1

/-- An entry is made to be allocated to a session, or not to be allocated. -/
def setAllocated (s : IndexRegistry) (p : Ptr) (allocated : Bool) (ss : Option Ptr) :
    Option (Index × IndexRegistry) := do
  let c ← s.heap p
  let e := { c.data.data with allocated := allocated, session := ss }
  some (e, { s with heap := Function.update s.heap p (some ⟨c.next, ⟨c.data.down, e⟩⟩) })

/-- The value of a new entry behind `prevIdx`. -/
def newValue (s : IndexRegistry) (varbind : VarBind) (flags : Flags) (prevIdx : Option Ptr) : Option IndexValue :=
  match flags with
  | .allocateThisIndex => some (setVarValue varbind.value)
  | _ =>
    match prevIdx with
    | some q => do
      let prev ← s.heap q
      nextValue prev.data.data.value
    | none => some (firstValue varbind.name varbind.value)

/-- `AgentIndex_registerIndex` from where it has been decided to make a new entry. -/
def createIndex (s : IndexRegistry) (varbind : VarBind) (flags : Flags) (ss : Option Ptr) (oid : Sought)
    (prevIdx : Option Ptr) : Option (Option IndexValue × IndexRegistry) := do
  let value ← newValue s varbind flags prevIdx
  let index : Index := ⟨varbind.name, value, true, ss⟩
  match prevIdx with
  | some q =>
    let prev ← s.heap q
    let heap := Function.update s.heap s.brk (some ⟨prev.next, ⟨prev.data.down, index⟩⟩)
    some (some value, { s with heap := Function.update heap q (some ⟨some s.brk, prev.data⟩), brk := s.brk + 1 })
  | none =>
    match oid.ptr with
    | some idxptr =>
      if oid.res = 0 then
        let first ← s.heap idxptr
        let heap := Function.update s.heap s.brk (some ⟨some idxptr, ⟨first.data.down, index⟩⟩)
        let (heap, head) ← redirect heap s.brk s.indexHead oid.prev (some s.brk)
        some (some value, ⟨heap, s.brk + 1, head⟩)
      else
        let heap := Function.update s.heap s.brk (some ⟨none, ⟨some idxptr, index⟩⟩)
        let (heap, head) ← redirect heap s.brk s.indexHead oid.prev (some s.brk)
        some (some value, ⟨heap, s.brk + 1, head⟩)
    | none =>
      let heap := Function.update s.heap s.brk (some ⟨none, ⟨none, index⟩⟩)
      let (heap, head) ← redirect heap s.brk s.indexHead oid.prev (some s.brk)
      some (some value, ⟨heap, s.brk + 1, head⟩)

/-- `AgentIndex_registerIndex`, for one value, from where the OID has been found. -/
def registerThis (s : IndexRegistry) (varbind : VarBind) (ss : Option Ptr) (oid : Sought) (idxptr : Ptr) :
    Option (Option IndexValue × IndexRegistry) := do
  let idx ← seekValue s varbind.value idxptr
  match idx.ptr with
  | some p =>
    if idx.res = 0 then
      let c ← s.heap p
      if c.data.data.allocated then some (none, s)
      else
        let (e, s) ← setAllocated s p true ss
        some (some e.value, s)
    else createIndex s varbind .allocateThisIndex ss oid idx.prev
  | none => createIndex s varbind .allocateThisIndex ss oid idx.prev

/-- `AgentIndex_registerIndex`, for any value or a new one, from where the OID has been found. -/
def registerAny (s : IndexRegistry) (varbind : VarBind) (flags : Flags) (ss : Option Ptr) (oid : Sought)
    (idxptr : Ptr) : Option (Option IndexValue × IndexRegistry) := do
  let idx ← seekUnused s flags idxptr
  match idx.ptr with
  | some p =>
    let (e, s) ← setAllocated s p true ss
    some (some e.value, s)
  | none => createIndex s varbind flags ss oid idx.prev

def registerIndex (s : IndexRegistry) (varbind : VarBind) (flags : Flags) (ss : Option Ptr) :
    Option (Option IndexValue × IndexRegistry) := do
  let oid ← seekOid s varbind.name
  match oid.ptr with
  | none => createIndex s varbind flags ss oid none
  | some idxptr =>
    if oid.res ≠ 0 then createIndex s varbind flags ss oid none
    else
      let first ← s.heap idxptr
      if varbind.value.type ≠ first.data.data.value.type then some (none, s)
      else if flags = .allocateThisIndex then registerThis s varbind ss oid idxptr
      else registerAny s varbind flags ss oid idxptr

/-- `AgentIndex_unregisterIndex`, from where the entry has been found. -/
def unregisterEntry (s : IndexRegistry) (remember : Bool) (ss : Option Ptr) (oid idx : Sought) :
    Option (Int × IndexRegistry) := do
  let p ← idx.ptr
  let c ← s.heap p
  if c.data.data.allocated = false then some (INDEX_ERR_NOT_ALLOCATED, s)
  else if ss ≠ c.data.data.session then some (INDEX_ERR_WRONG_SESSION, s)
  else if remember then
    let (_, s) ← setAllocated s p false none
    some (PRIOT_ERR_NOERROR, s)
  else
    match idx.prev with
    | some q =>
      let prev ← s.heap q
      let heap := Function.update s.heap q (some ⟨c.next, prev.data⟩)
      some (PRIOT_ERR_NOERROR, { s with heap := Function.update heap p none })
    | none =>
      let (heap, head) ← redirect s.heap s.brk s.indexHead oid.prev (c.next.or c.data.down)
      some (PRIOT_ERR_NOERROR, { s with heap := Function.update heap p none, indexHead := head })

def unregisterIndex (s : IndexRegistry) (varbind : VarBind) (remember : Bool) (ss : Option Ptr) :
    Option (Int × IndexRegistry) := do
  let oid ← seekOid s varbind.name
  if oid.res ≠ 0 then some (INDEX_ERR_NOT_ALLOCATED, s)
  else
    let idxptr ← oid.ptr
    let first ← s.heap idxptr
    if varbind.value.type ≠ first.data.data.value.type then some (INDEX_ERR_WRONG_TYPE, s)
    else
      let idx ← seekValue s varbind.value idxptr
      if idx.res ≠ 0 then some (INDEX_ERR_NOT_ALLOCATED, s) else unregisterEntry s remember ss oid idx

def releaseIndex (s : IndexRegistry) (varbind : VarBind) : Option (Int × IndexRegistry) :=
  unregisterIndex s varbind true none

def removeIndex (s : IndexRegistry) (varbind : VarBind) (ss : Option Ptr) : Option (Int × IndexRegistry) :=
  unregisterIndex s varbind false ss

/-- What `AgentIndex_unregisterIndexBySession` does to an entry. -/
def disown (ss : Option Ptr) (e : Index) : Index :=
  if e.session = ss then { e with allocated := false, session := none } else e

def unregisterIndexBySession (s : IndexRegistry) (ss : Option Ptr) : Option IndexRegistry := do
  let heap ← Lib.mapRows (disown ss) s.brk s.brk s.heap s.indexHead
  some { s with heap := heap }

/-- The entries as `AgentIndex_dumpIdxRegistry` goes through them, a row for each OID. -/
def idxRegistry (s : IndexRegistry) : List (List Index) := Lib.listRows s.heap s.brk s.brk s.indexHead

end Priot.AgentIndex
