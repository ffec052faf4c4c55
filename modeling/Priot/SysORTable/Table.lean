/-
# The table of capabilities

A ring of entries in the order in which they were registered; every loop ends at the oldest, `_sysORTable_table`.
Nodes live in memory as in the source, and to follow a pointer to a node that is not there is a fault. How many
allocations succeed is an input, and so is the uptime. The callbacks leave the table alone; what they are told is kept
in a log, which the source does not have.
-/
import Priot.Lib.DoublyLinked
import Priot.Registry.BySession

namespace Priot.SysORTable

open Lib Registry

/-! ## data -/

/-- `SysORTable_s`. -/
structure Entry where
  descr : String
  oid : ObjId
  sess : Option Ptr
  uptime : Nat
  deriving DecidableEq

/-- What the callbacks for `REG_SYSOR` and `UNREG_SYSOR` are called with. -/
inductive Notice
  | regSysOR (e : Entry)
  | unregSysOR (e : Entry)
  deriving DecidableEq

inductive Fault
  | address
  | rounds
  deriving DecidableEq

/-- The nodes in use, the address of the next one to be allocated and `_sysORTable_table`; how often the uptime has
been asked for, and the log. -/
structure State where
  nodes : Nodes Entry
  brk : Ptr
  table : Option Ptr
  asked : Nat
  log : List Notice

def registeredOk : Int := 0

def registrationFailed : Int := -1

def unregisteredOk : Int := 0

def noSuchRegistration : Int := -1

variable {β : Type} (uptime : Nat → Nat)

namespace State

def start : State := ⟨fun _ => none, 0, none, 0, []⟩

def get (s : State) (p : Option Ptr) : Except Fault (Node Entry) :=
  match p.bind s.nodes with
  | some nd => .ok nd
  | none => .error .address

def put (s : State) (p : Ptr) (nd : Node Entry) : State :=
  { s with nodes := Function.update s.nodes p (some nd) }

def set (s : State) (p : Option Ptr) (f : Node Entry → Node Entry) : Except Fault State := do
  let nd ← s.get p
  match p with
  | none => .error .address
  | some p => .ok (s.put p (f nd))

def free (s : State) (p : Ptr) : Except Fault State := do
  let _ ← s.get (some p)
  .ok { s with nodes := Function.update s.nodes p none }

/-! ## single entries -/

/-- The node that an entry of the given time is kept in. -/
def link (s : State) (data : Entry) : Except Fault State :=
  let entry := s.brk
  let s : State := { s with brk := s.brk + 1 }
  match s.table with
  | some table => do
    let first ← s.get (some table)
    let s := s.put entry ⟨first.prev, some table, data⟩
    let s ← s.set first.prev fun nd => { nd with next := some entry }
    s.set (some table) fun nd => { nd with prev := some entry }
  | none => .ok { s.put entry ⟨some entry, some entry, data⟩ with table := some entry }

/-- `SysORTable_registerSysORTableSess`. Of the entry, its description and its OID, `room` can be allocated; with less
than three, what could be is freed. Nothing reads the uptime before it is written. -/
def registerSysORTableSess (s : State) (oid : ObjId) (descr : String) (ss : Option Ptr) (room : Nat) :
    Except Fault (State × Int) := do
  if room < 3 then .ok (s, registrationFailed)
  else
    let data : Entry := ⟨descr, oid, ss, uptime s.asked⟩
    let s ← s.link data
    .ok ({ s with asked := s.asked + 1, log := s.log ++ [.regSysOR data] }, registeredOk)

/-- `_SysORTable_erase`. The entry is not read again when it has been told with the time at which it goes. -/
def erase (s : State) (entry : Ptr) : Except Fault State := do
  let nd ← s.get (some entry)
  let data : Entry := { nd.data with uptime := uptime s.asked }
  let s : State := { s with asked := s.asked + 1, log := s.log ++ [.unregSysOR data] }
  if nd.next = some entry then ({ s with table := none } : State).free entry
  else
    let s ← s.set nd.next fun next => { next with prev := nd.prev }
    let s ← s.set nd.prev fun prev => { prev with next := nd.next }
    let s : State := if s.table = some entry then { s with table := nd.next } else s
    s.free entry

/-! ## loops -/

/-- The loop around the ring from `tmp`: `do { run = tmp->next; body } while (table && run != table)`. The next node
is known before the body is run. -/
def walk (body : β → State → Ptr → Except Fault (β × State)) : Nat → β → State → Ptr → Except Fault (β × State)
  | 0, _, _, _ => .error .rounds
  | n + 1, c, s, tmp => do
    let nd ← s.get (some tmp)
    let (c, s) ← body c s tmp
    if s.table = none ∨ nd.next = s.table then .ok (c, s)
    else
      match nd.next with
      | none => .error .address
      | some run => walk body n c s run

/-- `if (table)`, and then the loop from there. -/
def around (body : β → State → Ptr → Except Fault (β × State)) (c : β) (s : State) : Except Fault (β × State) :=
  match s.table with
  | none => .ok (c, s)
  | some table => walk body s.brk c s table

/-- `SysORTable_foreach`. The callback only reads. -/
def foreach (s : State) (f : β → Entry → β) (c : β) : Except Fault β := do
  let (c, _) ← around (fun c s tmp => do
    let nd ← s.get (some tmp)
    .ok (f c nd.data, s)) c s
  .ok c

/-- An entry for which `p` holds is erased, and it is noted that there was one. -/
def eraseIf (p : Entry → Bool) (any : Bool) (s : State) (tmp : Ptr) : Except Fault (Bool × State) := do
  let nd ← s.get (some tmp)
  if p nd.data then do
    let s ← s.erase uptime tmp
    .ok (true, s)
  else .ok (any, s)

/-- Whether `SysORTable_unregisterSysORTableSess` erases an entry. -/
def byName (oid : ObjId) (ss : Option Ptr) (e : Entry) : Bool := e.sess = ss && oidCompare oid e.oid = .eq

def unregisterSysORTableSess (s : State) (oid : ObjId) (ss : Option Ptr) : Except Fault (State × Int) := do
  let (anyUnregistered, s) ← around (eraseIf uptime (byName oid ss)) false s
  .ok (s, if anyUnregistered then unregisteredOk else noSuchRegistration)

/-- Whether `SysORTable_unregisterSysORTableBySession` erases an entry. -/
def bySession (sess : Ptr → Registry.Context.Session) (ss : Ptr) (e : Entry) : Bool :=
  ((sess ss).isSubsession && e.sess = some ss) ||
    (!(sess ss).isSubsession && e.sess.any fun p => (sess p).subsession = some ss)

def unregisterSysORTableBySession (sess : Ptr → Registry.Context.Session) (s : State) (ss : Ptr) :
    Except Fault State := do
  let (_, s) ← around (eraseIf uptime (bySession sess ss)) false s
  .ok s

end State

end Priot.SysORTable
