/-
# The nodes of the registry

The ranges of registered names are cut where they overlap; the nodes over one range form a chain, with the longest
name and then the least priority in front, and the heads are a list in order. Nodes live in memory as in the source,
and to follow a pointer to a node that is not there is a fault. There is one context. Memory can always be had, and
labels, flags, timeouts and what is logged are left out. A `HandlerRegistration` is numbered like the node that it was
allocated for, and `handler` stands for what it says.
-/
import Priot.Lib.LinkedList
import Priot.Registry.Oid

namespace Priot.Registry

open Lib

/-! ## data -/

inductive Fault
  | address
  | rounds
  deriving DecidableEq

/-- `Variable_s`: its name below the registered one, and whether its type is a delegated one. -/
structure Variable where
  name : ObjId
  delegated : Bool
  deriving DecidableEq

/-- What the nodes of a registration share. -/
structure Registration (H : Type) where
  name : ObjId
  priority : Nat
  session : Option Ptr
  handler : H
  deriving DecidableEq

/-- `Subtree_s`, with `vars` for its variables. -/
structure Subtree (H : Type) where
  reg : Registration H
  reginfo : Option Ptr
  start : ObjId
  stop : ObjId
  vars : Option (List Variable)
  next : Option Ptr
  prev : Option Ptr
  children : Option Ptr
  oidOff : Nat

/-- The nodes in use, and the address of the next one to be allocated. -/
structure Memory (H : Type) where
  cells : Ptr → Option (Subtree H)
  brk : Ptr

variable {H : Type}

namespace Memory

def get (m : Memory H) (p : Ptr) : Except Fault (Subtree H) :=
  match m.cells p with
  | some nd => .ok nd
  | none => .error .address

def set (m : Memory H) (p : Ptr) (f : Subtree H → Subtree H) : Except Fault (Memory H) :=
  match m.cells p with
  | some nd => .ok { m with cells := Function.update m.cells p (some (f nd)) }
  | none => .error .address

def alloc (m : Memory H) (nd : Subtree H) : Memory H × Ptr :=
  ({ cells := Function.update m.cells m.brk (some nd), brk := m.brk + 1 }, m.brk)

/-- `AgentRegistry_subtreeFree`, for a pointer that is not `NULL`. -/
def free (m : Memory H) (p : Ptr) : Except Fault (Memory H) :=
  match m.cells p with
  | some _ => .ok { m with cells := Function.update m.cells p none }
  | none => .error .address

/-! ## links -/

def subtreeChangeNext (m : Memory H) (ptr : Ptr) (thenext : Option Ptr) : Except Fault (Memory H) := do
  let m ← m.set ptr fun nd => { nd with next := thenext }
  match thenext with
  | none => .ok m
  | some p =>
    let nd ← m.get ptr
    m.set p fun next => { next with oidOff := (oidCompareLl nd.start next.start).2 }

def subtreeChangePrev (m : Memory H) (ptr : Ptr) (theprev : Option Ptr) : Except Fault (Memory H) := do
  let m ← m.set ptr fun nd => { nd with prev := theprev }
  match theprev with
  | none => .ok m
  | some p =>
    let prev ← m.get p
    m.set ptr fun nd => { nd with oidOff := (oidCompareLl prev.start nd.start).2 }

/-- A loop over the children of a node, itself included, that does `f` to each. -/
def childLoop (f : Memory H → Ptr → Except Fault (Memory H)) : Nat → Memory H → Option Ptr → Except Fault (Memory H)
  | _, m, none => .ok m
  | 0, _, some _ => .error .rounds
  | n + 1, m, some ptr => do
    let m ← f m ptr
    let nd ← m.get ptr
    childLoop f n m nd.children

/-- `for (ptr = p; ptr; ptr = ptr->children) subtreeChangeNext(ptr, thenext)`. -/
def changeNextLoop (m : Memory H) (p thenext : Option Ptr) : Except Fault (Memory H) :=
  childLoop (fun m ptr => m.subtreeChangeNext ptr thenext) m.brk m p

/-- `for (ptr = p; ptr; ptr = ptr->children) subtreeChangePrev(ptr, theprev)`. -/
def changePrevLoop (m : Memory H) (p theprev : Option Ptr) : Except Fault (Memory H) :=
  childLoop (fun m ptr => m.subtreeChangePrev ptr theprev) m.brk m p

/-! ## splitting -/

def subtreeDeepcopy (m : Memory H) (nd : Subtree H) : Memory H × Ptr :=
  m.alloc { nd with reginfo := nd.reginfo.map fun _ => m.brk }

end Memory

/-- The loop over the variables in `AgentRegistry_subtreeSplit`, with what the point of division has below the
name: how many stay, and how many of these the second part does not have. -/
def variablesLoop (rest : ObjId) : List Variable → Nat × Nat
  | [] => (0, 0)
  | vp :: vs =>
    let commonLen := min vp.name.length rest.length
    if oidCompare vp.name rest ≠ .lt then (0, 0)
    else
      let (kept, passed) := variablesLoop rest vs
      (kept + 1, if oidCompare (vp.name.take commonLen) (rest.take commonLen) = .lt then passed + 1 else passed)

/-- The variables of the two parts. Delegated trees retain theirs. -/
def splitVariables (rest : ObjId) (vs : List Variable) : List Variable × List Variable :=
  let (kept, passed) := variablesLoop rest vs
  (vs.take kept,
    match vs.take kept with
    | vp :: _ => if vp.delegated then [vp] else vs.drop passed
    | [] => vs.drop passed)

namespace Memory

/-- `AgentRegistry_subtreeSplit`. -/
def subtreeSplitLoop : Nat → Memory H → Ptr → ObjId → Except Fault (Memory H × Option Ptr)
  | 0, _, _, _ => .error .rounds
  | n + 1, m, current, name => do
    let cur ← m.get current
    if oidCompare name cur.stop = .gt then
      .ok (m, none)
    else
      let (m, newSub) := m.subtreeDeepcopy cur
      let parts := cur.vars.map (splitVariables (name.drop cur.reg.name.length))
      let m ← m.set current fun nd => { nd with stop := name, vars := parts.map Prod.fst }
      let m ← m.set newSub fun nd => { nd with start := name, vars := parts.map Prod.snd }
      let (m, children) ← match cur.children with
        | none => .ok (m, none)
        | some child => subtreeSplitLoop n m child name
      let m ← m.set newSub fun nd => { nd with children }
      -- Retain the correct linking of the list.
      let m ← m.changeNextLoop (some current) (some newSub)
      let m ← m.changePrevLoop (some newSub) (some current)
      let new ← m.get newSub
      let m ← m.changePrevLoop new.next (some newSub)
      .ok (m, some newSub)

def subtreeSplit (m : Memory H) (current : Ptr) (name : ObjId) : Except Fault (Memory H × Option Ptr) :=
  subtreeSplitLoop m.brk m current name

end Memory

end Priot.Registry
