/-
# Registering and unregistering

To register a name is to cut its range where registered ranges start or end, and to put a node into the chain of each
part. Where nothing is registered the node is linked between its neighbours. An empty tree is given the three roots
first.
-/
import Priot.Registry.Search

namespace Priot.Registry

open Lib

variable {H : Type}

inductive MibResult
  | registeredOk
  | duplicateRegistration
  | registrationFailed
  | unregisteredOk
  | noSuchRegistration
  deriving DecidableEq

namespace Memory

/-- `while (next && go(next)) { prev = next; next = next->children; }`, with both at the end. -/
def walkChildren (m : Memory H) (go : Registration H → Bool) :
    Nat → Option Ptr → Option Ptr → Except Fault (Option Ptr × Option Ptr)
  | _, prev, none => .ok (prev, none)
  | 0, _, some _ => .error .rounds
  | n + 1, prev, some next => do
    let nd ← m.get next
    if go nd.reg then walkChildren m go n (some next) nd.children else .ok (prev, some next)

/-- What `child == NULL` or the child that was found has to say. -/
def regOf (m : Memory H) : Option Ptr → Except Fault (Option (Registration H))
  | none => .ok none
  | some p => do
    let nd ← m.get p
    .ok (some nd.reg)

/-- The place of a new node in a chain: behind longer names, and those as long with less priority. -/
def placeInChain (m : Memory H) (new : Registration H) (head : Ptr) : Except Fault (Option Ptr × Option Ptr) := do
  let (prev, next) ← m.walkChildren (fun r => r.name.length > new.name.length) m.brk none (some head)
  m.walkChildren (fun r => r.name.length = new.name.length ∧ r.priority < new.priority) m.brk prev next

/-- The part of `AgentRegistry_subtreeLoad` for a range that matches precisely. -/
def mergeIntoChain (m : Memory H) (newSub tree1 : Ptr) : Except Fault (Memory H × MibResult) := do
  let new ← m.get newSub
  let (prev, next) ← m.placeInChain new.reg tree1
  let found ← m.regOf next
  if found.any fun r => r.name.length = new.reg.name.length ∧ r.priority = new.reg.priority then
    .ok (m, .duplicateRegistration)
  else
    match prev with
    | some prev => do
      let m ← m.set prev fun nd => { nd with children := some newSub }
      let m ← m.set newSub fun nd => { nd with children := next }
      let before ← m.get prev
      let m ← m.subtreeChangePrev newSub before.prev
      let m ← m.subtreeChangeNext newSub before.next
      .ok (m, .registeredOk)
    | none =>
      match next with
      | none => .error .address
      | some next => do
        let m ← m.set newSub fun nd => { nd with children := some next }
        let after ← m.get next
        let m ← m.subtreeChangePrev newSub after.prev
        let m ← m.subtreeChangeNext newSub after.next
        let m ← m.changePrevLoop after.next (some newSub)
        let m ← m.changeNextLoop after.prev (some newSub)
        .ok (m, .registeredOk)

end Memory

namespace Context

/-! ## loading -/

def removeSubtree (s : Context H) (tree : Ptr) : Except Fault (Context H) := do
  let nd ← s.mem.get tree
  let s ← match nd.prev with
    | none => .ok (if s.first = some tree then { s with first := nd.next } else s)
    | some prev => do
      let mem ← s.mem.set prev fun a => { a with next := nd.next }
      .ok { s with mem }
  match nd.next with
  | none => .ok s
  | some next =>
    let mem ← s.mem.set next fun a => { a with prev := nd.prev }
    .ok { s with mem }

/-- The part of `AgentRegistry_subtreeLoad` for a node that starts in virgin territory. Where there is no subtree
that follows there is no overlap either, and so nothing to recurse for. -/
def loadVirgin (s : Context H) (newSub : Ptr) (new : Subtree H) : Except Fault (Context H × MibResult) := do
  let (s, tree2) ← s.subtreeFindNext new.start none
  match tree2 with
  | some tree2 => do
    let nd ← s.mem.get tree2
    let mem ← if oidCompare new.stop nd.start = .gt then do
        let (mem, _) ← s.mem.subtreeSplit newSub nd.start
        .ok mem
      else .ok s.mem
    let nd ← mem.get tree2
    let mem ← mem.subtreeChangePrev newSub nd.prev
    let mem ← mem.subtreeChangePrev tree2 (some newSub)
    .ok ({ s with mem }, .registeredOk)
  | none => do
    let (s, prev) ← s.subtreeFindPrev new.start none
    let mem ← s.mem.subtreeChangePrev newSub prev
    match prev with
    | some prev => do
      let mem ← mem.subtreeChangeNext prev (some newSub)
      let mem ← mem.subtreeChangeNext newSub none
      .ok ({ s with mem }, .registeredOk)
    | none => do
      let mem ← mem.subtreeChangeNext newSub none
      .ok ({ s with mem, first := some newSub }, .registeredOk)

/-- The node that starts where the new one does, once the one found there has been split if need be. -/
def startNode (m : Memory H) (new : Subtree H) (tree1 : Ptr) : Except Fault (Memory H × Option Ptr) := do
  let nd ← m.get tree1
  if new.start ≠ nd.start then m.subtreeSplit tree1 new.start else .ok (m, some tree1)

/-- `AgentRegistry_subtreeLoad` in a tree that is not empty. It does not become empty on the way. -/
def subtreeLoadLoop : Nat → Context H → Ptr → Except Fault (Context H × MibResult)
  | 0, _, _ => .error .rounds
  | n + 1, s, newSub => do
    let new ← s.mem.get newSub
    let (s, tree1) ← s.subtreeFind new.start none
    match tree1 with
    | none => s.loadVirgin newSub new
    | some tree1 => do
      let (mem, tree1) ← startNode s.mem new tree1
      match tree1 with
      | none => .ok ({ s with mem }, .registrationFailed)
      | some tree1 => do
        let nd ← mem.get tree1
        match oidCompare new.stop nd.stop with
        | .lt => do
          -- Existing subtree contains new one.
          let (mem, _) ← mem.subtreeSplit tree1 new.stop
          let (mem, res) ← mem.mergeIntoChain newSub tree1
          .ok ({ s with mem }, res)
        | .eq => do
          let (mem, res) ← mem.mergeIntoChain newSub tree1
          .ok ({ s with mem }, res)
        | .gt => do
          -- New subtree contains the existing one.
          let (mem, new2) ← mem.subtreeSplit newSub nd.stop
          let (s, res) ← subtreeLoadLoop n { s with mem } newSub
          match new2 with
          | none => if res ≠ .registeredOk then .error .address else .ok (s, .registeredOk)
          | some new2 =>
            if res ≠ .registeredOk then do
              let s ← s.removeSubtree new2
              let mem ← s.mem.free new2
              .ok ({ s with mem }, res)
            else subtreeLoadLoop n s new2

/-! ## unregistering -/

/-- `AgentRegistry_subtreeUnload`, for a node that is not `NULL`. -/
def subtreeUnload (s : Context H) (sub : Ptr) (prev : Option Ptr) : Except Fault (Context H) := do
  let nd ← s.mem.get sub
  match prev with
  | some prev => do
    let mem ← s.mem.set prev fun a => { a with children := nd.children }
    .ok { s with mem }.invalidateLookupCache
  | none =>
    match nd.children with
    | none => do
      let mem ← s.mem.changeNextLoop nd.prev nd.next
      let mem ← mem.changePrevLoop nd.next nd.prev
      .ok { s with mem, first := if nd.prev = none then nd.next else s.first }.invalidateLookupCache
    | some child => do
      let mem ← s.mem.changeNextLoop nd.prev (some child)
      let mem ← mem.changePrevLoop nd.next (some child)
      .ok { s with mem, first := if nd.prev = none then some child else s.first }.invalidateLookupCache

/-- The node of a chain for the name and priority, with the one before it. -/
def findRegistered (m : Memory H) (name : ObjId) (priority : Int) (list : Ptr) :
    Except Fault (Option Ptr × Option Ptr) :=
  m.walkChildren (fun r => ¬ (r.name = name ∧ (r.priority : Int) = priority)) m.brk none (some list)

/-- The loop in `AgentRegistry_unregisterMibContext` over the subtrees that follow. -/
def unloadSlices (name : ObjId) (priority : Int) : Nat → Context H → Option Ptr → Except Fault (Context H)
  | _, s, none => .ok s
  | 0, _, some _ => .error .rounds
  | n + 1, s, some list => do
    let nd ← s.mem.get list
    let (prev, child) ← findRegistered s.mem name priority list
    match child with
    | none => .ok s
    | some child => do
      let s ← s.subtreeUnload child prev
      let mem ← s.mem.free child
      unloadSlices name priority n { s with mem } nd.next

/-- What `AgentRegistry_unregisterMibContext` is asked for. -/
structure Range where
  name : ObjId
  priority : Int
  rangeSubid : Int
  rangeUbound : Oid

/-- The subidentifier that a range goes over, and where it is. -/
def Range.subid (r : Range) : Option (Nat × Oid) :=
  if 0 < r.rangeSubid ∧ r.rangeSubid ≤ r.name.length then
    r.name[(r.rangeSubid - 1).toNat]?.map fun v => ((r.rangeSubid - 1).toNat, v)
  else none

/-- `orig_subid_val` is an `int`, and -1 says that there is no range. -/
def Range.orig (r : Range) : Option (Nat × Oid) := r.subid.filter fun x => x.2 ≠ 4294967295

/-- The loop in `AgentRegistry_unregisterMibContext`, with the name as it is then. The last node that was found
is freed at the end. -/
def unregisterLoop (r : Range) : Nat → Context H → ObjId → Except Fault (Context H × MibResult × ObjId)
  | 0, _, _ => .error .rounds
  | n + 1, s, name => do
    let (s, list) ← s.subtreeFind name s.first
    match list with
    | none => .ok (s, .noSuchRegistration, name)
    | some list => do
      let (prev, child) ← findRegistered s.mem name r.priority list
      match child with
      | none => .ok (s, .noSuchRegistration, name)
      | some myptr => do
        let s ← s.subtreeUnload myptr prev
        let nd ← s.mem.get myptr
        let s ← unloadSlices name r.priority s.mem.brk s nd.next
        match r.orig with
        | none => do
          let mem ← s.mem.free myptr
          .ok ({ s with mem }, .unregisteredOk, name)
        | some (i, orig) =>
          let v := name.getD i 0 + 1
          if v ≥ orig + r.rangeUbound then do
            let mem ← s.mem.free myptr
            .ok ({ s with mem }, .unregisteredOk, name.set i orig)
          else unregisterLoop r n s (name.set i v)

/-- `AgentRegistry_unregisterMibContext`, with what it leaves in `name`. -/
def unregisterMibContext (s : Context H) (r : Range) : Except Fault (Context H × MibResult × ObjId) := do
  let old := s.lookupCacheSize
  let (s, res, name) ← unregisterLoop r (s.mem.brk + 1) (s.setLookupCacheSize 0) r.name
  if res = .unregisteredOk then .ok ((s.setLookupCacheSize old).invalidateLookupCache, res, name)
  else .ok (s, res, name)

/-! ## registering -/

/-- The arguments of `AgentRegistry_registerMib2`. Neither the module's name nor the OID is `NULL`. -/
structure Registering (H : Type) extends Range where
  vars : Option (List Variable)
  session : Option Ptr
  handler : H

/-- The node that `AgentRegistry_registerMib2` makes. -/
def newNode (a : Registering H) (p : Ptr) : Subtree H where
  reg := ⟨counted a.name, (a.priority % 256).toNat, a.session, a.handler⟩
  reginfo := some p
  start := counted a.name
  stop := (bump a.name).take (a.name.length % 256)
  vars := a.vars
  next := none
  prev := none
  children := none
  oidOff := 0

/-- The node for another name of the range. -/
def rangeNode (a : Registering H) (k : Nat) (i : Oid) (nd : Subtree H) : Subtree H :=
  { nd with
    reg := { nd.reg with name := nd.reg.name.set k i }
    start := nd.start.set k i
    stop := nd.stop.set k (if k + 1 = a.name.length then i + 1 else i) }

section

variable (load : Context H → Ptr → Except Fault (Context H × MibResult))

/-- The loop in `AgentRegistry_registerMib2` over the rest of a range, `rounds` names from `i` on. -/
def registerRangeLoop (a : Registering H) (subtree : Ptr) (k : Nat) :
    Nat → Oid → Context H → Except Fault (Context H × MibResult)
  | 0, _, s => .ok (s, .registeredOk)
  | rounds + 1, i, s => do
    let nd ← s.mem.get subtree
    let (mem, sub2) := s.mem.subtreeDeepcopy nd
    let mem ← mem.set sub2 (rangeNode a k i)
    let (s, res) ← load { s with mem } sub2
    if res ≠ .registeredOk then do
      let (s, _, _) ← s.unregisterMibContext a.toRange
      let s ← s.removeSubtree sub2
      let mem ← s.mem.free sub2
      .ok ({ s with mem }, res)
    else registerRangeLoop a subtree k rounds (i + 1) s

/-- How many names of a range follow the first one: `i` goes up to `range_ubound`, and both are `int`. -/
def Range.rounds (r : Range) : Nat :=
  match r.subid with
  | none => 0
  | some (_, v) => (r.rangeUbound.toInt32.toInt - (v + 1).toInt32.toInt + 1).toNat

/-- `AgentRegistry_registerMib2`, as far as it depends on how a node is loaded. -/
def registerMib2With (s : Context H) (a : Registering H) : Except Fault (Context H × MibResult) := do
  let old := s.lookupCacheSize
  let restored (s : Context H) := (s.setLookupCacheSize old).invalidateLookupCache
  let (mem, subtree) := s.mem.alloc (newNode a s.mem.brk)
  let (s, res) ← load ({ s with mem }.setLookupCacheSize 0) subtree
  if res = .registeredOk ∧ a.rangeSubid ≠ 0 then
    match a.toRange.subid with
    | none => .error .address
    | some (k, v) => do
      let (s, res) ← registerRangeLoop load a subtree k a.toRange.rounds (v + 1) s
      .ok (restored s, res)
  else if res = .duplicateRegistration ∨ res = .registrationFailed then do
    let s := restored s
    let mem ← s.mem.free subtree
    .ok ({ s with mem }, res)
  else .ok (restored s, res)

end

/-- `Null_registerNullContext`, where the tree is not given its roots first. The priority is what `calloc` leaves. -/
def registerNullContext (s : Context H) (null : H) (loc : ObjId) : Except Fault (Context H × MibResult) :=
  s.registerMib2With (fun s p => subtreeLoadLoop (s.mem.brk + 1) s p)
    { name := loc, priority := 0, rangeSubid := 0, rangeUbound := 0, vars := none, session := none, handler := null }

def subtreeLoad (null : H) (s : Context H) (newSub : Ptr) : Except Fault (Context H × MibResult) := do
  let s ←
    if s.first = none then do
      let (s, _) ← s.registerNullContext null [0]
      let (s, _) ← s.registerNullContext null [1]
      let (s, _) ← s.registerNullContext null [2]
      .ok s
    else .ok s
  subtreeLoadLoop (s.mem.brk + 1) s newSub

def registerMib2 (null : H) (s : Context H) (a : Registering H) : Except Fault (Context H × MibResult) :=
  s.registerMib2With (subtreeLoad null) a

def registerNull (null : H) (s : Context H) (loc : ObjId) : Except Fault (Context H × MibResult) :=
  registerMib2 null s
    { name := loc, priority := 0, rangeSubid := 0, rangeUbound := 0, vars := none, session := none, handler := null }

def setupTree (null : H) (s : Context H) : Except Fault (Context H) := do
  let (s, _) ← registerNull null s [0]
  let (s, _) ← registerNull null s [1]
  let (s, _) ← registerNull null s [2]
  .ok s

/-- A context in which nothing has been registered. -/
def fresh (lookupCacheSize : Nat) : Context H where
  mem := ⟨fun _ => none, 0⟩
  first := none
  lookupCacheSize
  lookup := ⟨0, 0, fun _ => ⟨none, none⟩⟩

/-! ## the registrations of a session -/

/-- What is known of a `Types_Session`: whether it is a subsession, and the one that its `subsession` points to. -/
structure Session where
  isSubsession : Bool
  subsession : Option Ptr

/-- Whether `AgentRegistry_unregisterMibsBySession` takes a node of session `c` away. -/
def bySession (sess : Ptr → Session) (ss c : Option Ptr) : Bool :=
  if ss.all fun p => (sess p).isSubsession then c = ss else c.any fun p => (sess p).subsession = ss

/-- The loop over a chain in `AgentRegistry_unregisterMibsBySession`. What a node holds is freed before it is
unloaded. -/
def unloadChildren (sess : Ptr → Session) (ss : Option Ptr) :
    Nat → Context H → Option Ptr → Option Ptr → Except Fault (Context H)
  | _, s, _, none => .ok s
  | 0, _, _, some _ => .error .rounds
  | n + 1, s, prev, some child => do
    let nd ← s.mem.get child
    if bySession sess ss nd.reg.session then do
      let s ← s.subtreeUnload child prev
      let mem ← s.mem.free child
      unloadChildren sess ss n { s with mem } prev nd.children
    else unloadChildren sess ss n s (some child) nd.children

/-- The loop over the list in `AgentRegistry_unregisterMibsBySession`. -/
def unloadList (sess : Ptr → Session) (ss : Option Ptr) : Nat → Context H → Option Ptr → Except Fault (Context H)
  | _, s, none => .ok s
  | 0, _, some _ => .error .rounds
  | n + 1, s, some list => do
    let nd ← s.mem.get list
    let s ← unloadChildren sess ss s.mem.brk s none (some list)
    unloadList sess ss n s nd.next

/-- The loop in `AgentRegistry_subtreeJoin` that frees children. -/
def clearLoop : Nat → Memory H → Option Ptr → Except Fault (Memory H)
  | _, m, none => .ok m
  | 0, _, some _ => .error .rounds
  | n + 1, m, some c => do
    let nd ← m.get c
    let m ← m.free c
    clearLoop n m nd.children

/-- The inner loop of `AgentRegistry_subtreeJoin`: what follows `root` is merged into it. -/
def joinLoop (root : Ptr) : Nat → Memory H → Option Ptr → Except Fault (Memory H)
  | _, m, none => .ok m
  | 0, _, some _ => .error .rounds
  | n + 1, m, some s => do
    let a ← m.get root
    let b ← m.get s
    if a.reginfo = b.reginfo then do
      let m ← m.set root fun nd => { nd with stop := b.stop }
      let m ← m.changeNextLoop (some root) b.next
      let m ← m.changePrevLoop (some s) (some root)
      let m ← clearLoop m.brk m b.children
      let m ← m.free s
      joinLoop root n m b.next
    else .ok m

def subtreeJoin : Nat → Memory H → Option Ptr → Except Fault (Memory H)
  | _, m, none => .ok m
  | 0, _, some _ => .error .rounds
  | n + 1, m, some root => do
    let nd ← m.get root
    let m ← joinLoop root m.brk m nd.next
    let nd ← m.get root
    subtreeJoin n m nd.next

def unregisterMibsBySession (sess : Ptr → Session) (s : Context H) (ss : Option Ptr) : Except Fault (Context H) := do
  let s ← unloadList sess ss s.mem.brk s s.first
  let mem ← subtreeJoin s.mem.brk s.mem s.first
  .ok { s with mem }

end Context

end Priot.Registry
