/-
# Searching the registry

A search walks the list of the heads and remembers in a small cache where it stopped. A comparison may be skipped
where the node parts from its predecessor further on than the name does.
-/
import Priot.Registry.Subtree

namespace Priot.Registry

open Lib

structure LookupCache where
  next : Option Ptr
  previous : Option Ptr

/-- `LookupCacheContext_s`. -/
structure LookupCacheContext where
  thecachecount : Nat
  currentpos : Nat
  cache : Nat → LookupCache

/-- A context: its nodes, `first_subtree`, the size of the lookup cache and the cache. -/
structure Context (H : Type) where
  mem : Memory H
  first : Option Ptr
  lookupCacheSize : Nat
  lookup : LookupCacheContext

def maxCacheSize : Nat := 32
def defaultCacheSize : Nat := 8

variable {H : Type}

namespace Context

/-! ## the lookup cache -/

def setLookupCacheSize (s : Context H) (newsize : Int) : Context H :=
  { s with
    lookupCacheSize :=
      if newsize < 0 then defaultCacheSize else if newsize < maxCacheSize then newsize.toNat else maxCacheSize }

def invalidateLookupCache (s : Context H) : Context H :=
  { s with lookup := { s.lookup with thecachecount := 0, currentpos := 0 } }

def lookupCacheAdd (s : Context H) (next previous : Option Ptr) : Context H :=
  let c := s.lookup
  { s with
    lookup :=
      { thecachecount := if c.thecachecount < s.lookupCacheSize then c.thecachecount + 1 else c.thecachecount
        currentpos := if c.currentpos + 1 ≥ s.lookupCacheSize then 0 else c.currentpos + 1
        cache := Function.update c.cache c.currentpos ⟨next, previous⟩ } }

def lookupCacheReplace (s : Context H) (i : Nat) (next previous : Option Ptr) : Context H :=
  { s with lookup := { s.lookup with cache := Function.update s.lookup.cache i ⟨next, previous⟩ } }

/-- The loop in `_AgentRegistry_lookupCacheFind` over the first entries: the last one that does not lie behind
the name, and how it compares. -/
def lookupCacheLoop (m : Memory H) (cache : Nat → LookupCache) (name : ObjId) :
    Nat → Except Fault (Option (Nat × Ordering))
  | 0 => .ok none
  | i + 1 => do
    let ret ← lookupCacheLoop m cache name i
    match (cache i).previous with
    | none => .error .address
    | some p =>
      let nd ← m.get p
      let cmp := oidCompare name nd.start
      .ok (if cmp ≠ .lt then some (i, cmp) else ret)

def lookupCacheFind (s : Context H) (name : ObjId) : Except Fault (Option (Nat × Ordering)) :=
  lookupCacheLoop s.mem s.lookup.cache name (min s.lookup.thecachecount s.lookupCacheSize)

/-! ## searching -/

/-- The loop in `AgentRegistry_subtreeFindPrev`: `previous` at the end, and `myptr` if it stopped there. -/
def findPrevLoop (m : Memory H) (name : ObjId) :
    Nat → Nat → Option Ptr → Option Ptr → Except Fault (Option Ptr × Option Ptr)
  | _, _, previous, none => .ok (previous, none)
  | 0, _, _, some _ => .error .rounds
  | n + 1, llOff, previous, some myptr => do
    let nd ← m.get myptr
    if llOff ≠ 0 ∧ nd.oidOff ≠ 0 ∧ nd.oidOff > llOff then
      findPrevLoop m name n llOff (some myptr) nd.next
    else
      let (cmp, llOff) := oidCompareLl name nd.start
      if cmp = .lt then .ok (previous, some myptr)
      else findPrevLoop m name n llOff (some myptr) nd.next

/-- Where `AgentRegistry_subtreeFindPrev` starts: the entry of the cache, how it compares, `previous`, `myptr`. -/
structure Outset where
  lookupCache : Option Nat
  cmp : Ordering
  previous : Option Ptr
  myptr : Option Ptr

def outset (s : Context H) (name : ObjId) (subtree : Option Ptr) : Except Fault Outset :=
  match subtree with
  | some p => .ok ⟨none, .gt, none, some p⟩
  | none =>
    if s.lookupCacheSize = 0 then .ok ⟨none, .gt, none, s.first⟩
    else do
      match ← s.lookupCacheFind name with
      | none => .ok ⟨none, .gt, none, s.first⟩
      | some (i, cmp) =>
        .ok ⟨some i, cmp, (s.lookup.cache i).previous, (s.lookup.cache i).next <|> s.first⟩

def subtreeFindPrev (s : Context H) (name : ObjId) (subtree : Option Ptr) :
    Except Fault (Context H × Option Ptr) := do
  let o ← s.outset name subtree
  let (previous, stopped) ← findPrevLoop s.mem name s.mem.brk 0 o.previous o.myptr
  if stopped ≠ none ∧ s.lookupCacheSize ≠ 0 ∧ previous ≠ none ∧ o.cmp ≠ .eq then
    match o.lookupCache with
    | some i => .ok (s.lookupCacheReplace i stopped previous, previous)
    | none => .ok (s.lookupCacheAdd stopped previous, previous)
  else
    .ok (s, previous)

/-- The loop in `AgentRegistry_subtreeFindNext`. -/
def findNextLoop (m : Memory H) : Nat → Option Ptr → Except Fault (Option Ptr)
  | _, none => .ok none
  | 0, some _ => .error .rounds
  | n + 1, some myptr => do
    let nd ← m.get myptr
    if nd.vars.getD [] = [] then findNextLoop m n nd.next else .ok (some myptr)

def subtreeFindNext (s : Context H) (name : ObjId) (subtree : Option Ptr) :
    Except Fault (Context H × Option Ptr) := do
  let (s, myptr) ← s.subtreeFindPrev name subtree
  match myptr with
  | some p =>
    let nd ← s.mem.get p
    let r ← findNextLoop s.mem s.mem.brk nd.next
    .ok (s, r)
  | none =>
    match subtree with
    | none => .ok (s, none)
    | some p =>
      let nd ← s.mem.get p
      .ok (s, if oidCompare name nd.start = .lt then some p else none)

def subtreeFind (s : Context H) (name : ObjId) (subtree : Option Ptr) :
    Except Fault (Context H × Option Ptr) := do
  let (s, myptr) ← s.subtreeFindPrev name subtree
  match myptr with
  | none => .ok (s, none)
  | some p =>
    let nd ← s.mem.get p
    .ok (s, if oidCompare name nd.stop = .lt then some p else none)

end Context

end Priot.Registry
