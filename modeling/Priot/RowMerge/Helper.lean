/-
# Merging the requests for a row

The list of requests is linked anew, row by row, for the handler below, and put together again afterwards. Requests
are known by their addresses. The handler below may change what a request says, but not the links; what it sees is
recorded. An `oid` that is read behind the end of a name is a fault, as is an entry of an array that has not been
allocated. There is always memory.
-/
import Priot.Asn01.Types
import Priot.Lib.LinkedList
import Mathlib.Tactic.Ring

namespace Priot.RowMerge

open Lib

/-! ## data -/

/-- `RequestInfo`, with the name of its varbind. -/
structure Request where
  name : ObjId
  processed : Bool
  deriving DecidableEq

/-- The `next` and `prev` of the requests. -/
structure Links where
  next : Ptr → Option Ptr
  prev : Ptr → Option Ptr

/-- `ROW_MERGE_WAITING`, `ROW_MERGE_ACTIVE`, `ROW_MERGE_DONE` and `ROW_MERGE_HEAD`. -/
inductive Mark
  | waiting
  | active
  | done
  | head
  deriving DecidableEq

/-- `RowMergeStatus`. `saved` is for how many requests there is room in the arrays, if there are any. -/
structure Status where
  count : BitVec 8
  rows : BitVec 8
  current : BitVec 8
  saved : Option Nat
  deriving DecidableEq

inductive Fault
  | beyondName
  | beyondArrays
  | rounds
  deriving DecidableEq

/-- What the next handler is called with, and what it is told of the pass. -/
structure Seen where
  requests : Option (List Ptr)
  first : Bool
  last : Bool
  deriving DecidableEq

/-! ## the status -/

def statusFirst (rmStatus : Option Status) : Bool :=
  match rmStatus with
  | none => false
  | some st => if st.count = 1 then true else st.current = 1

def statusLast (rmStatus : Option Status) : Bool :=
  match rmStatus with
  | none => false
  | some st => if st.count = 1 then true else st.current = st.rows

/-- What `RowMerge_statusGet` allocates. -/
def Status.new : Status := ⟨0, 0, 0, none⟩

/-! ## names -/

/-- `nameLength - SKIP_OID`, of type `size_t`. -/
def lengthBehind (skip : Nat) (name : ObjId) : Nat := (name.length + 2 ^ 64 - skip) % 2 ^ 64

/-- The rounds of a loop `while (len-- > 0)` with an `int` that is given a `size_t`. -/
def loopRounds (len : Nat) : Nat := (BitVec.ofNat 32 len).toInt.toNat

def readOid (name : ObjId) (i : Nat) : Except Fault Oid :=
  match name[i]? with
  | some v => .ok v
  | none => .error .beyondName

/-- The loop of `Api_oidCompare`, from subidentifier `i` of both names. -/
def compareLoop (name1 name2 : ObjId) (i : Nat) : Nat → Except Fault Ordering
  | 0 => .ok .eq
  | len + 1 => do
    let v ← readOid name1 i
    let w ← readOid name2 i
    if v ≠ w then .ok (if v < w then .lt else .gt) else compareLoop name1 name2 (i + 1) len

/-- `Api_oidCompare`, for what comes behind the first subidentifiers of two names. -/
def compareBehind (skip : Nat) (name1 name2 : ObjId) : Except Fault Ordering := do
  let len1 := lengthBehind skip name1
  let len2 := lengthBehind skip name2
  match ← compareLoop name1 name2 skip (loopRounds (if len1 < len2 then len1 else len2)) with
  | .eq => .ok (if len1 < len2 then .lt else if len2 < len1 then .gt else .eq)
  | found => .ok found

/-- Whether two requests are for the same row. -/
def sameRow (skip : Nat) (req : Ptr → Request) (i j : Ptr) : Except Fault Bool := do
  let found ← compareBehind skip (req i).name (req j).name
  .ok (found = .eq)

/-! ## the handler -/

/-- The requests from one on. A list that is not at its end after so many is given up. -/
def collect (next : Ptr → Option Ptr) : Nat → Option Ptr → Option (List Ptr)
  | _, none => some []
  | 0, some _ => none
  | n + 1, some p => (collect next n (next p)).map (p :: ·)

/-- What is changed while rows are linked. -/
structure Work where
  links : Links
  mark : Ptr → Mark
  rows : BitVec 8

/-- The loop over the requests behind `i`. -/
def linkRow (same : Ptr → Ptr → Except Fault Bool) (i : Ptr) : List Ptr → Ptr → Work → Except Fault Work
  | [], _, w => .ok w
  | j :: js, tail, w =>
    if w.mark j ≠ .waiting then linkRow same i js tail w
    else do
      if ← same i j then
        linkRow same i js j { w with
          links.next := Function.update (Function.update w.links.next tail (some j)) j none
          links.prev := Function.update w.links.prev j (some tail)
          mark := Function.update w.mark j .active }
      else linkRow same i js tail w

/-- The loop that makes a list for each row. Rows are counted if `counting`. -/
def linkRows (same : Ptr → Ptr → Except Fault Bool) (counting : Bool) : List Ptr → Work → Except Fault Work
  | [], w => .ok w
  | i :: is, w =>
    if w.mark i ≠ .waiting then linkRows same counting is w
    else do
      let w ← linkRow same i is i { w with
        links.next := Function.update w.links.next i none
        mark := Function.update w.mark i .head
        rows := if counting then w.rows + 1 else w.rows }
      linkRows same counting is w

/-- The loop over the heads of rows, with what has been seen and `final_rc`. `rc` is what the next handler returns. -/
def callRows (count : Nat) (rc : List Seen → Int) (w : Work) :
    List Ptr → Status → List Seen → Int → Status × List Seen × Int
  | [], st, seen, finalRc => (st, seen, finalRc)
  | i :: is, st, seen, finalRc =>
    if w.mark i ≠ .head then callRows count rc w is st seen finalRc
    else
      let st := { st with current := st.current + 1 }
      let seen := seen ++ [⟨collect w.links.next count (some i), statusFirst (some st), statusLast (some st)⟩]
      let ret := rc seen
      callRows count rc w is st seen (if ret ≠ 0 ∧ finalRc = 0 then ret else finalRc)

/-- The loop that restores the list. -/
def restore : Option Ptr → List Ptr → Links → Links
  | _, [], links => links
  | before, p :: ps, links =>
    restore (some p) ps {
      next := Function.update links.next p ps.head?
      prev := if before = none then links.prev else Function.update links.prev p before }

/-- The status when the arrays have been seen to. -/
def Status.prepare (st : Status) (count : Nat) : Status :=
  let st := if st.count ≠ 0 ∧ st.count.toInt ≠ count then { st with saved := none, count := 0, rows := 0 } else st
  if st.count = 0 then { st with saved := some count } else st

/-- What a pass comes to: the status, the links, what the next handler has seen, and the return value. -/
structure Pass where
  status : Status
  links : Links
  seen : List Seen
  rc : Int

/-- `RowMerge_helperHandler` from where the requests are in the array: rows are linked, called and put back. -/
def mergeRows (skip : Nat) (req : Ptr → Request) (rc : List Seen → Int) (st : Status) (links : Links)
    (saved : List Ptr) : Except Fault Pass := do
  let unlinked : Links := { links with prev := fun p => if p ∈ saved then none else links.prev p }
  let mark : Ptr → Mark := fun p => if (req p).processed then .done else .waiting
  let w ← linkRows (sameRow skip req) (st.count = 0) saved ⟨unlinked, mark, st.rows⟩
  let st := { st with rows := w.rows, count := if st.count = 0 then BitVec.ofNat 8 saved.length else st.count }
  let (st, seen, finalRc) := callRows saved.length rc w saved { st with current := 0 } [] 0
  .ok ⟨st, restore none saved w.links, seen, finalRc⟩

/-- `RowMerge_helperHandler`, for a list of at most so many requests. -/
def helperHandler (rounds skip : Nat) (req : Ptr → Request) (rc : List Seen → Int) (rmStatus : Option Status)
    (links : Links) (requests : Option Ptr) : Except Fault Pass :=
  let st := rmStatus.getD .new
  match collect links.next rounds requests with
  | none => .error .rounds
  | some [p] =>
    let st := { st with count := 1 }
    if (req p).processed then .ok ⟨st, links, [], 0⟩
    else
      let seen := [⟨collect links.next 1 requests, statusFirst (some st), statusLast (some st)⟩]
      .ok ⟨st, links, seen, rc seen⟩
  | some saved =>
    let st := st.prepare saved.length
    if ¬ st.saved.any (saved.length ≤ ·) then .error .beyondArrays else mergeRows skip req rc st links saved

end Priot.RowMerge
