/-
# The varbinds of a GETBULK

The repetitions of a varbind are in the list and in `bulkcache`. The response has them row by row, and ends with the
first row in which nothing was found. The varbinds are cells in memory; the request as it came is not changed.
-/
import Priot.Asn01.Types
import Priot.Lib.ForLoop
import Priot.Lib.LinkedList

namespace Priot.Agent

open Lib

/-- The members of an `AgentSession` and its PDU that `_Agent_reorderGetbulk` reads. -/
structure BulkSession where
  errstat : Nat
  errindex : Nat
  vbcount : Nat
  bulkcache : List Ptr
  origVariables : List VariableList

/-- `nameLength == 0 || type == PRIOT_ENDOFMIBVIEW`. -/
def Ended (v : VariableList) : Prop := v.name.length = 0 ∨ v.value.type = PRIOT_ENDOFMIBVIEW

instance : DecidablePred Ended := fun _ => inferInstanceAs (Decidable (_ ∨ _))

/-- What becomes of an entry behind `prev`, or of the first one. -/
def fixEntry (orig : List VariableList) (i : Nat) (prev : Option VariableList) (curr : VariableList) : VariableList :=
  if Ended curr then
    match prev.or orig[i]? with
    | some prev => { name := prev.name, value := .null .endOfMibView }
    | none => curr
  else curr

namespace BulkSession

/-- One round of the inner loop that fixes `endOfMibView` entries, with `prev`. -/
def fixRound (asp : BulkSession) (i j : Nat) (st : Heap VariableList × Option VariableList) :
    Option (Heap VariableList × Option VariableList) := do
  let p ← asp.bulkcache[i * asp.errindex + j]?
  let c ← st.1 p
  let curr := fixEntry asp.origVariables i st.2 c.data
  some (Function.update st.1 p (some ⟨c.next, curr⟩), some curr)

def fixColumn (asp : BulkSession) (i : Nat) (heap : Heap VariableList) : Option (Heap VariableList) :=
  (forLoop asp.errindex (asp.fixRound i) (heap, none)).map (·.1)

/-- `asp->bulkcache[ m ]->next = asp->bulkcache[ m' ];` -/
def linkTo (asp : BulkSession) (m m' : Nat) (heap : Heap VariableList) : Option (Heap VariableList) := do
  let p ← asp.bulkcache[m]?
  let q ← asp.bulkcache[m']?
  let c ← heap p
  some (Function.update heap p (some ⟨some q, c.data⟩))

def linkColumn (asp : BulkSession) (i : Nat) (heap : Heap VariableList) : Option (Heap VariableList) :=
  forLoop asp.errindex (fun j => asp.linkTo (i * asp.errindex + j) ((i + 1) * asp.errindex + j)) heap

/-- `for (j = 1, prev = …; j < r; j++, prev = prev->next)`: `prev` at its end, unless there is a real value. -/
def rowEnd (heap : Heap VariableList) : Nat → Ptr → Option (Option Ptr)
  | 0, prev => some (some prev)
  | k + 1, prev => do
    let c ← heap prev
    if c.data.value.type ≠ PRIOT_ENDOFMIBVIEW then some none
    else do
      let next ← c.next
      rowEnd heap k next

def freeVarbind : Nat → Option Ptr → Heap VariableList → Option (Heap VariableList)
  | _, none, heap => some heap
  | 0, some _, _ => none
  | n + 1, some p, heap => do
    let c ← heap p
    freeVarbind n c.next (Function.update heap p none)

/-- `Api_freeVarbind( prev->next ); prev->next = NULL;` -/
def endAt (asp : BulkSession) (prev : Ptr) (heap : Heap VariableList) : Option (Heap VariableList) := do
  let c ← heap prev
  let heap ← freeVarbind asp.bulkcache.length c.next heap
  let c ← heap prev
  some (Function.update heap prev (some ⟨none, c.data⟩))

/-- The loop that looks for a row of `endOfMibView`, from row `i` on. -/
def truncate (asp : BulkSession) (r : Nat) : Nat → Nat → Heap VariableList → Option (Heap VariableList)
  | 0, _, heap => some heap
  | n + 1, i, heap => do
    let p ← asp.bulkcache[i]?
    let c ← heap p
    if c.data.value.type = PRIOT_ENDOFMIBVIEW then do
      match ← rowEnd heap (r - 1) p with
      | some prev => asp.endAt prev heap
      | none => truncate asp r n (i + 1) heap
    else truncate asp r n (i + 1) heap

def reorderGetbulk (asp : BulkSession) (heap : Heap VariableList) : Option (Heap VariableList) :=
  if asp.vbcount = 0 then some heap
  else
    let n := if asp.errstat < asp.vbcount then asp.errstat else asp.vbcount
    let r := asp.vbcount - n
    if r = 0 then some heap
    else do
      let heap ← forLoop r asp.fixColumn heap
      let heap ← forLoop (r - 1) asp.linkColumn heap
      let heap ← forLoop (asp.errindex - 1) (fun j => asp.linkTo ((r - 1) * asp.errindex + j) (j + 1)) heap
      asp.truncate r asp.errindex 0 heap

end BulkSession

end Priot.Agent
