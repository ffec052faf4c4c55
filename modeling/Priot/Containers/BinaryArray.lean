/-
# The binary array container

Inserting appends and marks the array dirty; the next lookup sorts it, with a quicksort of its own, and halves. `none`
is a read outside the live entries, an overflow of `int`, or a loop that runs out of fuel. An object is a value of
`α`, compared through `compare` only, and a key is an object with the same key fields.
-/
import Mathlib.Data.List.Basic
import Mathlib.Tactic.Ring


namespace Priot.Containers

variable {α : Type}

/-! ## data -/

/-- The bits `CONTAINER_KEY_ALLOW_DUPLICATES` and `CONTAINER_KEY_UNSORTED`. -/
structure Flags where
  allowDuplicates : Bool := false
  unsorted : Bool := false
  deriving DecidableEq, Repr

/-- `ContainerBinaryArray_Table`. The list holds the live entries, so that its length is
the code's `count`; the slots behind them are never read. -/
structure Table (α : Type) where
  maxSize : Nat
  dirty : Bool
  data : List α
  deriving DecidableEq, Repr

/-- The code's `count`. -/
def Table.count (t : Table α) : Nat := t.data.length

/-- The fields of a `Container_Container` that a binary array reads and writes. -/
structure BinaryArray (α : Type) where
  table : Table α
  compare : α → α → Int
  flags : Flags
  sync : Nat

/-- A `size_t` stored in an `int`. -/
def toInt (n : Nat) : Int := Int.bmod n (2 ^ 32)

/-- An `int` passed as a `size_t`: a negative one is extended by its sign. -/
def toSize (i : Int) : Nat := (i % 2 ^ 64).toNat

/-- `data[i]` at an `int` index. -/
def entry (data : List α) (i : Int) : Option α :=
  if i < 0 then none else data[i.toNat]?

/-! ## sorting -/

/-- `while (i < last && (*f)(data[i], mid) < 0) ++i;` -/
def scanUp (f : α → α → Int) (data : List α) (mid : α) (last : Int) : Nat → Int → Option Int
  | 0, _ => none
  | n + 1, i =>
    if i < last then do
      let x ← entry data i
      if f x mid < 0 then scanUp f data mid last n (i + 1) else some i
    else some i

/-- `while (j > first && (*f)(mid, data[j]) < 0) --j;` -/
def scanDown (f : α → α → Int) (data : List α) (mid : α) (first : Int) : Nat → Int → Option Int
  | 0, _ => none
  | n + 1, j =>
    if first < j then do
      let x ← entry data j
      if f mid x < 0 then scanDown f data mid first n (j - 1) else some j
    else some j

/-- The exchange of `data[i]` and `data[j]`. -/
def exchange (data : List α) (i j : Int) : Option (List α) := do
  let x ← entry data i
  let y ← entry data j
  some ((data.set i.toNat y).set j.toNat x)

/-- The `do … while (i <= j)` of the quicksort. -/
def partitionLoop (f : α → α → Int) (mid : α) (first last : Int) :
    Nat → List α → Int → Int → Option (List α × Int × Int)
  | 0, _, _, _ => none
  | n + 1, data, i, j => do
    let i ← scanUp f data mid last (data.length + 1) i
    let j ← scanDown f data mid first (data.length + 1) j
    if i < j then
      let data ← exchange data i j
      if i + 1 ≤ j - 1 then partitionLoop f mid first last n data (i + 1) (j - 1)
      else some (data, i + 1, j - 1)
    else if i = j then some (data, i + 1, j - 1)
    else some (data, i, j)

/-- `(first+last)/2` in `int`. -/
def middle (first last : Int) : Option Int :=
  if first + last < 2 ^ 31 then some ((first + last).tdiv 2) else none

def arrayQSort (f : α → α → Int) : Nat → List α → Int → Int → Option (List α)
  | 0, _, _, _ => none
  | n + 1, data, first, last => do
    let m ← middle first last
    let mid ← entry data m
    let (data, i, j) ← partitionLoop f mid first last (data.length + 1) data first last
    let data ← (if first < j then arrayQSort f n data first j else some data)
    if i < last then arrayQSort f n data i last else some data

namespace BinaryArray

/-- `_ContainerBinaryArray_sortArray`; no caller reads its result. -/
def sortArray (c : BinaryArray α) : Option (BinaryArray α) :=
  if c.flags.unsorted then some c
  else if c.table.dirty then do
    let data ← (if 1 < c.table.count then
        arrayQSort c.compare c.table.count c.table.data 0 (toInt (c.table.count - 1))
      else some c.table.data)
    some { c with table := { c.table with data := data, dirty := false }, sync := c.sync + 1 }
  else some c

/-- `if (t->dirty) _ContainerBinaryArray_sortArray(c);` -/
def sortIfDirty (c : BinaryArray α) : Option (BinaryArray α) :=
  if c.table.dirty then c.sortArray else some c

/-! ## searching -/

def linearSearch (val : α) (c : BinaryArray α) : Int :=
  if c.table.count = 0 then -1
  else if !c.flags.unsorted then -1
  else match c.table.data.findIdx? fun x => c.compare x val = 0 with
    | some pos => toInt pos
    | none => -1

/-- The `while (len > 0)` of the binary search: `first`, `middle` and `result` behind it. -/
def searchLoop (f : α → α → Int) (data : List α) (val : α) :
    Nat → Nat → Nat → Nat → Int → Option (Nat × Nat × Int)
  | 0, _, _, _, _ => none
  | n + 1, first, middle, len, result =>
    if 0 < len then
      let half := len / 2
      let middle := first + half
      do
        let x ← data[middle]?
        let result := f x val
        if result < 0 then searchLoop f data val n (middle + 1) middle (len - half - 1) result
        else if result = 0 then some (middle, middle, result)
        else searchLoop f data val n first middle half result
    else some (first, middle, result)

/-- What the binary search makes of `first`, `middle` and `result`. -/
def settle (f : α → α → Int) (data : List α) (val : α) (exact : Bool)
    (first middle : Nat) (result : Int) : Option Int :=
  if data.length ≤ first then some (-1)
  else do
    -- the last compare was not against `first`
    let result ← (if first ≠ middle then (data[first]?).map fun x => f x val else some result)
    if result = 0 then
      if !exact then
        if first + 1 = data.length then some (-1) else some (toInt (first + 1))
      else some (toInt first)
    else if exact then some (-1)
    else some (toInt first)

def binarySearch (val : α) (c : BinaryArray α) (exact : Bool) : Option (Int × BinaryArray α) :=
  if c.table.count = 0 then some (-1, c)
  else if c.flags.unsorted then
    if !exact then some (-1, c) else some (linearSearch val c, c)
  else do
    let c ← c.sortIfDirty
    let (first, middle, result) ←
      searchLoop c.compare c.table.data val (c.table.count + 1) 0 0 c.table.count 0
    let index ← settle c.compare c.table.data val exact first middle result
    some (index, c)

/-! ## operations -/

/-- `_ContainerBinaryArray_initialize` and the defaults of the factory. -/
def getBinaryArray (compare : α → α → Int) : BinaryArray α where
  table := { maxSize := 0, dirty := false, data := [] }
  compare := compare
  flags := {}
  sync := 0

/-- `_ContainerBinaryArray_count`. -/
def size (c : BinaryArray α) : Nat := c.table.count

/-- The loop of `get2` that steps over further entries with the key. -/
def skipDuplicates (f : α → α → Int) (data : List α) (key : α) : Nat → Int → Option (Option Int)
  | 0, _ => none
  | n + 1, index => do
    let x ← entry data index
    if f x key = 0 then
      if toSize (index + 1) = data.length then some none
      else skipDuplicates f data key n (index + 1)
    else some (some index)

/-- `_ContainerBinaryArray_get2`; the key `NULL` asks for the first entry. -/
def get2 (c : BinaryArray α) (key : Option α) (exact : Bool) :
    Option (Option α × BinaryArray α) :=
  if c.table.count = 0 then some (none, c)
  else do
    let c ← c.sortIfDirty
    match key with
    | none => (entry c.table.data 0).map fun x => (some x, c)
    | some key =>
      let (index, c) ← binarySearch key c exact
      if index = -1 then some (none, c)
      else if !exact && c.flags.allowDuplicates then
        match ← skipDuplicates c.compare c.table.data key (c.table.count + 1) index with
        | none => some (none, c)
        | some index => (entry c.table.data index).map fun x => (some x, c)
      else (entry c.table.data index).map fun x => (some x, c)

def find (c : BinaryArray α) (key : α) : Option (Option α × BinaryArray α) :=
  c.get2 (some key) true

def findNext (c : BinaryArray α) (key : Option α) : Option (Option α × BinaryArray α) :=
  c.get2 key false

/-- `ContainerBinaryArray_removeAt` with nowhere to save the entry. -/
def removeAt (c : BinaryArray α) (index : Nat) : Option (Int × BinaryArray α) :=
  if c.table.count = 0 then some (0, c)
  else if c.table.count ≤ index then none
  else some (0, { c with
    table := { c.table with data := c.table.data.eraseIdx index }
    sync := if index ≠ c.table.count - 1 then c.sync + 1 else c.sync })

/-- `ContainerBinaryArray_remove` with nowhere to save the entry. -/
def remove (c : BinaryArray α) (key : α) : Option (Int × BinaryArray α) :=
  -- the code's comment here is the one of `get2`: "return NULL"
  if c.table.count = 0 then some (0, c)
  else do
    let c ← c.sortIfDirty
    let (index, c) ← binarySearch key c true
    if index = -1 then some (-1, c)
    else c.removeAt (toSize index)

/-- `_ContainerBinaryArray_baForEach`: the entries the function is called with, in turn. -/
def forEach (c : BinaryArray α) : Option (List α × BinaryArray α) := do
  let c ← c.sortIfDirty
  some (c.table.data, c)

/-- `_ContainerBinaryArray_clear`, with the entries its function is called with. -/
def clear (c : BinaryArray α) : List α × BinaryArray α :=
  (c.table.data, { c with table := { c.table with data := [], dirty := false }, sync := c.sync + 1 })

/-- The check for a duplicate in `insert`: whether there is one, whether the array was
dirty before, and the container behind the lookup. -/
def checkDuplicate (c : BinaryArray α) (x : α) : Option (Bool × Bool × BinaryArray α) :=
  if c.flags.allowDuplicates then some (false, false, c)
  else do
    let (found, c') ← c.get2 (some x) true
    some (found.isSome, c.table.dirty, c')

/-- The size of the table once it has room for one more entry. -/
def grown (t : Table α) : Nat :=
  if t.maxSize ≤ t.count then
    if 0 < t.maxSize then 2 * t.maxSize else 10
  else t.maxSize

/-- `_ContainerBinaryArray_insert`. `granted` is what `realloc` answers if it is asked. -/
def insert (c : BinaryArray α) (x : α) (granted : Bool) : Option (Int × BinaryArray α) := do
  let (duplicate, wasDirty, c) ← c.checkDuplicate x
  if duplicate then some (-1, c)
  else if c.table.maxSize ≤ c.table.count && !granted then some (-1, c)
  else some (0, { c with
    table := { maxSize := grown c.table, dirty := true, data := c.table.data ++ [x] }
    sync := if wasDirty then c.sync else c.sync + 1 })

end BinaryArray

end Priot.Containers
