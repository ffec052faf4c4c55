/-
# Creating rows of the object table

A new row is looked for under its index OID before the OID has been built: only `TableTdata_addRow` does so. `NULL` is
`none`, and characters are octets. What C leaves undefined is `none`: a string longer than its array, and a
subidentifier incremented behind the end of an OID. Allocations succeed.
-/
import Priot.Containers.OrderedSet
import Priot.Containers.Subset
import Priot.Table.BuildOid
import Priot.Mib.IndexSpec

namespace Priot.MteObjects

open Containers (BinaryArray KeyedSet Index compareIndex compareIndex_spec compareIndex_total intMax sortable)
open Lib (TotalCompare)
open Mib (IndexVar SIZEOF_LONG oidOfLong buildOidSegment buildOidSegment_of_le)
open Table (Built buildLoop generateIndexOid segments buildLoop_bounded)
open List

/-! ## the functions -/

def MTE_STR1_LEN : Nat := 32

/-- The flags `MTE_OBJECT_FLAG_FIXED` and `MTE_OBJECT_FLAG_NEXT`. -/
structure Flags where
  fixed : Bool
  next : Bool
  deriving DecidableEq

/-- `struct mteObject`. The strings stand in arrays of `MTE_STR1_LEN + 1`. -/
structure MteObject where
  mteOwner : List UInt8
  mteOName : List UInt8
  mteOIndex : Int
  mteObjectID : ObjId
  fixed : Bool

/-- `TdataRow`. Where `oid_index.oids` is `NULL` there are no subidentifiers. -/
structure TdataRow where
  oidIndex : Index
  indexes : List IndexVar
  data : MteObject

/-- The index that a row has before its OID is built. -/
def noIndex : Index := ⟨[], Nat.zero_le _⟩

/-- `Container_compareIndex`, for rows. -/
def compareRows (lhs rhs : TdataRow) : Int := compareIndex lhs.oidIndex rhs.oidIndex

def rowGetByoid (table : BinaryArray TdataRow) (row : TdataRow) : Option (Option TdataRow × BinaryArray TdataRow) :=
  table.find row

theorem built_le {space inLen : Nat} {out o : ObjId} {indexes : List IndexVar}
    (h : buildLoop space inLen out indexes = .name o) (hout : out.length ≤ space) : o.length ≤ space := by
  induction indexes generalizing out with
  | nil =>
    rw [buildLoop] at h
    exact Built.name.inj h ▸ hout
  | cons var indexes ih =>
    rw [buildLoop] at h
    cases hsegment : buildOidSegment var with
    | none =>
      rw [hsegment] at h
      cases h
    | some name =>
      simp only [hsegment] at h
      split at h
      · split at h
        · refine ih h ?_
          rw [length_append]
          omega
        · cases h
      · cases h

theorem index_fits {indexes : List IndexVar} {o : ObjId} (h : generateIndexOid indexes = .name o) :
    o.length ≤ intMax := by
  have hle := built_le h (Nat.zero_le _)
  simp only [TYPES_MAX_OID_LEN, intMax] at hle ⊢
  omega

/-- `TableTdata_generateIndexOid`. A row whose OID cannot be built is left as it is. -/
def TdataRow.generateIndexOid (row : TdataRow) : Option TdataRow :=
  match h : Table.generateIndexOid row.indexes with
  | .name o => some { row with oidIndex := ⟨o, index_fits h⟩ }
  | .genErr => some row
  | .overrun => none

/-- `TableTdata_addRow`: the status, the row and the table. -/
def addRow (table : BinaryArray TdataRow) (row : TdataRow) : Option (Int × TdataRow × BinaryArray TdataRow) := do
  let row ← if row.indexes ≠ [] then row.generateIndexOid else some row
  if row.oidIndex.oids = [] then some (-1, row, table)
  else
    let (rc, table) ← table.insert row true
    some (if rc ≠ 0 then -1 else 0, row, table)

/-- `oids[ i ]++`. -/
def increment (row : TdataRow) (i : Nat) : Option TdataRow :=
  if i < row.oidIndex.oids.length then
    some { row with oidIndex := ⟨row.oidIndex.oids.modify i (· + 1), by
      rw [List.length_modify]
      exact row.oidIndex.fits⟩ }
  else none

/-- The loop that looks for a free slot. -/
def nextFree : Nat → BinaryArray TdataRow → TdataRow → Option (TdataRow × BinaryArray TdataRow)
  | 0, _, _ => none
  | n + 1, table, row => do
    let row ← increment row row.oidIndex.oids.length
    let (row2, table) ← rowGetByoid table row
    if row2.isSome then nextFree n table row else some (row, table)

/-- `TableTdata_rowAddIndex` for a string. -/
def stringIndex (s : List UInt8) : IndexVar := ⟨.octetStr, some (.string s), s.length⟩

/-- `TableTdata_rowAddIndex` for an integer. -/
def integerIndex (v : Int) : IndexVar := ⟨.integer, some (.integer v), SIZEOF_LONG⟩

/-- The row before it is looked for. -/
def newRow (owner oname : List UInt8) (index : BitVec 32) (flags : Flags) : TdataRow where
  oidIndex := noIndex
  indexes := [stringIndex owner, stringIndex oname, integerIndex index.toInt]
  data :=
    { mteOwner := owner
      mteOName := oname
      mteOIndex := index.toInt
      mteObjectID := [0, 0]
      fixed := flags.fixed }

/-- `mteObjects_createEntry`: the row or `NULL`, and the table. The loop has so many rounds. -/
def createEntry (rounds : Nat) (table : BinaryArray TdataRow) (owner oname : Option (List UInt8)) (index : BitVec 32)
    (flags : Flags) : Option (Option TdataRow × BinaryArray TdataRow) :=
  let owner := owner.getD []
  let oname := oname.getD []
  -- the two `memcpy` into the entry
  if MTE_STR1_LEN + 1 < owner.length ∨ MTE_STR1_LEN + 1 < oname.length then none
  else do
    let row := newRow owner oname index flags
    let (row2, table) ← rowGetByoid table row
    if row2.isSome then
      if flags.next then
        let (row, table) ← nextFree rounds table row
        let (_, row, table) ← addRow table row
        some (some row, table)
      else some (none, table)
    else
      let (_, row, table) ← addRow table row
      some (some row, table)

/-! ## the table -/

/-- The index OID of a row. -/
def key (owner oname : Option (List UInt8)) (k : Int) : ObjId :=
  UInt32.ofNat (owner.getD []).length :: (owner.getD []).map (·.toUInt32) ++
    (UInt32.ofNat (oname.getD []).length :: (oname.getD []).map (·.toUInt32) ++ [oidOfLong k])

/-- The object table: what its container holds, under indexes of an owner, a name and a number. -/
structure ObjectTable where
  container : BinaryArray TdataRow
  rows : KeyedSet compareRows
  represents : BinaryArray.Represents compareRows container rows
  indexed : ∀ row ∈ rows.carrier, ∃ owner oname k, row.oidIndex.oids = key owner oname k
  room : container.size < sortable

namespace ObjectTable

/-- No row has the index. -/
def Free (t : ObjectTable) (o : ObjId) : Prop := ∀ row ∈ t.rows.carrier, row.oidIndex.oids ≠ o

/-- The container holds the rows of the table and one more. -/
def Added (t : ObjectTable) (row : TdataRow) (container : BinaryArray TdataRow) : Prop :=
  ∃ rows, BinaryArray.Represents compareRows container rows ∧ rows.carrier = insert row t.rows.carrier

/-- The container holds the rows of the table. -/
def Unchanged (t : ObjectTable) (container : BinaryArray TdataRow) : Prop :=
  BinaryArray.Represents compareRows container t.rows

/-- The row is new in the table, and it is the row of the number `k`. -/
structure Created (t : ObjectTable) (owner oname : Option (List UInt8)) (k : Int) (row : Option TdataRow)
    (container : BinaryArray TdataRow) : Prop where
  created : ∃ new, row = some new ∧ new.oidIndex.oids = key owner oname k ∧ new.data.mteOIndex = k ∧
    t.Added new container

/-- What creating an entry is to do. -/
def Creates (t : ObjectTable) (owner oname : Option (List UInt8)) (index : BitVec 32) (flags : Flags) : Prop :=
  ∃ rounds row container, createEntry rounds t.container owner oname index flags = some (row, container) ∧
    (flags.next = true → ∃ k, index.toInt ≤ k ∧ t.Free (key owner oname k) ∧
      (∀ j, index.toInt ≤ j → j < k → ¬ t.Free (key owner oname j)) ∧ t.Created owner oname k row container) ∧
    (flags.next = false → t.Free (key owner oname index.toInt) →
      t.Created owner oname index.toInt row container) ∧
    (flags.next = false → ¬ t.Free (key owner oname index.toInt) → row = none ∧ t.Unchanged container)

end ObjectTable

theorem compareRows_total : TotalCompare compareRows :=
  compareIndex_total.comap TdataRow.oidIndex

theorem compareRows_eq {x y : TdataRow} : compareRows x y = 0 ↔ x.oidIndex.oids = y.oidIndex.oids :=
  (compareIndex_spec x.oidIndex y.oidIndex).2

/-- The table that the module starts with. -/
def ObjectTable.init : ObjectTable where
  container := BinaryArray.getBinaryArray compareRows
  rows := KeyedSet.empty compareRows
  represents := BinaryArray.represents_new compareRows_total
  indexed := fun _ h => absurd h (Set.notMem_empty _)
  room := Nat.succ_pos _

/-! ## what a call does -/

variable {t : ObjectTable} {row : TdataRow} {owner oname : Option (List UInt8)} {s : List UInt8} {index : BitVec 32}
  {flags : Flags} {container : BinaryArray TdataRow}

theorem key_ne_nil (owner oname : Option (List UInt8)) (k : Int) : key owner oname k ≠ [] :=
  cons_ne_nil _ _

/-- Both strings have room in the entry. -/
def Fit (owner oname : Option (List UInt8)) : Prop :=
  (owner.getD []).length ≤ MTE_STR1_LEN + 1 ∧ (oname.getD []).length ≤ MTE_STR1_LEN + 1

theorem stringIndex_segment (h : s.length ≤ MTE_STR1_LEN + 1) :
    buildOidSegment (stringIndex s) = some (UInt32.ofNat s.length :: s.map (·.toUInt32)) := by
  refine buildOidSegment_of_le ?_ ?_
  · show some (UInt32.ofNat s.length :: (s.take s.length).map (·.toUInt32)) = _
    rw [take_length]
  · rw [length_cons, length_map]
    simp only [MTE_STR1_LEN, TYPES_MAX_OID_LEN] at h ⊢
    omega

theorem integerIndex_segment (v : Int) : buildOidSegment (integerIndex v) = some [oidOfLong v] :=
  buildOidSegment_of_le rfl (by decide : 1 ≤ TYPES_MAX_OID_LEN)

theorem newRow_oid (h : Fit owner oname) (index : BitVec 32) (flags : Flags) :
    generateIndexOid (newRow (owner.getD []) (oname.getD []) index flags).indexes =
      .name (key owner oname index.toInt) := by
  have hsegment := stringIndex_segment h.1
  have hsegment' := stringIndex_segment h.2
  -- 34 subidentifiers each, and one for the number
  have hlen : (UInt32.ofNat (owner.getD []).length :: (owner.getD []).map (·.toUInt32)).length ≤ 34 := by
    rw [length_cons, length_map]
    exact Nat.succ_le_succ h.1
  have hlen' : (UInt32.ofNat (oname.getD []).length :: (oname.getD []).map (·.toUInt32)).length ≤ 34 := by
    rw [length_cons, length_map]
    exact Nat.succ_le_succ h.2
  have hlast : [oidOfLong index.toInt].length = 1 := rfl
  show buildLoop TYPES_MAX_OID_LEN Table.sizeofOids []
    [stringIndex (owner.getD []), stringIndex (oname.getD []), integerIndex index.toInt] = _
  simp only [buildLoop, hsegment, hsegment', integerIndex_segment, nil_append]
  rw [if_pos, if_pos, if_pos, if_pos, if_pos, if_pos, key, append_assoc]
  all_goals
    simp only [length_append, length_nil, TYPES_MAX_OID_LEN, Table.sizeofOids, Mib.SIZEOF_OID]
    omega

theorem rowGetByoid_noIndex (t : ObjectTable) (h : row.oidIndex = noIndex) :
    ∃ container, rowGetByoid t.container row = some (none, container) ∧ t.container.Tidied container := by
  obtain ⟨r, container, e, htidy, hlooked⟩ := BinaryArray.find_spec t.represents.kept t.represents.small row
  refine ⟨container, ?_, htidy⟩
  rw [rowGetByoid, e]
  cases hlooked with
  | missing _ => rfl
  | @found x hmem hequal =>
    rw [t.represents.compare, compareRows_eq, h] at hequal
    obtain ⟨owner, oname, k, hkey⟩ := t.indexed x ((t.represents.mem_iff x).mp hmem)
    exact absurd (hkey.symm.trans hequal) (key_ne_nil owner oname k)

/-- A row is put into the table if and only if its index is free. -/
theorem addRow_spec {o : ObjId} (hcontainer : t.container.Tidied container)
    (hoid : generateIndexOid row.indexes = .name o) (hindexes : row.indexes ≠ []) (ho : o ≠ []) :
    ∃ rc new container', addRow container row = some (rc, new, container') ∧ new.oidIndex.oids = o ∧
      new.data = row.data ∧ (t.Free o → t.Added new container') ∧ (¬ t.Free o → t.Unchanged container') := by
  have hrow : row.generateIndexOid = some { row with oidIndex := ⟨o, index_fits hoid⟩ } := by
    unfold TdataRow.generateIndexOid
    split
    · rename_i o' h'
      rw [hoid, Built.name.injEq] at h'
      subst h'
      rfl
    · rename_i h'
      rw [hoid] at h'
      cases h'
    · rename_i h'
      rw [hoid] at h'
      cases h'
  have hrep := t.represents.tidied hcontainer
  -- a table has room for one row more
  have hroom : container.size < sortable := by
    have hcount := hcontainer.count
    have ht := t.room
    simp only [BinaryArray.size] at ht ⊢
    omega
  obtain ⟨r, container', rows, e, hanswers, hrep'⟩ :=
    hrep.insert { row with oidIndex := ⟨o, index_fits hoid⟩ } true hroom fun _ => rfl
  rw [BinaryArray.step, Option.map_eq_some_iff] at e
  obtain ⟨⟨rc, container''⟩, hinsert, e⟩ := e
  obtain ⟨rfl, rfl⟩ := Prod.mk.inj e
  refine ⟨if rc ≠ 0 then -1 else 0, { row with oidIndex := ⟨o, index_fits hoid⟩ }, container'', ?_, rfl, rfl, ?_, ?_⟩
  · simp only [addRow, if_pos hindexes, hrow, Option.bind_eq_bind, Option.bind_some, if_neg ho, hinsert]
  · intro hfree
    cases hanswers with
    | inserted _ hcarrier => exact ⟨rows, hrep', hcarrier⟩
    | duplicate hequal _ =>
      obtain ⟨y, hy, hcompare⟩ := hequal
      exact absurd (compareRows_eq.mp hcompare) (hfree y hy)
  · intro hfree
    cases hanswers with
    | inserted hfresh _ => exact absurd (fun y hy heq => hfresh y hy (compareRows_eq.mpr heq)) hfree
    | duplicate _ _ => exact hrep'

/-- A row always comes back. It has been added only if its index was free. -/
theorem createEntry_spec (t : ObjectTable) (rounds : Nat) (h : Fit owner oname) (index : BitVec 32) (flags : Flags) :
    ∃ new container, createEntry rounds t.container owner oname index flags = some (some new, container) ∧
      new.oidIndex.oids = key owner oname index.toInt ∧ new.data.mteOIndex = index.toInt ∧
      (t.Free (key owner oname index.toInt) → t.Added new container) ∧
      (¬ t.Free (key owner oname index.toInt) → t.Unchanged container) := by
  -- both `memcpy` stay within their arrays
  have hfit : ¬ (MTE_STR1_LEN + 1 < (owner.getD []).length ∨ MTE_STR1_LEN + 1 < (oname.getD []).length) := by
    rw [not_or, not_lt, not_lt]
    exact h
  obtain ⟨container, hget, htidy⟩ :=
    rowGetByoid_noIndex t (rfl : (newRow (owner.getD []) (oname.getD []) index flags).oidIndex = noIndex)
  obtain ⟨rc, new, container', hadd, hoid, hdata, hadded, hunchanged⟩ :=
    addRow_spec htidy (newRow_oid h index flags) (cons_ne_nil _ _) (key_ne_nil owner oname index.toInt)
  refine ⟨new, container', ?_, hoid, ?_, hadded, hunchanged⟩
  · simp only [createEntry, if_neg hfit, hget, Option.bind_eq_bind, Option.bind_some, Option.isSome_none,
      if_neg Bool.false_ne_true, hadd]
  · rw [hdata]
    rfl

theorem createEntry_table (rounds : Nat) (h : Fit owner oname) {r : Option TdataRow}
    (hcall : createEntry rounds t.container owner oname index flags = some (r, container))
    (hroom : container.size < sortable) : ∃ t' : ObjectTable, t'.container = container := by
  obtain ⟨new, container', e, hoid, -, hadded, hunchanged⟩ := createEntry_spec t rounds h index flags
  rw [e] at hcall
  obtain ⟨-, rfl⟩ := Prod.mk.inj (Option.some.inj hcall)
  by_cases hfree : t.Free (key owner oname index.toInt)
  · obtain ⟨rows, hrep, hcarrier⟩ := hadded hfree
    refine ⟨⟨container', rows, hrep, ?_, hroom⟩, rfl⟩
    intro row hrow
    rw [hcarrier] at hrow
    rcases hrow with rfl | hrow
    · exact ⟨owner, oname, index.toInt, hoid⟩
    · exact t.indexed row hrow
  · exact ⟨⟨container', t.rows, hunchanged hfree, t.indexed, hroom⟩, rfl⟩

/-! ## free slots -/

theorem Added.mem {new : TdataRow} {rows : KeyedSet compareRows} (h : t.Added new container)
    (hrep : BinaryArray.Represents compareRows container rows) : new ∈ rows.carrier := by
  obtain ⟨rows', hrep', hcarrier⟩ := h
  have hmem : new ∈ rows'.carrier := by
    rw [hcarrier]
    exact Set.mem_insert _ _
  exact (hrep.mem_iff new).mp ((hrep'.mem_iff new).mpr hmem)

/-- Creating an entry does what it is to do if and only if the strings fit and the index that is asked for is free. -/
theorem createEntry_creates_iff (t : ObjectTable) (owner oname : Option (List UInt8)) (index : BitVec 32)
    (flags : Flags) :
    t.Creates owner oname index flags ↔ Fit owner oname ∧ t.Free (key owner oname index.toInt) := by
  constructor
  · rintro ⟨rounds, row, container, hcall, hnext, -, hused⟩
    have hfit : Fit owner oname := by
      by_contra hfit
      have hlong : MTE_STR1_LEN + 1 < (owner.getD []).length ∨ MTE_STR1_LEN + 1 < (oname.getD []).length := by
        simp only [Fit, not_and_or, not_le] at hfit
        exact hfit
      rw [createEntry, if_pos hlong] at hcall
      cases hcall
    refine ⟨hfit, ?_⟩
    by_contra hfree
    obtain ⟨new, container', e, -, -, -, hunchanged⟩ :=
      createEntry_spec t rounds hfit index flags
    rw [e] at hcall
    obtain ⟨rfl, rfl⟩ := Prod.mk.inj (Option.some.inj hcall)
    by_cases hflag : flags.next = true
    · -- the row that comes back is in no table
      obtain ⟨k, -, hk, -, ⟨new', heq, hoid, -, hadded⟩⟩ := hnext hflag
      exact hk new' (Added.mem hadded (hunchanged hfree)) hoid
    · have hnone := (hused (Bool.eq_false_iff.mpr hflag) hfree).1
      cases hnone
  · rintro ⟨hfit, hfree⟩
    obtain ⟨new, container, e, hoid, hindex, hadded, -⟩ := createEntry_spec t 0 hfit index flags
    -- the row is the one that was asked for, as its index was free
    have hcreated : t.Created owner oname index.toInt (some new) container :=
      ⟨new, rfl, hoid, hindex, hadded hfree⟩
    refine ⟨0, some new, container, e, ?_, fun _ _ => hcreated, fun _ hused => absurd hfree hused⟩
    intro _
    exact ⟨index.toInt, le_refl _, hfree, fun j hj hlt => absurd hlt (not_lt.mpr hj), hcreated⟩

/-- One row of an owner `a` and a name `b`, with the number 1. -/
def firstRow : TdataRow :=
  { newRow [97] [98] 1 ⟨true, true⟩ with oidIndex := ⟨key (some [97]) (some [98]) 1, (by decide : 5 ≤ intMax)⟩ }

/-- A container of that row. -/
def firstContainer : BinaryArray TdataRow where
  table := ⟨10, false, [firstRow]⟩
  compare := compareRows
  flags := {}
  sync := 0

theorem firstContainer_compare : firstContainer.compare = compareRows := by
  rw [firstContainer]

theorem firstContainer_kept : firstContainer.Kept := by
  refine ⟨?_, rfl, fun _ => pairwise_singleton _ _, (by decide : 1 ≤ 10)⟩
  rw [firstContainer_compare]
  exact compareRows_total

/-- A table of that row. -/
def firstTable : ObjectTable where
  container := firstContainer
  rows := ⟨{firstRow}, fun _ hx _ hy _ => hx.trans hy.symm⟩
  represents :=
    { kept := firstContainer_kept
      compare := firstContainer_compare
      unique := rfl
      mem_iff := fun _ => List.mem_singleton
      distinct := List.pairwise_singleton _ _
      small := Nat.succ_pos _ }
  indexed := fun _ h => ⟨some [97], some [98], 1, h ▸ rfl⟩
  room := Nat.succ_lt_succ (Nat.two_pow_pos 30)

/-- A further row is to be added behind the one with the number 1. -/
theorem not_creates_next : ¬ firstTable.Creates (some [97]) (some [98]) 1 ⟨true, true⟩ := by
  rintro ⟨rounds, row, container, hcall, hnext, -, -⟩
  have hused : ¬ firstTable.Free (key (some [97]) (some [98]) 1) := fun h => h firstRow rfl rfl
  obtain ⟨new, container', e, -, -, -, hunchanged⟩ := createEntry_spec firstTable rounds
    (⟨by decide, by decide⟩ : Fit (some [97]) (some [98])) 1 ⟨true, true⟩
  rw [e] at hcall
  obtain ⟨rfl, rfl⟩ := Prod.mk.inj (Option.some.inj hcall)
  obtain ⟨k, -, hk, -, ⟨new', heq, hoid, -, hadded⟩⟩ := hnext rfl
  exact hk new' (Added.mem hadded (hunchanged hused)) hoid

end Priot.MteObjects
