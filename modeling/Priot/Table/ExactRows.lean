/-
# Which exact requests reach a row (`Table.c`)

The table helper hands a request on when it has found a column and read all indexes. Two kinds of names get past it
that no row has: one in which an index is cut off or not written as its value is, and one with a column behind all
valid columns.
-/
import Mathlib.Data.List.Forall2
import Priot.Table.ExactIndexes

namespace Priot.Table

open Agent Proxy Registry Mib List

/-! ## columns -/

/-- The column is in the range, or in the list. -/
def ColumnInfo.Has (column : Oid) : ColumnInfo → Prop
  | .range low high => low ≤ column ∧ column ≤ high
  | .list first others => column ∈ first :: others

/-- The range, or the list, ends before the column, and does not start behind it. -/
def ColumnInfo.Before (column : Oid) : ColumnInfo → Prop
  | .range low high => low ≤ column ∧ high < column
  | .list first others => first ≤ column ∧ (first :: others).getLastD first < column

variable {current closest column : Oid} {validColumns : List ColumnInfo}

theorem nearer_pos (h : 0 < column) : 0 < nearer column closest := by
  unfold nearer
  split
  · exact h
  · next hnot =>
    have hne : closest ≠ 0 := fun h0 => hnot (Or.inr h0)
    exact UInt32.pos_iff_ne_zero.mpr hne

theorem lt_nearer (h : current < column) (hclosest : closest ≠ 0 → current < closest) :
    current < nearer column closest := by
  unfold nearer
  split
  · exact h
  · next hnot => exact hclosest fun h0 => hnot (Or.inr h0)

theorem find_column {first : Oid} {others : List Oid} (h : current ≤ (first :: others).getLastD first) :
    ∃ column ∈ first :: others, current ≤ column ∧
      ((first :: others).find? fun column => ¬ column < current) = some column := by
  cases hfind : (first :: others).find? fun column => ¬ column < current with
  | none =>
    rw [find?_eq_none] at hfind
    have hlast : (first :: others).getLastD first ∈ first :: others := by
      rw [getLastD_cons]
      exact getLastD_mem_cons
    exact absurd (decide_eq_true (UInt32.not_lt.mpr h)) (hfind _ hlast)
  | some column =>
    refine ⟨column, mem_of_find?_eq_some hfind, ?_, rfl⟩
    have hnot := find?_some hfind
    exact UInt32.not_lt.mp (of_decide_eq_true hnot)

theorem closestFrom_cons (info : ColumnInfo) : (info.Has current ∧ ¬ info.Before current ∧
      closestFrom current closest (info :: validColumns) = current) ∨ (info.Before current ∧
      closestFrom current closest (info :: validColumns) = closestFrom current closest validColumns) ∨
    (¬ info.Before current ∧ ∃ column, current < column ∧ closestFrom current closest (info :: validColumns) =
        closestFrom current (nearer column closest) validColumns) := by
  cases info with
  | range low high =>
    rw [closestFrom]
    by_cases hlow : current < low
    · rw [if_pos hlow]
      exact Or.inr (Or.inr ⟨fun h => UInt32.not_lt.mpr h.1 hlow, low, hlow, rfl⟩)
    · rw [if_neg hlow]
      rw [UInt32.not_lt] at hlow
      by_cases hhigh : current ≤ high
      · rw [if_pos hhigh]
        exact Or.inl ⟨⟨hlow, hhigh⟩, fun h => UInt32.not_lt.mpr hhigh h.2, rfl⟩
      · rw [if_neg hhigh]
        exact Or.inr (Or.inl ⟨⟨hlow, UInt32.not_le.mp hhigh⟩, rfl⟩)
  | list first others =>
    rw [closestFrom]
    by_cases hfirst : current < first
    · rw [if_pos hfirst]
      exact Or.inr (Or.inr ⟨fun h => UInt32.not_lt.mpr h.1 hfirst, first, hfirst, rfl⟩)
    · rw [if_neg hfirst]
      by_cases hlast : current > (first :: others).getLastD first
      · rw [if_pos hlast]
        exact Or.inr (Or.inl ⟨⟨UInt32.not_lt.mp hfirst, hlast⟩, rfl⟩)
      · rw [if_neg hlast]
        have hnot : ¬ (ColumnInfo.list first others).Before current := fun h => hlast h.2
        obtain ⟨column, hmem, hle, hfind⟩ := find_column (UInt32.not_lt.mp hlast)
        rw [hfind, Option.getD_some]
        by_cases heq : current = column
        · rw [if_pos heq]
          exact Or.inl ⟨heq ▸ hmem, hnot, rfl⟩
        · rw [if_neg heq]
          exact Or.inr (Or.inr ⟨hnot, column, UInt32.lt_of_le_of_ne hle heq, rfl⟩)

/-- Nothing is found just when everything ends before the column. -/
theorem closestFrom_eq_zero_iff (hpos : 0 < current) :
    closestFrom current closest validColumns = 0 ↔ closest = 0 ∧ ∀ info ∈ validColumns, info.Before current := by
  induction validColumns generalizing closest with
  | nil => exact (and_iff_left (forall_mem_nil _)).symm
  | cons info validColumns ih =>
    rw [forall_mem_cons]
    obtain ⟨-, hnot, hround⟩ | ⟨hbefore, hround⟩ | ⟨hnot, column, hlt, hround⟩ :=
      @closestFrom_cons current closest validColumns info
    · rw [hround]
      exact iff_of_false (UInt32.pos_iff_ne_zero.mp hpos) fun h => hnot h.2.1
    · rw [hround, ih, and_iff_right hbefore]
    · rw [hround, ih]
      have hne : nearer column closest ≠ 0 := UInt32.pos_iff_ne_zero.mp (nearer_pos (UInt32.lt_trans hpos hlt))
      exact iff_of_false (fun h => hne h.1) fun h => hnot h.2.1

theorem closestFrom_eq_self (hpos : 0 < current) (hclosest : closest ≠ 0 → current < closest)
    (h : closestFrom current closest validColumns = current) : ∃ info ∈ validColumns, info.Has current := by
  induction validColumns generalizing closest with
  | nil =>
    obtain rfl : closest = current := h
    exact absurd (hclosest (UInt32.pos_iff_ne_zero.mp hpos)) (UInt32.lt_irrefl _)
  | cons info validColumns ih =>
    obtain ⟨hhas, -, -⟩ | ⟨-, hround⟩ | ⟨-, column, hlt, hround⟩ :=
      @closestFrom_cons current closest validColumns info
    · exact ⟨info, mem_cons_self, hhas⟩
    · obtain ⟨info', hmem, hhas⟩ := ih hclosest (hround ▸ h)
      exact ⟨info', mem_cons_of_mem _ hmem, hhas⟩
    · obtain ⟨info', hmem, hhas⟩ := ih (fun _ => lt_nearer hlt hclosest) (hround ▸ h)
      exact ⟨info', mem_cons_of_mem _ hmem, hhas⟩

/-! ## names -/

/-- A valid column of the table. -/
structure ValidColumn (reg : TableRegistrationInfo) (column : Oid) : Prop where
  min_le : reg.minColumn ≤ column
  le_max : column ≤ reg.maxColumn
  valid : ∀ validColumns, reg.validColumns = some validColumns → ∃ info ∈ validColumns, info.Has column

/-- The name goes on with a column in the range of the table. -/
structure InRange (rootoid : ObjId) (reg : TableRegistrationInfo) (name : ObjId) (column : Oid) (index : ObjId) :
    Prop where
  name_eq : name = rootoid ++ 1 :: column :: index
  min_le : reg.minColumn ≤ column
  le_max : column ≤ reg.maxColumn

/-- The column lies behind all valid columns. -/
def Skipped (rootoid : ObjId) (reg : TableRegistrationInfo) (name : ObjId) : Prop :=
  ∃ column index, InRange rootoid reg name column index ∧
    ∃ validColumns, reg.validColumns = some validColumns ∧ ∀ info ∈ validColumns, info.Before column

/-- The column is there, and the indexes can be read. -/
structure Through (rootoid : ObjId) (reg : TableRegistrationInfo) (name : ObjId) (column : Oid) (index : ObjId) :
    Prop extends InRange rootoid reg name column index where
  closest : ∀ validColumns, reg.validColumns = some validColumns → closestColumn column validColumns = column
  taken : Taken reg.indexes index

/-- The name is rejected for its indexes, which includes those of a column that is not there. -/
structure Refused (rootoid : ObjId) (reg : TableRegistrationInfo) (name : ObjId) : Prop where
  inRange : ∃ column index, InRange rootoid reg name column index
  not_skipped : ¬ Skipped rootoid reg name
  not_through : ∀ column index, ¬ Through rootoid reg name column index

/-- The name does not get past the helper unless a row has it. -/
structure Fine (rootoid : ObjId) (reg : TableRegistrationInfo) (name : ObjId) : Prop where
  not_skipped : ¬ Skipped rootoid reg name
  whole : ∀ column index, Through rootoid reg name column index → Whole reg.indexes index

/-- The name of a row: a valid column, and the complete encoding of index values. -/
structure Names (rootoid : ObjId) (reg : TableRegistrationInfo) (name : ObjId) (column : Oid) (index : ObjId) :
    Prop where
  name_eq : name = rootoid ++ 1 :: column :: index
  valid : ValidColumn reg column
  encodes : Encodes reg.indexes index

variable {rootoid name index : ObjId} {reg : TableRegistrationInfo} {mode : Mode} {r : Request}

theorem InRange.pos (h : InRange rootoid reg name column index) : 0 < column :=
  UInt32.lt_of_lt_of_le reg.minColumn_pos h.min_le

theorem InRange.unique {column' : Oid} {index' : ObjId} (h : InRange rootoid reg name column index)
    (h' : InRange rootoid reg name column' index') : column' = column ∧ index' = index := by
  have heq := h'.name_eq.symm.trans h.name_eq
  rw [append_cancel_left_eq, List.cons.injEq, List.cons.injEq] at heq
  exact heq.2

theorem Through.validColumn (h : Through rootoid reg name column index) : ValidColumn reg column := by
  refine ⟨h.min_le, h.le_max, fun validColumns hvalid => ?_⟩
  exact closestFrom_eq_self h.pos (fun h0 => absurd rfl h0) (h.closest validColumns hvalid)

theorem InRange.not_skipped (h : InRange rootoid reg name column index)
    (hclosest : ∀ validColumns, reg.validColumns = some validColumns → closestColumn column validColumns ≠ 0) :
    ¬ Skipped rootoid reg name := by
  rintro ⟨column', index', hrange, validColumns, hvalid, hbefore⟩
  obtain ⟨rfl, rfl⟩ := h.unique hrange
  exact hclosest validColumns hvalid ((closestFrom_eq_zero_iff h.pos).mpr ⟨rfl, hbefore⟩)

theorem Through.not_skipped (h : Through rootoid reg name column index) : ¬ Skipped rootoid reg name := by
  refine h.toInRange.not_skipped fun validColumns hvalid => ?_
  rw [h.closest validColumns hvalid]
  exact UInt32.pos_iff_ne_zero.mp h.pos

theorem InRange.refused (h : InRange rootoid reg name column index)
    (hclosest : ∀ validColumns, reg.validColumns = some validColumns → closestColumn column validColumns ≠ 0)
    (hnot : ¬ Through rootoid reg name column index) : Refused rootoid reg name := by
  refine ⟨⟨column, index, h⟩, h.not_skipped hclosest, ?_⟩
  intro column' index' h'
  obtain ⟨rfl, rfl⟩ := h.unique h'.toInRange
  exact hnot h'

/-- The name is built again from the column and the values that have been read just when the index is whole. -/
theorem buildOid_iff {vars : List IndexVar} (hlen : name.length ≤ TYPES_MAX_OID_LEN)
    (hname : name = rootoid ++ 1 :: column :: index) (hvars : Rebuilds reg.indexes index vars) :
    buildOid rootoid column vars = .name name ↔ Whole reg.indexes index := by
  subst hname
  rw [length_append, length_cons, length_cons] at hlen
  have hroom : rootoid.length + 2 + ([] : ObjId).length ≤ TYPES_MAX_OID_LEN := by
    show rootoid.length + 2 ≤ TYPES_MAX_OID_LEN
    omega
  have hout : (rootoid ++ [1, column]).length = rootoid.length + 2 := length_append
  have hin : ¬ sizeofOids < (rootoid ++ [1, column]).length := by
    have hsize : TYPES_MAX_OID_LEN ≤ sizeofOids := by decide
    rw [hout]
    omega
  have hspace : ¬ TYPES_MAX_OID_LEN < (rootoid ++ [1, column]).length := by
    rw [hout]
    omega
  rw [buildOid, fillName_eq, if_pos hroom]
  show mibBuildOid (some (rootoid ++ [1, column])) vars = _ ↔ _
  rw [mibBuildOid, buildOidNoalloc, if_neg hin, if_neg hspace, ← hvars (rootoid ++ [1, column]) (by omega),
    append_assoc]
  rfl

/-! ## one request -/

/-- A request as the agent hands it on: the name is in the table and has room in an array, and nobody has looked at
the request unless it is processed. -/
structure Arrives (rootoid : ObjId) (mode : Mode) (r : Request) : Prop where
  starts : ∃ rest, r.name = rootoid ++ rest
  length_le : r.name.length ≤ TYPES_MAX_OID_LEN
  status_eq : r.processed = false → r.status = errNoError
  info_eq : r.processed = false → r.info = none
  type_eq : r.processed = false → mode = .get → r.type = asnNULL

theorem Arrives.not_marked (ha : Arrives rootoid mode r) (hp : r.processed = false) (hmode : mode = .get) :
    ¬ (r.type = PRIOT_NOSUCHOBJECT ∨ r.type = PRIOT_NOSUCHINSTANCE) := by
  rw [ha.type_eq hp hmode]
  decide

/-- What becomes of a request that has not been processed. -/
inductive Outcome (rootoid : ObjId) (reg : TableRegistrationInfo) (mode : Mode) (r : Request) : Round → Prop
  | outside (hrange : ∀ column index, ¬ InRange rootoid reg r.name column index) :
    Outcome rootoid reg mode r (.next (reject mode r))
  | skipped (hskipped : Skipped rootoid reg r.name) (indexes : List IndexVar) :
    Outcome rootoid reg mode r (.next { r with info := some ⟨0, 0, indexes, []⟩ })
  | unset (hrefused : Refused rootoid reg r.name) (name : ObjId) (hmode : ¬ isSet mode) :
    Outcome rootoid reg mode r (.next (helperCleanup { r with name := name } mode PRIOT_NOSUCHINSTANCE.toNat))
  | stopped (hrefused : Refused rootoid reg r.name) (name : ObjId) (hmode : isSet mode) :
    Outcome rootoid reg mode r (.stop (helperCleanup { r with name := name } mode errNoCreation))
  | through (column : Oid) (index : ObjId) (vars : List IndexVar)
      (hthrough : Through rootoid reg r.name column index) (hvars : Rebuilds reg.indexes index vars) :
    Outcome rootoid reg mode r (.need { r with info := some ⟨column, reg.indexes.length, vars, index⟩ })

theorem enterTable_append {rest : ObjId} (hmode : mode ≠ .getNext) : enterTable rootoid mode (rootoid ++ rest) =
      if rest ≠ [] ∧ rest.headD 0 ≠ 1 then none else some (rootoid ++ rest) := by
  have hlen : (rootoid ++ rest).length = rootoid.length + rest.length := length_append
  have htake : (rootoid ++ rest).take
      (if rootoid.length > (rootoid ++ rest).length then (rootoid ++ rest).length else rootoid.length) = rootoid := by
    rw [if_neg (by omega), take_left]
  have hsame : oidCompare rootoid rootoid = .eq := Registry.oidCompare_eq.mpr rfl
  have hentry : (rootoid ++ rest).getD rootoid.length 0 = rest.headD 0 := by
    rw [getD_eq_getElem?_getD, getElem?_append_right (Nat.le_refl _), Nat.sub_self, headD_eq_head?_getD,
      head?_eq_getElem?]
  have hmore : rootoid.length < (rootoid ++ rest).length ↔ rest ≠ [] := by
    rw [hlen, ← length_pos_iff]
    omega
  unfold enterTable
  simp only [htake, hsame, hentry, hmore, reduceCtorEq, if_false, hmode, and_false]

theorem getD_column (rootoid : ObjId) (v column : Oid) (index : ObjId) :
    (rootoid ++ v :: column :: index).getD (rootoid.length + 1) 0 = column := by
  rw [getD_eq_getElem?_getD, getElem?_append_right (Nat.le_add_right _ 1), Nat.add_sub_cancel_left]
  rfl

theorem columnOf_column {v : Oid} (hmode : mode ≠ .getNext) :
    columnOf rootoid reg mode (rootoid ++ v :: column :: index) = if column < reg.minColumn then .outOfRange
      else if column > reg.maxColumn then .outOfRange else verifyColumn rootoid reg (rootoid ++ v :: column :: index)
        (rootoid ++ v :: column :: index).length column := by
  have hlen : (rootoid ++ v :: column :: index).length > rootoid.length + 1 := by
    rw [length_append, length_cons, length_cons]
    omega
  unfold columnOf
  rw [if_pos hlen]
  simp only [getD_column, if_neg hmode]

theorem enter_outside (hmode : mode = .get ∨ mode = .setReserve1) (hstarts : ∃ rest, name = rootoid ++ rest)
    (hrange : ∀ column index, ¬ InRange rootoid reg name column index) : enterTable rootoid mode name = none ∨
      enterTable rootoid mode name = some name ∧ columnOf rootoid reg mode name = .outOfRange := by
  obtain ⟨rest, rfl⟩ := hstarts
  have hnext : mode ≠ .getNext := by rintro rfl; simp at hmode
  have hbulk : mode ≠ .getBulk := by rintro rfl; simp at hmode
  rw [enterTable_append hnext]
  by_cases hentry : rest ≠ [] ∧ rest.headD 0 ≠ 1
  · exact Or.inl (if_pos hentry)
  · rw [if_neg hentry]
    refine Or.inr ⟨rfl, ?_⟩
    by_cases hlen : (rootoid ++ rest).length > rootoid.length + 1
    · -- there is a column, out of the range of the table
      rw [length_append] at hlen
      match rest with
      | [] | [_] => simp at hlen
      | v :: column :: index =>
        obtain rfl : v = 1 := by simpa using hentry
        rw [columnOf_column hnext]
        by_cases hmin : column < reg.minColumn
        · rw [if_pos hmin]
        · rw [if_neg hmin, if_pos ?_]
          by_contra hmax
          exact hrange column index ⟨rfl, UInt32.not_lt.mp hmin, UInt32.not_lt.mp hmax⟩
    · rw [columnOf, if_neg hlen, if_neg (fun h => h.elim hnext hbulk)]

theorem enter_inRange (hmode : mode ≠ .getNext) (h : InRange rootoid reg name column index) :
    enterTable rootoid mode name = some name ∧
      columnOf rootoid reg mode name = verifyColumn rootoid reg name name.length column := by
  obtain ⟨rfl, hmin, hmax⟩ := h
  constructor
  · rw [enterTable_append hmode, if_neg]
    exact fun h => h.2 rfl
  · rw [columnOf_column hmode, if_neg (UInt32.not_lt.mpr hmin), if_neg (UInt32.not_lt.mpr hmax)]

theorem drop_name (rootoid : ObjId) (v column : Oid) (index : ObjId) :
    (rootoid ++ v :: column :: index).drop (rootoid.length + 2) = index := by
  rw [drop_append, Nat.add_sub_cancel_left, drop_eq_nil_of_le (Nat.le_add_right _ _)]
  rfl

theorem verifyColumn_cases (h : InRange rootoid reg name column index) :
    ((∀ validColumns, reg.validColumns = some validColumns → closestColumn column validColumns = column) ∧
      verifyColumn rootoid reg name name.length column = .found column name) ∨
    (Skipped rootoid reg name ∧ verifyColumn rootoid reg name name.length column = .unknown name) ∨
    (Refused rootoid reg name ∧ ∃ closest, verifyColumn rootoid reg name name.length column =
        .found closest (name.take (rootoid.length + 2))) := by
  unfold verifyColumn
  cases hvalid : reg.validColumns with
  | none =>
    rw [take_length]
    refine Or.inl ⟨?_, rfl⟩
    intro validColumns hsome
    cases hsome
  | some validColumns =>
    have hcolumn : name.getD (rootoid.length + 1) 0 = column := by
      rw [h.name_eq]
      exact getD_column rootoid 1 column index
    simp only [hcolumn, take_length]
    by_cases hzero : closestColumn column validColumns = 0
    · -- all valid columns lie before the one that is asked for
      rw [if_pos hzero]
      have hbefore := ((closestFrom_eq_zero_iff h.pos).mp hzero).2
      exact Or.inr (Or.inl ⟨⟨column, index, h, validColumns, hvalid, hbefore⟩, rfl⟩)
    · rw [if_neg hzero]
      by_cases hself : closestColumn column validColumns = column
      · rw [if_neg (not_not.mpr hself), hself]
        refine Or.inl ⟨?_, rfl⟩
        intro validColumns' hsome
        obtain rfl := Option.some.inj hsome
        exact hself
      · rw [if_pos hself]
        refine Or.inr (Or.inr ⟨?_, _, rfl⟩)
        apply h.refused
        · intro validColumns' hsome
          obtain rfl := Option.some.inj (hvalid.symm.trans hsome)
          exact hzero
        · intro hthrough
          exact hself (hthrough.closest validColumns hvalid)

theorem not_taken_nil (hindexes : reg.indexes ≠ []) : ¬ Taken reg.indexes [] := by
  intro htaken
  obtain ⟨t, types, htypes⟩ := exists_cons_of_ne_nil hindexes
  rw [htypes] at htaken
  exact htaken.1 rfl

theorem parsed_of_taken (hindexes : reg.indexes ≠ []) (hlen : index.length ≤ TYPES_MAX_OID_LEN)
    (htaken : Taken reg.indexes index) :
    ∃ vars, indexLoop 0 (index = []) (if index = [] then -1 else index.length) index (reg.indexes.map .fresh) =
      ⟨vars, reg.indexes.length, -1⟩ ∧ Rebuilds reg.indexes index vars := by
  have hne : index ≠ [] := by
    rintro rfl
    exact not_taken_nil hindexes htaken
  rw [if_neg hne, decide_eq_false hne]
  have h := indexLoop_taken 0 hne hlen htaken
  rwa [Nat.zero_add] at h

theorem parsed_of_not_taken (hindexes : reg.indexes ≠ []) (hlen : index.length ≤ TYPES_MAX_OID_LEN)
    (htaken : ¬ Taken reg.indexes index) : (indexLoop 0 (index = []) (if index = [] then -1 else index.length) index
        (reg.indexes.map .fresh)).numberIndexes ≠ reg.indexes.length ∨
      (indexLoop 0 (index = []) (if index = [] then -1 else index.length) index
        (reg.indexes.map .fresh)).tmpLen ≠ -1 := by
  by_cases hne : index = []
  · -- there is not even one, and the first round ends the loop
    have hfresh : reg.indexes.map IndexVar.fresh ≠ [] := by
      rw [Ne, map_eq_nil_iff]
      exact hindexes
    subst hne
    rw [if_pos rfl, decide_eq_true rfl, indexLoop_incomplete, if_neg hfresh]
    refine Or.inr ?_
    show (0 : Int) ≠ -1
    decide
  · rw [if_neg hne, decide_eq_false hne]
    have h := indexLoop_refused 0 hne hlen htaken
    rwa [Nat.zero_add] at h

theorem requestSetError_info (r : Request) (info : Option TableRequestInfo) (error : Int) :
    requestSetError { r with info := info } mode error = { requestSetError r mode error with info := info } := by
  unfold requestSetError
  cases Proxy.exception error with
  | none => rfl
  | some t =>
    by_cases hset : ¬ isSet mode
    · simp only [if_pos hset]
    · by_cases hreserve : mode = .setReserve1
      · simp only [if_neg hset, if_pos hreserve]
      · simp only [if_neg hset, if_neg hreserve]

theorem helperCleanup_info (r : Request) (info : Option TableRequestInfo) (status : Int) :
    helperCleanup { r with info := info } mode status = helperCleanup r mode status := by
  rw [helperCleanup, requestSetError_info]
  rfl

theorem reject_info (r : Request) (info : Option TableRequestInfo) (hmode : mode = .get ∨ mode = .setReserve1) :
    reject mode { r with info := info } = reject mode r := by
  unfold reject
  obtain rfl | rfl := hmode
  · exact helperCleanup_info r info _
  · exact helperCleanup_info r info _

theorem Outcome.refused (h : Refused rootoid reg r.name) (name : ObjId) :
    Outcome rootoid reg mode r
      (if isSet mode then .stop (helperCleanup { r with name := name } mode errNoCreation)
        else .next (helperCleanup { r with name := name } mode PRIOT_NOSUCHINSTANCE.toNat)) := by
  by_cases hset : isSet mode
  · rw [if_pos hset]
    exact .stopped h name hset
  · rw [if_neg hset]
    exact .unset h name hset

section Request

variable (ha : Arrives rootoid mode r) (hp : r.processed = false)
include ha hp

theorem processRequest_outside (hmode : mode = .get ∨ mode = .setReserve1) (h : enterTable rootoid mode r.name = none ∨
      enterTable rootoid mode r.name = some r.name ∧ columnOf rootoid reg mode r.name = .outOfRange) :
    processRequest rootoid reg mode r = .next (reject mode r) := by
  have htype : ¬ (mode = .get ∧ r.type ≠ asnNULL) := fun h => h.2 (ha.type_eq hp h.1)
  unfold processRequest
  rw [if_neg (Bool.eq_false_iff.mp hp), if_neg htype]
  obtain henter | ⟨henter, hcolumn⟩ := h
  · rw [henter]
  · rw [henter]
    simp only [hcolumn, reject_info r _ hmode]

theorem processRequest_unknown (henter : enterTable rootoid mode r.name = some name)
    (hcolumn : columnOf rootoid reg mode name = .unknown r.name) :
    processRequest rootoid reg mode r =
      .next { r with info := some ⟨0, 0, reg.indexes.map .fresh, []⟩ } := by
  have htype : ¬ (mode = .get ∧ r.type ≠ asnNULL) := fun h => h.2 (ha.type_eq hp h.1)
  unfold processRequest
  rw [if_neg (Bool.eq_false_iff.mp hp), if_neg htype, henter]
  simp only [hcolumn, ha.info_eq hp, Option.getD_none]

theorem processRequest_taken {name' : ObjId} (hindexes : reg.indexes ≠ [])
    (henter : enterTable rootoid mode r.name = some name)
    (hcolumn : columnOf rootoid reg mode name = .found column name') (hdrop : name'.drop (rootoid.length + 2) = index)
    (hlen : index.length ≤ TYPES_MAX_OID_LEN) (htaken : Taken reg.indexes index) :
    ∃ vars, processRequest rootoid reg mode r =
        .need { r with name := name', info := some ⟨column, reg.indexes.length, vars, index⟩ } ∧
      Rebuilds reg.indexes index vars := by
  have htype : ¬ (mode = .get ∧ r.type ≠ asnNULL) := fun h => h.2 (ha.type_eq hp h.1)
  obtain ⟨vars, hparsed, hvars⟩ := parsed_of_taken hindexes hlen htaken
  refine ⟨vars, ?_, hvars⟩
  unfold processRequest
  rw [if_neg (Bool.eq_false_iff.mp hp), if_neg htype, henter]
  simp only [hcolumn, ha.info_eq hp, Option.getD_none, hdrop, hparsed]
  rw [if_neg]
  rintro ⟨-, h | h⟩
  · exact h rfl
  · exact h rfl

theorem processRequest_not_taken {name' : ObjId} (hindexes : reg.indexes ≠ []) (hmode : mode ≠ .getNext)
    (henter : enterTable rootoid mode r.name = some name)
    (hcolumn : columnOf rootoid reg mode name = .found column name') (hdrop : name'.drop (rootoid.length + 2) = index)
    (hlen : index.length ≤ TYPES_MAX_OID_LEN) (htaken : ¬ Taken reg.indexes index) :
    processRequest rootoid reg mode r =
      if isSet mode then .stop (helperCleanup { r with name := name' } mode errNoCreation)
      else .next (helperCleanup { r with name := name' } mode PRIOT_NOSUCHINSTANCE.toNat) := by
  have htype : ¬ (mode = .get ∧ r.type ≠ asnNULL) := fun h => h.2 (ha.type_eq hp h.1)
  have hparsed := parsed_of_not_taken hindexes hlen htaken
  unfold processRequest
  rw [if_neg (Bool.eq_false_iff.mp hp), if_neg htype, henter]
  simp only [hcolumn, ha.info_eq hp, Option.getD_none, hdrop]
  rw [if_pos ⟨hmode, hparsed⟩]
  have hclean := fun status info => @helperCleanup_info mode { r with name := name' } info status
  simp only [hclean]

theorem processRequest_outcome (hindexes : reg.indexes ≠ []) (hmode : mode = .get ∨ mode = .setReserve1) :
    Outcome rootoid reg mode r (processRequest rootoid reg mode r) := by
  have hnext : mode ≠ .getNext := by
    rintro rfl
    simp at hmode
  by_cases hrange : ∃ column index, InRange rootoid reg r.name column index
  · obtain ⟨column, index, h⟩ := hrange
    obtain ⟨henter, hcolumn⟩ := enter_inRange hnext h
    have hlen : index.length ≤ TYPES_MAX_OID_LEN := by
      have hle := ha.length_le
      rw [h.name_eq, length_append, length_cons, length_cons] at hle
      omega
    obtain ⟨hclosest, hverify⟩ | ⟨hskipped, hverify⟩ | ⟨hrefused, closest, hverify⟩ := verifyColumn_cases h
    · -- it goes on with the column that it names
      rw [hverify] at hcolumn
      have hdrop : r.name.drop (rootoid.length + 2) = index := by
        rw [h.name_eq]
        exact drop_name rootoid 1 column index
      by_cases htaken : Taken reg.indexes index
      · obtain ⟨vars, hround, hvars⟩ := processRequest_taken ha hp hindexes henter hcolumn hdrop hlen htaken
        rw [hround]
        exact .through column index vars ⟨h, hclosest, htaken⟩ hvars
      · rw [processRequest_not_taken ha hp hindexes hnext henter hcolumn hdrop hlen htaken]
        apply Outcome.refused
        apply h.refused
        · intro validColumns hvalid
          rw [hclosest validColumns hvalid]
          exact UInt32.pos_iff_ne_zero.mp h.pos
        · intro hthrough
          exact htaken hthrough.taken
    · rw [hverify] at hcolumn
      rw [processRequest_unknown ha hp henter hcolumn]
      exact .skipped hskipped _
    · -- there is no index left behind another column
      rw [hverify] at hcolumn
      have hdrop : (r.name.take (rootoid.length + 2)).drop (rootoid.length + 2) = [] :=
        drop_eq_nil_of_le (length_take_le _ _)
      rw [processRequest_not_taken ha hp hindexes hnext henter hcolumn hdrop (Nat.zero_le _) (not_taken_nil hindexes)]
      exact Outcome.refused hrefused _
  · have hrange := fun column index h => hrange ⟨column, index, h⟩
    rw [processRequest_outside ha hp hmode (enter_outside hmode ha.starts hrange)]
    exact .outside hrange

end Request

theorem Outcome.stop_iff {round : Round} (h : Outcome rootoid reg mode r round) :
    (∃ r', round = .stop r') ↔ isSet mode ∧ Refused rootoid reg r.name := by
  have hno {r' r'' : Request} : ¬ Round.next r' = .stop r'' := Round.noConfusion
  cases h with
  | outside hrange =>
    refine iff_of_false (fun h => hno h.choose_spec) fun h => ?_
    obtain ⟨column, index, h⟩ := h.2.inRange
    exact hrange column index h
  | skipped hskipped indexes =>
    exact iff_of_false (fun h => hno h.choose_spec) fun h => h.2.not_skipped hskipped
  | unset hrefused name hmode => exact iff_of_false (fun h => hno h.choose_spec) fun h => hmode h.1
  | stopped hrefused name hmode => exact iff_of_true ⟨_, rfl⟩ ⟨hmode, hrefused⟩
  | through column index vars hthrough hvars =>
    refine iff_of_false (fun h => ?_) fun h => h.2.not_through column index hthrough
    obtain ⟨r', h⟩ := h
    cases h

theorem Outcome.need_iff {round : Round} (h : Outcome rootoid reg mode r round) :
    (∃ r', round = .need r') ↔ ∃ column index, Through rootoid reg r.name column index := by
  have hno {r' r'' : Request} : ¬ Round.next r' = .need r'' := Round.noConfusion
  cases h with
  | outside hrange =>
    refine iff_of_false (fun h => hno h.choose_spec) ?_
    rintro ⟨column, index, h⟩
    exact hrange column index h.toInRange
  | skipped hskipped indexes =>
    refine iff_of_false (fun h => hno h.choose_spec) ?_
    rintro ⟨column, index, h⟩
    exact h.not_skipped hskipped
  | unset hrefused name hmode =>
    refine iff_of_false (fun h => hno h.choose_spec) ?_
    rintro ⟨column, index, h⟩
    exact hrefused.not_through column index h
  | stopped hrefused name hmode =>
    refine iff_of_false (fun h => ?_) ?_
    · obtain ⟨r', h⟩ := h
      cases h
    · rintro ⟨column, index, h⟩
      exact hrefused.not_through column index h
  | through column index vars hthrough hvars => exact iff_of_true ⟨_, rfl⟩ ⟨column, index, hthrough⟩

/-! ## what is meant -/

/-- A request that has not been processed is passed on only under the name of a row, with what that row is built from
again; otherwise it gets an error, and nothing at all is passed on if its indexes are rejected in a `SET`. -/
structure Exact (rootoid : ObjId) (reg : TableRegistrationInfo) (mode : Mode) (called : Bool) (r r' : Request) :
    Prop where
  passed : called = true → r'.processed = false → ∃ column index, Names rootoid reg r.name column index ∧
    ∃ info, r'.info = some info ∧ info.colnum = column ∧ buildOid rootoid info.colnum info.indexes = .name r.name
  marked : mode = .get → ¬ (called = true ∧ r'.processed = false) →
    r'.type = PRIOT_NOSUCHOBJECT ∨ r'.type = PRIOT_NOSUCHINSTANCE
  rejected : mode = .setReserve1 → r'.status = errNoCreation → called = false

/-- Each request and what the helper leaves of it. -/
def ExactOnly (rootoid : ObjId) (reg : TableRegistrationInfo) (mode : Mode) (requests : List Request)
    (handled : Handled) : Prop :=
  List.Forall₂ (fun r r' => r.processed = false → Exact rootoid reg mode handled.called r r') requests
    handled.requests

/-- The requests that have not been processed. -/
def pending (requests : List Request) : List Request := requests.filter fun r => r.processed = false

/-- When the helper keeps to the rows. Without indexes it fails at once, and later passes of a `SET` are not looked
at. -/
inductive Kept (rootoid : ObjId) (reg : TableRegistrationInfo) (stateReference : Bool) (mode : Mode)
    (requests : List Request) : Prop
  | nothing (h : pending requests = [])
  | get (hmode : mode = .get) (hindexes : reg.indexes ≠ [])
      (h : ∀ r ∈ pending requests, Fine rootoid reg r.name)
  | improper (hmode : mode = .setReserve1) (hindexes : reg.indexes = [])
  | refused (hmode : mode = .setReserve1) (hstate : stateReference = false)
      (h : ∃ r ∈ pending requests, Refused rootoid reg r.name)
  | unneeded (hmode : mode = .setReserve1) (hstate : stateReference = false)
      (h : ∀ r ∈ pending requests, ∀ column index, ¬ Through rootoid reg r.name column index)
  | set (hmode : mode = .setReserve1) (hstate : stateReference = false)
      (h : ∀ r ∈ pending requests, Fine rootoid reg r.name)

variable {requests : List Request} {called : Bool}

theorem mem_pending : r ∈ pending requests ↔ r ∈ requests ∧ r.processed = false := by
  rw [pending, mem_filter, decide_eq_true_iff]

/-- The request of a round. -/
def Round.request : Round → Request
  | .next r | .need r | .stop r => r

/-- A request that has been rejected is exact, whatever it was. -/
theorem exact_of_processed {r' : Request} (hp : r'.processed = true)
    (hmarked : mode = .get → r'.type = PRIOT_NOSUCHOBJECT ∨ r'.type = PRIOT_NOSUCHINSTANCE)
    (hrejected : mode = .setReserve1 → r'.status ≠ errNoCreation) : Exact rootoid reg mode called r r' where
  passed _ hnot := absurd hp (Bool.eq_false_iff.mp hnot)
  marked hmode _ := hmarked hmode
  rejected hmode h := absurd h (hrejected hmode)

/-- One request is exact just when its name is fine, as long as the next handler is called if something gets through
to it. -/
theorem exact_iff {round : Round} (houtcome : Outcome rootoid reg mode r round) (ha : Arrives rootoid mode r)
    (hp : r.processed = false) (hmode : mode = .get ∨ mode = .setReserve1) (hstop : ∀ r', round ≠ .stop r')
    (hthrough : ∀ column index, Through rootoid reg r.name column index → called = true)
    (hset : mode = .setReserve1 → called = true) :
    Exact rootoid reg mode called r round.request ↔ Fine rootoid reg r.name := by
  cases houtcome with
  | outside hrange =>
    refine iff_of_true ?_ ⟨?_, fun column index h => absurd h.toInRange (hrange column index)⟩
    · obtain rfl | rfl := hmode
      · exact exact_of_processed rfl (fun _ => Or.inl rfl) fun h => by cases h
      · refine exact_of_processed rfl (fun h => by cases h) fun _ => ?_
        show errNotWritable ≠ errNoCreation
        decide
    · rintro ⟨column, index, h, -⟩
      exact hrange column index h
  | skipped hskipped indexes =>
    refine iff_of_false ?_ fun h => h.not_skipped hskipped
    intro h
    obtain ⟨column, index, hrange, -⟩ := hskipped
    cases hcalled : called with
    | true =>
      -- the column of what has been found is 0
      obtain ⟨column', index', hnames, info, hinfo, hcolumn, -⟩ := h.passed hcalled hp
      obtain rfl := Option.some.inj hinfo
      have hmin := UInt32.lt_of_lt_of_le reg.minColumn_pos hnames.valid.min_le
      exact UInt32.pos_iff_ne_zero.mp hmin hcolumn.symm
    | false =>
      have hget : mode = .get := hmode.resolve_right fun h => Bool.false_ne_true (hcalled.symm.trans (hset h))
      exact ha.not_marked hp hget (h.marked hget fun h => Bool.false_ne_true (hcalled.symm.trans h.1))
  | unset hrefused name hnot =>
    have hget : mode = .get := hmode.resolve_right fun h => hnot (by rw [h]; decide)
    subst hget
    refine iff_of_true ?_ ⟨hrefused.not_skipped, fun column index h => absurd h (hrefused.not_through column index)⟩
    exact exact_of_processed rfl (fun _ => Or.inr rfl) fun h => by cases h
  | stopped hrefused name hset => exact absurd rfl (hstop _)
  | through column index vars h hvars =>
    have hcalled := hthrough column index h
    have hbuild := buildOid_iff ha.length_le h.name_eq hvars
    constructor
    · intro hexact
      obtain ⟨column', index', -, info, hinfo, -, hname⟩ := hexact.passed hcalled hp
      obtain rfl := Option.some.inj hinfo
      refine ⟨h.not_skipped, fun column'' index'' h' => ?_⟩
      obtain ⟨rfl, rfl⟩ := h.toInRange.unique h'.toInRange
      exact hbuild.mp hname
    · intro hfine
      have hwhole := hfine.whole column index h
      refine ⟨fun _ _ => ?_, fun _ hnot => absurd ⟨hcalled, hp⟩ hnot, fun _ hstatus => ?_⟩
      · exact ⟨column, index, ⟨h.name_eq, h.validColumn, h.taken.encodes hwhole⟩, _, rfl, rfl, hbuild.mpr hwhole⟩
      · exact absurd ((ha.status_eq hp).symm.trans hstatus) (by decide)

/-! ## all requests -/

theorem processRequest_processed (hp : r.processed = true) : processRequest rootoid reg mode r = .next r := by
  rw [processRequest, if_pos hp]

theorem processed_eq_false {round : Round} (hround : processRequest rootoid reg mode r = round)
    (hne : round ≠ .next r) : r.processed = false := by
  by_contra hp
  exact hne (hround.symm.trans (processRequest_processed (eq_true_of_ne_false hp)))

theorem requestLoop_length (need : Nat) : (requestLoop rootoid reg mode need requests).1.length = requests.length := by
  induction requests generalizing need with
  | nil => rfl
  | cons r requests ih =>
    rw [requestLoop]
    cases processRequest rootoid reg mode r with
    | next r' => exact congrArg (· + 1) (ih need)
    | need r' => exact congrArg (· + 1) (ih (need + 1))
    | stop r' => rfl

theorem requestLoop_stopped (need : Nat) (h : ∃ r ∈ requests, ∃ r', processRequest rootoid reg mode r = .stop r') :
    (requestLoop rootoid reg mode need requests).2 = none := by
  induction requests generalizing need with
  | nil =>
    obtain ⟨r, hr, -⟩ := h
    cases hr
  | cons r requests ih =>
    rw [requestLoop]
    cases hround : processRequest rootoid reg mode r with
    | stop r' => rfl
    | next r' | need r' =>
      obtain ⟨r₁, hr₁, r₂, hstop⟩ := h
      obtain rfl | hr₁ := mem_cons.mp hr₁
      · cases hround.symm.trans hstop
      · exact ih _ ⟨r₁, hr₁, r₂, hstop⟩

theorem requestLoop_run (need : Nat) (h : ∀ r ∈ requests, ∀ r', processRequest rootoid reg mode r ≠ .stop r') :
    ∃ n, requestLoop rootoid reg mode need requests =
        (requests.map fun r => (processRequest rootoid reg mode r).request, some n) ∧
      need ≤ n ∧ (need < n ↔ ∃ r ∈ requests, ∃ r', processRequest rootoid reg mode r = .need r') := by
  induction requests generalizing need with
  | nil =>
    refine ⟨need, rfl, Nat.le_refl _, iff_of_false (Nat.lt_irrefl _) ?_⟩
    rintro ⟨r, hr, -⟩
    cases hr
  | cons r requests ih =>
    rw [forall_mem_cons] at h
    rw [requestLoop]
    cases hround : processRequest rootoid reg mode r with
    | stop r' => exact absurd hround (h.1 r')
    | next r' =>
      obtain ⟨n, hloop, hle, hneed⟩ := ih need h.2
      refine ⟨n, by simp only [hloop, map_cons, hround, Round.request], hle, ?_⟩
      rw [hneed, exists_mem_cons_iff]
      refine (or_iff_right ?_).symm
      rintro ⟨r₂, h⟩
      cases hround.symm.trans h
    | need r' =>
      obtain ⟨n, hloop, hle, -⟩ := ih (need + 1) h.2
      refine ⟨n, by simp only [hloop, map_cons, hround, Round.request], by omega, ?_⟩
      exact iff_of_true (by omega) ⟨r, mem_cons_self, r', hround⟩

variable {stateReference : Bool}

theorem helperHandler_stopped (hindexes : reg.indexes ≠ [])
    (hfirst : mode = .get ∨ mode = .setReserve1 ∧ stateReference = false)
    (hloop : (requestLoop rootoid reg mode 0 requests).2 = none) :
    helperHandler rootoid reg stateReference mode requests =
      ⟨freeRequestDataSets (requestLoop rootoid reg mode 0 requests).1, false, errNoError⟩ := by
  rw [helperHandler, if_neg hindexes]
  obtain rfl | ⟨rfl, rfl⟩ := hfirst
  · rw [if_neg (fun h => h.2 (Or.inl rfl)), if_neg (fun h => h.1 (Or.inl rfl))]
    simp only [hloop]
  · rw [if_neg (fun h => Bool.false_ne_true h.1), if_neg (fun h => h.2 rfl)]
    simp only [hloop]

theorem helperHandler_run {done : List Request} {need : Nat} (hindexes : reg.indexes ≠ [])
    (hfirst : mode = .get ∨ mode = .setReserve1 ∧ stateReference = false)
    (hloop : requestLoop rootoid reg mode 0 requests = (done, some need)) :
    helperHandler rootoid reg stateReference mode requests = ⟨done, need ≠ 0, errNoError⟩ := by
  rw [helperHandler, if_neg hindexes]
  obtain rfl | ⟨rfl, rfl⟩ := hfirst
  · rw [if_neg (fun h => h.2 (Or.inl rfl)), if_neg (fun h => h.1 (Or.inl rfl))]
    simp only [hloop]
  · rw [if_neg (fun h => Bool.false_ne_true h.1), if_neg (fun h => h.2 rfl)]
    simp only [hloop]

theorem freeRequestDataSets_length : (freeRequestDataSets requests).length = requests.length := by
  cases requests with
  | nil => rfl
  | cons r requests => rfl

theorem exactOnly_not_called {handled : Handled} (hlen : handled.requests.length = requests.length)
    (hcalled : handled.called = false) : ExactOnly rootoid reg .setReserve1 requests handled := by
  refine forall₂_iff_zip.mpr ⟨hlen.symm, fun _ _ => ?_⟩
  rw [hcalled]
  exact ⟨fun h => absurd h Bool.false_ne_true, fun h => (by cases h), fun _ _ => rfl⟩

/-- If all requests have been processed, and the next handler is called when there is something for it, they are exact
just when their names are fine. -/
theorem exactOnly_map_iff {status : Int} (hindexes : reg.indexes ≠ []) (hmode : mode = .get ∨ mode = .setReserve1)
    (ha : ∀ r ∈ requests, Arrives rootoid mode r)
    (hstop : ∀ r ∈ requests, ∀ r', processRequest rootoid reg mode r ≠ .stop r')
    (hthrough : ∀ r ∈ pending requests, ∀ column index, Through rootoid reg r.name column index → called = true)
    (hset : mode = .setReserve1 → called = true) : ExactOnly rootoid reg mode requests
        ⟨requests.map fun r => (processRequest rootoid reg mode r).request, called, status⟩ ↔
      ∀ r ∈ pending requests, Fine rootoid reg r.name := by
  rw [ExactOnly, forall₂_map_right_iff, forall₂_same]
  have hone (r) (hr : r ∈ requests) (hp : r.processed = false) :
      Exact rootoid reg mode called r (processRequest rootoid reg mode r).request ↔ Fine rootoid reg r.name := by
    apply exact_iff (processRequest_outcome (ha r hr) hp hindexes hmode) (ha r hr) hp hmode (hstop r hr)
    · exact hthrough r (mem_pending.mpr ⟨hr, hp⟩)
    · exact hset
  constructor
  · intro h r hr
    obtain ⟨hr, hp⟩ := mem_pending.mp hr
    exact (hone r hr hp).mp (h r hr hp)
  · intro h r hr hp
    exact (hone r hr hp).mpr (h r (mem_pending.mpr ⟨hr, hp⟩))

theorem kept_iff_fine (hindexes : reg.indexes ≠ [])
    (hfirst : mode = .get ∨ mode = .setReserve1 ∧ stateReference = false)
    (hrefused : mode = .setReserve1 → ∀ r ∈ pending requests, ¬ Refused rootoid reg r.name)
    (hneeded : mode = .setReserve1 → ∃ r ∈ pending requests, ∃ column index, Through rootoid reg r.name column index) :
    Kept rootoid reg stateReference mode requests ↔ ∀ r ∈ pending requests, Fine rootoid reg r.name := by
  constructor
  · intro hkept
    cases hkept with
    | nothing h =>
      intro r hr
      rw [h] at hr
      cases hr
    | get _ _ h | set _ _ h => exact h
    | improper _ h => exact absurd h hindexes
    | refused hset _ h =>
      obtain ⟨r, hr, h⟩ := h
      exact absurd h (hrefused hset r hr)
    | unneeded hset _ h =>
      obtain ⟨r, hr, column, index, hthrough⟩ := hneeded hset
      exact absurd hthrough (h r hr column index)
  · intro h
    obtain hget | ⟨hset, hstate⟩ := hfirst
    · exact .get hget hindexes h
    · exact .set hset hstate h

theorem firstPass_iff (hindexes : reg.indexes ≠ [])
    (hfirst : mode = .get ∨ mode = .setReserve1 ∧ stateReference = false)
    (ha : ∀ r ∈ requests, Arrives rootoid mode r) :
    ExactOnly rootoid reg mode requests (helperHandler rootoid reg stateReference mode requests) ↔
      Kept rootoid reg stateReference mode requests := by
  have hmode : mode = .get ∨ mode = .setReserve1 := hfirst.imp_right And.left
  have houtcome (r) (hr : r ∈ requests) (hp : r.processed = false) :
      Outcome rootoid reg mode r (processRequest rootoid reg mode r) :=
    processRequest_outcome (ha r hr) hp hindexes hmode
  by_cases hstop : ∃ r ∈ requests, ∃ r', processRequest rootoid reg mode r = .stop r'
  · -- a request of a `SET` has been rejected for its indexes
    obtain ⟨r, hr, hstops⟩ := hstop
    have hp : r.processed = false := processed_eq_false hstops.choose_spec Round.noConfusion
    obtain ⟨hset, hrefused⟩ := (houtcome r hr hp).stop_iff.mp hstops
    have hreserve : mode = .setReserve1 := hmode.resolve_left fun h => hset (Or.inl h)
    have hstate : stateReference = false := (hfirst.resolve_left fun h => hset (Or.inl h)).2
    rw [helperHandler_stopped hindexes hfirst (requestLoop_stopped 0 ⟨r, hr, hstops⟩)]
    refine iff_of_true ?_ (.refused hreserve hstate ⟨r, mem_pending.mpr ⟨hr, hp⟩, hrefused⟩)
    subst hreserve
    exact exactOnly_not_called (freeRequestDataSets_length.trans (requestLoop_length 0)) rfl
  · have hstop (r) (hr : r ∈ requests) (r') : processRequest rootoid reg mode r ≠ .stop r' :=
      fun h => hstop ⟨r, hr, r', h⟩
    obtain ⟨need, hloop, -, hneed⟩ := requestLoop_run 0 hstop
    have hcalled : need ≠ 0 ↔ ∃ r ∈ pending requests, ∃ column index, Through rootoid reg r.name column index := by
      rw [← Nat.pos_iff_ne_zero, hneed]
      constructor
      · rintro ⟨r, hr, r', hround⟩
        have hp : r.processed = false := processed_eq_false hround Round.noConfusion
        exact ⟨r, mem_pending.mpr ⟨hr, hp⟩, (houtcome r hr hp).need_iff.mp ⟨r', hround⟩⟩
      · rintro ⟨r, hr, hthrough⟩
        obtain ⟨hr, hp⟩ := mem_pending.mp hr
        exact ⟨r, hr, (houtcome r hr hp).need_iff.mpr hthrough⟩
    rw [helperHandler_run hindexes hfirst hloop]
    by_cases hunneeded : mode = .setReserve1 ∧ need = 0
    · -- the next handler is not called
      obtain ⟨rfl, hzero⟩ := hunneeded
      have hstate : stateReference = false := (hfirst.resolve_left fun h => (by cases h)).2
      refine iff_of_true (exactOnly_not_called (length_map _) (decide_eq_false (not_not.mpr hzero))) ?_
      apply Kept.unneeded rfl hstate
      intro r hr column index h
      exact hcalled.mpr ⟨r, hr, column, index, h⟩ hzero
    · have hneeded (hset : mode = .setReserve1) : need ≠ 0 := fun hzero => hunneeded ⟨hset, hzero⟩
      rw [exactOnly_map_iff hindexes hmode ha hstop, kept_iff_fine hindexes hfirst]
      · intro hset r hr hrefused
        obtain ⟨hr, hp⟩ := mem_pending.mp hr
        have hisSet : isSet mode := by
          rw [hset]
          decide
        obtain ⟨r', hstops⟩ := (houtcome r hr hp).stop_iff.mpr ⟨hisSet, hrefused⟩
        exact hstop r hr r' hstops
      · intro hset
        exact hcalled.mp (hneeded hset)
      · intro r hr column index h
        exact decide_eq_true (hcalled.mpr ⟨r, hr, column, index, h⟩)
      · intro hset
        exact decide_eq_true (hneeded hset)

theorem not_exact_unchanged (ha : Arrives rootoid mode r) (hp : r.processed = false)
    (h : called = true ∨ mode = .get) : ¬ Exact rootoid reg mode called r r := by
  intro hexact
  cases hcalled : called with
  | true =>
    obtain ⟨column, index, -, info, hinfo, -, -⟩ := hexact.passed hcalled hp
    cases (ha.info_eq hp).symm.trans hinfo
  | false =>
    have hget : mode = .get := h.resolve_left fun h => Bool.false_ne_true (hcalled.symm.trans h)
    exact ha.not_marked hp hget (hexact.marked hget fun h => Bool.false_ne_true (hcalled.symm.trans h.1))

theorem exactOnly_unchanged_iff {status : Int} (ha : ∀ r ∈ requests, Arrives rootoid mode r)
    (h : called = true ∨ mode = .get) :
    ExactOnly rootoid reg mode requests ⟨requests, called, status⟩ ↔ pending requests = [] := by
  rw [ExactOnly, forall₂_same, eq_nil_iff_forall_not_mem]
  constructor
  · intro hexact r hr
    obtain ⟨hr, hp⟩ := mem_pending.mp hr
    exact not_exact_unchanged (ha r hr) hp h (hexact r hr hp)
  · intro hnone r hr hp
    exact absurd (mem_pending.mpr ⟨hr, hp⟩) (hnone r)

/-- Exact requests reach a row only under its name if and only if no name is skipped, and all that get through are
whole; in a `SET` also if a request is rejected for its indexes, or if there is nothing for the next handler. -/
theorem helperHandler_exact_iff (rootoid : ObjId) (reg : TableRegistrationInfo) (stateReference : Bool) (mode : Mode)
    (requests : List Request) (hmode : mode = .get ∨ mode = .setReserve1)
    (ha : ∀ r ∈ requests, Arrives rootoid mode r) :
    ExactOnly rootoid reg mode requests (helperHandler rootoid reg stateReference mode requests) ↔
      Kept rootoid reg stateReference mode requests := by
  by_cases hindexes : reg.indexes = []
  · -- the table is improperly registered
    rw [helperHandler, if_pos hindexes]
    obtain rfl | rfl := hmode
    · rw [exactOnly_unchanged_iff ha (Or.inr rfl)]
      refine ⟨.nothing, fun hkept => ?_⟩
      cases hkept with
      | nothing h => exact h
      | get _ h => exact absurd hindexes h
      | improper h | refused h | unneeded h | set h => cases h
    · exact iff_of_true (exactOnly_not_called rfl rfl) (.improper rfl hindexes)
  · cases hstate : stateReference with
    | false => exact firstPass_iff hindexes (hmode.imp_right fun h => ⟨h, rfl⟩) ha
    | true =>
      obtain rfl | rfl := hmode
      · exact firstPass_iff hindexes (Or.inl rfl) ha
      · -- a later pass
        rw [helperHandler, if_neg hindexes, if_pos ⟨rfl, by decide⟩, exactOnly_unchanged_iff ha (Or.inl rfl)]
        refine ⟨.nothing, fun hkept => ?_⟩
        cases hkept with
        | nothing h => exact h
        | get h => cases h
        | improper _ h => exact absurd h hindexes
        | refused _ h | unneeded _ h | set _ h => cases h

/-- A table by address, with columns from 1 to 5 of which the first three are valid. -/
def addressTable : TableRegistrationInfo where
  indexes := [.ipaddress]
  minColumn := 1
  maxColumn := 5
  validColumns := some [.range 1 3]
  minColumn_pos := by decide

/-- A request of `GET` for a name. -/
def getRequest (name : ObjId) : Request := ⟨name, asnNULL, false, false, errNoError, none⟩

theorem getRequest_arrives {rest : ObjId} (h : (rootoid ++ rest).length ≤ TYPES_MAX_OID_LEN) :
    Arrives rootoid .get (getRequest (rootoid ++ rest)) :=
  ⟨⟨rest, rfl⟩, h, fun _ => rfl, fun _ => rfl, fun _ _ => rfl⟩

/-- Two requests, for a row and for the entry. -/
theorem helperHandler_exact_iff_address :
    ExactOnly [1, 3, 6] addressTable .get [getRequest [1, 3, 6, 1, 2, 10, 0, 0, 10], getRequest [1, 3, 6, 1]]
        (helperHandler [1, 3, 6] addressTable false .get
          [getRequest [1, 3, 6, 1, 2, 10, 0, 0, 10], getRequest [1, 3, 6, 1]]) ↔
      Kept [1, 3, 6] addressTable false .get
        [getRequest [1, 3, 6, 1, 2, 10, 0, 0, 10], getRequest [1, 3, 6, 1]] := by
  refine helperHandler_exact_iff _ _ _ _ _ (Or.inl rfl) ?_
  rw [forall_mem_cons, forall_mem_singleton]
  constructor
  · exact @getRequest_arrives [1, 3, 6] [1, 2, 10, 0, 0, 10] (by decide)
  · exact @getRequest_arrives [1, 3, 6] [1] (by decide)

/-- An address that is cut off is passed on, and a column behind the valid ones is not marked. -/
theorem helperHandler_not_exact :
    Arrives [1, 3, 6] .get (getRequest [1, 3, 6, 1, 2, 10, 0]) ∧
      ¬ ExactOnly [1, 3, 6] addressTable .get [getRequest [1, 3, 6, 1, 2, 10, 0]]
        (helperHandler [1, 3, 6] addressTable false .get [getRequest [1, 3, 6, 1, 2, 10, 0]]) ∧
    Arrives [1, 3, 6] .get (getRequest [1, 3, 6, 1, 4, 10, 0, 0, 10]) ∧
      ¬ ExactOnly [1, 3, 6] addressTable .get [getRequest [1, 3, 6, 1, 4, 10, 0, 0, 10]]
        (helperHandler [1, 3, 6] addressTable false .get [getRequest [1, 3, 6, 1, 4, 10, 0, 0, 10]]) := by
  refine ⟨@getRequest_arrives [1, 3, 6] [1, 2, 10, 0] (by decide), ?_,
    @getRequest_arrives [1, 3, 6] [1, 4, 10, 0, 0, 10] (by decide), ?_⟩
  · intro h
    have hexact := (forall₂_cons.mp h).1 rfl
    obtain ⟨column, index, -, info, hinfo, -, hname⟩ := hexact.passed rfl rfl
    obtain rfl := Option.some.inj hinfo
    exact absurd hname (by decide +kernel)
  · intro h
    have hexact := (forall₂_cons.mp h).1 rfl
    obtain hmark | hmark := hexact.marked rfl (fun h => Bool.false_ne_true h.1)
    · exact absurd hmark (by decide)
    · exact absurd hmark (by decide)

end Priot.Table
