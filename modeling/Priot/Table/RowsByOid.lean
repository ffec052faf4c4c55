/-
# Rows of an iterator table by their index

The rows are known by two hooks that go through them; both searches leave a sorted table early. A hook is a function
of what it was last given: the loop context, the data context and the varbinds. `NULL` is `none`, also for a data
context. Every table has at most so many rows as the search is given rounds.
-/
import Priot.Table.BuildOid
import Priot.Registry.Oid
import Priot.Lib.Least
import Priot.Lib.LinkedList

namespace Priot.Table

open Lib Mib Registry List

/-! ## the functions -/

/-- What a hook sets: the loop context, the data context and the indexes of a row. -/
structure DataPoint (L : Type) where
  loopContext : L
  dataContext : Option Ptr
  indexes : List IndexVar

/-- `IteratorInfo`. `sorted` stands for `NETSNMP_ITERATOR_FLAG_SORTED`. -/
structure IteratorInfo (L : Type) where
  getFirstDataPoint : Option (List IndexVar → Option (DataPoint L))
  getNextDataPoint : Option (DataPoint L → Option (DataPoint L))
  sorted : Bool
  indexes : List IndexVar

/-- What `Mib_buildOidNoalloc` has written to an array of `asnMAX_OID_LEN` when it returns, also when it fails. -/
def written : ObjId → List IndexVar → ObjId
  | out, [] => out
  | out, var :: indexes =>
    match buildOidSegment var with
    | none => out
    | some name => if name.length + out.length ≤ TYPES_MAX_OID_LEN then written (out ++ name) indexes else out

/-- The two subidentifiers before an index. -/
def dummy : ObjId := [0, 0]

variable {L : Type}

/-- The loop of `TableIterator_rowGetByoid`. With no more rounds there is no result. -/
def rowGetLoop (next : DataPoint L → Option (DataPoint L)) (sorted : Bool) (inst : ObjId) :
    Nat → Option (DataPoint L) → Option (Option Ptr)
  | _, none => some none
  | 0, some _ => none
  | n + 1, some point =>
    let thisInst := written dummy point.indexes
    match oidCompare inst (thisInst.drop 2) with
    | .eq => some point.dataContext
    | .gt => if sorted then some none else rowGetLoop next sorted inst n (next point)
    | .lt => rowGetLoop next sorted inst n (next point)

def rowGetByoid (rounds : Nat) (iinfo : Option (IteratorInfo L)) (inst : ObjId) : Option (Option Ptr) :=
  match iinfo with
  | none => some none
  | some iinfo =>
    match iinfo.getFirstDataPoint, iinfo.getNextDataPoint with
    | some first, some next =>
      if inst.length = 0 then some none else rowGetLoop next iinfo.sorted inst rounds (first iinfo.indexes)
    | _, _ => some none

/-- The loop of `TableIterator_rowNextByoid`, with the best index so far. -/
def rowNextLoop (next : DataPoint L → Option (DataPoint L)) (sorted : Bool) (inst : ObjId) :
    Nat → Option ObjId → Option (DataPoint L) → Option (Option Ptr)
  | _, _, none => some none
  | 0, _, some _ => none
  | n + 1, best, some point =>
    let thisInst := written dummy point.indexes
    if oidCompare inst (thisInst.drop 2) = .gt then
      match best with
      | none => if sorted then some point.dataContext else rowNextLoop next sorted inst n (some thisInst) (next point)
      | some bestInst =>
        if oidCompare bestInst thisInst = .lt then
          if sorted then some point.dataContext else rowNextLoop next sorted inst n (some thisInst) (next point)
        else rowNextLoop next sorted inst n best (next point)
    else rowNextLoop next sorted inst n best (next point)

def rowNextByoid (rounds : Nat) (iinfo : Option (IteratorInfo L)) (inst : ObjId) : Option (Option Ptr) :=
  match iinfo with
  | none => some none
  | some iinfo =>
    match iinfo.getFirstDataPoint, iinfo.getNextDataPoint with
    | some first, some next =>
      if inst.length = 0 then some ((first iinfo.indexes).bind DataPoint.dataContext)
      else rowNextLoop next iinfo.sorted inst rounds none (first iinfo.indexes)
    | _, _ => some none

/-! ## tables -/

/-- A row: its index, and its data context. -/
structure Row where
  oid : ObjId
  context : Option Ptr
  deriving DecidableEq

/-- What is left for the hooks to go through. -/
def Enumerates (next : DataPoint L → Option (DataPoint L)) : Option (DataPoint L) → List Row → Prop
  | none, [] => True
  | some point, row :: rows =>
    buildOidNoalloc TYPES_MAX_OID_LEN TYPES_MAX_OID_LEN (some dummy) point.indexes = .name (dummy ++ row.oid) ∧
      point.dataContext = row.context ∧ Enumerates next (next point) rows
  | _, _ => False

/-- A table whose hooks go through finitely many rows, in increasing order if it says that it is sorted. -/
structure RowTable (L : Type) where
  iinfo : IteratorInfo L
  first : List IndexVar → Option (DataPoint L)
  next : DataPoint L → Option (DataPoint L)
  rows : List Row
  first_eq : iinfo.getFirstDataPoint = some first
  next_eq : iinfo.getNextDataPoint = some next
  enumerates : Enumerates next (first iinfo.indexes) rows
  distinct : (rows.map Row.oid).Nodup
  increasing : iinfo.sorted = true → (rows.map Row.oid).Pairwise (· < ·)

variable {next : DataPoint L → Option (DataPoint L)} {point : Option (DataPoint L)} {row : Row} {rows : List Row}
  {o out : ObjId} {best : Option ObjId} {n : Nat}

theorem written_eq {indexes : List IndexVar} (h : buildLoop TYPES_MAX_OID_LEN TYPES_MAX_OID_LEN out indexes = .name o) :
    written out indexes = o := by
  induction indexes generalizing out with
  | nil =>
    rw [buildLoop] at h
    exact Built.name.inj h
  | cons var indexes ih =>
    rw [buildLoop] at h
    rw [written]
    cases hsegment : buildOidSegment var with
    | none =>
      rw [hsegment] at h
      cases h
    | some name =>
      simp only [hsegment] at h ⊢
      by_cases hfits : name.length + out.length ≤ TYPES_MAX_OID_LEN
      · rw [if_pos hfits, if_pos hfits] at h
        rw [if_pos hfits]
        exact ih h
      · rw [if_neg hfits] at h
        cases h

theorem Enumerates.cons (h : Enumerates next point (row :: rows)) :
    ∃ p, point = some p ∧ (written dummy p.indexes).drop 2 = row.oid ∧ p.dataContext = row.context ∧
      Enumerates next (next p) rows := by
  cases point with
  | none => exact h.elim
  | some p =>
    obtain ⟨hbuilt, hcontext, hrest⟩ := h
    have hwritten : written dummy p.indexes = dummy ++ row.oid := written_eq hbuilt
    refine ⟨p, rfl, ?_, hcontext, hrest⟩
    rw [hwritten]
    rfl

theorem Enumerates.nil (h : Enumerates next point []) : point = none := by
  cases point with
  | none => rfl
  | some p => exact h.elim

/-! ## rows by their index -/

theorem ne_of_oid_lt {x y : ObjId} (h : x < y) : x ≠ y := by
  rintro rfl
  exact List.lt_irrefl x h

/-- The data context of the row with an index. -/
def contextOf (rows : List Row) (o : ObjId) : Option Ptr := (rows.find? fun r => r.oid = o).bind Row.context

theorem rowGetLoop_unsorted (h : Enumerates next point rows) (hn : rows.length ≤ n) :
    rowGetLoop next false o n point = some (contextOf rows o) := by
  induction rows generalizing point n with
  | nil =>
    rw [h.nil]
    unfold rowGetLoop
    rfl
  | cons row rows ih =>
    obtain ⟨p, rfl, hoid, hcontext, hrest⟩ := h.cons
    obtain ⟨n, rfl⟩ := Nat.exists_eq_succ_of_ne_zero (Nat.ne_zero_of_lt hn)
    have hrest : rowGetLoop next false o n (next p) = some (contextOf rows o) := ih hrest (Nat.le_of_succ_le_succ hn)
    rw [rowGetLoop, hoid]
    unfold contextOf
    by_cases heq : o = row.oid
    · rw [oidCompare_eq.mpr heq, find?_cons_of_pos (by simpa using heq.symm)]
      exact congrArg some hcontext
    · rw [find?_cons_of_neg (by simpa using fun h => heq h.symm)]
      cases hcompare : oidCompare o row.oid with
      | eq => exact absurd (oidCompare_eq.mp hcompare) heq
      | gt => exact hrest
      | lt => exact hrest

/-- The data context that is found in a sorted table: of the first row, if that has the index. -/
def contextFirst (rows : List Row) (o : ObjId) : Option Ptr :=
  (rows.head?.filter fun r => r.oid = o).bind Row.context

theorem rowGetLoop_sorted (h : Enumerates next point rows) (hn : rows.length ≤ n)
    (hsorted : (rows.map Row.oid).Pairwise (· < ·)) : rowGetLoop next true o n point = some (contextFirst rows o) := by
  induction rows generalizing point n with
  | nil =>
    rw [h.nil]
    unfold rowGetLoop
    rfl
  | cons row rows ih =>
    obtain ⟨p, rfl, hoid, hcontext, hrest⟩ := h.cons
    obtain ⟨n, rfl⟩ := Nat.exists_eq_succ_of_ne_zero (Nat.ne_zero_of_lt hn)
    obtain ⟨hbelow, hsorted⟩ := pairwise_cons.mp hsorted
    rw [rowGetLoop, hoid]
    unfold contextFirst
    rw [head?_cons]
    cases hcompare : oidCompare o row.oid with
    | eq =>
      rw [Option.filter_some_pos (by simpa using (oidCompare_eq.mp hcompare).symm)]
      exact congrArg some hcontext
    | gt =>
      have hne : row.oid ≠ o := ne_of_oid_lt (oidCompare_gt.mp hcompare)
      rw [Option.filter_some_neg (by simpa using hne)]
      rfl
    | lt =>
      have hlt : o < row.oid := Registry.oidCompare_lt.mp hcompare
      rw [Option.filter_some_neg (by simpa using (ne_of_oid_lt hlt).symm)]
      refine (ih hrest (Nat.le_of_succ_le_succ hn) hsorted).trans ?_
      -- the rows that follow lie above as well
      cases rows with
      | nil => rfl
      | cons second rows =>
        have hsecond : row.oid < second.oid := hbelow second.oid mem_cons_self
        unfold contextFirst
        rw [head?_cons, Option.filter_some_neg (by simpa using (ne_of_oid_lt (List.lt_trans hlt hsecond)).symm)]

/-! ## rows behind an index -/

/-- The data context of the row with the least index behind another. -/
def contextAbove (rows : List Row) (o : ObjId) : Option Ptr :=
  (least ((rows.map Row.oid).filter fun x => o < x)).bind (contextOf rows)

theorem rowNextLoop_unsorted (h : Enumerates next point rows) (hn : rows.length ≤ n) :
    rowNextLoop next false o n best point = some none := by
  induction rows generalizing point n best with
  | nil =>
    rw [h.nil]
    unfold rowNextLoop
    rfl
  | cons row rows ih =>
    obtain ⟨p, rfl, -, -, hrest⟩ := h.cons
    obtain ⟨n, rfl⟩ := Nat.exists_eq_succ_of_ne_zero (Nat.ne_zero_of_lt hn)
    have hrest : ∀ best, rowNextLoop next false o n best (next p) = some none :=
      fun best => ih hrest (Nat.le_of_succ_le_succ hn)
    cases best with
    | none =>
      rw [rowNextLoop]
      split
      · exact hrest _
      · exact hrest _
    | some bestInst =>
      rw [rowNextLoop]
      split
      · split
        · exact hrest _
        · exact hrest _
      · exact hrest _

/-- The data context that is found in a sorted table: of the first row, if that lies below the index. -/
def contextBelow (rows : List Row) (o : ObjId) : Option Ptr :=
  (rows.head?.filter fun r => r.oid < o).bind Row.context

theorem rowNextLoop_sorted (h : Enumerates next point rows) (hn : rows.length ≤ n)
    (hsorted : (rows.map Row.oid).Pairwise (· < ·)) :
    rowNextLoop next true o n none point = some (contextBelow rows o) := by
  induction rows generalizing point n with
  | nil =>
    rw [h.nil]
    unfold rowNextLoop
    rfl
  | cons row rows ih =>
    obtain ⟨p, rfl, hoid, hcontext, hrest⟩ := h.cons
    obtain ⟨n, rfl⟩ := Nat.exists_eq_succ_of_ne_zero (Nat.ne_zero_of_lt hn)
    obtain ⟨hbelow, hsorted⟩ := pairwise_cons.mp hsorted
    rw [rowNextLoop, hoid]
    unfold contextBelow
    rw [head?_cons]
    by_cases hlt : row.oid < o
    · rw [if_pos (oidCompare_gt.mpr hlt), Option.filter_some_pos (by simpa using hlt)]
      exact congrArg some hcontext
    · rw [if_neg (fun hgt => hlt (oidCompare_gt.mp hgt)), Option.filter_some_neg (by simpa using hlt)]
      refine (ih hrest (Nat.le_of_succ_le_succ hn) hsorted).trans ?_
      -- the rows that follow do not lie below either
      cases rows with
      | nil => rfl
      | cons second rows =>
        have hsecond : row.oid < second.oid := hbelow second.oid mem_cons_self
        have hnot : ¬ second.oid < o := fun h => hlt (List.lt_trans hsecond h)
        unfold contextBelow
        rw [head?_cons, Option.filter_some_neg (by simpa using hnot)]

/-! ## where the searches are right -/

theorem contextOf_eq {r : Row} (hdistinct : (rows.map Row.oid).Nodup) (hr : r ∈ rows) :
    contextOf rows r.oid = r.context := by
  unfold contextOf
  cases hfound : rows.find? fun r' => r'.oid = r.oid with
  | none =>
    have := find?_eq_none.mp hfound r hr
    simp at this
  | some r' =>
    have hoid : r'.oid = r.oid := by simpa using find?_some hfound
    rw [inj_on_of_nodup_map hdistinct (mem_of_find?_eq_some hfound) hr hoid]
    rfl

theorem contextOf_of_not_mem (h : o ∉ rows.map Row.oid) : contextOf rows o = none := by
  unfold contextOf
  rw [find?_eq_none.mpr]
  · rfl
  · intro r hr
    have hne : r.oid ≠ o := fun heq => h (heq ▸ mem_map.mpr ⟨r, hr, rfl⟩)
    simpa using hne

theorem contextFirst_eq_iff (hdistinct : (rows.map Row.oid).Nodup) :
    contextFirst rows o = contextOf rows o ↔ ∀ r ∈ rows.tail, r.oid = o → r.context = none := by
  cases rows with
  | nil => exact iff_of_true rfl fun r hr => absurd hr not_mem_nil
  | cons row rows =>
    obtain ⟨hrow, hrest⟩ := nodup_cons.mp hdistinct
    by_cases heq : row.oid = o
    · subst heq
      have hfirst : contextFirst (row :: rows) row.oid = row.context := by simp [contextFirst, Option.filter_some]
      have hof : contextOf (row :: rows) row.oid = row.context := contextOf_eq hdistinct mem_cons_self
      refine iff_of_true (hfirst.trans hof.symm) fun r hr hoid => ?_
      exact absurd (mem_map.mpr ⟨r, hr, hoid⟩) hrow
    · have hfirst : contextFirst (row :: rows) o = none := by simp [contextFirst, Option.filter_some, heq]
      have hof : contextOf (row :: rows) o = contextOf rows o := by simp [contextOf, heq]
      rw [hfirst, hof, tail_cons]
      constructor
      · rintro hnone r hr rfl
        rw [← contextOf_eq hrest hr]
        exact hnone.symm
      · intro hnull
        by_cases hmem : o ∈ rows.map Row.oid
        · obtain ⟨r, hr, rfl⟩ := mem_map.mp hmem
          rw [contextOf_eq hrest hr, hnull r hr rfl]
        · exact (contextOf_of_not_mem hmem).symm

namespace RowTable

/-- The table is not sorted, or no row but the first has the index and a data context. -/
def GetHolds (T : RowTable L) (o : ObjId) : Prop :=
  T.iinfo.sorted = true → ∀ r ∈ T.rows.tail, r.oid = o → r.context = none

/-- What lies above the index has no data context, or the one of the first row in a sorted table that begins below. -/
def NextHolds (T : RowTable L) (o : ObjId) : Prop :=
  contextAbove T.rows o = if T.iinfo.sorted then contextBelow T.rows o else none

variable (T : RowTable L)

theorem rowGetByoid_eq (ho : o ≠ []) (hn : T.rows.length ≤ n) : rowGetByoid n (some T.iinfo) o =
    some (if T.iinfo.sorted then contextFirst T.rows o else contextOf T.rows o) := by
  have hlen : o.length ≠ 0 := fun h => ho (length_eq_zero_iff.mp h)
  unfold rowGetByoid
  dsimp only
  rw [T.first_eq, T.next_eq]
  dsimp only
  rw [if_neg hlen]
  cases hsorted : T.iinfo.sorted with
  | false => exact rowGetLoop_unsorted T.enumerates hn
  | true => exact rowGetLoop_sorted T.enumerates hn (T.increasing hsorted)

theorem rowNextByoid_eq (ho : o ≠ []) (hn : T.rows.length ≤ n) : rowNextByoid n (some T.iinfo) o =
    some (if T.iinfo.sorted then contextBelow T.rows o else none) := by
  have hlen : o.length ≠ 0 := fun h => ho (length_eq_zero_iff.mp h)
  unfold rowNextByoid
  dsimp only
  rw [T.first_eq, T.next_eq]
  dsimp only
  rw [if_neg hlen]
  cases hsorted : T.iinfo.sorted with
  | false => exact rowNextLoop_unsorted T.enumerates hn
  | true => exact rowNextLoop_sorted T.enumerates hn (T.increasing hsorted)

/-- The indexes behind another, in increasing order. -/
def later (o : ObjId) : List ObjId :=
  ((T.rows.map Row.oid).filter fun x => o < x).mergeSort fun x y => decide (x ≤ y)

end RowTable

theorem map_contextAbove {l : List ObjId} (hsorted : l.Pairwise (· < ·))
    (hmem : ∀ x, x ∈ l ↔ x ∈ rows.map Row.oid ∧ o < x) :
    (o :: l).map (contextAbove rows) = l.map (contextOf rows) ++ [none] := by
  have hleast : LeastOf (· ∈ (rows.map Row.oid).filter fun x => o < x)
      (least ((rows.map Row.oid).filter fun x => o < x)) := least_spec _
  have hfilter : ∀ x, x ∈ ((rows.map Row.oid).filter fun x => o < x) ↔ x ∈ l := by
    intro x
    rw [mem_filter, decide_eq_true_iff, hmem]
  induction l generalizing o with
  | nil =>
    have hnone : least ((rows.map Row.oid).filter fun x => o < x) = none :=
      hleast.unique fun x hx => not_mem_nil ((hfilter x).mp hx)
    show [contextAbove rows o] = [none]
    unfold contextAbove
    rw [hnone]
    rfl
  | cons a l ih =>
    obtain ⟨hbelow, hsorted⟩ := pairwise_cons.mp hsorted
    have hsome : least ((rows.map Row.oid).filter fun x => o < x) = some a := by
      refine hleast.unique ⟨(hfilter a).mpr mem_cons_self, fun x hx => ?_⟩
      rcases mem_cons.mp ((hfilter x).mp hx) with rfl | hx
      · exact List.lt_irrefl x
      · exact fun h => List.lt_irrefl a (List.lt_trans (hbelow x hx) h)
    have hoa : o < a := ((hmem a).mp mem_cons_self).2
    have hmem' : ∀ x, x ∈ l ↔ x ∈ rows.map Row.oid ∧ a < x := by
      intro x
      constructor
      · intro hx
        exact ⟨((hmem x).mp (mem_cons_of_mem a hx)).1, hbelow x hx⟩
      · rintro ⟨hx, hax⟩
        rcases mem_cons.mp ((hmem x).mpr ⟨hx, List.lt_trans hoa hax⟩) with rfl | hx
        · exact absurd hax (List.lt_irrefl x)
        · exact hx
    have hrest := ih hsorted hmem' (least_spec _) fun x => by rw [mem_filter, decide_eq_true_iff, hmem']
    rw [map_cons, hrest]
    unfold contextAbove
    rw [hsome]
    rfl

theorem RowTable.mem_later (T : RowTable L) (x : ObjId) : x ∈ T.later o ↔ x ∈ T.rows.map Row.oid ∧ o < x := by
  unfold RowTable.later
  rw [mem_mergeSort, mem_filter, decide_eq_true_iff]

theorem RowTable.later_pairwise (T : RowTable L) (o : ObjId) : (T.later o).Pairwise (· < ·) := by
  have hle : (T.later o).Pairwise fun x y => decide (x ≤ y) = true := by
    refine pairwise_mergeSort ?_ ?_ _
    · intro x y z hxy hyz
      rw [decide_eq_true_iff] at *
      exact List.le_trans hxy hyz
    · intro x y
      rw [Bool.or_eq_true, decide_eq_true_iff, decide_eq_true_iff]
      exact List.le_total x y
  have hne : (T.later o).Pairwise (· ≠ ·) :=
    (mergeSort_perm _ _).nodup_iff.mpr (T.distinct.filter _)
  refine (hle.and hne).imp fun h => ?_
  exact (List.le_iff_lt_or_eq.mp (of_decide_eq_true h.1)).resolve_right h.2

/-- A row is found by its index, and the next row behind an index, exactly where the searches do not leave too early. To
step from row to row is right if every step is. -/
theorem rowByoid_exact_iff (T : RowTable L) (v : Oid) (x : ObjId) (n : Nat) :
    (rowGetByoid (T.rows.length + n) (some T.iinfo) (v :: x) = some (contextOf T.rows (v :: x)) ↔
      T.GetHolds (v :: x)) ∧
    (rowNextByoid (T.rows.length + n) (some T.iinfo) (v :: x) = some (contextAbove T.rows (v :: x)) ↔
      T.NextHolds (v :: x)) ∧
    (((v :: x) :: T.later (v :: x)).map (rowNextByoid (T.rows.length + n) (some T.iinfo)) =
        ((T.later (v :: x)).map (contextOf T.rows) ++ [none]).map some ↔
      ∀ o ∈ (v :: x) :: T.later (v :: x), T.NextHolds o) := by
  have hn : T.rows.length ≤ T.rows.length + n := Nat.le_add_right ..
  have hnext : ∀ o, o ≠ [] → (rowNextByoid (T.rows.length + n) (some T.iinfo) o = some (contextAbove T.rows o) ↔
      T.NextHolds o) := by
    intro o ho
    rw [T.rowNextByoid_eq ho hn, Option.some.injEq]
    exact eq_comm
  refine ⟨?_, hnext _ (cons_ne_nil v x), ?_⟩
  · rw [T.rowGetByoid_eq (cons_ne_nil v x) hn, Option.some.injEq]
    unfold RowTable.GetHolds
    cases hsorted : T.iinfo.sorted with
    | false => exact iff_of_true rfl fun h => absurd h (by decide)
    | true =>
      rw [forall_prop_of_true rfl]
      exact contextFirst_eq_iff T.distinct
  · have hlater : ∀ o ∈ (v :: x) :: T.later (v :: x), o ≠ [] := by
      intro o ho
      rcases mem_cons.mp ho with rfl | ho
      · exact cons_ne_nil v x
      · rintro rfl
        exact List.not_lt_nil _ ((T.mem_later _).mp ho).2
    rw [← map_contextAbove (T.later_pairwise _) fun x => T.mem_later x, map_map, map_inj_left]
    exact forall₂_congr fun o ho => hnext o (hlater o ho)

/-- A table of rows with an integer as index. -/
def integerPoint (values : List Nat) (i : Nat) : Option (DataPoint Nat) :=
  values[i]?.map fun v => ⟨i, some v, [⟨.integer, some (.integer v), 8⟩]⟩

/-- A sorted table with two rows. -/
def twoRows : RowTable Nat where
  iinfo := ⟨some fun _ => integerPoint [1, 2] 0, some fun p => integerPoint [1, 2] (p.loopContext + 1), true, []⟩
  first := fun _ => integerPoint [1, 2] 0
  next := fun p => integerPoint [1, 2] (p.loopContext + 1)
  rows := [⟨[1], some 1⟩, ⟨[2], some 2⟩]
  first_eq := rfl
  next_eq := rfl
  enumerates := by
    refine ⟨by decide +kernel, rfl, by decide +kernel, rfl, trivial⟩
  distinct := by decide
  increasing := fun _ => by decide

/-- The second row is not found, and nothing seems to come behind the first. -/
theorem rowByoid_misses_second :
    rowGetByoid 2 (some twoRows.iinfo) [2] = some none ∧ contextOf twoRows.rows [2] = some 2 ∧
      rowNextByoid 2 (some twoRows.iinfo) [1] = some none ∧ contextAbove twoRows.rows [1] = some 2 := by
  decide +kernel

end Priot.Table
