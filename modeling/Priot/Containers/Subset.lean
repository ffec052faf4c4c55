/-
# Subsets of a binary array

A container of objects that begin with an OID, sorted by the whole OID; a subset is what a shorter key is a prefix of.
The lengths of the OIDs are compared as `int`, so those here are shorter than 2^31.
-/
import Priot.Containers.Operations
import Priot.Registry.Oid

namespace Priot.Containers

open Lib List

variable {α : Type}

/-! ## the comparisons -/

def intMax : Nat := 2147483647

structure Index where
  oids : ObjId
  fits : oids.length ≤ intMax

/-- `while (len-- > 0)`: what the first two subidentifiers that differ decide. -/
def firstDifference : Nat → ObjId → ObjId → Option Int
  | n + 1, v :: x, w :: y => if v ≠ w then if v < w then some (-1) else some 1 else firstDifference n x y
  | _, _, _ => none

def oidCompare (name1 name2 : ObjId) : Int :=
  let len := toInt (if name1.length < name2.length then name1.length else name2.length)
  (firstDifference len.toNat name1 name2).getD
    (if name1.length < name2.length then -1 else if name2.length < name1.length then 1 else 0)

def oidNcompare (name1 name2 : ObjId) (maxLen : Nat) : Int :=
  let minLen := if name1.length < name2.length then name1.length else name2.length
  let minLen := if maxLen < minLen then maxLen else minLen
  let len := toInt minLen
  (firstDifference len.toNat name1 name2).getD
    (if minLen ≠ maxLen then
      if name1.length < name2.length then -1 else if name2.length < name1.length then 1 else 0
    else 0)

def compareIndex (lhs rhs : Index) : Int := oidCompare lhs.oids rhs.oids

def nCompareIndex (lhs rhs : Index) : Int := oidNcompare lhs.oids rhs.oids rhs.oids.length

/-! ## the functions -/

namespace BinaryArray

/-- The `while (len > 0)` of the search for the first entry that is not below the key. -/
def searchForStartLoop (nCompare : α → Int) (data : List α) : Nat → Nat → Nat → Option Nat
  | 0, _, _ => none
  | n + 1, first, len =>
    if 0 < len then
      let half := len / 2
      let middle := first + half
      do
        let x ← data[middle]?
        if nCompare x < 0 then searchForStartLoop nCompare data n (middle + 1) (len - half - 1)
        else searchForStartLoop nCompare data n first half
    else some first

def binarySearchForStart (nCompare : α → Int) (c : BinaryArray α) : Option (Int × BinaryArray α) :=
  if c.table.count = 0 then some (-1, c)
  else do
    let c ← c.sortIfDirty
    let first ← searchForStartLoop nCompare c.table.data (c.table.count + 1) 0 c.table.count
    if c.table.count ≤ first then some (-1, c)
    else do
      let x ← c.table.data[first]?
      if nCompare x ≠ 0 then some (-1, c) else some (toInt first, c)

/-- `for (i = start + 1; i < t->count; ++i)`, which counts up `end`, an `int`. -/
def extendLoop (nCompare : α → Int) (data : List α) : Nat → Nat → Int → Option Int
  | 0, _, _ => none
  | n + 1, i, last =>
    if i < data.length then do
      let x ← data[i]?
      if 0 ≠ nCompare x then some last
      else if last + 1 < 2 ^ 31 then extendLoop nCompare data n (i + 1) (last + 1)
      else none
    else some last

/-- `ContainerBinaryArray_getSubset`: the subset or `NULL`, and what is written to `len`, if anything. `granted` is
what `malloc` answers. -/
def getSubset (nCompare : α → Index → Int) (c : BinaryArray α) (key : Index) (granted : Bool) :
    Option (Option (List α) × Option Int × BinaryArray α) :=
  if c.table.count = 0 then some (none, none, c)
  else do
    let c ← c.sortIfDirty
    let (start, c) ← binarySearchForStart (fun x => nCompare x key) c
    if start = -1 then some (none, none, c)
    else do
      let last ← extendLoop (fun x => nCompare x key) c.table.data (c.table.count + 1) (toSize (start + 1)) start
      let len := last - start + 1
      let subset := (c.table.data.drop start.toNat).take (toSize len)
      some (if granted then some subset else none, some len, c)

end BinaryArray

/-! ## what the comparisons decide -/

theorem toInt_min {m n : Nat} (h : n ≤ intMax) : (toInt (if m < n then m else n)).toNat = min m n := by
  have hmin : (if m < n then m else n) = min m n := by
    by_cases hlt : m < n
    · rw [if_pos hlt, Nat.min_eq_left hlt.le]
    · rw [if_neg hlt, Nat.min_eq_right (not_lt.mp hlt)]
  have hlt : min m n < 2 ^ 31 := lt_of_le_of_lt ((Nat.min_le_right m n).trans h) (by decide)
  rw [hmin, toInt_natCast hlt, Int.toNat_natCast]

theorem firstDifference_spec (x y : ObjId) :
    ((∃ r, firstDifference (min x.length y.length) x y = some r ∧ (r = -1 ∨ r = 1) ∧ (r = -1 ↔ x < y) ∧ ¬ y <+: x ∧
        x ≠ y) ∨ (firstDifference (min x.length y.length) x y = none ∧ (x.length < y.length ↔ x < y) ∧
        (¬ x.length < y.length ↔ y <+: x) ∧ (x.length = y.length ↔ x = y))) := by
  induction x generalizing y with
  | nil =>
    right
    cases y with
    | nil => simp [firstDifference]
    | cons w y => simp [firstDifference]
  | cons v x ih =>
    cases y with
    | nil =>
      right
      simp [firstDifference]
    | cons w y =>
      rw [length_cons, length_cons, Nat.add_min_add_right, firstDifference, cons_lt_cons_iff,
        cons_prefix_cons, List.cons.injEq]
      by_cases hvw : v = w
      · subst hvw
        rw [if_neg (not_not.mpr rfl)]
        rcases ih y with ⟨r, e, hr, hlt, hpre, hne⟩ | ⟨e, hlt, hpre, heq⟩
        · exact .inl ⟨r, e, hr, by simp [hlt], by simp [hpre], by simp [hne]⟩
        · exact .inr ⟨e, by simp [hlt], by simp [← hpre], by simp [heq]⟩
      · left
        rw [if_pos hvw]
        by_cases hlt : v < w
        · rw [if_pos hlt]
          exact ⟨-1, rfl, .inl rfl, by simp [hlt], fun h => hvw h.1.symm, fun h => hvw (List.cons.inj h).1⟩
        · rw [if_neg hlt]
          exact ⟨1, rfl, .inr rfl, by simp [hlt, hvw], fun h => hvw h.1.symm, fun h => hvw (List.cons.inj h).1⟩

theorem compareIndex_spec (x y : Index) :
    (compareIndex x y < 0 ↔ x.oids < y.oids) ∧ (compareIndex x y = 0 ↔ x.oids = y.oids) := by
  rw [compareIndex, oidCompare, toInt_min y.fits]
  rcases firstDifference_spec x.oids y.oids with ⟨r, e, hr, hlt, _, hne⟩ | ⟨e, hlt, _, heq⟩
  · rw [e, Option.getD_some, ← hlt]
    constructor
    · omega
    · exact iff_of_false (by omega) hne
  · rw [e, Option.getD_none, ← hlt, ← heq]
    constructor <;> (split <;> [skip; split]) <;> omega

theorem nCompareIndex_spec (x key : Index) :
    (nCompareIndex x key < 0 ↔ x.oids < key.oids) ∧ (nCompareIndex x key = 0 ↔ key.oids <+: x.oids) := by
  have hle : ¬ key.oids.length < if x.oids.length < key.oids.length then x.oids.length else key.oids.length := by
    split <;> omega
  rw [nCompareIndex, oidNcompare, if_neg hle, toInt_min key.fits]
  rcases firstDifference_spec x.oids key.oids with ⟨r, e, hr, hlt, hpre, _⟩ | ⟨e, hlt, hpre, _⟩
  · rw [e, Option.getD_some, ← hlt]
    exact ⟨by omega, iff_of_false (by omega) hpre⟩
  · rw [e, Option.getD_none, ← hlt, ← hpre]
    by_cases h : x.oids.length < key.oids.length
    · simp [h, Nat.ne_of_lt h]
    · simp [h]

theorem compareIndex_le (x y : Index) : compareIndex x y ≤ 0 ↔ x.oids ≤ y.oids := by
  obtain ⟨hlt, heq⟩ := compareIndex_spec x y
  rw [le_iff_lt_or_eq, hlt, heq, List.le_iff_lt_or_eq]

theorem compareIndex_total : TotalCompare compareIndex := by
  refine ⟨fun x y => ?_, fun x y z hxy hyz => ?_⟩
  · rw [(compareIndex_spec x y).1, ← not_le, compareIndex_le, List.not_le]
  · rw [compareIndex_le] at hxy hyz ⊢
    exact List.le_trans hxy hyz

theorem nCompareIndex_climbs (key : Index) {x y : Index} (h : x.oids ≤ y.oids) :
    (nCompareIndex y key < 0 → nCompareIndex x key < 0) ∧ (nCompareIndex y key ≤ 0 → nCompareIndex x key ≤ 0) := by
  obtain ⟨hx, hx0⟩ := nCompareIndex_spec x key
  obtain ⟨hy, hy0⟩ := nCompareIndex_spec y key
  have hlt : nCompareIndex y key < 0 → nCompareIndex x key < 0 := fun h' => hx.mpr (List.lt_of_le_of_lt h (hy.mp h'))
  refine ⟨hlt, fun h' => ?_⟩
  rcases lt_or_eq_of_le h' with hneg | hzero
  · exact (hlt hneg).le
  · by_cases hbefore : x.oids < key.oids
    · exact (hx.mpr hbefore).le
    · -- between the key and what continues it, everything continues it
      exact (hx0.mpr (Registry.prefix_of_between (hy0.mp hzero) (List.not_lt.mp hbefore) h)).le

/-! ## the search -/

namespace BinaryArray

variable {f : α → Int} {below equal above : List α}

theorem searchForStartLoop_spec (hbelow : ∀ x ∈ below, f x < 0) (habove : ∀ x ∈ above, 0 ≤ f x) :
    ∀ (n first len : Nat), len < n → first ≤ below.length → below.length ≤ first + len →
      first + len ≤ (below ++ above).length → searchForStartLoop f (below ++ above) n first len = some below.length := by
  intro n
  induction n with
  | zero => intro first len hn; omega
  | succ n ih =>
    intro first len hn hfirst hlen hend
    rw [searchForStartLoop]
    by_cases h0 : 0 < len
    · rw [if_pos h0]
      have hmiddle : first + len / 2 < (below ++ above).length := by omega
      simp only [getElem?_eq_getElem hmiddle, Option.bind_eq_bind, Option.bind_some]
      by_cases hin : first + len / 2 < below.length
      · rw [getElem_append_left hin, if_pos (hbelow _ (getElem_mem _))]
        exact ih _ _ (by omega) (by omega) (by omega) (by omega)
      · rw [getElem_append_right (not_lt.mp hin), if_neg (not_lt.mpr (habove _ (getElem_mem _)))]
        exact ih _ _ (by omega) (by omega) (by omega) (by omega)
    · rw [if_neg h0]
      exact congrArg some (by omega)

theorem extendLoop_spec (hequal : ∀ x ∈ equal, f x = 0) (habove : ∀ x ∈ above, f x ≠ 0)
    (hfits : (below ++ equal).length < 2 ^ 31) :
    ∀ (n i : Nat), (below ++ equal ++ above).length < i + n → below.length < i → i ≤ (below ++ equal).length →
      extendLoop f (below ++ equal ++ above) n i (i - 1 : Int) = some ((below ++ equal).length - 1 : Int) := by
  intro n
  induction n with
  | zero =>
    intro i hn hi hle
    rw [length_append] at hn
    omega
  | succ n ih =>
    intro i hn hi hle
    rw [extendLoop]
    by_cases hend : i < (below ++ equal).length
    · have hin : i < (below ++ equal ++ above).length := by
        rw [length_append]
        omega
      have hzero : f (below ++ equal ++ above)[i] = 0 := by
        rw [getElem_append_left hend, getElem_append_right hi.le]
        exact hequal _ (getElem_mem _)
      have hroom : (i - 1 : Int) + 1 < 2 ^ 31 := by omega
      have hnext : (i - 1 : Int) + 1 = ((i + 1 : Nat) : Int) - 1 := by omega
      rw [if_pos hin, getElem?_eq_getElem hin]
      simp only [Option.bind_eq_bind, Option.bind_some]
      rw [if_neg (not_not.mpr hzero.symm), if_pos hroom, hnext]
      exact ih (i + 1) (by omega) (by omega) hend
    · obtain rfl : i = (below ++ equal).length := by omega
      by_cases hin : (below ++ equal).length < (below ++ equal ++ above).length
      · have hne : 0 ≠ f (below ++ equal ++ above)[(below ++ equal).length] := by
          rw [getElem_append_right (Nat.le_refl _)]
          exact (habove _ (getElem_mem _)).symm
        rw [if_pos hin, getElem?_eq_getElem hin]
        simp only [Option.bind_eq_bind, Option.bind_some]
        rw [if_pos hne]
      · rw [if_neg hin]

theorem binarySearchForStart_spec {c : BinaryArray α} (hd : c.table.dirty = false)
    (hdata : c.table.data = below ++ (equal ++ above)) (hbelow : ∀ x ∈ below, f x < 0) (hequal : ∀ x ∈ equal, f x = 0)
    (habove : ∀ x ∈ above, 0 < f x) (hn : c.table.count < 2 ^ 31) :
    binarySearchForStart f c = some (if equal = [] then -1 else (below.length : Int), c) := by
  rw [binarySearchForStart]
  by_cases h0 : c.table.count = 0
  · have hnil : below ++ (equal ++ above) = [] := hdata ▸ length_eq_zero_iff.mp h0
    rw [if_pos h0, if_pos (append_eq_nil_iff.mp (append_eq_nil_iff.mp hnil).2).1]
  · have hrest : ∀ x ∈ equal ++ above, 0 ≤ f x := by
      intro x hx
      rcases mem_append.mp hx with h | h
      · exact (hequal x h).ge
      · exact (habove x h).le
    have hloop := searchForStartLoop_spec hbelow hrest (c.table.count + 1) 0 c.table.count (Nat.lt_succ_self _)
      (Nat.zero_le _) (by rw [Table.count, hdata, length_append]; omega) (by rw [Table.count, hdata, Nat.zero_add])
    rw [← hdata] at hloop
    simp only [if_neg h0, sortIfDirty_clean hd, hloop, Option.bind_eq_bind, Option.bind_some]
    cases equal with
    | nil =>
      rw [if_pos rfl]
      by_cases hend : c.table.count ≤ below.length
      · rw [if_pos hend]
      · have hin : below.length < c.table.data.length := not_le.mp hend
        have hne : f c.table.data[below.length] ≠ 0 := by
          simp only [hdata, getElem_append_right (Nat.le_refl _)]
          exact (habove _ (getElem_mem _)).ne'
        rw [if_neg hend, getElem?_eq_getElem hin]
        rw [Option.bind_some, if_pos hne]
    | cons x equal =>
      have hat : c.table.data[below.length]? = some x := by
        rw [hdata, getElem?_append_right (Nat.le_refl _), Nat.sub_self]
        rfl
      have hin : below.length < c.table.count := (List.getElem?_eq_some_iff.mp hat).1
      rw [if_neg (not_le.mpr hin), hat, Option.bind_some, if_neg (not_not.mpr (hequal x mem_cons_self)),
        if_neg (cons_ne_nil x equal), toInt_natCast (lt_trans hin hn)]

theorem getSubset_parts {nCompare : α → Index → Int} {key : Index} {c c' : BinaryArray α} (hsort : c.sortIfDirty = some c')
    (hcount : c'.table.count = c.table.count) (hd : c'.table.dirty = false)
    (hdata : c'.table.data = below ++ (equal ++ above)) (hbelow : ∀ x ∈ below, nCompare x key < 0)
    (hequal : ∀ x ∈ equal, nCompare x key = 0) (habove : ∀ x ∈ above, 0 < nCompare x key)
    (hn : c.table.count < 2 ^ 31) (granted : Bool) : ∃ c'', c.getSubset nCompare key granted =
        some (if equal = [] ∨ granted = false then none else some equal,
          if equal = [] then none else some (equal.length : Int), c'') ∧ (c'' = c ∨ c'' = c') := by
  have hlen : c.table.count = below.length + (equal.length + above.length) := by
    rw [← hcount, Table.count, hdata, length_append, length_append]
  rw [getSubset]
  by_cases h0 : c.table.count = 0
  · have hnil : equal = [] := length_eq_zero_iff.mp (by omega)
    rw [if_pos h0, if_pos (.inl hnil), if_pos hnil]
    exact ⟨c, rfl, .inl rfl⟩
  · have hstart := binarySearchForStart_spec hd hdata hbelow hequal habove (hcount ▸ hn)
    simp only [if_neg h0, hsort, hstart, Option.bind_eq_bind, Option.bind_some]
    by_cases hnil : equal = []
    · simp only [if_pos hnil, if_pos (Or.inl hnil)]
      exact ⟨c', rfl, .inr rfl⟩
    · have hpos : 0 < equal.length := length_pos_iff_ne_nil.mpr hnil
      have hfirst : toSize ((below.length : Int) + 1) = below.length + 1 := by
        rw [← Nat.cast_succ, toSize_natCast (by omega)]
      have hlast := extendLoop_spec (f := fun x => nCompare x key) hequal (fun x hx => (habove x hx).ne')
        (by rw [length_append]; omega) (c'.table.count + 1) (below.length + 1)
        (by rw [hcount, length_append, length_append]; omega) (Nat.lt_succ_self _)
        (by rw [length_append]; omega)
      rw [append_assoc, ← hdata, Nat.cast_succ, Int.add_sub_cancel] at hlast
      have hsize : ((below ++ equal).length - 1 : Int) - below.length + 1 = (equal.length : Int) := by
        rw [length_append, Nat.cast_add]
        omega
      have hslice : (c'.table.data.drop (below.length : Int).toNat).take (toSize (equal.length : Int)) = equal := by
        rw [hdata, Int.toNat_natCast, toSize_natCast (by omega), drop_left, take_left]
      have hne : ¬ (below.length : Int) = -1 := by omega
      simp only [if_neg hnil, if_neg hne, hfirst, hlast, hsize, hslice, Option.bind_some, or_iff_right hnil]
      cases granted <;> exact ⟨c', rfl, .inr rfl⟩

/-- The subset of a key is what the key is a prefix of, in order; it is `NULL` if nothing is, or if there is no memory
for it. -/
theorem getSubset_exact {idx : α → Index} {c : BinaryArray α} (hc : c.Kept)
    (hcmp : c.compare = fun x y => compareIndex (idx x) (idx y))
    (hn : c.table.count ≤ sortable ∨ c.table.dirty = false ∧ c.table.count < 2 ^ 31) (key : Index) (granted : Bool) :
    ∃ subset len c', c.getSubset (fun x k => nCompareIndex (idx x) k) key granted = some (subset, len, c') ∧
      c.Tidied c' ∧
      (subset = none ↔ granted = false ∨ ∀ x ∈ c.table.data, ¬ key.oids <+: (idx x).oids) ∧
      ∀ xs, subset = some xs → len = some (xs.length : Int) ∧
        xs.Perm (c.table.data.filter fun x => key.oids <+: (idx x).oids) ∧
        xs.Pairwise fun x y => (idx x).oids ≤ (idx y).oids := by
  obtain ⟨c₁, e₁, hsort⟩ : ∃ c', c.sortIfDirty = some c' ∧ c.SortedFrom c' := by
    rcases hn with hn | ⟨hd, -⟩
    · exact sortIfDirty_spec hc hn
    · exact ⟨c, sortIfDirty_clean hd, List.Perm.refl _, hc.sorted hd, hd, rfl, rfl, rfl⟩
  have hsmall : c.table.count < 2 ^ 31 := by
    rcases hn with hn | ⟨-, hn⟩
    · exact lt_of_le_of_lt hn (by decide)
    · exact hn
  have hsorted : c₁.table.data.Pairwise fun x y => (idx x).oids ≤ (idx y).oids := by
    refine hsort.sorted.imp fun {x y} hxy => ?_
    rw [hcmp] at hxy
    exact (compareIndex_le _ _).mp hxy
  have hclimbs : Lib.Climbs (fun x => nCompareIndex (idx x) key) c₁.table.data :=
    hsorted.imp fun hxy => nCompareIndex_climbs key hxy
  have hequal : (c₁.table.data.filter fun x => nCompareIndex (idx x) key = 0) =
      c₁.table.data.filter fun x => key.oids <+: (idx x).oids :=
    filter_congr fun x _ => decide_eq_decide.mpr (nCompareIndex_spec (idx x) key).2
  obtain ⟨c'', e, hc''⟩ := @getSubset_parts α _ _ _ (fun x k => nCompareIndex (idx x) k) key c c₁ e₁ hsort.count
    hsort.clean hclimbs.parts (fun x hx => of_decide_eq_true (mem_filter.mp hx).2)
    (fun x hx => of_decide_eq_true (mem_filter.mp hx).2)
    (fun x hx => of_decide_eq_true (mem_filter.mp hx).2) hsmall granted
  rw [hequal] at e
  have hnone : (c₁.table.data.filter fun x => key.oids <+: (idx x).oids) = [] ↔
      ∀ x ∈ c.table.data, ¬ key.oids <+: (idx x).oids := by
    rw [filter_eq_nil_iff]
    simp only [decide_eq_true_eq, hsort.mem_iff]
  refine ⟨_, _, c'', e, ?_, ?_, ?_⟩
  · rcases hc'' with rfl | rfl
    · exact .refl hc
    · exact hsort.tidied hc
  · rw [← hnone]
    by_cases h : (c₁.table.data.filter fun x => key.oids <+: (idx x).oids) = [] ∨ granted = false
    · rw [if_pos h]
      exact iff_of_true rfl h.symm
    · rw [if_neg h]
      exact iff_of_false (Option.some_ne_none _) fun h' => h h'.symm
  · intro xs hxs
    rw [Option.ite_none_left_eq_some, not_or] at hxs
    obtain ⟨⟨hne, -⟩, hxs⟩ := hxs
    obtain rfl := Option.some.inj hxs
    exact ⟨if_neg hne, hsort.perm.filter _, hsorted.filter _⟩

/-- Two rows of one table and one of the next, in an array that is sorted already. -/
def rows : BinaryArray Index :=
  ⟨⟨10, false, [⟨[1, 7], by decide⟩, ⟨[1, 8], by decide⟩, ⟨[2, 7], by decide⟩]⟩, compareIndex, {}, 3⟩

/-- The first of the two tables. -/
def firstTable : Index := ⟨[1], by decide⟩

theorem rows_compare : rows.compare = compareIndex := by
  rw [rows]

theorem rows_kept : rows.Kept := by
  refine ⟨by rw [rows_compare]; exact compareIndex_total, rfl, fun _ => ?_, by decide⟩
  have hsorted : rows.table.data.Pairwise fun x y => x.oids ≤ y.oids := by
    decide
  rw [SortedBy, rows_compare]
  exact hsorted.imp fun {x y} hxy => (compareIndex_le x y).mpr hxy

/-- The rows of the first table. -/
theorem getSubset_exact_rows :
    ∃ subset len c', rows.getSubset (fun x k => nCompareIndex x k) firstTable true = some (subset, len, c') ∧
      rows.Tidied c' ∧
      (subset = none ↔ true = false ∨ ∀ x ∈ rows.table.data, ¬ firstTable.oids <+: x.oids) ∧
      ∀ xs, subset = some xs → len = some (xs.length : Int) ∧
        xs.Perm (rows.table.data.filter fun x => firstTable.oids <+: x.oids) ∧
        xs.Pairwise fun x y => x.oids ≤ y.oids :=
  @getSubset_exact Index id rows rows_kept (by rw [rows_compare]; rfl) (.inl (by decide)) firstTable true

/-- Without memory for the subset the answer is `NULL`, although there are rows. -/
theorem not_getSubset_exact :
    (∃ len c', rows.getSubset (fun x k => nCompareIndex x k) firstTable false = some (none, len, c')) ∧
      ∃ x ∈ rows.table.data, firstTable.oids <+: x.oids :=
  ⟨⟨_, _, rfl⟩, _, mem_cons_self, by decide⟩

end BinaryArray

end Priot.Containers
