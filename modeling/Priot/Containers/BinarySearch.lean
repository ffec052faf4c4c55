/-
# The binary search finds

`result` needs no second comparison when the loop ends with `first` at `middle`, since the last comparison was then
against `first`.
-/
import Priot.Containers.QuickSort

namespace Priot.Containers

open Lib List

variable {α : Type} {f : α → α → Int} {data : List α} {val : α}

theorem toInt_natCast {n : Nat} (h : n < 2 ^ 31) : toInt n = n := by
  have hw : ((2 ^ 32 : Nat) : Int) = 4294967296 := by norm_num
  apply Int.bmod_eq_of_le_mul_two
  · rw [hw]
    omega
  · rw [hw]
    omega

theorem toSize_natCast {n : Nat} (h : n < 2 ^ 31) : toSize n = n := by
  rw [toSize, Int.emod_eq_of_lt (by omega) (by omega), Int.toNat_natCast]

/-! ## a sorted array -/

/-- No entry is larger than one behind it. -/
def SortedBy (f : α → α → Int) (data : List α) : Prop :=
  data.Pairwise fun x y => f x y ≤ 0

theorem OrderedOn.sortedBy {n : Nat} (h : OrderedOn f (Set.Icc 0 n) data)
    (hn : data.length ≤ n + 1) : SortedBy f data := by
  rw [SortedBy, pairwise_iff_getElem]
  intro i j hi hj hij
  exact h i ⟨Nat.zero_le i, by omega⟩ j ⟨Nat.zero_le j, by omega⟩ (le_of_lt hij) _ _ (getElem?_eq_getElem hi)
    (getElem?_eq_getElem hj)

theorem SortedBy.le_at (hf : TotalCompare f) (h : SortedBy f data) {i j : Nat} {x y : α} (hij : i ≤ j)
    (hx : data[i]? = some x) (hy : data[j]? = some y) : f x y ≤ 0 := by
  obtain ⟨hi, rfl⟩ := List.getElem?_eq_some_iff.mp hx
  obtain ⟨hj, rfl⟩ := List.getElem?_eq_some_iff.mp hy
  rcases Nat.lt_or_eq_of_le hij with hlt | rfl
  · exact (pairwise_iff_getElem.mp h) i j hi hj hlt
  · exact le_of_eq (hf.self _)

/-- No two entries have equal keys. -/
def Distinct (f : α → α → Int) (data : List α) : Prop :=
  data.Pairwise fun x y => f x y ≠ 0

theorem Distinct.perm {xs ys : List α} (hf : TotalCompare f) (h : Distinct f xs) (hp : ys.Perm xs) : Distinct f ys :=
  List.Pairwise.perm h hp.symm fun {x y} hxy h => hxy ((hf.eq_comm y x).mp h)

theorem SortedBy.strict {xs : List α} (h : SortedBy f xs) (hd : Distinct f xs) : xs.Pairwise fun x y => f x y < 0 :=
  (List.Pairwise.and h hd).imp fun h => lt_of_le_of_ne h.1 h.2

/-- A container in ordinary use: it sorts, and an array that is not marked dirty is sorted. -/
structure BinaryArray.Kept (c : BinaryArray α) : Prop where
  total : TotalCompare c.compare
  sorts : c.flags.unsorted = false
  sorted : c.table.dirty = false → SortedBy c.compare c.table.data
  room : c.table.count ≤ c.table.maxSize

/-- `c'` is `c` with its array sorted. -/
structure BinaryArray.SortedFrom (c c' : BinaryArray α) : Prop where
  perm : c'.table.data.Perm c.table.data
  sorted : SortedBy c.compare c'.table.data
  clean : c'.table.dirty = false
  compare : c'.compare = c.compare
  flags : c'.flags = c.flags
  maxSize : c'.table.maxSize = c.table.maxSize

theorem BinaryArray.SortedFrom.count {c c' : BinaryArray α} (h : c.SortedFrom c') : c'.table.count = c.table.count :=
  h.perm.length_eq

theorem BinaryArray.SortedFrom.kept {c c' : BinaryArray α} (h : c.SortedFrom c') (hc : c.Kept) : c'.Kept :=
  ⟨h.compare ▸ hc.total, h.flags ▸ hc.sorts, fun _ => h.compare ▸ h.sorted, by
    rw [h.count, h.maxSize]
    exact hc.room⟩

theorem BinaryArray.sortIfDirty_spec {c : BinaryArray α} (hc : c.Kept) (hn : c.table.count ≤ sortable) :
    ∃ c', c.sortIfDirty = some c' ∧ c.SortedFrom c' := by
  rw [sortIfDirty]
  by_cases hd : c.table.dirty = true
  · rw [if_pos hd, sortArray, if_neg (by rw [hc.sorts]; decide), if_pos hd]
    by_cases h1 : 1 < c.table.count
    · have hlast : c.table.count - 1 < 2 ^ 31 := by
        simp only [sortable] at hn
        omega
      obtain ⟨after, e, hmoved, hord⟩ := arrayQSort_spec hc.total c.table.count c.table.data 0 (c.table.count - 1)
        (by omega) (by simp only [Table.count] at h1 ⊢; omega) hn (by omega)
      have hlen := hmoved.length_eq
      rw [if_pos h1, toInt_natCast hlast, ← Nat.cast_zero, e]
      refine ⟨_, rfl, hmoved.perm, ?_, rfl, rfl, rfl, rfl⟩
      exact OrderedOn.sortedBy hord (by simp only [Table.count] at h1 ⊢; omega)
    · rw [if_neg h1]
      have hone : SortedBy c.compare c.table.data := by
        rw [SortedBy, pairwise_iff_getElem]
        intro i j hi hj hij
        simp only [Table.count] at h1
        omega
      exact ⟨_, rfl, List.Perm.refl _, hone, rfl, rfl, rfl, rfl⟩
  · rw [if_neg hd]
    have hd' : c.table.dirty = false := Bool.eq_false_iff.mpr hd
    exact ⟨c, rfl, List.Perm.refl _, hc.sorted hd', hd', rfl, rfl, rfl⟩

theorem BinaryArray.sortIfDirty_clean {c : BinaryArray α} (h : c.table.dirty = false) : c.sortIfDirty = some c := by
  rw [sortIfDirty, if_neg (by rw [h]; decide)]

/-! ## the loop -/

/-- Where the loop of the search ends. -/
inductive Landed (f : α → α → Int) (data : List α) (val : α) : Nat → Nat → Int → Prop
  | found {k : Nat} {x : α} (at_k : data[k]? = some x) (equal : f x val = 0) : Landed f data val k k 0
  | gap {first middle : Nat} {result : Int} (le : first ≤ data.length)
      (below : ∀ k, k < first → ∀ x, data[k]? = some x → f x val < 0)
      (above : ∀ k, first ≤ k → ∀ x, data[k]? = some x → 0 < f x val)
      (last : first = middle → ∃ x, data[first]? = some x ∧ result = f x val) : Landed f data val first middle result

namespace BinaryArray

theorem searchLoop_spec (hf : TotalCompare f) (hs : SortedBy f data) :
    ∀ (n first middle len : Nat) (result : Int), len < n → first + len ≤ data.length →
      (∀ k, k < first → ∀ x, data[k]? = some x → f x val < 0) →
      (∀ k, first + len ≤ k → ∀ x, data[k]? = some x → 0 < f x val) →
      (len = 0 → first = middle → ∃ x, data[first]? = some x ∧ result = f x val) →
      ∃ a b r, searchLoop f data val n first middle len result = some (a, b, r) ∧ Landed f data val a b r := by
  intro n
  induction n with
  | zero => intro first middle len result hn; omega
  | succ n ih =>
    intro first middle len result hn hlen hbelow habove hlast
    rw [searchLoop]
    by_cases hpos : 0 < len
    · obtain ⟨x, hx⟩ := exists_entry data (k := first + len / 2) (by omega)
      simp only [if_pos hpos, hx, Option.bind_eq_bind, Option.bind_some]
      by_cases hlt : f x val < 0
      · rw [if_pos hlt]
        refine ih _ _ _ _ (by omega) (by omega) ?_ ?_ (fun _ h => by omega)
        · intro k hk y hy
          have hyx : f y x ≤ 0 := hs.le_at hf (by omega) hy hx
          exact hf.lt_of_le_of_lt hyx hlt
        · intro k hk y hy
          exact habove k (by omega) y hy
      · rw [if_neg hlt]
        by_cases hz : f x val = 0
        · rw [if_pos hz, hz]
          exact ⟨_, _, _, rfl, .found hx hz⟩
        · rw [if_neg hz]
          refine ih _ _ _ _ (by omega) (by omega) hbelow ?_ ?_
          · intro k hk y hy
            have hxy : f x y ≤ 0 := hs.le_at hf hk hx hy
            have hval : f val x < 0 := (hf.swap val x).mpr (by omega)
            exact (hf.swap val y).mp (hf.lt_of_lt_of_le hval hxy)
          · intro hhalf _
            exact ⟨x, by rw [hhalf, Nat.add_zero] at hx; exact hx, rfl⟩
    · have h0 : len = 0 := by omega
      subst h0
      rw [if_neg hpos]
      exact ⟨_, _, _, rfl, .gap hlen hbelow habove (hlast rfl)⟩

theorem recompare {a b : Nat} {r : Int} {x : α} (hx : data[a]? = some x)
    (hlast : a = b → ∃ x, data[a]? = some x ∧ r = f x val) :
    (if a ≠ b then (data[a]?).map fun x => f x val else some r) = some (f x val) := by
  by_cases hab : a = b
  · obtain ⟨y, hy, rfl⟩ := hlast hab
    rw [hx, Option.some.injEq] at hy
    rw [if_neg (not_not.mpr hab), hy]
  · rw [if_pos hab, hx, Option.map_some]

/-- What an exact search answers: where an entry with the key is, or `-1`. -/
inductive Hit (f : α → α → Int) (data : List α) (val : α) : Int → Prop
  | found {k : Nat} {x : α} (lt : k < 2 ^ 31) (at_k : data[k]? = some x) (equal : f x val = 0) : Hit f data val k
  | missing (absent : ∀ x ∈ data, f x val ≠ 0) : Hit f data val (-1)

/-- What a search for the next entry answers: where the first entry with a larger key is, or `-1`. -/
inductive Next (f : α → α → Int) (data : List α) (val : α) : Int → Prop
  | found {k : Nat} {x : α} (lt : k < 2 ^ 31) (at_k : data[k]? = some x) (larger : 0 < f x val)
      (before : ∀ m, m < k → ∀ y, data[m]? = some y → f y val ≤ 0) : Next f data val k
  | missing (absent : ∀ x ∈ data, f x val ≤ 0) : Next f data val (-1)

theorem settle_exact {a b : Nat} {r : Int} (h : Landed f data val a b r) (hn : data.length ≤ sortable) :
    ∃ index, settle f data val true a b r = some index ∧ Hit f data val index := by
  simp only [sortable] at hn
  cases h with
  | found hk hz =>
    have hlt := (List.getElem?_eq_some_iff.mp hk).1
    rw [settle, if_neg (by omega), if_neg (by simp), Option.bind_eq_bind, Option.bind_some, if_pos rfl,
      if_neg (by decide), toInt_natCast (by omega)]
    exact ⟨a, rfl, .found (by omega) hk hz⟩
  | gap hle hbelow habove hlast =>
    have hnone : ∀ x ∈ data, f x val ≠ 0 := by
      intro x hx
      obtain ⟨k, hk, rfl⟩ := getElem_of_mem hx
      rcases Nat.lt_or_ge k a with h | h
      · exact ne_of_lt (hbelow k h _ (getElem?_eq_getElem hk))
      · exact ne_of_gt (habove k h _ (getElem?_eq_getElem hk))
    rw [settle]
    by_cases hend : data.length ≤ a
    · rw [if_pos hend]
      exact ⟨-1, rfl, .missing hnone⟩
    · obtain ⟨x, hx⟩ := exists_entry data (k := a) (by omega)
      have hne : f x val ≠ 0 := hnone x (mem_of_getElem? hx)
      rw [if_neg hend, recompare hx hlast, Option.bind_eq_bind, Option.bind_some, if_neg hne, if_pos rfl]
      exact ⟨-1, rfl, .missing hnone⟩

theorem settle_next (hf : TotalCompare f) (hs : data.Pairwise fun x y => f x y < 0) {a b : Nat} {r : Int}
    (h : Landed f data val a b r) (hn : data.length ≤ sortable) :
    ∃ index, settle f data val false a b r = some index ∧ Next f data val index := by
  simp only [sortable] at hn
  have hs' : SortedBy f data := hs.imp fun h => le_of_lt h
  cases h with
  | @found x hk hz =>
    have hlt := (List.getElem?_eq_some_iff.mp hk).1
    have hupto : ∀ m, m < a + 1 → ∀ y, data[m]? = some y → f y val ≤ 0 := by
      intro m hm y hy
      exact hf.trans y x val (hs'.le_at hf (by omega) hy hk) (le_of_eq hz)
    rw [settle, if_neg (by omega), if_neg (by simp), Option.bind_eq_bind, Option.bind_some, if_pos rfl, if_pos (by decide)]
    by_cases hend : a + 1 = data.length
    · rw [if_pos hend]
      refine ⟨-1, rfl, .missing ?_⟩
      intro y hy
      obtain ⟨m, hm, rfl⟩ := getElem_of_mem hy
      exact hupto m (by omega) _ (getElem?_eq_getElem hm)
    · obtain ⟨y, hy⟩ := exists_entry data (k := a + 1) (by omega)
      have hxy : f x y < 0 := by
        obtain ⟨h₁, rfl⟩ := List.getElem?_eq_some_iff.mp hk
        obtain ⟨h₂, rfl⟩ := List.getElem?_eq_some_iff.mp hy
        exact (pairwise_iff_getElem.mp hs) a (a + 1) h₁ h₂ (Nat.lt_succ_self a)
      have hvy : f val y < 0 := hf.lt_of_le_of_lt (le_of_eq ((hf.eq_comm x val).mp hz)) hxy
      rw [if_neg hend, toInt_natCast (by omega)]
      exact ⟨_, rfl, .found (by omega) hy ((hf.swap val y).mp hvy) hupto⟩
  | gap hle hbelow habove hlast =>
    rw [settle]
    by_cases hend : data.length ≤ a
    · rw [if_pos hend]
      refine ⟨-1, rfl, .missing ?_⟩
      intro x hx
      obtain ⟨k, hk, rfl⟩ := getElem_of_mem hx
      exact le_of_lt (hbelow k (by omega) _ (getElem?_eq_getElem hk))
    · obtain ⟨x, hx⟩ := exists_entry data (k := a) (by omega)
      have hpos : 0 < f x val := habove a (le_refl a) x hx
      rw [if_neg hend, recompare hx hlast, Option.bind_eq_bind, Option.bind_some, if_neg (ne_of_gt hpos),
        if_neg (by decide), toInt_natCast (by omega)]
      exact ⟨_, rfl, .found (by omega) hx hpos fun m hm y hy => le_of_lt (hbelow m hm y hy)⟩

/-! ## the search on a sorted array -/

theorem binarySearch_spec {c : BinaryArray α} (hc : c.Kept) (hd : c.table.dirty = false) (h0 : c.table.count ≠ 0)
    (val : α) (exact : Bool) : ∃ a b r, Landed c.compare c.table.data val a b r ∧
      binarySearch val c exact = (settle c.compare c.table.data val exact a b r).map fun index => (index, c) := by
  obtain ⟨a, b, r, e, hland⟩ := @searchLoop_spec α c.compare c.table.data val hc.total (hc.sorted hd)
    (c.table.count + 1) 0 0 c.table.count 0 (Nat.lt_succ_self _) (by simp only [Table.count]; omega) (fun k hk => by omega)
    (fun k hk x hx => by
      rw [getElem?_eq_none (by simp only [Table.count] at hk; omega)] at hx
      exact absurd hx (by simp))
    (fun h => absurd h h0)
  refine ⟨a, b, r, hland, ?_⟩
  rw [binarySearch, if_neg h0, if_neg (by rw [hc.sorts]; decide), sortIfDirty_clean hd]
  simp only [Option.bind_eq_bind, Option.bind_some, e]
  cases settle c.compare c.table.data val exact a b r <;> rfl

theorem binarySearch_exact {c : BinaryArray α} (hc : c.Kept) (hd : c.table.dirty = false) (h0 : c.table.count ≠ 0)
    (hn : c.table.count ≤ sortable) (val : α) :
    ∃ index, binarySearch val c true = some (index, c) ∧ Hit c.compare c.table.data val index := by
  obtain ⟨a, b, r, hland, e⟩ := binarySearch_spec hc hd h0 val true
  obtain ⟨index, hi, hhit⟩ := settle_exact hland hn
  exact ⟨index, by rw [e, hi]; rfl, hhit⟩

theorem binarySearch_next {c : BinaryArray α} (hc : c.Kept) (hd : c.table.dirty = false) (h0 : c.table.count ≠ 0)
    (hn : c.table.count ≤ sortable) (hs : c.table.data.Pairwise fun x y => c.compare x y < 0) (val : α) :
    ∃ index, binarySearch val c false = some (index, c) ∧ Next c.compare c.table.data val index := by
  obtain ⟨a, b, r, hland, e⟩ := binarySearch_spec hc hd h0 val false
  obtain ⟨index, hi, hnext⟩ := settle_next hc.total hs hland hn
  exact ⟨index, by rw [e, hi]; rfl, hnext⟩

end BinaryArray

end Priot.Containers
