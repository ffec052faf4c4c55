/-
# The rows of a GETBULK response

Where the entries of the repeating varbinds end up. The name in front of a column is looked for by the number of the
repeater alone, and a row counts as the last one without its last repeater.
-/
import Priot.Agent.Getbulk

namespace Priot.Agent

open Lib List

/-! ## what is meant -/

/-- The entry, or the end of the MIB view under the name in front of it. -/
def endUnder (name : ObjId) (v : VariableList) : VariableList :=
  if Ended v then { name := name, value := .null .endOfMibView } else v

/-- The entries of a repeater, behind the name that it has in the request. -/
def column (name : ObjId) (col : Nat → VariableList) : Nat → VariableList
  | 0 => endUnder name (col 0)
  | j + 1 => endUnder (column name col j).name (col (j + 1))

/-- How many rows there are up to the first one, from row `j` on, that is over; of `n` more if none is. -/
def rowsKept (isOver : Nat → Prop) [DecidablePred isOver] : Nat → Nat → Nat
  | 0, j => j
  | n + 1, j => if isOver j then j + 1 else rowsKept isOver n (j + 1)

/-- From row `j` on, `m` rows with an entry of each repeater. -/
def rowsFrom {β : Type} (e : Nat → Nat → β) (r j m : Nat) : List β :=
  (List.range' j m).flatMap fun j => (List.range' 0 r).map fun i => e i j

/-- The entry of a repeater, counted from 0, in a row. -/
def entryAt (entries : List (Ptr × VariableList)) (repeats i j : Nat) : Ptr × VariableList :=
  entries.getD (i * repeats + j) (0, { name := [], value := .null .null })

/-- The name of a varbind of the request. -/
def BulkSession.origName (asp : BulkSession) (i : Nat) : ObjId := (asp.origVariables[i]?.map VariableList.name).getD []

/-- The response: the varbinds that do not repeat, and the rows up to the first one at the end of the MIB view. -/
def BulkSession.ordered (asp : BulkSession) (nonRep entries : List (Ptr × VariableList)) (n r : Nat) :
    List (Ptr × VariableList) :=
  let e := entryAt entries asp.errindex
  nonRep ++
    rowsFrom (fun i j => ((e i j).1, column (asp.origName (n + i)) (fun j => (e i j).2) j)) r 0
      (rowsKept (fun j => ∀ i < r, Ended (e i j).2) asp.errindex 0)

/-- The varbinds of a GETBULK when they have been answered: those that do not repeat, and behind them the repetitions,
each with a cell of its own. -/
structure Gathered (asp : BulkSession) (heap : Heap VariableList) (head : Option Ptr)
    (nonRep entries : List (Ptr × VariableList)) (n r : Nat) : Prop where
  list : Seg heap head (nonRep ++ entries) none
  nodup : ((nonRep ++ entries).map Prod.fst).Nodup
  cache : asp.bulkcache = entries.map Prod.fst
  size : entries.length = r * asp.errindex
  nonRepeaters : nonRep.length = n
  errstat : asp.errstat = n
  count : asp.vbcount = n + r
  orig : asp.origVariables.length = n + r
  repeaters : 0 < r
  repeats : 0 < asp.errindex

/-! ## cells in columns -/

variable {heap heap' : Heap VariableList} {ptr : Nat → Nat → Ptr} {r k i j : Nat} {nx nx' : Nat → Nat → Option Ptr}
  {d d' : Nat → Nat → VariableList} {x : Option Ptr} {v : VariableList}

theorem index_lt (hi : i < r) (hj : j < k) : i * k + j < r * k := by
  have h : (i + 1) * k ≤ r * k := Nat.mul_le_mul_right k hi
  rw [Nat.add_mul, Nat.one_mul] at h
  omega

theorem index_inj {i' j' : Nat} (hj : j < k) (hj' : j' < k) (h : i * k + j = i' * k + j') : i = i' ∧ j = j' := by
  have hk : 0 < k := Nat.zero_lt_of_lt hj
  have hdiv : ∀ a b, b < k → (a * k + b) / k = a := by
    intro a b hb
    rw [Nat.add_comm, Nat.add_mul_div_right b a hk, Nat.div_eq_of_lt hb, Nat.zero_add]
  have hi : i = i' := by rw [← hdiv i j hj, h, hdiv i' j' hj']
  subst hi
  exact ⟨rfl, Nat.add_left_cancel h⟩

/-- The cells of `r` columns with `k` entries each. -/
def Cells (heap : Heap VariableList) (ptr : Nat → Nat → Ptr) (r k : Nat) (nx : Nat → Nat → Option Ptr)
    (d : Nat → Nat → VariableList) : Prop :=
  ∀ i < r, ∀ j < k, heap (ptr i j) = some ⟨nx i j, d i j⟩

/-- No two entries share a cell. -/
def Apart (ptr : Nat → Nat → Ptr) (r k : Nat) : Prop :=
  ∀ i < r, ∀ j < k, ∀ i' < r, ∀ j' < k, ptr i j = ptr i' j' → i = i' ∧ j = j'

/-- No other cell has changed. -/
def Outside (ptr : Nat → Nat → Ptr) (r k : Nat) (heap heap' : Heap VariableList) : Prop :=
  ∀ p, (∀ i < r, ∀ j < k, p ≠ ptr i j) → heap' p = heap p

theorem Outside.refl (ptr : Nat → Nat → Ptr) (r k : Nat) (heap : Heap VariableList) : Outside ptr r k heap heap :=
  fun _ _ => rfl

theorem Outside.trans {heap'' : Heap VariableList} (h : Outside ptr r k heap heap')
    (h' : Outside ptr r k heap' heap'') : Outside ptr r k heap heap'' :=
  fun p hp => (h' p hp).trans (h p hp)

theorem Outside.update (ho : Outside ptr r k heap heap') (hi : i < r) (hj : j < k) (c : Option (Cell VariableList)) :
    Outside ptr r k heap (Function.update heap' (ptr i j) c) := by
  intro p hp
  rw [Function.update_of_ne (hp i hi j hj)]
  exact ho p hp

theorem Cells.congr (hc : Cells heap ptr r k nx d)
    (h : ∀ i < r, ∀ j < k, nx' i j = nx i j ∧ d' i j = d i j) : Cells heap ptr r k nx' d' := by
  intro i hi j hj
  rw [(h i hi j hj).1, (h i hi j hj).2]
  exact hc i hi j hj

theorem Cells.update (hc : Cells heap ptr r k nx d) (ha : Apart ptr r k) (hi : i < r) (hj : j < k)
    (hhere : nx' i j = x ∧ d' i j = v)
    (helse : ∀ i' < r, ∀ j' < k, ¬ (i' = i ∧ j' = j) → nx' i' j' = nx i' j' ∧ d' i' j' = d i' j') :
    Cells (Function.update heap (ptr i j) (some ⟨x, v⟩)) ptr r k nx' d' := by
  intro i' hi' j' hj'
  by_cases h : i' = i ∧ j' = j
  · obtain ⟨rfl, rfl⟩ := h
    rw [Function.update_self, hhere.1, hhere.2]
  · have hne : ptr i' j' ≠ ptr i j := fun heq => h (ha i' hi' j' hj' i hi j hj heq)
    rw [Function.update_of_ne hne, (helse i' hi' j' hj' h).1, (helse i' hi' j' hj' h).2]
    exact hc i' hi' j' hj'

/-! ## the loops of the code -/

variable {asp : BulkSession}

/-- `bulkcache` has the cells of the entries, column by column. -/
def BulkSession.Caches (asp : BulkSession) (ptr : Nat → Nat → Ptr) (r : Nat) : Prop :=
  ∀ i < r, ∀ j < asp.errindex, asp.bulkcache[i * asp.errindex + j]? = some (ptr i j)

theorem fixEntry_none {orig : List VariableList} {o : VariableList} (ho : orig[i]? = some o) (v : VariableList) :
    fixEntry orig i none v = endUnder o.name v := by
  rw [fixEntry, endUnder, ho]
  rfl

theorem fixEntry_some (orig : List VariableList) (i : Nat) (prev v : VariableList) :
    fixEntry orig i (some prev) v = endUnder prev.name v := rfl

theorem BulkSession.origName_eq {o : VariableList} (ho : asp.origVariables[i]? = some o) : asp.origName i = o.name := by
  rw [origName, ho]
  rfl

theorem BulkSession.fixColumn_spec (hcache : asp.Caches ptr r) (ha : Apart ptr r asp.errindex)
    (hi : i < r) (horig : r ≤ asp.origVariables.length) (hc : Cells heap ptr r asp.errindex nx
      fun i' j' => if i' < i then column (asp.origName i') (d i') j' else d i' j') :
    ∃ heap', asp.fixColumn i heap = some heap' ∧ Outside ptr r asp.errindex heap heap' ∧
      Cells heap' ptr r asp.errindex nx
        fun i' j' => if i' < i + 1 then column (asp.origName i') (d i') j' else d i' j' := by
  obtain ⟨o, ho⟩ : ∃ o, asp.origVariables[i]? = some o :=
    ⟨_, getElem?_eq_getElem (Nat.lt_of_lt_of_le hi horig)⟩
  let Inv : Nat → Heap VariableList × Option VariableList → Prop := fun j st =>
    Cells st.1 ptr r asp.errindex nx
      (fun i' j' => if i' < i ∨ (i' = i ∧ j' < j) then column (asp.origName i') (d i') j' else d i' j') ∧
    Outside ptr r asp.errindex heap st.1 ∧
    st.2 = if j = 0 then none else some (column (asp.origName i) (d i) (j - 1))
  have hround : ∀ j st, j < asp.errindex → Inv j st → ∃ st', asp.fixRound i j st = some st' ∧ Inv (j + 1) st' := by
    rintro j ⟨heap₁, prev⟩ hj ⟨hcells, hout, hprev⟩
    have hcell := hcells i hi j hj
    simp only [Nat.lt_irrefl, and_false, or_false, if_false] at hcell
    -- the entry in front of it has been fixed already
    have hfix : fixEntry asp.origVariables i prev (d i j) = column (asp.origName i) (d i) j := by
      cases j with
      | zero =>
        have hnone : prev = none := hprev
        rw [hnone, fixEntry_none ho, column, origName_eq ho]
      | succ j =>
        have hsome : prev = some (column (asp.origName i) (d i) j) := hprev
        rw [hsome, fixEntry_some, column]
    refine ⟨(Function.update heap₁ (ptr i j) (some ⟨nx i j, column (asp.origName i) (d i) j⟩),
      some (column (asp.origName i) (d i) j)), ?_,
      hcells.update ha hi hj ⟨rfl, ?_⟩ fun i' _ j' _ hne => ⟨rfl, ?_⟩, hout.update hi hj _, ?_⟩
    · simp only [fixRound, hcache i hi j hj, hcell, hfix, Option.bind_eq_bind, Option.bind_some]
    · exact if_pos (Or.inr ⟨rfl, Nat.lt_succ_self j⟩)
    · by_cases hlt : i' < i ∨ (i' = i ∧ j' < j)
      · rw [if_pos hlt, if_pos (by omega)]
      · rw [if_neg hlt, if_neg (by omega)]
    · rw [if_neg (Nat.succ_ne_zero j), Nat.add_sub_cancel]
  have hfirst : Inv 0 (heap, none) :=
    ⟨hc.congr fun i' _ j' _ => ⟨rfl, by simp⟩, Outside.refl ptr r _ heap, rfl⟩
  obtain ⟨st, e, hcells, hout, -⟩ := forLoop_spec Inv hfirst hround
  refine ⟨st.1, ?_, hout, hcells.congr fun i' _ j' hj' => ⟨rfl, ?_⟩⟩
  · rw [fixColumn, e]
    rfl
  · by_cases hlt : i' < i + 1
    · rw [if_pos hlt, if_pos (by omega)]
    · rw [if_neg hlt, if_neg (by omega)]

theorem BulkSession.fixColumns_spec (hcache : asp.Caches ptr r) (ha : Apart ptr r asp.errindex)
    (horig : r ≤ asp.origVariables.length) (hc : Cells heap ptr r asp.errindex nx d) :
    ∃ heap', forLoop r asp.fixColumn heap = some heap' ∧ Outside ptr r asp.errindex heap heap' ∧
      Cells heap' ptr r asp.errindex nx fun i => column (asp.origName i) (d i) := by
  obtain ⟨heap', e, hout, hcells⟩ := forLoop_spec (f := asp.fixColumn)
    (fun i heap' => Outside ptr r asp.errindex heap heap' ∧ Cells heap' ptr r asp.errindex nx
      fun i' j' => if i' < i then column (asp.origName i') (d i') j' else d i' j')
    ⟨Outside.refl ptr r _ heap, hc.congr fun i' _ j' _ => ⟨rfl, if_neg (Nat.not_lt_zero i')⟩⟩
    (fun i heap₁ hi h => by
      obtain ⟨heap₂, e, hout, hcells⟩ := fixColumn_spec hcache ha hi horig h.2
      exact ⟨heap₂, e, h.1.trans hout, hcells⟩)
  exact ⟨heap', e, hout, hcells.congr fun i' hi' j' _ => ⟨rfl, (if_pos hi').symm⟩⟩

theorem BulkSession.linkTo_spec {m m' : Nat} {p q : Ptr} (hm : asp.bulkcache[m]? = some p)
    (hm' : asp.bulkcache[m']? = some q) (hp : heap p = some ⟨x, v⟩) :
    asp.linkTo m m' heap = some (Function.update heap p (some ⟨some q, v⟩)) := by
  simp only [linkTo, hm, hm', hp, Option.bind_eq_bind, Option.bind_some]

theorem BulkSession.linkColumn_spec (hcache : asp.Caches ptr r) (ha : Apart ptr r asp.errindex) (hi : i + 1 < r)
    (hc : Cells heap ptr r asp.errindex (fun i' j' => if i' < i then some (ptr (i' + 1) j') else nx i' j') d) :
    ∃ heap', asp.linkColumn i heap = some heap' ∧ Outside ptr r asp.errindex heap heap' ∧
      Cells heap' ptr r asp.errindex (fun i' j' => if i' < i + 1 then some (ptr (i' + 1) j') else nx i' j') d := by
  have hi₀ : i < r := Nat.lt_of_succ_lt hi
  obtain ⟨heap', e, hout, hcells⟩ := forLoop_spec
    (f := fun j => asp.linkTo (i * asp.errindex + j) ((i + 1) * asp.errindex + j))
    (fun j heap' => Outside ptr r asp.errindex heap heap' ∧ Cells heap' ptr r asp.errindex
      (fun i' j' => if i' < i ∨ (i' = i ∧ j' < j) then some (ptr (i' + 1) j') else nx i' j') d)
    ⟨Outside.refl ptr r _ heap, hc.congr fun i' _ j' _ => ⟨by simp, rfl⟩⟩
    (fun j heap₁ hj h => by
      refine ⟨_, linkTo_spec (hcache i hi₀ j hj) (hcache (i + 1) hi j hj) (h.2 i hi₀ j hj), h.1.update hi₀ hj _, ?_⟩
      refine h.2.update ha hi₀ hj ⟨if_pos (Or.inr ⟨rfl, Nat.lt_succ_self j⟩), rfl⟩ fun i' _ j' _ hne => ⟨?_, rfl⟩
      by_cases hlt : i' < i ∨ (i' = i ∧ j' < j)
      · rw [if_pos hlt, if_pos (by omega)]
      · rw [if_neg hlt, if_neg (by omega)])
  refine ⟨heap', e, hout, hcells.congr fun i' _ j' hj' => ⟨?_, rfl⟩⟩
  by_cases hlt : i' < i + 1
  · rw [if_pos hlt, if_pos (by omega)]
  · rw [if_neg hlt, if_neg (by omega)]

/-- Where a row starts, if there is one. -/
def rowStart (ptr : Nat → Nat → Ptr) (k j : Nat) : Option Ptr := if j < k then some (ptr 0 j) else none

/-- What is behind an entry when the entries are in rows. -/
def behind (ptr : Nat → Nat → Ptr) (r k i j : Nat) : Option Ptr :=
  if i + 1 < r then some (ptr (i + 1) j) else rowStart ptr k (j + 1)

theorem BulkSession.links_spec (hcache : asp.Caches ptr r) (ha : Apart ptr r asp.errindex) (hr : 0 < r)
    (hk : 0 < asp.errindex) (hlast : nx (r - 1) (asp.errindex - 1) = none) (hc : Cells heap ptr r asp.errindex nx d) :
    ∃ heap₁ heap', forLoop (r - 1) asp.linkColumn heap = some heap₁ ∧
      forLoop (asp.errindex - 1) (fun j => asp.linkTo ((r - 1) * asp.errindex + j) (j + 1)) heap₁ = some heap' ∧
      Outside ptr r asp.errindex heap heap' ∧ Cells heap' ptr r asp.errindex (behind ptr r asp.errindex) d := by
  obtain ⟨heap₁, e₁, hout₁, hcells₁⟩ := forLoop_spec (n := r - 1) (f := asp.linkColumn)
    (fun i heap' => Outside ptr r asp.errindex heap heap' ∧ Cells heap' ptr r asp.errindex
      (fun i' j' => if i' < i then some (ptr (i' + 1) j') else nx i' j') d)
    ⟨Outside.refl ptr r _ heap, hc.congr fun i' _ j' _ => ⟨if_neg (Nat.not_lt_zero i'), rfl⟩⟩
    (fun i heap₁ hi h => by
      obtain ⟨heap₂, e, hout, hcells⟩ := linkColumn_spec hcache ha (Nat.add_lt_of_lt_sub hi) h.2
      exact ⟨heap₂, e, h.1.trans hout, hcells⟩)
  have hr₁ : r - 1 < r := Nat.sub_lt hr Nat.one_pos
  obtain ⟨heap', e', hout', hcells'⟩ := forLoop_spec (n := asp.errindex - 1)
    (f := fun j => asp.linkTo ((r - 1) * asp.errindex + j) (j + 1))
    (fun j heap' => Outside ptr r asp.errindex heap heap' ∧ Cells heap' ptr r asp.errindex
      (fun i' j' => if i' < r - 1 then some (ptr (i' + 1) j')
        else if j' < j then some (ptr 0 (j' + 1)) else nx i' j') d)
    ⟨hout₁, hcells₁.congr fun i' _ j' _ => ⟨by rw [if_neg (Nat.not_lt_zero j')], rfl⟩⟩
    (fun j heap₁ hj h => by
      have hj₀ : j + 1 < asp.errindex := Nat.add_lt_of_lt_sub hj
      have hnext : asp.bulkcache[j + 1]? = some (ptr 0 (j + 1)) := by
        rw [← hcache 0 hr (j + 1) hj₀, Nat.zero_mul, Nat.zero_add]
      refine ⟨_, linkTo_spec (hcache _ hr₁ j (Nat.lt_of_succ_lt hj₀)) hnext (h.2 _ hr₁ j (Nat.lt_of_succ_lt hj₀)),
        h.1.update hr₁ (Nat.lt_of_succ_lt hj₀) _, ?_⟩
      refine h.2.update ha hr₁ (Nat.lt_of_succ_lt hj₀) ⟨?_, rfl⟩ fun i' hi' j' _ hne => ⟨?_, rfl⟩
      · rw [if_neg (Nat.lt_irrefl _), if_pos (Nat.lt_succ_self j)]
      · by_cases hlt : i' < r - 1
        · rw [if_pos hlt, if_pos hlt]
        · have hj' : j' < j + 1 ↔ j' < j := by omega
          simp only [hlt, hj'])
  refine ⟨heap₁, heap', e₁, e', hout', hcells'.congr fun i' hi' j' hj' => ⟨?_, rfl⟩⟩
  rw [behind, rowStart]
  by_cases hlt : i' < r - 1
  · rw [if_pos hlt, if_pos (Nat.add_lt_of_lt_sub hlt)]
  · rw [if_neg hlt, if_neg (by omega)]
    by_cases hj : j' < asp.errindex - 1
    · rw [if_pos hj, if_pos (Nat.add_lt_of_lt_sub hj)]
    · -- the very last entry
      obtain rfl : i' = r - 1 := by omega
      obtain rfl : j' = asp.errindex - 1 := by omega
      rw [if_neg hj, if_neg (by omega), hlast]

/-! ## rows of cells -/

section Rows

variable {β γ : Type} (e : Nat → Nat → β) (m : Nat)

theorem rowsFrom_succ (r j m : Nat) :
    rowsFrom e r j (m + 1) = ((List.range' 0 r).map fun i => e i j) ++ rowsFrom e r (j + 1) m := by
  rw [rowsFrom, range'_succ, flatMap_cons, rowsFrom]

theorem map_rowsFrom (f : β → γ) (r j : Nat) : (rowsFrom e r j m).map f = rowsFrom (fun i j => f (e i j)) r j m := by
  rw [rowsFrom, map_flatMap]
  simp only [map_map, Function.comp_def]
  rfl

theorem length_rowsFrom (r j : Nat) : (rowsFrom e r j m).length = m * r := by
  induction m generalizing j with
  | zero => rw [Nat.zero_mul]; rfl
  | succ m ih =>
    rw [rowsFrom_succ, length_append, length_map, length_range', ih, Nat.succ_mul, Nat.add_comm]

theorem mem_rowsFrom {b : β} {r j : Nat} :
    b ∈ rowsFrom e r j m ↔ ∃ j', (j ≤ j' ∧ j' < j + m) ∧ ∃ i < r, e i j' = b := by
  simp only [rowsFrom, mem_flatMap, mem_map, mem_range'_1, Nat.zero_le, true_and, Nat.zero_add]

theorem rowsFrom_congr {e' : Nat → Nat → β} {r j : Nat} (h : ∀ i < r, ∀ j' < j + m, e i j' = e' i j') :
    rowsFrom e r j m = rowsFrom e' r j m := by
  rw [rowsFrom, rowsFrom]
  refine flatMap_congr fun j' hj' => map_congr_left fun i hi => ?_
  rw [mem_range'_1] at hj' hi
  exact h i (by omega) j' hj'.2

end Rows

theorem Apart.nodup_rowsFrom (ha : Apart ptr r k) (m j : Nat) (hj : j + m ≤ k) : (rowsFrom ptr r j m).Nodup := by
  rw [rowsFrom, nodup_flatMap]
  constructor
  · intro j' hj'
    rw [mem_range'_1] at hj'
    refine List.Nodup.map_on (fun i hi i' hi' heq => ?_) nodup_range'
    rw [mem_range'_1] at hi hi'
    exact (ha i (by omega) j' (by omega) i' (by omega) j' (by omega) heq).1
  · refine List.Pairwise.imp_of_mem ?_ (nodup_range' (s := j) (n := m))
    intro j₁ j₂ h₁ h₂ hne p hp₁ hp₂
    obtain ⟨i₁, hi₁, rfl⟩ := mem_map.mp hp₁
    obtain ⟨i₂, hi₂, heq⟩ := mem_map.mp hp₂
    rw [mem_range'_1] at h₁ h₂ hi₁ hi₂
    exact hne (ha i₁ (by omega) j₁ (by omega) i₂ (by omega) j₂ (by omega) heq.symm).2

theorem Cells.row_seg (hc : Cells heap ptr r k (behind ptr r k) d) (hj : j < k) : ∀ m i, i + (m + 1) = r →
      Seg heap (some (ptr i j)) ((List.range' i (m + 1)).map fun i => (ptr i j, d i j)) (rowStart ptr k (j + 1)) := by
  intro m
  induction m with
  | zero =>
    intro i hi
    refine ⟨rfl, _, hc i (by omega) j hj, ?_⟩
    show behind ptr r k i j = _
    rw [behind, if_neg (by omega)]
  | succ m ih =>
    intro i hi
    refine ⟨rfl, _, hc i (by omega) j hj, ?_⟩
    rw [behind, if_pos (by omega)]
    exact ih (i + 1) (by omega)

theorem Cells.rows_seg (hc : Cells heap ptr r k (behind ptr r k) d) (hr : 0 < r) :
    ∀ m j, j + m = k → Seg heap (rowStart ptr k j) (rowsFrom (fun i j => (ptr i j, d i j)) r j m) none := by
  intro m
  induction m with
  | zero =>
    intro j hj
    show rowStart ptr k j = none
    rw [rowStart, if_neg (by omega)]
  | succ m ih =>
    intro j hj
    have hrow := hc.row_seg (j := j) (by omega) (r - 1) 0 (by omega)
    rw [Nat.sub_add_cancel hr] at hrow
    rw [rowsFrom_succ, rowStart, if_pos (by omega)]
    exact seg_append.mpr ⟨_, hrow, ih (j + 1) (by omega)⟩

/-! ## where the rows end -/

theorem BulkSession.freeVarbind_spec {a : Option Ptr} {l : List (Ptr × VariableList)} {n : Nat}
    (hseg : Seg heap a l none) (hnodup : (l.map Prod.fst).Nodup) (hn : l.length ≤ n) :
    ∃ heap', freeVarbind n a heap = some heap' ∧ ∀ p ∉ l.map Prod.fst, heap' p = heap p := by
  induction l generalizing heap a n with
  | nil =>
    obtain rfl : a = none := hseg
    exact ⟨heap, by unfold freeVarbind; rfl, fun _ _ => rfl⟩
  | cons x l ih =>
    obtain ⟨p, d⟩ := x
    obtain ⟨rfl, next, hp, hseg⟩ := hseg
    obtain ⟨hnot, hnodup⟩ := nodup_cons.mp hnodup
    obtain ⟨n, rfl⟩ : ∃ m, n = m + 1 := Nat.exists_eq_add_of_lt (Nat.zero_lt_of_lt hn) |>.imp fun m hm => by omega
    obtain ⟨heap', e, hframe⟩ := ih (hseg.update hnot none) hnodup (Nat.le_of_succ_le_succ hn)
    refine ⟨heap', ?_, fun q hq => ?_⟩
    · simp only [freeVarbind, hp, Option.bind_eq_bind, Option.bind_some, e]
    · rw [map_cons, mem_cons, not_or] at hq
      rw [hframe q hq.2, Function.update_of_ne hq.1]

/-- Whether the code sees the end of the MIB view in a row: it does not look at the last of several repeaters. -/
def SeenOver (d : Nat → Nat → VariableList) (r j : Nat) : Prop :=
  ∀ i < max (r - 1) 1, (d i j).value.type = PRIOT_ENDOFMIBVIEW

instance (d : Nat → Nat → VariableList) (r : Nat) : DecidablePred (SeenOver d r) :=
  fun j => inferInstanceAs (Decidable (∀ i < max (r - 1) 1, (d i j).value.type = PRIOT_ENDOFMIBVIEW))

theorem BulkSession.rowEnd_spec (hc : Cells heap ptr r k (behind ptr r k) d) (hj : j < k) :
    ∀ m i, i + m + 1 = r → rowEnd heap m (ptr i j) =
      some (if ∀ i', i ≤ i' → i' < i + m → (d i' j).value.type = PRIOT_ENDOFMIBVIEW then some (ptr (r - 1) j)
        else none) := by
  intro m
  induction m with
  | zero =>
    intro i hi
    obtain rfl : i = r - 1 := by omega
    rw [rowEnd, if_pos]
    intro i' h h'
    exact absurd h' (Nat.not_lt.mpr h)
  | succ m ih =>
    intro i hi
    have hcell := hc i (by omega) j hj
    rw [behind, if_pos (by omega)] at hcell
    simp only [rowEnd, hcell, Option.bind_eq_bind, Option.bind_some]
    by_cases hv : (d i j).value.type = PRIOT_ENDOFMIBVIEW
    · rw [if_neg (not_not_intro hv), ih (i + 1) (by omega)]
      congr 1
      refine if_congr ⟨fun h i' h₁ h₂ => ?_, fun h i' h₁ h₂ => h i' (by omega) (by omega)⟩ rfl rfl
      rcases Nat.eq_or_lt_of_le h₁ with rfl | h₁
      · exact hv
      · exact h i' h₁ (by omega)
    · rw [if_pos hv, if_neg fun h => hv (h i (Nat.le_refl i) (by omega))]

theorem BulkSession.endAt_spec (hlen : asp.bulkcache.length = r * asp.errindex) (ha : Apart ptr r asp.errindex)
    (hr : 0 < r) (hj : j < asp.errindex) (hc : Cells heap ptr r asp.errindex (behind ptr r asp.errindex) d) :
    ∃ heap', asp.endAt (ptr (r - 1) j) heap = some heap' ∧ Outside ptr r asp.errindex heap heap' ∧
      Cells heap' ptr r (j + 1) (behind ptr r (j + 1)) d := by
  have hr₁ : r - 1 < r := Nat.sub_lt hr Nat.one_pos
  have hcell := hc (r - 1) hr₁ j hj
  have hnext : behind ptr r asp.errindex (r - 1) j = rowStart ptr asp.errindex (j + 1) := if_neg (by omega)
  rw [hnext] at hcell
  let rest := rowsFrom (fun i j => (ptr i j, d i j)) r (j + 1) (asp.errindex - (j + 1))
  have hrest : rest.map Prod.fst = rowsFrom ptr r (j + 1) (asp.errindex - (j + 1)) := map_rowsFrom _ _ _ _ _
  have hnodup : (rest.map Prod.fst).Nodup := by
    rw [hrest]
    exact ha.nodup_rowsFrom _ _ (by omega)
  have hle : rest.length ≤ asp.bulkcache.length := by
    rw [length_rowsFrom, hlen, Nat.mul_comm]
    exact Nat.mul_le_mul_left r (Nat.sub_le _ _)
  obtain ⟨heap₁, e₁, hframe⟩ := freeVarbind_spec (hc.rows_seg hr _ (j + 1) (by omega)) hnodup hle
  have hstays : ∀ i < r, ∀ j' ≤ j, heap₁ (ptr i j') = heap (ptr i j') := by
    intro i hi j' hj'
    refine hframe _ fun hmem => ?_
    rw [hrest, mem_rowsFrom] at hmem
    obtain ⟨j₂, hj₂, i₂, hi₂, heq⟩ := hmem
    have := (ha i₂ hi₂ j₂ (by omega) i hi j' (by omega) heq).2
    omega
  refine ⟨Function.update heap₁ (ptr (r - 1) j) (some ⟨none, d (r - 1) j⟩), ?_, ?_, ?_⟩
  · simp only [endAt, hcell, e₁, hstays (r - 1) hr₁ j (Nat.le_refl j), Option.bind_eq_bind, Option.bind_some]
  · refine Outside.update ?_ hr₁ hj _
    intro p hp
    refine hframe p fun hmem => ?_
    rw [hrest, mem_rowsFrom] at hmem
    obtain ⟨j₂, hj₂, i₂, hi₂, rfl⟩ := hmem
    exact hp i₂ hi₂ j₂ (by omega) rfl
  · have hbefore : Cells heap₁ ptr r (j + 1) (behind ptr r asp.errindex) d := by
      intro i' hi' j' hj'
      rw [hstays i' hi' j' (Nat.le_of_lt_succ hj')]
      exact hc i' hi' j' (by omega)
    refine hbefore.update (fun i hi j' hj' i' hi' j₂ hj₂ => ha i hi j' (by omega) i' hi' j₂ (by omega)) hr₁
      (Nat.lt_succ_self j) ⟨?_, rfl⟩ fun i' hi' j' hj' hne => ⟨?_, rfl⟩
    · rw [behind, rowStart, if_neg (by omega), if_neg (Nat.lt_irrefl _)]
    · rw [behind, behind]
      by_cases hi₁ : i' + 1 < r
      · rw [if_pos hi₁, if_pos hi₁]
      · rw [if_neg hi₁, if_neg hi₁, rowStart, rowStart, if_pos (by omega), if_pos (by omega)]

theorem rowsKept_le (isOver : Nat → Prop) [DecidablePred isOver] (n j : Nat) :
    j ≤ rowsKept isOver n j ∧ rowsKept isOver n j ≤ j + n := by
  induction n generalizing j with
  | zero => exact ⟨Nat.le_refl j, Nat.le_refl j⟩
  | succ n ih =>
    rw [rowsKept]
    split
    · omega
    · have := ih (j + 1)
      omega

theorem BulkSession.truncate_spec (hcache : asp.Caches ptr r) (hlen : asp.bulkcache.length = r * asp.errindex)
    (ha : Apart ptr r asp.errindex) (hr : 0 < r) (hc : Cells heap ptr r asp.errindex (behind ptr r asp.errindex) d) :
    ∀ m j, j + m = asp.errindex → ∃ heap', asp.truncate r m j heap = some heap' ∧
      Outside ptr r asp.errindex heap heap' ∧
      Cells heap' ptr r (rowsKept (SeenOver d r) m j) (behind ptr r (rowsKept (SeenOver d r) m j)) d := by
  intro m
  induction m with
  | zero =>
    intro j hj
    obtain rfl : j = asp.errindex := hj
    exact ⟨heap, rfl, Outside.refl ptr r _ heap, hc⟩
  | succ m ih =>
    intro j hj
    have hj₀ : j < asp.errindex := by omega
    have hfirst : asp.bulkcache[j]? = some (ptr 0 j) := by
      rw [← hcache 0 hr j hj₀, Nat.zero_mul, Nat.zero_add]
    have hend := rowEnd_spec hc hj₀ (r - 1) 0 (by omega)
    -- the first entry of the row is looked at twice if there are others
    have hseen : SeenOver d r j ↔ (d 0 j).value.type = PRIOT_ENDOFMIBVIEW ∧
        ∀ i', 0 ≤ i' → i' < 0 + (r - 1) → (d i' j).value.type = PRIOT_ENDOFMIBVIEW := by
      constructor
      · intro h
        exact ⟨h 0 (by omega), fun i' _ hi' => h i' (by omega)⟩
      · rintro ⟨h₀, h⟩ i hi
        rcases Nat.eq_zero_or_pos i with rfl | hpos
        · exact h₀
        · exact h i (Nat.zero_le i) (by omega)
    simp only [truncate, hfirst, hc 0 hr j hj₀, hend, Option.bind_eq_bind, Option.bind_some, rowsKept]
    by_cases hover : SeenOver d r j
    · obtain ⟨h₀, h⟩ := hseen.mp hover
      rw [if_pos h₀, if_pos h, if_pos hover]
      exact endAt_spec hlen ha hr hj₀ hc
    · rw [if_neg hover]
      by_cases h₀ : (d 0 j).value.type = PRIOT_ENDOFMIBVIEW
      · rw [if_pos h₀, if_neg fun h => hover (hseen.mpr ⟨h₀, h⟩)]
        exact ih (j + 1) (by omega)
      · rw [if_neg h₀]
        exact ih (j + 1) (by omega)

/-! ## the whole list -/

variable {head : Option Ptr} {nonRep entries : List (Ptr × VariableList)} {n : Nat}

theorem endUnder_type (name : ObjId) (v : VariableList) :
    (endUnder name v).value.type = PRIOT_ENDOFMIBVIEW ↔ Ended v := by
  rw [endUnder]
  split
  · next h => exact iff_of_true rfl h
  · next h => exact iff_of_false (fun htype => h (Or.inr htype)) h

theorem column_type (name : ObjId) (col : Nat → VariableList) (j : Nat) :
    (column name col j).value.type = PRIOT_ENDOFMIBVIEW ↔ Ended (col j) := by
  cases j with
  | zero => exact endUnder_type _ _
  | succ j => exact endUnder_type _ _

theorem rowsKept_congr {isOver isOver' : Nat → Prop} [DecidablePred isOver] [DecidablePred isOver']
    (h : ∀ j, isOver j ↔ isOver' j) (n j : Nat) : rowsKept isOver n j = rowsKept isOver' n j := by
  induction n generalizing j with
  | zero => rfl
  | succ n ih => rw [rowsKept, rowsKept, ih, if_congr (h j) rfl rfl]

theorem rowsKept_pos (isOver : Nat → Prop) [DecidablePred isOver] {n : Nat} (hn : 0 < n) : 0 < rowsKept isOver n 0 := by
  obtain ⟨n, rfl⟩ := Nat.exists_eq_add_one_of_ne_zero (Nat.ne_of_gt hn)
  rw [rowsKept]
  split
  · exact Nat.one_pos
  · exact (rowsKept_le isOver n 1).1

/-- The list as the code leaves it. -/
def BulkSession.linked (asp : BulkSession) (nonRep entries : List (Ptr × VariableList)) (r : Nat) :
    List (Ptr × VariableList) :=
  let e := entryAt entries asp.errindex
  nonRep ++
    rowsFrom (fun i j => ((e i j).1, column (asp.origName i) (fun j => (e i j).2) j)) r 0
      (rowsKept (fun j => ∀ i < max (r - 1) 1, Ended (e i j).2) asp.errindex 0)

namespace Gathered

variable (hg : Gathered asp heap head nonRep entries n r)

include hg

theorem entry_getElem? (hi : i < r) (hj : j < asp.errindex) :
    entries[i * asp.errindex + j]? = some (entryAt entries asp.errindex i j) := by
  have hlt : i * asp.errindex + j < entries.length := by
    rw [hg.size]
    exact index_lt hi hj
  rw [entryAt, getD_eq_getElem?_getD, getElem?_eq_getElem hlt, Option.getD_some]

theorem caches : asp.Caches (fun i j => (entryAt entries asp.errindex i j).1) r := by
  intro i hi j hj
  rw [hg.cache, getElem?_map, hg.entry_getElem? hi hj, Option.map_some]

theorem apart : Apart (fun i j => (entryAt entries asp.errindex i j).1) r asp.errindex := by
  intro i hi j hj i' hi' j' hj' heq
  have hn := hg.nodup
  rw [map_append] at hn
  have hlt : i * asp.errindex + j < (entries.map Prod.fst).length := by
    rw [length_map, hg.size]
    exact index_lt hi hj
  refine index_inj hj hj' ((getElem?_inj hlt (nodup_append.mp hn).2.1).mp ?_)
  rw [getElem?_map, getElem?_map, hg.entry_getElem? hi hj, hg.entry_getElem? hi' hj']
  exact congrArg some heq

theorem cells : ∃ nx, nx (r - 1) (asp.errindex - 1) = none ∧
    Cells heap (fun i j => (entryAt entries asp.errindex i j).1) r asp.errindex nx
      (fun i j => (entryAt entries asp.errindex i j).2) := by
  obtain ⟨c, -, hseg⟩ := seg_append.mp hg.list
  refine ⟨fun i j => (heap (entryAt entries asp.errindex i j).1).bind Cell.next, ?_, fun i hi j hj => ?_⟩
  · have hlast : entries.length - 1 = (r - 1) * asp.errindex + (asp.errindex - 1) := by
      obtain ⟨r', rfl⟩ := Nat.exists_eq_add_one_of_ne_zero (Nat.ne_of_gt hg.repeaters)
      have := hg.repeats
      rw [hg.size, Nat.add_sub_cancel, Nat.succ_mul]
      omega
    have hget := hg.entry_getElem? (Nat.sub_lt hg.repeaters Nat.one_pos) (Nat.sub_lt hg.repeats Nat.one_pos)
    rw [← hlast, ← getLast?_eq_getElem?] at hget
    show (heap (entryAt entries asp.errindex (r - 1) (asp.errindex - 1)).1).bind Cell.next = none
    generalize entryAt entries asp.errindex (r - 1) (asp.errindex - 1) = x at hget
    obtain ⟨init, hsplit⟩ := getLast?_eq_some_iff.mp hget
    rw [hsplit] at hseg
    obtain ⟨c', -, -, next, hp, hend⟩ := seg_append.mp hseg
    obtain rfl : next = none := hend
    rw [hp, Option.bind_some]
  · obtain ⟨next, hp⟩ := hseg.mem_heap (mem_of_getElem? (hg.entry_getElem? hi hj))
    show heap (entryAt entries asp.errindex i j).1 =
      some ⟨(heap (entryAt entries asp.errindex i j).1).bind Cell.next, (entryAt entries asp.errindex i j).2⟩
    rw [hp, Option.bind_some]

theorem reorder : ∃ heap', asp.reorderGetbulk heap = some heap' ∧ Seg heap' head (asp.linked nonRep entries r) none := by
  let ptr : Nat → Nat → Ptr := fun i j => (entryAt entries asp.errindex i j).1
  let fixed : Nat → Nat → VariableList :=
    fun i => column (asp.origName i) fun j => (entryAt entries asp.errindex i j).2
  have horig : r ≤ asp.origVariables.length := by
    rw [hg.orig]
    exact Nat.le_add_left r n
  have hlen : asp.bulkcache.length = r * asp.errindex := by rw [hg.cache, length_map, hg.size]
  obtain ⟨nx, hlast, hcells⟩ := hg.cells
  obtain ⟨heap₁, e₁, hout₁, hcells₁⟩ := BulkSession.fixColumns_spec hg.caches hg.apart horig hcells
  obtain ⟨heap₂, heap₃, e₂, e₃, hout₃, hcells₃⟩ :=
    BulkSession.links_spec hg.caches hg.apart hg.repeaters hg.repeats hlast hcells₁
  obtain ⟨heap₄, e₄, hout₄, hcells₄⟩ :=
    BulkSession.truncate_spec hg.caches hlen hg.apart hg.repeaters hcells₃ asp.errindex 0 (Nat.zero_add _)
  have hkept : rowsKept (SeenOver fixed r) asp.errindex 0 =
      rowsKept (fun j => ∀ i < max (r - 1) 1, Ended (entryAt entries asp.errindex i j).2) asp.errindex 0 :=
    rowsKept_congr (fun j => forall₂_congr fun i _ => column_type _ _ j) _ _
  refine ⟨heap₄, ?_, seg_append.mpr ⟨some (ptr 0 0), ?_, ?_⟩⟩
  · have hn : (if asp.errstat < asp.vbcount then asp.errstat else asp.vbcount) = n := by
      have := hg.repeaters
      rw [hg.errstat, hg.count, if_pos (by omega)]
    have hr : asp.vbcount - n = r := by rw [hg.count, Nat.add_sub_cancel_left]
    have hpos := hg.repeaters
    simp only [BulkSession.reorderGetbulk, hn, hr, e₁, e₂, e₃, e₄, Option.bind_eq_bind, Option.bind_some]
    rw [if_neg (by rw [hg.count]; omega), if_neg (by omega)]
  · -- the varbinds that do not repeat have cells of their own
    obtain ⟨c, hseg, hrest⟩ := seg_append.mp hg.list
    have hc : c = some (ptr 0 0) := by
      have h := hg.entry_getElem? hg.repeaters hg.repeats
      rw [Nat.zero_mul, Nat.add_zero] at h
      rw [hrest.start, head?_eq_getElem?, h, Option.map_some]
    rw [← hc]
    refine hseg.frame fun p hp => ?_
    have hother : ∀ i < r, ∀ j < asp.errindex, p ≠ ptr i j := by
      intro i hi j hj heq
      have hn := hg.nodup
      rw [map_append] at hn
      refine (nodup_append.mp hn).2.2 p hp p ?_ rfl
      rw [heq]
      exact mem_map_of_mem (mem_of_getElem? (hg.entry_getElem? hi hj))
    rw [hout₄ p hother, hout₃ p hother, hout₁ p hother]
  · have hrows := hcells₄.rows_seg hg.repeaters _ 0 (Nat.zero_add _)
    rw [rowStart, if_pos (rowsKept_pos _ hg.repeats), hkept] at hrows
    exact hrows

end Gathered

/-! ## when the rows are the ones that are meant -/

theorem column_congr {name name' : ObjId} {col : Nat → VariableList} (h : Ended (col 0) → name = name') :
    column name col = column name' col := by
  funext j
  induction j with
  | zero =>
    rw [column, column, endUnder, endUnder]
    split
    · next hended => rw [h hended]
    · rfl
  | succ j ih => rw [column, column, ih]

theorem rowsFrom_inj {β : Type} {e e' : Nat → Nat → β} {m m' : Nat} (hr : 0 < r) (hm : 0 < m)
    (h : rowsFrom e r 0 m = rowsFrom e' r 0 m') : m = m' ∧ ∀ i < r, e i 0 = e' i 0 := by
  have hlen := congrArg List.length h
  rw [length_rowsFrom, length_rowsFrom] at hlen
  obtain rfl : m = m' := Nat.eq_of_mul_eq_mul_right hr hlen
  refine ⟨rfl, fun i hi => ?_⟩
  obtain ⟨m, rfl⟩ := Nat.exists_eq_add_one_of_ne_zero (Nat.ne_of_gt hm)
  rw [rowsFrom_succ, rowsFrom_succ] at h
  have hrow := (append_inj h (by rw [length_map, length_map])).1
  exact map_inj_left.mp hrow i (mem_range'_1.mpr (by omega))

theorem rowsKept_eq_iff {isOver isOver' : Nat → Prop} [DecidablePred isOver] [DecidablePred isOver']
    (hsub : ∀ j, isOver j → isOver' j) (n j : Nat) : rowsKept isOver' n j = rowsKept isOver n j ↔
      ∀ j', j ≤ j' → j' + 1 < j + n → isOver' j' → ∃ j'' ≤ j', j ≤ j'' ∧ isOver j'' := by
  induction n generalizing j with
  | zero => exact iff_of_true rfl fun j' h₁ h₂ => by omega
  | succ n ih =>
    rw [rowsKept, rowsKept]
    by_cases hover : isOver j
    · rw [if_pos hover, if_pos (hsub j hover)]
      exact iff_of_true rfl fun j' h _ _ => ⟨j, h, Nat.le_refl j, hover⟩
    · rw [if_neg hover]
      by_cases hover' : isOver' j
      · rw [if_pos hover']
        have hle := rowsKept_le isOver n (j + 1)
        constructor
        · intro heq j' h₁ h₂ _
          -- no row is left behind this one, or the rows would go on
          cases n with
          | zero => omega
          | succ n =>
            rw [rowsKept] at heq
            split at heq
            · omega
            · have := (rowsKept_le isOver n (j + 1 + 1)).1
              omega
        · intro h
          rcases Nat.eq_zero_or_pos n with rfl | hpos
          · rfl
          · obtain ⟨j'', h₁, h₂, h₃⟩ := h j (Nat.le_refl j) (by omega) hover'
            obtain rfl : j'' = j := Nat.le_antisymm h₁ h₂
            exact absurd h₃ hover
      · rw [if_neg hover', ih]
        constructor
        · intro h j' h₁ h₂ h₃
          have hne : j ≠ j' := by
            rintro rfl
            exact hover' h₃
          obtain ⟨j'', h₄, h₅, h₆⟩ := h j' (by omega) (by omega) h₃
          exact ⟨j'', h₄, by omega, h₆⟩
        · intro h j' h₁ h₂ h₃
          obtain ⟨j'', h₄, h₅, h₆⟩ := h j' (by omega) (by omega) h₃
          have hne : j ≠ j'' := by
            rintro rfl
            exact hover h₆
          exact ⟨j'', h₄, by omega, h₆⟩

namespace BulkSession

/-- The code links the rows that are meant just when no column starts under a wrong name, and no row is cut behind
that goes on with the last repeater. -/
theorem linked_eq_ordered_iff (hr : 0 < r) (hk : 0 < asp.errindex) :
    asp.linked nonRep entries r = asp.ordered nonRep entries n r ↔
      (∀ i < r, Ended (entryAt entries asp.errindex i 0).2 → asp.origName i = asp.origName (n + i)) ∧
      ∀ j, j + 1 < asp.errindex → (∀ i < max (r - 1) 1, Ended (entryAt entries asp.errindex i j).2) →
        ∃ j' ≤ j, ∀ i < r, Ended (entryAt entries asp.errindex i j').2 := by
  have hkept := @rowsKept_eq_iff (fun j => ∀ i < r, Ended (entryAt entries asp.errindex i j).2)
    (fun j => ∀ i < max (r - 1) 1, Ended (entryAt entries asp.errindex i j).2) _ _
    (fun j h i hi => h i (by omega)) asp.errindex 0
  have hlast : (∀ j', 0 ≤ j' → j' + 1 < 0 + asp.errindex →
        (∀ i < max (r - 1) 1, Ended (entryAt entries asp.errindex i j').2) →
        ∃ j'' ≤ j', 0 ≤ j'' ∧ ∀ i < r, Ended (entryAt entries asp.errindex i j'').2) ↔
      ∀ j, j + 1 < asp.errindex → (∀ i < max (r - 1) 1, Ended (entryAt entries asp.errindex i j).2) →
        ∃ j' ≤ j, ∀ i < r, Ended (entryAt entries asp.errindex i j').2 := by
    simp only [Nat.zero_le, true_and, forall_const, Nat.zero_add]
  rw [← hlast, ← hkept, linked, ordered]
  rw [append_cancel_left_eq]
  constructor
  · intro h
    obtain ⟨hrows, hfirst⟩ := rowsFrom_inj hr (rowsKept_pos _ hk) h
    refine ⟨fun i hi hended => ?_, hrows⟩
    have hname := congrArg (fun x => VariableList.name x.2) (hfirst i hi)
    simpa only [column, endUnder, if_pos hended] using hname
  · rintro ⟨hnames, hrows⟩
    rw [hrows]
    refine rowsFrom_congr _ _ fun i hi j _ => ?_
    rw [column_congr (hnames i hi)]

/-- The response is in rows, ends with the first row at the end of the MIB view and has the names in front of it, just
when that is what the code sees: a column that starts at the end has the name of the varbind with its own number, and
no row is cut behind that is at the end for all repeaters but the last. -/
theorem reorderGetbulk_iff (hg : Gathered asp heap head nonRep entries n r) :
    (∃ heap', asp.reorderGetbulk heap = some heap' ∧ Seg heap' head (asp.ordered nonRep entries n r) none) ↔
      (∀ i < r, Ended (entryAt entries asp.errindex i 0).2 → asp.origName i = asp.origName (n + i)) ∧
      ∀ j, j + 1 < asp.errindex → (∀ i < max (r - 1) 1, Ended (entryAt entries asp.errindex i j).2) →
        ∃ j' ≤ j, ∀ i < r, Ended (entryAt entries asp.errindex i j').2 := by
  obtain ⟨heap₁, e, hseg⟩ := hg.reorder
  rw [← @linked_eq_ordered_iff r asp nonRep entries n hg.repeaters hg.repeats]
  constructor
  · rintro ⟨heap', e', hseg'⟩
    rw [e] at e'
    obtain rfl := Option.some.inj e'
    exact hseg.unique hseg'
  · intro heq
    rw [← heq]
    exact ⟨heap₁, e, hseg⟩

/-- Two repeaters with two repetitions each: the first is at its end from the start, the other has two values. -/
def lastGoesOn : BulkSession where
  errstat := 0
  errindex := 2
  vbcount := 2
  bulkcache := [1, 2, 3, 4]
  origVariables := [⟨[1], .null .null⟩, ⟨[2], .null .null⟩]

def lastGoesOnEntries : List (Ptr × VariableList) :=
  [(1, ⟨[1], .null .endOfMibView⟩), (2, ⟨[1], .null .endOfMibView⟩), (3, ⟨[2, 1], .integer 7 8⟩),
    (4, ⟨[2, 2], .integer 8 8⟩)]

/-- One varbind that does not repeat, and one that does and found nothing. -/
def nothingFound : BulkSession where
  errstat := 1
  errindex := 1
  vbcount := 2
  bulkcache := [2]
  origVariables := [⟨[1], .null .null⟩, ⟨[2], .null .null⟩]

/-- The cells of a list from 1 on. -/
def cellsOf (l : List (Ptr × VariableList)) : Heap VariableList := fun p =>
  if p = 0 then none
  else (l[p - 1]?).map fun x => ⟨if p < l.length then some (p + 1) else none, x.2⟩

theorem lastGoesOn_gathered : Gathered lastGoesOn (cellsOf lastGoesOnEntries) (some 1) [] lastGoesOnEntries 0 2 where
  list := ⟨rfl, some 2, rfl, rfl, some 3, rfl, rfl, some 4, rfl, rfl, none, rfl, rfl⟩
  nodup := by decide
  cache := rfl
  size := rfl
  nonRepeaters := rfl
  errstat := rfl
  count := rfl
  orig := rfl
  repeaters := by decide
  repeats := by decide

theorem nothingFound_gathered :
    Gathered nothingFound (cellsOf [(1, ⟨[1, 0], .integer 7 8⟩), (2, ⟨[], .null .null⟩)]) (some 1)
      [(1, ⟨[1, 0], .integer 7 8⟩)] [(2, ⟨[], .null .null⟩)] 1 1 where
  list := ⟨rfl, some 2, rfl, rfl, none, rfl, rfl⟩
  nodup := by decide
  cache := rfl
  size := rfl
  nonRepeaters := rfl
  errstat := rfl
  count := rfl
  orig := rfl
  repeaters := by decide
  repeats := by decide

/-- The response of the repeater that found nothing has the name of the other varbind. -/
theorem reorderGetbulk_iff_nothingFound :
    ¬ ∃ heap', nothingFound.reorderGetbulk
        (cellsOf [(1, ⟨[1, 0], .integer 7 8⟩), (2, ⟨[], .null .null⟩)]) = some heap' ∧
      Seg heap' (some 1)
        (nothingFound.ordered [(1, ⟨[1, 0], .integer 7 8⟩)] [(2, ⟨[], .null .null⟩)] 1 1) none := by
  intro h
  have hname := ((reorderGetbulk_iff nothingFound_gathered).mp h).1 0 (by decide) (by decide)
  revert hname
  decide

/-- The second value of the last repeater is lost. -/
theorem not_reorderGetbulk :
    ∃ asp heap head nonRep entries n r, Gathered asp heap head nonRep entries n r ∧
      ¬ ∃ heap', asp.reorderGetbulk heap = some heap' ∧ Seg heap' head (asp.ordered nonRep entries n r) none := by
  refine ⟨lastGoesOn, _, _, _, _, _, _, lastGoesOn_gathered, ?_⟩
  rintro ⟨heap', e', hseg'⟩
  obtain ⟨heap₁, e, hseg⟩ := lastGoesOn_gathered.reorder
  rw [e] at e'
  obtain rfl := Option.some.inj e'
  have heq := hseg.unique hseg'
  revert heq
  decide

end BulkSession

end Priot.Agent
