/-
# Groups of SET requests

Grouping makes one group for each index that is addressed, whose row is the one stored or a new one. A phase goes
through the groups, and a group only concerns rows of its own index.
-/
import Priot.TableArray.SetRequests
import Mathlib.Data.List.Nodup
import Mathlib.Tactic.Cases

namespace Priot.TableArray

open BabySteps Lib List

variable {α : Type} {heap heap' : Memory (Row α)} {table : List Ptr} {m : Index → Option α} {i key : Index} {p : Ptr}
  {g : Group} {gs : List Group} {st : State α}

/-! ## what a container stores -/

/-- The rows of a container are live and have different indices, and come to a map. -/
structure Stores (heap : Memory (Row α)) (table : List Ptr) (m : Index → Option α) : Prop where
  live : ∀ p ∈ table, ∃ row, heap.cell p = some row
  nodup : table.Nodup
  unique : ∀ p ∈ table, ∀ q ∈ table, ∀ i c d, heap.cell p = some ⟨i, c⟩ → heap.cell q = some ⟨i, d⟩ → p = q
  mem : ∀ i c, (∃ p ∈ table, heap.cell p = some ⟨i, c⟩) ↔ m i = some c

theorem find_found {key : Index} {r : Option Ptr} (h : find heap key table = some r) :
    (∀ p, r = some p → p ∈ table ∧ ∃ c, heap.cell p = some ⟨key, c⟩) ∧
      (r = none → ∀ p ∈ table, ∀ c, heap.cell p ≠ some ⟨key, c⟩) := by
  induction table with
  | nil =>
    cases h
    exact ⟨fun p hp => absurd hp.symm (Option.some_ne_none p), fun _ p hp => absurd hp not_mem_nil⟩
  | cons p ps ih =>
    cases hrow : heap.cell p with
    | none =>
      rw [find, hrow] at h
      cases h
    | some row =>
      have hfind : find heap key (p :: ps) = if row.index = key then some (some p) else find heap key ps := by
        rw [find, hrow]
        rfl
      rw [hfind] at h
      by_cases hi : row.index = key
      · subst hi
        rw [if_pos rfl] at h
        cases h
        refine ⟨?_, fun h => by cases h⟩
        rintro q ⟨⟩
        exact ⟨mem_cons_self, row.content, hrow⟩
      · rw [if_neg hi] at h
        obtain ⟨hfound, hnone⟩ := ih h
        refine ⟨fun q hq => ⟨mem_cons_of_mem p (hfound q hq).1, (hfound q hq).2⟩, ?_⟩
        intro hr q hq d hcell
        rcases mem_cons.mp hq with rfl | hq
        · rw [hrow] at hcell
          cases hcell
          exact hi rfl
        · exact hnone hr q hq d hcell

theorem find_live (key : Index) (table : List Ptr) (hlive : ∀ p ∈ table, ∃ row, heap.cell p = some row) :
    ∃ r, find heap key table = some r := by
  induction table with
  | nil => exact ⟨none, rfl⟩
  | cons p ps ih =>
    obtain ⟨row, hrow⟩ := hlive p mem_cons_self
    have hfind : find heap key (p :: ps) = if row.index = key then some (some p) else find heap key ps := by
      rw [find, hrow]
      rfl
    rw [hfind]
    split
    · exact ⟨some p, rfl⟩
    · exact ih fun q hq => hlive q (mem_cons_of_mem p hq)

theorem Stores.find_some (h : Stores heap table m) {c : α} (hp : p ∈ table) (hc : heap.cell p = some ⟨i, c⟩) :
    find heap i table = some (some p) := by
  obtain ⟨r, hr⟩ := find_live i table h.live
  obtain ⟨hfound, hnone⟩ := find_found hr
  cases r with
  | none => exact absurd hc (hnone rfl p hp c)
  | some q =>
    obtain ⟨hq, d, hd⟩ := hfound q rfl
    rw [hr, h.unique q hq p hp i d c hd hc]

theorem Stores.find_none (h : Stores heap table m) (hi : m i = none) : find heap i table = some none := by
  obtain ⟨r, hr⟩ := find_live i table h.live
  obtain ⟨hfound, -⟩ := find_found hr
  cases r with
  | none => exact hr
  | some q =>
    obtain ⟨hq, d, hd⟩ := hfound q rfl
    have := (h.mem i d).mp ⟨q, hq, hd⟩
    rw [hi] at this
    cases this

/-! ## a table and its callbacks -/

/-- A table with faithful callbacks, and requests to it. -/
structure Input (α : Type) where
  create : Index → α
  set : Mode → Option (Index → α → Bool → α × Bool)
  requests : List Request
  heap : Memory (Row α)
  table : List Ptr
  old : Index → Option α
  stored : Stores heap table old

namespace Input

/-- A created row has the index asked for, a duplicate is equal to the row, and copying makes a row equal. -/
def cb (a : Input α) : TableArrayCallbacks α where
  createRow := some fun i => some ⟨i, a.create i⟩
  duplicateRow := some some
  rowCopy _ undo := undo
  set := a.set

def start (a : Input α) : State α := ⟨a.heap, a.table, []⟩

/-- Some request is for an index. -/
def Addressed (a : Input α) (i : Index) : Prop := ∃ r ∈ a.requests, r.processed = false ∧ r.index = i

/-- The content that the row of a group starts with. -/
def first (a : Input α) (i : Index) : α := (a.old i).getD (a.create i)

/-- What a callback comes to. -/
def edit (a : Input α) (mode : Mode) (now : Index → α × Bool) (i : Index) : α × Bool :=
  (a.set mode).elim (now i) fun f => f i (now i).1 (now i).2

/-- The content of a row and its flag after phases. -/
def now (a : Input α) (modes : List Mode) : Index → α × Bool :=
  modes.foldl (fun now mode => a.edit mode now) fun i => (a.first i, false)

end Input

variable {a : Input α} {saved : Bool} {now : Index → α × Bool}

/-- What a group has hold of: its row, and the copy if one has been saved. -/
structure Held (a : Input α) (saved : Bool) (now : Index → α × Bool) (heap : Memory (Row α)) (g : Group) : Prop where
  created : g.rowCreated = (a.old g.index).isNone
  deleted : g.rowDeleted = (now g.index).2
  row : ∃ p, g.existingRow = some p ∧ heap.cell p = some ⟨g.index, (now g.index).1⟩ ∧
    (g.rowCreated = true → p ∉ a.table) ∧
    (g.rowCreated = false → p ∈ a.table ∧ a.heap.cell p = some ⟨g.index, a.first g.index⟩)
  copy : saved = true → g.rowCreated = false → ∃ u, g.undoInfo = some u ∧ g.existingRow ≠ some u ∧
    heap.cell u = some ⟨g.index, a.first g.index⟩
  none : saved = false ∨ g.rowCreated = true → g.undoInfo = none

/-- The rows of an index are left alone. -/
abbrev Own (i : Index) : Memory (Row α) → Memory (Row α) → Prop := Memory.Frame fun row => row.index = i

/-- Rows of other indices are left alone. -/
abbrev Others (i : Index) : Memory (Row α) → Memory (Row α) → Prop := Memory.Frame fun row => row.index ≠ i

theorem Others.own {j : Index} (h : Others i heap heap') (hne : j ≠ i) : Own j heap heap' :=
  Memory.Frame.mono h fun _ hrow heq => hne (hrow.symm.trans heq)

theorem Held.frame (h : Held a saved now heap g) (hframe : Own g.index heap heap') : Held a saved now heap' g where
  created := h.created
  deleted := h.deleted
  row := by
    obtain ⟨p, hp, hcell, htable⟩ := h.row
    exact ⟨p, hp, (hframe p _ rfl).mpr hcell, htable⟩
  copy hsaved hcreated := by
    obtain ⟨u, hu, hne, hcell⟩ := h.copy hsaved hcreated
    exact ⟨u, hu, hne, (hframe u _ rfl).mpr hcell⟩
  none := h.none

/-! ## grouping -/

theorem mem_insertGroup {g g' : Group} : g' ∈ insertGroup g gs ↔ g' = g ∨ g' ∈ gs := by
  induction gs with
  | nil => simp [insertGroup]
  | cons x gs ih =>
    unfold insertGroup
    split
    · rw [mem_cons, ih, mem_cons]
      exact or_left_comm
    · exact mem_cons

theorem insertGroup_perm (g : Group) (gs : List Group) : (insertGroup g gs).Perm (g :: gs) := by
  induction gs with
  | nil => exact List.Perm.refl _
  | cons x gs ih =>
    unfold insertGroup
    split
    · exact (ih.cons x).trans (List.Perm.swap g x gs)
    · exact List.Perm.refl _

theorem addRequest_index (k : Nat) (key : Index) (gs : List Group) :
    (addRequest k key gs).map Group.index = gs.map Group.index := by
  unfold addRequest
  rw [map_map]
  apply map_congr_left
  intro g _
  simp only [Function.comp_apply]
  split <;> rfl

/-- What holds between requests while they are grouped. -/
structure Grouping (a : Input α) (st : State α) (gs : List Group) : Prop where
  table : st.table = a.table
  kept : ∀ p ∈ a.table, st.heap.cell p = a.heap.cell p
  held : ∀ g ∈ gs, Held a false (a.now []) st.heap g
  nodup : (gs.map Group.index).Nodup

theorem Grouping.start (a : Input α) : Grouping a a.start [] :=
  ⟨rfl, fun _ _ => rfl, fun _ h => absurd h not_mem_nil, nodup_nil⟩

theorem Grouping.addRequest (h : Grouping a st gs) (k : Nat) (key : Index) : Grouping a st (addRequest k key gs) where
  table := h.table
  kept := h.kept
  held g hg := by
    obtain ⟨g', hg', rfl⟩ := mem_map.mp hg
    have hheld := h.held g' hg'
    split
    · exact ⟨hheld.created, hheld.deleted, hheld.row, hheld.copy, hheld.none⟩
    · exact hheld
  nodup := by
    rw [addRequest_index]
    exact h.nodup

theorem Grouping.stored (h : Grouping a st gs) : Stores st.heap st.table a.old := by
  rw [h.table]
  refine ⟨?_, a.stored.nodup, ?_, ?_⟩
  · intro p hp
    rw [h.kept p hp]
    exact a.stored.live p hp
  · intro p hp q hq i c d
    rw [h.kept p hp, h.kept q hq]
    exact a.stored.unique p hp q hq i c d
  · intro i c
    rw [← a.stored.mem i c]
    refine exists_congr fun p => and_congr_right fun hp => ?_
    rw [h.kept p hp]

theorem Grouping.insertGroup (h : Grouping a st gs) (st' : State α) (htable : st'.table = st.table)
    (hlive : ∀ p row, st.heap.cell p = some row → st'.heap.cell p = some row) (hg : Held a false (a.now []) st'.heap g)
    (hnew : g.index ∉ gs.map Group.index) : Grouping a st' (insertGroup g gs) where
  table := htable.trans h.table
  kept p hp := by
    obtain ⟨row, hrow⟩ := a.stored.live p hp
    rw [hrow]
    exact hlive p row ((h.kept p hp).trans hrow)
  held g' hg' := by
    rcases mem_insertGroup.mp hg' with rfl | hg'
    · exact hg
    · have hheld := h.held g' hg'
      obtain ⟨p, hp, hcell, hrest⟩ := hheld.row
      exact ⟨hheld.created, hheld.deleted, ⟨p, hp, hlive p _ hcell, hrest⟩, fun h => absurd h Bool.false_ne_true,
        hheld.none⟩
  nodup := by
    have hperm := (insertGroup_perm g gs).map Group.index
    rw [hperm.nodup_iff]
    exact nodup_cons.mpr ⟨hnew, h.nodup⟩

theorem Grouping.heldExisting (h : Grouping a st gs) {c : α} (hold : a.old i = some c) (k : Nat) :
    ∃ p ∈ st.table, st.heap.cell p = some ⟨i, c⟩ ∧
      Held a false (a.now []) st.heap ⟨i, some p, none, false, false, [k]⟩ := by
  obtain ⟨p, hp, hcell⟩ := (h.stored.mem i c).mpr hold
  have hfirst : a.first i = c := by
    unfold Input.first
    rw [hold]
    rfl
  refine ⟨p, hp, hcell, ?_, rfl, ⟨p, rfl, ?_, fun h => absurd h Bool.false_ne_true, fun _ => ⟨?_, ?_⟩⟩,
    fun h => absurd h Bool.false_ne_true, fun _ => rfl⟩
  · rw [hold]
    rfl
  · change st.heap.cell p = some ⟨i, a.first i⟩
    rw [hfirst]
    exact hcell
  · rw [← h.table]
    exact hp
  · change a.heap.cell p = some ⟨i, a.first i⟩
    rw [h.table] at hp
    rw [hfirst, ← h.kept p hp]
    exact hcell

theorem Grouping.heldCreated (h : Grouping a st gs) (hold : a.old i = none) (k : Nat) :
    Held a false (a.now []) (st.heap.alloc ⟨i, a.create i⟩) ⟨i, some st.heap.next, none, true, false, [k]⟩ := by
  refine ⟨?_, rfl, ⟨st.heap.next, rfl, ?_, fun _ hp => ?_, fun h => absurd h.symm Bool.false_ne_true⟩,
    fun h => absurd h Bool.false_ne_true, fun _ => rfl⟩
  · rw [hold]
    rfl
  · rw [Memory.alloc_self]
    change _ = some (Row.mk i (a.first i))
    unfold Input.first
    rw [hold]
    rfl
  · rw [← h.table] at hp
    obtain ⟨row, hrow⟩ := h.stored.live _ hp
    exact Memory.ne_next hrow rfl

theorem groupRequests_spec (mode : Mode) (k : Nat) (requests : List Request) (h : Grouping a st gs) :
    ∃ st' gs', groupRequests a.cb mode k requests st gs = some (st', gs') ∧ Grouping a st' gs' ∧
      ∀ i, i ∈ gs'.map Group.index ↔ i ∈ gs.map Group.index ∨ ∃ r ∈ requests, r.processed = false ∧ r.index = i := by
  induction requests generalizing k st gs with
  | nil => exact ⟨st, gs, rfl, h, fun i => by simp⟩
  | cons current requests ih =>
    simp only [exists_mem_cons_iff]
    unfold groupRequests
    by_cases hprocessed : current.processed = true
    · rw [if_pos hprocessed]
      obtain ⟨st', gs', hrun, hgrouping, hmem⟩ := ih (k + 1) h
      refine ⟨st', gs', hrun, hgrouping, fun i => ?_⟩
      rw [hmem, hprocessed]
      simp
    · have hfalse : current.processed = false := Bool.not_eq_true _ |>.mp hprocessed
      rw [if_neg hprocessed, hfalse]
      simp only [eq_self, true_and]
      by_cases hany : (gs.any fun g => decide (g.index = current.index)) = true
      · -- the request joins a group
        rw [if_pos hany]
        obtain ⟨st', gs', hrun, hgrouping, hmem⟩ := ih (k + 1) (h.addRequest k current.index)
        refine ⟨st', gs', hrun, hgrouping, fun i => ?_⟩
        have hin : current.index ∈ gs.map Group.index := by
          obtain ⟨g, hg, heq⟩ := any_eq_true.mp hany
          exact mem_map.mpr ⟨g, hg, of_decide_eq_true heq⟩
        rw [hmem, addRequest_index, ← or_assoc]
        refine or_congr_left (or_iff_left_of_imp ?_).symm
        rintro rfl
        exact hin
      · rw [if_neg hany]
        have hnew : current.index ∉ gs.map Group.index := by
          intro hin
          obtain ⟨g, hg, heq⟩ := mem_map.mp hin
          exact hany (any_eq_true.mpr ⟨g, hg, decide_eq_true heq⟩)
        have hmem' : ∀ g : Group, g.index = current.index → ∀ i, i ∈ (insertGroup g gs).map Group.index ↔
            current.index = i ∨ i ∈ gs.map Group.index := by
          intro g hg i
          rw [((insertGroup_perm g gs).map Group.index).mem_iff, map_cons, mem_cons, hg]
          exact or_congr_left eq_comm
        cases hold : a.old current.index with
        | some c =>
          -- the row is in the container
          obtain ⟨p, hp, hcell, hheld⟩ := h.heldExisting hold k
          obtain ⟨st', gs', hrun, hgrouping, hmem⟩ := ih (k + 1) (h.insertGroup st rfl (fun _ _ h => h) hheld hnew)
          refine ⟨st', gs', ?_, hgrouping, fun i => ?_⟩
          · rw [h.stored.find_some hp hcell]
            simp only [Option.bind_eq_bind, Option.bind_some, hcell]
            exact hrun
          · rw [hmem, hmem' _ rfl, or_comm (a := current.index = i), or_assoc]
        | none =>
          -- the row is created
          obtain ⟨st', gs', hrun, hgrouping, hmem⟩ := ih (k + 1)
            (h.insertGroup { st with heap := st.heap.alloc ⟨current.index, a.create current.index⟩ } rfl
              (fun _ _ h => Memory.alloc_live h) (h.heldCreated hold k) hnew)
          refine ⟨st', gs', ?_, hgrouping, fun i => ?_⟩
          · rw [h.stored.find_none hold]
            exact hrun
          · rw [hmem, hmem' _ rfl, or_comm (a := current.index = i), or_assoc]

/-! ## a phase goes through the groups -/

/-- If a step takes a group from `P` to `Q`, leaving alone the container and the rows of other indices, so does a pass
through all groups. -/
theorem forEach_spec {f : State α → Group → Option (State α × Group)} {P Q : Memory (Row α) → Group → Prop}
    (hP : ∀ heap heap' g, Own g.index heap heap' → P heap g → P heap' g)
    (hQ : ∀ heap heap' g, Own g.index heap heap' → Q heap g → Q heap' g)
    (hstep : ∀ st g, P st.heap g → ∃ st' g', f st g = some (st', g') ∧ st'.table = st.table ∧ g'.index = g.index ∧
      Q st'.heap g' ∧ Others g.index st.heap st'.heap)
    (hnodup : (gs.map Group.index).Nodup) (hall : ∀ g ∈ gs, P st.heap g) :
    ∃ st' gs', forEach f st gs = some (st', gs') ∧ st'.table = st.table ∧
      gs'.map Group.index = gs.map Group.index ∧ (∀ g ∈ gs', Q st'.heap g) ∧
      Memory.Frame (fun row => row.index ∉ gs.map Group.index) st.heap st'.heap := by
  induction gs generalizing st with
  | nil => exact ⟨st, [], rfl, rfl, rfl, fun g hg => absurd hg not_mem_nil, Memory.Frame.refl _ _⟩
  | cons g gs ih =>
    obtain ⟨hnew, hrest⟩ := nodup_cons.mp hnodup
    obtain ⟨st', g', hf, htable, hindex, hg', hframe⟩ := hstep st g (hall g mem_cons_self)
    have hother : ∀ x ∈ gs, x.index ≠ g.index := by
      intro x hx heq
      exact hnew (heq ▸ mem_map_of_mem hx)
    obtain ⟨st'', gs', hrun, htable', hindex', hall', hframe'⟩ := ih hrest fun x hx =>
      hP st.heap st'.heap x (Others.own hframe (hother x hx)) (hall x (mem_cons_of_mem g hx))
    refine ⟨st'', g' :: gs', ?_, htable'.trans htable, ?_, ?_, ?_⟩
    · rw [forEach, hf]
      change (forEach f st' gs).bind _ = _
      rw [hrun]
      rfl
    · rw [map_cons, map_cons, hindex, hindex']
    · rw [forall_mem_cons]
      refine ⟨hQ st'.heap st''.heap g' (hframe'.mono ?_) hg', hall'⟩
      intro row hrow
      rw [hrow, hindex]
      exact hnew
    · refine (hframe.mono ?_).trans (hframe'.mono ?_)
      · intro row hrow heq
        exact hrow (heq ▸ mem_cons_self)
      · intro row hrow hin
        exact hrow (mem_cons_of_mem _ hin)

end Priot.TableArray
