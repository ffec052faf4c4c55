/-
# The phases of a SET of a table array

Up to ACTION every group keeps hold of its row and of the copy, and only the content of the row and its flag change.
FREE leaves the rows of the container with the contents that the callbacks have given them; UNDO gives them the contents of
the copies.
-/
import Priot.TableArray.Groups

namespace Priot.TableArray

open BabySteps Lib

variable {α : Type} {heap heap' : Memory (Row α)} {i : Index} {p : Ptr} {g : Group} {gs : List Group} {st : State α}
  {a : Input α} {saved : Bool} {now : Index → α × Bool}

/-! ## a group in a phase -/

theorem Others.refl (i : Index) (heap : Memory (Row α)) : Others i heap heap := Memory.Frame.refl _ heap

theorem Others.of_cell (hold : ∀ row, heap.cell p = some row → row.index = i)
    (hnew : ∀ row, heap'.cell p = some row → row.index = i) (hrest : ∀ q, q ≠ p → heap'.cell q = heap.cell q) :
    Others i heap heap' :=
  Memory.Frame.of_cell (fun row hrow hne => hne (hold row hrow)) (fun row hrow hne => hne (hnew row hrow)) hrest

/-- What a phase can do to a group: the group keeps its index, and the rows of other indices are left alone. -/
structure Step (st st' : State α) (g g' : Group) : Prop where
  table : st'.table = st.table
  index : g'.index = g.index
  created : g'.rowCreated = g.rowCreated
  others : Others g.index st.heap st'.heap

theorem Step.refl (st : State α) (g : Group) : Step st st g g := ⟨rfl, rfl, rfl, Others.refl _ _⟩

theorem Step.trans {st' st'' : State α} {g' g'' : Group} (h : Step st st' g g') (h' : Step st' st'' g' g'') :
    Step st st'' g g'' where
  table := h'.table.trans h.table
  index := h'.index.trans h.index
  created := h'.created.trans h.created
  others := by
    have hothers := h'.others
    rw [h.index] at hothers
    exact Memory.Frame.trans h.others hothers

/-- A step that allocates nothing. -/
structure Edit (st st' : State α) (g g' : Group) : Prop extends Step st st' g g' where
  dead : ∀ q, st.heap.cell q = none → st'.heap.cell q = none

theorem Edit.refl (st : State α) (g : Group) : Edit st st g g := ⟨Step.refl st g, fun _ h => h⟩

theorem Edit.trans {st' st'' : State α} {g' g'' : Group} (h : Edit st st' g g') (h' : Edit st' st'' g' g'') :
    Edit st st'' g g'' :=
  ⟨h.toStep.trans h'.toStep, fun q hq => h'.dead q (h.dead q hq)⟩

theorem Edit.of_cell {heap' : Memory (Row α)} {g' : Group} {c : α} (hindex : g'.index = g.index)
    (hcreated : g'.rowCreated = g.rowCreated) (hcell : st.heap.cell p = some ⟨g.index, c⟩)
    (hnew : ∀ row, heap'.cell p = some row → row.index = g.index) (hrest : ∀ q, q ≠ p → heap'.cell q = st.heap.cell q) :
    Edit st { st with heap := heap' } g g' := by
  refine ⟨⟨rfl, hindex, hcreated, ?_⟩, ?_⟩
  · refine Others.of_cell ?_ hnew hrest
    intro row hrow
    rw [hcell] at hrow
    cases hrow
    rfl
  · intro q hq
    have hne : q ≠ p := by
      rintro rfl
      rw [hq] at hcell
      cases hcell
    exact (hrest q hne).trans hq

theorem callback_spec (mode : Mode) (h : Held a saved now st.heap g) :
    ∃ st' g', callback a.cb mode st g = some (st', g') ∧ Edit st st' g g' ∧ g'.existingRow = g.existingRow ∧
      Held a saved (a.edit mode now) st'.heap g' := by
  cases hset : a.cb.set mode with
  | none =>
    change a.set mode = none at hset
    have hedit : a.edit mode now g.index = now g.index := by
      unfold Input.edit
      rw [hset]
      rfl
    refine ⟨st, g, ?_, Edit.refl st g, rfl, ?_⟩
    · unfold callback
      change a.cb.set mode = _ at hset
      rw [hset]
    · refine ⟨h.created, ?_, ?_, h.copy, h.none⟩
      · rw [hedit]
        exact h.deleted
      · rw [hedit]
        exact h.row
  | some f =>
    change a.set mode = some f at hset
    obtain ⟨p, hp, hcell, htable⟩ := h.row
    have hedit : a.edit mode now g.index = f g.index (now g.index).1 (now g.index).2 := by
      unfold Input.edit
      rw [hset]
      rfl
    obtain ⟨heap', hwrite, hnew, hrest⟩ := Memory.write_spec hcell ⟨g.index, (a.edit mode now g.index).1⟩
    refine ⟨{ st with heap := heap' }, { g with rowDeleted := (a.edit mode now g.index).2 }, ?_, ?_, rfl, ?_⟩
    · unfold callback
      change a.cb.set mode = _ at hset
      rw [hset]
      simp only [Option.bind_eq_bind, hp, hcell, Option.bind_some, h.deleted, ← hedit, hwrite]
    · refine Edit.of_cell rfl rfl hcell ?_ hrest
      intro row hrow
      rw [hnew] at hrow
      cases hrow
      rfl
    · refine ⟨h.created, rfl, ⟨p, hp, hnew, htable⟩, ?_, h.none⟩
      intro hsaved hcreated
      obtain ⟨u, hu, hne, hcopy⟩ := h.copy hsaved hcreated
      refine ⟨u, hu, hne, ?_⟩
      have hup : u ≠ p := by
        rintro rfl
        exact hne hp
      change heap'.cell u = _
      rw [hrest u hup]
      exact hcopy

theorem deleteExisting_spec {c : α} (hp : g.existingRow = some p) (hcell : st.heap.cell p = some ⟨g.index, c⟩) :
    ∃ st' g', deleteExisting st g = some (st', g') ∧ Edit st st' g g' ∧ st'.heap.cell p = none := by
  obtain ⟨heap', hfree, hnone, hrest⟩ := Memory.free_spec hcell
  refine ⟨{ st with heap := heap' }, { g with existingRow := none }, ?_, ?_, hnone⟩
  · unfold deleteExisting
    simp only [Option.bind_eq_bind, hp, Option.bind_some, hfree]
  · refine Edit.of_cell rfl rfl hcell ?_ hrest
    intro row hrow
    rw [hnone] at hrow
    cases hrow

theorem deleteUndo_spec (h : Held a true now st.heap g) :
    ∃ st' g', deleteUndo st g = some (st', g') ∧ Edit st st' g g' ∧ g'.existingRow = g.existingRow ∧
      g'.rowDeleted = g.rowDeleted ∧ ∀ p, g.existingRow = some p → st'.heap.cell p = st.heap.cell p := by
  cases hcreated : g.rowCreated with
  | true =>
    refine ⟨st, g, ?_, Edit.refl st g, rfl, rfl, fun p _ => rfl⟩
    unfold deleteUndo
    rw [h.none (.inr hcreated)]
  | false =>
    obtain ⟨u, hu, hne, hcell⟩ := h.copy rfl hcreated
    obtain ⟨heap', hfree, hnone, hrest⟩ := Memory.free_spec hcell
    refine ⟨{ st with heap := heap' }, { g with undoInfo := none }, ?_, ?_, rfl, rfl, ?_⟩
    · unfold deleteUndo
      rw [hu]
      simp only [Option.bind_eq_bind, hfree, Option.bind_some]
    · refine Edit.of_cell rfl rfl hcell ?_ hrest
      intro row hrow
      rw [hnone] at hrow
      cases hrow
    · intro p hp
      apply hrest
      rintro rfl
      exact hne hp

/-! ## up to ACTION -/

theorem cb_duplicateRow (a : Input α) : a.cb.duplicateRow = some some := rfl

theorem cb_rowCopy (a : Input α) (row undo : Row α) : a.cb.rowCopy row undo = undo := rfl

theorem reserve1_spec (h : Held a false (a.now []) st.heap g) :
    ∃ st' g', processSetGroup a.cb .reserve1 st g = some (st', g') ∧ Step st st' g g' ∧
      Held a true (a.now [.reserve1]) st'.heap g' := by
  unfold processSetGroup
  dsimp only
  cases hcreated : g.rowCreated with
  | true =>
    rw [if_pos rfl]
    have hheld : Held a true (a.now []) st.heap g :=
      ⟨h.created, h.deleted, h.row, fun _ hnot => absurd (hcreated.symm.trans hnot).symm Bool.false_ne_true,
        fun _ => h.none (.inl rfl)⟩
    obtain ⟨st', g', hrun, hedit, -, hheld'⟩ := callback_spec .reserve1 hheld
    exact ⟨st', g', hrun, hedit.toStep, hheld'⟩
  | false =>
    rw [if_neg Bool.false_ne_true]
    obtain ⟨p, hp, hcell, htable⟩ := h.row
    let copied : State α := { st with heap := st.heap.alloc ⟨g.index, a.first g.index⟩ }
    let saving : Group := { g with undoInfo := some st.heap.next }
    have hnext : p ≠ st.heap.next := Memory.ne_next hcell
    have hstep : Step st copied g saving := by
      refine ⟨rfl, rfl, rfl, ?_⟩
      refine Others.of_cell (p := st.heap.next) ?_ ?_ fun q hq => Memory.alloc_of_ne hq
      · intro row hrow
        exact absurd rfl (Memory.ne_next hrow)
      · intro row hrow
        change (st.heap.alloc _).cell st.heap.next = some row at hrow
        rw [Memory.alloc_self] at hrow
        cases hrow
        rfl
    have hheld : Held a true (a.now []) copied.heap saving := by
      refine ⟨h.created, h.deleted, ⟨p, hp, Memory.alloc_live hcell, htable⟩, fun _ _ => ?_, ?_⟩
      · refine ⟨st.heap.next, rfl, ?_, Memory.alloc_self _ _⟩
        change g.existingRow ≠ _
        rw [hp]
        exact fun heq => hnext (Option.some.inj heq)
      · rintro (h | h)
        · exact absurd h.symm Bool.false_ne_true
        · exact absurd (hcreated.symm.trans h) Bool.false_ne_true
    obtain ⟨st', g', hrun, hedit, -, hheld'⟩ := callback_spec .reserve1 hheld
    refine ⟨st', g', ?_, hstep.trans hedit.toStep, hheld'⟩
    rw [← hrun]
    simp only [Option.bind_eq_bind, hp, hcell, Option.bind_some, cb_duplicateRow, copied, saving, hcreated]
    rfl

theorem middle_spec (mode : Mode) (hmode : mode = .reserve2 ∨ mode = .action) (h : Held a true now st.heap g) :
    ∃ st' g', processSetGroup a.cb mode st g = some (st', g') ∧ Step st st' g g' ∧
      Held a true (a.edit mode now) st'.heap g' := by
  obtain ⟨st', g', hrun, hedit, -, hheld⟩ := callback_spec mode h
  refine ⟨st', g', ?_, hedit.toStep, hheld⟩
  rcases hmode with rfl | rfl <;> exact hrun

/-! ## FREE and UNDO -/

/-- The row of the container that a group is about has a content. -/
def Leaves (a : Input α) (content : Index → α) (heap : Memory (Row α)) (g : Group) : Prop :=
  (a.old g.index).isSome → ∃ p ∈ a.table, a.heap.cell p = some ⟨g.index, a.first g.index⟩ ∧
    heap.cell p = some ⟨g.index, content g.index⟩

theorem Leaves.frame {content : Index → α} (h : Leaves a content heap g) (hframe : Own g.index heap heap') :
    Leaves a content heap' g := by
  intro hsome
  obtain ⟨p, hp, hold, hcell⟩ := h hsome
  exact ⟨p, hp, hold, (hframe p _ rfl).mpr hcell⟩

theorem Held.existing (h : Held a saved now heap g) (hcreated : g.rowCreated = false) :
    ∃ p ∈ a.table, g.existingRow = some p ∧ a.heap.cell p = some ⟨g.index, a.first g.index⟩ ∧
      heap.cell p = some ⟨g.index, (now g.index).1⟩ := by
  obtain ⟨p, hp, hcell, -, htable⟩ := h.row
  exact ⟨p, (htable hcreated).1, hp, (htable hcreated).2, hcell⟩

theorem free_spec (h : Held a true now st.heap g) :
    ∃ st' g', processSetGroup a.cb .free st g = some (st', g') ∧ Step st st' g g' ∧
      Leaves a (fun i => (a.edit .free now i).1) st'.heap g' := by
  obtain ⟨st', g', hrun, hstep, -, hheld⟩ := callback_spec .free h
  have hprocess : processSetGroup a.cb .free st g =
      if g'.rowCreated then deleteExisting st' g' else deleteUndo st' g' := by
    unfold processSetGroup
    simp only [hrun, Option.bind_eq_bind, Option.bind_some]
  rw [hprocess]
  cases hcreated : g'.rowCreated with
  | true =>
    obtain ⟨p, hp, hcell, -⟩ := hheld.row
    obtain ⟨st'', g'', hdelete, hstep', -⟩ := deleteExisting_spec hp hcell
    refine ⟨st'', g'', ?_, (hstep.trans hstep').toStep, ?_⟩
    · rw [if_pos rfl]
      exact hdelete
    · intro hsome
      have hnone := hheld.created
      rw [hcreated, ← hstep'.index] at hnone
      rw [Option.isSome_iff_ne_none] at hsome
      exact absurd (Option.isNone_iff_eq_none.mp hnone.symm) hsome
  | false =>
    obtain ⟨st'', g'', hdelete, hstep', -, -, hcell⟩ := deleteUndo_spec hheld
    refine ⟨st'', g'', ?_, (hstep.trans hstep').toStep, ?_⟩
    · rw [if_neg Bool.false_ne_true]
      exact hdelete
    · intro _
      obtain ⟨p, hp, hrow, hold, hnew⟩ := hheld.existing hcreated
      rw [hstep'.index]
      exact ⟨p, hp, hold, (hcell p hrow).trans hnew⟩

theorem undo_spec (h : Held a true now st.heap g) :
    ∃ st' g', processSetGroup a.cb .undo st g = some (st', g') ∧ Step st st' g g' ∧ Leaves a a.first st'.heap g' := by
  obtain ⟨st', g', hrun, hstep, -, hheld⟩ := callback_spec .undo h
  cases hcreated : g'.rowCreated with
  | true =>
    obtain ⟨p, hp, hcell, -⟩ := hheld.row
    obtain ⟨st'', g'', hdelete, hstep', -⟩ := deleteExisting_spec hp hcell
    refine ⟨st'', g'', ?_, (hstep.trans hstep').toStep, ?_⟩
    · unfold processSetGroup
      simp only [hrun, Option.bind_eq_bind, Option.bind_some, hcreated, if_true]
      exact hdelete
    · intro hsome
      have hnone := hheld.created
      rw [hcreated, ← hstep'.index] at hnone
      rw [Option.isSome_iff_ne_none] at hsome
      exact absurd (Option.isNone_iff_eq_none.mp hnone.symm) hsome
  | false =>
    obtain ⟨p, hp, hrow, hold, hnew⟩ := hheld.existing hcreated
    obtain ⟨u, hu, hne, hcopy⟩ := hheld.copy rfl hcreated
    obtain ⟨heap, hwrite, hback, hrest⟩ := Memory.write_spec hnew ⟨g'.index, a.first g'.index⟩
    have hup : u ≠ p := by
      rintro rfl
      exact hne hrow
    -- the row is as the copy
    let restored : State α := { st' with heap }
    have hheld' : Held a true (fun i => (a.first i, (a.edit .undo now i).2)) restored.heap g' := by
      refine ⟨hheld.created, hheld.deleted, ⟨p, hrow, hback, fun h => ?_, fun _ => ⟨hp, hold⟩⟩, ?_, hheld.none⟩
      · exact absurd (hcreated.symm.trans h) Bool.false_ne_true
      · intro _ _
        refine ⟨u, hu, hne, ?_⟩
        change heap.cell u = _
        rw [hrest u hup]
        exact hcopy
    have hstep' : Edit st' restored g' g' := by
      refine Edit.of_cell rfl rfl hnew ?_ hrest
      intro row hcell
      rw [hback] at hcell
      cases hcell
      rfl
    obtain ⟨st'', g'', hdelete, hstep'', -, -, hcell⟩ := deleteUndo_spec hheld'
    refine ⟨st'', g'', ?_, (hstep.trans (hstep'.trans hstep'')).toStep, ?_⟩
    · unfold processSetGroup
      simp only [hrun, Option.bind_eq_bind, Option.bind_some, hcreated, hrow, hnew, hu, hcopy, cb_rowCopy, hwrite,
        if_neg Bool.false_ne_true]
      exact hdelete
    · intro _
      rw [hstep''.index]
      exact ⟨p, hp, hold, (hcell p hrow).trans hback⟩

end Priot.TableArray
