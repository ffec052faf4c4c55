/-
# A SET that fails

The phases one after the other, over all groups. After UNDO the container holds the rows it held before with their old
contents; after FREE it holds them with what the callbacks have left.
-/
import Priot.TableArray.Phases

namespace Priot.TableArray

open BabySteps Lib

variable {α : Type} {heap : Memory (Row α)} {i : Index} {p : Ptr} {gs : List Group} {st : State α} {a : Input α}
  {modes : List Mode} {mode : Mode}

/-- What holds between the phases. -/
structure Running (a : Input α) (modes : List Mode) (st : State α) (gs : List Group) : Prop where
  table : st.table = a.table
  kept : ∀ p ∈ a.table, ∀ row, ¬ a.Addressed row.index → a.heap.cell p = some row → st.heap.cell p = some row
  held : ∀ g ∈ gs, Held a true (a.now modes) st.heap g
  indices : ∀ i, i ∈ gs.map Group.index ↔ a.Addressed i
  nodup : (gs.map Group.index).Nodup

theorem now_append (a : Input α) (modes : List Mode) (mode : Mode) :
    a.now (modes ++ [mode]) = a.edit mode (a.now modes) := by
  unfold Input.now
  rw [List.foldl_append]
  rfl

theorem running_reserve1 (a : Input α) :
    ∃ st gs, processSetRequests a.cb a.requests .reserve1 a.start none = some (st, gs) ∧
      Running a [.reserve1] st gs := by
  obtain ⟨st, gs, hgroup, hgrouping, hindices⟩ := groupRequests_spec .reserve1 0 a.requests (Grouping.start a)
  obtain ⟨st', gs', hrun, htable, hindex, hall, hframe⟩ := forEach_spec
    (f := processSetGroup a.cb .reserve1) (P := Held a false (a.now [])) (Q := Held a true (a.now [.reserve1]))
    (fun _ _ _ hframe h => h.frame hframe) (fun _ _ _ hframe h => h.frame hframe)
    (fun st g h => by
      obtain ⟨st', g', hrun, hstep, hheld⟩ := reserve1_spec h
      exact ⟨st', g', hrun, hstep.table, hstep.index, hheld, hstep.others⟩) hgrouping.nodup hgrouping.held
  have haddressed : ∀ i, i ∈ gs.map Group.index ↔ a.Addressed i := by
    intro i
    rw [hindices]
    exact or_iff_right List.not_mem_nil
  refine ⟨st', gs', ?_, htable.trans hgrouping.table, ?_, hall, ?_, ?_⟩
  · unfold processSetRequests
    change (groupRequests a.cb .reserve1 0 a.requests a.start []).bind _ = _
    rw [hgroup]
    exact hrun
  · intro p hp row hnot hrow
    refine (hframe p row (mt (haddressed row.index).mp hnot)).mpr ?_
    rw [hgrouping.kept p hp]
    exact hrow
  · rw [hindex]
    exact haddressed
  · rw [hindex]
    exact hgrouping.nodup

theorem running_middle (hmode : mode = .reserve2 ∨ mode = .action) (h : Running a modes st gs) :
    ∃ st' gs', processSetRequests a.cb a.requests mode st (some gs) = some (st', gs') ∧
      Running a (modes ++ [mode]) st' gs' := by
  obtain ⟨st', gs', hrun, htable, hindex, hall, hframe⟩ := forEach_spec
    (f := processSetGroup a.cb mode) (P := Held a true (a.now modes)) (Q := Held a true (a.now (modes ++ [mode])))
    (fun _ _ _ hframe h => h.frame hframe) (fun _ _ _ hframe h => h.frame hframe)
    (fun st g h => by
      obtain ⟨st', g', hrun, hstep, hheld⟩ := middle_spec mode hmode h
      rw [← now_append] at hheld
      exact ⟨st', g', hrun, hstep.table, hstep.index, hheld, hstep.others⟩) h.nodup h.held
  refine ⟨st', gs', hrun, htable.trans h.table, ?_, hall, ?_, ?_⟩
  · intro p hp row hnot hrow
    refine (hframe p row ?_).mpr (h.kept p hp row hnot hrow)
    exact mt (h.indices row.index).mp hnot
  · rw [hindex]
    exact h.indices
  · rw [hindex]
    exact h.nodup

theorem running_last {content : Index → α}
    (hstep : ∀ st g, Held a true (a.now modes) st.heap g → ∃ st' g', processSetGroup a.cb mode st g = some (st', g') ∧
      Step st st' g g' ∧ Leaves a content st'.heap g') (h : Running a modes st gs) :
    ∃ st' gs', processSetRequests a.cb a.requests mode st (some gs) = some (st', gs') ∧ st'.table = a.table ∧
      (∀ p ∈ a.table, ∀ row, ¬ a.Addressed row.index → a.heap.cell p = some row → st'.heap.cell p = some row) ∧
      ∀ p ∈ a.table, ∀ i c, a.Addressed i → a.heap.cell p = some ⟨i, c⟩ → st'.heap.cell p = some ⟨i, content i⟩ := by
  obtain ⟨st', gs', hrun, htable, hindex, hall, hframe⟩ := forEach_spec
    (f := processSetGroup a.cb mode) (P := Held a true (a.now modes)) (Q := Leaves a content)
    (fun _ _ _ hframe h => h.frame hframe) (fun _ _ _ hframe h => h.frame hframe)
    (fun st g h => by
      obtain ⟨st', g', hrun, hstep, hleaves⟩ := hstep st g h
      exact ⟨st', g', hrun, hstep.table, hstep.index, hleaves, hstep.others⟩) h.nodup h.held
  refine ⟨st', gs', hrun, htable.trans h.table, ?_, ?_⟩
  · intro p hp row hnot hrow
    refine (hframe p row ?_).mpr (h.kept p hp row hnot hrow)
    exact mt (h.indices row.index).mp hnot
  · intro p hp i c haddressed hcell
    have hin : i ∈ gs'.map Group.index := by
      rw [hindex]
      exact (h.indices i).mpr haddressed
    obtain ⟨g, hg, rfl⟩ := List.mem_map.mp hin
    have hold : a.old g.index = some c := (a.stored.mem g.index c).mp ⟨p, hp, hcell⟩
    obtain ⟨q, hq, hqold, hqcell⟩ := hall g hg (by rw [hold]; rfl)
    rw [a.stored.unique p hp q hq g.index c _ hcell hqold]
    exact hqcell

/-- What a SET leaves in a container when it fails. -/
def Restored (a : Input α) (st : State α) : Prop :=
  st.table = a.table ∧ ∀ p ∈ a.table, st.heap.cell p = a.heap.cell p

theorem restored_iff {content : Index → α} (htable : st.table = a.table)
    (hkept : ∀ p ∈ a.table, ∀ row, ¬ a.Addressed row.index → a.heap.cell p = some row → st.heap.cell p = some row)
    (hleft : ∀ p ∈ a.table, ∀ i c, a.Addressed i → a.heap.cell p = some ⟨i, c⟩ → st.heap.cell p = some ⟨i, content i⟩) :
    Restored a st ↔ ∀ i c, a.Addressed i → a.old i = some c → content i = c := by
  constructor
  · rintro ⟨-, hcells⟩ i c haddressed hold
    obtain ⟨p, hp, hcell⟩ := (a.stored.mem i c).mpr hold
    have hnow := hleft p hp i c haddressed hcell
    rw [hcells p hp, hcell] at hnow
    cases hnow
    rfl
  · intro hcontent
    refine ⟨htable, fun p hp => ?_⟩
    obtain ⟨⟨i, c⟩, hrow⟩ := a.stored.live p hp
    rw [hrow]
    by_cases haddressed : a.Addressed i
    · rw [← hcontent i c haddressed ((a.stored.mem i c).mp ⟨p, hp, hrow⟩)]
      exact hleft p hp i c haddressed hrow
    · exact hkept p hp ⟨i, c⟩ haddressed hrow

end Priot.TableArray
