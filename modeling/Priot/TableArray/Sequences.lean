/-
# What a SET leaves of a table array

UNDO always leaves the table as it was, FREE only if the callbacks have left it so. COMMIT leaves it as the callbacks
have edited it, unless a callback of COMMIT itself changes a mark.
-/
import Priot.TableArray.Committed

namespace Priot.TableArray

open BabySteps Lib

variable {α : Type} {gs : List Group} {st : State α} {a : Input α} {modes : List Mode}

/-- A SET has no row used that has been freed, and leaves the table as it should. -/
def Right (a : Input α) (sequence : Sequence) : Prop :=
  ∃ st, phases a.cb a.requests sequence.modes a.start none = some st ∧
    if sequence = .actionCommit then Stores st.heap st.table a.committed else Restored a st

/-- What the callbacks must keep. -/
def Keeps (a : Input α) : Sequence → Prop
  | .reserve1Free => ∀ i c, a.Addressed i → a.old i = some c → (a.now [.reserve1, .free] i).1 = c
  | .reserve2Free => ∀ i c, a.Addressed i → a.old i = some c → (a.now [.reserve1, .reserve2, .free] i).1 = c
  | .actionUndo => True
  | .actionCommit => ∀ i, a.Addressed i → (a.final i).2 = (a.decided i).2

theorem phases_cons {cb : TableArrayCallbacks α} {requests : List Request} {mode : Mode} {st' : State α}
    {saved : Option (List Group)} (h : processSetRequests cb requests mode st saved = some (st', gs)) :
    phases cb requests (mode :: modes) st saved = phases cb requests modes st' (some gs) := by
  rw [phases, h]
  rfl

theorem running_reserve2 (a : Input α) : ∃ st gs, Running a [.reserve1, .reserve2] st gs ∧
    ∀ modes, phases a.cb a.requests (.reserve1 :: .reserve2 :: modes) a.start none =
      phases a.cb a.requests modes st (some gs) := by
  obtain ⟨st, gs, hreserve1, hrunning⟩ := running_reserve1 a
  obtain ⟨st', gs', hreserve2, hrunning'⟩ := running_middle (.inl rfl) hrunning
  exact ⟨st', gs', hrunning', fun modes => (phases_cons hreserve1).trans (phases_cons hreserve2)⟩

theorem running_action (a : Input α) : ∃ st gs, Running a [.reserve1, .reserve2, .action] st gs ∧
    ∀ modes, phases a.cb a.requests (.reserve1 :: .reserve2 :: .action :: modes) a.start none =
      phases a.cb a.requests modes st (some gs) := by
  obtain ⟨st, gs, hrunning, hphases⟩ := running_reserve2 a
  obtain ⟨st', gs', haction, hrunning'⟩ := running_middle (.inr rfl) hrunning
  exact ⟨st', gs', hrunning', fun modes => (hphases _).trans (phases_cons haction)⟩

theorem free_iff (h : Running a modes st gs) :
    (∃ st', phases a.cb a.requests [.free] st (some gs) = some st' ∧ Restored a st') ↔
      ∀ i c, a.Addressed i → a.old i = some c → (a.now (modes ++ [.free]) i).1 = c := by
  have hstep : ∀ st g, Held a true (a.now modes) st.heap g → ∃ st' g',
      processSetGroup a.cb .free st g = some (st', g') ∧ Step st st' g g' ∧ Leaves a (fun i => (a.now (modes ++ [.free]) i).1) st'.heap g' := by
    intro st g hheld
    rw [now_append]
    exact free_spec hheld
  obtain ⟨st', gs', hrun, htable, hkept, hleft⟩ := running_last hstep h
  have hphases : phases a.cb a.requests [.free] st (some gs) = some st' := phases_cons hrun
  rw [← restored_iff htable hkept hleft, hphases]
  constructor
  · rintro ⟨_, ⟨⟩, hrestored⟩
    exact hrestored
  · exact fun hrestored => ⟨st', rfl, hrestored⟩

theorem undo_restores (h : Running a modes st gs) :
    ∃ st', phases a.cb a.requests [.undo] st (some gs) = some st' ∧ Restored a st' := by
  obtain ⟨st', gs', hrun, htable, hkept, hleft⟩ := running_last (fun st g hheld => undo_spec hheld) h
  refine ⟨st', phases_cons hrun, (restored_iff htable hkept hleft).mpr ?_⟩
  intro i c _ hold
  unfold Input.first
  rw [hold]
  rfl

theorem commit_iff (h : Running a [.reserve1, .reserve2, .action] st gs) :
    (∃ st', phases a.cb a.requests [.commit] st (some gs) = some st' ∧ Stores st'.heap st'.table a.committed) ↔
      ∀ i, a.Addressed i → (a.final i).2 = (a.decided i).2 := by
  have hindices : ∀ i, i ∈ (gs.map Group.index).reverse ++ [] ↔ a.Addressed i := by
    intro i
    rw [List.append_nil, List.mem_reverse]
    exact h.indices i
  have hnew : ∀ i ∈ gs.map Group.index, a.Addressed i ∧ i ∉ [] :=
    fun i hi => ⟨(h.indices i).mp hi, List.not_mem_nil⟩
  rcases forEach_commit h.committing h.nodup h.held hnew with ⟨st', gs', hrun, hcommitting⟩ | ⟨hnone, hmarks⟩
  · have hprocess : processSetRequests a.cb a.requests .commit st (some gs) = some (st', gs') := hrun
    have hphases : phases a.cb a.requests [.commit] st (some gs) = some st' := phases_cons hprocess
    rw [hphases]
    constructor
    · rintro ⟨_, ⟨⟩, hstores⟩ i haddressed
      exact hcommitting.marks hindices hstores haddressed
    · intro hmarks
      exact ⟨st', rfl, hcommitting.stores hindices hmarks⟩
  · have hphases : phases a.cb a.requests [.commit] st (some gs) = none := by
      rw [phases, processSetRequests]
      simp only [Option.bind_eq_bind, Option.bind_some, hnone, Option.bind_none]
    rw [hphases]
    constructor
    · rintro ⟨_, ⟨⟩, -⟩
    · intro hall
      exact absurd (fun i hi => hall i ((hindices i).mp hi)) hmarks

/-- A SET leaves the table as it should exactly if the callbacks keep what FREE and COMMIT rely on. -/
theorem right_iff_keeps (a : Input α) (sequence : Sequence) : Right a sequence ↔ Keeps a sequence := by
  unfold Right
  cases sequence with
  | reserve1Free =>
    obtain ⟨st, gs, hreserve1, hrunning⟩ := running_reserve1 a
    have hphases : phases a.cb a.requests Sequence.reserve1Free.modes a.start none =
        phases a.cb a.requests [.free] st (some gs) := phases_cons hreserve1
    rw [hphases]
    exact free_iff hrunning
  | reserve2Free =>
    obtain ⟨st, gs, hrunning, hphases⟩ := running_reserve2 a
    have hphases := hphases [.free]
    change phases a.cb a.requests Sequence.reserve2Free.modes a.start none = _ at hphases
    rw [hphases]
    exact free_iff hrunning
  | actionUndo =>
    obtain ⟨st, gs, hrunning, hphases⟩ := running_action a
    have hphases := hphases [.undo]
    change phases a.cb a.requests Sequence.actionUndo.modes a.start none = _ at hphases
    rw [hphases]
    exact iff_of_true (undo_restores hrunning) trivial
  | actionCommit =>
    obtain ⟨st, gs, hrunning, hphases⟩ := running_action a
    have hphases := hphases [.commit]
    change phases a.cb a.requests Sequence.actionCommit.modes a.start none = _ at hphases
    rw [hphases]
    exact commit_iff hrunning

/-- A table of one row, whose `set_reserve1` writes to the row, and a request for it. -/
def written : Input Nat where
  create _ := 0
  set mode := if mode = .reserve1 then some fun _ _ deleted => (2, deleted) else none
  requests := [⟨false, [1]⟩]
  heap := (Memory.mk (fun _ => none) 0 fun _ _ => rfl).alloc ⟨[1], 1⟩
  table := [0]
  old i := if i = [1] then some 1 else none
  stored := by
    refine ⟨?_, List.nodup_singleton 0, ?_, ?_⟩
    · simp [Memory.alloc]
    · simp
    · intro i c
      simp [Memory.alloc, eq_comm]

/-- FREE leaves what has been written. -/
theorem free_keeps_written : ¬ Right written .reserve1Free := by
  rintro ⟨st, hrun, -, hrestored⟩
  have hwritten : (phases written.cb written.requests Sequence.reserve1Free.modes written.start none).map
      (fun st => st.heap.cell 0) = some (some ⟨[1], 2⟩) := by
    decide +kernel
  rw [hrun] at hwritten
  have hcell : st.heap.cell 0 = some ⟨[1], 2⟩ := Option.some.inj hwritten
  have hold : written.heap.cell 0 = some ⟨[1], 1⟩ := by
    decide +kernel
  have hsame := hrestored 0 List.mem_cons_self
  rw [hcell, hold] at hsame
  exact absurd hsame (by decide)

end Priot.TableArray
