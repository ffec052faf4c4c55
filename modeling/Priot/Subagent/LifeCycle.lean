/-
# The life of a SET transaction

What the phases of one transaction may be, and in which order, stated apart from how the subagent keeps track of
them. A history lists when a phase was started and how it ended.
-/
import Priot.Subagent.SetVars

namespace Priot.Subagent

open List

/-! ## histories -/

/-- A phase is started on some variables, or ends. -/
inductive Mark (V : Type)
  | start (mode : Mode) (vars : List V)
  | finish (mode : Mode) (errstat : Int)

/-- A phase is running, or the last one is done. -/
inductive Stage
  | running (mode : Mode)
  | done (mode : Mode) (errstat : Int)

/-- The life of a transaction on `vars`. -/
inductive Life (vars : List V) : Stage → List (Mark V) → Prop
  | testSet : Life vars (.running .reserve1) [.start .reserve1 vars]
  | finish {m : Mode} {h : List (Mark V)} (e : Int) (hl : Life vars (.running m) h) :
    Life vars (.done m e) (h ++ [.finish m e])
  | reserve2 {h : List (Mark V)} (hl : Life vars (.done .reserve1 PRIOT_ERR_NOERROR) h) :
    Life vars (.running .reserve2) (h ++ [.start .reserve2 vars])
  | commitSet {h : List (Mark V)} (hl : Life vars (.done .reserve2 PRIOT_ERR_NOERROR) h) :
    Life vars (.running .action) (h ++ [.start .action vars])
  | cleanupFailed {e : Int} {h : List (Mark V)} (hl : Life vars (.done .reserve1 e) h) (he : e ≠ PRIOT_ERR_NOERROR) :
    Life vars (.running .free) (h ++ [.start .free vars])
  | cleanupTested {e : Int} {h : List (Mark V)} (hl : Life vars (.done .reserve2 e) h) :
    Life vars (.running .free) (h ++ [.start .free vars])
  | cleanupCommitted {h : List (Mark V)} (hl : Life vars (.done .action PRIOT_ERR_NOERROR) h) :
    Life vars (.running .commit) (h ++ [.start .commit vars])
  | undoSet {e : Int} {h : List (Mark V)} (hl : Life vars (.done .action e) h) :
    Life vars (.running .undo) (h ++ [.start .undo vars])

variable {V : Type} {vars v : List V} {h h₁ h₂ : List (Mark V)} {m : Mode} {e : Int} {st : Stage}

/-- The phase after which nothing is left of a transaction. -/
def Mode.Final (m : Mode) : Prop := m = .free ∨ m = .commit ∨ m = .undo

/-- The phases of a history. -/
def phases (h : List (Mark V)) : List Mode :=
  h.filterMap fun
    | .start m _ => some m
    | .finish _ _ => none

/-- The orders in which phases may run. -/
def runs : List (List Mode) :=
  [[.reserve1, .free], [.reserve1, .reserve2, .free], [.reserve1, .reserve2, .action, .commit],
    [.reserve1, .reserve2, .action, .undo]]

/-- A history keeps to the life cycle. -/
structure Follows (vars : List V) (h : List (Mark V)) : Prop where
  order : ∃ full ∈ runs, phases h <+: full
  vars : ∀ m v, .start m v ∈ h → v = vars
  action : ∀ h₁ v h₂, h = h₁ ++ .start .action v :: h₂ →
    .finish .reserve1 PRIOT_ERR_NOERROR ∈ h₁ ∧ .finish .reserve2 PRIOT_ERR_NOERROR ∈ h₁
  commit : ∀ h₁ v h₂, h = h₁ ++ .start .commit v :: h₂ → .finish .action PRIOT_ERR_NOERROR ∈ h₁

/-! ## what a life is like -/

theorem phases_append (h₁ h₂ : List (Mark V)) : phases (h₁ ++ h₂) = phases h₁ ++ phases h₂ := filterMap_append

/-- Which phases there have been, by the last one. -/
def Past : Mode → List Mode → Prop
  | .reserve1, ms => ms = [.reserve1]
  | .reserve2, ms => ms = [.reserve1, .reserve2]
  | .action, ms => ms = [.reserve1, .reserve2, .action]
  | .commit, ms => ms = [.reserve1, .reserve2, .action, .commit]
  | .undo, ms => ms = [.reserve1, .reserve2, .action, .undo]
  | .free, ms => ms = [.reserve1, .free] ∨ ms = [.reserve1, .reserve2, .free]

def Stage.mode : Stage → Mode
  | .running m => m
  | .done m _ => m

theorem Life.past (hl : Life vars st h) : Past st.mode (phases h) := by
  induction hl with
  | testSet => rfl
  | finish e _ ih =>
    rw [phases_append]
    exact (append_nil _).symm ▸ ih
  | reserve2 _ ih =>
    have ih : phases _ = [.reserve1] := ih
    rw [phases_append, ih]
    rfl
  | commitSet _ ih =>
    have ih : phases _ = [.reserve1, .reserve2] := ih
    rw [phases_append, ih]
    rfl
  | cleanupFailed _ _ ih =>
    have ih : phases _ = [.reserve1] := ih
    rw [phases_append, ih]
    exact .inl rfl
  | cleanupTested _ ih =>
    have ih : phases _ = [.reserve1, .reserve2] := ih
    rw [phases_append, ih]
    exact .inr rfl
  | cleanupCommitted _ ih =>
    have ih : phases _ = [.reserve1, .reserve2, .action] := ih
    rw [phases_append, ih]
    rfl
  | undoSet _ ih =>
    have ih : phases _ = [.reserve1, .reserve2, .action] := ih
    rw [phases_append, ih]
    rfl

theorem Past.exists_run {ms : List Mode} (h : Past m ms) : ∃ full ∈ runs, ms <+: full := by
  cases m with
  | reserve1 =>
    obtain rfl : ms = _ := h
    decide
  | reserve2 =>
    obtain rfl : ms = _ := h
    decide
  | action =>
    obtain rfl : ms = _ := h
    decide
  | commit =>
    obtain rfl : ms = _ := h
    decide
  | undo =>
    obtain rfl : ms = _ := h
    decide
  | free =>
    rcases h with rfl | rfl
    · decide
    · decide

theorem Life.vars_eq (hl : Life vars st h) : ∀ m v, .start m v ∈ h → v = vars := by
  have hone : ∀ {h : List (Mark V)} {k : Mode}, (∀ m v, .start m v ∈ h → v = vars) →
      ∀ m v, .start m v ∈ h ++ [.start k vars] → v = vars := by
    intro h k ih m v hm
    rcases mem_append.mp hm with hm | hm
    · exact ih m v hm
    · exact (Mark.start.inj (mem_singleton.mp hm)).2
  induction hl with
  | testSet => exact fun m v hm => (Mark.start.inj (mem_singleton.mp hm)).2
  | finish e _ ih =>
    intro m v hm
    rcases mem_append.mp hm with hm | hm
    · exact ih m v hm
    · exact absurd (mem_singleton.mp hm) (by simp)
  | reserve2 _ ih => exact hone ih
  | commitSet _ ih => exact hone ih
  | cleanupFailed _ _ ih => exact hone ih
  | cleanupTested _ ih => exact hone ih
  | cleanupCommitted _ ih => exact hone ih
  | undoSet _ ih => exact hone ih

/-- What has to be in a history before a phase is started. -/
def Warranted (h : List (Mark V)) : Mode → Prop
  | .action => .finish .reserve1 PRIOT_ERR_NOERROR ∈ h ∧ .finish .reserve2 PRIOT_ERR_NOERROR ∈ h
  | .commit => .finish .action PRIOT_ERR_NOERROR ∈ h
  | _ => True

theorem Life.done_mem (hl : Life vars (.done m e) h) :
    .finish m e ∈ h ∧ (m = .reserve2 → .finish .reserve1 PRIOT_ERR_NOERROR ∈ h) := by
  cases hl with
  | finish _ hl =>
    refine ⟨mem_append_right _ mem_cons_self, ?_⟩
    rintro rfl
    cases hl with
    | reserve2 hl =>
      cases hl with
      | finish _ hl => simp

theorem Life.warranted (hl : Life vars st h) : ∀ h₁ m v h₂, h = h₁ ++ .start m v :: h₂ → Warranted h₁ m := by
  -- a mark at the end is warranted by what is before it, and the others were before
  have hone : ∀ {h : List (Mark V)} {x : Mark V}, (∀ h₁ m v h₂, h = h₁ ++ .start m v :: h₂ → Warranted h₁ m) →
      (∀ m v, x = .start m v → Warranted h m) →
      ∀ h₁ m v h₂, h ++ [x] = h₁ ++ .start m v :: h₂ → Warranted h₁ m := by
    intro h x ih hx h₁ m v h₂ heq
    rcases eq_nil_or_concat h₂ with rfl | ⟨h₂, y, rfl⟩
    · obtain ⟨rfl, hy⟩ := append_inj' heq rfl
      exact hx m v (singleton_inj.mp hy)
    · rw [concat_eq_append, ← cons_append, ← append_assoc] at heq
      exact ih h₁ m v h₂ (append_inj' heq rfl).1
  induction hl with
  | testSet => exact hone (h := []) (fun h₁ m v h₂ h => absurd h (by simp)) fun m v h => by cases h; trivial
  | finish e _ ih => exact hone ih fun m v h => absurd h (by simp)
  | reserve2 _ ih => exact hone ih fun m v h => by cases h; trivial
  | commitSet hl ih =>
    refine hone ih fun m v h => ?_
    obtain ⟨rfl, -⟩ := Mark.start.inj h
    exact ⟨hl.done_mem.2 rfl, hl.done_mem.1⟩
  | cleanupFailed _ _ ih => exact hone ih fun m v h => by cases h; trivial
  | cleanupTested _ ih => exact hone ih fun m v h => by cases h; trivial
  | cleanupCommitted hl ih =>
    refine hone ih fun m v h => ?_
    obtain ⟨rfl, -⟩ := Mark.start.inj h
    exact hl.done_mem.1
  | undoSet _ ih => exact hone ih fun m v h => by cases h; trivial

theorem Life.follows (hl : Life vars st h) : Follows vars h :=
  ⟨hl.past.exists_run, hl.vars_eq, fun h₁ v h₂ => hl.warranted h₁ .action v h₂,
    fun h₁ v h₂ => hl.warranted h₁ .commit v h₂⟩

/-- A final phase has ended if and only if it is the last one. -/
def Ended (h : List (Mark V)) : Prop := ∃ m e, m.Final ∧ .finish m e ∈ h

theorem Life.ended_iff (hl : Life vars st h) : Ended h ↔ ∃ m e, m.Final ∧ st = .done m e := by
  -- before a phase is started nothing final has ended
  have hstart : ∀ {k : Mode} {e : Int} {h : List (Mark V)} {j : Mode}, ¬ k.Final →
      (Ended h ↔ ∃ m e', m.Final ∧ Stage.done k e = .done m e') →
      (Ended (h ++ [.start j vars]) ↔ ∃ m e, m.Final ∧ Stage.running j = .done m e) := by
    intro k e h j hk ih
    refine iff_of_false ?_ (by simp)
    rintro ⟨m, e', hm, hmem⟩
    have hmem : .finish m e' ∈ h := by simpa using hmem
    obtain ⟨m', e'', hm', hst⟩ := ih.mp ⟨m, e', hm, hmem⟩
    exact hk ((Stage.done.inj hst).1 ▸ hm')
  have hno : ∀ k : Mode, k = .reserve1 ∨ k = .reserve2 ∨ k = .action → ¬ k.Final := by
    rintro k (rfl | rfl | rfl) <;> simp [Mode.Final]
  induction hl with
  | testSet => exact iff_of_false (by simp [Ended]) (by simp)
  | finish e _ ih =>
    rename_i k h _
    have hnot : ¬ Ended h := fun hh => by simpa using ih.mp hh
    constructor
    · rintro ⟨m, e', hm, hmem⟩
      rcases mem_append.mp hmem with hmem | hmem
      · exact absurd ⟨m, e', hm, hmem⟩ hnot
      · obtain ⟨rfl, rfl⟩ := Mark.finish.inj (mem_singleton.mp hmem)
        exact ⟨m, e', hm, rfl⟩
    · rintro ⟨m, e', hm, hst⟩
      obtain ⟨rfl, rfl⟩ := Stage.done.inj hst
      exact ⟨k, e, hm, mem_append_right _ mem_cons_self⟩
  | reserve2 _ ih => exact hstart (hno _ (by simp)) ih
  | commitSet _ ih => exact hstart (hno _ (by simp)) ih
  | cleanupFailed _ _ ih => exact hstart (hno _ (by simp)) ih
  | cleanupTested _ ih => exact hstart (hno _ (by simp)) ih
  | cleanupCommitted _ ih => exact hstart (hno _ (by simp)) ih
  | undoSet _ ih => exact hstart (hno _ (by simp)) ih

end Priot.Subagent
