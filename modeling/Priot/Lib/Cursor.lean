/-
# A cursor in a list, and what stands for it

A cursor keeps a position in a list that nothing changes. A machine whose every move is answered as the cursor answers
it is answered so over any run.
-/
import Mathlib.Data.List.Basic

namespace Priot.Lib

open List

/-! ## runs of a machine -/

namespace Machine

variable {σ τ ι β γ : Type}

/-- A machine answers the requests one after the other; `none` is a run that goes wrong. -/
def run (step : σ → ι → Option (β × σ)) : σ → List ι → Option (List β × σ)
  | s, [] => some ([], s)
  | s, i :: is => do
    let p ← step s i
    let q ← run step p.2 is
    some (p.1 :: q.1, q.2)

/-- Each request of the run meets a state with `P`. -/
def Along (step : σ → ι → Option (β × σ)) (P : σ → ι → Prop) : σ → List ι → Prop
  | _, [] => True
  | s, i :: is => P s i ∧ ∀ b s', step s i = some (b, s') → Along step P s' is

/-- The run of a machine that never goes wrong. -/
def answers (step : τ → ι → γ × τ) : τ → List ι → List γ × τ
  | t, [] => ([], t)
  | t, i :: is =>
    let p := step t i
    let q := answers step p.2 is
    (p.1 :: q.1, q.2)

variable {step : σ → ι → Option (β × σ)} {model : τ → ι → γ × τ} {R : σ → τ → Prop} {P : σ → ι → Prop} {g : γ → β}

theorem run_cons {s s' : σ} {i : ι} {is : List ι} {b : β} (h : step s i = some (b, s')) :
    run step s (i :: is) = (run step s' is).map fun q => (b :: q.1, q.2) := by
  rw [run, h]
  show (run step s' is).bind (fun q => some (b :: q.1, q.2)) = _
  cases run step s' is <;> rfl

/-- A step that answers as the model and keeps to it does so over any run. -/
theorem run_simulates
    (h : ∀ s t i, R s t → P s i → ∃ s', step s i = some (g (model t i).1, s') ∧ R s' (model t i).2) (is : List ι) :
    ∀ {s : σ} {t : τ}, R s t → Along step P s is →
      ∃ s', run step s is = some ((answers model t is).1.map g, s') ∧ R s' (answers model t is).2 := by
  induction is with
  | nil =>
    intro s t hR _
    exact ⟨s, rfl, hR⟩
  | cons i is ih =>
    intro s t hR hall
    obtain ⟨s₁, e₁, hR₁⟩ := h s t i hR hall.1
    obtain ⟨s₂, e₂, hR₂⟩ := ih hR₁ (hall.2 _ s₁ e₁)
    refine ⟨s₂, ?_, hR₂⟩
    rw [run_cons e₁, e₂]
    rfl

end Machine

/-! ## the cursor -/

/-- What is asked of an iterator. -/
inductive Move
  | first
  | next
  | curr
  | last
  | reset
  deriving DecidableEq, Repr

/-- An element, or none of them; or nothing but that the cursor is back. -/
inductive Reply (α : Type)
  | element (x : Option α)
  | back

/-- A list and a position in it, which is the length of the list at its end. -/
structure Cursor (α : Type) where
  elements : List α
  pos : Nat

namespace Cursor

variable {α : Type}

def move (c : Cursor α) : Move → Reply α × Cursor α
  | .first => (.element c.elements.head?, c)
  | .next =>
    let pos := min (c.pos + 1) c.elements.length
    (.element c.elements[pos]?, { c with pos := pos })
  | .curr => (.element c.elements[c.pos]?, c)
  | .last => (.element c.elements.getLast?, c)
  | .reset => (.back, { c with pos := 0 })

/-- From the front of the list to behind its end. -/
def pass (n : Nat) : List Move := .reset :: .first :: List.replicate n .next

theorem answers_elements (moves : List Move) (c : Cursor α) : (Machine.answers move c moves).2.elements = c.elements := by
  induction moves generalizing c with
  | nil => rfl
  | cons m moves ih =>
    rw [Machine.answers]
    have hmove : (c.move m).2.elements = c.elements := by
      cases m <;> rfl
    exact (ih _).trans hmove

theorem answers_nexts (xs ys : List α) (y : α) :
    (Machine.answers move ⟨xs ++ y :: ys, xs.length⟩ (List.replicate (ys.length + 1) .next)).1 =
      ys.map (fun x => Reply.element (some x)) ++ [.element none] := by
  induction ys generalizing xs y with
  | nil =>
    simp [Machine.answers, move]
  | cons z zs ih =>
    have hpos : min (xs.length + 1) (xs ++ y :: z :: zs).length = (xs ++ [y]).length := by
      simp only [length_append, length_cons, length_nil]
      omega
    have hlist : xs ++ y :: z :: zs = (xs ++ [y]) ++ z :: zs := by simp
    have hget : (xs ++ y :: z :: zs)[(xs ++ [y]).length]? = some z := by
      rw [hlist, getElem?_append_right (Nat.le_refl _), Nat.sub_self]
      rfl
    rw [length_cons, replicate_succ, Machine.answers]
    simp only [move, hpos, hget]
    rw [hlist, ih (xs ++ [y]) z]
    rfl

/-- A pass meets every element once, in order, and then the end. -/
theorem answers_pass (c : Cursor α) : (Machine.answers move c (pass c.elements.length)).1 =
      .back :: (c.elements.map (fun x => Reply.element (some x)) ++ [.element none]) := by
  obtain ⟨xs, p⟩ := c
  cases xs with
  | nil => rfl
  | cons x xs =>
    have hnext := answers_nexts [] xs x
    simp only [nil_append, length_nil] at hnext
    rw [pass, Machine.answers, Machine.answers]
    simp only [move, length_cons, hnext]
    rfl

end Cursor

end Priot.Lib
