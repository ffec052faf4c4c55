/-
# A list up to the first element that ends it

What is reached when a list is gone through until something ends it, in terms of what stands before an element.
-/
import Mathlib.Data.List.Basic
import Mathlib.Tactic.Cases

namespace Priot.Lib

open List

variable {α : Type} {p e : α → Bool} {l : List α} {a b : α}

/-- A list up to the first element that ends it, inclusive. -/
def upTo (p : α → Bool) : List α → List α
  | [] => []
  | a :: l => if p a then [a] else a :: upTo p l

theorem upTo_sublist (p : α → Bool) (l : List α) : (upTo p l).Sublist l := by
  induction l with
  | nil => exact List.Sublist.refl _
  | cons a l ih =>
    unfold upTo
    split
    · exact (nil_sublist l).cons_cons a
    · exact ih.cons_cons a

variable [DecidableEq α]

/-- What stands before an element. -/
def before (l : List α) (a : α) : List α := l.takeWhile (· ≠ a)

theorem before_cons (l : List α) (a b : α) : before (b :: l) a = if b = a then [] else b :: before l a := by
  unfold before
  rw [takeWhile_cons]
  by_cases h : b = a <;> simp [h]

/-- An element is reached if nothing that counts ends the list before it. -/
theorem mem_upTo_filter : a ∈ upTo p (l.filter e) ↔ a ∈ l ∧ e a ∧ ∀ b ∈ before l a, e b → ¬ p b := by
  induction l with
  | nil => simp [upTo]
  | cons b l ih =>
    rw [before_cons, filter_cons]
    by_cases hba : b = a
    · subst hba
      cases he : e b with
      | true =>
        rw [if_pos rfl, if_pos rfl]
        refine iff_of_true ?_ ⟨mem_cons_self, rfl, fun x hx => absurd hx not_mem_nil⟩
        unfold upTo
        split <;> exact mem_cons_self
      | false =>
        rw [if_neg Bool.false_ne_true, ih]
        exact iff_of_false (fun h => absurd (he.symm.trans h.2.1) Bool.false_ne_true)
          fun h => absurd h.2.1 Bool.false_ne_true
    · have hab : a ≠ b := Ne.symm hba
      rw [if_neg hba, mem_cons, or_iff_right hab, forall_mem_cons]
      cases he : e b with
      | false => simp [ih]
      | true =>
        rw [if_pos rfl]
        unfold upTo
        cases hp : p b with
        | true => simp [hab]
        | false => simp [hab, ih]

/-- What stands before an element stands before what comes behind it. -/
theorem before_subset (h : b ∈ before l a) : before l b ⊆ before l a := by
  induction l with
  | nil => exact absurd h not_mem_nil
  | cons x l ih =>
    rw [before_cons] at h ⊢
    rw [before_cons]
    by_cases hxa : x = a
    · rw [if_pos hxa] at h
      exact absurd h not_mem_nil
    · rw [if_neg hxa] at h ⊢
      by_cases hxb : x = b
      · rw [if_pos hxb]
        exact nil_subset _
      · rw [if_neg hxb]
        have hb : b ∈ before l a := (mem_cons.mp h).resolve_left (Ne.symm hxb)
        exact cons_subset_cons x (ih hb)

theorem mem_of_mem_before (h : b ∈ before l a) : b ∈ l := (takeWhile_sublist _).mem h

end Priot.Lib
