/-
# Least elements

What a search for the next element finds: the least element of a set, or nothing when the set is empty. The order is
any `<`; that two answers agree needs it to be trichotomous.
-/
import Mathlib.Order.Defs.Unbundled
import Mathlib.Data.List.Basic

namespace Priot.Lib

open List

variable {α : Type*} [LT α]

/-- The least element of a set, if the set has elements at all. -/
def LeastOf (S : α → Prop) : Option α → Prop
  | none => ∀ x, ¬ S x
  | some r => S r ∧ ∀ x, S x → ¬ x < r

namespace LeastOf

variable {S T : α → Prop} {r r' : Option α}

theorem mem {x : α} (h : LeastOf S (some x)) : S x := h.1

theorem congr (h : LeastOf S r) (hST : ∀ x, S x ↔ T x) : LeastOf T r := by
  cases r with
  | none => exact fun x hx => h x ((hST x).mpr hx)
  | some r => exact ⟨(hST r).mp h.1, fun x hx => h.2 x ((hST x).mpr hx)⟩

/-- Where there is something to find, something is found that is not greater. -/
theorem exists_le {x : α} (h : LeastOf S r) (hx : S x) : ∃ y, r = some y ∧ ¬ x < y := by
  cases r with
  | none => exact absurd hx (h x)
  | some y => exact ⟨y, rfl, h.2 x hx⟩

/-- Two answers to one search agree. -/
theorem unique [Std.Trichotomous (α := α) (· < ·)] (h : LeastOf S r) (h' : LeastOf S r') : r = r' := by
  cases r with
  | none =>
    cases r' with
    | none => rfl
    | some r' => exact absurd h'.1 (h r')
  | some r =>
    cases r' with
    | none => exact absurd h.1 (h' r)
    | some r' =>
      rw [Std.Trichotomous.trichotomous (r := fun x y : α => x < y) r r' (h'.2 r h.1) (h.2 r' h'.1)]

/-- What is found in a set that lies before another is found in both together. -/
theorem or_of_before [Std.Asymm (α := α) (· < ·)] {x : α} (h : LeastOf S (some x))
    (hbefore : ∀ y, T y → x < y) : LeastOf (fun y => S y ∨ T y) (some x) := by
  refine ⟨.inl h.1, fun y hy => ?_⟩
  rcases hy with hy | hy
  · exact h.2 y hy
  · exact Std.Asymm.asymm (r := fun x y : α => x < y) x y (hbefore y hy)

/-- Where the first set is empty the search goes on in the second. -/
theorem or_of_none (h : LeastOf T r) (hnone : ∀ x, ¬ S x) : LeastOf (fun y => S y ∨ T y) r :=
  h.congr fun x => (or_iff_right (hnone x)).symm

end LeastOf

/-- The least element of a list. -/
def least [DecidableLT α] : List α → Option α
  | [] => none
  | x :: xs =>
    match least xs with
    | none => some x
    | some y => if y < x then some y else some x

theorem least_spec [DecidableLT α] [Std.Asymm (α := α) (· < ·)] [IsTrans α (· < ·)]
    [Std.Trichotomous (α := α) (· < ·)] (xs : List α) : LeastOf (· ∈ xs) (least xs) := by
  induction xs with
  | nil => exact fun x hx => absurd hx not_mem_nil
  | cons x xs ih =>
    have hirrefl : ∀ z : α, ¬ z < z := fun z hz => Std.Asymm.asymm (r := fun x y : α => x < y) z z hz hz
    unfold least
    cases hl : least xs with
    | none =>
      rw [hl] at ih
      refine ⟨mem_cons_self, fun z hz => ?_⟩
      rcases mem_cons.mp hz with rfl | hz
      · exact hirrefl z
      · exact absurd hz (ih z)
    | some y =>
      rw [hl] at ih
      show LeastOf (· ∈ x :: xs) (if y < x then some y else some x)
      by_cases hyx : y < x
      · rw [if_pos hyx]
        refine ⟨mem_cons_of_mem x ih.1, fun z hz => ?_⟩
        rcases mem_cons.mp hz with rfl | hz
        · exact Std.Asymm.asymm (r := fun x y : α => x < y) y z hyx
        · exact ih.2 z hz
      · rw [if_neg hyx]
        refine ⟨mem_cons_self, fun z hz hzx => ?_⟩
        rcases mem_cons.mp hz with rfl | hz
        · exact hirrefl z hzx
        · -- `z` is not below `y`, and `y` is not below `x`.
          have hxy : x = y ∨ x < y := by
            by_contra hne
            rw [not_or] at hne
            exact hne.1 (Std.Trichotomous.trichotomous (r := fun x y : α => x < y) x y hne.2 hyx)
          rcases hxy with rfl | hxy
          · exact ih.2 z hz hzx
          · exact ih.2 z hz (IsTrans.trans (r := fun x y : α => x < y) z x y hzx hxy)

end Priot.Lib
