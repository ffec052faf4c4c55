/-
# `Agree` — streams that agree on their first elements

A function of a stream that looks only at the first `n` elements gives the same answer on streams
that agree on these. What is proved here is how agreement goes through `drop`, `take` and `get`.
-/
import Mathlib.Data.Stream.Init

namespace Stream'

variable {α : Type} {m₁ m₂ m₃ : Stream' α} {i j n : Nat}

/-- The first `n` elements are the same. -/
def AgreeOn (n : Nat) (m₁ m₂ : Stream' α) : Prop := ∀ i, i < n → m₁.get i = m₂.get i

theorem AgreeOn.refl (n : Nat) (m : Stream' α) : AgreeOn n m m := by
  intro i _
  rfl

theorem AgreeOn.symm (h : AgreeOn n m₁ m₂) : AgreeOn n m₂ m₁ := by
  intro i hi
  exact (h i hi).symm

theorem AgreeOn.mono (h : AgreeOn n m₁ m₂) (hij : i ≤ n) : AgreeOn i m₁ m₂ := by
  intro j hj
  exact h j (by omega)

theorem AgreeOn.head (h : AgreeOn n m₁ m₂) (hn : 0 < n) : m₁.head = m₂.head := h 0 hn

theorem AgreeOn.drop (h : AgreeOn n m₁ m₂) (i : Nat) : AgreeOn (n - i) (m₁.drop i) (m₂.drop i) := by
  intro j hj
  rw [get_drop, get_drop]
  exact h (i + j) (by omega)

theorem AgreeOn.tail (h : AgreeOn n m₁ m₂) : AgreeOn (n - 1) m₁.tail m₂.tail := h.drop 1

theorem AgreeOn.take (h : AgreeOn n m₁ m₂) (hi : i ≤ n) : m₁.take i = m₂.take i := by
  induction i generalizing n m₁ m₂ with
  | zero => rfl
  | succ i ih =>
    rw [take_succ, take_succ, h.head (by omega), ih h.tail (by omega)]

/-- A part of the stream that lies in what is agreed on. -/
theorem AgreeOn.take_drop (h : AgreeOn n m₁ m₂) (hij : i + j ≤ n) :
    (m₁.drop i).take j = (m₂.drop i).take j := (h.drop i).take (by omega)

/-- Two continuations of one list agree on it. -/
theorem agreeOn_append (bs : List α) (m₁ m₂ : Stream' α) : AgreeOn bs.length (bs ++ₛ m₁) (bs ++ₛ m₂) := by
  induction bs with
  | nil =>
    intro i hi
    exact absurd hi (Nat.not_lt_zero i)
  | cons b bs ih =>
    intro i hi
    cases i with
    | zero => rfl
    | succ i => exact ih i (Nat.lt_of_succ_lt_succ hi)

end Stream'
