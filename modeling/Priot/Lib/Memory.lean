/-
# A memory of objects

Objects are allocated, written and freed through pointers; to use one that has been freed is a fault. What an operation
leaves alone is said of the objects, not of the pointers.
-/
import Mathlib.Logic.Function.Basic

namespace Priot.Lib

structure Memory (α : Type) where
  cell : Nat → Option α
  next : Nat
  fresh : ∀ p, next ≤ p → cell p = none

namespace Memory

variable {α : Type} {P : α → Prop} {h h' h'' : Memory α} {p q : Nat} {x y : α}

def alloc (h : Memory α) (x : α) : Memory α where
  cell := Function.update h.cell h.next (some x)
  next := h.next + 1
  fresh p hp := by
    rw [Function.update_of_ne (by omega)]
    exact h.fresh p (by omega)

/-- What is at a live pointer becomes something else, or nothing. -/
def set (h : Memory α) (p : Nat) (x : Option α) (hlive : (h.cell p).isSome) : Memory α where
  cell := Function.update h.cell p x
  next := h.next
  fresh q hq := by
    have hne : q ≠ p := by
      rintro rfl
      rw [h.fresh q hq] at hlive
      exact absurd hlive Bool.false_ne_true
    rw [Function.update_of_ne hne]
    exact h.fresh q hq

def write (h : Memory α) (p : Nat) (x : α) : Option (Memory α) :=
  if hlive : (h.cell p).isSome then some (h.set p (some x) hlive) else none

def free (h : Memory α) (p : Nat) : Option (Memory α) :=
  if hlive : (h.cell p).isSome then some (h.set p none hlive) else none

theorem alloc_self (h : Memory α) (x : α) : (h.alloc x).cell h.next = some x := Function.update_self _ _ _

theorem alloc_of_ne (hp : p ≠ h.next) : (h.alloc x).cell p = h.cell p := Function.update_of_ne hp _ _

theorem ne_next (hp : h.cell p = some x) : p ≠ h.next := by
  rintro rfl
  rw [h.fresh _ (Nat.le_refl _)] at hp
  exact absurd hp (Option.some_ne_none x).symm

theorem alloc_live (hp : h.cell p = some x) : (h.alloc y).cell p = some x :=
  (alloc_of_ne (ne_next hp)).trans hp

theorem write_spec (hp : h.cell p = some x) (y : α) :
    ∃ h', h.write p y = some h' ∧ h'.cell p = some y ∧ ∀ q, q ≠ p → h'.cell q = h.cell q := by
  have hlive : (h.cell p).isSome := by rw [hp]; rfl
  refine ⟨h.set p (some y) hlive, dif_pos hlive, Function.update_self _ _ _, ?_⟩
  intro q hq
  exact Function.update_of_ne hq _ _

theorem free_spec (hp : h.cell p = some x) :
    ∃ h', h.free p = some h' ∧ h'.cell p = none ∧ ∀ q, q ≠ p → h'.cell q = h.cell q := by
  have hlive : (h.cell p).isSome := by rw [hp]; rfl
  refine ⟨h.set p none hlive, dif_pos hlive, Function.update_self _ _ _, ?_⟩
  intro q hq
  exact Function.update_of_ne hq _ _

theorem write_cell (hp : h.cell p = some x) (y : α) :
    ∃ h', h.write p y = some h' ∧ h'.cell = Function.update h.cell p (some y) := by
  have hlive : (h.cell p).isSome := by rw [hp]; rfl
  exact ⟨h.set p (some y) hlive, dif_pos hlive, rfl⟩

theorem free_cell (hp : h.cell p = some x) : ∃ h', h.free p = some h' ∧ h'.cell = Function.update h.cell p none := by
  have hlive : (h.cell p).isSome := by rw [hp]; rfl
  exact ⟨h.set p none hlive, dif_pos hlive, rfl⟩

theorem lt_next (hp : h.cell p = some x) : p < h.next := by
  by_contra hge
  rw [h.fresh p (Nat.not_lt.1 hge)] at hp
  cases hp

/-! ## Frames -/

/-- The objects of a kind are where they were, and there are no others. -/
def Frame (P : α → Prop) (h h' : Memory α) : Prop := ∀ p x, P x → (h'.cell p = some x ↔ h.cell p = some x)

theorem Frame.refl (P : α → Prop) (h : Memory α) : Frame P h h := fun _ _ _ => Iff.rfl

theorem Frame.trans (hf : Frame P h h') (hf' : Frame P h' h'') : Frame P h h'' :=
  fun p x hx => (hf' p x hx).trans (hf p x hx)

theorem Frame.mono {Q : α → Prop} (hf : Frame P h h') (hQ : ∀ x, Q x → P x) : Frame Q h h' :=
  fun p x hx => hf p x (hQ x hx)

/-- A pointer changes, between objects of other kinds. -/
theorem Frame.of_cell (hold : ∀ x, h.cell p = some x → ¬ P x) (hnew : ∀ x, h'.cell p = some x → ¬ P x)
    (hrest : ∀ q, q ≠ p → h'.cell q = h.cell q) : Frame P h h' := by
  intro q x hx
  by_cases hq : q = p
  · subst hq
    exact iff_of_false (fun hc => hnew x hc hx) fun hc => hold x hc hx
  · rw [hrest q hq]

end Memory

end Priot.Lib
