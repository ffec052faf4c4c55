/-
# Hysteresis

A sample on a side that is armed disarms it, and arms the other one. So a side is armed exactly if no sample on it has
come since the last one on the other side.
-/
import Mathlib.Data.List.Induction
import Mathlib.Tactic.Cases

namespace Priot.Lib

open List

variable {α : Type} {up down : α → Prop} {l : List α} {x : α}

/-! ## Since -/

/-- There has been an `up` since the last `down`. -/
def Since (up down : α → Prop) (l : List α) : Prop :=
  ∃ earlier x later, l = earlier ++ x :: later ∧ up x ∧ ∀ y ∈ later, ¬ down y

theorem not_since_nil : ¬ Since up down [] := by
  rintro ⟨earlier, x, later, h, -⟩
  exact append_ne_nil_of_right_ne_nil earlier (cons_ne_nil x later) h.symm

theorem since_concat : Since up down (l ++ [x]) ↔ up x ∨ Since up down l ∧ ¬ down x := by
  constructor
  · rintro ⟨earlier, y, later, h, hup, hlater⟩
    rcases eq_nil_or_concat later with rfl | ⟨later', z, rfl⟩
    · obtain ⟨-, hxy⟩ := append_inj' h rfl
      rw [List.cons.injEq] at hxy
      rw [hxy.1]
      exact .inl hup
    · rw [concat_eq_append, ← cons_append, ← append_assoc] at h
      obtain ⟨hl, hxz⟩ := append_inj' h rfl
      rw [List.cons.injEq] at hxz
      rw [concat_eq_append, forall_mem_append, forall_mem_singleton] at hlater
      rw [hxz.1]
      exact .inr ⟨⟨earlier, y, later', hl, hup, hlater.1⟩, hlater.2⟩
  · rintro (hup | ⟨⟨earlier, y, later, rfl, hup, hlater⟩, hdown⟩)
    · exact ⟨l, x, [], rfl, hup, fun y hy => absurd hy not_mem_nil⟩
    · refine ⟨earlier, y, later ++ [x], ?_, hup, ?_⟩
      · rw [append_assoc, cons_append]
      · rw [forall_mem_append, forall_mem_singleton]
        exact ⟨hlater, hdown⟩

/-- The last sample of those on a side is on one side only. -/
theorem Since.not_both (hdisjoint : ∀ x, up x → ¬ down x) (h : Since up down l) : ¬ Since down up l := by
  induction l using reverseRecOn with
  | nil => exact absurd h not_since_nil
  | append_singleton l x ih =>
    rw [since_concat] at h ⊢
    rintro (hdown | ⟨hsince, hup⟩)
    · rcases h with hup | ⟨-, hnot⟩
      · exact hdisjoint x hup hdown
      · exact hnot hdown
    · rcases h with hup' | ⟨h, -⟩
      · exact hup hup'
      · exact ih h hsince

/-! ## The two sides -/

/-- Which sides are armed. -/
structure Sides where
  up : Bool
  down : Bool

/-- A sample: first the upper side is looked at, and then the lower one. -/
def Sides.sample (s : Sides) (up down : Bool) : Sides :=
  let s := if up && s.up then ⟨false, true⟩ else s
  if down && s.down then ⟨true, false⟩ else s

/-- The sides after some samples. -/
structure Sides.After (up down : α → Prop) (l : List α) (s : Sides) : Prop where
  upper : s.up = true ↔ ¬ Since up down l
  lower : s.down = true ↔ ¬ Since down up l

theorem Sides.after_nil (up down : α → Prop) : Sides.After up down [] ⟨true, true⟩ :=
  ⟨iff_of_true rfl not_since_nil, iff_of_true rfl not_since_nil⟩

/-- The last sample. -/
theorem Sides.After.concat [DecidablePred up] [DecidablePred down] (hdisjoint : ∀ x, up x → ¬ down x) {s : Sides}
    (h : Sides.After up down l s) (x : α) : Sides.After up down (l ++ [x]) (s.sample (up x) (down x)) := by
  have hboth : s.up = true ∨ s.down = true := by
    rw [h.upper, h.lower, ← not_and_or]
    exact fun hsince => hsince.1.not_both hdisjoint hsince.2
  constructor
  · rw [since_concat]
    by_cases hup : up x
    · refine iff_of_false ?_ (not_not_intro (.inl hup))
      simp only [sample, hup, hdisjoint x hup]
      cases hs : s.up <;> simp [hs]
    · rw [or_iff_right hup]
      by_cases hdown : down x
      · refine iff_of_true ?_ fun hsince => hsince.2 hdown
        cases hs : s.down with
        | true => simp [sample, hup, hdown, hs]
        | false =>
          have htrue : s.up = true := hboth.resolve_right (Bool.eq_false_iff.mp hs)
          simp [sample, hup, hdown, hs, htrue]
      · simp only [sample, hup, hdown, not_false_eq_true, and_true]
        exact h.upper
  · rw [since_concat]
    by_cases hdown : down x
    · have hup : ¬ up x := fun hup => hdisjoint x hup hdown
      refine iff_of_false ?_ (not_not_intro (.inl hdown))
      simp only [sample, hup, hdown]
      cases hs : s.down <;> simp [hs]
    · rw [or_iff_right hdown]
      by_cases hup : up x
      · refine iff_of_true ?_ fun hsince => hsince.2 hup
        cases hs : s.up with
        | true => simp [sample, hup, hdown, hs]
        | false =>
          have htrue : s.down = true := hboth.resolve_left (Bool.eq_false_iff.mp hs)
          simp [sample, hup, hdown, hs, htrue]
      · simp only [sample, hup, hdown, not_false_eq_true, and_true]
        exact h.lower

end Priot.Lib
