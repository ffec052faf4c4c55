/-
# Results of code that may fault

`Ends E P x`: a value has `P`, and a fault is one that the caller answers for (`E`). Code that never faults by itself
has `Ends E P` for the `E` of what it calls.
-/
import Mathlib.Init

namespace Priot.Lib

variable {ε α β : Type} {E : ε → Prop} {P Q : α → Prop} {x : Except ε α}

/-- The result is a value with `P`, or a fault in `E`. -/
def Ends (E : ε → Prop) (P : α → Prop) : Except ε α → Prop
  | .ok a => P a
  | .error e => E e

theorem Ends.mono (hx : Ends E P x) (h : ∀ a, P a → Q a) : Ends E Q x := by
  cases x with
  | ok a => exact h a hx
  | error e => exact hx

theorem Ends.of_never (hx : Ends (fun _ => False) P x) : Ends E P x := by
  cases x with
  | ok a => exact hx
  | error e => exact hx.elim

theorem Ends.bind {R : β → Prop} {f : α → Except ε β} (hx : Ends E P x) (hf : ∀ a, P a → Ends E R (f a)) :
    Ends E R (x >>= f) := by
  cases x with
  | ok a => exact hf a hx
  | error e => exact hx

theorem Ends.of_ok {a : α} (hx : Ends E P x) (h : x = .ok a) : P a := by
  subst h
  exact hx

theorem Ends.of_error {e : ε} (hx : Ends E P x) (h : x = .error e) : E e := by
  subst h
  exact hx

theorem ok_bind (a : α) (f : α → Except ε β) : (Except.ok a >>= f) = f a := rfl

theorem error_bind (e : ε) (f : α → Except ε β) : (Except.error e >>= f) = .error e := rfl

/-- A value at the end of two steps has come through both. -/
theorem exists_of_bind_ok {b : β} {f : α → Except ε β} (h : x >>= f = .ok b) : ∃ a, x = .ok a ∧ f a = .ok b := by
  cases x with
  | ok a => exact ⟨a, rfl, h⟩
  | error e => cases h

end Priot.Lib
