/-
# Loops

A loop that counts from 0 to a bound, and one that goes from step to step along links. A round may go wrong. Both are
proved with an invariant that each round carries on.
-/
import Mathlib.Init

namespace Priot.Lib

variable {σ : Type}

/-- So many rounds, the first of them with the index `i`. -/
def countFrom (f : Nat → σ → Option σ) : Nat → Nat → σ → Option σ
  | _, 0, s => some s
  | i, n + 1, s => (f i s).bind (countFrom f (i + 1) n)

/-- `for (i = 0; i < n; i++)`. -/
def forLoop (n : Nat) (f : Nat → σ → Option σ) (s : σ) : Option σ := countFrom f 0 n s

/-- What holds before the first round and goes from each round to the next holds at the end, and the loop gets there. -/
theorem countFrom_spec {f : Nat → σ → Option σ} (I : Nat → σ → Prop) {n i : Nat} {s : σ} (first : I i s)
    (round : ∀ j s, i ≤ j → j < i + n → I j s → ∃ s', f j s = some s' ∧ I (j + 1) s') :
    ∃ s', countFrom f i n s = some s' ∧ I (i + n) s' := by
  induction n generalizing i s with
  | zero => exact ⟨s, rfl, first⟩
  | succ n ih =>
    obtain ⟨s₁, e₁, h₁⟩ := round i s (Nat.le_refl i) (by omega) first
    obtain ⟨s₂, e₂, h₂⟩ := ih h₁ fun j s hlower hupper => round j s (by omega) (by omega)
    refine ⟨s₂, ?_, by rwa [show i + (n + 1) = i + 1 + n by omega]⟩
    rw [countFrom, e₁, Option.bind_some, e₂]

theorem forLoop_spec {n : Nat} {f : Nat → σ → Option σ} {s : σ} (I : Nat → σ → Prop) (first : I 0 s)
    (round : ∀ i s, i < n → I i s → ∃ s', f i s = some s' ∧ I (i + 1) s') : ∃ s', forLoop n f s = some s' ∧ I n s' := by
  have hloop := countFrom_spec I (n := n) first fun j s _ hupper => round j s (by omega)
  rwa [Nat.zero_add] at hloop

/-! ## Linked steps -/

variable {S : Type}

/-- Each step leaves a state and the step that comes next. At most `n` steps are taken. -/
def runSteps (f : S → σ → Option (σ × Option S)) : Nat → Option S → σ → Option σ
  | _, none, s => some s
  | 0, some _, _ => none
  | n + 1, some c, s => (f c s).bind fun r => runSteps f n r.2 r.1

/-- What holds where a step has been left: `I` of the step that comes next, which has a smaller rank, or `Q`. -/
def Leads (rank : S → Nat) (I : S → σ → Prop) (Q : σ → Prop) (n : Nat) : Option S → σ → Prop
  | none, s => Q s
  | some d, s => I d s ∧ rank d < n

theorem runSteps_spec {f : S → σ → Option (σ × Option S)} {rank : S → Nat} {I : S → σ → Prop} {Q : σ → Prop}
    (step : ∀ c s, I c s → ∃ s' next, f c s = some (s', next) ∧ Leads rank I Q (rank c) next s') {n : Nat} {c : S}
    {s : σ} (hi : I c s) (hn : rank c < n) : ∃ s', runSteps f n (some c) s = some s' ∧ Q s' := by
  induction n generalizing c s with
  | zero => omega
  | succ n ih =>
    obtain ⟨s₁, next, e₁, h₁⟩ := step c s hi
    rw [runSteps, e₁, Option.bind_some]
    cases next with
    | none => exact ⟨s₁, by rw [runSteps], h₁⟩
    | some d =>
      have hless : rank d < n := by
        have hrank := h₁.2
        omega
      exact ih h₁.1 hless

/-- More steps than are needed change nothing. -/
theorem runSteps_mono {f : S → σ → Option (σ × Option S)} {m n : Nat} {c : Option S} {s s' : σ} (hmn : m ≤ n)
    (h : runSteps f m c s = some s') : runSteps f n c s = some s' := by
  induction m generalizing n c s with
  | zero =>
    cases c with
    | none => rwa [runSteps] at h ⊢
    | some c => cases h
  | succ m ih =>
    cases c with
    | none => rwa [runSteps] at h ⊢
    | some c =>
      obtain ⟨n, rfl⟩ : ∃ k, n = k + 1 := ⟨n - 1, by omega⟩
      rw [runSteps] at h ⊢
      obtain ⟨r, hr, hrest⟩ := Option.bind_eq_some_iff.1 h
      rw [hr, Option.bind_some]
      exact ih (by omega) hrest

end Priot.Lib
