/-
# 32-bit integers

The query stores an integer as a `long`, whatever its type. As such it is read.
-/
import Priot.MteTrigger.Existence
import Mathlib.Tactic.Ring

namespace Priot.MteTrigger

variable {N : List VarBind} {u o : VarBind}

/-- The number that an entry is read as. -/
def number (v : VarBind) : Int := (v.integer.getD 0).toInt

/-- A 32-bit integer, stored as a `long`. -/
structure Integer32 (u : VarBind) : Prop where
  type : u.type ∈ [asnINTEGER, asnCOUNTER, asnGAUGE, asnTIMETICKS, asnUINTEGER]
  stored : ∃ octets, u.value = some octets ∧ octets.length = 8
  signed : u.type = asnINTEGER → -2 ^ 31 ≤ number u ∧ number u < 2 ^ 31
  unsigned : u.type ≠ asnINTEGER → 0 ≤ number u ∧ number u < 2 ^ 32

/-- What a query answers: some integers by increasing names. -/
structure Result32 (N : List VarBind) : Prop where
  nonempty : N ≠ []
  increasing : Increasing N
  integer : ∀ u ∈ N, Integer32 u

theorem readLong_some {octets : List (BitVec 8)} (h : octets.length = 8) : ∃ w, readLong octets = some w := by
  match octets, h with
  | [b0, b1, b2, b3, b4, b5, b6, b7], _ => exact ⟨_, rfl⟩

theorem Integer32.readable (h : Integer32 u) : ∃ w, u.integer = some w := by
  obtain ⟨octets, hvalue, hlen⟩ := h.stored
  unfold VarBind.integer
  rw [hvalue]
  exact readLong_some hlen

theorem number_eq {w : BitVec 64} (h : u.integer = some w) : number u = w.toInt := by
  unfold number
  rw [h]
  rfl

theorem Integer32.bounds (h : Integer32 u) : -2 ^ 31 ≤ number u ∧ number u < 2 ^ 32 := by
  by_cases htype : u.type = asnINTEGER
  · have hsigned := h.signed htype
    omega
  · have hunsigned := h.unsigned htype
    omega

theorem number_sub (hu : Integer32 u) (ho : Integer32 o) {w w' : BitVec 64} (hw : u.integer = some w)
    (hw' : o.integer = some w') : (w - w').toInt = number u - number o := by
  have hub := hu.bounds
  have hob := ho.bounds
  rw [number_eq hw] at hub
  rw [number_eq hw'] at hob
  rw [BitVec.toInt_sub, number_eq hw, number_eq hw']
  exact Int.bmod_eq_of_le (by omega) (by omega)

theorem Integer32.accepted (h : Integer32 u) : accepted u.type = true := by
  have htype := h.type
  simp only [List.mem_cons, List.not_mem_nil, or_false] at htype
  rcases htype with h | h | h | h | h
  all_goals
    rw [h]
    decide

theorem Integer32.ordinary (h : Integer32 u) : Ordinary u := by
  have htype := h.type
  simp only [List.mem_cons, List.not_mem_nil, or_false] at htype
  have hreal : u.type ≠ asnNULL ∧ ¬ (u.type = noSuchInstance ∨ u.type = noSuchObject ∨ u.type = asnPRIV_RETRY) := by
    rcases htype with h | h | h | h | h
    all_goals
      rw [h]
      decide
  refine ⟨?_, hreal.1, ?_⟩
  · unfold flatten
    rw [if_neg hreal.2]
  · obtain ⟨octets, hvalue, -⟩ := h.stored
    rw [hvalue]
    exact Option.some_ne_none _

theorem Result32.result (h : Result32 N) : Result N :=
  ⟨h.nonempty, h.increasing, fun u hu => (h.integer u hu).ordinary⟩

theorem Integer32.index (h : Integer32 u) (index : BitVec 32) : Integer32 { u with index := index } :=
  ⟨h.type, h.stored, h.signed, h.unsigned⟩

/-- An instance whose value is 1. -/
def one (i : Nat) : VarBind := ⟨[1, 3, i], asnINTEGER, some (1 :: List.replicate 7 0), 0⟩

theorem number_zero (i : Nat) : number (zero i) = 0 := rfl

theorem number_one (i : Nat) : number (one i) = 1 := rfl

theorem zero_integer (i : Nat) : Integer32 (zero i) where
  type := (by decide : asnINTEGER ∈ [asnINTEGER, asnCOUNTER, asnGAUGE, asnTIMETICKS, asnUINTEGER])
  stored := ⟨_, rfl, rfl⟩
  signed _ := by
    rw [number_zero]
    decide
  unsigned h := absurd rfl h

theorem one_integer (i : Nat) : Integer32 (one i) where
  type := (by decide : asnINTEGER ∈ [asnINTEGER, asnCOUNTER, asnGAUGE, asnTIMETICKS, asnUINTEGER])
  stored := ⟨_, rfl, rfl⟩
  signed _ := by
    rw [number_one]
    decide
  unsigned h := absurd rfl h

end Priot.MteTrigger
