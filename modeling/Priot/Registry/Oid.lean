/-
# Comparing OIDs

The comparison that the registry searches with also says where two OIDs part, one past the number of subidentifiers
they share. What a name covers, from itself to the next name of its length, is what continues it.
-/
import Priot.Asn01.Types
import Mathlib.Data.List.Lex

namespace Priot.Registry

open List

/-! ## the functions -/

def oidCompare : ObjId → ObjId → Ordering
  | v :: x, w :: y => if v = w then oidCompare x y else if v < w then .lt else .gt
  | [], [] => .eq
  | [], _ :: _ => .lt
  | _ :: _, [] => .gt

/-- The loop of `Api_oidCompareLl` after `i` subidentifiers. At the end `len` is -1, so that one is counted there
as well. -/
def oidCompareLlFrom (i : Nat) : ObjId → ObjId → Ordering × Nat
  | v :: x, w :: y => if v = w then oidCompareLlFrom (i + 1) x y else (if v < w then .lt else .gt, i + 1)
  | [], [] => (.eq, i + 1)
  | [], _ :: _ => (.lt, i + 1)
  | _ :: _, [] => (.gt, i + 1)

def oidCompareLl (x y : ObjId) : Ordering × Nat := oidCompareLlFrom 0 x y

/-- What a length field of type `u_char` leaves of an OID. -/
def counted (x : ObjId) : ObjId := x.take (x.length % 256)

/-- The last subidentifier is incremented. -/
def bump : ObjId → ObjId
  | [] => []
  | [v] => [v + 1]
  | v :: w :: x => v :: bump (w :: x)

variable {x y z name : ObjId} {v : Oid}

theorem counted_of_lt (h : x.length < 256) : counted x = x := by
  unfold counted
  rw [Nat.mod_eq_of_lt h, take_length]

/-! ## what the comparisons decide -/

theorem oidCompare_spec (x y : ObjId) :
    (oidCompare x y = .lt ↔ x < y) ∧ (oidCompare x y = .eq ↔ x = y) ∧ (oidCompare x y = .gt ↔ y < x) := by
  induction x generalizing y with
  | nil => cases y <;> simp [oidCompare]
  | cons v x ih =>
    cases y with
    | nil => simp [oidCompare]
    | cons w y =>
      unfold oidCompare
      rw [cons_lt_cons_iff, cons_lt_cons_iff, List.cons.injEq]
      obtain ⟨hlt, heq, hgt⟩ := ih y
      grind

theorem oidCompare_lt : oidCompare x y = .lt ↔ x < y := (oidCompare_spec x y).1

theorem oidCompare_eq : oidCompare x y = .eq ↔ x = y := (oidCompare_spec x y).2.1

theorem oidCompare_gt : oidCompare x y = .gt ↔ y < x := (oidCompare_spec x y).2.2

/-- How many subidentifiers two OIDs share. -/
def common : ObjId → ObjId → Nat
  | v :: x, w :: y => if v = w then common x y + 1 else 0
  | _, _ => 0

theorem oidCompareLlFrom_eq (i : Nat) (x y : ObjId) :
    oidCompareLlFrom i x y = (oidCompare x y, common x y + i + 1) := by
  induction x generalizing y i with
  | nil => cases y <;> simp [oidCompareLlFrom, oidCompare, common]
  | cons v x ih =>
    cases y with
    | nil => simp [oidCompareLlFrom, oidCompare, common]
    | cons w y =>
      unfold oidCompareLlFrom oidCompare common
      split
      · rw [ih]
        congr 1
        omega
      · rw [Nat.zero_add]

theorem oidCompareLl_eq (x y : ObjId) : oidCompareLl x y = (oidCompare x y, common x y + 1) :=
  oidCompareLlFrom_eq 0 x y

theorem common_skip (hyx : y ≤ x) (h : common x y < common y z) : z ≤ x ∧ common x z = common x y := by
  induction y generalizing x z with
  | nil => simp [common] at h
  | cons w y ih =>
    cases z with
    | nil => simp [common] at h
    | cons u z =>
      cases x with
      | nil => exact absurd hyx (by simp)
      | cons v x =>
        rw [← List.not_lt, cons_lt_cons_iff] at hyx
        rw [← List.not_lt, cons_lt_cons_iff]
        unfold common at h ⊢
        have := @ih x z
        rw [← List.not_lt, ← List.not_lt] at this
        grind

/-! ## what a name covers -/

theorem prefix_of_between (h : name <+: y) (hlo : name ≤ x) (hhi : x ≤ y) : name <+: x := by
  induction name generalizing x y with
  | nil => exact nil_prefix
  | cons v name ih =>
    obtain ⟨y, rfl⟩ := h
    cases x with
    | nil => exact absurd hlo (by simp)
    | cons w x =>
      rw [cons_append] at hhi
      rw [← List.not_lt, cons_lt_cons_iff] at hlo hhi
      have hwv : w = v := by grind
      subst hwv
      refine cons_prefix_cons.mpr ⟨rfl, ih (prefix_append name y) ?_ ?_⟩
      · rw [← List.not_lt]
        exact fun hlt => hlo (.inr ⟨rfl, hlt⟩)
      · rw [← List.not_lt]
        exact fun hlt => hhi (.inr ⟨rfl, hlt⟩)

/-- From the name to the next one of its length. -/
def Covers (name x : ObjId) : Prop := name ≤ x ∧ x < bump name

theorem bump_length (x : ObjId) : (bump x).length = x.length := by
  fun_induction bump x with
  | case1 => rfl
  | case2 => rfl
  | case3 v w x ih => rw [length_cons, ih, length_cons (a := v)]

/-- The last subidentifier of a name can be incremented. -/
def Bumps (name : ObjId) : Prop := ∃ v ∈ name.getLast?, v ≠ 4294967295

theorem bumps_cons_cons {w : Oid} : Bumps (v :: w :: x) ↔ Bumps (w :: x) := by
  unfold Bumps
  rw [getLast?_cons_cons]

theorem not_lt_nil (x : ObjId) : ¬ x < [] := List.not_lt_nil x

theorem lt_succ_iff {w : Oid} (h : v ≠ 4294967295) : w < v + 1 ↔ w ≤ v := by
  have hv : v.toNat ≠ 4294967295 := fun hv => h (UInt32.toNat_inj.mp hv)
  have := v.toNat_lt
  rw [UInt32.lt_iff_toNat_lt, UInt32.le_iff_toNat_le, UInt32.toNat_add]
  show w.toNat < (v.toNat + 1) % 2 ^ 32 ↔ _
  omega

theorem covers_iff (h : Bumps name) : Covers name x ↔ name <+: x := by
  unfold Covers
  rw [← List.not_lt]
  fun_induction bump name generalizing x with
  | case1 => simp [Bumps] at h
  | case2 v =>
    cases x with
    | nil => simp
    | cons w y =>
      have hv : v ≠ 4294967295 := by simpa [Bumps] using h
      rw [cons_lt_cons_iff, cons_lt_cons_iff, lt_succ_iff hv, cons_prefix_cons]
      have := not_lt_nil y
      have := nil_prefix (l := y)
      grind
  | case3 v w name ih =>
    cases x with
    | nil => simp
    | cons u y =>
      rw [cons_lt_cons_iff, cons_lt_cons_iff, cons_prefix_cons, ← ih (bumps_cons_cons.mp h)]
      grind

end Priot.Registry
