/-
# Comparison functions

When a comparison function in the manner of C is a total order on keys, two objects with equal keys may still be
different objects, so it is a preorder on the objects.
-/
import Mathlib.Data.List.Basic
import Mathlib.Tactic.Ring

namespace Priot.Lib

open List

/-- The function orders all objects by their keys. -/
structure TotalCompare {α : Type*} (f : α → α → Int) : Prop where
  swap : ∀ a b, f a b < 0 ↔ 0 < f b a
  trans : ∀ a b c, f a b ≤ 0 → f b c ≤ 0 → f a c ≤ 0

namespace TotalCompare

variable {α : Type*} {f : α → α → Int} (hf : TotalCompare f)
include hf

theorem self (a : α) : f a a = 0 := by
  have h := hf.swap a a
  omega

theorem eq_comm (a b : α) : f a b = 0 ↔ f b a = 0 := by
  have h₁ := hf.swap a b
  have h₂ := hf.swap b a
  omega

theorem le_iff (a b : α) : f a b ≤ 0 ↔ 0 ≤ f b a := by
  have h := hf.swap b a
  omega

/-- Objects with equal keys compare alike, on the left. -/
theorem congr_left {a b : α} (h : f a b = 0) (c : α) : (f a c < 0 ↔ f b c < 0) ∧ (f a c = 0 ↔ f b c = 0) := by
  have h' : f b a = 0 := (hf.eq_comm a b).mp h
  have h₁ : f a c ≤ 0 → f b c ≤ 0 := hf.trans b a c (le_of_eq h')
  have h₂ : f b c ≤ 0 → f a c ≤ 0 := hf.trans a b c (le_of_eq h)
  have h₃ : f c a ≤ 0 → f c b ≤ 0 := fun hc => hf.trans c a b hc (le_of_eq h)
  have h₄ : f c b ≤ 0 → f c a ≤ 0 := fun hc => hf.trans c b a hc (le_of_eq h')
  rw [hf.le_iff c a, hf.le_iff c b] at h₃ h₄
  omega

theorem lt_of_lt_of_le {a b c : α} (h₁ : f a b < 0) (h₂ : f b c ≤ 0) : f a c < 0 := by
  by_contra h
  have hca : f c a ≤ 0 := (hf.le_iff c a).mpr (by omega)
  have hba : f b a ≤ 0 := hf.trans b c a h₂ hca
  have hab := (hf.swap a b).mp h₁
  omega

theorem lt_of_le_of_lt {a b c : α} (h₁ : f a b ≤ 0) (h₂ : f b c < 0) : f a c < 0 := by
  by_contra h
  have hca : f c a ≤ 0 := (hf.le_iff c a).mpr (by omega)
  have hcb : f c b ≤ 0 := hf.trans c a b hca h₁
  have hbc := (hf.swap b c).mp h₂
  omega

end TotalCompare

/-! ## comparisons from others -/

section Derived

variable {α β : Type*} {f g : α → α → Int}

theorem TotalCompare.comap {h : β → β → Int} (hh : TotalCompare h) (k : α → β) :
    TotalCompare fun a b => h (k a) (k b) :=
  ⟨fun a b => hh.swap (k a) (k b), fun a b c => hh.trans (k a) (k b) (k c)⟩

/-- The order of the integers. -/
def intCompare (a b : Int) : Int := if a > b then 1 else if a < b then -1 else 0

theorem intCompare_total : TotalCompare intCompare := by
  constructor
  · intro a b
    simp only [intCompare]
    split_ifs <;> omega
  · intro a b c
    simp only [intCompare]
    split_ifs <;> omega

theorem intCompare_eq_zero {a b : Int} : intCompare a b = 0 ↔ a = b := by
  constructor
  · intro h
    rw [intCompare] at h
    split_ifs at h <;> omega
  · rintro rfl
    exact intCompare_total.self a

/-- The second comparison decides where the first does not. -/
def lexCompare (f g : α → α → Int) (a b : α) : Int := if f a b = 0 then g a b else f a b

theorem lexCompare_eq_zero {a b : α} : lexCompare f g a b = 0 ↔ f a b = 0 ∧ g a b = 0 := by
  rw [lexCompare]
  by_cases h : f a b = 0
  · rw [if_pos h]
    exact ⟨fun hg => ⟨h, hg⟩, And.right⟩
  · rw [if_neg h]
    exact iff_of_false h fun hfg => h hfg.1

theorem lexCompare_total (hf : TotalCompare f) (hg : TotalCompare g) : TotalCompare (lexCompare f g) := by
  constructor
  · intro a b
    have hswap := hf.swap a b
    have hcomm := hf.eq_comm a b
    simp only [lexCompare]
    by_cases h : f a b = 0
    · rw [if_pos h, if_pos (hcomm.mp h)]
      exact hg.swap a b
    · rw [if_neg h, if_neg fun h' => h (hcomm.mpr h')]
      exact hswap
  · intro a b c h₁ h₂
    simp only [lexCompare] at *
    by_cases hab : f a b = 0
    · rw [if_pos hab] at h₁
      have hcongr := hf.congr_left hab c
      by_cases hbc : f b c = 0
      · rw [if_pos hbc] at h₂
        rw [if_pos (hcongr.2.mpr hbc)]
        exact hg.trans a b c h₁ h₂
      · rw [if_neg hbc] at h₂
        rw [if_neg fun h => hbc (hcongr.2.mp h)]
        exact le_of_lt (hcongr.1.mpr (lt_of_le_of_ne h₂ hbc))
    · rw [if_neg hab] at h₁
      have hab' : f a b < 0 := lt_of_le_of_ne h₁ hab
      have hac : f a c < 0 := by
        by_cases hbc : f b c = 0
        · exact hf.lt_of_lt_of_le hab' (le_of_eq hbc)
        · rw [if_neg hbc] at h₂
          exact hf.lt_of_lt_of_le hab' h₂
      rw [if_neg (ne_of_lt hac)]
      exact le_of_lt hac

end Derived

/-! ## `memcmp` -/

/-- `memcmp` on arrays with zeros behind what is listed. -/
def memcmp : Nat → List UInt8 → List UInt8 → Int
  | 0, _, _ => 0
  | n + 1, a, b =>
    if a.headD 0 < b.headD 0 then -1
    else if b.headD 0 < a.headD 0 then 1
    else memcmp n a.tail b.tail

theorem memcmp_cons (n : Nat) (x y : UInt8) (a b : List UInt8) : memcmp (n + 1) (x :: a) (y :: b) =
    if x < y then -1 else if y < x then 1 else memcmp n a b := rfl

theorem memcmp_total (n : Nat) : TotalCompare (memcmp n) := by
  induction n with
  | zero => exact ⟨fun _ _ => by simp [memcmp], fun _ _ _ _ _ => by simp [memcmp]⟩
  | succ n ih =>
    constructor
    · intro a b
      have hs := ih.swap a.tail b.tail
      simp only [memcmp, UInt8.lt_iff_toNat_lt]
      split_ifs <;> omega
    · intro a b c
      have ht := ih.trans a.tail b.tail c.tail
      simp only [memcmp, UInt8.lt_iff_toNat_lt]
      split_ifs <;> omega

/-- Nothing differs behind the end of both. -/
theorem memcmp_nil (n : Nat) : memcmp n [] [] = 0 := by
  induction n with
  | zero => rfl
  | succ n ih => simpa [memcmp] using ih

theorem memcmp_eq_zero_iff_take : ∀ {n : Nat} {a b : List UInt8}, n ≤ a.length → n ≤ b.length →
    (memcmp n a b = 0 ↔ a.take n = b.take n) := by
  intro n
  induction n with
  | zero => intro a b _ _; simp [memcmp]
  | succ n ih =>
    intro a b ha hb
    obtain ⟨x, a, rfl⟩ := exists_cons_of_length_pos (Nat.lt_of_lt_of_le (Nat.succ_pos n) ha)
    obtain ⟨y, b, rfl⟩ := exists_cons_of_length_pos (Nat.lt_of_lt_of_le (Nat.succ_pos n) hb)
    have hrec := ih (Nat.le_of_succ_le_succ ha) (Nat.le_of_succ_le_succ hb)
    rw [memcmp_cons, take_succ_cons, take_succ_cons, List.cons.injEq]
    by_cases hxy : x = y
    · subst hxy
      rw [if_neg (UInt8.lt_irrefl x), if_neg (UInt8.lt_irrefl x), hrec]
      simp
    · have hne : x.toNat ≠ y.toNat := fun h => hxy (UInt8.toNat_inj.mp h)
      refine iff_of_false ?_ fun h => hxy h.1
      intro h
      simp only [UInt8.lt_iff_toNat_lt] at h
      split_ifs at h <;> omega

theorem memcmp_eq_zero_iff {n : Nat} {a b : List UInt8} (ha : a.length = n) (hb : b.length = n) :
    memcmp n a b = 0 ↔ a = b := by
  rw [memcmp_eq_zero_iff_take (le_of_eq ha.symm) (le_of_eq hb.symm), take_of_length_le (le_of_eq ha),
    take_of_length_le (le_of_eq hb)]

/-- As many octets as the first text has are equal if and only if the second begins with it. -/
theorem memcmp_eq_zero_iff_begins {a b : List UInt8} (h : a.length ≤ b.length) : memcmp a.length a b = 0 ↔ a <+: b := by
  rw [memcmp_eq_zero_iff_take (le_refl _) h, take_length, prefix_iff_eq_take]

theorem memcmp_of_ne {x y : UInt8} (h : x ≠ y) (n m : Nat) (a b : List UInt8) :
    memcmp (n + 1) (x :: a) (y :: b) = memcmp (m + 1) (x :: a) (y :: b) := by
  have hne : x.toNat ≠ y.toNat := fun h' => h (UInt8.toNat_inj.mp h')
  simp only [memcmp_cons, UInt8.lt_iff_toNat_lt]
  split_ifs <;> omega

/-- To compare further than both texts reach finds nothing. -/
theorem memcmp_add : ∀ {k : Nat} {a b : List UInt8}, a.length ≤ k → b.length ≤ k → ∀ m : Nat,
    memcmp (k + m) a b = memcmp k a b := by
  intro k
  induction k with
  | zero =>
    intro a b ha hb m
    rw [length_eq_zero_iff.mp (Nat.le_zero.mp ha), length_eq_zero_iff.mp (Nat.le_zero.mp hb), memcmp_nil,
      memcmp_nil]
  | succ k ih =>
    intro a b ha hb m
    rw [Nat.add_right_comm, memcmp, memcmp, ih (by rw [length_tail]; omega) (by rw [length_tail]; omega)]

/-- The first list lies before the second where they part, so that neither begins with the other. -/
def PartsBefore {α : Type*} [LT α] : List α → List α → Prop
  | x :: a, y :: b => x < y ∨ x = y ∧ PartsBefore a b
  | _, _ => False

section PartsBefore

variable {α : Type*} [LE α] [LT α] [Std.IsLinearOrder α] [Std.LawfulOrderLT α] {a b c : List α}

theorem PartsBefore.trans (hab : PartsBefore a b) (hbc : PartsBefore b c) : PartsBefore a c := by
  induction a generalizing b c with
  | nil => exact hab.elim
  | cons x a ih =>
    obtain ⟨y, b, rfl⟩ | rfl : (∃ y b', b = y :: b') ∨ b = [] := by cases b <;> simp
    · obtain ⟨z, c, rfl⟩ | rfl : (∃ z c', c = z :: c') ∨ c = [] := by cases c <;> simp
      · rcases hab with hxy | ⟨rfl, hab⟩
        · rcases hbc with hyz | ⟨rfl, -⟩
          · exact .inl (Std.lt_trans hxy hyz)
          · exact .inl hxy
        · rcases hbc with hyz | ⟨rfl, hbc⟩
          · exact .inl hyz
          · exact .inr ⟨rfl, ih hab hbc⟩
      · exact hbc.elim
    · exact hab.elim

theorem PartsBefore.irrefl {α : Type*} [LE α] [LT α] [Std.LawfulOrderLT α] (a : List α) : ¬ PartsBefore a a := by
  induction a with
  | nil => exact id
  | cons x a ih => exact fun h => h.elim Std.lt_irrefl fun h => ih h.2

/-- After what they share, the next item decides. -/
theorem partsBefore_append {α : Type*} [LT α] {a b : List α} {x y : α} (hxy : x < y) (s : List α) : PartsBefore (s ++ x :: a) (s ++ y :: b) := by
  induction s with
  | nil => exact .inl hxy
  | cons z s ih => exact .inr ⟨rfl, ih⟩

end PartsBefore

/-- Compared as far as both reach, two texts are told apart where they part. -/
theorem memcmp_min (a b : List UInt8) : (memcmp (min a.length b.length) a b < 0 ↔ PartsBefore a b) ∧
    (memcmp (min a.length b.length) a b = 0 ↔ a <+: b ∨ b <+: a) := by
  induction a generalizing b with
  | nil => simp [memcmp, PartsBefore]
  | cons x a ih =>
    cases b with
    | nil => simp [memcmp, PartsBefore]
    | cons y b =>
      obtain ⟨hlt, heq⟩ := ih b
      rw [length_cons, length_cons, Nat.succ_min_succ, memcmp_cons, cons_prefix_cons,
        cons_prefix_cons]
      simp only [PartsBefore]
      grind

/-! ## rearranging part of a list -/

section Rearranged

variable {α : Type*} {P Q : Set Nat} {xs ys zs : List α}

/-- `ys` holds the same things as `xs`; they have moved among the positions `P` only. -/
structure Rearranged (P : Set Nat) (xs ys : List α) : Prop where
  perm : ys.Perm xs
  frame : ∀ k, k ∉ P → ys[k]? = xs[k]?
  within : ∀ k, k ∈ P → ∃ m, m ∈ P ∧ ys[k]? = xs[m]?

namespace Rearranged

theorem refl (P : Set Nat) (xs : List α) : Rearranged P xs xs :=
  ⟨List.Perm.refl xs, fun _ _ => rfl, fun k hk => ⟨k, hk, rfl⟩⟩

theorem trans (h₁ : Rearranged P xs ys) (h₂ : Rearranged P ys zs) : Rearranged P xs zs := by
  refine ⟨h₂.perm.trans h₁.perm, ?_, ?_⟩
  · intro k hk
    rw [h₂.frame k hk, h₁.frame k hk]
  · intro k hk
    obtain ⟨m, hm, e₂⟩ := h₂.within k hk
    obtain ⟨l, hl, e₁⟩ := h₁.within m hm
    exact ⟨l, hl, e₂.trans e₁⟩

theorem mono (h : Rearranged P xs ys) (hPQ : P ⊆ Q) : Rearranged Q xs ys := by
  refine ⟨h.perm, fun k hk => h.frame k fun hP => hk (hPQ hP), ?_⟩
  intro k hk
  by_cases hP : k ∈ P
  · obtain ⟨m, hm, e⟩ := h.within k hP
    exact ⟨m, hPQ hm, e⟩
  · exact ⟨k, hk, h.frame k hP⟩

theorem length_eq (h : Rearranged P xs ys) : ys.length = xs.length :=
  h.perm.length_eq

/-- What holds of everything at the positions before holds of everything there after. -/
theorem forall_at (h : Rearranged P xs ys) {p : α → Prop} (hp : ∀ k, k ∈ P → ∀ x, xs[k]? = some x → p x) :
    ∀ k, k ∈ P → ∀ x, ys[k]? = some x → p x := by
  intro k hk x hx
  obtain ⟨m, hm, e⟩ := h.within k hk
  exact hp m hm x (e ▸ hx)

/-- Two positions exchanged. -/
theorem exchange {i j : Nat} {x y : α} (hi : i ∈ P) (hj : j ∈ P) (hx : xs[i]? = some x) (hy : xs[j]? = some y) :
    Rearranged P xs ((xs.set i y).set j x) := by
  obtain ⟨hil, rfl⟩ := List.getElem?_eq_some_iff.mp hx
  obtain ⟨hjl, rfl⟩ := List.getElem?_eq_some_iff.mp hy
  refine ⟨set_set_perm hil hjl, ?_, ?_⟩
  · intro k hk
    have hik : i ≠ k := fun h => hk (h ▸ hi)
    have hjk : j ≠ k := fun h => hk (h ▸ hj)
    rw [getElem?_set_ne hjk, getElem?_set_ne hik]
  · intro k hk
    by_cases hjk : j = k
    · subst hjk
      exact ⟨i, hi, by simp [hil, hjl]⟩
    · rw [getElem?_set_ne hjk]
      by_cases hik : i = k
      · subst hik
        exact ⟨j, hj, by simp [hil, hjl]⟩
      · exact ⟨k, hk, by rw [getElem?_set_ne hik]⟩

end Rearranged

/-- The things at the positions `P` are in order. -/
def OrderedOn (f : α → α → Int) (P : Set Nat) (xs : List α) : Prop :=
  ∀ a ∈ P, ∀ b ∈ P, a ≤ b → ∀ x y, xs[a]? = some x → xs[b]? = some y → f x y ≤ 0

/-- Order at some positions survives what happens at others. -/
theorem OrderedOn.of_frame {f : α → α → Int} (h : OrderedOn f P xs) (hr : Rearranged Q xs ys)
    (hd : ∀ k, k ∈ P → k ∉ Q) : OrderedOn f P ys := by
  intro a ha b hb hab x y hx hy
  rw [hr.frame a (hd a ha)] at hx
  rw [hr.frame b (hd b hb)] at hy
  exact h a ha b hb hab x y hx hy

end Rearranged

/-! ## below, at and above a key -/

/-- What `f` says of the key never goes back along the list. -/
def Climbs {α : Type*} (f : α → Int) (xs : List α) : Prop :=
  xs.Pairwise fun x y => (f y < 0 → f x < 0) ∧ (f y ≤ 0 → f x ≤ 0)

/-- So the list falls into what is below the key, what is at it and what is above it. -/
theorem Climbs.parts {α : Type*} {f : α → Int} {xs : List α} (h : Climbs f xs) :
    xs = xs.filter (f · < 0) ++ (xs.filter (f · = 0) ++ xs.filter (0 < f ·)) := by
  induction xs with
  | nil => rfl
  | cons x xs ih =>
    obtain ⟨hx, hxs⟩ := pairwise_cons.mp h
    have hrest := ih hxs
    rcases lt_trichotomy (f x) 0 with hlt | heq | hgt
    · simp only [filter_cons, hlt, hlt.ne, not_lt.mpr hlt.le, decide_true, decide_false, if_true,
        Bool.false_eq_true, if_false, cons_append, ← hrest]
    · have hnone : xs.filter (f · < 0) = [] := by
        rw [filter_eq_nil_iff]
        intro y hy hlt
        have := (hx y hy).1 (of_decide_eq_true hlt)
        omega
      rw [hnone, nil_append] at hrest
      simp only [filter_cons, heq, lt_irrefl, decide_true, decide_false, if_true, Bool.false_eq_true, if_false,
        hnone, nil_append, cons_append, ← hrest]
    · have hnone : xs.filter (f · < 0) = [] ∧ xs.filter (f · = 0) = [] := by
        constructor
        all_goals
          rw [filter_eq_nil_iff]
          intro y hy h0
          have := (hx y hy).2
          have h0' := of_decide_eq_true h0
          omega
      rw [hnone.1, hnone.2, nil_append, nil_append] at hrest
      simp only [filter_cons, hgt, hgt.ne', not_lt.mpr hgt.le, decide_true, decide_false, if_true,
        Bool.false_eq_true, if_false, hnone.1, hnone.2, nil_append, ← hrest]

end Priot.Lib
