/-
# Slices of an order

Part of a linear order is cut into half-open ranges, each of them with a stack of items on it that is never empty.
What an item covers is what the slices carry it over, however they are cut.
-/
import Mathlib.Data.List.Basic
import Mathlib.Data.List.Pairwise

namespace Priot.Lib

open List

/-- The range from `start` to below `stop`, and the items on it. -/
structure Slice (K V : Type) where
  start : K
  stop : K
  top : V
  under : List V

variable {K V W : Type}

namespace Slice

def items (s : Slice K V) : List V := s.top :: s.under

def map (f : V → W) (s : Slice K V) : Slice K W := ⟨s.start, s.stop, f s.top, s.under.map f⟩

@[simp] theorem items_map (f : V → W) (s : Slice K V) : (s.map f).items = s.items.map f := rfl

variable [LT K] [LE K]

/-- The slice reaches over `x`. -/
def Over (s : Slice K V) (x : K) : Prop := s.start ≤ x ∧ x < s.stop

/-- No slice is empty, and each ends before the next one starts. -/
structure Sliced (T : List (Slice K V)) : Prop where
  proper : ∀ s ∈ T, s.start < s.stop
  apart : T.Pairwise fun s t => s.stop ≤ t.start

/-- A slice over `x` has the item `v`. -/
def Carries (T : List (Slice K V)) (x : K) (v : V) : Prop := ∃ s ∈ T, s.Over x ∧ v ∈ s.items

variable {T A B : List (Slice K V)} {s t : Slice K V} {x y : K} {v : V}

theorem carries_append : Carries (A ++ B) x v ↔ Carries A x v ∨ Carries B x v := by
  unfold Carries
  constructor
  · rintro ⟨s, hs, h⟩
    rcases mem_append.mp hs with hs | hs
    · exact .inl ⟨s, hs, h⟩
    · exact .inr ⟨s, hs, h⟩
  · rintro (⟨s, hs, h⟩ | ⟨s, hs, h⟩)
    · exact ⟨s, mem_append_left _ hs, h⟩
    · exact ⟨s, mem_append_right _ hs, h⟩

theorem carries_cons : Carries (s :: B) x v ↔ (s.Over x ∧ v ∈ s.items) ∨ Carries B x v := by
  unfold Carries
  rw [exists_mem_cons_iff]

theorem carries_map {f : V → W} {w : W} : Carries (T.map (map f)) x w ↔ ∃ v, Carries T x v ∧ f v = w := by
  constructor
  · rintro ⟨s', hs', hx, hw⟩
    obtain ⟨s, hs, rfl⟩ := mem_map.mp hs'
    rw [items_map] at hw
    obtain ⟨v, hv, rfl⟩ := mem_map.mp hw
    exact ⟨v, ⟨s, hs, hx, hv⟩, rfl⟩
  · rintro ⟨v, ⟨s, hs, hx, hv⟩, rfl⟩
    refine ⟨s.map f, mem_map_of_mem hs, hx, ?_⟩
    rw [items_map]
    exact mem_map_of_mem hv

theorem Sliced.nil : Sliced ([] : List (Slice K V)) := ⟨by simp, List.Pairwise.nil⟩

theorem sliced_append : Sliced (A ++ B) ↔ Sliced A ∧ Sliced B ∧ ∀ s ∈ A, ∀ t ∈ B, s.stop ≤ t.start := by
  constructor
  · rintro ⟨hp, ha⟩
    obtain ⟨hA, hB, hAB⟩ := pairwise_append.mp ha
    exact ⟨⟨fun s hs => hp s (mem_append_left _ hs), hA⟩,
      ⟨fun s hs => hp s (mem_append_right _ hs), hB⟩, hAB⟩
  · rintro ⟨⟨hpA, hA⟩, ⟨hpB, hB⟩, hAB⟩
    refine ⟨fun s hs => ?_, pairwise_append.mpr ⟨hA, hB, hAB⟩⟩
    rcases mem_append.mp hs with hs | hs
    · exact hpA s hs
    · exact hpB s hs

theorem sliced_cons : Sliced (s :: B) ↔ s.start < s.stop ∧ Sliced B ∧ ∀ t ∈ B, s.stop ≤ t.start := by
  constructor
  · rintro ⟨hp, ha⟩
    obtain ⟨hs, hB⟩ := pairwise_cons.mp ha
    exact ⟨hp s mem_cons_self, ⟨fun t ht => hp t (mem_cons_of_mem _ ht), hB⟩, hs⟩
  · rintro ⟨hs, ⟨hp, hB⟩, ht⟩
    refine ⟨fun t h => ?_, pairwise_cons.mpr ⟨ht, hB⟩⟩
    rcases mem_cons.mp h with rfl | h
    · exact hs
    · exact hp t h

/-- Other items on the same range. -/
theorem Sliced.replace (hT : Sliced (A ++ s :: B)) (v : V) (us : List V) :
    Sliced (A ++ ⟨s.start, s.stop, v, us⟩ :: B) := by
  obtain ⟨hA, hsB, hAB⟩ := sliced_append.mp hT
  obtain ⟨hs, hB, hsB⟩ := sliced_cons.mp hsB
  refine sliced_append.mpr ⟨hA, sliced_cons.mpr ⟨hs, hB, hsB⟩, fun u hu t ht => ?_⟩
  rcases mem_cons.mp ht with rfl | ht
  · exact hAB u hu s mem_cons_self
  · exact hAB u hu t (mem_cons_of_mem _ ht)

theorem Sliced.sublist (hT : Sliced T) (h : A.Sublist T) : Sliced A :=
  ⟨fun s hs => hT.proper s (h.subset hs), hT.apart.sublist h⟩

variable [Std.IsLinearOrder K] [Std.LawfulOrderLT K]

/-- What lies over `x` is one slice. -/
theorem Sliced.over_unique (hT : Sliced T) (hs : s ∈ T) (ht : t ∈ T) (hsx : s.Over x) (htx : t.Over x) : s = t := by
  unfold Over at hsx htx
  induction T with
  | nil => cases hs
  | cons u T ih =>
    obtain ⟨-, hT, hu⟩ := sliced_cons.mp hT
    rcases mem_cons.mp hs with rfl | hs'
    · rcases mem_cons.mp ht with rfl | ht'
      · rfl
      · have := hu t ht'
        grind
    · rcases mem_cons.mp ht with rfl | ht'
      · have := hu s hs'
        grind
      · exact ih hT hs' ht'

theorem Sliced.starts (hT : Sliced (s :: T)) : ∀ t ∈ T, s.start < t.start := by
  intro t ht
  obtain ⟨hs, -, hT⟩ := sliced_cons.mp hT
  have := hT t ht
  grind

theorem Sliced.head_lt (hT : Sliced (A ++ s :: B)) (hA : A ≠ []) : ∀ u ∈ (A ++ s :: B).head?, u.start < s.start := by
  cases A with
  | nil => exact absurd rfl hA
  | cons u A =>
    rintro _ ⟨⟩
    exact hT.starts s (mem_append_right _ mem_cons_self)

/-- There is one place in the list for it. -/
theorem Sliced.over_split {A' B' : List (Slice K V)} (hT : Sliced (A ++ s :: B)) (heq : A ++ s :: B = A' ++ t :: B')
    (hs : s.Over x) (ht : t.Over x) : A = A' ∧ s = t ∧ B = B' := by
  unfold Over at hs ht
  induction A generalizing A' with
  | nil =>
    cases A' with
    | nil =>
      obtain ⟨rfl, rfl⟩ := List.cons.inj heq
      exact ⟨rfl, rfl, rfl⟩
    | cons u A' =>
      obtain ⟨rfl, rfl⟩ := List.cons.inj heq
      have := (sliced_cons.mp hT).2.2 t (mem_append_right _ mem_cons_self)
      grind
  | cons u A ih =>
    cases A' with
    | nil =>
      obtain ⟨rfl, rfl⟩ := List.cons.inj heq
      have := (sliced_cons.mp hT).2.2 s (mem_append_right _ mem_cons_self)
      grind
    | cons u' A' =>
      obtain ⟨rfl, heq'⟩ := List.cons.inj heq
      obtain ⟨rfl, h⟩ := ih (sliced_cons.mp hT).2.1 heq'
      exact ⟨rfl, h⟩

/-- A slice is cut in two. -/
theorem Sliced.cut (hT : Sliced (A ++ s :: B)) (hx : s.start < x) (hx' : x < s.stop) (v w : V) (us ws : List V) :
    Sliced (A ++ ⟨s.start, x, v, us⟩ :: ⟨x, s.stop, w, ws⟩ :: B) := by
  obtain ⟨hA, hsB, hAB⟩ := sliced_append.mp hT
  obtain ⟨hs, hB, hsB⟩ := sliced_cons.mp hsB
  refine sliced_append.mpr ⟨hA, sliced_cons.mpr ⟨hx, sliced_cons.mpr ⟨hx', hB, hsB⟩, ?_⟩, ?_⟩
  · intro t ht
    rcases mem_cons.mp ht with rfl | ht
    · exact Std.le_refl x
    · have := hsB t ht
      show x ≤ t.start
      grind
  · intro u hu t ht
    have hus : u.stop ≤ s.start := hAB u hu s mem_cons_self
    rcases mem_cons.mp ht with rfl | ht
    · exact hus
    · rcases mem_cons.mp ht with rfl | ht
      · show u.stop ≤ x
        grind
      · exact hAB u hu t (mem_cons_of_mem _ ht)

/-- Cutting a slice moves nothing. -/
theorem carries_cut (hx : s.start < x) (hx' : x < s.stop) :
    Carries (A ++ ⟨s.start, x, s.top, s.under⟩ :: ⟨x, s.stop, s.top, s.under⟩ :: B) y v ↔
      Carries (A ++ s :: B) y v := by
  rw [carries_append, carries_append, carries_cons, carries_cons, carries_cons]
  have : (s.Over y ∧ v ∈ s.items) ↔
      (Over (⟨s.start, x, s.top, s.under⟩ : Slice K V) y ∧ v ∈ s.items) ∨
        (Over (⟨x, s.stop, s.top, s.under⟩ : Slice K V) y ∧ v ∈ s.items) := by
    unfold Over
    grind
  rw [this]
  unfold items
  grind

end Slice

end Priot.Lib
