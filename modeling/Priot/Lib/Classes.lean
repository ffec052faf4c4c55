/-
# Classes of a list

The elements of a list that agree in a key, class by class, in the order in which the classes begin, sorted out by
comparisons that may fail.
-/
import Mathlib.Data.List.Basic

namespace Priot.Lib

open List

variable {α β ε : Type}

/-- The elements of a list, class by class, for so many classes at most. -/
def classesFrom [DecidableEq β] (key : α → β) : Nat → List α → List (List α)
  | _, [] => []
  | 0, _ :: _ => []
  | n + 1, a :: l =>
    (a :: l.filter fun b => key b = key a) :: classesFrom key n (l.filter fun b => ¬ key b = key a)

/-- The elements of a list, class by class. -/
def classes [DecidableEq β] (key : α → β) (l : List α) : List (List α) := classesFrom key l.length l

/-- The elements of a list that a test finds, and those that it does not. -/
inductive Splits (test : α → Except ε Bool) : List α → List α → List α → Prop
  | nil : Splits test [] [] []
  | found {a l f r} (h : test a = .ok true) (hl : Splits test l f r) : Splits test (a :: l) (a :: f) r
  | left {a l f r} (h : test a = .ok false) (hl : Splits test l f r) : Splits test (a :: l) f (a :: r)

/-- The groups that come of comparing the first of each with all that are left. -/
inductive Groups (same : α → α → Except ε Bool) : List α → List (List α) → Prop
  | nil : Groups same [] []
  | cons {a l f r gs} (hs : Splits (same a) l f r) (hg : Groups same r gs) : Groups same (a :: l) ((a :: f) :: gs)

section Tests

variable {test : α → Except ε Bool} {same : α → α → Except ε Bool} {l f r f' r' : List α} {gs gs' : List (List α)}

theorem Splits.subset (h : Splits test l f r) : (∀ a ∈ f, a ∈ l) ∧ ∀ a ∈ r, a ∈ l := by
  induction h with
  | nil => exact ⟨fun _ h => h, fun _ h => h⟩
  | found _ _ ih =>
    refine ⟨fun b hb => ?_, fun b hb => mem_cons_of_mem _ (ih.2 b hb)⟩
    rcases mem_cons.mp hb with rfl | hb
    · exact mem_cons_self
    · exact mem_cons_of_mem _ (ih.1 b hb)
  | left _ _ ih =>
    refine ⟨fun b hb => mem_cons_of_mem _ (ih.1 b hb), fun b hb => ?_⟩
    rcases mem_cons.mp hb with rfl | hb
    · exact mem_cons_self
    · exact mem_cons_of_mem _ (ih.2 b hb)

theorem Splits.length_le (h : Splits test l f r) : f.length ≤ l.length ∧ r.length ≤ l.length := by
  induction h with
  | nil => exact ⟨Nat.le_refl _, Nat.le_refl _⟩
  | found _ _ ih => exact ⟨Nat.succ_le_succ ih.1, Nat.le_succ_of_le ih.2⟩
  | left _ _ ih => exact ⟨Nat.le_succ_of_le ih.1, Nat.succ_le_succ ih.2⟩

/-- A group has an element, and not more than there are. -/
theorem Groups.mem (h : Groups same l gs) : ∀ g ∈ gs, g ≠ [] ∧ g.length ≤ l.length := by
  induction h with
  | nil => exact fun g hg => absurd hg not_mem_nil
  | cons hs _ ih =>
    refine forall_mem_cons.mpr ⟨⟨cons_ne_nil _ _, Nat.succ_le_succ hs.length_le.1⟩, fun g hg => ?_⟩
    exact ⟨(ih g hg).1, Nat.le_trans (ih g hg).2 (Nat.le_succ_of_le hs.length_le.2)⟩

theorem Splits.unique (h : Splits test l f r) (h' : Splits test l f' r') : f = f' ∧ r = r' := by
  induction h generalizing f' r' with
  | nil =>
    cases h'
    exact ⟨rfl, rfl⟩
  | found ha _ ih =>
    cases h' with
    | found _ hl' =>
      obtain ⟨rfl, rfl⟩ := ih hl'
      exact ⟨rfl, rfl⟩
    | left ha' _ =>
      rw [ha] at ha'
      cases ha'
  | left ha _ ih =>
    cases h' with
    | found ha' _ =>
      rw [ha] at ha'
      cases ha'
    | left _ hl' =>
      obtain ⟨rfl, rfl⟩ := ih hl'
      exact ⟨rfl, rfl⟩

theorem Groups.unique (h : Groups same l gs) (h' : Groups same l gs') : gs = gs' := by
  induction h generalizing gs' with
  | nil =>
    cases h'
    rfl
  | cons hs _ ih =>
    cases h' with
    | cons hs' hg' =>
      obtain ⟨rfl, rfl⟩ := hs.unique hs'
      rw [ih hg']

/-- A test that does not fail splits a list. -/
theorem splits_filter (test : α → Except ε Bool) {p : α → Bool} (h : ∀ a ∈ l, test a = .ok (p a)) :
    Splits test l (l.filter p) (l.filter fun a => !p a) := by
  induction l with
  | nil => exact .nil
  | cons a l ih =>
    have hrest : Splits test l (l.filter p) (l.filter fun a => !p a) := ih fun b hb => h b (mem_cons_of_mem a hb)
    have ha : test a = .ok (p a) := h a mem_cons_self
    cases hp : p a with
    | true =>
      rw [hp] at ha
      rw [filter_cons_of_pos hp, filter_cons_of_neg (by simp [hp])]
      exact .found ha hrest
    | false =>
      rw [hp] at ha
      rw [filter_cons_of_neg (by simp [hp]), filter_cons_of_pos (by simp [hp])]
      exact .left ha hrest

/-- What a test has said of each element. -/
theorem Splits.test_eq (h : Splits test l f r) :
    (∀ a ∈ f, test a = .ok true) ∧ (∀ a ∈ r, test a = .ok false) ∧ ∀ a ∈ l, a ∈ f ∨ a ∈ r := by
  induction h with
  | nil => simp
  | found ha _ ih =>
    refine ⟨forall_mem_cons.mpr ⟨ha, ih.1⟩, ih.2.1, forall_mem_cons.mpr ⟨.inl mem_cons_self, ?_⟩⟩
    exact fun b hb => (ih.2.2 b hb).imp_left (mem_cons_of_mem _)
  | left ha _ ih =>
    refine ⟨ih.1, forall_mem_cons.mpr ⟨ha, ih.2.1⟩, forall_mem_cons.mpr ⟨.inr mem_cons_self, ?_⟩⟩
    exact fun b hb => (ih.2.2 b hb).imp_right (mem_cons_of_mem _)

/-- What is left is what has not been found. -/
theorem Splits.left_eq [DecidableEq α] (h : Splits test l f r) (hnodup : l.Nodup) : r = l.filter fun a => a ∉ f := by
  induction h with
  | nil => rfl
  | @found a l f r _ hl ih =>
    obtain ⟨ha, hnodup⟩ := nodup_cons.mp hnodup
    rw [filter_cons_of_neg (by simp), ih hnodup]
    refine filter_congr fun b hb => ?_
    have hne : b ≠ a := ne_of_mem_of_not_mem hb ha
    simp [hne]
  | @left a l f r _ hl ih =>
    obtain ⟨ha, hnodup⟩ := nodup_cons.mp hnodup
    have hfresh : a ∉ f := fun hmem => ha (hl.subset.1 a hmem)
    rw [filter_cons_of_pos (by simpa using hfresh), ← ih hnodup]

end Tests

section Keys

variable [DecidableEq β] {key : α → β} {same : α → α → Except ε Bool} {l : List α} {a : α}

theorem length_left_le (key : α → β) (a : α) (l : List α) : (l.filter fun b => ¬ key b = key a).length ≤ l.length :=
  length_filter_le ..

/-- There are not more classes than elements. -/
theorem classesFrom_eq {n : Nat} (hn : l.length ≤ n) : classesFrom key n l = classes key l := by
  have hsucc : ∀ n (l : List α), l.length ≤ n → classesFrom key (n + 1) l = classesFrom key n l := by
    intro n
    induction n with
    | zero =>
      intro l hl
      rw [length_eq_zero_iff.mp (Nat.le_zero.mp hl)]
      rfl
    | succ n ih =>
      intro l hl
      cases l with
      | nil => rfl
      | cons a l =>
        rw [classesFrom, classesFrom, ih _ (Nat.le_trans (length_left_le key a l) (Nat.le_of_succ_le_succ hl))]
  induction hn with
  | refl => rfl
  | step hle ih => rw [hsucc _ _ hle, ih]

theorem classes_cons : classes key (a :: l) =
    (a :: l.filter fun b => key b = key a) :: classes key (l.filter fun b => ¬ key b = key a) := by
  rw [← classesFrom_eq (length_left_le key a l)]
  rfl

/-- A comparison of keys makes the classes. -/
theorem groups_classes (h : ∀ a ∈ l, ∀ b ∈ l, same a b = .ok (decide (key b = key a))) :
    Groups same l (classes key l) := by
  have hfrom : ∀ n (l : List α), l.length ≤ n → (∀ a ∈ l, ∀ b ∈ l, same a b = .ok (decide (key b = key a))) →
      Groups same l (classesFrom key n l) := by
    intro n
    induction n with
    | zero =>
      intro l hl _
      rw [length_eq_zero_iff.mp (Nat.le_zero.mp hl)]
      exact .nil
    | succ n ih =>
      intro l hl h
      cases l with
      | nil => exact .nil
      | cons a l =>
        rw [classesFrom]
        refine .cons (r := l.filter fun b => ¬ key b = key a) ?_ (ih _ ?_ ?_)
        · have hsplit := splits_filter (same a) (p := fun b => decide (key b = key a)) (l := l)
            fun b hb => h a mem_cons_self b (mem_cons_of_mem a hb)
          simpa only [decide_not] using hsplit
        · exact Nat.le_trans (length_left_le key a l) (Nat.le_of_succ_le_succ hl)
        · intro b hb c hc
          have hb : b ∈ l := (mem_filter.mp hb).1
          have hc : c ∈ l := (mem_filter.mp hc).1
          exact h b (mem_cons_of_mem a hb) c (mem_cons_of_mem a hc)
  exact hfrom l.length l (Nat.le_refl _) h

/-- Where the groups are the classes, the first element has been compared right with all others. -/
theorem Groups.head_eq (h : Groups same (a :: l) (classes key (a :: l))) :
    ∀ b ∈ l, same a b = .ok (decide (key b = key a)) := by
  rw [classes_cons] at h
  cases h with
  | cons hs _ =>
    obtain ⟨hfound, hleft, hall⟩ := hs.test_eq
    intro b hb
    by_cases hkey : key b = key a
    · rw [decide_eq_true hkey]
      exact hfound b (mem_filter.mpr ⟨hb, decide_eq_true hkey⟩)
    · rw [decide_eq_false hkey]
      refine hleft b ((hall b hb).resolve_left fun hmem => ?_)
      exact hkey (of_decide_eq_true (mem_filter.mp hmem).2)

end Keys

end Priot.Lib
