/-
# Doubly linked lists in memory

A segment knows what its first node points back to and what its last points on to, so that two segments side by side
are a segment, and one node between two is put in or taken out by a change at either side of it. Where a ring is
entered does not matter.
-/
import Priot.Lib.LinkedList
import Mathlib.Data.List.Induction

namespace Priot.Lib

open List

/-- A node of a doubly linked list. -/
structure Node (α : Type) where
  prev : Option Ptr
  next : Option Ptr
  data : α
  deriving DecidableEq

/-- The nodes in use. -/
abbrev Nodes (α : Type) := Ptr → Option (Node α)

variable {α : Type} {h h' : Nodes α} {back behind c : Option Ptr} {p q : Ptr} {d : α} {l l' pre post : List (Ptr × α)}

/-! ## segments -/

/-- The first node of a segment, or what lies behind an empty one. -/
def front : List (Ptr × α) → Option Ptr → Option Ptr
  | [], behind => behind
  | x :: _, _ => some x.1

/-- The last node of a segment, or what lies before an empty one. -/
def rear : Option Ptr → List (Ptr × α) → Option Ptr
  | back, [] => back
  | _, x :: l => rear (some x.1) l

/-- The nodes of `l`, one after the other, with `back` before them and `behind` behind them. -/
def Doubly (h : Nodes α) : Option Ptr → List (Ptr × α) → Option Ptr → Prop
  | _, [], _ => True
  | back, x :: l, behind => h x.1 = some ⟨back, front l behind, x.2⟩ ∧ Doubly h (some x.1) l behind

theorem front_append (l l' : List (Ptr × α)) (behind : Option Ptr) :
    front (l ++ l') behind = front l (front l' behind) := by
  cases l <;> rfl

theorem rear_append (back : Option Ptr) (l l' : List (Ptr × α)) : rear back (l ++ l') = rear (rear back l) l' := by
  induction l generalizing back with
  | nil => rfl
  | cons x l ih => exact ih (some x.1)

@[simp] theorem rear_concat (back : Option Ptr) (l : List (Ptr × α)) (x : Ptr × α) :
    rear back (l ++ [x]) = some x.1 := by
  rw [rear_append]
  rfl

theorem doubly_append : Doubly h back (l ++ l') behind ↔
    Doubly h back l (front l' behind) ∧ Doubly h (rear back l) l' behind := by
  induction l generalizing back with
  | nil => exact ⟨fun h => ⟨trivial, h⟩, fun h => h.2⟩
  | cons x l ih =>
    show (h x.1 = some ⟨back, front (l ++ l') behind, x.2⟩ ∧ Doubly h (some x.1) (l ++ l') behind) ↔
      (h x.1 = some ⟨back, front l (front l' behind), x.2⟩ ∧ Doubly h (some x.1) l (front l' behind)) ∧
        Doubly h (rear (some x.1) l) l' behind
    rw [ih, front_append, and_assoc]

/-- What stays the same in all nodes of a segment leaves it as it is. -/
theorem Doubly.frame (hl : Doubly h back l behind) (hf : ∀ p ∈ l.map Prod.fst, h' p = h p) :
    Doubly h' back l behind := by
  induction l generalizing back with
  | nil => trivial
  | cons x l ih =>
    refine ⟨(hf x.1 mem_cons_self).trans hl.1, ih hl.2 fun p hp => ?_⟩
    exact hf p (mem_cons_of_mem _ hp)

theorem Doubly.update (hl : Doubly h back l behind) (hp : p ∉ l.map Prod.fst) (c : Option (Node α)) :
    Doubly (Function.update h p c) back l behind := by
  refine hl.frame fun q hq => ?_
  exact Function.update_of_ne (ne_of_mem_of_not_mem hq hp) _ _

/-- The node at a place of a segment. -/
theorem Doubly.node (hl : Doubly h back (pre ++ (p, d) :: post) behind) :
    h p = some ⟨rear back pre, front post behind, d⟩ := (doubly_append.mp hl).2.1

/-! ## changes -/

/-- `if ( p ) p->next = next`. Without a node there is no result. -/
def setNext (h : Nodes α) (p next : Option Ptr) : Option (Nodes α) :=
  match p with
  | none => some h
  | some p => (h p).map fun node => Function.update h p (some { node with next := next })

/-- `if ( p ) p->prev = prev`. -/
def setPrev (h : Nodes α) (p prev : Option Ptr) : Option (Nodes α) :=
  match p with
  | none => some h
  | some p => (h p).map fun node => Function.update h p (some { node with prev := prev })

/-- The last node of a segment points on to something else. -/
theorem Doubly.setNext (hl : Doubly h none l behind) (hnodup : (l.map Prod.fst).Nodup) (c : Option Ptr) :
    ∃ h', setNext h (rear none l) c = some h' ∧ Doubly h' none l c ∧ ∀ p, p ∉ l.map Prod.fst → h' p = h p := by
  rcases eq_nil_or_concat l with rfl | ⟨l, x, rfl⟩
  · exact ⟨h, rfl, trivial, fun _ _ => rfl⟩
  · rw [concat_eq_append] at *
    obtain ⟨hpre, hx, -⟩ := doubly_append.mp hl
    rw [map_append, nodup_append] at hnodup
    have hfresh : x.1 ∉ l.map Prod.fst := fun hmem => hnodup.2.2 _ hmem _ mem_cons_self rfl
    refine ⟨Function.update h x.1 (some ⟨rear none l, c, x.2⟩), ?_, ?_, ?_⟩
    · rw [rear_concat, Lib.setNext, hx]
      rfl
    · refine doubly_append.mpr ⟨hpre.update hfresh _, ?_, trivial⟩
      rw [Function.update_self]
      rfl
    · intro p hp
      refine Function.update_of_ne ?_ _ _
      rintro rfl
      exact hp (mem_map.mpr ⟨x, mem_append_right l mem_cons_self, rfl⟩)

/-- The first node of a segment points back to something else. -/
theorem Doubly.setPrev (hl : Doubly h back l none) (hnodup : (l.map Prod.fst).Nodup) (c : Option Ptr) :
    ∃ h', setPrev h (front l none) c = some h' ∧ Doubly h' c l none ∧ ∀ p, p ∉ l.map Prod.fst → h' p = h p := by
  cases l with
  | nil => exact ⟨h, rfl, trivial, fun _ _ => rfl⟩
  | cons x l =>
    rw [map_cons, nodup_cons] at hnodup
    refine ⟨Function.update h x.1 (some ⟨c, front l none, x.2⟩), ?_, ⟨Function.update_self .., ?_⟩, ?_⟩
    · rw [front, Lib.setPrev, hl.1]
      rfl
    · exact hl.2.update hnodup.1 _
    · intro p hp
      refine Function.update_of_ne ?_ _ _
      rintro rfl
      exact hp (mem_map.mpr ⟨x, mem_cons_self, rfl⟩)

theorem nodup_sides (hnodup : ((pre ++ post).map Prod.fst).Nodup) :
    (pre.map Prod.fst).Nodup ∧ (post.map Prod.fst).Nodup ∧ (∀ p ∈ pre.map Prod.fst, p ∉ post.map Prod.fst) := by
  rw [map_append, nodup_append] at hnodup
  exact ⟨hnodup.1, hnodup.2.1, fun p hp hp' => hnodup.2.2 p hp p hp' rfl⟩

/-- A node that is not in the list is put between two parts of it. -/
theorem Doubly.insert (hpre : Doubly h none pre behind) (hpost : Doubly h back post none)
    (hnodup : ((pre ++ post).map Prod.fst).Nodup) (hp : p ∉ (pre ++ post).map Prod.fst)
    (hnode : h p = some ⟨rear none pre, front post none, d⟩) :
    ∃ h₁ h₂, Lib.setPrev h (front post none) (some p) = some h₁ ∧ Lib.setNext h₁ (rear none pre) (some p) = some h₂ ∧
      Doubly h₂ none (pre ++ (p, d) :: post) none ∧ ∀ q, q ∉ (pre ++ post).map Prod.fst → h₂ q = h q := by
  obtain ⟨hpreNodup, hpostNodup, hdisjoint⟩ := nodup_sides hnodup
  rw [map_append, mem_append, not_or] at hp
  obtain ⟨h₁, hprev, hpost₁, hframe₁⟩ := hpost.setPrev hpostNodup (some p)
  have hpre₁ : Doubly h₁ none pre behind := hpre.frame fun q hq => hframe₁ q (hdisjoint q hq)
  obtain ⟨h₂, hnext, hpre₂, hframe₂⟩ := hpre₁.setNext hpreNodup (some p)
  refine ⟨h₁, h₂, hprev, hnext, doubly_append.mpr ⟨hpre₂, ?_, ?_⟩, ?_⟩
  · show h₂ p = _
    rw [hframe₂ p hp.1, hframe₁ p hp.2, hnode]
  · exact hpost₁.frame fun q hq => hframe₂ q fun hq' => hdisjoint q hq' hq
  · intro q hq
    rw [map_append, mem_append, not_or] at hq
    rw [hframe₂ q hq.1, hframe₁ q hq.2]

/-- A node is taken out. -/
theorem Doubly.unlink (hl : Doubly h none (pre ++ (p, d) :: post) none)
    (hnodup : ((pre ++ (p, d) :: post).map Prod.fst).Nodup) :
    ∃ h₁ h₂, Lib.setNext h (rear none pre) (front post none) = some h₁ ∧
      Lib.setPrev h₁ (front post none) (rear none pre) = some h₂ ∧
      Doubly h₂ none (pre ++ post) none ∧ ∀ q, q ∉ (pre ++ post).map Prod.fst → h₂ q = h q := by
  obtain ⟨hpre, -, hpost⟩ := doubly_append.mp hl
  obtain ⟨hpreNodup, hrest, hdisjoint⟩ := nodup_sides hnodup
  rw [map_cons, nodup_cons] at hrest
  have hapart : ∀ q ∈ pre.map Prod.fst, q ∉ post.map Prod.fst :=
    fun q hq hq' => hdisjoint q hq (mem_cons_of_mem _ hq')
  obtain ⟨h₁, hnext, hpre₁, hframe₁⟩ := hpre.setNext hpreNodup (front post none)
  have hpost₁ : Doubly h₁ (some p) post none := hpost.frame fun q hq => hframe₁ q fun hq' => hapart q hq' hq
  obtain ⟨h₂, hprev, hpost₂, hframe₂⟩ := hpost₁.setPrev hrest.2 (rear none pre)
  refine ⟨h₁, h₂, hnext, hprev, doubly_append.mpr ⟨?_, hpost₂⟩, ?_⟩
  · exact hpre₁.frame fun q hq => hframe₂ q (hapart q hq)
  · intro q hq
    rw [map_append, mem_append, not_or] at hq
    rw [hframe₂ q hq.2, hframe₁ q hq.1]

/-! ## walks -/

/-- Back to the first node, in so many rounds at most. -/
def rewind (h : Nodes α) : Nat → Ptr → Option Ptr
  | 0, _ => none
  | n + 1, p => (h p).bind fun node =>
    match node.prev with
    | none => some p
    | some prev => rewind h n prev

theorem Doubly.rewind_eq {n : Nat} (hl : Doubly h none (pre ++ (p, d) :: post) behind) (hn : pre.length < n) :
    rewind h n p = front (pre ++ (p, d) :: post) behind := by
  induction pre using reverseRecOn generalizing n p d post with
  | nil =>
    obtain ⟨n, rfl⟩ : ∃ k, n = k + 1 := ⟨n - 1, by omega⟩
    rw [rewind, hl.node]
    rfl
  | append_singleton pre x ih =>
    obtain ⟨n, rfl⟩ : ∃ k, n = k + 1 := ⟨n - 1, by omega⟩
    rw [rewind, hl.node, Option.bind_some, rear_concat]
    rw [length_append, length_singleton] at hn
    have hshift : pre ++ [x] ++ (p, d) :: post = pre ++ (x.1, x.2) :: (p, d) :: post := by
      rw [append_assoc]
      rfl
    rw [hshift] at hl ⊢
    exact ih hl (by omega)

/-! ## rings -/

/-- The nodes of `l`, one after the other, and then the first of them again. -/
def Ring (h : Nodes α) (l : List (Ptr × α)) : Prop := Doubly h (rear none l) l (front l none)

theorem front_of_ne (hne : l ≠ []) (c c' : Option Ptr) : front l c = front l c' := by
  cases l with
  | nil => exact absurd rfl hne
  | cons x l => rfl

theorem rear_of_ne (hne : l ≠ []) (c c' : Option Ptr) : rear c l = rear c' l := by
  cases l with
  | nil => exact absurd rfl hne
  | cons x l => rfl

/-- The first node of a segment is turned to something else behind it. -/
theorem Doubly.turnFirst (hl : Doubly h back l behind) (hnodup : (l.map Prod.fst).Nodup) (hne : l ≠ [])
    (c : Option Ptr) :
    ∃ a node, front l none = some a ∧ a ∈ l.map Prod.fst ∧ h a = some node ∧
      Doubly (Function.update h a (some { node with prev := c })) c l behind := by
  cases l with
  | nil => exact absurd rfl hne
  | cons x l =>
    have hx : x.1 ∉ l.map Prod.fst := (nodup_cons.mp hnodup).1
    refine ⟨x.1, _, rfl, mem_cons_self, hl.1, ?_, ?_⟩
    · exact Function.update_self ..
    · exact hl.2.update hx _

/-- The last node of a segment is turned to something else before it. -/
theorem Doubly.turnLast (hl : Doubly h back l behind) (hnodup : (l.map Prod.fst).Nodup) (hne : l ≠ [])
    (c : Option Ptr) :
    ∃ b node, rear none l = some b ∧ b ∈ l.map Prod.fst ∧ h b = some node ∧
      Doubly (Function.update h b (some { node with next := c })) back l c := by
  rcases eq_nil_or_concat l with rfl | ⟨l, y, rfl⟩
  · exact absurd rfl hne
  · rw [concat_eq_append] at *
    obtain ⟨hinit, hy, -⟩ := doubly_append.mp hl
    rw [map_append, nodup_append] at hnodup
    have hfresh : y.1 ∉ l.map Prod.fst := fun hmem => hnodup.2.2 _ hmem _ mem_cons_self rfl
    refine ⟨y.1, _, rear_concat .., by simp, hy, ?_⟩
    refine doubly_append.mpr ⟨hinit.update hfresh _, ?_, trivial⟩
    exact Function.update_self ..

/-- A ring may be entered anywhere. -/
theorem Ring.rotate (hl : Ring h (l ++ l')) : Ring h (l' ++ l) := by
  by_cases hne : l = []
  · subst hne
    rw [append_nil]
    exact hl
  by_cases hne' : l' = []
  · subst hne'
    rw [append_nil] at hl
    exact hl
  obtain ⟨hfirst, hsecond⟩ := doubly_append.mp hl
  rw [rear_append, rear_of_ne hne' _ none, front_of_ne hne' _ none] at hfirst
  rw [rear_append, rear_of_ne hne' _ none, rear_of_ne hne _ none, front_append, front_of_ne hne _ none] at hsecond
  refine doubly_append.mpr ⟨?_, ?_⟩
  · rw [rear_append, rear_of_ne hne _ none, front_of_ne hne _ none]
    exact hsecond
  · rw [rear_append, rear_of_ne hne _ none, rear_of_ne hne' _ none, front_append, front_of_ne hne' _ none]
    exact hfirst

/-- Where the node at a place of a ring leads to. -/
theorem Ring.node (hl : Ring h (pre ++ (p, d) :: post)) :
    ∃ prev, h p = some ⟨prev, front (post ++ pre) (some p), d⟩ := by
  have hrotated : Ring h ((p, d) :: post ++ pre) := hl.rotate
  obtain ⟨hp, -⟩ := hrotated
  refine ⟨_, hp⟩

/-- A node that is not in the ring is put before the first. -/
theorem Ring.push (hl : Ring h l) (hnodup : (l.map Prod.fst).Nodup) (hne : l ≠ []) (hp : p ∉ l.map Prod.fst)
    (hnode : h p = some ⟨rear none l, front l none, d⟩) :
    ∃ a b node node', front l none = some a ∧ rear none l = some b ∧ h b = some node ∧
      Function.update h b (some { node with next := some p }) a = some node' ∧
      Ring (Function.update (Function.update h b (some { node with next := some p })) a
        (some { node' with prev := some p })) (l ++ [(p, d)]) := by
  obtain ⟨b, node, hb, hbmem, hbnode, hlast⟩ := Doubly.turnLast hl hnodup hne (some p)
  obtain ⟨a, node', ha, hamem, hanode, hfirst⟩ := hlast.turnFirst hnodup hne (some p)
  refine ⟨a, b, node, node', ha, hb, hbnode, hanode, ?_⟩
  unfold Ring
  rw [rear_concat]
  refine doubly_append.mpr ⟨hfirst, ?_, trivial⟩
  show (Function.update _ a _ : Nodes α) p = some ⟨rear (some p) l, front (l ++ [(p, d)]) none, d⟩
  rw [Function.update_of_ne (ne_of_mem_of_not_mem hamem hp).symm,
    Function.update_of_ne (ne_of_mem_of_not_mem hbmem hp).symm, hnode, rear_of_ne hne (some p) none, front_append,
    front_of_ne hne none (front [(p, d)] none)]

/-- The first node of a ring is taken out. -/
theorem Ring.unlink (hl : Ring h ((p, d) :: l)) (hnodup : (((p, d) :: l).map Prod.fst).Nodup) (hne : l ≠ []) :
    ∃ a b node node', h p = some ⟨some b, some a, d⟩ ∧ a ≠ p ∧ h a = some node ∧
      Function.update h a (some { node with prev := some b }) b = some node' ∧
      Ring (Function.update (Function.update h a (some { node with prev := some b })) b
        (some { node' with next := some a })) l := by
  obtain ⟨hp, hrest⟩ := hl
  obtain ⟨hfresh, hnodup⟩ := nodup_cons.mp hnodup
  obtain ⟨a, node, ha, hamem, hanode, hfirst⟩ := hrest.turnFirst hnodup hne (rear none l)
  obtain ⟨b, node', hb, -, hbnode, hboth⟩ := hfirst.turnLast hnodup hne (front l none)
  have hnext : front l (front ((p, d) :: l) none) = some a := (front_of_ne hne _ none).trans ha
  have hprev : rear none ((p, d) :: l) = some b := (rear_of_ne hne _ none).trans hb
  rw [hnext, hprev] at hp
  rw [ha, hb] at hboth
  rw [hb] at hbnode
  refine ⟨a, b, node, node', hp, ne_of_mem_of_not_mem hamem hfresh, hanode, hbnode, ?_⟩
  unfold Ring
  rw [ha, hb]
  exact hboth

end Priot.Lib
