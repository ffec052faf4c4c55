/-
# Singly linked lists in memory

A memory holds cells, each with a pointer to the next, and a segment is a path through it. Nothing is said about cells
outside the list, so that several lists may share a memory.
-/
import Mathlib.Logic.Function.Basic
import Mathlib.Data.List.Nodup
import Mathlib.Data.List.Perm.Subperm

namespace Priot.Lib

open List

/-- Addresses of cells. `NULL` is `none`. -/
abbrev Ptr := Nat

/-- A cell of a list. -/
structure Cell (α : Type) where
  next : Option Ptr
  data : α

/-- The cells in use. -/
abbrev Heap (α : Type) := Ptr → Option (Cell α)

variable {α : Type} {h : Heap α} {a b first last : Option Ptr} {p : Ptr} {d : α} {l pre post : List (Ptr × α)}

theorem length_le_of_below {l : List Ptr} {b : Ptr} (hnodup : l.Nodup) (hb : ∀ p ∈ l, p < b) : l.length ≤ b := by
  have h : l ⊆ List.range b := fun p hp => mem_range.mpr (hb p hp)
  have := (List.Nodup.subperm hnodup h).length_le
  rwa [length_range] at this

/-- A loop with a round for each element has one for the first, and rounds for the others. -/
theorem exists_round {β : Type*} {y : β} {l : List β} {n : Nat} (hn : (y :: l).length ≤ n) :
    ∃ k, n = k + 1 ∧ l.length ≤ k :=
  ⟨n - 1, by rw [length_cons] at hn; omega⟩

/-- The cells of `l`, one after the other, lead from `a` to `b`. -/
def Seg (h : Heap α) : Option Ptr → List (Ptr × α) → Option Ptr → Prop
  | a, [], b => a = b
  | a, (p, d) :: l, b => a = some p ∧ ∃ next, h p = some ⟨next, d⟩ ∧ Seg h next l b

theorem seg_append {l' : List (Ptr × α)} : Seg h a (l ++ l') b ↔ ∃ c, Seg h a l c ∧ Seg h c l' b := by
  induction l generalizing a with
  | nil => simp [Seg]
  | cons x l ih =>
    obtain ⟨p, d⟩ := x
    show (a = some p ∧ ∃ next, _ ∧ Seg h next (l ++ l') b) ↔ _
    constructor
    · rintro ⟨ha, next, hp, hseg⟩
      obtain ⟨c, h₁, h₂⟩ := ih.mp hseg
      exact ⟨c, ⟨ha, next, hp, h₁⟩, h₂⟩
    · rintro ⟨c, ⟨ha, next, hp, h₁⟩, h₂⟩
      exact ⟨ha, next, hp, ih.mpr ⟨c, h₁, h₂⟩⟩

/-- What stays the same in all cells of a segment leaves it as it is. -/
theorem Seg.frame {h' : Heap α} (hseg : Seg h a l b) (hf : ∀ p ∈ l.map Prod.fst, h' p = h p) : Seg h' a l b := by
  induction l generalizing a with
  | nil => exact hseg
  | cons x l ih =>
    obtain ⟨ha, next, hp, hseg⟩ := hseg
    refine ⟨ha, next, (hf x.1 mem_cons_self).trans hp, ih hseg fun p hp => ?_⟩
    exact hf p (mem_cons_of_mem _ hp)

/-- A change elsewhere leaves a segment as it is. -/
theorem Seg.update (hseg : Seg h a l b) (hp : p ∉ l.map Prod.fst) (c : Option (Cell α)) :
    Seg (Function.update h p c) a l b :=
  hseg.frame fun _ hq => Function.update_of_ne (ne_of_mem_of_not_mem hq hp) _ _

theorem Seg.mem_heap (hseg : Seg h a l b) {x : Ptr × α} (hx : x ∈ l) : ∃ next, h x.1 = some ⟨next, x.2⟩ := by
  induction l generalizing a with
  | nil => cases hx
  | cons y l ih =>
    obtain ⟨q, d⟩ := y
    obtain ⟨-, next, hq, hseg⟩ := hseg
    rcases mem_cons.mp hx with rfl | hx
    · exact ⟨next, hq⟩
    · exact ih hseg hx

theorem Seg.start (hseg : Seg h a l none) : a = l.head?.map Prod.fst := by
  cases l with
  | nil => exact hseg
  | cons x l => exact hseg.1

/-- A list has the cells that its first one leads to. -/
theorem Seg.unique {l' : List (Ptr × α)} (hseg : Seg h a l none) (hseg' : Seg h a l' none) : l = l' := by
  induction l generalizing a l' with
  | nil =>
    obtain rfl : a = none := hseg
    cases l' with
    | nil => rfl
    | cons y l' => cases hseg'.1
  | cons x l ih =>
    obtain ⟨p, d⟩ := x
    obtain ⟨rfl, next, hp, hseg⟩ := hseg
    cases l' with
    | nil => cases hseg'
    | cons y l' =>
      obtain ⟨q, d'⟩ := y
      obtain ⟨hq, next', hp', hseg'⟩ := hseg'
      obtain rfl : p = q := Option.some.inj hq
      rw [hp, Option.some.injEq, Cell.mk.injEq] at hp'
      obtain ⟨rfl, rfl⟩ := hp'
      rw [ih hseg hseg']

/-- A list from its first cell to its last, without a cell that occurs twice. -/
structure Linked (h : Heap α) (first last : Option Ptr) (l : List (Ptr × α)) : Prop where
  seg : Seg h first l none
  last_eq : last = l.getLast?.map Prod.fst
  nodup : (l.map Prod.fst).Nodup

namespace Linked

theorem empty (h : Heap α) : Linked h none none [] := ⟨rfl, rfl, nodup_nil⟩

/-- A cell that is not in use is not in the list. -/
theorem not_mem (hl : Linked h first last l) (hp : h p = none) : p ∉ l.map Prod.fst := by
  intro hmem
  obtain ⟨x, hx, rfl⟩ := mem_map.mp hmem
  obtain ⟨next, hnext⟩ := hl.seg.mem_heap hx
  rw [hp] at hnext
  cases hnext

/-- The cell at a place of the list, and where it points to. -/
theorem cell (hl : Linked h first last (pre ++ (p, d) :: post)) : h p = some ⟨post.head?.map Prod.fst, d⟩ := by
  obtain ⟨c, -, -, next, hp, hpost⟩ := seg_append.mp hl.seg
  rw [hp, hpost.start]

theorem place_nodup (hl : Linked h first last (pre ++ (p, d) :: post)) :
    p ∉ pre.map Prod.fst ∧ p ∉ post.map Prod.fst := by
  have hn := hl.nodup
  rw [map_append, map_cons, nodup_append] at hn
  obtain ⟨-, hpost, hdisj⟩ := hn
  exact ⟨fun hp => hdisj p hp p (by simp) rfl, (nodup_cons.mp hpost).1⟩

/-- Memory outside the list may change, be taken or be freed. -/
theorem update (hl : Linked h first last l) (hp : p ∉ l.map Prod.fst) (c : Option (Cell α)) :
    Linked (Function.update h p c) first last l :=
  ⟨hl.seg.update hp c, hl.last_eq, hl.nodup⟩

/-- The data of a cell is replaced. -/
theorem setData (hl : Linked h first last (pre ++ (p, d) :: post)) (d' : α) :
    Linked (Function.update h p (some ⟨post.head?.map Prod.fst, d'⟩)) first last (pre ++ (p, d') :: post) := by
  obtain ⟨hpre, hpost⟩ := hl.place_nodup
  obtain ⟨c, h₁, hc, next, hp, h₂⟩ := seg_append.mp hl.seg
  refine ⟨seg_append.mpr ⟨c, h₁.update hpre _, hc, _, Function.update_self .., ?_⟩, ?_, ?_⟩
  · rw [← h₂.start]
    exact h₂.update hpost _
  · rw [hl.last_eq, getLast?_append, getLast?_append]
    cases post <;> simp
  · have hn := hl.nodup
    rw [map_append, map_cons] at hn ⊢
    exact hn

/-- The last cell is in use. -/
theorem last_cell {e : Ptr} (hl : Linked h first (some e) l) : ∃ c, h e = some c := by
  have hlast := hl.last_eq
  cases hx : l.getLast? with
  | none =>
    rw [hx] at hlast
    cases hlast
  | some x =>
    obtain ⟨next, hnext⟩ := hl.seg.mem_heap (mem_of_getLast? hx)
    rw [hx] at hlast
    obtain rfl : e = x.1 := by simpa using hlast
    exact ⟨_, hnext⟩

/-- A cell is put behind the last of a list that is not empty. -/
theorem pushBack {e : Ptr} {c : Cell α} (hl : Linked h first (some e) l) (he : h e = some c) (hp : h p = none) (d : α) :
    c.next = none ∧
    Linked (Function.update (Function.update h p (some ⟨c.next, d⟩)) e (some ⟨some p, c.data⟩)) first (some p)
      (l ++ [(p, d)]) := by
  have hfresh := hl.not_mem hp
  obtain ⟨l, x, rfl⟩ : ∃ l' x, l = l' ++ [x] := by
    rcases eq_nil_or_concat l with rfl | ⟨l', x, h⟩
    · have := hl.last_eq
      cases this
    · exact ⟨l', x, by rw [h]; simp⟩
  obtain ⟨q, dq⟩ := x
  obtain rfl : e = q := by
    have := hl.last_eq
    simpa using this
  have hcell := hl.cell
  rw [he] at hcell
  obtain rfl := Option.some.inj hcell
  obtain ⟨hpre, -⟩ := hl.place_nodup
  have hne : p ≠ e := by
    rintro rfl
    rw [hp] at he
    cases he
  obtain ⟨m, h₁, hm, -⟩ := seg_append.mp hl.seg
  refine ⟨rfl, seg_append.mpr ⟨some p, seg_append.mpr ⟨m, ?_, hm, some p, Function.update_self .., rfl⟩, rfl, none, ?_, rfl⟩,
    ?_, ?_⟩
  · refine (h₁.update ?_ _).update hpre _
    rw [map_append, mem_append, not_or] at hfresh
    exact hfresh.1
  · rw [Function.update_of_ne hne, Function.update_self]
    rfl
  · simp
  · rw [map_append, nodup_append]
    refine ⟨hl.nodup, by simp, fun x hx y hy => ?_⟩
    rw [map_singleton, mem_singleton] at hy
    subst hy
    rintro rfl
    exact hfresh hx

/-- A cell becomes the only one of a list. -/
theorem pushFirst (hl : Linked h first none l) (p : Ptr) (d : α) :
    l = [] ∧ first = none ∧ Linked (Function.update h p (some ⟨first, d⟩)) (some p) (some p) (l ++ [(p, d)]) := by
  have hnil : l = [] := by
    have := hl.last_eq
    cases l with
    | nil => rfl
    | cons x l => simp [getLast?_cons] at this
  subst hnil
  have hfirst : first = none := hl.seg
  subst hfirst
  exact ⟨rfl, rfl, ⟨rfl, none, Function.update_self .., rfl⟩, rfl, by simp⟩

/-- The first cell is taken out. -/
theorem unlinkFirst (hl : Linked h first last ((p, d) :: post)) :
    Linked h (post.head?.map Prod.fst) (if last = some p then none else last) post := by
  obtain ⟨-, next, hp, hseg⟩ := hl.seg
  have hn := hl.nodup
  rw [map_cons, nodup_cons] at hn
  refine ⟨by rw [← hseg.start]; exact hseg, ?_, hn.2⟩
  rw [hl.last_eq]
  cases hpost : post.getLast? with
  | none =>
    obtain rfl := getLast?_eq_none_iff.mp hpost
    simp
  | some x =>
    have hx : x ∈ post := mem_of_getLast? hpost
    have hne : x.1 ≠ p := fun heq => hn.1 (heq ▸ mem_map.mpr ⟨x, hx, rfl⟩)
    rw [getLast?_cons, hpost]
    simp [hne]

/-- A cell behind another is taken out. -/
theorem unlinkNext {o : Ptr} {e : α} (hl : Linked h first last (pre ++ (o, e) :: (p, d) :: post)) :
    Linked (Function.update h o (some ⟨post.head?.map Prod.fst, e⟩)) first
      (if last = some p then some o else last) (pre ++ (o, e) :: post) := by
  obtain ⟨m, h₁, hm, next, ho, hp', next', hp, hpost⟩ := seg_append.mp hl.seg
  obtain ⟨hpre, hrest⟩ := hl.place_nodup
  have hn := hl.nodup
  rw [map_append, map_cons, map_cons] at hn
  rw [map_cons, mem_cons, not_or] at hrest
  refine ⟨seg_append.mpr ⟨m, h₁.update hpre _, hm, _, Function.update_self .., ?_⟩, ?_, ?_⟩
  · rw [← hpost.start]
    exact hpost.update hrest.2 _
  · rw [hl.last_eq, getLast?_append, getLast?_append]
    cases hlast : post.getLast? with
    | none =>
      obtain rfl := getLast?_eq_none_iff.mp hlast
      simp
    | some x =>
      have hx : x ∈ post := mem_of_getLast? hlast
      have hn' := (nodup_cons.mp (nodup_cons.mp (nodup_append.mp hn).2.1).2).1
      have hne : x.1 ≠ p := fun heq => hn' (heq ▸ mem_map.mpr ⟨x, hx, rfl⟩)
      rw [getLast?_cons, getLast?_cons, getLast?_cons, hlast]
      simp [hne]
  · rw [map_append, map_cons]
    refine hn.sublist (List.Sublist.append_left ?_ _)
    exact .cons_cons _ (.cons _ (List.Sublist.refl _))

end Linked

end Priot.Lib
