/-
# Loading a node

A node is loaded over a range that is covered already: it is cut where the slices below it end, and put into one chain
after the other; it is refused where the first of them has its like.
-/
import Priot.Registry.Merge

namespace Priot.Registry

open Lib Lib.Slice List

variable {H : Type} {m m' : Memory H} {s s' : Context H} {T T' A B : List (Chain H)} {sl : Chain H}
  {pre post : Items H} {p : Ptr} {r r' : Registration H} {nd : Subtree H} {n : Nat} {x a b : ObjId}

/-- The slices without the addresses of the nodes. -/
def regsOf (T : List (Chain H)) : List (Slice ObjId (Registration H)) := T.map (Slice.map Prod.snd)

def AllOrdered (T : List (Chain H)) : Prop := ∀ sl ∈ T, Ordered (sl.items.map Prod.snd)

/-- Both lists carry the same registrations everywhere, however they are cut. -/
def SameRegs (T T' : List (Chain H)) : Prop := ∀ x r, Carries (regsOf T') x r ↔ Carries (regsOf T) x r

theorem carries_regsOf : Carries (regsOf T) x r ↔ ∃ sl ∈ T, sl.Over x ∧ r ∈ sl.items.map Prod.snd := by
  unfold regsOf
  rw [Slice.carries_map]
  constructor
  · rintro ⟨y, ⟨sl, hsl, hx, hy⟩, rfl⟩
    exact ⟨sl, hsl, hx, mem_map_of_mem hy⟩
  · rintro ⟨sl, hsl, hx, hr⟩
    obtain ⟨y, hy, rfl⟩ := mem_map.mp hr
    exact ⟨y, ⟨sl, hsl, hx, hy⟩, rfl⟩

/-! ## cutting changes nothing -/

theorem regsOf_cut (k : Ptr) : regsOf (A ++ lower sl x :: upper k sl x :: B) =
      regsOf A ++ ⟨sl.start, x, sl.top.2, sl.under.map Prod.snd⟩ :: ⟨x, sl.stop, sl.top.2, sl.under.map Prod.snd⟩ ::
        regsOf B := by
  unfold regsOf
  rw [map_append, map_cons, map_cons]
  congr 2
  unfold upper Slice.map
  rw [copies_regs]

theorem sameRegs_cut (k : Ptr) (hx : sl.start < x) (hx' : x < sl.stop) :
    SameRegs (A ++ sl :: B) (A ++ lower sl x :: upper k sl x :: B) := by
  intro y r
  rw [regsOf_cut, show regsOf (A ++ sl :: B) = regsOf A ++ sl.map Prod.snd :: regsOf B by simp [regsOf]]
  exact Slice.carries_cut (s := sl.map Prod.snd) hx hx'

theorem AllOrdered.cut (h : AllOrdered (A ++ sl :: B)) (k : Ptr) :
    AllOrdered (A ++ lower sl x :: upper k sl x :: B) := by
  intro t ht
  rcases mem_append.mp ht with ht | ht
  · exact h t (mem_append_left _ ht)
  · rcases mem_cons.mp ht with rfl | ht
    · exact h sl (mem_append_right _ mem_cons_self)
    · rcases mem_cons.mp ht with rfl | ht
      · rw [upper_items, copies_regs]
        exact h sl (mem_append_right _ mem_cons_self)
      · exact h t (mem_append_right _ (mem_cons_of_mem _ ht))

theorem Stands.cut (h : Stands s (A ++ sl :: B)) (hx : sl.start < x) (hx' : x < sl.stop) :
    ∃ m', s.mem.subtreeSplit sl.top.1 x = .ok (m', some s.mem.brk) ∧ s.mem.brk ≤ m'.brk ∧
      Stands { s with mem := m' } (A ++ lower sl x :: upper s.mem.brk sl x :: B) ∧
      (∀ q < s.mem.brk, q ∉ addrs (A ++ sl :: B) → m'.cells q = s.mem.cells q) ∧
      ∀ q < s.mem.brk, q ∈ addrs (A ++ lower sl x :: upper s.mem.brk sl x :: B) → q ∈ addrs (A ++ sl :: B) := by
  obtain ⟨m', hm', hb, hh, hc⟩ := h.holds.split (Std.le_of_lt hx')
  refine ⟨m', hm', hb, ⟨hh, ?_, h.sliced.cut hx hx' _ _ _ _⟩, hc, fun q hq hmem => ?_⟩
  · rw [show s.first = _ from h.first]
    cases A <;> rfl
  · simp only [addrs_append, addrs_cons, upper_items, copies_addrs, mem_append, mem_range'_1] at hmem ⊢
    rcases hmem with hmem | hmem | hmem | hmem
    · exact .inl hmem
    · exact .inr (.inl hmem)
    · exact absurd hmem.1 (Nat.not_le.mpr hq)
    · exact .inr (.inr hmem)

theorem startNode_spec (h : Stands s (A ++ sl :: B)) (ho : AllOrdered (A ++ sl :: B)) (hover : sl.Over nd.start) :
    ∃ m' A' sl', Context.startNode s.mem nd sl.top.1 = .ok (m', some sl'.top.1) ∧ s.mem.brk ≤ m'.brk ∧
      sl'.start = nd.start ∧ sl'.stop = sl.stop ∧ sl'.items.map Prod.snd = sl.items.map Prod.snd ∧
      (A' = [] → A = [] ∧ sl.start = nd.start) ∧
      Stands { s with mem := m' } (A' ++ sl' :: B) ∧ AllOrdered (A' ++ sl' :: B) ∧
      SameRegs (A ++ sl :: B) (A' ++ sl' :: B) ∧
      (∀ q < s.mem.brk, q ∉ addrs (A ++ sl :: B) → m'.cells q = s.mem.cells q) ∧
      ∀ q < s.mem.brk, q ∈ addrs (A' ++ sl' :: B) → q ∈ addrs (A ++ sl :: B) := by
  obtain ⟨td, htd, -, -, hsits, -⟩ := h.holds.head
  unfold Context.startNode
  rw [Memory.get_eq htd, ok_bind, hsits.start]
  by_cases hstart : nd.start = sl.start
  · rw [if_neg (not_not.mpr hstart)]
    exact ⟨s.mem, A, sl, rfl, le_rfl, hstart.symm, rfl, rfl, fun hA => ⟨hA, hstart.symm⟩, h, ho, fun _ _ => Iff.rfl,
      fun _ _ _ => rfl, fun _ _ hq => hq⟩
  · have hlt : sl.start < nd.start := by
      have := hover.1
      grind
    obtain ⟨m', hm', hb, hs, hc, haddr⟩ := h.cut hlt hover.2
    rw [if_pos hstart, hm']
    have heq : A ++ lower sl nd.start :: upper s.mem.brk sl nd.start :: B =
        (A ++ [lower sl nd.start]) ++ upper s.mem.brk sl nd.start :: B := by
      rw [append_assoc]
      rfl
    refine ⟨m', A ++ [lower sl nd.start], upper s.mem.brk sl nd.start, rfl, hb, rfl, rfl, ?_, by simp, heq ▸ hs,
      heq ▸ ho.cut _, heq ▸ sameRegs_cut _ hlt hover.2, hc, fun q hq hmem => haddr q hq (heq ▸ hmem)⟩
    rw [upper_items, copies_regs]

/-! ## the range of one slice -/

theorem Cached.zero (T : List (Chain H)) (l : LookupCacheContext) : Cached T 0 l :=
  ⟨fun h => absurd h (Nat.not_lt_zero _), fun _ _ h => absurd h (Nat.not_lt_zero _)⟩

theorem find_uncached (h : Stands s T) (h0 : s.lookupCacheSize = 0) (x : ObjId) {subtree : Option Ptr}
    (hsub : subtree = none ∨ subtree = s.first) : ∃ s' r, s.subtreeFind x subtree = .ok (s', r) ∧ SameTree s s' ∧
      ((∃ A sl B, T = A ++ sl :: B ∧ sl.Over x ∧ r = some sl.top.1) ∨ ((∀ t ∈ T, ¬ t.Over x) ∧ r = none)) := by
  obtain ⟨s', r, hr, hs, -, hfound⟩ := subtreeFind_spec h (h0 ▸ Cached.zero T s.lookup) x hsub
  exact ⟨s', r, hr, hs, hfound⟩

theorem Merged.stands (h : Stands s (A ++ sl :: B)) (hl : sl.items = pre ++ post)
    (hm : Merged s.mem m' A sl pre p r post B) (htop : A = [] → pre ≠ []) :
    Stands { s with mem := m' } (A ++ withItems sl pre (p, r) post :: B) := by
  refine ⟨hm.holds, ?_, ?_⟩
  · rw [show s.first = _ from h.first]
    cases A with
    | nil =>
      cases pre with
      | nil => exact absurd rfl (htop rfl)
      | cons y pre =>
        obtain ⟨rfl, -⟩ := List.cons.inj hl
        rfl
    | cons t A => rfl
  · cases pre with
    | nil => exact h.sliced.replace _ _
    | cons y pre => exact h.sliced.replace _ _

theorem carries_regsOf_split : Carries (regsOf (A ++ sl :: B)) x r ↔
      Carries (regsOf A) x r ∨ (sl.Over x ∧ r ∈ sl.items.map Prod.snd) ∨ Carries (regsOf B) x r := by
  unfold regsOf
  rw [map_append, map_cons, Slice.carries_append, Slice.carries_cons, Slice.items_map]
  rfl

theorem carries_withItems (hl : sl.items = pre ++ post) :
    Carries (regsOf (A ++ withItems sl pre (p, r) post :: B)) x r' ↔
      Carries (regsOf (A ++ sl :: B)) x r' ∨ (sl.Over x ∧ r' = r) := by
  have hover : (withItems sl pre (p, r) post).Over x ↔ sl.Over x := by
    unfold Slice.Over
    rw [withItems_start, withItems_stop]
  rw [carries_regsOf_split, carries_regsOf_split, hover, withItems_items, hl, map_append, map_append,
    map_cons, mem_append, mem_append, mem_cons]
  grind

theorem AllOrdered.withItems (h : AllOrdered (A ++ sl :: B)) (hl : sl.items = pre ++ post)
    (hpre : ∀ y ∈ pre, Ahead y.2 r) (hpost : ∀ y ∈ post, Ahead r y.2) :
    AllOrdered (A ++ Registry.withItems sl pre (p, r) post :: B) := by
  intro t ht
  rcases mem_append.mp ht with ht | ht
  · exact h t (mem_append_left _ ht)
  · rcases mem_cons.mp ht with rfl | ht
    · have ho := h sl (mem_append_right _ mem_cons_self)
      rw [hl, Ordered, map_append] at ho
      obtain ⟨ho₁, ho₂, ho₁₂⟩ := pairwise_append.mp ho
      rw [withItems_items, Ordered, map_append, map_cons]
      refine pairwise_append.mpr ⟨ho₁, pairwise_cons.mpr ⟨fun r' hr' => ?_, ho₂⟩, fun r₁ hr₁ r₂ hr₂ => ?_⟩
      · obtain ⟨y, hy, rfl⟩ := mem_map.mp hr'
        exact hpost y hy
      · obtain ⟨y, hy, rfl⟩ := mem_map.mp hr₁
        rcases mem_cons.mp hr₂ with rfl | hr₂
        · exact hpre y hy
        · exact ho₁₂ _ (mem_map_of_mem hy) _ hr₂
    · exact h t (mem_append_right _ (mem_cons_of_mem _ ht))

theorem load_exact (hs : Stands s (A ++ sl :: B)) (h0 : s.lookupCacheSize = 0) (hf : Fits s.mem A sl B p nd)
    (ho : Ordered (sl.items.map Prod.snd)) :
    (∃ s', Context.subtreeLoadLoop (n + 1) s p = .ok (s', .duplicateRegistration) ∧ SameTree s s' ∧
      ∃ y ∈ sl.items, SameKey y.2 nd.reg) ∨
    ∃ s' pre post, Context.subtreeLoadLoop (n + 1) s p = .ok (s', .registeredOk) ∧ sl.items = pre ++ post ∧
      (∀ y ∈ pre, Ahead y.2 nd.reg) ∧ (∀ y ∈ post, Ahead nd.reg y.2) ∧
      Merged s.mem s'.mem A sl pre p nd.reg post B ∧ s'.first = s.first ∧ s'.lookupCacheSize = 0 := by
  have hproper : sl.start < sl.stop := hs.sliced.proper sl (mem_append_right _ mem_cons_self)
  have hover : sl.Over nd.start := by
    rw [hf.start]
    exact ⟨Std.le_refl _, hproper⟩
  obtain ⟨s', r, hr, hst, hfound⟩ := find_uncached hs h0 nd.start (.inl rfl)
  obtain ⟨hmem, hfirst, hsize⟩ := hst
  obtain rfl : r = some sl.top.1 := by
    rcases hfound with ⟨A', sl', B', heq, hover', rfl⟩ | ⟨hnone, -⟩
    · obtain ⟨-, rfl, -⟩ := hs.sliced.over_split heq hover hover'
      rfl
    · exact absurd hover (hnone sl (mem_append_right _ mem_cons_self))
  obtain ⟨td, htd, -, -, hsits, -⟩ := hs.holds.head
  have hstart : Context.startNode s'.mem nd sl.top.1 = .ok (s'.mem, some sl.top.1) := by
    unfold Context.startNode
    rw [hmem, Memory.get_eq htd, ok_bind, hsits.start, if_neg (not_not.mpr hf.start)]
  have hload : Context.subtreeLoadLoop (n + 1) s p =
      s'.mem.mergeIntoChain p sl.top.1 >>= fun r => .ok ({ s' with mem := r.1 }, r.2) := by
    unfold Context.subtreeLoadLoop
    rw [Memory.get_eq hf.cell, ok_bind, hr, ok_bind]
    simp only []
    rw [hstart, ok_bind, hmem]
    simp only []
    rw [Memory.get_eq htd, ok_bind, hsits.stop, oidCompare_eq.mpr hf.stop]
  rw [hload, hmem]
  rcases hf.merge ho with ⟨hkey, hdup⟩ | ⟨m', pre, post, hl, hpre, hpost, hok, hmerged⟩
  · left
    rw [hdup]
    exact ⟨_, rfl, ⟨rfl, hfirst, hsize⟩, hkey⟩
  · right
    rw [hok]
    exact ⟨_, pre, post, rfl, hl, hpre, hpost, hmerged, hfirst, hsize.trans h0⟩

/-! ## the whole range -/

/-- A node that has not been loaded. -/
structure Unloaded (m : Memory H) (T : List (Chain H)) (p : Ptr) (nd : Subtree H) : Prop where
  cell : m.cells p = some nd
  apart : p ∉ addrs T
  below : p < m.brk
  reginfo : nd.reginfo = some p
  next : nd.next = none
  children : nd.children = none
  proper : nd.start < nd.stop

theorem Unloaded.fits (h : Unloaded s.mem (A ++ sl :: B) p nd) (hs : Stands s (A ++ sl :: B)) (ha : nd.start = sl.start)
    (hb : nd.stop = sl.stop) : Fits s.mem A sl B p nd :=
  ⟨hs.holds, h.cell, h.apart, h.below, ha, hb, h.reginfo⟩

/-- What splitting a node that has not been loaded leaves: the node up to the point, and another one from there. -/
structure Halved (m m' : Memory H) (T : List (Chain H)) (p : Ptr) (nd : Subtree H) (x : ObjId) : Prop where
  brk : m.brk ≤ m'.brk
  first : ∃ nd', m'.cells p = some nd' ∧ nd'.reg = nd.reg ∧ nd'.reginfo = some p ∧ nd'.start = nd.start ∧ nd'.stop = x
  second : ∃ nd', Unloaded m' T m.brk nd' ∧ nd'.reg = nd.reg ∧ nd'.start = x ∧ nd'.stop = nd.stop ∧
    nd'.prev = some p
  frame : ∀ q < m.brk, q ≠ p → m'.cells q = m.cells q

theorem Unloaded.halve (h : Unloaded m T p nd) (hT : ∀ q ∈ addrs T, q < m.brk) (hx : x < nd.stop) :
    ∃ m', m.subtreeSplit p x = .ok (m', some m.brk) ∧ Halved m m' T p nd x := by
  have hholds : Holds m none ([] ++ (⟨nd.start, nd.stop, (p, nd.reg), []⟩ : Chain H) :: []) := by
    refine ⟨⟨⟨rfl, nd, h.cell, rfl, h.reginfo, ⟨⟨rfl, rfl, h.next⟩, nofun, nofun⟩, h.children⟩, trivial⟩, ?_, ?_⟩
    · simp [Slice.items]
    · simpa [Slice.items] using h.below
  obtain ⟨m', hm', hb, ⟨⟨hfirst, hsecond, -⟩, hnodup, hbelow⟩, hc⟩ := hholds.split (Std.le_of_lt hx)
  obtain ⟨-, d₁, hd₁, hr₁, hg₁, ⟨hs₁, -⟩, -⟩ := hfirst
  obtain ⟨-, d₂, hd₂, hr₂, hg₂, ⟨hs₂, hk₂⟩, hch₂⟩ := hsecond
  refine ⟨m', hm', hb, ⟨d₁, hd₁, hr₁, hg₁, hs₁.start, hs₁.stop⟩, ⟨d₂, ⟨hd₂, fun hmem => (hT _ hmem).false, ?_, hg₂, hs₂.next,
    hch₂, ?_⟩, hr₂, hs₂.start, hs₂.stop, hk₂.prev _ rfl⟩, fun q hq hqp => ?_⟩
  · exact hbelow m.brk (mem_cons_of_mem p (mem_singleton_self m.brk))
  · rw [hs₂.start, hs₂.stop]
    exact hx
  · exact hc q hq (by simpa [Slice.items] using hqp)

theorem next_over (hs : Sliced (A ++ sl :: B)) (hcov : ∃ t ∈ A ++ sl :: B, t.Over sl.stop) :
    ∃ t B', B = t :: B' ∧ t.start = sl.stop ∧ t.Over sl.stop := by
  obtain ⟨t, ht, hover⟩ := hcov
  obtain ⟨-, hslB, hA⟩ := Slice.sliced_append.mp hs
  obtain ⟨hsl, hB, hslB⟩ := Slice.sliced_cons.mp hslB
  have htB : t ∈ B := by
    rcases mem_append.mp ht with h | h
    · have := hA t h sl mem_cons_self
      have := hover.2
      grind
    · rcases mem_cons.mp h with rfl | h
      · exact absurd hover.2 (Std.lt_irrefl)
      · exact h
  cases B with
  | nil => cases htB
  | cons u B =>
    have hu := hslB u mem_cons_self
    rcases mem_cons.mp htB with rfl | htB
    · have := hover.1
      exact ⟨t, B, rfl, by grind, hover⟩
    · obtain ⟨hu', -, huB⟩ := Slice.sliced_cons.mp hB
      have := huB t htB
      have := hover.1
      grind

theorem load_start (hs : Stands s (A ++ sl :: B)) (h0 : s.lookupCacheSize = 0) (ho : AllOrdered (A ++ sl :: B))
    (hu : Unloaded s.mem (A ++ sl :: B) p nd) (hover : sl.Over nd.start) :
    ∃ (s₁ : Context H) (A₁ : List (Chain H)) (sl₁ : Chain H), s₁.lookupCacheSize = 0 ∧ s.mem.brk ≤ s₁.mem.brk ∧
      sl₁.start = nd.start ∧ sl₁.stop = sl.stop ∧ sl₁.items.map Prod.snd = sl.items.map Prod.snd ∧
      (A₁ = [] → A = [] ∧ sl.start = nd.start) ∧ Stands s₁ (A₁ ++ sl₁ :: B) ∧ AllOrdered (A₁ ++ sl₁ :: B) ∧
      SameRegs (A ++ sl :: B) (A₁ ++ sl₁ :: B) ∧ Unloaded s₁.mem (A₁ ++ sl₁ :: B) p nd ∧
      ∀ n, Context.subtreeLoadLoop (n + 1) s p = (
        match oidCompare nd.stop sl.stop with
        | .lt => do
          let (mem, _) ← s₁.mem.subtreeSplit sl₁.top.1 nd.stop
          let (mem, res) ← mem.mergeIntoChain p sl₁.top.1
          .ok ({ s₁ with mem }, res)
        | .eq => do
          let (mem, res) ← s₁.mem.mergeIntoChain p sl₁.top.1
          .ok ({ s₁ with mem }, res)
        | .gt => do
          let (mem, new2) ← s₁.mem.subtreeSplit p sl.stop
          let (s, res) ← Context.subtreeLoadLoop n { s₁ with mem } p
          match new2 with
          | none => if res ≠ .registeredOk then .error .address else .ok (s, .registeredOk)
          | some new2 =>
            if res ≠ .registeredOk then do
              let s ← s.removeSubtree new2
              let mem ← s.mem.free new2
              .ok ({ s with mem }, res)
            else Context.subtreeLoadLoop n s new2) := by
  obtain ⟨s', r, hr, hst, hfound⟩ := find_uncached hs h0 nd.start (.inl rfl)
  obtain ⟨hmem, hfirst, hsize⟩ := hst
  obtain rfl : r = some sl.top.1 := by
    rcases hfound with ⟨A', sl', B', heq, hover', rfl⟩ | ⟨hnone, -⟩
    · obtain ⟨-, rfl, -⟩ := hs.sliced.over_split heq hover hover'
      rfl
    · exact absurd hover (hnone sl (mem_append_right _ mem_cons_self))
  have hs' : Stands s' (A ++ sl :: B) := hs.same ⟨hmem, hfirst, hsize⟩
  obtain ⟨m₁, A₁, sl₁, hm₁, hb₁, hstart, hstop, hitems, hnil, hs₁, ho₁, hsame, hframe, haddr⟩ :=
    startNode_spec hs' ho hover
  obtain ⟨td, htd, -, -, hsits, -⟩ := hs₁.holds.head
  refine ⟨{ s' with mem := m₁ }, A₁, sl₁, hsize.trans h0, hmem ▸ hb₁, hstart, hstop, hitems, hnil, hs₁, ho₁, hsame, ?_,
    fun n => ?_⟩
  · rw [hmem] at hframe haddr hb₁
    exact ⟨(hframe p hu.below hu.apart).trans hu.cell, fun h => hu.apart (haddr p hu.below h),
      hu.below.trans_le hb₁, hu.reginfo, hu.next, hu.children, hu.proper⟩
  · conv_lhs => unfold Context.subtreeLoadLoop
    rw [Memory.get_eq hu.cell, ok_bind, hr, ok_bind]
    simp only []
    rw [hm₁, ok_bind]
    simp only []
    rewrite [Memory.get_eq htd, ok_bind, hsits.stop, hstop]
    rfl

theorem Unloaded.keep (h : Unloaded m T p nd) (hb : m.brk ≤ m'.brk)
    (hc : ∀ q < m.brk, q ∉ addrs T → m'.cells q = m.cells q) (haddr : ∀ q < m.brk, q ∈ addrs T' → q ∈ addrs T) :
    Unloaded m' T' p nd :=
  ⟨(hc p h.below h.apart).trans h.cell, fun hp => h.apart (haddr p h.below hp), h.below.trans_le hb, h.reginfo, h.next,
    h.children, h.proper⟩

/-- A node and the tree it is to be loaded into, where its range is covered. In front of the tree it may not come. -/
structure Room (s : Context H) (T : List (Chain H)) (p : Ptr) (nd : Subtree H) : Prop where
  stands : Stands s T
  uncached : s.lookupCacheSize = 0
  ordered : AllOrdered T
  unloaded : Unloaded s.mem T p nd
  front : ∀ t ∈ T.head?, t.start < nd.start ∨ ∃ y ∈ t.items, Ahead y.2 nd.reg
  covered : ∀ x, nd.start ≤ x → x < nd.stop → ∃ t ∈ T, t.Over x

/-- The tree has the node over all of its range, and nothing else has changed. -/
def LoadsOk (s : Context H) (T : List (Chain H)) (p : Ptr) (nd : Subtree H) (n : Nat) : Prop :=
  ∃ s' T', Context.subtreeLoadLoop n s p = .ok (s', .registeredOk) ∧ Stands s' T' ∧ AllOrdered T' ∧
    s'.lookupCacheSize = 0 ∧
    ∀ x r, Carries (regsOf T') x r ↔ Carries (regsOf T) x r ∨ ((nd.start ≤ x ∧ x < nd.stop) ∧ r = nd.reg)

/-- Nowhere in its range is there a node like it. -/
def NoKey (T : List (Chain H)) (nd : Subtree H) : Prop :=
  ∀ x r, nd.start ≤ x → x < nd.stop → Carries (regsOf T) x r → ¬ SameKey r nd.reg

theorem NoKey.items (h : NoKey (A ++ sl :: B) nd) (hx : sl.Over x) (hlo : nd.start ≤ x) (hhi : x < nd.stop) :
    ¬ ∃ y ∈ sl.items, SameKey y.2 nd.reg := by
  rintro ⟨y, hy, hkey⟩
  refine h x y.2 hlo hhi (carries_regsOf.mpr ⟨sl, ?_, hx, mem_map_of_mem hy⟩) hkey
  exact mem_append_right _ mem_cons_self

theorem merge_ok (hs : Stands s (A ++ sl :: B)) (ho : AllOrdered (A ++ sl :: B))
    (hf : Fits s.mem A sl B p nd) (hfront : A = [] → ∃ y ∈ sl.items, Ahead y.2 nd.reg)
    (hkey : ¬ ∃ y ∈ sl.items, SameKey y.2 nd.reg) :
    ∃ m' T', s.mem.mergeIntoChain p sl.top.1 = .ok (m', .registeredOk) ∧ Stands { s with mem := m' } T' ∧
      AllOrdered T' ∧ ∀ x r, Carries (regsOf T') x r ↔
        Carries (regsOf (A ++ sl :: B)) x r ∨ (sl.Over x ∧ r = nd.reg) := by
  have hsl : sl ∈ A ++ sl :: B := mem_append_right _ mem_cons_self
  rcases hf.merge (ho sl hsl) with ⟨h, -⟩ | ⟨m', pre, post, hl, hpre, hpost, hok, hmerged⟩
  · exact absurd h hkey
  · refine ⟨m', _, hok, hmerged.stands hs hl ?_, ho.withItems hl hpre hpost, fun x r => carries_withItems hl⟩
    rintro hA rfl
    obtain ⟨y, hy, hahead⟩ := hfront hA
    rw [hl] at hy
    exact (hpost y hy).asymm hahead

theorem NoKey.same (h : NoKey T nd) (hT : SameRegs T T') : NoKey T' nd :=
  fun x r hlo hhi hc => h x r hlo hhi ((hT x r).mp hc)

theorem Room.front' (h : Room s (A ++ sl :: B) p nd) {A₁ : List (Chain H)} {sl₁ : Chain H}
    (hitems : sl₁.items.map Prod.snd = sl.items.map Prod.snd) (hnil : A₁ = [] → A = [] ∧ sl.start = nd.start) :
    A₁ = [] → ∃ y ∈ sl₁.items, Ahead y.2 nd.reg := by
  intro hA₁
  obtain ⟨rfl, hstart⟩ := hnil hA₁
  rcases h.front sl rfl with hlt | ⟨y, hy, hahead⟩
  · rw [hstart] at hlt
    exact absurd hlt Std.lt_irrefl
  · have hmem : y.2 ∈ sl₁.items.map Prod.snd := hitems ▸ mem_map_of_mem hy
    obtain ⟨y', hy', heq⟩ := mem_map.mp hmem
    exact ⟨y', hy', heq ▸ hahead⟩

theorem load_within (h : Room s (A ++ sl :: B) p nd) (hover : sl.Over nd.start) (hstop : nd.stop ≤ sl.stop)
    (hkey : NoKey (A ++ sl :: B) nd) : LoadsOk s (A ++ sl :: B) p nd (n + 1) := by
  obtain ⟨s₁, A₁, sl₁, h0, -, hstart₁, hstop₁, hitems, hnil, hs₁, ho₁, hsame, hu₁, hload⟩ :=
    load_start h.stands h.uncached h.ordered h.unloaded hover
  have hfront := h.front' hitems hnil
  have hproper := h.unloaded.proper
  unfold LoadsOk
  rw [hload]
  cases hcmp : oidCompare nd.stop sl.stop with
  | lt =>
    rw [oidCompare_lt, ← hstop₁] at hcmp
    have hlt : sl₁.start < nd.stop := hstart₁ ▸ hproper
    obtain ⟨m₂, hm₂, hb₂, hs₂, hc₂, haddr₂⟩ := hs₁.cut hlt hcmp
    have hsame₂ := sameRegs_cut (A := A₁) (B := B) s₁.mem.brk hlt hcmp
    have hf : Fits m₂ A₁ (lower sl₁ nd.stop) (upper s₁.mem.brk sl₁ nd.stop :: B) p nd :=
      (hu₁.keep hb₂ hc₂ haddr₂).fits hs₂ hstart₁.symm rfl
    have hlow : (lower sl₁ nd.stop).Over nd.start := ⟨hstart₁ ▸ Std.le_refl _, hproper⟩
    obtain ⟨m₃, T₃, hm₃, hs₃, ho₃, hcar₃⟩ := merge_ok hs₂ (ho₁.cut _) hf hfront
      (((hkey.same hsame).same hsame₂).items hlow (Std.le_refl _) hproper)
    refine ⟨{ s₁ with mem := m₃ }, T₃, ?_, hs₃, ho₃, h0, fun x r => ?_⟩
    · simp only []
      rw [hm₂, ok_bind]
      show (m₂.mergeIntoChain p (lower sl₁ nd.stop).top.1 >>= _) = _
      rw [hm₃]
      rfl
    · rw [hcar₃, hsame₂, hsame, ← hstart₁]
      rfl
  | eq =>
    rw [oidCompare_eq] at hcmp
    have hf : Fits s₁.mem A₁ sl₁ B p nd := hu₁.fits hs₁ hstart₁.symm (hcmp.trans hstop₁.symm)
    have hover₁ : sl₁.Over nd.start := ⟨hstart₁ ▸ Std.le_refl _, by rw [hstop₁, ← hcmp]; exact hproper⟩
    obtain ⟨m₃, T₃, hm₃, hs₃, ho₃, hcar₃⟩ := merge_ok hs₁ ho₁ hf hfront
      ((hkey.same hsame).items hover₁ (Std.le_refl _) hproper)
    refine ⟨{ s₁ with mem := m₃ }, T₃, ?_, hs₃, ho₃, h0, fun x r => ?_⟩
    · simp only []
      rw [hm₃]
      rfl
    · rw [hcar₃, hsame, ← hstart₁, hcmp, ← hstop₁]
      rfl
  | gt =>
    rw [oidCompare_gt] at hcmp
    exact absurd hstop (Std.not_le.mpr hcmp)

theorem Stands.outside (h : Stands s T) (hc : ∀ q ∈ addrs T, m'.cells q = s.mem.cells q) (hb : s.mem.brk ≤ m'.brk) :
    Stands { s with mem := m' } T :=
  ⟨⟨h.holds.listed.frame hc, h.holds.nodup, fun q hq => (h.holds.below q hq).trans_le hb⟩, h.first, h.sliced⟩

theorem over_iff_carries : (∃ t ∈ T, t.Over x) ↔ ∃ r, Carries (regsOf T) x r := by
  constructor
  · rintro ⟨t, ht, hx⟩
    exact ⟨t.top.2, carries_regsOf.mpr ⟨t, ht, hx, mem_cons_self⟩⟩
  · rintro ⟨r, hr⟩
    obtain ⟨t, ht, hx, -⟩ := carries_regsOf.mp hr
    exact ⟨t, ht, hx⟩

theorem load_ok (h : Room s (A ++ sl :: B) p nd) (hover : sl.Over nd.start) (hkey : NoKey (A ++ sl :: B) nd)
    (hn : B.length + 2 ≤ n) : LoadsOk s (A ++ sl :: B) p nd n := by
  induction B generalizing s A sl p nd n with
  | nil =>
    obtain ⟨n, rfl⟩ : ∃ i, n = i + 1 := ⟨n - 1, by omega⟩
    refine load_within h hover (Std.not_lt.mp fun hlt => ?_) hkey
    obtain ⟨t, B', hnil, -⟩ := next_over h.stands.sliced (h.covered _ (Std.le_of_lt hover.2) hlt)
    cases hnil
  | cons t B ih =>
    obtain ⟨n, rfl⟩ : ∃ i, n = i + 2 := ⟨n - 2, by simp at hn; omega⟩
    by_cases hstop : nd.stop ≤ sl.stop
    · exact load_within h hover hstop hkey
    rw [Std.not_le] at hstop
    obtain ⟨s₁, A₁, sl₁, h0, -, hstart₁, hstop₁, hitems, hnil, hs₁, ho₁, hsame, hu₁, hload⟩ :=
      load_start h.stands h.uncached h.ordered h.unloaded hover
    have hmid : nd.start < sl₁.stop := hstop₁ ▸ hover.2
    obtain ⟨m₂, hm₂, hb₂, ⟨nd₁, hc₁, hr₁, hg₁, ha₁, he₁⟩, ⟨nd₂, hu₂, hr₂, ha₂, he₂, -⟩, hframe₂⟩ :=
      hu₁.halve hs₁.holds.below (hstop₁ ▸ hstop)
    -- the first part goes into the slice
    have hs₂ : Stands { s₁ with mem := m₂ } (A₁ ++ sl₁ :: t :: B) :=
      hs₁.outside (fun q hq => hframe₂ q (hs₁.holds.below q hq) fun hqp => hu₁.apart (hqp ▸ hq)) hb₂
    have hf : Fits m₂ A₁ sl₁ (t :: B) p nd₁ :=
      ⟨hs₂.holds, hc₁, hu₁.apart, hu₁.below.trans_le hb₂, ha₁.trans hstart₁.symm, he₁, hg₁⟩
    have hover₁ : sl₁.Over nd.start := ⟨hstart₁ ▸ Std.le_refl _, hmid⟩
    have hkey₁ := hkey.same hsame
    rcases load_exact (n := n) hs₂ h0 hf (ho₁ sl₁ (mem_append_right _ mem_cons_self)) with
      ⟨-, -, -, y, hy, hsk⟩ | ⟨s₃, pre, post, hok, hl, hpre, hpost, hmerged, hfirst₃, h0₃⟩
    · exact absurd ⟨y, hy, hr₁ ▸ hsk⟩ (hkey₁.items hover₁ (Std.le_refl _) h.unloaded.proper)
    have htop : A₁ = [] → pre ≠ [] := by
      rintro hA rfl
      obtain ⟨y, hy, hahead⟩ := h.front' hitems hnil hA
      rw [hl] at hy
      exact (hr₁ ▸ hpost y hy).asymm hahead
    have hs₃ : Stands s₃ (A₁ ++ withItems sl₁ pre (p, nd₁.reg) post :: t :: B) :=
      (hmerged.stands hs₂ hl htop).same ⟨rfl, hfirst₃, h0₃.trans h0.symm⟩
    have hcar₃ : ∀ x r, Carries (regsOf (A₁ ++ withItems sl₁ pre (p, nd₁.reg) post :: t :: B)) x r ↔
        Carries (regsOf (A ++ sl :: t :: B)) x r ∨ (sl₁.Over x ∧ r = nd.reg) := fun x r => by
      rw [carries_withItems hl, hsame, hr₁]
    -- the rest goes on behind it
    obtain ⟨t', B', htB, htstart, htover⟩ := next_over h.stands.sliced (h.covered _ (Std.le_of_lt hover.2) hstop)
    obtain ⟨rfl, rfl⟩ := List.cons.inj htB
    have hassoc : A₁ ++ withItems sl₁ pre (p, nd₁.reg) post :: t :: B =
        (A₁ ++ [withItems sl₁ pre (p, nd₁.reg) post]) ++ t :: B := by
      rw [append_assoc]
      rfl
    have hroom : Room s₃ ((A₁ ++ [withItems sl₁ pre (p, nd₁.reg) post]) ++ t :: B) s₁.mem.brk nd₂ := by
      rw [← hassoc]
      refine ⟨hs₃, h0₃, ho₁.withItems hl hpre hpost, ⟨?_, fun hmem => ?_, ?_, hu₂.reginfo, hu₂.next, hu₂.children,
        hu₂.proper⟩, fun u hu => .inl ?_, fun x hlo hhi => ?_⟩
      · rw [hmerged.frame _ hu₁.below.ne' hu₂.apart]
        exact hu₂.cell
      · rw [(addrs_withItems _ hl).mem_iff] at hmem
        rcases mem_cons.mp hmem with hp | hmem
        · exact hu₁.below.ne' hp
        · exact hu₂.apart hmem
      · rw [hmerged.brk]
        exact hu₂.below
      · have hs := hs₃.sliced
        rw [hassoc] at hs hu
        rw [ha₂, hstop₁, ← htstart]
        exact hs.head_lt (by simp) u hu
      · rw [ha₂, hstop₁] at hlo
        rw [he₂] at hhi
        obtain ⟨r, hr⟩ := over_iff_carries.mp (h.covered x (Std.le_trans (Std.le_of_lt hover.2) hlo) hhi)
        exact over_iff_carries.mpr ⟨r, (hcar₃ x r).mpr (.inl hr)⟩
    have hover₂ : t.Over nd₂.start := by
      rw [ha₂, hstop₁]
      exact htover
    have hkey₂ : NoKey ((A₁ ++ [withItems sl₁ pre (p, nd₁.reg) post]) ++ t :: B) nd₂ := by
      rw [← hassoc]
      intro x r hlo hhi hc hsk
      rw [ha₂] at hlo
      rw [he₂] at hhi
      rcases (hcar₃ x r).mp hc with hc | ⟨hx, -⟩
      · rw [hstop₁] at hlo
        exact hkey x r (Std.le_trans (Std.le_of_lt hover.2) hlo) hhi hc (hr₂ ▸ hsk)
      · exact absurd hx.2 (Std.not_lt.mpr hlo)
    obtain ⟨s', T', hload', hs', ho', h0', hcar'⟩ := ih (n := n + 1) hroom hover₂ hkey₂
      (by rw [length_cons] at hn; omega)
    refine ⟨s', T', ?_, hs', ho', h0', fun x r => ?_⟩
    · rw [hload, oidCompare_gt.mpr hstop]
      simp only []
      rw [← hstop₁, hm₂, ok_bind]
      simp only []
      rw [hok, ok_bind]
      exact hload'
    · rw [hcar', ← hassoc, hcar₃, ha₂, he₂, hr₂, or_assoc, ← or_and_right]
      have : sl₁.Over x ∨ (sl₁.stop ≤ x ∧ x < nd.stop) ↔ nd.start ≤ x ∧ x < nd.stop := by
        unfold Slice.Over
        rw [hstart₁]
        rw [← hstop₁] at hstop
        grind
      rw [this]

/-! ## a node that is refused -/

/-- The node is refused: the tree carries what it did, and the node is still apart from it. -/
def LoadsDuplicate (s : Context H) (T : List (Chain H)) (p : Ptr) (n : Nat) : Prop :=
  ∃ s' T', Context.subtreeLoadLoop n s p = .ok (s', .duplicateRegistration) ∧ Stands s' T' ∧ AllOrdered T' ∧
    s'.lookupCacheSize = 0 ∧ SameRegs T T' ∧ p ∉ addrs T' ∧ ∃ nd, s'.mem.cells p = some nd

theorem removeSubtree_spec {k : Ptr} (hs : Stands s T) (hu : Unloaded s.mem T k nd) (hprev : nd.prev = some p)
    (hp : ∃ pd, s.mem.cells p = some pd) (hpT : p ∉ addrs T) (hpk : p ≠ k) :
    ∃ s', (do
        let s ← s.removeSubtree k
        let mem ← s.mem.free k
        .ok ({ s with mem }, MibResult.duplicateRegistration)) = Except.ok (s', MibResult.duplicateRegistration) ∧
      Stands s' T ∧ s'.lookupCacheSize = s.lookupCacheSize ∧ ∃ pd, s'.mem.cells p = some pd := by
  obtain ⟨pd, hpd⟩ := hp
  obtain ⟨m₁, hm₁, hb₁, hc₁⟩ := Memory.set_spec hpd fun a => { a with next := nd.next }
  have hk₁ : m₁.cells k = some nd := by rw [hc₁, if_neg hpk.symm, hu.cell]
  refine ⟨{ s with mem := ⟨Function.update m₁.cells k none, m₁.brk⟩ }, ?_, hs.outside (fun q hq => ?_) hb₁.ge, rfl,
    { pd with next := nd.next }, ?_⟩
  · unfold Context.removeSubtree
    rw [Memory.get_eq hu.cell, ok_bind, hprev]
    simp only []
    rw [hm₁, ok_bind, hu.next]
    simp only [ok_bind]
    rw [Memory.free_eq hk₁]
    rfl
  · show Function.update m₁.cells k none q = _
    rw [Function.update_of_ne fun h : q = k => hu.apart (h ▸ hq), hc₁, if_neg fun h : q = p => hpT (h ▸ hq)]
  · show Function.update m₁.cells k none p = _
    rw [Function.update_of_ne hpk, hc₁, if_pos rfl]

theorem load_duplicate (hs : Stands s (A ++ sl :: B)) (h0 : s.lookupCacheSize = 0) (ho : AllOrdered (A ++ sl :: B))
    (hu : Unloaded s.mem (A ++ sl :: B) p nd) (hover : sl.Over nd.start)
    (hdup : ∃ y ∈ sl.items, SameKey y.2 nd.reg) : LoadsDuplicate s (A ++ sl :: B) p (n + 2) := by
  obtain ⟨s₁, A₁, sl₁, h0₁, -, hstart₁, hstop₁, hitems, hnil, hs₁, ho₁, hsame, hu₁, hload⟩ :=
    load_start hs h0 ho hu hover
  have hproper := hu.proper
  have hdup₁ : ∃ y ∈ sl₁.items, SameKey y.2 nd.reg := by
    obtain ⟨y, hy, hkey⟩ := hdup
    have hmem : y.2 ∈ sl₁.items.map Prod.snd := hitems ▸ mem_map_of_mem hy
    obtain ⟨y', hy', heq⟩ := mem_map.mp hmem
    exact ⟨y', hy', heq ▸ hkey⟩
  have hmerge (m : Memory H) (sl' : Chain H) (B' : List (Chain H)) (hf : Fits m A₁ sl' B' p nd)
      (hit : sl'.items = sl₁.items) : m.mergeIntoChain p sl'.top.1 = .ok (m, .duplicateRegistration) := by
    have hord : Ordered (sl'.items.map Prod.snd) := by
      rw [hit]
      exact ho₁ sl₁ (mem_append_right _ mem_cons_self)
    rcases hf.merge hord with ⟨-, h⟩ | ⟨-, pre, post, hl, hpre, hpost, -⟩
    · exact h
    · obtain ⟨y, hy, hkey⟩ := hdup₁
      rw [← hit, hl] at hy
      rcases mem_append.mp hy with hy | hy
      · exact absurd hkey (hpre y hy).irrefl_key
      · exact absurd ⟨hkey.1.symm, hkey.2.symm⟩ (hpost y hy).irrefl_key
  unfold LoadsDuplicate
  rw [hload]
  cases hcmp : oidCompare nd.stop sl.stop with
  | lt =>
    rw [oidCompare_lt, ← hstop₁] at hcmp
    have hlt : sl₁.start < nd.stop := hstart₁ ▸ hproper
    obtain ⟨m₂, hm₂, hb₂, hs₂, hc₂, haddr₂⟩ := hs₁.cut hlt hcmp
    have hu₂ := hu₁.keep hb₂ hc₂ haddr₂
    have hf : Fits m₂ A₁ (lower sl₁ nd.stop) (upper s₁.mem.brk sl₁ nd.stop :: B) p nd :=
      hu₂.fits hs₂ hstart₁.symm rfl
    refine ⟨{ s₁ with mem := m₂ }, _, ?_, hs₂, ho₁.cut _, h0₁, fun x r => ?_, hu₂.apart, nd, hu₂.cell⟩
    · simp only []
      rw [hm₂, ok_bind]
      show (m₂.mergeIntoChain p (lower sl₁ nd.stop).top.1 >>= _) = _
      rw [hmerge _ _ _ hf rfl]
      rfl
    · rw [sameRegs_cut s₁.mem.brk hlt hcmp, hsame]
  | eq =>
    rw [oidCompare_eq] at hcmp
    have hf : Fits s₁.mem A₁ sl₁ B p nd := hu₁.fits hs₁ hstart₁.symm (hcmp.trans hstop₁.symm)
    refine ⟨s₁, _, ?_, hs₁, ho₁, h0₁, hsame, hu₁.apart, nd, hu₁.cell⟩
    simp only []
    rw [hmerge _ _ _ hf rfl]
    rfl
  | gt =>
    rw [oidCompare_gt] at hcmp
    obtain ⟨m₂, hm₂, hb₂, ⟨nd₁, hc₁, hr₁, hg₁, ha₁, he₁⟩, ⟨nd₂, hu₂, -, -, -, hprev₂⟩, hframe₂⟩ :=
      hu₁.halve hs₁.holds.below (hstop₁ ▸ hcmp)
    have hs₂ : Stands { s₁ with mem := m₂ } (A₁ ++ sl₁ :: B) :=
      hs₁.outside (fun q hq => hframe₂ q (hs₁.holds.below q hq) fun hqp => hu₁.apart (hqp ▸ hq)) hb₂
    have hf : Fits m₂ A₁ sl₁ B p nd₁ :=
      ⟨hs₂.holds, hc₁, hu₁.apart, hu₁.below.trans_le hb₂, ha₁.trans hstart₁.symm, he₁, hg₁⟩
    rcases load_exact (n := n) hs₂ h0₁ hf (ho₁ sl₁ (mem_append_right _ mem_cons_self)) with
      ⟨s₃, hload₃, hsame₃, -⟩ | ⟨-, pre, post, -, hl, hpre, hpost, -⟩
    · obtain ⟨hmem₃, -, h0₃⟩ := id hsame₃
      have hmem₃' : s₃.mem = m₂ := hmem₃
      obtain ⟨s', hs', hstands, hsize, hcell⟩ := removeSubtree_spec (s := s₃) (hs₂.same hsame₃) (hmem₃' ▸ hu₂) hprev₂
        ⟨nd₁, hmem₃' ▸ hc₁⟩ hu₁.apart hu₁.below.ne
      refine ⟨s', _, ?_, hstands, ho₁, hsize.trans (h0₃.trans h0₁), hsame, hu₁.apart, hcell⟩
      simp only []
      rw [← hstop₁, hm₂, ok_bind]
      simp only []
      rw [hload₃, ok_bind]
      exact hs'
    · obtain ⟨y, hy, hkey⟩ := hdup₁
      rw [hl] at hy
      rcases mem_append.mp hy with hy | hy
      · exact absurd (hr₁ ▸ hkey) (hpre y hy).irrefl_key
      · exact absurd ⟨(hr₁ ▸ hkey).1.symm, (hr₁ ▸ hkey).2.symm⟩ (hpost y hy).irrefl_key

end Priot.Registry
