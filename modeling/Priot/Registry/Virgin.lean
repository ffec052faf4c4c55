/-
# Behind everything

A node for a place where nothing is registered goes in front of the next node that has variables, or else to the end
of the list. Its predecessor is linked alone, without the children it may have.
-/
import Priot.Registry.Unregister

namespace Priot.Registry

open Lib Lib.Slice List

variable {H : Type} {m m' : Memory H} {s s' : Context H} {T : List (Chain H)} {sl : Chain H} {p : Ptr} {nd : Subtree H}
  {n : Nat} {x : ObjId} {r : Registration H}

def lone (p : Ptr) (nd : Subtree H) : Chain H := ⟨nd.start, nd.stop, (p, nd.reg), []⟩

/-- Nothing in the list reaches beyond the start of the node, and the last head has no children. -/
structure AtEnd (T : List (Chain H)) (nd : Subtree H) : Prop where
  stops : ∀ t ∈ T, t.stop ≤ nd.start
  alone : ∀ t ∈ T.getLast?, t.under = []

/-! ## the links -/

theorem Holds.linkNext (h : Holds m (some none) (T ++ [sl])) (halone : sl.under = []) (hp : p ∉ addrs (T ++ [sl]))
    (hcell : m.cells p = some nd) : ∃ m', m.subtreeChangeNext sl.top.1 (some p) = .ok m' ∧ m'.brk = m.brk ∧
      Listed m'.cells (some none) (T ++ [sl]) (some p) ∧ m'.cells p = some (setOff sl.start nd) ∧
      ∀ q, q ∉ addrs (T ++ [sl]) → q ≠ p → m'.cells q = m.cells q := by
  obtain ⟨hT, hsl, -⟩ := listed_append.mp h.listed
  have hitems : sl.items = [sl.top] := congrArg (sl.top :: ·) halone
  have haddrs : addrs (T ++ [sl]) = addrs T ++ [sl.top.1] := by simp [hitems]
  rw [haddrs] at hp ⊢
  have hnodup := h.nodup
  rw [haddrs] at hnodup
  have hfresh : sl.top.1 ∉ addrs T := fun hmem =>
    (nodup_append.mp hnodup).2.2 _ hmem _ (mem_singleton_self _) rfl
  have hpsl : p ≠ sl.top.1 := fun hps => hp (mem_append_right _ (hps ▸ mem_singleton_self _))
  rw [hitems] at hsl
  obtain ⟨-, qd, hqd, hreg, hinfo, ⟨hsits, hknows⟩, hchildren⟩ := hsl
  obtain ⟨m', hm', hb, hc⟩ := Memory.subtreeChangeNext_spec (t := some p) hqd (by
    rintro q ⟨⟩
    exact ⟨hpsl, nd, hcell⟩)
  refine ⟨m', hm', hb, ?_, ?_, fun q hq hqp => ?_⟩
  · refine listed_append.mpr ⟨hT.frame fun q hq => ?_, ?_, trivial⟩
    · rw [hc, if_neg fun hqs : q = sl.top.1 => hfresh (hqs ▸ hq), if_neg]
      rintro ⟨⟩
      exact hp (mem_append_left _ hq)
    · show Nodes m'.cells _ (some sl.top.1) sl.items
      rw [hitems]
      refine ⟨rfl, setNext (some p) qd, ?_, hreg, hinfo, ⟨⟨hsits.start, hsits.stop, rfl⟩, hknows.congr rfl rfl rfl⟩,
        hchildren⟩
      rw [hc, if_pos rfl, hqd]
      rfl
  · rw [hc, if_neg hpsl, if_pos rfl, hcell, hsits.start]
    rfl
  · rw [hc, if_neg fun hqs : q = sl.top.1 => hq (mem_append_right _ (hqs ▸ mem_singleton_self _)), if_neg]
    rintro ⟨⟩
    exact hqp rfl

theorem Holds.concat (h : Holds m (some none) T) (hu : Unloaded m T p nd) (hbrk : m'.brk = m.brk)
    (hlisted : Listed m'.cells (some none) T (some p))
    (hcell : m'.cells p = some (offBehind T (setPrev (predOf T) nd))) :
    ∃ m'', m'.subtreeChangeNext p none = .ok m'' ∧ m''.brk = m.brk ∧ Holds m'' (some none) (T ++ [lone p nd]) ∧
      ∀ q, q ≠ p → m''.cells q = m'.cells q := by
  obtain ⟨m'', hm'', hb, hc⟩ := Memory.subtreeChangeNext_spec (t := none) hcell nofun
  have hother : ∀ q, q ≠ p → m''.cells q = m'.cells q := fun q hq => by
    rw [hc, if_neg hq, if_neg]
    rintro ⟨⟩
  have hp : m''.cells p = some (setNext none (offBehind T (setPrev (predOf T) nd))) := by
    rw [hc, if_pos rfl, hcell]
    rfl
  have hknows : Knows (some (predOf T)) (offBehind T (setPrev (predOf T) nd)) := Fits.offBehind_knows rfl
  refine ⟨m'', hm'', hb.trans hbrk, ⟨listed_append.mpr ⟨?_, ?_, trivial⟩, ?_, fun q hq => ?_⟩, hother⟩
  · exact hlisted.frame fun q hq => hother q fun hqp => hu.apart (hqp ▸ hq)
  · rw [behind_eq]
    rw [Fits.offBehind_eq] at hp hknows
    exact ⟨rfl, _, hp, rfl, hu.reginfo, ⟨⟨rfl, rfl, rfl⟩, hknows.congr rfl rfl rfl⟩, hu.children⟩
  · rw [addrs_append]
    refine nodup_append.mpr ⟨h.nodup, nodup_singleton p, ?_⟩
    rintro q hq _ hp rfl
    obtain rfl : q = p := mem_singleton.mp hp
    exact hu.apart hq
  · rw [addrs_append] at hq
    rw [hb, hbrk]
    rcases mem_append.mp hq with hq | hq
    · exact h.below q hq
    · obtain rfl : q = p := mem_singleton.mp hq
      exact hu.below

/-! ## the search -/

theorem findPrev_last (h : Stands s T) (h0 : s.lookupCacheSize = 0) (hx : ∀ t ∈ T, t.start ≤ x) :
    s.subtreeFindPrev x none = .ok (s, lastHead T) := by
  obtain ⟨C, D, s', hcut, hr, -, -⟩ := subtreeFindPrev_spec h (h0 ▸ Cached.zero T s.lookup) x (.inl rfl)
  obtain rfl := Context.subtreeFindPrev_uncached h0 hr
  have hD : D = [] := by
    cases D with
    | nil => rfl
    | cons t D =>
      have ht : t ∈ T := hcut.eq ▸ mem_append_right _ mem_cons_self
      exact absurd (hx t ht) (Std.not_le.mpr (hcut.behind t mem_cons_self))
  rw [hr, hcut.eq, hD, append_nil]

theorem findNext_last (h : Stands s T) (h0 : s.lookupCacheSize = 0) (hx : ∀ t ∈ T, t.start ≤ x) :
    s.subtreeFindNext x none = .ok (s, none) := by
  unfold Context.subtreeFindNext
  rw [findPrev_last h h0 hx, ok_bind]
  rcases eq_nil_or_concat T with rfl | ⟨T, sl, rfl⟩
  · rfl
  · rw [concat_eq_append] at h ⊢
    obtain ⟨qd, hqd, -, -, hsits, -⟩ := h.holds.head
    have hlast : lastHead (T ++ [sl]) = some sl.top.1 := by simp [lastHead]
    rw [hlast]
    simp only []
    rw [Memory.get_eq hqd, ok_bind, hsits.next]
    unfold leads Context.findNextLoop
    rfl

theorem load_last (h : Stands s T) (h0 : s.lookupCacheSize = 0) (hu : Unloaded s.mem T p nd) (hend : AtEnd T nd) :
    ∃ s', Context.subtreeLoadLoop (n + 1) s p = .ok (s', .registeredOk) ∧ Stands s' (T ++ [lone p nd]) ∧
      s'.lookupCacheSize = 0 ∧ s'.mem.brk = s.mem.brk ∧ ∀ q, q ∉ addrs T → q ≠ p → s'.mem.cells q = s.mem.cells q := by
  have hstarts : ∀ t ∈ T, t.start ≤ nd.start := fun t ht =>
    Std.le_trans (Std.le_of_lt (h.sliced.proper t ht)) (hend.stops t ht)
  have hsliced : Sliced (T ++ [lone p nd]) := by
    refine Slice.sliced_append.mpr ⟨h.sliced, Slice.sliced_cons.mpr ⟨hu.proper, Sliced.nil, nofun⟩, fun t ht u hu => ?_⟩
    rw [mem_singleton.mp hu]
    exact hend.stops t ht
  have hload : Context.subtreeLoadLoop (n + 1) s p = s.loadVirgin p nd := by
    obtain ⟨s₁, r, hr, -, hfound⟩ := find_uncached h h0 nd.start (.inl rfl)
    obtain rfl := Context.subtreeFind_uncached h0 hr
    obtain rfl : r = none := by
      rcases hfound with ⟨A, t, B, rfl, hover, -⟩ | ⟨-, hr⟩
      · exact absurd hover.2 (Std.not_lt.mpr (hend.stops t (mem_append_right _ mem_cons_self)))
      · exact hr
    unfold Context.subtreeLoadLoop
    rw [Memory.get_eq hu.cell, ok_bind, hr]
    rfl
  obtain ⟨m₁, hm₁, hb₁, hc₁⟩ := Memory.subtreeChangePrev_spec (v := predOf T) hu.cell fun v hv => by
    obtain ⟨hmem, hcell⟩ := h.holds.listed.pred_cell v hv
    exact ⟨fun hvp => hu.apart (hvp ▸ hmem), hcell⟩
  have hp₁ : m₁.cells p = some (setPrev (predOf T) nd) := by
    rw [hc₁, if_pos rfl, hu.cell]
    rfl
  have hc₁' : ∀ q, q ≠ p → m₁.cells q = s.mem.cells q := fun q hq => by rw [hc₁, if_neg hq]
  have hs₁ : Holds m₁ (some none) T :=
    (h.outside (fun q hq => hc₁' q fun hqp => hu.apart (hqp ▸ hq)) hb₁.ge).holds
  have hprev : (setPrev (predOf T) nd).prev = (predOf T).map Prod.fst := rfl
  rw [hload]
  unfold Context.loadVirgin
  rw [findNext_last h h0 hstarts, ok_bind]
  simp only []
  rw [findPrev_last h h0 hstarts, ok_bind]
  simp only []
  rw [← predOf_fst, hm₁, ok_bind, predOf_fst]
  rcases eq_nil_or_concat T with rfl | ⟨A, sl, rfl⟩
  · obtain ⟨m₂, hm₂, hb₂, hholds, hc₂⟩ := h.holds.concat hu hb₁ (trivial : Listed _ _ [] _) hp₁
    refine ⟨{ s with mem := m₂, first := some p }, ?_, ⟨hholds, rfl, hsliced⟩, h0, hb₂, fun q _ hqp => ?_⟩
    · show (m₁.subtreeChangeNext p none >>= _) = _
      rw [hm₂]
      rfl
    · rw [hc₂ q hqp, hc₁' q hqp]
  · rw [concat_eq_append] at *
    have halone : sl.under = [] := hend.alone sl (by simp)
    obtain ⟨m₂, hm₂, hb₂, hlisted, hp₂, hc₂⟩ := hs₁.linkNext halone hu.apart hp₁
    have hoff : (offBehind (A ++ [sl]) : Subtree H → Subtree H) = setOff sl.start := by
      funext qd
      simp [offBehind]
    obtain ⟨m₃, hm₃, hb₃, hholds, hc₃⟩ := h.holds.concat hu (hb₂.trans hb₁) hlisted (hoff ▸ hp₂)
    have hlast : lastHead (A ++ [sl]) = some sl.top.1 := by simp [lastHead]
    refine ⟨{ s with mem := m₃ }, ?_, ⟨hholds, ?_, hsliced⟩, h0, hb₃, fun q hq hqp => ?_⟩
    · rw [hlast]
      simp only []
      rw [hm₂, ok_bind, hm₃]
      rfl
    · show s.first = _
      rw [h.first]
      cases A <;> rfl
    · rw [hc₃ q hqp, hc₂ q hq hqp, hc₁' q hqp]

theorem AllOrdered.concat (h : AllOrdered T) (p : Ptr) (nd : Subtree H) : AllOrdered (T ++ [lone p nd]) := by
  intro t ht
  rcases mem_append.mp ht with ht | ht
  · exact h t ht
  · rw [mem_singleton.mp ht]
    exact pairwise_singleton _ _

theorem carries_concat : Carries (regsOf (T ++ [lone p nd])) x r ↔
    Carries (regsOf T) x r ∨ ((nd.start ≤ x ∧ x < nd.stop) ∧ r = nd.reg) := by
  rw [carries_regsOf_split]
  constructor
  · rintro (hr | ⟨hover, hr⟩ | ⟨_, hr, -⟩)
    · exact .inl hr
    · exact .inr ⟨hover, mem_singleton.mp hr⟩
    · cases hr
  · rintro (hr | ⟨hover, rfl⟩)
    · exact .inl hr
    · exact .inr (.inl ⟨hover, mem_singleton_self _⟩)

end Priot.Registry
