/-
# What a search finds

The walk over the heads stops where the starts pass the name, whatever it skips and wherever the cache has it start.
-/
import Priot.Registry.Split

namespace Priot.Registry

open Lib Lib.Slice List

variable {H : Type} {m : Memory H} {s s' : Context H} {T A B C D : List (Chain H)} {sl : Chain H} {k : Option Pred}
  {x : ObjId} {n ll : Nat} {w : Option Ptr}

/-- The list falls into the slices that start up to `x`, and those that start behind. -/
structure CutAt (T : List (Chain H)) (x : ObjId) (C D : List (Chain H)) : Prop where
  eq : T = C ++ D
  before : ∀ t ∈ C, t.start ≤ x
  behind : ∀ t ∈ D, x < t.start

/-! ## the walk -/

/-- The offset at which the name parted from the node before. -/
def Parted (x : ObjId) (k : Option Pred) (ll : Nat) : Prop :=
  ll = 0 ∨ ∃ p a, k = some (some (p, a)) ∧ a ≤ x ∧ ll = common x a + 1

theorem lastHead_cons : lastHead (sl :: C) = (lastHead C).or (some sl.top.1) := by
  cases C with
  | nil => rfl
  | cons sl' C =>
    unfold lastHead
    rw [getLast?_cons_cons]
    cases h : (sl' :: C).getLast? with
    | none => exact absurd h (by simp)
    | some t => rfl

theorem findPrevLoop_spec (hT : Listed m.cells k T none) (hs : Sliced T) (hll : Parted x k ll) (hn : T.length ≤ n) :
    ∃ C D, CutAt T x C D ∧ Context.findPrevLoop m x n ll w (leads T none) = .ok ((lastHead C).or w, leads D none) := by
  induction T generalizing k ll w n with
  | nil =>
    refine ⟨[], [], ⟨rfl, nofun, nofun⟩, ?_⟩
    unfold leads Context.findPrevLoop
    rfl
  | cons sl T ih =>
    obtain ⟨hsl, hT⟩ := hT
    obtain ⟨nd, hnd, -, hsits, hknows⟩ := hsl.mem (p := sl.top.1) mem_cons_self
    obtain ⟨n, rfl, hn'⟩ := Lib.exists_round hn
    have hbehind := hs.starts
    have hs' : Sliced T := (Slice.sliced_cons.mp hs).2.1
    -- the walk goes on where the slice does not start behind the name
    have goOn (ll' : Nat) (hle : sl.start ≤ x) (hll' : ll' = common x sl.start + 1) :
        ∃ C D, CutAt (sl :: T) x C D ∧
          Context.findPrevLoop m x n ll' (some sl.top.1) nd.next = .ok ((lastHead C).or w, leads D none) := by
      obtain ⟨C, D, hcut, hr⟩ := ih (w := some sl.top.1) hT hs' (.inr ⟨_, _, rfl, hle, hll'⟩) hn'
      refine ⟨sl :: C, D, ⟨congrArg (sl :: ·) hcut.eq, ?_, hcut.behind⟩, ?_⟩
      · intro t ht
        rcases mem_cons.mp ht with rfl | ht
        · exact hle
        · exact hcut.before t ht
      · rw [hsits.next, hr, lastHead_cons]
        cases lastHead C <;> rfl
    unfold leads Context.findPrevLoop
    rw [Memory.get_eq hnd, ok_bind]
    split
    · next hskip =>
      obtain ⟨hll0, -, hoff⟩ := hskip
      rcases hll with h0 | ⟨p, a, rfl, hax, rfl⟩
      · exact absurd h0 hll0
      · have := hknows.off _ rfl _ rfl
        rw [this, hsits.start] at hoff
        obtain ⟨hle, hcommon⟩ := common_skip hax (Nat.lt_of_succ_lt_succ hoff)
        exact goOn _ hle (by rw [hcommon])
    · rw [oidCompareLl_eq, hsits.start]
      simp only []
      split
      · next hlt =>
        rw [oidCompare_lt] at hlt
        refine ⟨[], sl :: T, ⟨rfl, nofun, fun t ht => ?_⟩, rfl⟩
        rcases mem_cons.mp ht with rfl | ht
        · exact hlt
        · exact Std.lt_trans hlt (hbehind t ht)
      · next hge =>
        rw [oidCompare_lt, List.not_lt] at hge
        exact goOn _ hge rfl

/-! ## the cache -/

/-- An entry of the cache: two heads of the list, one after the other. -/
def Neighbours (T : List (Chain H)) (e : LookupCache) : Prop :=
  ∃ A t t' B, T = A ++ t :: t' :: B ∧ e.next = some t'.top.1 ∧ e.previous = some t.top.1

/-- The entries of the cache are neighbours in the list, and the ring is filled from the front. -/
structure Cached (T : List (Chain H)) (size : Nat) (l : LookupCacheContext) : Prop where
  filled : l.thecachecount < size → l.currentpos = l.thecachecount
  entries : ∀ i < l.thecachecount, i < size → Neighbours T (l.cache i)

theorem Cached.empty (T : List (Chain H)) (size : Nat) {l : LookupCacheContext} (hcount : l.thecachecount = 0)
    (hpos : l.currentpos = 0) : Cached T size l :=
  ⟨fun _ => hpos.trans hcount.symm, fun i hi => absurd hi (by omega)⟩

/-- The context holds the list, and its first node is the first head. -/
structure Stands (s : Context H) (T : List (Chain H)) : Prop where
  holds : Holds s.mem (some none) T
  first : s.first = leads T none
  sliced : Sliced T

/-- Contexts that differ in nothing but the cache. -/
def SameTree (s s' : Context H) : Prop :=
  s'.mem = s.mem ∧ s'.first = s.first ∧ s'.lookupCacheSize = s.lookupCacheSize

theorem SameTree.refl (s : Context H) : SameTree s s := ⟨rfl, rfl, rfl⟩

theorem Stands.same (h : Stands s T) (hs : SameTree s s') : Stands s' T := by
  obtain ⟨hm, hf, -⟩ := hs
  exact ⟨hm ▸ h.holds, hf.trans h.first, h.sliced⟩

theorem Cached.add (h : Cached T s.lookupCacheSize s.lookup) {next previous : Option Ptr}
    (he : Neighbours T ⟨next, previous⟩) : Cached T s.lookupCacheSize (s.lookupCacheAdd next previous).lookup := by
  obtain ⟨hf, hen⟩ := h
  unfold Context.lookupCacheAdd
  constructor
  · intro hlt
    simp only at hlt ⊢
    split at hlt
    · next hc =>
      have := hf hc
      rw [if_pos hc, if_neg (by omega)]
      omega
    · next hc => exact absurd hlt hc
  · intro i hi hsize
    simp only at hi ⊢
    rw [Function.update_apply]
    split
    · exact he
    · next hne =>
      refine hen i ?_ hsize
      split at hi
      · next hc =>
        have := hf hc
        omega
      · exact hi

theorem Cached.replace (h : Cached T s.lookupCacheSize s.lookup) (i : Nat) {next previous : Option Ptr}
    (he : Neighbours T ⟨next, previous⟩) :
    Cached T s.lookupCacheSize (s.lookupCacheReplace i next previous).lookup := by
  obtain ⟨hf, hen⟩ := h
  refine ⟨hf, fun j hj hsize => ?_⟩
  show Neighbours T (Function.update s.lookup.cache i _ j)
  rw [Function.update_apply]
  split
  · exact he
  · exact hen j hj hsize

theorem Holds.head (h : Holds m k (A ++ sl :: B)) :
    ∃ nd, m.cells sl.top.1 = some nd ∧ nd.reg = sl.top.2 ∧ nd.reginfo = some sl.top.1 ∧
      Sits sl (leads B none) nd ∧ Knows (behind k A) nd := by
  obtain ⟨-, hsl, -⟩ := listed_append.mp h.listed
  obtain ⟨-, nd, hnd, hr, hg, hP, -⟩ := hsl
  exact ⟨nd, hnd, hr, hg, hP⟩

theorem lookupCacheLoop_spec (h : Holds m k T) {cache : Nat → LookupCache} (hc : ∀ i < n, Neighbours T (cache i)) :
    ∃ r, Context.lookupCacheLoop m cache x n = .ok r ∧ ∀ i cmp, r = some (i, cmp) → i < n ∧
      ∃ A t t' B, T = A ++ t :: t' :: B ∧ cache i = ⟨some t'.top.1, some t.top.1⟩ ∧ t.start ≤ x := by
  induction n with
  | zero => exact ⟨none, rfl, nofun⟩
  | succ n ih =>
    obtain ⟨r, hr, hfound⟩ := ih fun i hi => hc i (by omega)
    obtain ⟨A, t, t', B, rfl, hnext, hprev⟩ := hc n (Nat.lt_succ_self n)
    obtain ⟨nd, hnd, -, -, hsits, -⟩ := h.head
    unfold Context.lookupCacheLoop
    rw [hr, ok_bind, hprev]
    simp only []
    rw [Memory.get_eq hnd, ok_bind, hsits.start]
    refine ⟨_, rfl, fun i cmp hi => ?_⟩
    split at hi
    · next hge =>
      obtain ⟨rfl, -⟩ := Prod.mk.inj (Option.some.inj hi)
      rw [ne_eq, oidCompare_lt, List.not_lt] at hge
      refine ⟨Nat.lt_succ_self _, A, t, t', B, rfl, ?_, hge⟩
      rw [← hnext, ← hprev]
    · obtain ⟨hin, h⟩ := hfound i cmp hi
      exact ⟨Nat.lt_succ_of_lt hin, h⟩

/-! ## the search -/

theorem outset_spec (h : Stands s T) (hc : Cached T s.lookupCacheSize s.lookup) (x : ObjId) {subtree : Option Ptr}
    (hsub : subtree = none ∨ subtree = s.first) :
    ∃ o A B, s.outset x subtree = .ok o ∧ T = A ++ B ∧ o.previous = lastHead A ∧ o.myptr = leads B none ∧
      ∀ t ∈ A, t.start ≤ x := by
  unfold Context.outset
  match subtree, hsub with
  | some p, hsub =>
    have hp : some p = s.first := hsub.resolve_left (by simp)
    exact ⟨_, [], T, rfl, rfl, rfl, hp.trans h.first, nofun⟩
  | none, _ =>
    simp only []
    split
    · exact ⟨_, [], T, rfl, rfl, rfl, h.first, nofun⟩
    · obtain ⟨r, hr, hfound⟩ := lookupCacheLoop_spec (x := x) (n := min s.lookup.thecachecount s.lookupCacheSize) h.holds
        fun i hi => hc.entries i (by omega) (by omega)
      have hfind : s.lookupCacheFind x = .ok r := hr
      rw [hfind]
      match r with
      | none => exact ⟨_, [], T, rfl, rfl, rfl, h.first, nofun⟩
      | some (i, cmp) =>
        obtain ⟨-, A, t, t', B, rfl, hi, htx⟩ := hfound i cmp rfl
        refine ⟨_, A ++ [t], t' :: B, rfl, by simp, ?_, ?_, fun u hu => ?_⟩
        · simp [hi, lastHead]
        · simp [hi, leads]
        · rcases mem_append.mp hu with hu | hu
          · obtain ⟨-, hB, hAB⟩ := Slice.sliced_append.mp h.sliced
            have := h.sliced.proper u (mem_append_left _ hu)
            have := hAB u hu t mem_cons_self
            grind
          · rw [mem_singleton.mp hu]
            exact htx

theorem lastHead_append : lastHead (A ++ C) = (lastHead C).or (lastHead A) := by
  induction A with
  | nil => exact Option.or_none.symm
  | cons sl A ih =>
    rw [cons_append, lastHead_cons, ih, lastHead_cons]
    cases lastHead C <;> rfl

theorem length_le_addrs (T : List (Chain H)) : T.length ≤ (addrs T).length := by
  induction T with
  | nil => exact le_rfl
  | cons sl T ih =>
    rw [addrs_cons, length_append, length_map]
    show _ ≤ (sl.under.length + 1) + _
    rw [length_cons]
    omega

theorem Holds.length_le (h : Holds m k T) : T.length ≤ m.brk :=
  (length_le_addrs T).trans (Lib.length_le_of_below h.nodup h.below)

theorem subtreeFindPrev_spec (h : Stands s T) (hc : Cached T s.lookupCacheSize s.lookup) (x : ObjId)
    {subtree : Option Ptr} (hsub : subtree = none ∨ subtree = s.first) :
    ∃ C D s', CutAt T x C D ∧ s.subtreeFindPrev x subtree = .ok (s', lastHead C) ∧ SameTree s s' ∧
      Cached T s'.lookupCacheSize s'.lookup := by
  obtain ⟨o, A, B, ho, rfl, hprev, hptr, hA⟩ := outset_spec h hc x hsub
  obtain ⟨-, hB⟩ := listed_append.mp h.holds.listed
  obtain ⟨C, D, hcut, hr⟩ := findPrevLoop_spec (x := x) (n := s.mem.brk) (w := lastHead A) hB
    (Slice.sliced_append.mp h.sliced).2.1 (.inl rfl)
    (le_trans (by rw [length_append]; omega) h.holds.length_le)
  have hcut' : CutAt (A ++ B) x (A ++ C) D := by
    refine ⟨by rw [hcut.eq, append_assoc], fun t ht => ?_, hcut.behind⟩
    rcases mem_append.mp ht with ht | ht
    · exact hA t ht
    · exact hcut.before t ht
  unfold Context.subtreeFindPrev
  rw [ho, ok_bind, hprev, hptr, hr, ← lastHead_append]
  simp only [ok_bind]
  split
  · next hcond =>
    -- the two heads between which the walk stopped
    have hn : Neighbours (A ++ B) ⟨leads D none, lastHead (A ++ C)⟩ := by
      obtain ⟨hstop, -, hback, -⟩ := hcond
      rcases eq_nil_or_concat (A ++ C) with h0 | ⟨E, t, hE⟩
      · rw [h0] at hback
        exact absurd rfl hback
      · cases D with
        | nil => exact absurd rfl hstop
        | cons t' D =>
          rw [concat_eq_append] at hE
          refine ⟨E, t, t', D, ?_, rfl, ?_⟩
          · rw [hcut'.eq, hE, append_assoc]
            rfl
          · simp [hE, lastHead]
    split
    · exact ⟨_, _, _, hcut', rfl, ⟨rfl, rfl, rfl⟩, hc.replace _ hn⟩
    · exact ⟨_, _, _, hcut', rfl, ⟨rfl, rfl, rfl⟩, hc.add hn⟩
  · exact ⟨_, _, _, hcut', rfl, SameTree.refl s, hc⟩

theorem subtreeFind_spec (h : Stands s T) (hc : Cached T s.lookupCacheSize s.lookup) (x : ObjId)
    {subtree : Option Ptr} (hsub : subtree = none ∨ subtree = s.first) :
    ∃ s' r, s.subtreeFind x subtree = .ok (s', r) ∧ SameTree s s' ∧ Cached T s'.lookupCacheSize s'.lookup ∧
      ((∃ A sl B, T = A ++ sl :: B ∧ sl.Over x ∧ r = some sl.top.1) ∨ ((∀ t ∈ T, ¬ t.Over x) ∧ r = none)) := by
  obtain ⟨C, D, s', hcut, hr, hs, hc'⟩ := subtreeFindPrev_spec h hc x hsub
  unfold Context.subtreeFind
  rw [hr, ok_bind]
  have hD : ∀ t ∈ D, ¬ t.Over x := fun t ht hover => Std.not_le.mpr (hcut.behind t ht) hover.1
  rcases eq_nil_or_concat C with rfl | ⟨A, sl, hC⟩
  · refine ⟨s', none, rfl, hs, hc', .inr ⟨fun t ht => ?_, rfl⟩⟩
    rw [hcut.eq, nil_append] at ht
    exact hD t ht
  · rw [concat_eq_append] at hC
    obtain rfl := hC
    have heq : T = A ++ sl :: D := by
      rw [hcut.eq, append_assoc]
      rfl
    have hlast : lastHead (A ++ [sl]) = some sl.top.1 := by simp [lastHead]
    have hslx : sl.start ≤ x := hcut.before sl (mem_append_right _ (mem_singleton_self sl))
    obtain ⟨nd, hnd, -, -, hsits, -⟩ := (heq ▸ (h.same hs).holds).head
    rw [hlast]
    simp only []
    rw [Memory.get_eq hnd, ok_bind, hsits.stop]
    by_cases hlt : x < sl.stop
    · refine ⟨s', _, rfl, hs, hc', .inl ⟨A, sl, D, heq, ⟨hslx, hlt⟩, ?_⟩⟩
      rw [if_pos (oidCompare_lt.mpr hlt)]
    · refine ⟨s', _, rfl, hs, hc', .inr ⟨fun t ht hover => ?_, ?_⟩⟩
      · rw [heq] at ht
        rcases mem_append.mp ht with ht | ht
        · obtain ⟨-, -, hA⟩ := Slice.sliced_append.mp (heq ▸ h.sliced)
          have := hA t ht sl mem_cons_self
          have := hover.2
          grind
        · rcases mem_cons.mp ht with rfl | ht
          · exact hlt hover.2
          · exact hD t ht hover
      · rw [if_neg fun h => hlt (oidCompare_lt.mp h)]

end Priot.Registry
