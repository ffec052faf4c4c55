/-
# Containers behind an iterator

The items of such a container are known by hooks that go through them from a loop context. Every search is one loop over
all items; what is cleaned up after it is left out.
-/
import Priot.Lib.Compare

namespace Priot.Containers.ContainerIterator

open Lib List

variable {α C : Type}

/-! ## the functions of the code -/

def PRIOT_ERR_NOERROR : Int := 0

def PRIOT_ENDOFMIBVIEW : Int := 130

def PRIOT_ERR_GENERR : Int := 5

/-- What `getFirst` and `getNext` return and leave: `rc`, `loopCtx` and `tmp.val`. -/
abbrev LoopKey (α C : Type) := Int × C × Option α

/-- `getData`, with the `savePos` that `ContainerIterator_get` requires then and that is not called without it. A
position is saved over another one. -/
structure DataHooks (α C : Type) where
  getData : C → Int × α
  savePos : C → C → C

/-- `ContainerIterator_IteratorInfo`. `loopCtx` is what the loop begins with, `NULL` or as `initLoopCtx` leaves it. -/
structure IteratorInfo (α C : Type) where
  compare : α → α → Int
  null : C
  loopCtx : C
  getFirst : C → LoopKey α C
  getNext : C → LoopKey α C
  data : Option (DataHooks α C)
  sorted : Bool

namespace IteratorInfo

/-- The loop of `_ContainerIterator_iteratorGet`. -/
def getLoop (ii : IteratorInfo α C) (key : α) : Nat → LoopKey α C → Option α → Option (Option α)
  | 0, _, _ => none
  | rounds + 1, (rc, loopCtx, val), best =>
    match val with
    | none => some best
    | some tmp =>
      if rc ≠ PRIOT_ERR_NOERROR then some best
      else
        let cmp := ii.compare tmp key
        let best := if cmp = 0 then some ((ii.data.map fun d => (d.getData loopCtx).2).getD tmp) else best
        if cmp > 0 ∧ ii.sorted = true then some best else ii.getLoop key rounds (ii.getNext loopCtx) best

/-- `_ContainerIterator_iteratorGet`, with at most so many rounds of its loop. -/
def iteratorGet (ii : IteratorInfo α C) (rounds : Nat) (key : α) : Option (Option α) :=
  let first := ii.getFirst ii.loopCtx
  if first.1 ≠ PRIOT_ERR_NOERROR then some none else ii.getLoop key rounds first none

/-- `bestVal` and `bestCtx`. -/
structure Best (α C : Type) where
  val : Option α
  ctx : C

/-- `bestCtx` after a call of `savePos`, if there is a `getData`. -/
def saved (ii : IteratorInfo α C) (loopCtx bestCtx : C) : C :=
  (ii.data.map fun d => d.savePos loopCtx bestCtx).getD bestCtx

/-- The loop of `_ContainerIterator_iteratorGetNext`: `rc` and the best match. To compare `NULL` is a fault. -/
def nextLoop [DecidableEq α] (ii : IteratorInfo α C) (key : Option α) :
    Nat → LoopKey α C → Best α C → Option (Int × Best α C)
  | 0, _, _ => none
  | rounds + 1, (rc, loopCtx, val), best =>
    match val with
    | none => some (rc, best)
    | some tmp =>
      if rc ≠ PRIOT_ERR_NOERROR then some (rc, best)
      else
        match key with
        | some key =>
          let cmp := ii.compare tmp key
          if cmp > 0 then
            if best.val.all fun val => ii.compare tmp val < 0 then
              ii.nextLoop (some key) rounds (ii.getNext loopCtx) ⟨some tmp, ii.saved loopCtx best.ctx⟩
            else ii.nextLoop (some key) rounds (ii.getNext loopCtx) best
          else if cmp = 0 ∧ ii.sorted = true then
            let (rc, loopCtx, val) := ii.getNext loopCtx
            if rc = PRIOT_ERR_NOERROR then some (rc, ⟨val, ii.saved loopCtx best.ctx⟩)
            else some (if rc = PRIOT_ENDOFMIBVIEW then PRIOT_ERR_GENERR else rc, best)
          else ii.nextLoop (some key) rounds (ii.getNext loopCtx) best
        | none =>
          match best.val with
          | none => none
          | some val =>
            if val = tmp then some (PRIOT_ERR_GENERR, best)
            else if ii.compare val tmp > 0 then
              ii.nextLoop none rounds (ii.getNext loopCtx) ⟨some tmp, ii.saved loopCtx best.ctx⟩
            else ii.nextLoop none rounds (ii.getNext loopCtx) best

/-- `_ContainerIterator_iteratorGetNext` up to the end of its loop. -/
def bestMatch [DecidableEq α] (ii : IteratorInfo α C) (rounds : Nat) (key : Option α) : Option (Int × Best α C) :=
  let (rc, loopCtx, val) := ii.getFirst ii.loopCtx
  if rc ≠ PRIOT_ERR_NOERROR then some (rc, ⟨none, ii.null⟩)
  else
    match key with
    | some key => ii.nextLoop (some key) rounds (rc, loopCtx, val) ⟨none, ii.null⟩
    | none =>
      let best : Best α C := ⟨val, ii.saved loopCtx ii.null⟩
      if ii.sorted then some (rc, best) else ii.nextLoop none rounds (ii.getNext loopCtx) best

/-- The end of `_ContainerIterator_iteratorGetNext`: the data of the best match, or `NULL` on errors. -/
def dataOf (ii : IteratorInfo α C) (rc : Int) (best : Best α C) : Option α :=
  if rc = PRIOT_ENDOFMIBVIEW ∨ rc = PRIOT_ERR_NOERROR then
    match ii.data, best.val with
    | some d, some _ => if (d.getData best.ctx).1 = PRIOT_ERR_NOERROR then some (d.getData best.ctx).2 else none
    | _, val => val
  else none

def iteratorGetNext [DecidableEq α] (ii : IteratorInfo α C) (rounds : Nat) (key : Option α) : Option (Option α) :=
  (ii.bestMatch rounds key).map fun (rc, best) => ii.dataOf rc best

def iteratorFind (ii : IteratorInfo α C) (rounds : Nat) (key : Option α) : Option (Option α) :=
  match key with
  | none => some none
  | some key => ii.iteratorGet rounds key

def iteratorFindNext [DecidableEq α] (ii : IteratorInfo α C) (rounds : Nat) (key : Option α) : Option (Option α) :=
  ii.iteratorGetNext rounds key

/-- Calls of `iteratorFindNext` from `NULL` on, each behind what the last one returned, until one returns `NULL`. -/
def visit [DecidableEq α] (ii : IteratorInfo α C) (rounds : Nat) : Nat → Option α → Option (List α)
  | 0, _ => none
  | steps + 1, key =>
    (ii.iteratorFindNext rounds key).bind fun found =>
      match found with
      | none => some []
      | some x => (ii.visit rounds steps (some x)).map (x :: ·)

/-! ## what the container holds -/

/-- At a loop context an item is found, and at what is saved of the context. -/
def At (ii : IteratorInfo α C) (loopCtx : C) (x : α) : Prop :=
  ∀ d ∈ ii.data, d.getData loopCtx = (PRIOT_ERR_NOERROR, x) ∧
    ∀ bestCtx, d.getData (d.savePos loopCtx bestCtx) = (PRIOT_ERR_NOERROR, x)

/-- What a hook has returned is the first of some items, and going on leads to the others and the end. -/
inductive Leads (ii : IteratorInfo α C) : LoopKey α C → List α → Prop
  | done {loopCtx : C} {val : Option α} : Leads ii (PRIOT_ENDOFMIBVIEW, loopCtx, val) []
  | item {loopCtx : C} {x : α} {xs : List α} : ii.At loopCtx x → Leads ii (ii.getNext loopCtx) xs →
      Leads ii (PRIOT_ERR_NOERROR, loopCtx, some x) (x :: xs)

end IteratorInfo

/-- A container and the items that its hooks go through. -/
structure Enumerated (α C : Type) where
  ii : IteratorInfo α C
  items : List α
  leads : ii.Leads (ii.getFirst ii.loopCtx) items
  total : TotalCompare ii.compare
  distinct : items.Pairwise fun x y => ii.compare x y ≠ 0
  increasing : ii.sorted = true → items.Pairwise fun x y => ii.compare x y < 0

/-- What is found for a key. -/
def FoundIn (compare : α → α → Int) (items : List α) (key : α) : Option α → Prop
  | none => ∀ x ∈ items, compare x key ≠ 0
  | some x => x ∈ items ∧ compare x key = 0

/-- An item lies above a key; `NULL` is below all. -/
def Above (compare : α → α → Int) (key : Option α) (x : α) : Prop := ∀ k ∈ key, compare x k > 0

/-- What is found next behind a key. -/
def NextIn (compare : α → α → Int) (items : List α) (key : Option α) : Option α → Prop
  | none => ∀ x ∈ items, ¬ Above compare key x
  | some x => (x ∈ items ∧ Above compare key x) ∧ ∀ y ∈ items, Above compare key y → y = x ∨ compare x y < 0

/-! ## finding a key -/

variable {ii : IteratorInfo α C} {r : LoopKey α C} {items seen xs : List α} {key : Option α} {k x : α} {n : Nat}

theorem ne_key_of_tail (hf : TotalCompare ii.compare) (hpair : (x :: xs).Pairwise fun x y => ii.compare x y ≠ 0)
    (hx : ii.compare x k = 0) : ∀ y ∈ xs, ii.compare y k ≠ 0 := by
  intro y hy hyk
  have hxy := (pairwise_cons.mp hpair).1 y hy
  exact hxy (((hf.congr_left hx y).2).mpr ((hf.eq_comm y k).mp hyk))

theorem getLoop_spec (hf : TotalCompare ii.compare) (h : ii.Leads r items)
    (hpair : items.Pairwise fun x y => ii.compare x y ≠ 0)
    (hsorted : ii.sorted = true → items.Pairwise fun x y => ii.compare x y < 0) (hn : items.length < n)
    (best : Option α) : ∃ found, ii.getLoop k n r best = some found ∧
      ((∀ x ∈ items, ii.compare x k ≠ 0) ∧ found = best ∨ ∃ x ∈ items, ii.compare x k = 0 ∧ found = some x) := by
  induction h generalizing n best with
  | @done loopCtx val =>
    obtain ⟨n, rfl⟩ := Nat.exists_eq_succ_of_ne_zero (show n ≠ 0 by omega)
    refine ⟨best, ?_, .inl ⟨nofun, rfl⟩⟩
    cases val <;> rfl
  | @item loopCtx x xs hat hleads ih =>
    obtain ⟨n, rfl⟩ := Nat.exists_eq_succ_of_ne_zero (show n ≠ 0 by omega)
    have htail := (pairwise_cons.mp hpair).2
    have hincreasing := fun hs => pairwise_cons.mp (hsorted hs)
    have hdata : (ii.data.map fun d => (d.getData loopCtx).2).getD x = x := by
      cases hd : ii.data with
      | none => rfl
      | some d => exact congrArg Prod.snd (hat d hd).1
    rw [IteratorInfo.getLoop]
    dsimp only
    rw [if_neg (not_not.mpr rfl), hdata]
    by_cases hzero : ii.compare x k = 0
    · obtain ⟨found, hloop, hfound⟩ := ih htail (fun hs => (hincreasing hs).2) (n := n)
        (by rw [length_cons] at hn; omega) (some x)
      have hnone := ne_key_of_tail hf hpair hzero
      rw [if_pos hzero, if_neg (fun h => absurd h.1 (by omega))]
      refine ⟨found, hloop, .inr ⟨x, mem_cons_self, hzero, ?_⟩⟩
      rcases hfound with ⟨-, rfl⟩ | ⟨y, hy, hyk, -⟩
      · rfl
      · exact absurd hyk (hnone y hy)
    · rw [if_neg hzero]
      by_cases hstop : ii.compare x k > 0 ∧ ii.sorted = true
      · -- all that follow are greater still
        rw [if_pos hstop]
        refine ⟨best, rfl, .inl ⟨fun y hy => ?_, rfl⟩⟩
        rcases mem_cons.mp hy with rfl | hy
        · exact hzero
        · intro hyk
          have hxy := (hincreasing hstop.2).1 y hy
          have hxk := hf.lt_of_lt_of_le hxy (le_of_eq hyk)
          omega
      · rw [if_neg hstop]
        obtain ⟨found, hloop, hfound⟩ := ih htail (fun hs => (hincreasing hs).2) (n := n)
          (by rw [length_cons] at hn; omega) best
        refine ⟨found, hloop, ?_⟩
        rcases hfound with ⟨hnone, rfl⟩ | ⟨y, hy, hyk, rfl⟩
        · exact .inl ⟨forall_mem_cons.mpr ⟨hzero, hnone⟩, rfl⟩
        · exact .inr ⟨y, mem_cons_of_mem _ hy, hyk, rfl⟩

theorem iteratorGet_eq (ii : IteratorInfo α C) (n : Nat) (k : α) :
    ii.iteratorGet (n + 1) k = ii.getLoop k (n + 1) (ii.getFirst ii.loopCtx) none := by
  unfold IteratorInfo.iteratorGet
  generalize ii.getFirst ii.loopCtx = r
  obtain ⟨rc, loopCtx, val⟩ := r
  by_cases hrc : rc ≠ PRIOT_ERR_NOERROR
  · rw [if_pos hrc]
    cases val with
    | none => rfl
    | some x => exact (if_pos hrc).symm
  · exact if_neg hrc

theorem iteratorFind_spec (E : Enumerated α C) (k : α) (hn : E.items.length < n) :
    ∃ found, E.ii.iteratorFind n (some k) = some found ∧ FoundIn E.ii.compare E.items k found := by
  obtain ⟨n, rfl⟩ := Nat.exists_eq_succ_of_ne_zero (show n ≠ 0 by omega)
  obtain ⟨found, hloop, hfound⟩ := getLoop_spec (k := k) E.total E.leads E.distinct E.increasing hn none
  refine ⟨found, (iteratorGet_eq E.ii n k).trans hloop, ?_⟩
  rcases hfound with ⟨hnone, rfl⟩ | ⟨x, hx, hxk, rfl⟩
  · exact hnone
  · exact ⟨hx, hxk⟩

/-! ## finding the next key -/

section Next

variable {f : α → α → Int} {val : Option α}

theorem NextIn.skip (h : NextIn f seen key val) (hx : ¬ Above f key x) : NextIn f (seen ++ [x]) key val := by
  cases val with
  | none =>
    intro y hy
    rcases mem_append.mp hy with hy | hy
    · exact h y hy
    · rw [mem_singleton.mp hy]
      exact hx
  | some v =>
    refine ⟨⟨mem_append_left _ h.1.1, h.1.2⟩, fun y hy habove => ?_⟩
    rcases mem_append.mp hy with hy | hy
    · exact h.2 y hy habove
    · rw [mem_singleton.mp hy] at habove
      exact absurd habove hx

theorem NextIn.keep {v : α} (h : NextIn f seen key (some v)) (hx : f v x < 0) :
    NextIn f (seen ++ [x]) key (some v) := by
  refine ⟨⟨mem_append_left _ h.1.1, h.1.2⟩, fun y hy habove => ?_⟩
  rcases mem_append.mp hy with hy | hy
  · exact h.2 y hy habove
  · rw [mem_singleton.mp hy]
    exact .inr hx

theorem NextIn.take (hf : TotalCompare f) (h : NextIn f seen key val) (hx : Above f key x)
    (hless : ∀ v ∈ val, f x v < 0) : NextIn f (seen ++ [x]) key (some x) := by
  refine ⟨⟨mem_append_right _ mem_cons_self, hx⟩, fun y hy habove => ?_⟩
  rcases mem_append.mp hy with hy | hy
  · right
    cases val with
    | none => exact absurd habove (h y hy)
    | some v =>
      rcases h.2 y hy habove with rfl | hvy
      · exact hless y rfl
      · exact hf.lt_of_lt_of_le (hless v rfl) (le_of_lt hvy)
  · exact .inl (mem_singleton.mp hy)

end Next

/-- The best match so far is what comes next among the items seen, and its data is saved. -/
structure Matched (ii : IteratorInfo α C) (seen : List α) (key : Option α) (best : IteratorInfo.Best α C) : Prop where
  next : NextIn ii.compare seen key best.val
  saved : ∀ d ∈ ii.data, ∀ x ∈ best.val, d.getData best.ctx = (PRIOT_ERR_NOERROR, x)

theorem saved_at {loopCtx : C} (hat : ii.At loopCtx x) (ctx : C) :
    ∀ d ∈ ii.data, ∀ y ∈ some x, d.getData (ii.saved loopCtx ctx) = (PRIOT_ERR_NOERROR, y) := by
  intro d hd y hy
  cases hy
  unfold IteratorInfo.saved
  rw [hd]
  exact (hat d hd).2 ctx

theorem Matched.dataOf {best : IteratorInfo.Best α C} (h : Matched ii seen key best) {rc : Int}
    (hrc : rc = PRIOT_ENDOFMIBVIEW ∨ rc = PRIOT_ERR_NOERROR) : ii.dataOf rc best = best.val := by
  unfold IteratorInfo.dataOf
  rw [if_pos hrc]
  cases hd : ii.data with
  | none => rfl
  | some d =>
    cases hval : best.val with
    | none => rfl
    | some x =>
      show (if (d.getData best.ctx).1 = PRIOT_ERR_NOERROR then some (d.getData best.ctx).2 else none) = _
      rw [h.saved d hd x hval]
      exact if_pos rfl

/-- A search that has come to its end: the best match is that of all items, or the error says that there is none. -/
def Ends (ii : IteratorInfo α C) (items : List α) (key : Option α) (rc : Int) (best : IteratorInfo.Best α C) : Prop :=
  (rc = PRIOT_ENDOFMIBVIEW ∨ rc = PRIOT_ERR_NOERROR) ∧ Matched ii items key best ∨
    rc = PRIOT_ERR_GENERR ∧ NextIn ii.compare items key none

theorem equal_spec (hf : TotalCompare ii.compare) {loopCtx : C} (h : ii.Leads (ii.getNext loopCtx) xs)
    (hsorted : (seen ++ [x] ++ xs).Pairwise fun x y => ii.compare x y < 0) (hx : ii.compare x k = 0)
    (best : IteratorInfo.Best α C) : ∃ rc best',
      (let (rc, loopCtx, val) := ii.getNext loopCtx
        if rc = PRIOT_ERR_NOERROR then some (rc, (⟨val, ii.saved loopCtx best.ctx⟩ : IteratorInfo.Best α C))
        else some (if rc = PRIOT_ENDOFMIBVIEW then PRIOT_ERR_GENERR else rc, best)) = some (rc, best') ∧
      Ends ii (seen ++ [x] ++ xs) (some k) rc best' := by
  have hbelow : ∀ y ∈ seen ++ [x], ¬ Above ii.compare (some k) y := by
    intro y hy habove
    have hyk := habove k rfl
    rcases mem_append.mp hy with hy | hy
    · have hyx := (pairwise_append.mp (pairwise_append.mp hsorted).1).2.2 y hy x mem_cons_self
      have := hf.lt_of_lt_of_le hyx (le_of_eq hx)
      omega
    · rw [mem_singleton.mp hy] at hyk
      omega
  generalize ii.getNext loopCtx = r at h
  cases h with
  | done =>
    refine ⟨PRIOT_ERR_GENERR, best, rfl, .inr ⟨rfl, ?_⟩⟩
    rw [append_nil]
    exact hbelow
  | @item loopCtx y ys hat hleads =>
    have hbehind := (pairwise_append.mp hsorted).2.1
    refine ⟨PRIOT_ERR_NOERROR, _, rfl, .inl ⟨.inr rfl, ⟨⟨mem_append_right _ mem_cons_self, ?_⟩, ?_⟩,
      saved_at hat _⟩⟩
    · intro k' hk'
      cases hk'
      have hxy := (pairwise_append.mp hsorted).2.2 x (mem_append_right _ mem_cons_self) y
        mem_cons_self
      exact (hf.swap k y).mp (hf.lt_of_le_of_lt (le_of_eq ((hf.eq_comm x k).mp hx)) hxy)
    · intro z hz habove
      rcases mem_append.mp hz with hz | hz
      · exact absurd habove (hbelow z hz)
      · rcases mem_cons.mp hz with rfl | hz
        · exact .inl rfl
        · exact .inr ((pairwise_cons.mp hbehind).1 z hz)

/-- The loop goes on from the items seen to all of them; by induction on what is still to come. -/
theorem nextLoop_spec [DecidableEq α] (seen : List α) (hf : TotalCompare ii.compare) (h : ii.Leads r xs)
    (hpair : (seen ++ xs).Pairwise fun x y => ii.compare x y ≠ 0)
    (hsorted : ii.sorted = true → key ≠ none ∧ (seen ++ xs).Pairwise fun x y => ii.compare x y < 0)
    (hn : xs.length < n) {best : IteratorInfo.Best α C} (hbest : Matched ii seen key best)
    (hfirst : key = none → best.val ≠ none) :
    ∃ rc best', ii.nextLoop key n r best = some (rc, best') ∧ Ends ii (seen ++ xs) key rc best' := by
  induction h generalizing seen n best with
  | @done loopCtx val =>
    obtain ⟨n, rfl⟩ := Nat.exists_eq_succ_of_ne_zero (show n ≠ 0 by omega)
    refine ⟨PRIOT_ENDOFMIBVIEW, best, ?_, .inl ⟨.inl rfl, ?_⟩⟩
    · cases val <;> rfl
    · rw [append_nil]
      exact hbest
  | @item loopCtx x xs hat hleads ih =>
    obtain ⟨n, rfl⟩ := Nat.exists_eq_succ_of_ne_zero (show n ≠ 0 by omega)
    rw [length_cons] at hn
    rw [append_cons] at hpair hsorted ⊢
    have hdistinct : ∀ v ∈ seen, ii.compare v x ≠ 0 := fun v hv =>
      (pairwise_append.mp (pairwise_append.mp hpair).1).2.2 v hv x mem_cons_self
    have hstep := fun {best} (hbest : Matched ii (seen ++ [x]) key best) =>
      ih _ hpair hsorted (n := n) (by omega) hbest
    have htake (hx : Above ii.compare key x) (hless : ∀ v ∈ best.val, ii.compare x v < 0) :
        Matched ii (seen ++ [x]) key ⟨some x, ii.saved loopCtx best.ctx⟩ :=
      ⟨hbest.next.take hf hx hless, saved_at hat _⟩
    have hkeep {v : α} (hval : best.val = some v) (hnot : ¬ ii.compare x v < 0) :
        Matched ii (seen ++ [x]) key best := by
      have hnext := hval ▸ hbest.next
      have hne := hdistinct v hnext.1.1
      have hswap := hf.swap x v
      refine ⟨?_, hbest.saved⟩
      rw [hval]
      exact hnext.keep (by have := hf.swap v x; have := hf.eq_comm v x; omega)
    cases key with
    | some k =>
      rw [IteratorInfo.nextLoop]
      dsimp only
      rw [if_neg (not_not.mpr rfl)]
      by_cases habove : ii.compare x k > 0
      · have hx : Above ii.compare (some k) x := fun _ hk => by cases hk; exact habove
        rw [if_pos habove]
        split
        · next hless =>
          refine hstep (htake hx fun v hv => ?_) nofun
          rw [hv] at hless
          exact of_decide_eq_true hless
        · next hnot =>
          cases hval : best.val with
          | none =>
            rw [hval] at hnot
            exact absurd rfl hnot
          | some v =>
            rw [hval] at hnot
            exact hstep (hkeep hval fun h => hnot (decide_eq_true h)) nofun
      · have hx : ¬ Above ii.compare (some k) x := fun h => habove (h k rfl)
        rw [if_neg habove]
        by_cases hequal : ii.compare x k = 0 ∧ ii.sorted = true
        · rw [if_pos hequal]
          exact equal_spec hf hleads (hsorted hequal.2).2 hequal.1 best
        · rw [if_neg hequal]
          exact hstep ⟨hbest.next.skip hx, hbest.saved⟩ nofun
    | none =>
      rw [IteratorInfo.nextLoop, if_neg (not_not.mpr rfl)]
      obtain ⟨v, hval⟩ := Option.ne_none_iff_exists'.mp (hfirst rfl)
      have hv := (hval ▸ hbest.next : NextIn ii.compare seen none (some v)).1.1
      have hne : v ≠ x := by
        rintro rfl
        exact hdistinct v hv (hf.self v)
      rw [hval]
      dsimp only
      rw [if_neg hne]
      by_cases hless : ii.compare v x > 0
      · rw [if_pos hless]
        refine hstep (htake nofun fun w hw => ?_) fun _ => Option.some_ne_none x
        rw [hval] at hw
        cases hw
        exact (hf.swap x v).mpr hless
      · rw [if_neg hless]
        exact hstep (hkeep hval fun h => hless ((hf.swap x v).mp h)) hfirst

theorem bestMatch_spec [DecidableEq α] (E : Enumerated α C) (key : Option α) (hn : E.items.length < n) :
    ∃ rc best, E.ii.bestMatch n key = some (rc, best) ∧ Ends E.ii E.items key rc best := by
  obtain ⟨ii, items, hleads, hf, hdistinct, hincreasing⟩ := E
  dsimp only at hn ⊢
  unfold IteratorInfo.bestMatch
  generalize ii.getFirst ii.loopCtx = r at hleads
  cases hleads with
  | done => exact ⟨PRIOT_ENDOFMIBVIEW, ⟨none, ii.null⟩, rfl, .inl ⟨.inl rfl, nofun, nofun⟩⟩
  | @item loopCtx x xs hat hrest =>
    dsimp only
    rw [if_neg (not_not.mpr rfl)]
    cases key with
    | some k =>
      refine nextLoop_spec [] hf (.item hat hrest) hdistinct ?_ hn ⟨?_, ?_⟩ ?_
      · exact fun hs => ⟨Option.some_ne_none k, hincreasing hs⟩
      all_goals nofun
    | none =>
      have hbest : Matched ii [x] none ⟨some x, ii.saved loopCtx ii.null⟩ :=
        ⟨⟨⟨mem_cons_self, nofun⟩, fun y hy _ => .inl (mem_singleton.mp hy)⟩, saved_at hat _⟩
      dsimp only
      by_cases hs : ii.sorted = true
      · have hless := (pairwise_cons.mp (hincreasing hs)).1
        rw [if_pos hs]
        refine ⟨PRIOT_ERR_NOERROR, _, rfl, .inl ⟨.inr rfl, ?_, hbest.saved⟩⟩
        refine ⟨⟨mem_cons_self, nofun⟩, fun y hy _ => ?_⟩
        rcases mem_cons.mp hy with rfl | hy
        · exact .inl rfl
        · exact .inr (hless y hy)
      · rw [if_neg hs]
        rw [length_cons] at hn
        exact nextLoop_spec [x] hf hrest hdistinct (fun h => absurd h hs) (by omega) hbest
          fun _ => Option.some_ne_none x

theorem iteratorFindNext_spec [DecidableEq α] (E : Enumerated α C) (key : Option α) (hn : E.items.length < n) :
    ∃ found, E.ii.iteratorFindNext n key = some found ∧ NextIn E.ii.compare E.items key found := by
  obtain ⟨rc, best, hmatch, hends⟩ := bestMatch_spec E key hn
  refine ⟨E.ii.dataOf rc best, congrArg (Option.map _) hmatch, ?_⟩
  rcases hends with ⟨hrc, hbest⟩ | ⟨rfl, hnone⟩
  · rw [hbest.dataOf hrc]
    exact hbest.next
  · exact hnone

/-- Behind a key the items above it are visited, each once; by induction on how many there are. -/
theorem visit_spec [DecidableEq α] (E : Enumerated α C) (key : Option α) (hn : E.items.length < n)
    {left : List α} (hnodup : left.Nodup)
    (hleft : ∀ x, x ∈ left ↔ x ∈ E.items ∧ Above E.ii.compare key x) {steps : Nat} (hsteps : left.length < steps) :
    ∃ order, E.ii.visit n steps key = some order ∧ (∀ x, x ∈ order ↔ x ∈ left) ∧
      order.Pairwise fun x y => E.ii.compare x y < 0 := by
  have hf := E.total
  obtain ⟨found, hnext, hfound⟩ := iteratorFindNext_spec E key hn
  induction steps generalizing key left found with
  | zero => exact absurd hsteps (Nat.not_lt_zero _)
  | succ steps ih =>
    rw [IteratorInfo.visit, hnext]
    cases found with
    | none =>
      refine ⟨[], rfl, fun x => iff_of_false not_mem_nil fun hx => ?_, .nil⟩
      exact hfound x ((hleft x).mp hx).1 ((hleft x).mp hx).2
    | some x =>
      have hx : x ∈ left := (hleft x).mpr hfound.1
      have habove : ∀ y, Above E.ii.compare (some x) y ↔ E.ii.compare x y < 0 := fun y =>
        ⟨fun h => (hf.swap x y).mpr (h x rfl), fun h k hk => by cases hk; exact (hf.swap x y).mp h⟩
      have hrest : ∀ y, y ∈ left.erase x ↔ y ∈ E.items ∧ Above E.ii.compare (some x) y := by
        intro y
        rw [hnodup.mem_erase_iff, hleft, habove]
        constructor
        · rintro ⟨hne, hy, hkey⟩
          exact ⟨hy, (hfound.2 y hy hkey).resolve_left hne⟩
        · rintro ⟨hy, hless⟩
          refine ⟨?_, hy, fun k hk => ?_⟩
          · rintro rfl
            have := hf.self y
            omega
          · have hkx := (hf.swap k x).mpr (hfound.1.2 k hk)
            exact (hf.swap k y).mp (hf.lt_of_lt_of_le hkx (le_of_lt hless))
      obtain ⟨found', hnext', hfound'⟩ := iteratorFindNext_spec E (some x) hn
      have hlen := length_erase_of_mem hx
      have hpos := length_pos_of_mem hx
      obtain ⟨order, hvisit, hmem, hpair⟩ := ih _ (hnodup.erase x) hrest (by omega) found' hnext' hfound'
      refine ⟨x :: order, congrArg (Option.map (x :: ·)) hvisit, fun y => ?_,
        pairwise_cons.mpr ⟨fun y hy => ?_, hpair⟩⟩
      · rw [mem_cons, hmem, hnodup.mem_erase_iff]
        constructor
        · rintro (rfl | ⟨-, hy⟩)
          · exact hx
          · exact hy
        · exact fun hy => or_iff_not_imp_left.mpr fun hne => ⟨hne, hy⟩
      · exact (habove y).mp ((hrest y).mp ((hmem y).mp hy)).2

/-- With rounds for all items and the end, whatever the order of the enumeration: a key is found or there is no item
with it, the next key is found or there is none, and stepping from `NULL` on visits the items in increasing order. -/
theorem iteratorFind_exact [DecidableEq α] (E : Enumerated α C) (n : Nat) :
    (∀ k, ∃ found, E.ii.iteratorFind (E.items.length + 1 + n) (some k) = some found ∧
      FoundIn E.ii.compare E.items k found) ∧
    (∀ key, ∃ found, E.ii.iteratorFindNext (E.items.length + 1 + n) key = some found ∧
      NextIn E.ii.compare E.items key found) ∧
    ∃ order, E.ii.visit (E.items.length + 1 + n) (E.items.length + 1) none = some order ∧ order.Perm E.items ∧
      order.Pairwise fun x y => E.ii.compare x y < 0 := by
  have hn : E.items.length < E.items.length + 1 + n := by omega
  refine ⟨fun k => iteratorFind_spec E k hn, fun key => iteratorFindNext_spec E key hn, ?_⟩
  have hnodup : E.items.Nodup := by
    refine E.distinct.imp ?_
    rintro x y hne rfl
    exact hne (E.total.self x)
  obtain ⟨order, hvisit, hmem, hpair⟩ := visit_spec E none hn hnodup
    (fun x => ⟨fun hx => ⟨hx, nofun⟩, And.left⟩) (Nat.lt_succ_self _)
  have hnodup' : order.Nodup := by
    refine hpair.imp ?_
    rintro x y hless rfl
    exact absurd (E.total.self x) (ne_of_lt hless)
  exact ⟨order, hvisit, (perm_ext_iff_of_nodup hnodup' hnodup).mpr hmem, hpair⟩

/-- Two numbers, the greater one first, by their places. -/
example : Enumerated Nat Nat where
  ii := ⟨fun x y => x - y, 0, 0, fun _ => (0, 1, some 7), fun i => if i = 1 then (0, 2, some 3) else (130, 3, none), none,
    false⟩
  items := [7, 3]
  leads := .item nofun (.item nofun .done)
  total := ⟨by dsimp only; omega, by dsimp only; omega⟩
  distinct := by decide
  increasing := nofun

end Priot.Containers.ContainerIterator
