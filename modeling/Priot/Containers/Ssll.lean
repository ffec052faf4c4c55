/-
# The sorted singly linked list container

The nodes of the list are a list of objects here, whose length is the code's `count`. Duplicates are always let in:
a new object goes behind those with its key, and looking up or removing a key takes the first of them.
-/
import Priot.Containers.OrderedSet

namespace Priot.Containers

open Lib List

variable {α : Type}

/-! ## data and operations -/

/-- `ContainerListSsll_SlContainer`. -/
structure Ssll (α : Type) where
  data : List α
  unsorted : Bool
  fifo : Bool
  compare : α → α → Int
  sync : Nat

namespace Ssll

/-- The walk of `_ContainerListSsll_get`: what is left of the list where it stops. -/
def getLoop (f : α → α → Int) (unsorted : Bool) (key : α) : List α → List α
  | [] => []
  | x :: rest =>
    if f x key = 0 then x :: rest
    else if 0 < f x key && !unsorted then x :: rest
    else getLoop f unsorted key rest

/-- `_ContainerListSsll_get`. The comparison that stopped the walk is the last one made. -/
def get (c : Ssll α) (key : Option α) (exact : Bool) : Option α :=
  match key with
  | none => c.data.head?
  | some key =>
    match getLoop c.compare c.unsorted key c.data with
    | [] => none
    | x :: rest => if !exact && c.compare x key = 0 then rest.head? else some x

def find (c : Ssll α) (key : α) : Option α := c.get (some key) true

def findNext (c : Ssll α) (key : Option α) : Option α := c.get key false

/-- The sorted insert: in front of the first larger object. -/
def insertSorted (f : α → α → Int) (data : α) : List α → List α
  | [] => [data]
  | x :: rest => if 0 < f x data then data :: x :: rest else x :: insertSorted f data rest

/-- `_ContainerListSsll_insert`. `granted` is what `malloc` answers. -/
def insert (c : Ssll α) (data : α) (granted : Bool) : Int × Ssll α :=
  if !granted then (-1, c)
  else (0, { c with
    data :=
      if c.unsorted then if c.fifo then c.data ++ [data] else data :: c.data
      else insertSorted c.compare data c.data
    sync := c.sync + 1 })

/-- The loop of `_ContainerListSsll_remove` behind the head: the list without the object, if it is found. -/
def removeLoop (f : α → α → Int) (unsorted : Bool) (data : α) : List α → Option (List α)
  | [] => none
  | x :: rest =>
    if f x data = 0 then some rest
    else if 0 < f x data && !unsorted then none
    else (removeLoop f unsorted data rest).map (x :: ·)

/-- `_ContainerListSsll_remove`; without an object it removes the head. -/
def remove (c : Ssll α) (data : Option α) : Int × Ssll α :=
  match c.data with
  | [] => (-1, c)
  | x :: rest =>
    if data.all fun data => c.compare x data = 0 then (0, { c with data := rest, sync := c.sync + 1 })
    else
      match data.bind fun data => removeLoop c.compare c.unsorted data rest with
      | none => (-2, c)
      | some rest => (0, { c with data := x :: rest, sync := c.sync + 1 })

/-! ## sorted lists -/

/-- A list in ordinary use: it is a sorted one. -/
structure Kept (c : Ssll α) : Prop where
  total : TotalCompare c.compare
  sorts : c.unsorted = false
  sorted : c.data.Pairwise fun x y => c.compare x y ≤ 0

variable {f : α → α → Int} {c : Ssll α} {k : α} {xs : List α}

theorem insertSorted_perm (f : α → α → Int) (k : α) (xs : List α) : (insertSorted f k xs).Perm (k :: xs) := by
  induction xs with
  | nil => exact List.Perm.refl _
  | cons x rest ih =>
    rw [insertSorted]
    by_cases h : 0 < f x k
    · rw [if_pos h]
    · rw [if_neg h]
      exact (ih.cons x).trans (List.Perm.swap k x rest)

theorem insertSorted_sorted (hf : TotalCompare f) (hs : xs.Pairwise fun x y => f x y ≤ 0) :
    (insertSorted f k xs).Pairwise fun x y => f x y ≤ 0 := by
  induction xs with
  | nil => exact pairwise_singleton _ _
  | cons x rest ih =>
    obtain ⟨hx, hrest⟩ := pairwise_cons.mp hs
    rw [insertSorted]
    by_cases h : 0 < f x k
    · rw [if_pos h]
      have hkx : f k x < 0 := (hf.swap k x).mpr h
      refine pairwise_cons.mpr ⟨?_, hs⟩
      intro y hy
      rcases mem_cons.mp hy with rfl | hy'
      · exact le_of_lt hkx
      · exact le_of_lt (hf.lt_of_lt_of_le hkx (hx y hy'))
    · rw [if_neg h]
      refine pairwise_cons.mpr ⟨?_, ih hrest⟩
      intro y hy
      rcases mem_cons.mp ((insertSorted_perm f k rest).mem_iff.mp hy) with rfl | hy'
      · exact not_lt.mp h
      · exact hx y hy'

theorem removeLoop_spec (hf : TotalCompare f) (hs : xs.Pairwise fun x y => f x y ≤ 0)
    (hk : ∃ y ∈ xs, f y k = 0) : ∃ e rest ys, getLoop f false k xs = e :: rest ∧ f e k = 0 ∧
      removeLoop f false k xs = some ys ∧ (e :: ys).Perm xs ∧ ys.Sublist xs := by
  induction xs with
  | nil =>
    obtain ⟨y, hy, _⟩ := hk
    exact absurd hy not_mem_nil
  | cons x rest ih =>
    obtain ⟨hx, hrest⟩ := pairwise_cons.mp hs
    rw [getLoop, removeLoop]
    by_cases hz : f x k = 0
    · rw [if_pos hz, if_pos hz]
      exact ⟨x, rest, rest, rfl, hz, rfl, List.Perm.refl _, sublist_cons_self x rest⟩
    · obtain ⟨y, hy, hyk⟩ := hk
      have hyr : y ∈ rest := (mem_cons.mp hy).resolve_left fun h => hz (h ▸ hyk)
      have hle : f x k ≤ 0 := hf.trans x y k (hx y hyr) (le_of_eq hyk)
      have hgo : ¬ (0 < f x k && !false) = true := by
        rw [Bool.and_eq_true, decide_eq_true_eq]
        exact fun h => absurd h.1 (not_lt.mpr hle)
      obtain ⟨e, r, ys, hg, he, hr, hp, hsub⟩ := ih hrest ⟨y, hyr, hyk⟩
      rw [if_neg hz, if_neg hz, if_neg hgo, if_neg hgo, hr]
      exact ⟨e, r, x :: ys, hg, he, rfl, (List.Perm.swap x e ys).trans (hp.cons x), hsub.cons_cons x⟩

theorem find_remove (hc : c.Kept) (hk : ∃ y ∈ c.data, c.compare y k = 0) :
    ∃ e c', c.find k = some e ∧ c.remove (some k) = (0, c') ∧ c.compare e k = 0 ∧ (e :: c'.data).Perm c.data ∧ c'.Kept := by
  obtain ⟨e, rest, ys, hg, he, hr, hp, hsub⟩ := removeLoop_spec hc.total hc.sorted hk
  have hfind : c.find k = some e := by
    rw [find, get, hc.sorts]
    simp only [hg, Bool.not_true, Bool.false_and, Bool.false_eq_true, if_false]
  cases hd : c.data with
  | nil =>
    obtain ⟨y, hy, _⟩ := hk
    rw [hd] at hy
    exact absurd hy not_mem_nil
  | cons x xs =>
    rw [hd] at hg hr hp hsub
    have hsorted := hc.sorted
    rw [hd] at hsorted
    rw [getLoop] at hg
    rw [removeLoop] at hr
    by_cases hz : c.compare x k = 0
    · rw [if_pos hz] at hg hr
      obtain ⟨rfl, rfl⟩ := List.cons.inj hg
      refine ⟨x, { c with data := xs, sync := c.sync + 1 }, hfind, ?_, he, List.Perm.refl _, hc.total, hc.sorts, ?_⟩
      · simp only [remove, hd, Option.all_some, hz, decide_true, if_true]
      · exact (pairwise_cons.mp hsorted).2
    · rw [if_neg hz] at hg hr
      by_cases hpos : (0 < c.compare x k && !false) = true
      · rw [if_pos hpos] at hr
        exact absurd hr (by simp)
      · rw [if_neg hpos, Option.map_eq_some_iff] at hr
        obtain ⟨zs, hzs, rfl⟩ := hr
        refine ⟨e, { c with data := x :: zs, sync := c.sync + 1 }, hfind, ?_, he, hp, hc.total, hc.sorts, ?_⟩
        · simp only [remove, hd, Option.all_some, hz, decide_false, Bool.false_eq_true, if_false, Option.bind_some,
            hc.sorts, hzs]
        · exact hsorted.sublist hsub

theorem insert_kept (hc : c.Kept) (granted : Bool) : (c.insert k granted).2.Kept := by
  rw [insert]
  cases granted with
  | false => exact hc
  | true =>
    refine ⟨hc.total, hc.sorts, ?_⟩
    simp only [Bool.not_true, Bool.false_eq_true, if_false, hc.sorts]
    exact insertSorted_sorted hc.total hc.sorted

/-! ## the list as a set -/

/-- `ContainerListSsll_getSsll`, with the comparison that is set afterwards. -/
def getSsll (f : α → α → Int) : Ssll α := ⟨[], false, false, f, 0⟩

/-- One call. -/
def step (c : Ssll α) : Op α → Answer α × Ssll α
  | .insert x granted => (.status (c.insert x granted).1, (c.insert x granted).2)
  | .remove key => (.status (c.remove (some key)).1, (c.remove (some key)).2)
  | .find key => (.object (c.find key), c)
  | .findNext key => (.object (c.findNext key), c)
  | .size => (.count c.data.length, c)
  | .forEach => (.visited c.data, c)
  | .clear => (.visited c.data, { c with data := [], sync := c.sync + 1 })

/-- A sequence of calls. -/
def run (c : Ssll α) : List (Op α) → List (Answer α) × Ssll α
  | [] => ([], c)
  | op :: ops => ((c.step op).1 :: ((c.step op).2.run ops).1, ((c.step op).2.run ops).2)

structure Represents (f : α → α → Int) (c : Ssll α) (s : KeyedSet f) : Prop where
  kept : c.Kept
  compare : c.compare = f
  mem_iff : ∀ x, x ∈ c.data ↔ x ∈ s.carrier
  distinct : Distinct f c.data

/-- A new object has a key of its own. One that is looked up is there, unless there is no larger one. -/
def Fits (c : Ssll α) : Op α → Prop
  | .insert x _ => ∀ y ∈ c.data, c.compare y x ≠ 0
  | .find key => (∃ y ∈ c.data, c.compare y key = 0) ∨ ∀ y ∈ c.data, c.compare y key < 0
  | _ => True

variable {s s' : KeyedSet f} {op : Op α} {r : Answer α}

theorem Represents.total (h : Represents f c s) : TotalCompare f := h.compare ▸ h.kept.total

theorem Represents.strict (h : Represents f c s) : c.data.Pairwise fun x y => f x y < 0 :=
  SortedBy.strict (h.compare ▸ h.kept.sorted) h.distinct

theorem Represents.nodup (h : Represents f c s) : c.data.Nodup :=
  h.strict.imp fun {x y} hlt heq => by rw [heq, h.total.self] at hlt; exact hlt.false

theorem find_eq (hsorts : c.unsorted = false) (key : α) : c.find key = c.data.find? fun x => 0 ≤ c.compare x key := by
  unfold Ssll.find get
  dsimp only
  rw [hsorts]
  induction c.data with
  | nil => rfl
  | cons x rest ih =>
    rw [getLoop, Bool.not_false, Bool.and_true]
    by_cases hle : 0 ≤ c.compare x key
    · simp only [find?_cons, hle, decide_true]
      split_ifs with hz hpos
      · rfl
      · rfl
      · rw [decide_eq_true_eq] at hpos
        omega
    · simp only [find?_cons, hle, decide_false]
      rw [if_neg (by omega), if_neg (by rw [decide_eq_true_eq]; omega)]
      exact ih

theorem Represents.findNext_eq (h : Represents f c s) (key : α) :
    c.findNext (some key) = c.data.find? fun x => 0 < f x key := by
  have hs := h.strict
  unfold Ssll.findNext get
  dsimp only
  rw [h.compare, h.kept.sorts]
  generalize c.data = data at *
  induction data with
  | nil => rfl
  | cons x rest ih =>
    obtain ⟨hx, hrest⟩ := pairwise_cons.mp hs
    rw [getLoop]
    by_cases hz : f x key = 0
    · simp only [find?_cons, hz, if_true, lt_irrefl, decide_false]
      cases rest with
      | nil => rfl
      | cons y rest =>
        -- what follows the object with the key is larger
        have hlt := (h.total.swap key y).mp ((h.total.congr_left hz y).1.mp (hx y mem_cons_self))
        simp [hlt]
    · rw [if_neg hz, Bool.not_false, Bool.and_true]
      by_cases hpos : 0 < f x key
      · simp [hpos, hz]
      · rw [if_neg (by rwa [decide_eq_true_eq])]
        simp only [find?_cons, hpos, decide_false]
        exact ih hrest

/-- The first in the list is the least. -/
theorem Represents.least (h : Represents f c s) {p : α → Bool} {x : α} (hfound : c.data.find? p = some x) :
    x ∈ s.carrier ∧ p x = true ∧ ∀ y ∈ s.carrier, p y = true → f x y ≤ 0 := by
  obtain ⟨hp, lower, larger, hdata, hlower⟩ := find?_eq_some_iff_append.mp hfound
  refine ⟨(h.mem_iff x).mp (mem_of_find?_eq_some hfound), hp, fun y hy hpy => ?_⟩
  have hs := h.strict
  rw [← h.mem_iff, hdata, mem_append, mem_cons] at hy
  rw [hdata] at hs
  rcases hy with hy | rfl | hy
  · have := hlower y hy
    rw [hpy] at this
    cases this
  · exact le_of_eq (h.total.self y)
  · exact le_of_lt ((pairwise_cons.mp (pairwise_append.mp hs).2.1).1 y hy)

theorem Represents.none (h : Represents f c s) {p : α → Bool} (hfound : c.data.find? p = none) :
    ∀ y ∈ s.carrier, ¬ p y = true := fun y hy => find?_eq_none.mp hfound y ((h.mem_iff y).mpr hy)

theorem Represents.findNext (h : Represents f c s) (key : Option α) :
    Answers s (.findNext key) (.object (c.findNext key)) s := by
  cases key with
  | none =>
    have hhead : c.findNext .none = c.data.find? fun _ => true := by
      show c.data.head? = _
      cases c.data <;> rfl
    rw [hhead]
    cases hfound : c.data.find? fun _ => true with
    | none => exact .empty (Set.eq_empty_of_forall_notMem fun y hy => h.none hfound y hy rfl)
    | some x =>
      obtain ⟨hx, -, hleast⟩ := h.least hfound
      exact .first hx fun y hy => hleast y hy rfl
  | some key =>
    rw [h.findNext_eq]
    cases hfound : c.data.find? fun x => 0 < f x key with
    | none => exact .last fun y hy => not_lt.mp fun hpos => h.none hfound y hy (decide_eq_true hpos)
    | some x =>
      obtain ⟨hx, hpos, hleast⟩ := h.least hfound
      exact .next hx (of_decide_eq_true hpos) fun y hy hpos => hleast y hy (decide_eq_true hpos)

theorem Represents.find_iff (h : Represents f c s) (key : α) :
    (∃ s', Answers s (.find key) (.object (c.find key)) s') ↔ c.Fits (.find key) := by
  have hmem : c.Fits (.find key) ↔ (∃ y ∈ s.carrier, f y key = 0) ∨ ∀ y ∈ s.carrier, f y key < 0 := by
    unfold Fits
    simp only [h.mem_iff, h.compare]
  rw [hmem, find_eq h.kept.sorts, h.compare]
  cases hfound : c.data.find? fun x => 0 ≤ f x key with
  | none =>
    have hall : ∀ y ∈ s.carrier, f y key < 0 := fun y hy =>
      not_le.mp fun hle => h.none hfound y hy (decide_eq_true hle)
    exact iff_of_true ⟨s, .missing fun y hy => (hall y hy).ne⟩ (.inr hall)
  | some x =>
    obtain ⟨hx, hle, hleast⟩ := h.least hfound
    have hle := of_decide_eq_true hle
    constructor
    · rintro ⟨s', hans⟩
      cases hans with
      | found _ hz => exact .inl ⟨x, hx, hz⟩
    · rintro (⟨y, hy, hz⟩ | hsmaller)
      · have hxy := hleast y hy (decide_eq_true (le_of_eq hz.symm))
        exact ⟨s, .found hx (le_antisymm (h.total.trans x y key hxy (le_of_eq hz)) hle)⟩
      · exact absurd (hsmaller x hx) (not_lt.mpr hle)

theorem Represents.insert (h : Represents f c s) {x : α} (hfresh : ∀ y ∈ s.carrier, f y x ≠ 0) :
    ∃ s', Answers s (.insert x true) (.status (c.insert x true).1) s' ∧ Represents f (c.insert x true).2 s' := by
  have hdist : ∀ a ∈ Insert.insert x s.carrier, ∀ b ∈ Insert.insert x s.carrier, f a b = 0 → a = b := by
    rintro a (rfl | ha) b (rfl | hb) hab
    · rfl
    · exact absurd ((h.total.eq_comm a b).mp hab) (hfresh b hb)
    · exact absurd hab (hfresh a ha)
    · exact s.distinct a ha b hb hab
  have hperm : (c.insert x true).2.data.Perm (x :: c.data) := by
    unfold Ssll.insert
    simp only [Bool.not_true, Bool.false_eq_true, if_false, h.kept.sorts]
    exact insertSorted_perm ..
  refine ⟨⟨Insert.insert x s.carrier, hdist⟩, .inserted hfresh rfl, insert_kept h.kept true, h.compare, fun y => ?_, ?_⟩
  · rw [hperm.mem_iff, mem_cons, h.mem_iff y]
    rfl
  · refine Distinct.perm h.total (List.Pairwise.cons ?_ h.distinct) hperm
    exact fun y hy hxy => hfresh y ((h.mem_iff y).mp hy) ((h.total.eq_comm x y).mp hxy)

theorem removeLoop_none (u : Bool) (hk : ∀ y ∈ xs, f y k ≠ 0) : removeLoop f u k xs = none := by
  induction xs with
  | nil => rfl
  | cons x rest ih =>
    obtain ⟨hx, hrest⟩ := forall_mem_cons.mp hk
    rw [removeLoop, if_neg hx, ih hrest]
    exact ite_self none

theorem Represents.remove (h : Represents f c s) (key : α) :
    ∃ s', Answers s (.remove key) (.status (c.remove (some key)).1) s' ∧ Represents f (c.remove (some key)).2 s' := by
  by_cases hk : ∃ y ∈ c.data, c.compare y key = 0
  · obtain ⟨e, c', -, hrem, hz, hperm, hkept⟩ := find_remove h.kept hk
    have hcompare : c'.compare = c.compare := by
      rw [← show (c.remove (some key)).2 = c' from congrArg Prod.snd hrem]
      unfold Ssll.remove
      split
      · rfl
      · split
        · rfl
        · split <;> rfl
    rw [h.compare] at hz
    have hes : e ∈ s.carrier := (h.mem_iff e).mp (hperm.mem_iff.mp mem_cons_self)
    have hdist : Distinct f (e :: c'.data) := h.distinct.perm h.total hperm
    obtain ⟨he, hdist'⟩ := pairwise_cons.mp hdist
    rw [hrem]
    refine ⟨⟨{y ∈ s.carrier | f y key ≠ 0}, fun a ha b hb => s.distinct a ha.1 b hb.1⟩, .removed ⟨e, hes, hz⟩ rfl,
      hkept, hcompare.trans h.compare, fun y => ?_, hdist'⟩
    have hmem : y ∈ e :: c'.data ↔ y ∈ s.carrier := hperm.mem_iff.trans (h.mem_iff y)
    constructor
    · refine fun hy => ⟨hmem.mp (mem_cons_of_mem _ hy), fun hyk => he y hy ?_⟩
      exact (h.total.congr_left hz y).2.mpr ((h.total.eq_comm y key).mp hyk)
    · rintro ⟨hy, hne⟩
      exact (mem_cons.mp (hmem.mpr hy)).resolve_left fun heq => hne (heq ▸ hz)
  · have hno : ∀ y ∈ c.data, c.compare y key ≠ 0 := fun y hy hz => hk ⟨y, hy, hz⟩
    have hrem : (c.remove (some key)).1 ≠ 0 ∧ (c.remove (some key)).2 = c := by
      unfold Ssll.remove
      generalize hdata : c.data = data at *
      cases data with
      | nil => exact ⟨Int.neg_ne_zero.mpr one_ne_zero, rfl⟩
      | cons x rest =>
        obtain ⟨hx, hrest⟩ := forall_mem_cons.mp hno
        simp only [Option.all_some, hx, decide_false, Bool.false_eq_true, if_false, Option.bind_some,
          removeLoop_none _ hrest]
        exact ⟨Int.neg_ne_zero.mpr two_ne_zero, trivial⟩
    rw [hrem.2]
    exact ⟨s, .absent (fun y hy => h.compare ▸ hno y ((h.mem_iff y).mpr hy)) hrem.1, h⟩

theorem Represents.ncard (h : Represents f c s) : s.carrier.ncard = c.data.length := by
  classical
  have hs : s.carrier = (c.data.toFinset : Set α) := by
    ext x
    rw [coe_toFinset]
    exact (h.mem_iff x).symm
  rw [hs, Set.ncard_coe_finset, toFinset_card_of_nodup h.nodup]

theorem answers_find {key : α} {r : Answer α} (h : Answers s (.find key) r s') : s' = s := by
  cases h <;> rfl

theorem Represents.step (h : Represents f c s) (hfits : c.Fits op) (hmemory : ∀ x g, op = .insert x g → g = true) :
    ∃ s', Answers s op (c.step op).1 s' ∧ Represents f (c.step op).2 s' := by
  cases op with
  | insert x g =>
    obtain rfl := hmemory x g rfl
    exact h.insert fun y hy => h.compare ▸ hfits y ((h.mem_iff y).mpr hy)
  | remove key => exact h.remove key
  | find key =>
    obtain ⟨s', hans⟩ := (h.find_iff key).mpr hfits
    exact ⟨s, answers_find hans ▸ hans, h⟩
  | findNext key => exact ⟨s, h.findNext key, h⟩
  | size =>
    refine ⟨s, ?_, h⟩
    show Answers s .size (.count c.data.length) s
    rw [← h.ncard]
    exact .size
  | forEach => exact ⟨s, .forEach h.mem_iff h.strict, h⟩
  | clear =>
    refine ⟨KeyedSet.empty f, .clear h.mem_iff h.nodup rfl, ⟨h.kept.total, h.kept.sorts, List.Pairwise.nil⟩, h.compare,
      fun x => iff_of_false not_mem_nil (Set.notMem_empty x), List.Pairwise.nil⟩

theorem Represents.fits (h : Represents f c s) (hmemory : ∀ x g, op = .insert x g → g = true)
    (hans : Answers s op (c.step op).1 s') : c.Fits op := by
  cases op with
  | insert x g =>
    obtain rfl := hmemory x g rfl
    intro y hy
    cases hans with
    | inserted hfresh _ => exact h.compare ▸ hfresh y ((h.mem_iff y).mp hy)
    | duplicate _ hfails => exact absurd rfl hfails
  | find key => exact (h.find_iff key).mp ⟨s', hans⟩
  | _ => trivial

/-- Every call of the sequence, made of the list as it is then, fits. -/
def FitsAll : Ssll α → List (Op α) → Prop
  | _, [] => True
  | c, op :: ops => c.Fits op ∧ FitsAll (c.step op).2 ops

theorem Represents.conforms_iff (h : Represents f c s) {ops : List (Op α)} (hmemory : ∀ x g, .insert x g ∈ ops → g = true) :
    (∃ s', AnswersAll s ops (c.run ops).1 s' ∧ Represents f (c.run ops).2 s') ↔ FitsAll c ops := by
  induction ops generalizing c s with
  | nil => exact iff_of_true ⟨s, .nil, h⟩ trivial
  | cons op ops ih =>
    have hop : ∀ x g, op = .insert x g → g = true := fun x g heq => hmemory x g (heq ▸ mem_cons_self)
    constructor
    · rintro ⟨s'', hall, hrep⟩
      cases hall with
      | cons hhead htail =>
        have hfits := h.fits hop hhead
        obtain ⟨s', hans, hrep'⟩ := h.step hfits hop
        obtain rfl := hans.deterministic hhead
        exact ⟨hfits, (ih hrep' fun x g hmem => hmemory x g (mem_cons_of_mem _ hmem)).mp ⟨s'', htail, hrep⟩⟩
    · rintro ⟨hfits, hall⟩
      obtain ⟨s', hans, hrep⟩ := h.step hfits hop
      obtain ⟨s'', htail, hrep'⟩ := (ih hrep fun x g hmem => hmemory x g (mem_cons_of_mem _ hmem)).mpr hall
      exact ⟨s'', .cons hans htail, hrep'⟩

/-- A sorted list answers any sequence of calls as an ordered set does if and only if no key is inserted twice and
`find` is not asked for a key that is missing in front of a larger one. -/
theorem ssll_conforms_iff (hf : TotalCompare f) {ops : List (Op α)} (hmemory : ∀ x g, .insert x g ∈ ops → g = true) :
    (∃ s, AnswersAll (KeyedSet.empty f) ops ((getSsll f).run ops).1 s ∧ Represents f ((getSsll f).run ops).2 s) ↔
      FitsAll (getSsll f) ops := by
  have hnew : Represents f (getSsll f) (KeyedSet.empty f) :=
    ⟨⟨hf, rfl, List.Pairwise.nil⟩, rfl, fun x => iff_of_false not_mem_nil (Set.notMem_empty x), List.Pairwise.nil⟩
  exact hnew.conforms_iff hmemory

theorem ssll_conforms_iff_ints :
    (∃ s, AnswersAll (KeyedSet.empty intCompare) [.insert 5 true, .find 3]
        ((getSsll intCompare).run [.insert 5 true, .find 3]).1 s ∧
      Represents intCompare ((getSsll intCompare).run [.insert 5 true, .find 3]).2 s) ↔
    FitsAll (getSsll intCompare) [.insert 5 true, .find 3] :=
  ssll_conforms_iff intCompare_total (by simp)

end Ssll

end Priot.Containers
