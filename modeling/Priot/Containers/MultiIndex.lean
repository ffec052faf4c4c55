/-
# Several indexes over the same objects

When one sub-container refuses an object, those that already took it get it removed again, by its key: the object that
goes is the one that a lookup of the key finds.
-/
import Priot.Containers.Ssll

namespace Priot.Containers

open List

variable {α : Type}

/-! ## the chain -/

inductive Body (α : Type)
  | binaryArray (c : BinaryArray α)
  | ssll (c : Ssll α)

namespace Body

/-- The objects a container holds. -/
def data : Body α → List α
  | .binaryArray c => c.table.data
  | .ssll c => c.data

/-- `x->insert`. -/
def insert (k : α) (granted : Bool) : Body α → Option (Int × Body α)
  | .binaryArray c => (c.insert k granted).map fun r => (r.1, .binaryArray r.2)
  | .ssll c => some ((c.insert k granted).1, .ssll (c.insert k granted).2)

/-- `x->remove`. -/
def remove (k : α) : Body α → Option (Int × Body α)
  | .binaryArray c => (c.remove k).map fun r => (r.1, .binaryArray r.2)
  | .ssll c => some ((c.remove (some k)).1, .ssll (c.remove (some k)).2)

/-- `x->compare`. -/
def compare : Body α → α → α → Int
  | .binaryArray c => c.compare
  | .ssll c => c.compare

/-- `x->find`, with the object alone. -/
def find (k : α) : Body α → Option (Option α)
  | .binaryArray c => (c.find k).map Prod.fst
  | .ssll c => some (c.find k)

end Body

/-- A sub-container. `granted` is what the allocator answers when an insert into it asks for memory. -/
structure SubContainer (α : Type) where
  body : Body α
  insertFilter : Option (Body α → α → Int)
  granted : Bool

/-- The filter of the sub-container keeps the object out. -/
def SubContainer.filtered (x : SubContainer α) (k : α) : Bool :=
  match x.insertFilter with
  | none => false
  | some insertFilter => insertFilter x.body k = 1

/-- `CONTAINER_INSERT_HELPER`, from `x` on. -/
def insertHelper (k : α) : List (SubContainer α) → Option (Int × List (SubContainer α))
  | [] => some (0, [])
  | x :: next =>
    if x.filtered k then do
      let (rc, next) ← insertHelper k next
      some (rc, x :: next)
    else do
      let (rc, body) ← x.body.insert k x.granted
      if rc ≠ 0 then some (rc, { x with body := body } :: next)
      else do
        let (rc, next) ← insertHelper k next
        if rc ≠ 0 then
          let (_, body) ← body.remove k
          some (rc, { x with body := body } :: next)
        else some (rc, { x with body := body } :: next)

/-- `CONTAINER_INSERT`: whichever sub-container it is called with, it starts at the first. -/
def containerInsert (chain : List (SubContainer α)) (k : α) : Option (Int × List (SubContainer α)) :=
  insertHelper k chain

/-! ## one sub-container -/

/-- In ordinary use, with room for one more position of an `int`. -/
def Body.Kept : Body α → Prop
  | .binaryArray c => c.Kept ∧ c.table.count < sortable
  | .ssll c => c.Kept

/-- Why an insert fails: the key is there and has to be the only one, or there is no memory. -/
def Body.Refuses (k : α) (granted : Bool) : Body α → Prop
  | .binaryArray c =>
    (c.flags.allowDuplicates = false ∧ ∃ y ∈ c.table.data, c.compare y k = 0) ∨
      (c.table.maxSize ≤ c.table.count ∧ granted = false)
  | .ssll _ => granted = false

/-- With the object put in, a lookup of its key finds the object itself. -/
def Body.FindsItself (k : α) (granted : Bool) (x : Body α) : Prop :=
  ∀ x', x.insert k granted = some (0, x') → x'.find k = some (some k)

/-- An insert that fails changes nothing, and one that succeeds can be taken back as far as the key goes. -/
inductive Body.Tried (k : α) (granted : Bool) (x : Body α) : Int → Body α → Prop
  | refused {rc : Int} {x' : Body α} (fails : rc ≠ 0) (refuses : x.Refuses k granted) (perm : x'.data.Perm x.data) :
      Tried k granted x rc x'
  | taken {x' x'' : Body α} {e : α} {rc : Int} (takes : ¬ x.Refuses k granted) (perm : x'.data.Perm (k :: x.data))
      (found : x'.find k = some (some e)) (key : x.compare e k = 0) (undone : x'.remove k = some (rc, x''))
      (undo : (e :: x''.data).Perm (k :: x.data)) : Tried k granted x 0 x'

theorem Body.insert_spec {x : Body α} (hx : x.Kept) (k : α) (granted : Bool) :
    ∃ rc x', x.insert k granted = some (rc, x') ∧ x.Tried k granted rc x' := by
  cases x with
  | ssll c =>
    cases granted with
    | false => exact ⟨-1, .ssll c, rfl, .refused (by decide) rfl (List.Perm.refl _)⟩
    | true =>
      have hkept : (c.insert k true).2.Kept := Ssll.insert_kept hx true
      have hperm : (c.insert k true).2.data.Perm (k :: c.data) := by
        have hsorts : c.unsorted = false := Ssll.Kept.sorts hx
        simp only [Ssll.insert, Bool.not_true, Bool.false_eq_true, if_false, hsorts]
        exact Ssll.insertSorted_perm c.compare k c.data
      have hmem : k ∈ (c.insert k true).2.data := hperm.mem_iff.mpr mem_cons_self
      obtain ⟨e, c'', hfind, hrem, hkey, hundo, _⟩ := Ssll.find_remove hkept ⟨k, hmem, hkept.total.self k⟩
      have hundo' : (e :: (Body.ssll c'').data).Perm (k :: (Body.ssll c).data) := hundo.trans hperm
      have hfound : (Body.ssll (c.insert k true).2).find k = some (some e) := congrArg some hfind
      have hundone : (Body.ssll (c.insert k true).2).remove k = some (0, .ssll c'') :=
        congrArg (fun r : Int × Ssll α => some (r.1, Body.ssll r.2)) hrem
      exact ⟨0, .ssll (c.insert k true).2, rfl,
        .taken (fun h : true = false => absurd h (by decide)) hperm hfound hkey hundone hundo'⟩
  | binaryArray c =>
    obtain ⟨hc, hn⟩ := hx
    obtain ⟨rc, c', e, hins⟩ := BinaryArray.insert_spec hc (le_of_lt hn) k granted
    refine ⟨rc, .binaryArray c', by rw [Body.insert, e]; rfl, ?_⟩
    cases hins with
    | duplicate hunique hex htidy => exact .refused (by decide) (.inl ⟨hunique, hex⟩) htidy.perm
    | refused hfull hno htidy => exact .refused (by decide) (.inr ⟨hfull, hno⟩) htidy.perm
    | added hfresh hmemory hperm hkept hcmp hflags =>
      have hmem : k ∈ c'.table.data := hperm.mem_iff.mpr mem_cons_self
      have hn' : c'.table.count ≤ sortable := by
        rw [Table.count, hperm.length_eq, length_cons]
        exact hn
      obtain ⟨e, c₁, c'', hfind, hrem, hkey, hundo, _⟩ := BinaryArray.find_remove hkept hn' ⟨k, hmem, hkept.total.self k⟩
      have htakes : ¬ (Body.binaryArray c).Refuses k granted := by
        rintro (⟨hunique, y, hy, hyk⟩ | ⟨hfull, hno⟩)
        · exact hfresh hunique y hy hyk
        · rw [hmemory hfull] at hno
          exact absurd hno.symm Bool.false_ne_true
      have hundo' : (e :: (Body.binaryArray c'').data).Perm (k :: (Body.binaryArray c).data) := hundo.trans hperm
      have hfound : (Body.binaryArray c').find k = some (some e) := congrArg (Option.map Prod.fst) hfind
      have hundone : (Body.binaryArray c').remove k = some (0, .binaryArray c'') :=
        congrArg (Option.map fun r : Int × BinaryArray α => (r.1, Body.binaryArray r.2)) hrem
      exact .taken htakes hperm hfound (show c.compare e k = 0 from hcmp ▸ hkey) hundone hundo'

/-- The undo restores the contents if and only if it takes out the object itself. -/
theorem undo_perm_iff {e k : α} {xs ys : List α} (h : (e :: ys).Perm (k :: xs)) : ys.Perm xs ↔ e = k := by
  constructor
  · intro hp
    have hcons : (e :: xs).Perm (k :: xs) := (hp.symm.cons e).trans h
    have hone : [e].Perm [k] := (perm_append_right_iff xs).mp hcons
    exact singleton_perm_singleton.mp hone
  · rintro rfl
    exact h.cons_inv

/-! ## the whole chain -/

/-- The sub-container lets the object in and then refuses it. -/
def SubContainer.Refuses (k : α) (x : SubContainer α) : Prop :=
  x.filtered k = false ∧ x.body.Refuses k x.granted

/-- What becomes of each sub-container. -/
inductive Outcome (k : α) : List (SubContainer α) → Int → List (SubContainer α) → Prop
  | nil : Outcome k [] 0 []
  | skipped {x : SubContainer α} {next next' : List (SubContainer α)} {rc : Int} (skip : x.filtered k = true)
      (rest : Outcome k next rc next') : Outcome k (x :: next) rc (x :: next')
  | refused {x x' : SubContainer α} {next : List (SubContainer α)} {rc : Int} (refuses : x.Refuses k) (fails : rc ≠ 0)
      (perm : x'.body.data.Perm x.body.data) : Outcome k (x :: next) rc (x' :: next)
  | taken {x x' : SubContainer α} {next next' : List (SubContainer α)} (enter : x.filtered k = false)
      (takes : ¬ x.body.Refuses k x.granted) (perm : x'.body.data.Perm (k :: x.body.data))
      (rest : Outcome k next 0 next') : Outcome k (x :: next) 0 (x' :: next')
  | undone {x x' : SubContainer α} {next next' : List (SubContainer α)} {rc : Int} {e : α}
      (enter : x.filtered k = false) (takes : ¬ x.body.Refuses k x.granted)
      (itself : x.body.FindsItself k x.granted ↔ e = k) (perm : (e :: x'.body.data).Perm (k :: x.body.data))
      (fails : rc ≠ 0) (rest : Outcome k next rc next') : Outcome k (x :: next) rc (x' :: next')

theorem insertHelper_spec (k : α) : ∀ chain : List (SubContainer α), (∀ x ∈ chain, x.body.Kept) →
    ∃ rc chain', insertHelper k chain = some (rc, chain') ∧ Outcome k chain rc chain' := by
  intro chain
  induction chain with
  | nil => exact fun _ => ⟨0, [], rfl, .nil⟩
  | cons x next ih =>
    intro hkept
    obtain ⟨rc, next', e, hout⟩ := ih fun y hy => hkept y (mem_cons_of_mem x hy)
    rw [insertHelper]
    by_cases hf : x.filtered k = true
    · rw [if_pos hf, e]
      exact ⟨rc, x :: next', rfl, .skipped hf hout⟩
    · have hf' : x.filtered k = false := Bool.eq_false_iff.mpr hf
      obtain ⟨rc₁, x', e₁, htried⟩ := Body.insert_spec (hkept x mem_cons_self) k x.granted
      rw [if_neg hf, e₁]
      simp only [Option.bind_eq_bind, Option.bind_some, e]
      cases htried with
      | refused hne href hperm =>
        rw [if_pos hne]
        exact ⟨rc₁, _, rfl, .refused ⟨hf', href⟩ hne hperm⟩
      | taken htakes hperm hfound _ hundone hundo =>
        rw [if_neg (not_not.mpr rfl)]
        by_cases hrc : rc ≠ 0
        · rw [if_pos hrc, hundone]
          refine ⟨rc, _, rfl, .undone hf' htakes ?_ hundo hrc hout⟩
          constructor
          · intro hself
            have hk := hself x' e₁
            rw [hfound, Option.some.injEq, Option.some.injEq] at hk
            exact hk
          · rintro rfl y hy
            rw [e₁, Option.some.injEq, Prod.mk.injEq] at hy
            exact hy.2 ▸ hfound
        · rw [if_neg hrc]
          have hrc' : rc = 0 := not_not.mp hrc
          subst hrc'
          exact ⟨0, _, rfl, .taken hf' htakes hperm hout⟩

variable {k : α} {x : SubContainer α} {chain chain' next : List (SubContainer α)} {rc : Int}

theorem Outcome.eq_zero_iff (h : Outcome k chain rc chain') : rc = 0 ↔ ∀ x ∈ chain, ¬ x.Refuses k := by
  induction h with
  | nil => exact iff_of_true rfl fun _ hx => absurd hx not_mem_nil
  | skipped hskip _ ih =>
    rw [ih, forall_mem_cons]
    refine (and_iff_right fun href => ?_).symm
    exact absurd (hskip.symm.trans href.1) (by decide)
  | refused href hne _ => exact iff_of_false hne fun hall => hall _ mem_cons_self href
  | taken _ htakes _ _ ih =>
    rw [ih, forall_mem_cons]
    exact (and_iff_right fun href => htakes href.2).symm
  | undone _ htakes _ _ _ _ ih =>
    rw [ih, forall_mem_cons]
    exact (and_iff_right fun href => htakes href.2).symm

theorem Outcome.exists_refusal (h : Outcome k chain rc chain') (hrc : rc ≠ 0) : ∃ x ∈ chain, x.Refuses k := by
  by_contra hno
  exact hrc (h.eq_zero_iff.mpr fun x hx href => hno ⟨x, hx, href⟩)

/-- Every sub-container holds the objects it held. -/
def Restored (chain chain' : List (SubContainer α)) : Prop :=
  List.Forall₂ (fun x x' => x'.body.data.Perm x.body.data) chain chain'

/-- The object is in those sub-containers that let it in, and in no others. -/
def HeldBy (k : α) (chain chain' : List (SubContainer α)) : Prop :=
  List.Forall₂ (fun x x' => k ∈ x'.body.data ↔ x.filtered k = false) chain chain'

/-- The sub-containers that took the object before one refused it find the object itself under its key. -/
def FoundBefore (k : α) (chain : List (SubContainer α)) : Prop :=
  ∀ before x after, chain = before ++ x :: after → x.Refuses k → (∀ y ∈ before, ¬ y.Refuses k) →
    ∀ y ∈ before, y.filtered k = false → y.body.FindsItself k y.granted

/-- Where no sub-container refuses the object, those that do not let it in do not hold it. -/
def KeptOut (k : α) (chain : List (SubContainer α)) : Prop :=
  (∀ x ∈ chain, ¬ x.Refuses k) → ∀ x ∈ chain, x.filtered k = true → k ∉ x.body.data

theorem exists_first_refusal (h : ∃ x ∈ chain, x.Refuses k) :
    ∃ before x after, chain = before ++ x :: after ∧ x.Refuses k ∧ ∀ y ∈ before, ¬ y.Refuses k := by
  classical
  obtain ⟨x, hx, href⟩ := h
  cases hfind : chain.find? fun y => y.Refuses k with
  | none => exact absurd href (by simpa using find?_eq_none.mp hfind x hx)
  | some y =>
    obtain ⟨hy, before, after, he, hbefore⟩ := find?_eq_some_iff_append.mp hfind
    exact ⟨before, y, after, he, by simpa using hy, fun z hz => by simpa using hbefore z hz⟩

theorem foundBefore_cons (hx : ¬ x.Refuses k) (hr : ∃ y ∈ next, y.Refuses k) : FoundBefore k (x :: next) ↔
      (x.filtered k = false → x.body.FindsItself k x.granted) ∧ FoundBefore k next := by
  constructor
  · intro h
    constructor
    · obtain ⟨before, y, after, rfl, href, hbefore⟩ := exists_first_refusal hr
      exact h (x :: before) y after rfl href (forall_mem_cons.mpr ⟨hx, hbefore⟩) x mem_cons_self
    · rintro before y after rfl href hbefore z hz
      exact h (x :: before) y after rfl href (forall_mem_cons.mpr ⟨hx, hbefore⟩) z (mem_cons_of_mem x hz)
  · rintro ⟨hself, hnext⟩ before y after he href hbefore z hz
    cases before with
    | nil => exact absurd hz not_mem_nil
    | cons w before =>
      obtain ⟨rfl, rfl⟩ := List.cons.inj he
      rcases mem_cons.mp hz with rfl | hz'
      · exact hself
      · exact hnext before y after rfl href (forall_mem_cons.mp hbefore).2 z hz'

theorem restored_refl (chain : List (SubContainer α)) : Restored chain chain :=
  forall₂_same.mpr fun x _ => List.Perm.refl x.body.data

theorem Outcome.restored_iff (h : Outcome k chain rc chain') (hrc : rc ≠ 0) :
    Restored chain chain' ↔ FoundBefore k chain := by
  induction h with
  | nil => exact absurd rfl hrc
  | taken => exact absurd rfl hrc
  | refused href _ hperm =>
    refine iff_of_true (.cons hperm (restored_refl _)) ?_
    intro before y after he _ hbefore z hz
    cases before with
    | nil => exact absurd hz not_mem_nil
    | cons w before =>
      obtain ⟨rfl, -⟩ := List.cons.inj he
      exact absurd href (hbefore _ mem_cons_self)
  | skipped hskip hrest ih =>
    have hex := hrest.exists_refusal hrc
    rw [foundBefore_cons (fun href => absurd (hskip.symm.trans href.1) (by decide)) hex, ← ih hrc]
    constructor
    · intro h
      exact ⟨fun hf => absurd (hskip.symm.trans hf) (by decide), (forall₂_cons.mp h).2⟩
    · exact fun h => .cons (List.Perm.refl _) h.2
  | undone henter htakes hself hperm _ hrest ih =>
    have hex := hrest.exists_refusal hrc
    rw [foundBefore_cons (fun href => htakes href.2) hex, ← ih hrc, Restored, forall₂_cons, undo_perm_iff hperm,
      hself]
    exact and_congr_left fun _ => ⟨fun he _ => he, fun he => he henter⟩

theorem Outcome.heldBy_iff (h : Outcome k chain rc chain') (hrc : rc = 0) :
    HeldBy k chain chain' ↔ ∀ x ∈ chain, x.filtered k = true → k ∉ x.body.data := by
  induction h with
  | nil => exact iff_of_true .nil fun _ hx => absurd hx not_mem_nil
  | refused _ hne _ => exact absurd hrc hne
  | undone _ _ _ _ hne _ => exact absurd hrc hne
  | skipped hskip _ ih =>
    rw [HeldBy, forall₂_cons, forall_mem_cons]
    refine and_congr ?_ (ih hrc)
    rw [hskip]
    simp
  | taken henter _ hperm _ ih =>
    rw [HeldBy, forall₂_cons, forall_mem_cons]
    refine and_congr ?_ (ih hrc)
    rw [henter]
    simp [hperm.mem_iff]

/-! ## when an insert is atomic -/

/-- The insert returns; if it fails, every sub-container holds what it held, and if not, those hold the object that
let it in. -/
def Atomic (chain : List (SubContainer α)) (k : α) : Prop :=
  ∃ rc chain', containerInsert chain k = some (rc, chain') ∧ (rc ≠ 0 → Restored chain chain') ∧
    (rc = 0 → HeldBy k chain chain')

theorem containerInsert_atomic_iff {chain : List (SubContainer α)} (hkept : ∀ x ∈ chain, x.body.Kept) (k : α) :
    Atomic chain k ↔ FoundBefore k chain ∧ KeptOut k chain := by
  obtain ⟨rc, chain', e, hout⟩ := insertHelper_spec k chain hkept
  have hiff : Atomic chain k ↔ (rc ≠ 0 → Restored chain chain') ∧ (rc = 0 → HeldBy k chain chain') := by
    constructor
    · rintro ⟨rc₁, chain₁, e₁, h⟩
      rw [containerInsert, e, Option.some.injEq, Prod.mk.injEq] at e₁
      obtain ⟨rfl, rfl⟩ := e₁
      exact h
    · exact fun h => ⟨rc, chain', e, h⟩
  rw [hiff]
  by_cases hrc : rc = 0
  · have hnone := hout.eq_zero_iff.mp hrc
    have hfound : FoundBefore k chain := by
      intro before x after he href
      exact absurd href (hnone x (he ▸ mem_append_right before mem_cons_self))
    rw [hout.heldBy_iff hrc]
    constructor
    · exact fun h => ⟨hfound, fun _ => h.2 hrc⟩
    · exact fun h => ⟨fun hne => absurd hrc hne, fun _ => h.2 hnone⟩
  · have hout' : KeptOut k chain := fun hnone => absurd (hout.eq_zero_iff.mpr hnone) hrc
    rw [hout.restored_iff hrc]
    constructor
    · exact fun h => ⟨h.1 hrc, hout'⟩
    · exact fun h => ⟨fun _ => h.1, fun h0 => absurd h0 hrc⟩

/-! ## another object with the key -/

/-- Objects with a key and a name of their own. -/
def compareKeys (a b : Nat × Nat) : Int := Lib.intCompare a.1 b.1

theorem compareKeys_total : Lib.TotalCompare compareKeys :=
  Lib.intCompare_total.comap fun a : Nat × Nat => (a.1 : Int)

/-- A sorted list and a binary array without duplicates, both with the object `(1, 0)`. -/
def twoIndexes : List (SubContainer (Nat × Nat)) :=
  [⟨.ssll ⟨[(1, 0)], false, false, compareKeys, 0⟩, none, true⟩,
    ⟨.binaryArray ⟨⟨10, false, [(1, 0)]⟩, compareKeys, {}, 0⟩, none, true⟩]

theorem containerInsert_atomic_iff_two :
    Atomic twoIndexes (2, 1) ↔ FoundBefore (2, 1) twoIndexes ∧ KeptOut (2, 1) twoIndexes := by
  have hkept : ∀ x ∈ twoIndexes, x.body.Kept := by
    intro x hx
    rcases mem_cons.mp hx with rfl | hx'
    · exact ⟨compareKeys_total, rfl, pairwise_singleton _ _⟩
    · rw [mem_singleton.mp hx']
      exact ⟨⟨compareKeys_total, rfl, fun _ => pairwise_singleton _ _, by decide⟩, by decide⟩
  exact containerInsert_atomic_iff hkept (2, 1)

/-- The array refuses `(1, 1)`, and the list loses `(1, 0)` for it. -/
theorem containerInsert_not_atomic : ¬ Atomic twoIndexes (1, 1) := by
  rintro ⟨rc, chain', e, hrestored, _⟩
  have hrun : ∃ x y, containerInsert twoIndexes (1, 1) = some (-1, [x, y]) ∧ x.body.data = [(1, 1)] :=
    ⟨_, _, rfl, rfl⟩
  obtain ⟨x, y, hrun, hdata⟩ := hrun
  rw [hrun, Option.some.injEq, Prod.mk.injEq] at e
  obtain ⟨rfl, rfl⟩ := e
  have hperm := (forall₂_cons.mp (hrestored (by decide))).1
  rw [hdata] at hperm
  exact absurd (singleton_perm_singleton.mp hperm) (by decide)

end Priot.Containers
