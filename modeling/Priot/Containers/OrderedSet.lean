/-
# A binary array is an ordered set

Every call on a binary array with the default flags is answered as a set of objects with different keys answers it,
except that `remove` on an empty container answers `0`.
-/
import Mathlib.Data.Set.Card
import Priot.Containers.Operations

namespace Priot.Containers

open Lib List

variable {α : Type} {f : α → α → Int}

/-! ## the set -/

/-- A set of objects with different keys. -/
@[ext]
structure KeyedSet (f : α → α → Int) where
  carrier : Set α
  distinct : ∀ x ∈ carrier, ∀ y ∈ carrier, f x y = 0 → x = y

/-- `granted` is what `realloc` answers if the call asks for memory. -/
inductive Op (α : Type)
  | insert (x : α) (granted : Bool)
  | remove (key : α)
  | find (key : α)
  | findNext (key : Option α)
  | size
  | forEach
  | clear

inductive Answer (α : Type)
  | status (rc : Int)
  | object (x : Option α)
  | count (n : Nat)
  | visited (xs : List α)

/-- How the set answers, and what it is then. -/
inductive Answers (s : KeyedSet f) : Op α → Answer α → KeyedSet f → Prop
  | inserted {x : α} {g : Bool} {s' : KeyedSet f} (fresh : ∀ y ∈ s.carrier, f y x ≠ 0)
      (carrier : s'.carrier = Insert.insert x s.carrier) : Answers s (.insert x g) (.status 0) s'
  | duplicate {x : α} {g : Bool} {rc : Int} (equal : ∃ y ∈ s.carrier, f y x = 0) (fails : rc ≠ 0) :
      Answers s (.insert x g) (.status rc) s
  | removed {key : α} {s' : KeyedSet f} (equal : ∃ y ∈ s.carrier, f y key = 0)
      (carrier : s'.carrier = {y ∈ s.carrier | f y key ≠ 0}) : Answers s (.remove key) (.status 0) s'
  | absent {key : α} {rc : Int} (absent : ∀ y ∈ s.carrier, f y key ≠ 0) (fails : rc ≠ 0) :
      Answers s (.remove key) (.status rc) s
  | found {key x : α} (mem : x ∈ s.carrier) (equal : f x key = 0) : Answers s (.find key) (.object (some x)) s
  | missing {key : α} (absent : ∀ y ∈ s.carrier, f y key ≠ 0) : Answers s (.find key) (.object none) s
  | next {key x : α} (mem : x ∈ s.carrier) (larger : 0 < f x key)
      (least : ∀ y ∈ s.carrier, 0 < f y key → f x y ≤ 0) : Answers s (.findNext (some key)) (.object (some x)) s
  | last {key : α} (absent : ∀ y ∈ s.carrier, f y key ≤ 0) : Answers s (.findNext (some key)) (.object none) s
  | first {x : α} (mem : x ∈ s.carrier) (least : ∀ y ∈ s.carrier, f x y ≤ 0) :
      Answers s (.findNext none) (.object (some x)) s
  | empty (nil : s.carrier = ∅) : Answers s (.findNext none) (.object none) s
  | size : Answers s .size (.count s.carrier.ncard) s
  | forEach {xs : List α} (all : ∀ x, x ∈ xs ↔ x ∈ s.carrier) (increasing : xs.Pairwise fun x y => f x y < 0) :
      Answers s .forEach (.visited xs) s
  | clear {xs : List α} {s' : KeyedSet f} (all : ∀ x, x ∈ xs ↔ x ∈ s.carrier) (once : xs.Nodup)
      (carrier : s'.carrier = ∅) : Answers s .clear (.visited xs) s'

/-- The answers to a sequence of calls. -/
inductive AnswersAll : KeyedSet f → List (Op α) → List (Answer α) → KeyedSet f → Prop
  | nil {s : KeyedSet f} : AnswersAll s [] [] s
  | cons {s s' s'' : KeyedSet f} {op : Op α} {r : Answer α} {ops : List (Op α)} {rs : List (Answer α)}
      (head : Answers s op r s') (tail : AnswersAll s' ops rs s'') : AnswersAll s (op :: ops) (r :: rs) s''

def KeyedSet.empty (f : α → α → Int) : KeyedSet f :=
  ⟨∅, fun _ h => absurd h (Set.notMem_empty _)⟩

theorem Answers.deterministic {s s₁ s₂ : KeyedSet f} {op : Op α} {r : Answer α} (h₁ : Answers s op r s₁)
    (h₂ : Answers s op r s₂) : s₁ = s₂ := by
  cases h₁ with
  | inserted hfresh hc =>
    cases h₂ with
    | inserted _ hc' => exact KeyedSet.ext (hc.trans hc'.symm)
    | duplicate _ hne => exact absurd rfl hne
  | removed hex hc =>
    cases h₂ with
    | removed _ hc' => exact KeyedSet.ext (hc.trans hc'.symm)
    | absent _ hne => exact absurd rfl hne
  | duplicate _ hne =>
    cases h₂ with
    | inserted => exact absurd rfl hne
    | duplicate => rfl
  | absent _ hne =>
    cases h₂ with
    | removed => exact absurd rfl hne
    | absent => rfl
  | clear _ _ hc =>
    cases h₂ with
    | clear _ _ hc' => exact KeyedSet.ext (hc.trans hc'.symm)
  | found | missing | next | last | first | empty | size | forEach => cases h₂; rfl

/-! ## the array stands for a set -/

namespace BinaryArray

/-- One call. -/
def step (c : BinaryArray α) : Op α → Option (Answer α × BinaryArray α)
  | .insert x granted => (c.insert x granted).map fun r => (.status r.1, r.2)
  | .remove key => (c.remove key).map fun r => (.status r.1, r.2)
  | .find key => (c.find key).map fun r => (.object r.1, r.2)
  | .findNext key => (c.findNext key).map fun r => (.object r.1, r.2)
  | .size => some (.count c.size, c)
  | .forEach => c.forEach.map fun r => (.visited r.1, r.2)
  | .clear => some (.visited c.clear.1, c.clear.2)

/-- A sequence of calls. -/
def run (c : BinaryArray α) : List (Op α) → Option (List (Answer α) × BinaryArray α)
  | [] => some ([], c)
  | op :: ops => do
    let (r, c) ← c.step op
    let (rs, c) ← run c ops
    some (r :: rs, c)

structure Represents (f : α → α → Int) (c : BinaryArray α) (s : KeyedSet f) : Prop where
  kept : c.Kept
  compare : c.compare = f
  unique : c.flags.allowDuplicates = false
  mem_iff : ∀ x, x ∈ c.table.data ↔ x ∈ s.carrier
  distinct : Distinct f c.table.data
  small : c.table.count ≤ sortable

variable {c c' : BinaryArray α} {s s' : KeyedSet f}

theorem represents_new (hf : TotalCompare f) : Represents f (getBinaryArray f) (KeyedSet.empty f) where
  kept := ⟨hf, rfl, fun _ => List.Pairwise.nil, le_refl 0⟩
  compare := rfl
  unique := rfl
  mem_iff := fun x => iff_of_false not_mem_nil (Set.notMem_empty x)
  distinct := List.Pairwise.nil
  small := Nat.zero_le _

theorem Represents.tidied (h : Represents f c s) (ht : c.Tidied c') : Represents f c' s where
  kept := ht.kept
  compare := ht.compare.trans h.compare
  unique := ht.flags ▸ h.unique
  mem_iff := fun x => ht.mem_iff.trans (h.mem_iff x)
  distinct := h.distinct.perm (h.compare ▸ h.kept.total) ht.perm
  small := ht.count ▸ h.small

theorem Represents.total (h : Represents f c s) : TotalCompare f :=
  h.compare ▸ h.kept.total

theorem Represents.nodup (h : Represents f c s) : c.table.data.Nodup := by
  refine h.distinct.imp ?_
  rintro x _ hne rfl
  exact hne (h.total.self x)

theorem Represents.ncard (h : Represents f c s) : s.carrier.ncard = c.table.count := by
  classical
  have hs : s.carrier = (c.table.data.toFinset : Set α) := by
    ext x
    rw [coe_toFinset]
    exact (h.mem_iff x).symm
  rw [hs, Set.ncard_coe_finset, toFinset_card_of_nodup h.nodup]
  rfl

/-! ## each call -/

theorem Represents.insert (h : Represents f c s) (x : α) (granted : Bool) (hsize : c.size < sortable)
    (hmem : c.table.maxSize ≤ c.table.count → granted = true) :
    ∃ r c' s', c.step (.insert x granted) = some (r, c') ∧ Answers s (.insert x granted) r s' ∧ Represents f c' s' := by
  obtain ⟨rc, c', e, hins⟩ := insert_spec h.kept h.small x granted
  rw [step, e, Option.map_some]
  cases hins with
  | added hfresh _ hperm hkept hcmp hflags =>
    have hfresh' : ∀ y ∈ s.carrier, f y x ≠ 0 := fun y hy => h.compare ▸ hfresh h.unique y ((h.mem_iff y).mpr hy)
    have hdist : ∀ a ∈ Insert.insert x s.carrier, ∀ b ∈ Insert.insert x s.carrier, f a b = 0 → a = b := by
      rintro a (rfl | ha) b (rfl | hb) hab
      · rfl
      · exact absurd ((h.total.eq_comm a b).mp hab) (hfresh' b hb)
      · exact absurd hab (hfresh' a ha)
      · exact s.distinct a ha b hb hab
    refine ⟨_, c', ⟨Insert.insert x s.carrier, hdist⟩, rfl, .inserted hfresh' rfl, ?_⟩
    refine ⟨hkept, hcmp.trans h.compare, hflags ▸ h.unique, ?_, ?_, ?_⟩
    · intro y
      rw [hperm.mem_iff, mem_cons, h.mem_iff y]
      rfl
    · refine Distinct.perm h.total (List.Pairwise.cons ?_ h.distinct) hperm
      intro y hy hxy
      exact hfresh' y ((h.mem_iff y).mp hy) ((h.total.eq_comm x y).mp hxy)
    · rw [Table.count, hperm.length_eq, length_cons]
      exact hsize
  | duplicate _ hex htidy =>
    obtain ⟨y, hy, hyx⟩ := hex
    exact ⟨_, c', s, rfl, .duplicate ⟨y, (h.mem_iff y).mp hy, h.compare ▸ hyx⟩ (show (-1 : Int) ≠ 0 by decide), h.tidied htidy⟩
  | refused hfull hno _ =>
    rw [hmem hfull] at hno
    exact absurd hno.symm Bool.false_ne_true

theorem Represents.remove (h : Represents f c s) (key : α) (h0 : c.size ≠ 0) :
    ∃ r c' s', c.step (.remove key) = some (r, c') ∧ Answers s (.remove key) r s' ∧ Represents f c' s' := by
  obtain ⟨rc, c', e, hrem⟩ := remove_spec h.kept h.small h0 key
  rw [step, e, Option.map_some]
  cases hrem with
  | @one x hx hperm hkept hcmp hflags =>
    rw [h.compare] at hx
    have hxs : x ∈ s.carrier := (h.mem_iff x).mp (hperm.mem_iff.mp mem_cons_self)
    have hdist : Distinct f (x :: c'.table.data) := h.distinct.perm h.total hperm
    obtain ⟨hx', hdist'⟩ := pairwise_cons.mp hdist
    -- with different keys, the one entry that is gone is the only one with this key
    have hmem : ∀ y, y ∈ c'.table.data ↔ y ∈ s.carrier ∧ f y key ≠ 0 := by
      intro y
      rw [← h.mem_iff y, ← hperm.mem_iff, mem_cons]
      constructor
      · intro hy
        refine ⟨.inr hy, fun hyk => hx' y hy ?_⟩
        exact ((h.total.congr_left hx y).2).mpr ((h.total.eq_comm y key).mp hyk)
      · rintro ⟨rfl | hy, hne⟩
        · exact absurd hx hne
        · exact hy
    refine ⟨_, c', ⟨{y ∈ s.carrier | f y key ≠ 0}, fun a ha b hb => s.distinct a ha.1 b hb.1⟩, rfl,
      .removed ⟨x, hxs, hx⟩ rfl, hkept, hcmp.trans h.compare, hflags ▸ h.unique, hmem, hdist', ?_⟩
    have hlen := hperm.length_eq
    have hsmall := h.small
    simp only [length_cons, Table.count] at hlen hsmall ⊢
    omega
  | missing habsent htidy =>
    refine ⟨_, c', s, rfl, .absent ?_ (show (-1 : Int) ≠ 0 by decide), h.tidied htidy⟩
    exact fun y hy => h.compare ▸ habsent y ((h.mem_iff y).mpr hy)

/-- What a call needs besides: memory for a table that is full, and positions that an `int` can add up. -/
def Fits (c : BinaryArray α) : Op α → Prop
  | .insert _ granted => c.size < sortable ∧ (c.table.maxSize ≤ c.table.count → granted = true)
  | _ => True

/-- A call of `remove` finds the container not empty. -/
def HasSome (c : BinaryArray α) : Op α → Prop
  | .remove _ => c.size ≠ 0
  | _ => True

theorem Represents.step (h : Represents f c s) {op : Op α} (hfits : c.Fits op) (hsome : c.HasSome op) :
    ∃ r c' s', c.step op = some (r, c') ∧ Answers s op r s' ∧ Represents f c' s' := by
  cases op with
  | insert x granted => exact h.insert x granted hfits.1 hfits.2
  | remove key => exact h.remove key hsome
  | find key =>
    obtain ⟨r, c', e, htidy, hlook⟩ := find_spec h.kept h.small key
    refine ⟨.object r, c', s, by rw [BinaryArray.step, e]; rfl, ?_, h.tidied htidy⟩
    rw [h.compare] at hlook
    cases hlook with
    | found hmem hz => exact .found ((h.mem_iff _).mp hmem) hz
    | missing habsent => exact .missing fun y hy => habsent y ((h.mem_iff y).mpr hy)
  | findNext key =>
    obtain ⟨r, c', e, htidy, hnext⟩ := findNext_spec h.kept h.small h.unique (h.compare.symm ▸ h.distinct) key
    refine ⟨.object r, c', s, by rw [BinaryArray.step, e]; rfl, ?_, h.tidied htidy⟩
    rw [h.compare] at hnext
    cases hnext with
    | found hmem hlarger hleast =>
      exact .next ((h.mem_iff _).mp hmem) hlarger fun y hy => hleast y ((h.mem_iff y).mpr hy)
    | missing habsent => exact .last fun y hy => habsent y ((h.mem_iff y).mpr hy)
    | first hmem hleast => exact .first ((h.mem_iff _).mp hmem) fun y hy => hleast y ((h.mem_iff y).mpr hy)
    | empty hnil =>
      refine .empty (Set.eq_empty_of_forall_notMem fun y hy => ?_)
      have hy' := (h.mem_iff y).mpr hy
      rw [hnil] at hy'
      exact absurd hy' not_mem_nil
  | size =>
    refine ⟨.count c.size, c, s, rfl, ?_, h⟩
    rw [BinaryArray.size, ← h.ncard]
    exact .size
  | forEach =>
    obtain ⟨c', e, hsort⟩ := forEach_spec h.kept h.small
    have hrep := h.tidied (hsort.tidied h.kept)
    refine ⟨.visited c'.table.data, c', s, by rw [BinaryArray.step, e]; rfl, .forEach hrep.mem_iff ?_, hrep⟩
    exact (h.compare ▸ hsort.sorted).strict hrep.distinct
  | clear =>
    have hnone : ∀ x, x ∈ c.clear.2.table.data ↔ x ∈ (KeyedSet.empty f).carrier :=
      fun x => iff_of_false not_mem_nil (Set.notMem_empty x)
    exact ⟨_, _, KeyedSet.empty f, rfl, .clear h.mem_iff h.nodup rfl, clear_kept h.kept, h.compare, h.unique, hnone,
      List.Pairwise.nil, Nat.zero_le _⟩

/-! ## sequences of calls -/

/-- Every call of the sequence, made of the container as it is then, satisfies `P`. -/
def Along (P : BinaryArray α → Op α → Prop) : BinaryArray α → List (Op α) → Prop
  | _, [] => True
  | c, op :: ops => P c op ∧ ∀ r c', c.step op = some (r, c') → Along P c' ops

/-- The calls run to the end and are answered as the set answers them. -/
def Conforms (f : α → α → Int) (c : BinaryArray α) (s : KeyedSet f) (ops : List (Op α)) : Prop :=
  ∃ rs c' s', c.run ops = some (rs, c') ∧ AnswersAll s ops rs s' ∧ Represents f c' s'

theorem remove_empty (h : Represents f c s) (h0 : c.size = 0) (key : α) :
    c.step (.remove key) = some (.status 0, c) ∧ ∀ s', ¬ Answers s (.remove key) (.status 0) s' := by
  have h0' : c.table.count = 0 := h0
  refine ⟨by rw [BinaryArray.step, BinaryArray.remove, if_pos h0']; rfl, ?_⟩
  intro s' hans
  cases hans with
  | removed hex _ =>
    obtain ⟨y, hy, _⟩ := hex
    have hy' := (h.mem_iff y).mpr hy
    rw [length_eq_zero_iff.mp h0] at hy'
    exact absurd hy' not_mem_nil
  | absent _ hne => exact absurd rfl hne

theorem Represents.conforms_iff (ops : List (Op α)) : ∀ {c : BinaryArray α} {s : KeyedSet f}, Represents f c s →
    Along Fits c ops → (Conforms f c s ops ↔ Along HasSome c ops) := by
  induction ops with
  | nil =>
    intro c s h _
    exact iff_of_true ⟨[], c, s, rfl, .nil, h⟩ trivial
  | cons op ops ih =>
    intro c s h hfits
    by_cases hsome : c.HasSome op
    · obtain ⟨r, c', s', e, hans, hrep⟩ := h.step hfits.1 hsome
      have hrest := ih hrep (hfits.2 r c' e)
      have hrun : c.run (op :: ops) = (c'.run ops).map fun p => (r :: p.1, p.2) := by
        rw [run, e]
        simp only [Option.bind_eq_bind, Option.bind_some]
        cases c'.run ops <;> rfl
      constructor
      · rintro ⟨rs, c'', s'', e', hall, hrep'⟩
        refine ⟨hsome, fun r₁ c₁ e₁ => ?_⟩
        rw [e, Option.some.injEq, Prod.mk.injEq] at e₁
        obtain ⟨rfl, rfl⟩ := e₁
        rw [hrun, Option.map_eq_some_iff] at e'
        obtain ⟨⟨rs₁, c₂⟩, e₂, e₃⟩ := e'
        obtain ⟨rfl, rfl⟩ := Prod.mk.inj e₃
        cases hall with
        | cons hhead htail =>
          rw [hans.deterministic hhead] at hrest
          exact hrest.mp ⟨rs₁, c₂, s'', e₂, htail, hrep'⟩
      · rintro ⟨_, hall⟩
        obtain ⟨rs, c'', s'', e', hans', hrep'⟩ := hrest.mpr (hall r c' e)
        exact ⟨r :: rs, c'', s'', by rw [hrun, e']; rfl, .cons hans hans', hrep'⟩
    · refine iff_of_false ?_ fun hall => hsome hall.1
      rintro ⟨rs, c'', s'', e', hall, _⟩
      cases op with
      | remove key =>
        obtain ⟨e, hno⟩ := remove_empty h (not_not.mp hsome) key
        rw [run, e, Option.bind_eq_bind, Option.bind_some] at e'
        cases hall with
        | cons hhead _ =>
          obtain ⟨p, _, hp⟩ := Option.bind_eq_some_iff.mp e'
          rw [Option.some.injEq, Prod.mk.injEq, List.cons.injEq] at hp
          exact hno _ (hp.1.1 ▸ hhead)
      | insert | find | findNext | size | forEach | clear => exact hsome trivial

theorem along_cons {P : BinaryArray α → Op α → Prop} {op : Op α} {ops : List (Op α)} {r : Answer α}
    (e : c.step op = some (r, c')) (h : P c op) (hall : Along P c' ops) : Along P c (op :: ops) := by
  refine ⟨h, fun r₁ c₁ e₁ => ?_⟩
  rw [e, Option.some.injEq, Prod.mk.injEq] at e₁
  exact e₁.2 ▸ hall

/-- A new container with the default flags answers any sequence of calls as an ordered set does if and only if no
call of `remove` finds it empty. -/
theorem binaryArray_conforms_iff (hf : TotalCompare f) (ops : List (Op α))
    (hfits : Along Fits (getBinaryArray f) ops) :
    Conforms f (getBinaryArray f) (KeyedSet.empty f) ops ↔ Along HasSome (getBinaryArray f) ops :=
  (represents_new hf).conforms_iff ops hfits

/-- Integers as keys. -/
def compareInts (a b : Int) : Int := a - b

theorem compareInts_total : TotalCompare compareInts := by
  constructor
  · intro a b
    simp only [compareInts]
    omega
  · intro a b d h₁ h₂
    simp only [compareInts] at *
    omega

theorem binaryArray_conforms_iff_sorting :
    Conforms compareInts (getBinaryArray compareInts) (KeyedSet.empty compareInts)
        [.insert 5 true, .insert 3 true, .findNext (some 3), .remove 5] ↔
      Along HasSome (getBinaryArray compareInts)
        [.insert 5 true, .insert 3 true, .findNext (some 3), .remove 5] :=
  binaryArray_conforms_iff compareInts_total _
    (along_cons rfl ⟨by decide, fun _ => rfl⟩
      (along_cons rfl ⟨by decide, fun _ => rfl⟩ (along_cons rfl trivial (along_cons rfl trivial trivial))))

/-- The first call of all, to remove something. -/
theorem binaryArray_not_conforms_remove :
    ¬ Conforms compareInts (getBinaryArray compareInts) (KeyedSet.empty compareInts) [.remove 0] := by
  rintro ⟨rs, c', s', e, hall, _⟩
  cases hall with
  | cons hhead htail =>
    obtain ⟨hstep, hno⟩ := remove_empty (represents_new compareInts_total) rfl 0
    cases htail with
    | nil =>
      rw [run, hstep] at e
      obtain ⟨hrs, _⟩ := Prod.mk.inj (Option.some.inj e)
      rw [← (List.cons.inj hrs).1] at hhead
      exact hno _ hhead

end BinaryArray

end Priot.Containers
