/-
# Making views, and the entry that is found

A new entry goes behind those of its view with smaller subtrees. What is found for an OID is the entry with the
longest subtree that it lies in, as far as the mask tells, and of these the greatest.
-/
import Mathlib.Data.Nat.Bitwise
import Priot.AccessControl.NamedRow
import Priot.Lib.Rebuild

namespace Priot.AccessControl

open Lib Registry
open List hiding choose

/-! ## `Vacm_viewCreate` -/

/-- The subtree behind its length. -/
def lengthPrefixedSubtree (t : ObjId) : ObjId := UInt32.ofNat t.length :: t

/-- Whether the loop of `Vacm_viewCreate` stops at `lp`. -/
def viewStopsAt (vp lp : ViewEntry) : Bool :=
  let cmp := memcmp (vp.viewName.text.length + 1) lp.viewName.octets vp.viewName.octets
  let cmp2 := oidCompare (lengthPrefixedSubtree lp.viewSubtree) (lengthPrefixedSubtree vp.viewSubtree)
  if cmp = 0 ∧ cmp2 = .gt then true
  else decide (cmp > 0)

/-- An entry as `calloc` and `Vacm_viewCreate` leave it. -/
def newViewEntry (viewName : VacmString) (viewSubtree : ObjId) : ViewEntry where
  viewName := viewName
  viewSubtree := viewSubtree
  viewMask := []
  viewType := 0
  viewStorageType := 0
  viewStatus := 0

/-- `Vacm_viewCreate`: where the new entry is, and the list with it. `granted` is what `calloc` answers. -/
def viewCreate (viewName : Text) (viewSubtree : ObjId) (granted : Bool) (head : List ViewEntry) :
    Option (Nat × List ViewEntry) :=
  if h : viewName.length ≤ VACM_MAX_STRING then
    if granted then
      let vp := newViewEntry ⟨viewName, h⟩ viewSubtree
      let place := head.findIdx (viewStopsAt vp)
      some (place, head.insertIdx place vp)
    else none
  else none

/-- A call, and what the caller fills in once it has the entry. -/
structure ViewCall where
  viewName : Text
  viewSubtree : ObjId
  granted : Bool
  viewMask : List UInt8
  viewType : Int
  viewStorageType : Int
  viewStatus : Int

def ViewCall.fill (c : ViewCall) (vp : ViewEntry) : ViewEntry :=
  { vp with
    viewMask := c.viewMask
    viewType := c.viewType
    viewStorageType := c.viewStorageType
    viewStatus := c.viewStatus }

def ViewCall.run (c : ViewCall) (head : List ViewEntry) : List ViewEntry :=
  match viewCreate c.viewName c.viewSubtree c.granted head with
  | none => head
  | some made => made.2.modify made.1 c.fill

def viewsMade (calls : List ViewCall) : List ViewEntry := calls.foldl (fun head c => c.run head) []

/-! ## what is meant -/

/-- The entry of a call, if there is one. -/
def ViewCall.entry (c : ViewCall) : Option ViewEntry :=
  if h : c.viewName.length ≤ VACM_MAX_STRING then
    if c.granted then some (c.fill (newViewEntry ⟨c.viewName, h⟩ c.viewSubtree)) else none
  else none

/-- The bit of the mask for a subidentifier: the bits of an octet go from the high end, and missing ones count as 1. -/
def ViewEntry.maskBit (vp : ViewEntry) (i : Nat) : Bool :=
  match vp.viewMask[i / 8]? with
  | none => true
  | some m => m.toNat.testBit (7 - i % 8)

/-- The OID lies in the subtree, where the mask does not say that a subidentifier is of no matter. -/
def ViewEntry.Matches (vp : ViewEntry) (x : ObjId) : Prop :=
  vp.viewSubtree.length ≤ x.length ∧ ∀ i < vp.viewSubtree.length, vp.maskBit i = true → x[i]? = vp.viewSubtree[i]?

/-- The subtree of one entry is shorter than that of another, or as long and not greater. -/
def Precedes (e r : ViewEntry) : Prop :=
  e.viewSubtree.length < r.viewSubtree.length ∨
    (e.viewSubtree.length = r.viewSubtree.length ∧ e.viewSubtree ≤ r.viewSubtree)

/-! ## the entries of the list -/

variable {calls calls' : List ViewCall} {vp e r : ViewEntry} {x y : ObjId} {viewName : Text} {head head' : List ViewEntry}

theorem ViewCall.run_perm (c : ViewCall) (head : List ViewEntry) : (c.run head).Perm (c.entry.toList ++ head) := by
  unfold run viewCreate entry
  by_cases h : c.viewName.length ≤ VACM_MAX_STRING
  · simp only [dif_pos h]
    by_cases hgranted : c.granted = true
    · simp only [if_pos hgranted]
      exact Lib.modify_insertIdx_perm c.fill findIdx_le_length
    · simp only [if_neg hgranted]
      exact List.Perm.refl _
  · simp only [dif_neg h]
    exact List.Perm.refl _

theorem viewsMade_perm (calls : List ViewCall) : (viewsMade calls).Perm (calls.filterMap ViewCall.entry) := by
  have hfrom : ∀ head, (calls.foldl (fun head (c : ViewCall) => c.run head) head).Perm (calls.filterMap ViewCall.entry ++ head) := by
    induction calls with
    | nil => exact fun head => List.Perm.refl _
    | cons c calls ih =>
      intro head
      refine (ih (c.run head)).trans ?_
      refine ((c.run_perm head).append_left _).trans ?_
      rw [← append_assoc]
      refine List.Perm.append_right head ?_
      cases hc : c.entry with
      | none => rw [filterMap_cons_none hc, Option.toList_none, append_nil]
      | some e =>
        rw [filterMap_cons_some hc, Option.toList_some]
        exact perm_append_singleton e _
  exact (hfrom []).trans (append_nil _ ▸ List.Perm.refl _)

/-! ## the mask -/

theorem maskAt_iff {mask : UInt8} {i : Nat} (h : mask.toNat = 2 ^ (7 - i % 8)) :
    vp.maskAt (i / 8) mask ≠ 0 ↔ vp.maskBit i = true := by
  unfold ViewEntry.maskAt ViewEntry.maskBit
  cases vp.viewMask[i / 8]? with
  | none =>
    show mask ≠ 0 ↔ true = true
    refine iff_of_true (fun h0 => ?_) rfl
    rw [h0] at h
    exact absurd h (Nat.two_pow_pos _).ne
  | some m =>
    show m &&& mask ≠ 0 ↔ m.toNat.testBit (7 - i % 8) = true
    rw [ne_eq, ← UInt8.toNat_inj, UInt8.toNat_and, h, Nat.and_two_pow]
    cases m.toNat.testBit (7 - i % 8) with
    | false => simp
    | true => simp

theorem matchLoop_iff {mask : UInt8} {i : Nat} (h : mask.toNat = 2 ^ (7 - i % 8)) (hlen : y.length ≤ x.length) :
    matchLoop vp false mask (i / 8) x y = true ↔ ∀ j < y.length, vp.maskBit (i + j) = true → x[j]? = y[j]? := by
  induction x generalizing y mask i with
  | nil =>
    obtain rfl := length_eq_zero_iff.mp (Nat.le_zero.mp hlen)
    exact iff_of_true rfl fun j hj => absurd hj (Nat.not_lt_zero j)
  | cons v x ih =>
    cases y with
    | nil => exact iff_of_true rfl fun j hj => absurd hj (Nat.not_lt_zero j)
    | cons w y =>
      have hlen' : y.length ≤ x.length := Nat.succ_le_succ_iff.mp hlen
      -- the next bit of the mask is the one for the next subidentifier
      have hnext : (if mask = 1 then matchLoop vp false 0x80 (i / 8 + 1) x y
          else matchLoop vp false (mask >>> 1) (i / 8) x y) = true ↔
          ∀ j < y.length, vp.maskBit (i + 1 + j) = true → x[j]? = y[j]? := by
        by_cases hmask : mask = 1
        · subst hmask
          have h7 : i % 8 = 7 := by
            by_contra hne
            have hlt := Nat.one_lt_two_pow (n := 7 - i % 8) (by omega)
            rw [← h] at hlt
            exact absurd hlt (by decide)
          have hdiv : (i + 1) / 8 = i / 8 + 1 := by omega
          rw [if_pos rfl, ← hdiv]
          refine ih ?_ hlen'
          rw [show (i + 1) % 8 = 0 by omega]
          rfl
        · have h7 : i % 8 ≠ 7 := by
            intro heq
            rw [heq] at h
            exact hmask (UInt8.toNat_inj.mp h)
          have hdiv : i / 8 = (i + 1) / 8 := by omega
          rw [if_neg hmask, hdiv]
          refine ih ?_ hlen'
          rw [UInt8.toNat_shiftRight, h, show 7 - i % 8 = 7 - (i + 1) % 8 + 1 by omega]
          show 2 ^ (7 - (i + 1) % 8 + 1) >>> 1 = _
          rw [Nat.shiftRight_eq_div_pow, Nat.pow_succ, Nat.pow_one, Nat.mul_div_cancel _ Nat.zero_lt_two]
      have hhere := @maskAt_iff vp _ _ h
      rw [matchLoop]
      by_cases hdiffers : (false = true ∨ vp.maskAt (i / 8) mask ≠ 0) ∧ v ≠ w
      · rw [if_pos hdiffers]
        refine iff_of_false Bool.false_ne_true fun hall => hdiffers.2 ?_
        have hbit : vp.maskBit (i + 0) = true := hhere.mp (hdiffers.1.resolve_left Bool.false_ne_true)
        exact Option.some.inj (hall 0 (Nat.succ_pos _) hbit)
      · rw [if_neg hdiffers, hnext]
        constructor
        · intro hall j hj hbit
          cases j with
          | zero =>
            by_contra hne
            exact hdiffers ⟨.inr (hhere.mpr hbit), fun hvw => hne (congrArg some hvw)⟩
          | succ j => exact hall j (Nat.lt_of_succ_lt_succ hj) (by rw [Nat.add_assoc, Nat.add_comm 1 j]; exact hbit)
        · intro hall j hj hbit
          exact hall (j + 1) (Nat.succ_lt_succ hj) (by rw [Nat.add_assoc, Nat.add_comm 1 j] at hbit; exact hbit)

theorem viewSelects_find_iff (hname : viewName.length ≤ VACM_MAX_STRING) :
    viewSelects viewName x .find vp = true ↔ vp.viewName.text = viewName ∧ vp.Matches x := by
  rw [viewSelects_iff, inView_iff hname]
  refine and_congr_right fun _ => and_congr_right fun hlen => ?_
  have hloop := @matchLoop_iff vp _ _ 0x80 0 rfl hlen
  simp only [Nat.zero_add] at hloop
  exact hloop

/-! ## the entry that is found -/

theorem not_longer_iff : ¬ longer r e ↔ Precedes e r := by
  unfold longer Precedes
  rw [oidCompare_gt, not_or, not_and, List.not_lt]
  constructor
  · rintro ⟨hle, heq⟩
    rcases Nat.lt_or_eq_of_le (Nat.not_lt.mp hle) with hlt | hlen
    · exact .inl hlt
    · exact .inr ⟨hlen, heq hlen⟩
  · rintro (hlt | ⟨hlen, hle⟩)
    · exact ⟨by omega, fun hlen => absurd hlen (Nat.ne_of_lt hlt)⟩
    · exact ⟨by omega, fun _ => hle⟩

theorem longer_asymm (a b : ViewEntry) (h : longer a b) : ¬ longer b a := by
  rw [not_longer_iff]
  rcases h with hlt | ⟨hlen, hgt⟩
  · exact .inl hlt
  · exact .inr ⟨hlen.symm, List.le_of_lt (oidCompare_gt.mp hgt)⟩

theorem longer_trans (a b c : ViewEntry) (hab : ¬ longer a b) (hbc : ¬ longer b c) : ¬ longer a c := by
  rw [not_longer_iff] at hab hbc ⊢
  rcases hab with hab | ⟨hlen, hab⟩
  · rcases hbc with hbc | ⟨hlen', -⟩
    · exact .inl (Nat.lt_trans hbc hab)
    · exact .inl (by omega)
  · rcases hbc with hbc | ⟨hlen', hbc⟩
    · exact .inl (by omega)
    · exact .inr ⟨by omega, List.le_trans hbc hab⟩

theorem viewGet_spec (hname : viewName.length ≤ VACM_MAX_STRING) (head : List ViewEntry) (x : ObjId) :
    (viewGet head viewName x .find = none ↔ ∀ e ∈ head, ¬ (e.viewName.text = viewName ∧ e.Matches x)) ∧
    ∀ r, viewGet head viewName x .find = some r → (r ∈ head ∧ r.viewName.text = viewName ∧ r.Matches x) ∧
      ∀ e ∈ head, e.viewName.text = viewName → e.Matches x → Precedes e r := by
  have hmem : ∀ e, e ∈ selected viewName x head ↔ e ∈ head ∧ e.viewName.text = viewName ∧ e.Matches x := by
    intro e
    rw [selected, mem_filter, viewSelects_find_iff hname]
  rw [viewGet_find hname]
  constructor
  · rw [Lib.foldl_choose_eq_none_iff, eq_nil_iff_forall_not_mem]
    refine forall_congr' fun e => ?_
    rw [hmem, not_and]
  · intro r hr
    obtain ⟨hin, hbest⟩ := Lib.foldl_choose_best longer_asymm longer_trans hr
    refine ⟨(hmem r).mp hin, fun e he hview hmatch => ?_⟩
    exact not_longer_iff.mp (hbest e ((hmem e).mpr ⟨he, hview, hmatch⟩))

theorem viewGet_perm (hname : viewName.length ≤ VACM_MAX_STRING) (hperm : head.Perm head')
    (hdistinct : (head.map ViewEntry.index).Nodup) (x : ObjId) :
    viewGet head viewName x .find = viewGet head' viewName x .find := by
  obtain ⟨hnone, hsome⟩ := viewGet_spec hname head x
  obtain ⟨hnone', hsome'⟩ := viewGet_spec hname head' x
  cases hr : viewGet head viewName x .find with
  | none =>
    refine (hnone'.mpr fun e he => ?_).symm
    exact hnone.mp hr e (hperm.mem_iff.mpr he)
  | some r =>
    obtain ⟨⟨hmem, hview, hmatch⟩, hbest⟩ := hsome r hr
    cases hr' : viewGet head' viewName x .find with
    | none => exact absurd ⟨hview, hmatch⟩ (hnone'.mp hr' r (hperm.mem_iff.mp hmem))
    | some r' =>
      obtain ⟨⟨hmem', hview', hmatch'⟩, hbest'⟩ := hsome' r' hr'
      have hle : Precedes r' r := hbest r' (hperm.mem_iff.mpr hmem') hview' hmatch'
      have hge : Precedes r r' := hbest' r (hperm.mem_iff.mp hmem) hview hmatch
      -- two that precede one another have the same subtree, and so the same index
      have hsubtree : r.viewSubtree = r'.viewSubtree := by
        rcases hle with hlt | ⟨hlen, hle⟩
        · rcases hge with hgt | ⟨hlen, -⟩
          · omega
          · omega
        · rcases hge with hgt | ⟨-, hge⟩
          · omega
          · exact List.le_antisymm hge hle
      have hindex : r.index = r'.index :=
        Prod.ext (VacmString.ext (hview.trans hview'.symm)) hsubtree
      exact congrArg some (inj_on_of_nodup_map hdistinct hmem (hperm.mem_iff.mpr hmem') hindex)

/-- In every list that was made by calls, what is found is the entry that the calls mean, and the order of the calls
does not matter to it. -/
theorem viewGet_viewsMade (calls : List ViewCall) (viewName : Text) (hname : viewName.length ≤ VACM_MAX_STRING)
    (x : ObjId) :
    (viewGet (viewsMade calls) viewName x .find = none ↔
      ∀ e ∈ calls.filterMap ViewCall.entry, ¬ (e.viewName.text = viewName ∧ e.Matches x)) ∧
    (∀ r, viewGet (viewsMade calls) viewName x .find = some r →
      (r ∈ calls.filterMap ViewCall.entry ∧ r.viewName.text = viewName ∧ r.Matches x) ∧
      ∀ e ∈ calls.filterMap ViewCall.entry, e.viewName.text = viewName → e.Matches x → Precedes e r) ∧
    ∀ calls', calls'.Perm calls → ((calls.filterMap ViewCall.entry).map ViewEntry.index).Nodup →
      viewGet (viewsMade calls') viewName x .find = viewGet (viewsMade calls) viewName x .find := by
  obtain ⟨hnone, hsome⟩ := viewGet_spec hname (viewsMade calls) x
  have hmade : ∀ e, e ∈ viewsMade calls ↔ e ∈ calls.filterMap ViewCall.entry := fun e => (viewsMade_perm calls).mem_iff
  refine ⟨?_, ?_, ?_⟩
  · rw [hnone]
    exact forall_congr' fun e => by rw [hmade]
  · intro r hr
    obtain ⟨hr, hbest⟩ := hsome r hr
    rw [hmade] at hr
    exact ⟨hr, fun e he => hbest e ((hmade e).mpr he)⟩
  · intro calls' hperm hdistinct
    refine (viewGet_perm hname ?_ ?_ x).symm
    · exact (viewsMade_perm calls).trans ((hperm.symm.filterMap _).trans (viewsMade_perm calls').symm)
    · exact ((viewsMade_perm calls).map _).nodup_iff.mpr hdistinct

/-- Two subtrees of one view, one within the other. -/
def twoViews : List ViewCall := [⟨[118], [1, 3], true, [], 1, 0, 1⟩, ⟨[118], [1, 3, 6], true, [0xC0], 2, 0, 1⟩]

/-- The longer one is found for an OID in both, whichever was made first. -/
theorem viewGet_viewsMade_two :
    viewGet (viewsMade twoViews.reverse) [118] [1, 3, 7, 1] .find =
      viewGet (viewsMade twoViews) [118] [1, 3, 7, 1] .find := by
  have hspec := viewGet_viewsMade twoViews [118] (by decide) [1, 3, 7, 1]
  exact hspec.2.2 twoViews.reverse (reverse_perm _) (by decide)

end Priot.AccessControl
