/-
# What each operation of a binary array does

For any container in ordinary use, with duplicates or without: what a call answers and which objects it leaves. The
array may come out in another order, so the objects are compared up to a permutation.
-/
import Mathlib.Data.List.Perm.Basic
import Priot.Containers.BinarySearch

namespace Priot.Containers.BinaryArray

open Lib List

variable {α : Type} {c c' c'' : BinaryArray α}

/-! ## the same objects -/

/-- `c'` holds the objects of `c` and is set up like it. -/
structure Tidied (c c' : BinaryArray α) : Prop where
  perm : c'.table.data.Perm c.table.data
  kept : c'.Kept
  compare : c'.compare = c.compare
  flags : c'.flags = c.flags
  maxSize : c'.table.maxSize = c.table.maxSize

theorem Tidied.refl (hc : c.Kept) : c.Tidied c :=
  ⟨List.Perm.refl _, hc, rfl, rfl, rfl⟩

theorem SortedFrom.tidied (h : c.SortedFrom c') (hc : c.Kept) : c.Tidied c' :=
  ⟨h.perm, h.kept hc, h.compare, h.flags, h.maxSize⟩

theorem Tidied.mem_iff (h : c.Tidied c') {x : α} : x ∈ c'.table.data ↔ x ∈ c.table.data :=
  h.perm.mem_iff

theorem Tidied.count (h : c.Tidied c') : c'.table.count = c.table.count :=
  h.perm.length_eq

theorem SortedFrom.mem_iff (h : c.SortedFrom c') {x : α} : x ∈ c'.table.data ↔ x ∈ c.table.data :=
  h.perm.mem_iff

/-! ## lookups -/

/-- An object with the key, when there is one. -/
inductive Looked (f : α → α → Int) (data : List α) (key : α) : Option α → Prop
  | found {x : α} (mem : x ∈ data) (equal : f x key = 0) : Looked f data key (some x)
  | missing (absent : ∀ x ∈ data, f x key ≠ 0) : Looked f data key none

theorem find_spec (hc : c.Kept) (hn : c.table.count ≤ sortable) (key : α) :
    ∃ r c', c.find key = some (r, c') ∧ c.Tidied c' ∧ Looked c.compare c.table.data key r := by
  rw [find, get2]
  by_cases h0 : c.table.count = 0
  · rw [if_pos h0]
    refine ⟨none, c, rfl, .refl hc, .missing ?_⟩
    rw [length_eq_zero_iff.mp h0]
    simp
  · obtain ⟨c₁, e₁, hsort⟩ := sortIfDirty_spec hc hn
    obtain ⟨index, e₂, hhit⟩ := binarySearch_exact (hsort.kept hc) hsort.clean (hsort.count ▸ h0) (hsort.count ▸ hn) key
    rw [hsort.compare] at hhit
    simp only [if_neg h0, e₁, e₂, Option.bind_eq_bind, Option.bind_some]
    cases hhit with
    | found _ hk hz =>
      rw [if_neg (by omega)]
      simp only [Bool.not_true, Bool.false_and, Bool.false_eq_true, if_false, entry_natCast, hk, Option.map_some]
      exact ⟨_, c₁, rfl, hsort.tidied hc, .found (hsort.mem_iff.mp (mem_of_getElem? hk)) hz⟩
    | missing hnone =>
      rw [if_pos rfl]
      exact ⟨none, c₁, rfl, hsort.tidied hc, .missing fun x hx => hnone x (hsort.mem_iff.mpr hx)⟩

/-- The first object behind a key, or of all. -/
inductive Succeeded (f : α → α → Int) (data : List α) : Option α → Option α → Prop
  | found {key x : α} (mem : x ∈ data) (larger : 0 < f x key) (least : ∀ y ∈ data, 0 < f y key → f x y ≤ 0) :
      Succeeded f data (some key) (some x)
  | missing {key : α} (absent : ∀ x ∈ data, f x key ≤ 0) : Succeeded f data (some key) none
  | first {x : α} (mem : x ∈ data) (least : ∀ y ∈ data, f x y ≤ 0) : Succeeded f data none (some x)
  | empty (nil : data = []) : Succeeded f data none none

theorem findNext_spec (hc : c.Kept) (hn : c.table.count ≤ sortable) (ha : c.flags.allowDuplicates = false)
    (hd : Distinct c.compare c.table.data) (key : Option α) :
    ∃ r c', c.findNext key = some (r, c') ∧ c.Tidied c' ∧ Succeeded c.compare c.table.data key r := by
  rw [findNext, get2]
  by_cases h0 : c.table.count = 0
  · have hnil : c.table.data = [] := length_eq_zero_iff.mp h0
    rw [if_pos h0]
    refine ⟨none, c, rfl, .refl hc, ?_⟩
    cases key with
    | none => exact .empty hnil
    | some key => exact .missing (by rw [hnil]; simp)
  · obtain ⟨c₁, e₁, hsort⟩ := sortIfDirty_spec hc hn
    simp only [if_neg h0, e₁, Option.bind_eq_bind, Option.bind_some]
    have hlen : c₁.table.data.length ≠ 0 := by
      rw [hsort.perm.length_eq]
      exact h0
    cases key with
    | none =>
      obtain ⟨x, hx⟩ := exists_entry c₁.table.data (k := 0) (by omega)
      have hfirst := entry_natCast c₁.table.data 0
      rw [Nat.cast_zero, hx] at hfirst
      refine ⟨some x, c₁, by simp only [hfirst, Option.map_some], hsort.tidied hc, .first ?_ ?_⟩
      · exact hsort.mem_iff.mp (mem_of_getElem? hx)
      · intro y hy
        obtain ⟨k, hk, rfl⟩ := getElem_of_mem (hsort.mem_iff.mpr hy)
        exact hsort.sorted.le_at hc.total (Nat.zero_le k) hx (getElem?_eq_getElem hk)
    | some key =>
      have hstrict := hsort.sorted.strict (hd.perm hc.total hsort.perm)
      obtain ⟨index, e₂, hnext⟩ := binarySearch_next (hsort.kept hc) hsort.clean (hsort.count ▸ h0)
        (hsort.count ▸ hn) (hsort.compare ▸ hstrict) key
      rw [hsort.compare] at hnext
      simp only [e₂, Option.bind_some]
      cases hnext with
      | found _ hk hlarger hbefore =>
        rw [if_neg (by omega)]
        simp only [hsort.flags, ha, Bool.not_false, Bool.and_false, Bool.false_eq_true, if_false, entry_natCast, hk,
          Option.map_some]
        refine ⟨_, c₁, rfl, hsort.tidied hc, .found (hsort.mem_iff.mp (mem_of_getElem? hk)) hlarger ?_⟩
        intro y hy hy'
        obtain ⟨m, hm, rfl⟩ := getElem_of_mem (hsort.mem_iff.mpr hy)
        have hkm : ¬ m < _ := fun h => absurd (hbefore m h _ (getElem?_eq_getElem hm)) (not_le.mpr hy')
        exact hsort.sorted.le_at hc.total (not_lt.mp hkm) hk (getElem?_eq_getElem hm)
      | missing hnone =>
        rw [if_pos rfl]
        exact ⟨none, c₁, rfl, hsort.tidied hc, .missing fun x hx => hnone x (hsort.mem_iff.mpr hx)⟩

/-! ## removing and inserting -/

/-- One object with the key is gone, or there was none. -/
inductive Removed (key : α) (c c' : BinaryArray α) : Int → Prop
  | one {x : α} (equal : c.compare x key = 0) (perm : (x :: c'.table.data).Perm c.table.data) (kept : c'.Kept)
      (compare : c'.compare = c.compare) (flags : c'.flags = c.flags) : Removed key c c' 0
  | missing (absent : ∀ x ∈ c.table.data, c.compare x key ≠ 0) (tidied : c.Tidied c') : Removed key c c' (-1)

theorem remove_spec (hc : c.Kept) (hn : c.table.count ≤ sortable) (h0 : c.table.count ≠ 0) (key : α) :
    ∃ r c', c.remove key = some (r, c') ∧ Removed key c c' r := by
  obtain ⟨c₁, e₁, hsort⟩ := sortIfDirty_spec hc hn
  obtain ⟨index, e₂, hhit⟩ := binarySearch_exact (hsort.kept hc) hsort.clean (hsort.count ▸ h0) (hsort.count ▸ hn) key
  rw [hsort.compare] at hhit
  simp only [remove, if_neg h0, e₁, e₂, Option.bind_eq_bind, Option.bind_some]
  cases hhit with
  | found hlt hk hz =>
    obtain ⟨hkl, rfl⟩ := List.getElem?_eq_some_iff.mp hk
    rw [if_neg (by omega), toSize_natCast hlt, removeAt, if_neg (hsort.count ▸ h0),
      if_neg (show ¬ c₁.table.count ≤ _ from not_le.mpr hkl)]
    refine ⟨_, _, rfl, .one hz ?_ ⟨?_, ?_, ?_, ?_⟩ hsort.compare hsort.flags⟩
    · exact (getElem_cons_eraseIdx_perm hkl).trans hsort.perm
    · exact (hsort.kept hc).total
    · exact (hsort.kept hc).sorts
    · exact fun _ => ((hsort.kept hc).sorted hsort.clean).sublist (eraseIdx_sublist _ _)
    · exact ((eraseIdx_sublist _ _).length_le).trans (hsort.kept hc).room
  | missing hnone =>
    rw [if_pos rfl]
    exact ⟨-1, c₁, rfl, .missing (fun x hx => hnone x (hsort.mem_iff.mpr hx)) (hsort.tidied hc)⟩

theorem find_remove (hc : c.Kept) (hn : c.table.count ≤ sortable) {key : α}
    (hk : ∃ y ∈ c.table.data, c.compare y key = 0) :
    ∃ e c' c'', c.find key = some (some e, c') ∧ c.remove key = some (0, c'') ∧ c.compare e key = 0 ∧
      (e :: c''.table.data).Perm c.table.data ∧ c''.Kept := by
  obtain ⟨y, hy, hyk⟩ := hk
  have h0 : c.table.count ≠ 0 := length_pos_iff_ne_nil.mpr (ne_nil_of_mem hy) |>.ne'
  obtain ⟨c₁, e₁, hsort⟩ := sortIfDirty_spec hc hn
  obtain ⟨index, e₂, hhit⟩ := binarySearch_exact (hsort.kept hc) hsort.clean (hsort.count ▸ h0) (hsort.count ▸ hn) key
  rw [hsort.compare] at hhit
  obtain ⟨rc, c'', e₃, hrem⟩ := remove_spec hc hn h0 key
  cases hhit with
  | missing habsent => exact absurd hyk (habsent y (hsort.mem_iff.mpr hy))
  | @found k _ hlt hk hz =>
    obtain ⟨hkl, rfl⟩ := List.getElem?_eq_some_iff.mp hk
    have hfind : c.find key = some (some c₁.table.data[k], c₁) := by
      simp only [find, get2, if_neg h0, e₁, e₂, Option.bind_eq_bind, Option.bind_some]
      rw [if_neg (by omega)]
      simp only [Bool.not_true, Bool.false_and, Bool.false_eq_true, if_false, entry_natCast, hk, Option.map_some]
    have hremove : ∃ c'', c.remove key = some (0, c'') ∧ c''.table.data = c₁.table.data.eraseIdx k := by
      simp only [remove, if_neg h0, e₁, e₂, Option.bind_eq_bind, Option.bind_some]
      rw [if_neg (by omega), toSize_natCast hlt, removeAt, if_neg (hsort.count ▸ h0),
        if_neg (show ¬ c₁.table.count ≤ _ from not_le.mpr hkl)]
      exact ⟨_, rfl, rfl⟩
    obtain ⟨d, hd, hdata⟩ := hremove
    rw [hd, Option.some.injEq, Prod.mk.injEq] at e₃
    obtain ⟨rfl, rfl⟩ := e₃
    refine ⟨_, c₁, d, hfind, hd, hz, ?_, ?_⟩
    · rw [hdata]
      exact (getElem_cons_eraseIdx_perm hkl).trans hsort.perm
    · cases hrem with
      | one _ _ hkept _ _ => exact hkept

/-- The object is there now; or one with its key was there before, or there was no memory, and nothing changed. -/
inductive Inserted (x : α) (granted : Bool) (c c' : BinaryArray α) : Int → Prop
  | added (fresh : c.flags.allowDuplicates = false → ∀ y ∈ c.table.data, c.compare y x ≠ 0)
      (memory : c.table.maxSize ≤ c.table.count → granted = true)
      (perm : c'.table.data.Perm (x :: c.table.data)) (kept : c'.Kept) (compare : c'.compare = c.compare)
      (flags : c'.flags = c.flags) : Inserted x granted c c' 0
  | duplicate (unique : c.flags.allowDuplicates = false) (equal : ∃ y ∈ c.table.data, c.compare y x = 0)
      (tidied : c.Tidied c') : Inserted x granted c c' (-1)
  | refused (full : c.table.maxSize ≤ c.table.count) (refused : granted = false) (tidied : c.Tidied c') :
      Inserted x granted c c' (-1)

theorem checkDuplicate_spec (hc : c.Kept) (hn : c.table.count ≤ sortable) (x : α) :
    ∃ d w c', c.checkDuplicate x = some (d, w, c') ∧ c.Tidied c' ∧
      (d = true → c.flags.allowDuplicates = false ∧ ∃ y ∈ c.table.data, c.compare y x = 0) ∧
      (d = false → c.flags.allowDuplicates = false → ∀ y ∈ c.table.data, c.compare y x ≠ 0) := by
  rw [checkDuplicate]
  by_cases ha : c.flags.allowDuplicates = true
  · rw [if_pos ha]
    refine ⟨false, false, c, rfl, .refl hc, fun h => absurd h (by decide), fun _ h => ?_⟩
    rw [ha] at h
    exact absurd h (by decide)
  · have ha' : c.flags.allowDuplicates = false := Bool.eq_false_iff.mpr ha
    obtain ⟨r, c₁, e, htidy, hlook⟩ := find_spec hc hn x
    rw [find] at e
    rw [if_neg ha, e]
    refine ⟨r.isSome, c.table.dirty, c₁, rfl, htidy, ?_, ?_⟩
    · intro hr
      cases hlook with
      | found hmem hz => exact ⟨ha', _, hmem, hz⟩
      | missing _ => exact absurd hr Bool.false_ne_true
    · intro hr _
      cases hlook with
      | found _ _ => exact absurd hr (by simp)
      | missing hnone => exact hnone

theorem succ_le_grown {t : Table α} (h : t.count ≤ t.maxSize) : t.count + 1 ≤ grown t := by
  rw [grown]
  by_cases hfull : t.maxSize ≤ t.count
  · rw [if_pos hfull]
    by_cases hpos : 0 < t.maxSize
    · rw [if_pos hpos]
      omega
    · rw [if_neg hpos]
      omega
  · rw [if_neg hfull]
    omega

theorem insert_spec (hc : c.Kept) (hn : c.table.count ≤ sortable) (x : α) (granted : Bool) :
    ∃ r c', c.insert x granted = some (r, c') ∧ Inserted x granted c c' r := by
  obtain ⟨d, w, c₁, e, htidy, hdup, hfresh⟩ := checkDuplicate_spec hc hn x
  simp only [insert, e, Option.bind_eq_bind, Option.bind_some]
  cases d with
  | true =>
    rw [if_pos rfl]
    obtain ⟨ha, hex⟩ := hdup rfl
    exact ⟨-1, c₁, rfl, .duplicate ha hex htidy⟩
  | false =>
    rw [if_neg (by decide)]
    by_cases hfull : (c₁.table.maxSize ≤ c₁.table.count && !granted) = true
    · rw [if_pos hfull]
      rw [Bool.and_eq_true, decide_eq_true_eq, Bool.not_eq_true', htidy.maxSize, htidy.count] at hfull
      exact ⟨-1, c₁, rfl, .refused hfull.1 hfull.2 htidy⟩
    · rw [if_neg hfull]
      refine ⟨0, _, rfl, .added (hfresh rfl) ?_ ?_ ⟨htidy.kept.total, htidy.kept.sorts, ?_, ?_⟩
        htidy.compare htidy.flags⟩
      · intro h
        by_contra hno
        refine hfull ?_
        rw [Bool.and_eq_true, decide_eq_true_eq, htidy.maxSize, htidy.count, Bool.eq_false_iff.mpr hno]
        exact ⟨h, rfl⟩
      · exact (perm_append_singleton x c₁.table.data).trans (htidy.perm.cons x)
      · exact fun h => absurd h.symm Bool.false_ne_true
      · exact Nat.le_trans (le_of_eq length_append) (succ_le_grown htidy.kept.room)

/-! ## the rest -/

theorem forEach_spec (hc : c.Kept) (hn : c.table.count ≤ sortable) :
    ∃ c', c.forEach = some (c'.table.data, c') ∧ c.SortedFrom c' := by
  obtain ⟨c', e, hsort⟩ := sortIfDirty_spec hc hn
  exact ⟨c', by rw [forEach, e]; rfl, hsort⟩

theorem clear_kept (hc : c.Kept) : c.clear.2.Kept :=
  ⟨hc.total, hc.sorts, fun _ => List.Pairwise.nil, Nat.zero_le _⟩

end Priot.Containers.BinaryArray
