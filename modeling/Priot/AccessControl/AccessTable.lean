/-
# The access table is kept in the order of its index

The list is ordered by group, context prefix, model and level, entries with one index in the order in which they were
made, and every ordered list can come about.
-/
import Mathlib.Data.List.Induction
import Priot.AccessControl.Vacm

namespace Priot.AccessControl

open Lib List

/-! ## names -/

theorem VacmString.len_eq (s : VacmString) : s.len = s.text.length := by
  have hfits : s.text.length ≤ 32 := s.fits
  rw [VacmString.len, VacmString.octets, lengthPrefixed, headD_cons, UInt8.toNat_ofNat']
  omega

theorem lengthPrefixed_ne {s t : Text} (hs : s.length ≤ VACM_MAX_STRING) (ht : t.length ≤ VACM_MAX_STRING)
    (h : s.length ≠ t.length) : UInt8.ofNat s.length ≠ UInt8.ofNat t.length := by
  intro he
  have hn := congrArg UInt8.toNat he
  rw [UInt8.toNat_ofNat', UInt8.toNat_ofNat'] at hn
  simp only [VACM_MAX_STRING] at hs ht
  omega

/-- The order of names: shorter ones first. -/
def compareNames (s t : VacmString) : Int := memcmp (VACM_MAX_STRING + 1) s.octets t.octets

theorem compareNames_total : TotalCompare compareNames :=
  (Lib.memcmp_total (VACM_MAX_STRING + 1)).comap VacmString.octets

theorem memcmp_octets (s t : VacmString) : memcmp (t.text.length + 1) s.octets t.octets = compareNames s t := by
  rw [compareNames]
  by_cases h : s.text.length = t.text.length
  · have hadd := Lib.memcmp_add (k := t.text.length + 1) (a := s.octets) (b := t.octets) (by
      rw [VacmString.octets, lengthPrefixed, length_cons, h]) (le_of_eq length_cons)
      (VACM_MAX_STRING - t.text.length)
    have hfits := t.fits
    rw [← hadd]
    congr 1
    omega
  · exact Lib.memcmp_of_ne (lengthPrefixed_ne s.fits t.fits h) _ _ _ _

theorem memcmp_lengthPrefixed {s t : Text} (hs : s.length ≤ VACM_MAX_STRING) (ht : t.length ≤ VACM_MAX_STRING) :
    memcmp (t.length + 1) (lengthPrefixed s) (lengthPrefixed t) = 0 ↔ s = t := by
  by_cases h : s.length = t.length
  · have heq := Lib.memcmp_eq_zero_iff (n := t.length + 1) (a := lengthPrefixed s) (b := lengthPrefixed t)
      (by rw [lengthPrefixed, length_cons, h]) length_cons
    rw [heq, lengthPrefixed, lengthPrefixed, List.cons.injEq, h]
    exact ⟨And.right, fun h => ⟨rfl, h⟩⟩
  · refine iff_of_false ?_ fun hst => h (hst ▸ rfl)
    rw [lengthPrefixed, lengthPrefixed, Lib.memcmp_of_ne (lengthPrefixed_ne hs ht h) _ 0]
    have hne := lengthPrefixed_ne hs ht h
    have hn : (UInt8.ofNat s.length).toNat ≠ (UInt8.ofNat t.length).toNat := fun h' => hne (UInt8.toNat_inj.mp h')
    intro hz
    simp only [Lib.memcmp_cons, UInt8.lt_iff_toNat_lt] at hz
    split_ifs at hz <;> omega

theorem compareNames_eq_zero {s t : VacmString} : compareNames s t = 0 ↔ s = t := by
  rw [← memcmp_octets, VacmString.octets, VacmString.octets, memcmp_lengthPrefixed s.fits t.fits]
  exact VacmString.ext_iff.symm

/-! ## the index -/

/-- Group, context prefix, model and level. -/
abbrev Index := VacmString × VacmString × Int × Int

def AccessEntry.index (e : AccessEntry) : Index :=
  (e.groupName, e.contextPrefix, e.securityModel, e.securityLevel)

def indexCompare : Index → Index → Int :=
  lexCompare (fun a b => compareNames a.1 b.1) <| lexCompare (fun a b => compareNames a.2.1 b.2.1) <|
    lexCompare (fun a b => intCompare a.2.2.1 b.2.2.1) fun a b => intCompare a.2.2.2 b.2.2.2

theorem indexCompare_total : TotalCompare indexCompare :=
  Lib.lexCompare_total (compareNames_total.comap Prod.fst) <|
    Lib.lexCompare_total (compareNames_total.comap fun a : Index => a.2.1) <|
      Lib.lexCompare_total (Lib.intCompare_total.comap fun a : Index => a.2.2.1)
        (Lib.intCompare_total.comap fun a : Index => a.2.2.2)

theorem indexCompare_eq_zero {a b : Index} : indexCompare a b = 0 ↔ a = b := by
  obtain ⟨g, c, m, l⟩ := a
  obtain ⟨g', c', m', l'⟩ := b
  rw [indexCompare, Lib.lexCompare_eq_zero, Lib.lexCompare_eq_zero, Lib.lexCompare_eq_zero, compareNames_eq_zero,
    compareNames_eq_zero, Lib.intCompare_eq_zero, Lib.intCompare_eq_zero, Prod.mk.injEq, Prod.mk.injEq, Prod.mk.injEq]

theorem stopsAt_iff (vp lp : AccessEntry) : stopsAt vp lp = true ↔ 0 < indexCompare lp.index vp.index := by
  simp only [stopsAt, memcmp_octets, indexCompare, lexCompare, intCompare, AccessEntry.index]
  split_ifs <;> simp <;> omega

/-! ## ordered tables -/

/-- No entry has a smaller index than one before it. -/
def Ordered (table : List AccessEntry) : Prop :=
  (table.map AccessEntry.index).Pairwise fun a b => indexCompare a b ≤ 0

variable {table : List AccessEntry}

theorem ordered_iff : Ordered table ↔ table.Pairwise fun a b => indexCompare a.index b.index ≤ 0 :=
  pairwise_map

theorem mem_link {vp e : AccessEntry} : e ∈ link vp table ↔ e = vp ∨ e ∈ table := by
  induction table with
  | nil => simp [link]
  | cons lp rest ih =>
    rw [link]
    by_cases h : stopsAt vp lp
    · rw [if_pos h, mem_cons]
    · rw [if_neg h, mem_cons, ih, mem_cons]
      tauto

theorem Ordered.link (h : Ordered table) (vp : AccessEntry) : Ordered (link vp table) := by
  rw [ordered_iff] at h ⊢
  induction table with
  | nil => exact pairwise_singleton _ _
  | cons lp rest ih =>
    obtain ⟨hlp, hrest⟩ := pairwise_cons.mp h
    rw [AccessControl.link]
    by_cases hstop : stopsAt vp lp
    · have hlt : indexCompare vp.index lp.index < 0 := (indexCompare_total.swap _ _).mpr ((stopsAt_iff vp lp).mp hstop)
      rw [if_pos hstop]
      refine pairwise_cons.mpr ⟨?_, h⟩
      intro e he
      rcases mem_cons.mp he with rfl | he'
      · exact le_of_lt hlt
      · exact le_of_lt (indexCompare_total.lt_of_lt_of_le hlt (hlp e he'))
    · rw [if_neg hstop]
      refine pairwise_cons.mpr ⟨?_, ih hrest⟩
      intro e he
      rcases mem_link.mp he with rfl | he'
      · exact not_lt.mp fun h => hstop ((stopsAt_iff e lp).mpr h)
      · exact hlp e he'

theorem link_last {vp : AccessEntry}
    (h : ∀ e ∈ table, indexCompare e.index vp.index ≤ 0) : link vp table = table ++ [vp] := by
  induction table with
  | nil => rfl
  | cons lp rest ih =>
    have hgo : ¬ stopsAt vp lp = true := fun hs => absurd ((stopsAt_iff vp lp).mp hs) (not_lt.mpr (h lp mem_cons_self))
    rw [link, if_neg hgo, ih fun e he => h e (mem_cons_of_mem lp he), cons_append]

theorem map_index_modify (table : List AccessEntry) (n : Nat) (m s : Int) (v : List Text) :
    (table.modify n fun e => e.fill m s v).map AccessEntry.index = table.map AccessEntry.index := by
  induction table generalizing n with
  | nil => rw [modify_nil]
  | cons e rest ih =>
    cases n with
    | zero => rfl
    | succ n => rw [modify_succ_cons, map_cons, ih, map_cons]

theorem Ordered.apply (h : Ordered table) (op : Op) : Ordered (op.apply table) := by
  cases op with
  | create g c m l =>
    rw [Op.apply, createAccessEntry]
    split_ifs
    · exact h.link _
    · exact h
    · exact h
  | fill n m s v =>
    rw [Op.apply, Ordered, map_index_modify]
    exact h
  | destroy g c m l => exact List.Pairwise.sublist (eraseP_sublist.map _) h

theorem Reachable.ordered (h : Reachable table) : Ordered table := by
  obtain ⟨ops, rfl⟩ := h
  suffices hall : ∀ table, Ordered table → Ordered (ops.foldl Op.apply table) from hall [] List.Pairwise.nil
  induction ops with
  | nil => exact fun _ h => h
  | cons op ops ih => exact fun table h => ih _ (h.apply op)

theorem modify_last {α : Type} (xs : List α) (x : α) (f : α → α) : (xs ++ [x]).modify xs.length f = xs ++ [f x] := by
  induction xs with
  | nil => rfl
  | cons y ys ih => rw [cons_append, length_cons, modify_succ_cons, ih, cons_append]

theorem Reachable.append (h : Reachable table) {e : AccessEntry}
    (hlast : ∀ a ∈ table, indexCompare a.index e.index ≤ 0) : Reachable (table ++ [e]) := by
  obtain ⟨ops, rfl⟩ := h
  refine ⟨ops ++ [.create e.groupName.text e.contextPrefix.text e.securityModel e.securityLevel,
    .fill (ops.foldl Op.apply []).length e.contextMatch e.status e.views], ?_⟩
  have hnew : link (newEntry e.groupName e.contextPrefix e.securityModel e.securityLevel) (ops.foldl Op.apply []) =
      ops.foldl Op.apply [] ++ [newEntry e.groupName e.contextPrefix e.securityModel e.securityLevel] :=
    link_last hlast
  rw [foldl_append, foldl_cons, foldl_cons, foldl_nil, Op.apply, Op.apply, createAccessEntry,
    dif_pos e.groupName.fits, dif_pos e.contextPrefix.fits, Option.map_some, Option.getD_some]
  show (link (newEntry e.groupName e.contextPrefix e.securityModel e.securityLevel) (ops.foldl Op.apply [])).modify
    (ops.foldl Op.apply []).length _ = _
  rw [hnew, modify_last]
  rfl

theorem Ordered.reachable (h : Ordered table) : Reachable table := by
  induction table using reverseRecOn with
  | nil => exact ⟨[], rfl⟩
  | append_singleton table e ih =>
    rw [ordered_iff, pairwise_append] at h
    exact (ih (ordered_iff.mpr h.1)).append fun a ha => h.2.2 a ha e mem_cons_self

theorem reachable_iff_ordered : Reachable table ↔ Ordered table :=
  ⟨Reachable.ordered, Ordered.reachable⟩

end Priot.AccessControl
