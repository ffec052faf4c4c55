/-
# The two lists of results match

An entry of one list has its match in the other: the entry with the same name, or a dummy. Entries of the old list
behind the last new one have none.
-/
import Priot.MteTrigger.Trigger
import Mathlib.Order.Basic
import Mathlib.Data.List.Pairwise
import Mathlib.Tactic.Cases

namespace Priot.MteTrigger

open List

/-- Entries by increasing names. -/
abbrev Increasing (l : List VarBind) : Prop := l.Pairwise fun u v => u.name < v.name

/-- The pairs that the new results and the old list come to. -/
inductive Matches (N M : List VarBind) : VarBind × VarBind → Prop
  | both {u o : VarBind} (hu : u ∈ N) (ho : o ∈ M) (hname : u.name = o.name) :
      Matches N M ({ u with index := o.index }, o)
  | appeared {u : VarBind} (hu : u ∈ N) (hnew : ∀ o ∈ M, o.name ≠ u.name) :
      Matches N M ({ u with index := armedAll }, dummy u.name asnNULL)
  | disappeared {o : VarBind} (ho : o ∈ M) (hreal : o.type ≠ asnNULL) (hgone : ∀ u ∈ N, u.name ≠ o.name)
      (hbefore : ∃ u ∈ N, o.name < u.name) : Matches N M (dummy o.name asnNULL, o)

variable {N M : List VarBind} {vp1 vp2 : VarBind} {x : VarBind × VarBind} {r : List VarBind × List VarBind}

/-! ## one round -/

theorem matches_nil : ¬ Matches [] M x := by
  intro h
  cases h with
  | both hu => exact absurd hu not_mem_nil
  | appeared hu => exact absurd hu not_mem_nil
  | disappeared _ _ _ hbefore => exact absurd hbefore.choose_spec.1 not_mem_nil

theorem matches_end : Matches (vp1 :: N) [] x ↔
    x = ({ vp1 with index := armedAll }, dummy vp1.name asnNULL) ∨ Matches N [] x := by
  constructor
  · intro h
    cases h with
    | both _ ho => exact absurd ho not_mem_nil
    | disappeared ho => exact absurd ho not_mem_nil
    | appeared hu hnew =>
      rcases mem_cons.mp hu with rfl | hu
      · exact .inl rfl
      · exact .inr (.appeared hu hnew)
  · rintro (rfl | h)
    · exact .appeared mem_cons_self fun o ho => absurd ho not_mem_nil
    · cases h with
      | both _ ho => exact absurd ho not_mem_nil
      | disappeared ho => exact absurd ho not_mem_nil
      | appeared hu hnew => exact .appeared (mem_cons_of_mem _ hu) hnew

theorem matches_lt (hM : ∀ o ∈ M, vp1.name < o.name) : Matches (vp1 :: N) M x ↔
    x = ({ vp1 with index := armedAll }, dummy vp1.name asnNULL) ∨ Matches N M x := by
  constructor
  · intro h
    cases h with
    | both hu ho hname =>
      rcases mem_cons.mp hu with rfl | hu
      · exact absurd hname (hM _ ho).ne
      · exact .inr (.both hu ho hname)
    | appeared hu hnew =>
      rcases mem_cons.mp hu with rfl | hu
      · exact .inl rfl
      · exact .inr (.appeared hu hnew)
    | disappeared ho hreal hgone hbefore =>
      refine .inr (.disappeared ho hreal (fun u hu => hgone u (mem_cons_of_mem _ hu)) ?_)
      obtain ⟨u, hu, hlt⟩ := hbefore
      rcases mem_cons.mp hu with rfl | hu
      · exact absurd hlt (hM _ ho).not_gt
      · exact ⟨u, hu, hlt⟩
  · rintro (rfl | h)
    · exact .appeared mem_cons_self fun o ho => (hM o ho).ne'
    · cases h with
      | both hu ho hname => exact .both (mem_cons_of_mem _ hu) ho hname
      | appeared hu hnew => exact .appeared (mem_cons_of_mem _ hu) hnew
      | disappeared ho hreal hgone hbefore =>
        refine .disappeared ho hreal ?_ ?_
        · rw [forall_mem_cons]
          exact ⟨(hM _ ho).ne, hgone⟩
        · obtain ⟨u, hu, hlt⟩ := hbefore
          exact ⟨u, mem_cons_of_mem _ hu, hlt⟩

theorem matches_eq (hname : vp1.name = vp2.name) (hN : ∀ u ∈ N, vp1.name < u.name) (hM : ∀ o ∈ M, vp2.name < o.name) :
    Matches (vp1 :: N) (vp2 :: M) x ↔ x = ({ vp1 with index := vp2.index }, vp2) ∨ Matches N M x := by
  constructor
  · intro h
    cases h with
    | both hu ho heq =>
      rcases mem_cons.mp hu with rfl | hu
      · rcases mem_cons.mp ho with rfl | ho
        · exact .inl rfl
        · exact absurd (hname.symm.trans heq) (hM _ ho).ne
      · rcases mem_cons.mp ho with rfl | ho
        · exact absurd (hname.trans heq.symm) (hN _ hu).ne
        · exact .inr (.both hu ho heq)
    | appeared hu hnew =>
      rcases mem_cons.mp hu with rfl | hu
      · exact absurd hname.symm (hnew _ mem_cons_self)
      · exact .inr (.appeared hu fun o ho => hnew o (mem_cons_of_mem _ ho))
    | disappeared ho hreal hgone hbefore =>
      rcases mem_cons.mp ho with rfl | ho
      · exact absurd hname (hgone _ mem_cons_self)
      · refine .inr (.disappeared ho hreal (fun u hu => hgone u (mem_cons_of_mem _ hu)) ?_)
        obtain ⟨u, hu, hlt⟩ := hbefore
        rcases mem_cons.mp hu with rfl | hu
        · rw [hname] at hlt
          exact absurd hlt (hM _ ho).not_gt
        · exact ⟨u, hu, hlt⟩
  · rintro (rfl | h)
    · exact .both mem_cons_self mem_cons_self hname
    · cases h with
      | both hu ho heq => exact .both (mem_cons_of_mem _ hu) (mem_cons_of_mem _ ho) heq
      | appeared hu hnew =>
        refine .appeared (mem_cons_of_mem _ hu) ?_
        rw [forall_mem_cons, ← hname]
        exact ⟨(hN _ hu).ne, hnew⟩
      | disappeared ho hreal hgone hbefore =>
        refine .disappeared (mem_cons_of_mem _ ho) hreal ?_ ?_
        · rw [forall_mem_cons, hname]
          exact ⟨(hM _ ho).ne, hgone⟩
        · obtain ⟨u, hu, hlt⟩ := hbefore
          exact ⟨u, mem_cons_of_mem _ hu, hlt⟩

theorem matches_gt (hlt : vp2.name < vp1.name) (hN : ∀ u ∈ N, vp1.name < u.name) : Matches (vp1 :: N) (vp2 :: M) x ↔
      vp2.type ≠ asnNULL ∧ x = (dummy vp2.name asnNULL, vp2) ∨ Matches (vp1 :: N) M x := by
  have hall : ∀ u ∈ vp1 :: N, vp2.name < u.name := by
    rw [forall_mem_cons]
    exact ⟨hlt, fun u hu => hlt.trans (hN u hu)⟩
  constructor
  · intro h
    cases h with
    | both hu ho heq =>
      rcases mem_cons.mp ho with rfl | ho
      · exact absurd heq (hall _ hu).ne'
      · exact .inr (.both hu ho heq)
    | appeared hu hnew => exact .inr (.appeared hu fun o ho => hnew o (mem_cons_of_mem _ ho))
    | disappeared ho hreal hgone hbefore =>
      rcases mem_cons.mp ho with rfl | ho
      · exact .inl ⟨hreal, rfl⟩
      · exact .inr (.disappeared ho hreal hgone hbefore)
  · rintro (⟨hreal, rfl⟩ | h)
    · exact .disappeared mem_cons_self hreal (fun u hu => (hall u hu).ne') ⟨vp1, mem_cons_self, hlt⟩
    · cases h with
      | both hu ho heq => exact .both hu (mem_cons_of_mem _ ho) heq
      | appeared hu hnew =>
        refine .appeared hu ?_
        rw [forall_mem_cons]
        exact ⟨(hall _ hu).ne, hnew⟩
      | disappeared ho hreal hgone hbefore => exact .disappeared (mem_cons_of_mem _ ho) hreal hgone hbefore

/-! ## all rounds -/

/-- What the loop is to come to: each new entry has its match in the old list, in order. -/
structure Merged (N M : List VarBind) (r : List VarBind × List VarBind) : Prop where
  length : r.1.length ≤ r.2.length
  mem : ∀ x, x ∈ r.1.zip r.2 ↔ Matches N M x
  increasing : Increasing r.1

theorem Merged.name (h : Merged N M r) {v : VarBind} (hv : v ∈ r.1) : ∃ o, Matches N M (v, o) := by
  obtain ⟨i, hi, rfl⟩ := mem_iff_getElem.mp hv
  have hi' : i < r.2.length := Nat.lt_of_lt_of_le hi h.length
  have hzip : i < (r.1.zip r.2).length := by
    rw [length_zip]
    exact lt_min hi hi'
  refine ⟨r.2[i], (h.mem _).mp (mem_iff_getElem.mpr ⟨i, hzip, getElem_zip⟩)⟩

theorem Merged.cons {N' M' : List VarBind} {v o : VarBind} (h : Merged N M r)
    (hmem : ∀ x, Matches N' M' x ↔ x = (v, o) ∨ Matches N M x) (hlt : ∀ x, Matches N M x → v.name < x.1.name) :
    Merged N' M' (v :: r.1, o :: r.2) where
  length := Nat.succ_le_succ h.length
  mem x := by
    rw [zip_cons_cons, mem_cons, h.mem, hmem]
  increasing := by
    refine pairwise_cons.mpr ⟨?_, h.increasing⟩
    intro u hu
    obtain ⟨o', ho'⟩ := h.name hu
    exact hlt _ ho'

theorem Matches.lt {name : Name} (h : Matches N M x) (hN : ∀ u ∈ N, name < u.name) (hM : ∀ o ∈ M, name < o.name) :
    name < x.1.name := by
  cases h with
  | both hu =>
    have hlt := hN _ hu
    exact hlt
  | appeared hu =>
    have hlt := hN _ hu
    exact hlt
  | disappeared ho =>
    have hlt := hM _ ho
    exact hlt

/-! The rounds of `mergeEntry`. -/

section Rounds

variable (rest : Bool → List VarBind → List VarBind × List VarBind) (prev : Bool) (M : List VarBind)

theorem mergeEntry_nil : mergeEntry vp1 rest true [] =
    ({ vp1 with index := armedAll } :: (rest true []).1, dummy vp1.name asnNULL :: (rest true []).2) := rfl

theorem mergeEntry_lt (h : vp1.name < vp2.name) : mergeEntry vp1 rest prev (vp2 :: M) =
    ({ vp1 with index := armedAll } :: (rest true (vp2 :: M)).1,
      dummy vp1.name asnNULL :: (rest true (vp2 :: M)).2) := by
  rw [mergeEntry, if_pos h]

theorem mergeEntry_eq (h : vp1.name = vp2.name) : mergeEntry vp1 rest prev (vp2 :: M) =
    ({ vp1 with index := vp2.index } :: (rest true M).1, vp2 :: (rest true M).2) := by
  rw [mergeEntry, if_neg (h ▸ lt_irrefl _), if_pos h]

theorem mergeEntry_real (h : vp2.name < vp1.name) (hreal : vp2.type ≠ asnNULL) : mergeEntry vp1 rest prev (vp2 :: M) =
      (dummy vp2.name asnNULL :: (mergeEntry vp1 rest true M).1, vp2 :: (mergeEntry vp1 rest true M).2) := by
  rw [mergeEntry, if_neg h.not_gt, if_neg h.ne', if_pos hreal]

theorem mergeEntry_dummy (h : vp2.name < vp1.name) (hnull : vp2.type = asnNULL) :
    mergeEntry vp1 rest prev (vp2 :: M) = mergeEntry vp1 rest prev M := by
  rw [mergeEntry, if_neg h.not_gt, if_neg h.ne', if_neg (not_not_intro hnull)]

end Rounds

theorem merge_spec (N : List VarBind) (M : List VarBind) (prev : Bool) (hflat : ∀ u ∈ N, flatten u = u)
    (hN : Increasing N) (hM : Increasing M) (hprev : prev = true ∨ ∃ o ∈ M, o.type ≠ asnNULL) :
    Merged N M (merge N prev M) := by
  induction N generalizing M prev with
  | nil =>
    refine ⟨Nat.zero_le _, fun x => ?_, List.Pairwise.nil⟩
    exact iff_of_false not_mem_nil matches_nil
  | cons vp1 N ih =>
    obtain ⟨hfirst, hN⟩ := pairwise_cons.mp hN
    have hrest := fun u hu => hflat u (mem_cons_of_mem vp1 hu)
    rw [merge, hflat vp1 mem_cons_self]
    induction M generalizing prev with
    | nil =>
      have htrue : prev = true := hprev.resolve_right fun h => absurd h.choose_spec.1 not_mem_nil
      subst htrue
      rw [mergeEntry_nil]
      refine (ih [] true hrest hN hM hprev).cons (fun x => matches_end) fun x hx => ?_
      exact hx.lt hfirst fun o ho => absurd ho not_mem_nil
    | cons vp2 M ihM =>
      obtain ⟨hnext, hM'⟩ := pairwise_cons.mp hM
      by_cases hlt : vp1.name < vp2.name
      · have hall : ∀ o ∈ vp2 :: M, vp1.name < o.name := by
          rw [forall_mem_cons]
          exact ⟨hlt, fun o ho => hlt.trans (hnext o ho)⟩
        rw [mergeEntry_lt _ _ _ hlt]
        refine (ih (vp2 :: M) true hrest hN hM (.inl rfl)).cons (fun x => matches_lt hall) fun x hx => ?_
        exact hx.lt hfirst hall
      · by_cases heq : vp1.name = vp2.name
        · rw [mergeEntry_eq _ _ _ heq]
          refine (ih M true hrest hN hM' (.inl rfl)).cons (fun x => matches_eq heq hfirst hnext) fun x hx => ?_
          refine hx.lt hfirst ?_
          rw [heq]
          exact hnext
        · have hgt : vp2.name < vp1.name := lt_of_le_of_ne (not_lt.mp hlt) (Ne.symm heq)
          by_cases hreal : vp2.type ≠ asnNULL
          · rw [mergeEntry_real _ _ _ hgt hreal]
            refine (ihM true hM' (.inl rfl)).cons (fun x => ?_) fun x hx => ?_
            · rw [matches_gt hgt hfirst, and_iff_right hreal]
            · refine hx.lt ?_ hnext
              rw [forall_mem_cons]
              exact ⟨hgt, fun u hu => hgt.trans (hfirst u hu)⟩
          · -- a dummy of the run before is dropped
            have hprev' : prev = true ∨ ∃ o ∈ M, o.type ≠ asnNULL := by
              refine hprev.imp_right ?_
              rintro ⟨o, ho, hne⟩
              rcases mem_cons.mp ho with rfl | ho
              · exact absurd hne hreal
              · exact ⟨o, ho, hne⟩
            rw [mergeEntry_dummy _ _ _ hgt (not_not.mp hreal)]
            have hmerged := ihM prev hM' hprev'
            refine ⟨hmerged.length, fun x => ?_, hmerged.increasing⟩
            rw [hmerged.mem, matches_gt hgt hfirst]
            exact (or_iff_right fun h => hreal h.1).symm

theorem merge_first (N : List VarBind) (hflat : ∀ u ∈ N, flatten u = u) :
    merge N false [] = (N.map fun u => { u with index := armedAll }, []) := by
  induction N with
  | nil => rfl
  | cons vp1 N ih =>
    rw [merge, hflat vp1 mem_cons_self, mergeEntry, ih fun u hu => hflat u (mem_cons_of_mem vp1 hu)]
    rfl

end Priot.MteTrigger
