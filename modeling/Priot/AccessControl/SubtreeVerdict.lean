/-
# The verdict about a subtree

What decides about an OID below a subtree is either the entry that decides about the subtree itself, or one of the
longer ones, of which all have the same type.
-/
import Priot.AccessControl.View

namespace Priot.AccessControl

open Lib
open List hiding choose

variable {vp r a : ViewEntry} {ignoreMask : Bool} {mask : UInt8} {maskpos n : Nat} {s t x y : ObjId}
  {viewName : Text} {head : List ViewEntry} {vpShorter vpLonger lo sh : Option ViewEntry}

/-! ## entries below a subtree -/

theorem matchLoop_append (h : y.length ≤ s.length) :
    matchLoop vp ignoreMask mask maskpos (s ++ t) y = matchLoop vp ignoreMask mask maskpos s y := by
  induction s generalizing y mask maskpos with
  | nil =>
    obtain rfl := length_eq_zero_iff.mp (Nat.le_zero.mp h)
    cases t <;> rfl
  | cons v s ih =>
    cases y with
    | nil => rfl
    | cons w y =>
      have hy : y.length ≤ s.length := Nat.succ_le_succ_iff.mp h
      rw [cons_append, matchLoop, matchLoop, ih hy, ih hy]

theorem matchLoop_of_append (h : matchLoop vp ignoreMask mask maskpos (s ++ t) y = true) :
    matchLoop vp ignoreMask mask maskpos s y = true := by
  induction s generalizing y mask maskpos with
  | nil => cases y <;> rfl
  | cons v s ih =>
    cases y with
    | nil => rfl
    | cons w y =>
      rw [cons_append, matchLoop] at h
      rw [matchLoop]
      by_cases hdiffers : (ignoreMask = true ∨ vp.maskAt maskpos mask ≠ 0) ∧ v ≠ w
      · rw [if_pos hdiffers] at h
        exact absurd h Bool.false_ne_true
      · rw [if_neg hdiffers] at h ⊢
        by_cases hmask : mask = 1
        · rw [if_pos hmask] at h ⊢
          exact ih h
        · rw [if_neg hmask] at h ⊢
          exact ih h

theorem viewSelects_iff : viewSelects viewName x .find vp = true ↔
    vp.inView viewName = true ∧ vp.viewSubtree.length ≤ x.length ∧ vp.found false x = true := by
  rw [viewSelects, Bool.and_eq_true, Bool.and_eq_true, decide_eq_true_eq, and_assoc]
  rfl

theorem viewSelects_append (h : vp.viewSubtree.length ≤ s.length) :
    viewSelects viewName (s ++ t) .find vp = true ↔ viewSelects viewName s .find vp = true := by
  have hfound : vp.found false (s ++ t) = vp.found false s := matchLoop_append h
  have hlen : vp.viewSubtree.length ≤ (s ++ t).length := by
    rw [length_append]
    omega
  rw [viewSelects_iff, viewSelects_iff, hfound, and_iff_right hlen, and_iff_right h]

/-! ## what the two functions keep -/

/-- The entries that match, in their order. -/
def selected (viewName : Text) (x : ObjId) (head : List ViewEntry) : List ViewEntry :=
  head.filter (viewSelects viewName x .find)

theorem foldl_viewStep (best : Option ViewEntry) :
    (head.foldl (viewStep viewName x .find) (n, best)).2 = (selected viewName x head).foldl (choose longer) best := by
  unfold selected
  induction head generalizing n best with
  | nil => rfl
  | cons vp head ih =>
    rw [foldl_cons, filter_cons, viewStep]
    by_cases h : viewSelects viewName x .find vp = true
    · rw [if_pos h, if_pos h, foldl_cons, if_neg (by decide)]
      exact ih _
    · rw [if_neg h, if_neg h]
      exact ih best

theorem viewGet_find (hname : viewName.length ≤ VACM_MAX_STRING) :
    viewGet head viewName x .find = (selected viewName x head).foldl (choose longer) none := by
  rw [viewGet, if_neg (Nat.not_lt.mpr hname)]
  show (if _ ∧ _ then none else _) = _
  rw [if_neg fun h => absurd h.1 (by decide), foldl_viewStep]

theorem length_le_of_kept {l : List ViewEntry} (h : l.foldl (choose longer) (some a) = some r) :
    a.viewSubtree.length ≤ r.viewSubtree.length ∧ ∀ e ∈ l, e.viewSubtree.length ≤ r.viewSubtree.length := by
  induction l generalizing a with
  | nil =>
    obtain rfl := Option.some.inj h
    exact ⟨Nat.le_refl _, fun e he => absurd he not_mem_nil⟩
  | cons e l ih =>
    rw [foldl_cons, choose] at h
    by_cases hl : longer a e
    · rw [if_pos hl] at h
      obtain ⟨he, hrest⟩ := ih h
      have hae : a.viewSubtree.length ≤ e.viewSubtree.length := by
        rcases hl with hlt | ⟨heq, -⟩
        · exact Nat.le_of_lt hlt
        · exact Nat.le_of_eq heq.symm
      exact ⟨Nat.le_trans hae he, forall_mem_cons.mpr ⟨he, hrest⟩⟩
    · rw [if_neg hl] at h
      obtain ⟨ha, hrest⟩ := ih h
      have hea : e.viewSubtree.length ≤ a.viewSubtree.length := by
        by_contra hlt
        exact hl (.inl (Nat.lt_of_not_le hlt))
      exact ⟨ha, forall_mem_cons.mpr ⟨Nat.le_trans hea ha, hrest⟩⟩

theorem length_le_of_first {l : List ViewEntry} (h : l.foldl (choose longer) none = some r) :
    ∀ e ∈ l, e.viewSubtree.length ≤ r.viewSubtree.length := by
  cases l with
  | nil => exact fun e he => absurd he not_mem_nil
  | cons e l => exact forall_mem_cons.mpr (length_le_of_kept h)

theorem mem_of_first {l : List ViewEntry} (h : l.foldl (choose longer) none = some r) : r ∈ l := by
  obtain ⟨l₁, l₂, rfl, -⟩ := Lib.foldl_choose_split h
  exact mem_append_right l₁ mem_cons_self

theorem checkLoop_spec (h : checkLoop viewName s vpShorter vpLonger head = some (sh, lo)) :
    sh = (selected viewName s head).foldl (choose longer) vpShorter ∧ (∀ l ∈ vpLonger, lo = some l) ∧
      ∀ vp ∈ head, vp.inView viewName = true → vp.found false s = true → s.length < vp.viewSubtree.length →
        ∃ l, lo = some l ∧ l.viewType = vp.viewType := by
  unfold selected
  induction head generalizing vpShorter vpLonger with
  | nil =>
    obtain ⟨rfl, rfl⟩ := Prod.mk.inj (Option.some.inj h)
    exact ⟨rfl, fun l hl => hl, fun vp hvp => absurd hvp not_mem_nil⟩
  | cons vp rest ih =>
    unfold checkLoop at h
    rw [filter_cons]
    by_cases hmatch : vp.inView viewName = true ∧ vp.found false s = true
    · rw [if_pos hmatch] at h
      by_cases hlen : vp.viewSubtree.length ≤ s.length
      · rw [if_pos hlen] at h
        rw [if_pos (viewSelects_iff.mpr ⟨hmatch.1, hlen, hmatch.2⟩), foldl_cons]
        obtain ⟨hsh, hlo, htypes⟩ := ih h
        refine ⟨hsh, hlo, fun vp' hvp' hin hfound hlong => ?_⟩
        rcases mem_cons.mp hvp' with rfl | hvp'
        · exact absurd hlong (Nat.not_lt.mpr hlen)
        · exact htypes vp' hvp' hin hfound hlong
      · rw [if_neg hlen] at h
        rw [if_neg fun hsel => hlen (viewSelects_iff.mp hsel).2.1]
        cases vpLonger with
        | none =>
          obtain ⟨hsh, hlo, htypes⟩ := ih h
          have hlo : lo = some vp := hlo vp rfl
          refine ⟨hsh, fun l hl => absurd hl (by simp), fun vp' hvp' hin hfound hlong => ?_⟩
          rcases mem_cons.mp hvp' with rfl | hvp'
          · exact ⟨vp', hlo, rfl⟩
          · exact htypes vp' hvp' hin hfound hlong
        | some l =>
          by_cases htype : l.viewType ≠ vp.viewType
          · have hnone := (if_pos htype).symm.trans h
            exact absurd hnone (by simp)
          · have h := (if_neg htype).symm.trans h
            obtain ⟨hsh, hlo, htypes⟩ := ih h
            refine ⟨hsh, hlo, fun vp' hvp' hin hfound hlong => ?_⟩
            rcases mem_cons.mp hvp' with rfl | hvp'
            · exact ⟨l, hlo l rfl, not_not.mp htype⟩
            · exact htypes vp' hvp' hin hfound hlong
    · rw [if_neg hmatch] at h
      rw [if_neg fun hsel => hmatch ⟨(viewSelects_iff.mp hsel).1, (viewSelects_iff.mp hsel).2.2⟩]
      obtain ⟨hsh, hlo, htypes⟩ := ih h
      refine ⟨hsh, hlo, fun vp' hvp' hin hfound hlong => ?_⟩
      rcases mem_cons.mp hvp' with rfl | hvp'
      · exact absurd ⟨hin, hfound⟩ hmatch
      · exact htypes vp' hvp' hin hfound hlong

/-! ## what decides below the subtree -/

theorem decides_below (hr : (selected viewName (s ++ t) head).foldl (choose longer) none = some r) :
    (selected viewName s head).foldl (choose longer) none = some r ∨
      r ∈ head ∧ r.inView viewName = true ∧ r.found false s = true ∧ s.length < r.viewSubtree.length := by
  by_cases hlen : r.viewSubtree.length ≤ s.length
  · left
    -- No entry that matches is longer than the one found, so the same entries match the subtree.
    have hsame : selected viewName (s ++ t) head = selected viewName s head := by
      refine filter_congr fun vp hvp => Bool.eq_iff_iff.mpr ?_
      by_cases hvplen : vp.viewSubtree.length ≤ s.length
      · exact viewSelects_append hvplen
      · refine iff_of_false (fun hsel => hvplen ?_) fun hsel => hvplen (viewSelects_iff.mp hsel).2.1
        exact Nat.le_trans (length_le_of_first hr vp (mem_filter.mpr ⟨hvp, hsel⟩)) hlen
    rw [← hsame]
    exact hr
  · right
    obtain ⟨hmem, hsel⟩ := mem_filter.mp (mem_of_first hr)
    obtain ⟨hin, -, hfound⟩ := viewSelects_iff.mp hsel
    exact ⟨hmem, hin, matchLoop_of_append hfound, Nat.lt_of_not_le hlen⟩

/-- An entry that decides about the subtree matches below it, so something is found there. -/
theorem found_below (hr : (selected viewName s head).foldl (choose longer) none = some r) (t : ObjId) :
    ∃ e, (selected viewName (s ++ t) head).foldl (choose longer) none = some e := by
  obtain ⟨hmem, hsel⟩ := mem_filter.mp (mem_of_first hr)
  have hmem' : r ∈ selected viewName (s ++ t) head :=
    mem_filter.mpr ⟨hmem, (viewSelects_append (viewSelects_iff.mp hsel).2.1).mpr hsel⟩
  refine Option.ne_none_iff_exists'.mp fun hnone => ?_
  rw [Lib.foldl_choose_eq_none_iff.mp hnone] at hmem'
  exact not_mem_nil hmem'

theorem verdict_success (h : verdict sh lo = VACM_SUCCESS) :
    ∃ e, sh = some e ∧ e.viewType ≠ PRIOT_VIEW_EXCLUDED ∧ ∀ l ∈ lo, l.viewType = e.viewType := by
  cases sh with
  | none =>
    cases lo with
    | none => exact absurd h (by decide)
    | some l =>
      simp only [verdict, Option.any_some, Option.any_none] at h
      split at h <;> exact absurd h (by decide)
  | some e =>
    by_cases htype : e.viewType ≠ PRIOT_VIEW_EXCLUDED
    · refine ⟨e, rfl, htype, fun l hl => ?_⟩
      obtain rfl := Option.mem_def.mp hl
      by_contra hne
      simp [verdict, hne] at h
      exact absurd h (by decide)
    · simp only [verdict, Option.any_some, htype] at h
      split at h <;> exact absurd h (by decide)

theorem verdict_notInView (h : verdict sh lo = VACM_NOTINVIEW) :
    (∀ e ∈ sh, e.viewType = PRIOT_VIEW_EXCLUDED) ∧ ∀ l ∈ lo, l.viewType = PRIOT_VIEW_EXCLUDED := by
  cases sh with
  | none =>
    refine ⟨fun e he => absurd he (by simp), fun l hl => ?_⟩
    obtain rfl := Option.mem_def.mp hl
    by_contra hne
    simp [verdict, hne] at h
    exact absurd h (by decide)
  | some e =>
    have htype : e.viewType = PRIOT_VIEW_EXCLUDED := by
      by_contra hne
      simp only [verdict, Option.any_some, ne_eq, hne] at h
      split at h <;> exact absurd h (by decide)
    refine ⟨fun e' he' => Option.some.inj (Option.mem_def.mp he') ▸ htype, fun l hl => ?_⟩
    obtain rfl := Option.mem_def.mp hl
    by_contra hne
    simp [verdict, htype, hne] at h
    exact absurd h (by decide)

/-- The verdict about a subtree holds for every OID below it. -/
theorem viewSubtreeCheck_sound (head : List ViewEntry) (viewName : Text) (s : ObjId) :
    (viewSubtreeCheck head viewName s = VACM_SUCCESS → ∀ x, s <+: x →
      ∃ e, viewGet head viewName x .find = some e ∧ e.viewType ≠ PRIOT_VIEW_EXCLUDED) ∧
    (viewSubtreeCheck head viewName s = VACM_NOTINVIEW → ∀ x, s <+: x →
      ∀ e, viewGet head viewName x .find = some e → e.viewType = PRIOT_VIEW_EXCLUDED) := by
  by_cases hname : viewName.length > VACM_MAX_STRING
  · have hget : ∀ x, viewGet head viewName x .find = none := fun x => if_pos hname
    have hcheck : viewSubtreeCheck head viewName s = VACM_NOTINVIEW := if_pos hname
    refine ⟨fun h => absurd (hcheck.symm.trans h) (by decide), fun _ x _ e he => ?_⟩
    rw [hget x] at he
    exact absurd he (by simp)
  · have hget : ∀ x, viewGet head viewName x .find = (selected viewName x head).foldl (choose longer) none :=
      fun x => viewGet_find (Nat.not_lt.mp hname)
    unfold viewSubtreeCheck
    rw [if_neg hname]
    cases hloop : checkLoop viewName s none none head with
    | none => exact ⟨fun h => absurd h (by decide), fun h => absurd h (by decide)⟩
    | some kept =>
      obtain ⟨sh, lo⟩ := kept
      obtain ⟨hsh, -, htypes⟩ := checkLoop_spec hloop
      constructor
      · rintro h x ⟨t, rfl⟩
        obtain ⟨e, rfl, htype, hsame⟩ := verdict_success h
        obtain ⟨r, hr⟩ := found_below hsh.symm t
        refine ⟨r, (hget _).trans hr, ?_⟩
        rcases decides_below hr with hs | ⟨hmem, hin, hfound, hlong⟩
        · obtain rfl := Option.some.inj (hsh.trans hs)
          exact htype
        · obtain ⟨l, rfl, hl⟩ := htypes r hmem hin hfound hlong
          rw [← hl, hsame l rfl]
          exact htype
      · rintro h x ⟨t, rfl⟩ r hr
        obtain ⟨hexcluded, hall⟩ := verdict_notInView h
        rcases decides_below ((hget _).symm.trans hr) with hs | ⟨hmem, hin, hfound, hlong⟩
        · exact hexcluded r (hsh.trans hs)
        · obtain ⟨l, rfl, hl⟩ := htypes r hmem hin hfound hlong
          rw [← hl]
          exact hall l rfl

end Priot.AccessControl
