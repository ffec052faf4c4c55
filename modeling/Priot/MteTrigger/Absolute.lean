/-
# A run on absolute samples

A run on absolute samples makes of each entry what the tests of that entry alone make of it and its match. The events
are those of the entries, each fired once.
-/
import Priot.MteTrigger.Evaluate

namespace Priot.MteTrigger

open List

variable {t : Trigger} {var old N M : List VarBind} {v o : VarBind} {st : State} {r : Reading}

/-! ## the loops -/

/-- The entries with their matches. Without an old list, dummies are taken for these. -/
def pairs (var old : List VarBind) : List (VarBind × VarBind) :=
  if old = [] then var.map fun v => (v, dummy v.name asnNULL) else var.zip old

theorem pairs_fst (hlen : old = [] ∨ var.length ≤ old.length) : (pairs var old).map Prod.fst = var := by
  unfold pairs
  split
  case isTrue h =>
    rw [map_map]
    exact map_id var
  case isFalse h => exact map_fst_zip (hlen.resolve_left h)

theorem pairs_map (g : VarBind → VarBind) (hg : ∀ v, (g v).name = v.name) :
    pairs (var.map g) old = (pairs var old).map fun x => (g x.1, x.2) := by
  unfold pairs
  split
  · rw [map_map, map_map]
    refine map_congr_left fun v _ => ?_
    change (g v, dummy (g v).name asnNULL) = (g v, dummy v.name asnNULL)
    rw [hg]
  · rw [zip_map_left]
    rfl

/-- A pair that the tests can be made of. -/
def ReadablePair (x : VarBind × VarBind) : Prop :=
  Readable x.1 ∧ (x.2.type = asnNULL ∨ ∃ w, x.2.integer = some w)

theorem tests_absolute (hdelta : t.delta = false) (configured : Bool)
    (test : VarBind → BitVec 64 → VarBind × List Fired) (old dv1 dv2 : List VarBind) (hread : ∀ v ∈ var, Readable v) :
    ∃ evaluated, (if configured then testLoop t dv1 dv2 test var (if t.delta then old else [])
        else some ⟨var, [], []⟩) =
      some ⟨var.map fun v => (if configured then absolute test v else (v, [])).1, evaluated,
        var.flatMap fun v => (if configured then absolute test v else (v, [])).2⟩ := by
  cases configured with
  | true =>
    rw [hdelta, if_neg Bool.false_ne_true]
    exact testLoop_absolute hdelta dv1 dv2 test hread
  | false =>
    refine ⟨[], ?_⟩
    change some (⟨var, [], []⟩ : Tested) = some ⟨var.map fun v => v, [], var.flatMap fun _ => []⟩
    rw [map_id', flatMap_eq_nil_iff.mpr fun _ _ => rfl]

theorem booleanTests_absolute (hdelta : t.delta = false) (old dv1 dv2 : List VarBind) (hread : ∀ v ∈ var, Readable v) :
    ∃ evaluated, booleanTests t old dv1 dv2 var = some ⟨var.map fun v => (booleanStep t (old = []) v).1, evaluated,
      var.flatMap fun v => (booleanStep t (old = []) v).2⟩ :=
  tests_absolute hdelta (t.boolean && t.boolEvent) (booleanTest t (old = [])) old dv1 dv2 hread

theorem thresholdTests_absolute (hdelta : t.delta = false) (old dv1 dv2 : List VarBind)
    (hread : ∀ v ∈ var, Readable v) :
    ∃ evaluated, thresholdTests t old dv1 dv2 var = some ⟨var.map fun v => (thresholdStep t (old = []) v).1,
      evaluated, var.flatMap fun v => (thresholdStep t (old = []) v).2⟩ :=
  tests_absolute hdelta (t.threshold && (t.thRiseEvent || t.thFallEvent)) (thresholdTest t (old = [])) old dv1 dv2 hread

theorem deltaStep_null (t : Trigger) (v : VarBind) (h : o.type = asnNULL) : deltaStep t v o = (v, []) := by
  unfold deltaStep
  rw [if_pos (.inr h)]

theorem deltaThresholdTests_absolute (hdelta : t.delta = false) (hlen : old = [] ∨ var.length ≤ old.length)
    (hread : ∀ x ∈ pairs var old, ReadablePair x) :
    deltaThresholdTests t old var = some ((pairs var old).map fun x => (deltaThresholdStep t x.1 x.2).1,
      (pairs var old).flatMap fun x => (deltaThresholdStep t x.1 x.2).2) := by
  have hskip : (pairs var old).map Prod.fst = var := pairs_fst hlen
  unfold deltaThresholdTests deltaThresholdStep
  rw [hdelta]
  by_cases hconf : (t.threshold && (t.thDRiseEvent || t.thDFallEvent)) = true
  · by_cases hold : old = []
    · -- in the first run there is nothing to compare with
      have hnone : ∀ x ∈ pairs var old, deltaStep t x.1 x.2 = (x.1, []) := by
        intro x hx
        unfold pairs at hx
        rw [if_pos hold] at hx
        obtain ⟨v, -, rfl⟩ := mem_map.mp hx
        exact deltaStep_null t v rfl
      have hmap : ((pairs var old).map fun x => (deltaStep t x.1 x.2).1) = var := by
        rw [map_congr_left fun x hx => congrArg Prod.fst (hnone x hx)]
        exact hskip
      have hfired : ((pairs var old).flatMap fun x => (deltaStep t x.1 x.2).2) = [] :=
        flatMap_eq_nil_iff.mpr fun x hx => congrArg Prod.snd (hnone x hx)
      simp only [hconf, hold, ne_eq, not_true_eq_false, decide_false, Bool.and_false, Bool.false_eq_true, if_false,
        if_true] at hmap hfired ⊢
      rw [hmap, hfired]
    · have hpairs : pairs var old = var.zip old := if_neg hold
      rw [hpairs] at hread ⊢
      rw [hconf]
      simp only [ne_eq, hold, not_false_eq_true, decide_true, Bool.not_false, Bool.and_self, if_true]
      exact deltaThresholdLoop_eq t (hlen.resolve_left hold) hread
  · rw [Bool.not_eq_true] at hconf
    simp only [hconf, Bool.false_and, Bool.false_eq_true, if_false]
    rw [hskip, flatMap_eq_nil_iff.mpr fun _ _ => rfl]

/-! ## a run -/

theorem evaluate_absolute (st : State) (hdelta : t.delta = false) (sysUpTime : Int) (dvar : List VarBind)
    (existed : List Fired)
    (hlen : st.oldResults = [] ∨ var.length ≤ st.oldResults.length)
    (hread : ∀ x ∈ pairs var st.oldResults, ReadablePair x) :
    ∃ report, evaluate t st sysUpTime var dvar existed = some ({ st with
        oldResults := (pairs var st.oldResults).map fun x => (pass t (st.oldResults = []) x).1 }, report) ∧
      report.fired.Perm (existed ++ (pairs var st.oldResults).flatMap fun x => (pass t (st.oldResults = []) x).2) := by
  have hfst : (pairs var st.oldResults).map Prod.fst = var := pairs_fst hlen
  let b := fun v => booleanStep t (st.oldResults = []) v
  let h := fun v => thresholdStep t (st.oldResults = []) (b v).1
  have hb (v : VarBind) : Step v [.boolean] (b v) := booleanStep_step t (st.oldResults = []) v
  have hh (v : VarBind) : Step (b v).1 [.thRise, .thFall] (h v) := thresholdStep_step t (st.oldResults = []) (b v).1
  have hpairs : pairs (var.map fun v => (h v).1) st.oldResults =
      (pairs var st.oldResults).map fun x => ((h x.1).1, x.2) :=
    pairs_map (fun v => (h v).1) fun v => (hh v).named.trans (hb v).named
  have hvar : ∀ v ∈ var, Readable v := by
    intro v hv
    rw [← hfst] at hv
    obtain ⟨x, hx, rfl⟩ := mem_map.mp hv
    exact (hread x hx).1
  have hvar' : ∀ v ∈ var.map fun v => (b v).1, Readable v := by
    intro _ hmem
    obtain ⟨v, hv, rfl⟩ := mem_map.mp hmem
    exact (hb v).readable (hvar v hv)
  have hread' : ∀ x ∈ pairs (var.map fun v => (h v).1) st.oldResults, ReadablePair x := by
    rw [hpairs]
    intro _ hmem
    obtain ⟨x, hx, rfl⟩ := mem_map.mp hmem
    exact ⟨(hh x.1).readable ((hb x.1).readable (hread x hx).1), (hread x hx).2⟩
  have hlen' : st.oldResults = [] ∨ (var.map fun v => (h v).1).length ≤ st.oldResults.length := by
    rw [length_map]
    exact hlen
  obtain ⟨evaluated, hboolean⟩ := booleanTests_absolute hdelta st.oldResults dvar st.oldDeltaDs hvar
  obtain ⟨evaluated', hthreshold⟩ := thresholdTests_absolute hdelta st.oldResults dvar st.oldDeltaDs hvar'
  have hdeltas := deltaThresholdTests_absolute hdelta hlen' hread'
  have hthird : (var.map fun v => (b v).1).map (fun v => (thresholdStep t (st.oldResults = []) v).1) =
      var.map fun v => (h v).1 := by
    rw [map_map]
    rfl
  rw [hpairs, map_map, flatMap_map] at hdeltas
  refine ⟨⟨existed ++ (var.flatMap fun v => (b v).2) ++
    ((var.map fun v => (b v).1).flatMap fun v => (thresholdStep t (st.oldResults = []) v).2) ++
    ((pairs var st.oldResults).flatMap fun x => (deltaThresholdStep t (h x.1).1 x.2).2), evaluated, evaluated'⟩, ?_, ?_⟩
  · unfold evaluate
    rw [hboolean]
    simp only [Option.bind_eq_bind, Option.bind_some]
    rw [hthreshold]
    simp only [Option.bind_some]
    rw [hthird, hdeltas]
    simp only [Option.bind_some, hdelta, Bool.false_eq_true, if_false]
    rfl
  · -- the events test by test, and entry by entry
    have hb' : (var.flatMap fun v => (b v).2) = (pairs var st.oldResults).flatMap fun x => (b x.1).2 := by
      conv_lhs => rw [← hfst]
      rw [flatMap_map]
    have hh' : ((var.map fun v => (b v).1).flatMap fun v => (thresholdStep t (st.oldResults = []) v).2) =
        (pairs var st.oldResults).flatMap fun x => (h x.1).2 := by
      conv_lhs => rw [← hfst]
      rw [map_map, flatMap_map]
      rfl
    rw [hb', hh', append_assoc, append_assoc]
    refine List.Perm.append_left existed ?_
    refine (List.Perm.append_left _ (flatMap_append_perm _ _ _)).trans ?_
    exact flatMap_append_perm _ _ _

/-! ## the entries of a run -/

/-- What making the lists match comes to, in the first run as in later ones. -/
structure Paired (N M var old : List VarBind) : Prop where
  first : old = [] ↔ M = []
  length : old = [] ∨ var.length ≤ old.length
  mem : ∀ x, x ∈ pairs var old ↔ Matches N M x
  kept : Kept N var

/-- An old list that can be merged: none in the first run, or one with some value. -/
def Mergeable (M : List VarBind) : Prop := M = [] ∨ Increasing M ∧ ∃ o ∈ M, o.type ≠ asnNULL

theorem Result.merge_ne_nil (hN : Result N) (h : Kept N var) : var ≠ [] := by
  rintro rfl
  obtain ⟨u, hu⟩ := exists_mem_of_ne_nil _ hN.nonempty
  obtain ⟨v, hv, -⟩ := h.all u hu
  exact absurd hv not_mem_nil

theorem matches_first {x : VarBind × VarBind} :
    Matches N [] x ↔ ∃ u ∈ N, x = ({ u with index := armedAll }, dummy u.name asnNULL) := by
  constructor
  · intro hx
    cases hx with
    | both _ ho => exact absurd ho not_mem_nil
    | appeared hu => exact ⟨_, hu, rfl⟩
    | disappeared ho => exact absurd ho not_mem_nil
  · rintro ⟨u, hu, rfl⟩
    exact .appeared hu fun o ho => absurd ho not_mem_nil

theorem merge_paired (hN : Result N) (hM : Mergeable M) : Paired N M (merge N false M).1 (merge N false M).2 := by
  have hflat : ∀ u ∈ N, flatten u = u := fun u hu => (hN.ordinary u hu).flat
  by_cases hfirst : M = []
  · subst hfirst
    have hkept := Kept.first hN
    rw [merge_first N hflat] at hkept ⊢
    refine ⟨Iff.rfl, .inl rfl, fun x => ?_, hkept⟩
    have hpairs : pairs (N.map fun u => { u with index := armedAll }) [] =
        N.map fun u => ({ u with index := armedAll }, dummy u.name asnNULL) := by
      unfold pairs
      rw [if_pos rfl, map_map]
      rfl
    change x ∈ pairs (N.map fun u => { u with index := armedAll }) [] ↔ _
    rw [hpairs, mem_map, matches_first]
    simp only [eq_comm]
  · obtain ⟨hinc, hreal⟩ := hM.resolve_left hfirst
    have hmerged := merge_spec N M false hflat hN.increasing hinc (.inr hreal)
    have hkept : Kept N (merge N false M).1 := Merged.kept hmerged hN
    have hold : (merge N false M).2 ≠ [] := by
      intro hnil
      have hlen := hmerged.length
      rw [hnil, length_nil, Nat.le_zero, length_eq_zero_iff] at hlen
      exact hN.merge_ne_nil hkept hlen
    refine ⟨iff_of_false hold hfirst, .inr hmerged.length, fun x => ?_, hkept⟩
    unfold pairs
    rw [if_neg hold]
    exact hmerged.mem x

theorem Increasing.head_le (h : Increasing (v :: var)) (ho : o ∈ v :: var) : v.name ≤ o.name := by
  rcases mem_cons.mp ho with rfl | ho
  · exact le_refl _
  · exact ((pairwise_cons.mp h).1 o ho).le

theorem Paired.first_entry (h : Paired N M var old) (hN : Result N)
    (hhead : ∀ o ∈ M, o.type ≠ asnNULL → ∃ u ∈ N, u.name ≤ o.name) :
    ∃ u first rest, N.head? = some u ∧ var = first :: rest ∧ first = { u with index := first.index } := by
  obtain ⟨u, N', rfl⟩ := exists_cons_of_ne_nil hN.nonempty
  obtain ⟨first, rest, rfl⟩ := exists_cons_of_ne_nil (hN.merge_ne_nil h.kept)
  refine ⟨u, first, rest, rfl, rfl, ?_⟩
  -- no entry of a value comes before the first one
  have hle : ∀ q ∈ u :: N', first.name ≤ q.name := by
    intro q hq
    obtain ⟨w, hw, heq⟩ := h.kept.all q hq
    have hname : w.name = q.name := by rw [heq]
    rw [← hname]
    exact h.kept.increasing.head_le hw
  by_cases hreal : first.type = asnNULL
  · have hmem : first ∈ (pairs (first :: rest) old).map Prod.fst := by
      rw [pairs_fst h.length]
      exact mem_cons_self
    obtain ⟨x, hx, rfl⟩ := mem_map.mp hmem
    cases (h.mem x).mp hx with
    | @both q _ hq => exact absurd hreal (hN.ordinary q hq).real
    | @appeared q hq => exact absurd hreal (hN.ordinary q hq).real
    | @disappeared o ho hold hgone =>
      obtain ⟨q, hq, hqo⟩ := hhead o ho hold
      exact absurd (le_antisymm hqo (hle q hq)) (hgone q hq)
  · obtain ⟨q, hq, heq⟩ := h.kept.real first mem_cons_self hreal
    have hname : first.name = q.name := by rw [heq]
    have hsame : u.name = q.name := by
      refine le_antisymm (hN.increasing.head_le hq) ?_
      rw [← hname]
      exact hle u mem_cons_self
    rw [hN.increasing.unique mem_cons_self hq hsame]
    exact heq

theorem Paired.head (h : Paired N M var old) (hN : Result N) (haccepted : ∀ u ∈ N, accepted u.type = true)
    (hhead : ∀ o ∈ M, o.type ≠ asnNULL → ∃ u ∈ N, u.name ≤ o.name) :
    ∃ first, var.head? = some first ∧ accepted first.type = true := by
  obtain ⟨u, first, rest, hu, hvar, heq⟩ := h.first_entry hN hhead
  refine ⟨first, ?_, ?_⟩
  · rw [hvar]
    rfl
  · rw [heq]
    exact haccepted u (mem_of_mem_head? hu)

theorem Kept.map {l : List (VarBind × VarBind)} (h : Kept N (l.map Prod.fst)) (g : VarBind × VarBind → VarBind)
    (hg : ∀ x, g x = { x.1 with index := (g x).index }) : Kept N (l.map g) := by
  have hname : ∀ x, (g x).name = x.1.name := fun x => by rw [hg]
  have htype : ∀ x, (g x).type = x.1.type := fun x => by rw [hg]
  have hvalue : ∀ x, (g x).value = x.1.value := fun x => by rw [hg]
  refine ⟨?_, ?_, ?_, ?_⟩
  · refine pairwise_map.mpr ((pairwise_map.mp h.increasing).imp fun hlt => ?_)
    rw [hname, hname]
    exact hlt
  · intro w hw hreal
    obtain ⟨x, hx, rfl⟩ := mem_map.mp hw
    rw [htype] at hreal
    obtain ⟨u, hu, heq⟩ := h.real x.1 (mem_map_of_mem hx) hreal
    refine ⟨u, hu, ?_⟩
    rw [hg, heq]
  · intro u hu
    obtain ⟨v, hv, heq⟩ := h.all u hu
    obtain ⟨x, hx, rfl⟩ := mem_map.mp hv
    refine ⟨g x, mem_map_of_mem hx, ?_⟩
    rw [hg, heq]
  · intro w hw hnull
    obtain ⟨x, hx, rfl⟩ := mem_map.mp hw
    rw [htype] at hnull
    rw [hvalue, hname]
    exact h.null x.1 (mem_map_of_mem hx) hnull

/-- Exactly once if `p`, and never if not. -/
def Once (p : Prop) (n : Nat) : Prop := (p → n = 1) ∧ (¬ p → n = 0)

theorem once_count {l : List Fired} (h : l.Nodup) (f : Fired) : Once (f ∈ l) (l.count f) :=
  ⟨nodup_iff_count_eq_one.mp h f, count_eq_zero.mpr⟩

/-- What a run has made of the old list `M` and the results `N`: the list that it keeps, and the events. -/
structure Passed (t : Trigger) (N M M' : List VarBind) (fired : List Fired) : Prop where
  mem : ∀ w, w ∈ M' ↔ ∃ x, Matches N M x ∧ w = (pass t (M = []) x).1
  kept : Kept N M'
  fires : ∀ f, f.event ≠ .existence → Once (∃ x, Matches N M x ∧ f ∈ (pass t (M = []) x).2) (fired.count f)

theorem existenceTests_event (t : Trigger) (hlen : old = [] ∨ var.length ≤ old.length) :
    ∃ existed, existenceTests t var old = some existed ∧ ∀ f ∈ existed, f.event = .existence := by
  unfold existenceTests
  split
  · split
    · refine ⟨_, rfl, ?_⟩
      intro f hf
      unfold existenceStart at hf
      rcases mem_append.mp hf with hf | hf
      · rw [mem_ite_nil_right] at hf
        obtain ⟨v, -, rfl⟩ := mem_map.mp hf.2
        rfl
      · rw [mem_ite_nil_right] at hf
        obtain ⟨v, -, rfl⟩ := mem_map.mp hf.2
        rfl
    case isFalse h =>
      refine ⟨_, existenceLoop_eq t var old (hlen.resolve_left h), ?_⟩
      intro f hf
      obtain ⟨v, -, rfl⟩ := mem_map.mp hf
      rfl
  · exact ⟨[], rfl, fun f hf => absurd hf not_mem_nil⟩

theorem pass_nodup (t : Trigger) (first : Bool) (x : VarBind × VarBind) : (pass t first x).2.Nodup := by
  have hevents := (pass_step t first x).events
  exact List.Nodup.of_map Fired.event (hevents.nodup (by decide))

theorem passes_nodup (t : Trigger) (first : Bool) {l : List (VarBind × VarBind)}
    (h : Increasing (l.map Prod.fst)) : (l.flatMap fun x => (pass t first x).2).Nodup := by
  rw [nodup_flatMap]
  refine ⟨fun x _ => pass_nodup t first x, ?_⟩
  refine (pairwise_map.mp h).imp ?_
  intro x y hlt f hx hy
  have hname := ((pass_step t first x).name f hx).symm.trans ((pass_step t first y).name f hy)
  exact absurd hname hlt.ne

theorem Matches.readable {x : VarBind × VarBind} (hx : Matches N M x) (hread : ∀ u ∈ N, ∃ w, u.integer = some w)
    (hold : ∀ o ∈ M, o.type = asnNULL ∨ ∃ w, o.integer = some w) : ReadablePair x := by
  cases hx with
  | @both u _ hu ho =>
    have hinteger := hread u hu
    exact ⟨.inr hinteger, hold _ ho⟩
  | @appeared u hu =>
    have hinteger := hread u hu
    exact ⟨.inr hinteger, .inl rfl⟩
  | disappeared ho => exact ⟨.inl rfl, hold _ ho⟩

theorem run_absolute (hdelta : t.delta = false) (htests : (t.boolean || t.threshold) = true) (hN : Result r.var)
    (hM : Mergeable st.oldResults) (hread : ∀ u ∈ r.var, ∃ w, u.integer = some w)
    (hold : ∀ o ∈ st.oldResults, o.type = asnNULL ∨ ∃ w, o.integer = some w)
    (haccepted : ∀ u ∈ r.var, accepted u.type = true)
    (hhead : ∀ o ∈ st.oldResults, o.type ≠ asnNULL → ∃ u ∈ r.var, u.name ≤ o.name) :
    ∃ st' report, run t st r = some (st', report) ∧ Passed t r.var st.oldResults st'.oldResults report.fired := by
  have hpaired := merge_paired hN hM
  obtain ⟨existed, hexisted, hevent⟩ := existenceTests_event t hpaired.length
  obtain ⟨first, hfirst, hacc⟩ := hpaired.head hN haccepted hhead
  have hreadable : ∀ x ∈ pairs (merge r.var false st.oldResults).1 (merge r.var false st.oldResults).2,
      ReadablePair x := fun x hx => ((hpaired.mem x).mp hx).readable hread hold
  obtain ⟨report, hevaluate, hperm⟩ :=
    evaluate_absolute { st with oldResults := (merge r.var false st.oldResults).2 } hdelta r.sysUpTime [] existed
      hpaired.length hreadable
  have hsame : decide ((merge r.var false st.oldResults).2 = []) = decide (st.oldResults = []) :=
    decide_eq_decide.mpr hpaired.first
  have hrun : run t st r = evaluate t { st with oldResults := (merge r.var false st.oldResults).2 } r.sysUpTime
      (merge r.var false st.oldResults).1 [] existed := by
    unfold run
    simp only [hexisted, htests, hfirst, hacc, hdelta, Option.bind_eq_bind, Option.bind_some, Bool.not_true,
      Bool.false_eq_true, if_true, if_false]
  refine ⟨_, report, hrun.trans hevaluate, ?_⟩
  change List.Perm _ (existed ++ (pairs _ (merge r.var false st.oldResults).2).flatMap fun x =>
    (pass t (decide ((merge r.var false st.oldResults).2 = [])) x).2) at hperm
  rw [hsame] at hperm
  refine ⟨?_, ?_, ?_⟩
  · intro w
    rw [mem_map, hsame]
    constructor
    · rintro ⟨x, hx, rfl⟩
      exact ⟨x, (hpaired.mem x).mp hx, rfl⟩
    · rintro ⟨x, hx, rfl⟩
      exact ⟨x, (hpaired.mem x).mpr hx, rfl⟩
  · have hkept := hpaired.kept
    rw [← pairs_fst hpaired.length] at hkept
    exact hkept.map _ fun x => (pass_step t _ x).same
  · intro f hf
    have hnone : f ∉ existed := fun hmem => hf (hevent f hmem)
    have hinc := hpaired.kept.increasing
    rw [← pairs_fst hpaired.length] at hinc
    have hcount : report.fired.count f = List.count f ((pairs (merge r.var false st.oldResults).1
        (merge r.var false st.oldResults).2).flatMap fun x => (pass t (st.oldResults = []) x).2) := by
      rw [hperm.count_eq, count_append, count_eq_zero.mpr hnone, Nat.zero_add]
    have hmem : f ∈ ((pairs (merge r.var false st.oldResults).1 (merge r.var false st.oldResults).2).flatMap
        fun x => (pass t (st.oldResults = []) x).2) ↔
          ∃ x, Matches r.var st.oldResults x ∧ f ∈ (pass t (st.oldResults = []) x).2 := by
      simp only [mem_flatMap, hpaired.mem]
    rw [hcount, ← hmem]
    exact once_count (passes_nodup t _ hinc) f

end Priot.MteTrigger
