/-
# Which samples count

A single marker is taken to have changed unless it is missing, and of wildcarded ones only the first is looked at.
This is right if all samples count that have a value in the run before, or none.
-/
import Priot.MteTrigger.Delta
import Priot.MteTrigger.Stored

namespace Priot.MteTrigger

open List

variable {t : Trigger} {p : Name} {b r : Reading} {before : Option Reading} {st : State} {skip : Bool}
  {evaluated : List (Name × BitVec 64)} {existed : List Fired} {report : Report}

/-! ## what counts -/

/-- A trigger on delta samples with Boolean or threshold tests. -/
structure DeltaTrigger (t : Trigger) : Prop where
  delta : t.delta = true
  tests : (t.boolean || t.threshold) = true

/-- What the queries of a run answer: numbers for some instances of the value, and, unless it is `sysUpTime`, the marker
or the markers. -/
structure DeltaReading (t : Trigger) (p : Name) (r : Reading) : Prop where
  sampled : Sampled r.var
  name : ∀ u ∈ r.var, ∃ s, u.name = p ++ s
  single : t.sysupt = false → t.dwild = false → ∃ m, r.dvar = [m]

/-- The markers that are queried. -/
def markers (t : Trigger) (r : Reading) : List VarBind := if t.sysupt then [] else r.dvar

/-- A marker is there in both runs, with the same value. -/
def SameMarker (m m' : VarBind) : Prop := m.value ≠ none ∧ m.type = m'.type ∧ m.value = m'.value

/-- The marker that applies to an instance: none but `sysUpTime`, the single one, or the one of the same instance. -/
def Marked (t : Trigger) (b r : Reading) (u : VarBind) : Prop :=
  if t.dwild then
    ∃ m ∈ markers t r, ∃ m' ∈ markers t b, markerSuffix t.discontID m = u.name.drop t.valueIDLen ∧
      markerSuffix t.discontID m' = u.name.drop t.valueIDLen ∧ SameMarker m m'
  else t.sysupt = true ∨ ∃ m ∈ r.dvar.head?, ∃ m' ∈ b.dvar.head?, SameMarker m m'

/-- When a test is to be evaluated for an instance, and on which difference. -/
def Counts (t : Trigger) (before : Option Reading) (r : Reading) (name : Name) (d : Int) : Prop :=
  ∃ b, before = some b ∧ b.sysUpTime ≤ r.sysUpTime ∧ ∃ u ∈ r.var, ∃ o ∈ b.var, u.name = name ∧ o.name = name ∧
    Marked t b r u ∧ ∃ x y, Stored u x ∧ Stored o y ∧ d = x - y

/-- The samples that have been evaluated are those that count. -/
def RightSamples (t : Trigger) (before : Option Reading) (r : Reading) (evaluated : List (Name × BitVec 64)) : Prop :=
  ∀ name d, (name, d) ∈ evaluated ↔ Counts t before r name d.toInt

/-- Both tests, if they are made, are evaluated on the samples that count. -/
def Respects (t : Trigger) (before : Option Reading) (r : Reading) (report : Report) : Prop :=
  ((t.boolean && t.boolEvent) = true → RightSamples t before r report.boolean) ∧
    ((t.threshold && (t.thRiseEvent || t.thFallEvent)) = true → RightSamples t before r report.threshold)

/-- Some instance was there in the run before. -/
def Continues (b r : Reading) : Prop := ∃ u ∈ r.var, ∃ o ∈ b.var, u.name = o.name

/-- What the wildcarded markers must be like. -/
structure Alike (t : Trigger) (b r : Reading) : Prop where
  /-- The first marker is that of the first instance. -/
  first : ∃ u m, r.var.head? = some u ∧ (markers t r).head? = some m ∧
    u.name.drop t.valueIDLen = markerSuffix t.discontID m
  /-- There is a marker for the last instance, or behind it. -/
  covered : ∀ u ∈ r.var, Covered t.discontID (u.name.drop t.valueIDLen) (markers t r)
  /-- The first markers tell what all others do. -/
  alike : ∃ skip, discontinuity (markers t r) (markers t b) = some skip ∧
    ∀ u ∈ r.var, ∀ o ∈ b.var, u.name = o.name → (skip = false ↔ Marked t b r u)

/-- What a run must be like. -/
structure Steady (t : Trigger) (before : Option Reading) (r : Reading) : Prop where
  /-- No difference of 64-bit integers is to be evaluated. -/
  long : ∀ b, before = some b → b.sysUpTime ≤ r.sysUpTime → ∀ u ∈ r.var, ∀ o ∈ b.var, u.name = o.name →
    Marked t b r u → isLong u.type = true ∧ isLong o.type = true
  /-- The first entry is no dummy. -/
  head : ∀ b, before = some b → ∀ o ∈ b.var, ∃ u ∈ r.var, u.name ≤ o.name
  /-- A single marker is missing in one of two runs, or it has changed. -/
  single : t.dwild = false → t.sysupt = false → ∀ b, before = some b → b.sysUpTime ≤ r.sysUpTime → Continues b r →
    ∀ m ∈ r.dvar.head?, ∀ m' ∈ b.dvar.head?, ¬ SameMarker m m' ∧ ¬ (m'.value = none ∧ m.value = none)
  wild : t.dwild = true → ∀ b, before = some b → b.sysUpTime ≤ r.sysUpTime → Alike t b r

/-! ## a run -/

/-- What is kept after a run. -/
structure Saved (t : Trigger) (b : Reading) (st : State) : Prop where
  kept : Kept b.var st.oldResults
  markers : st.oldDeltaDs.head? = (markers t b).head?
  sysUpTime : st.sysUpTime = b.sysUpTime

theorem rightSamples_nil (h : ∀ name d, ¬ Counts t before r name d) : RightSamples t before r [] := by
  intro name d
  exact iff_of_false not_mem_nil (h name d.toInt)

theorem respects_nil (h : ∀ name d, ¬ Counts t before r name d) : Respects t before r ⟨existed, [], []⟩ :=
  ⟨fun _ => rightSamples_nil h, fun _ => rightSamples_nil h⟩

theorem run_delta (ht : DeltaTrigger t) (hexisted : existenceTests t (merge r.var false st.oldResults).1
    (merge r.var false st.oldResults).2 = some existed)
    (hhead : ∃ first, (merge r.var false st.oldResults).1.head? = some first ∧ accepted first.type = true) :
    run t st r =
      if (merge r.var false st.oldResults).2 = [] then
        some (⟨(merge r.var false st.oldResults).1, markers t r, r.sysUpTime⟩, ⟨existed, [], []⟩)
      else if r.sysUpTime < st.sysUpTime then
        some (⟨(merge r.var false st.oldResults).1, markers t r, r.sysUpTime⟩, ⟨existed, [], []⟩)
      else (singleDiscontinuity t st.oldDeltaDs (markers t r)).bind fun gap =>
        if gap then some (⟨(merge r.var false st.oldResults).1, markers t r, r.sysUpTime⟩, ⟨existed, [], []⟩)
        else
          (if t.dwild then align t.discontID t.valueIDLen (merge r.var false st.oldResults).1 false (markers t r)
            else some (markers t r)).bind fun dvar =>
            evaluate t { st with oldResults := (merge r.var false st.oldResults).2 } r.sysUpTime
              (merge r.var false st.oldResults).1 dvar existed := by
  obtain ⟨first, hfirst, hacc⟩ := hhead
  unfold run markers
  simp only [hexisted, ht.tests, hfirst, hacc, ht.delta, Option.bind_eq_bind, Option.bind_some, Bool.not_true,
    Bool.false_eq_true, if_true, if_false]
  cases t.dwild with
  | true => rfl
  | false => rfl

theorem DeltaReading.accepted (hr : DeltaReading t p r) : ∀ u ∈ r.var, accepted u.type = true := by
  intro u hu
  obtain ⟨v, hv⟩ := hr.sampled.stored u hu
  exact hv.accepted

theorem DeltaReading.readable (hr : DeltaReading t p r) : ∀ u ∈ r.var, ∃ w, u.integer = some w := by
  intro u hu
  obtain ⟨v, hv⟩ := hr.sampled.stored u hu
  exact hv.readable

theorem run_delta_first (ht : DeltaTrigger t) (hr : DeltaReading t p r) (hst : st.oldResults = []) :
    ∃ st' report, run t st r = some (st', report) ∧ Saved t r st' ∧ Respects t none r report := by
  have hpaired := merge_paired hr.sampled.result (.inl hst)
  obtain ⟨existed, hexisted, -⟩ := existenceTests_event t hpaired.length
  have hhead := hpaired.head hr.sampled.result hr.accepted fun o ho => by
    rw [hst] at ho
    exact absurd ho not_mem_nil
  refine ⟨_, _, (run_delta ht hexisted hhead).trans (if_pos (hpaired.first.mpr hst)), ⟨hpaired.kept, rfl, rfl⟩, ?_⟩
  refine respects_nil ?_
  rintro name d ⟨b, hb, -⟩
  cases hb

theorem difference_iff {u o : VarBind} (hu : ∃ x, Stored u x) (ho : ∃ y, Stored o y) (hlong : isLong u.type = true)
    (hlong' : isLong o.type = true) (d : BitVec 64) : (∃ a b, u.integer = some a ∧ o.integer = some b ∧ d = a - b) ↔
      ∃ x y, Stored u x ∧ Stored o y ∧ d.toInt = x - y := by
  constructor
  · rintro ⟨a, b, ha, hb, rfl⟩
    obtain ⟨x, hx⟩ := hu
    obtain ⟨y, hy⟩ := ho
    obtain ⟨hu32, hux⟩ := hx.integer32 hlong
    obtain ⟨ho32, hoy⟩ := hy.integer32 hlong'
    refine ⟨x, y, hx, hy, ?_⟩
    rw [number_sub hu32 ho32 ha hb, hux, hoy]
  · rintro ⟨x, y, hx, hy, hd⟩
    obtain ⟨a, ha⟩ := hx.readable
    obtain ⟨b, hb⟩ := hy.readable
    obtain ⟨hu32, hux⟩ := hx.integer32 hlong
    obtain ⟨ho32, hoy⟩ := hy.integer32 hlong'
    refine ⟨a, b, ha, hb, BitVec.eq_of_toInt_eq ?_⟩
    rw [number_sub hu32 ho32 ha hb, hux, hoy, hd]

theorem rightSamples_of (hb : DeltaReading t p b) (hr : DeltaReading t p r) (hsteady : Steady t (some b) r)
    (hsys : b.sysUpTime ≤ r.sysUpTime)
    (hskip : ∀ u ∈ r.var, ∀ o ∈ b.var, u.name = o.name → (skip = false ↔ Marked t b r u))
    (hmem : ∀ name d, (name, d) ∈ evaluated ↔ skip = false ∧ ∃ u ∈ r.var, ∃ o ∈ b.var, u.name = name ∧
      o.name = name ∧ ∃ a b, u.integer = some a ∧ o.integer = some b ∧ d = a - b) :
    RightSamples t (some b) r evaluated := by
  intro name d
  rw [hmem]
  constructor
  · rintro ⟨hnot, u, hu, o, ho, hname, hname', hdiff⟩
    have hmarked := (hskip u hu o ho (hname.trans hname'.symm)).mp hnot
    obtain ⟨hu', ho'⟩ := hsteady.long b rfl hsys u hu o ho (hname.trans hname'.symm) hmarked
    refine ⟨b, rfl, hsys, u, hu, o, ho, hname, hname', hmarked, ?_⟩
    exact (difference_iff (hr.sampled.stored u hu) (hb.sampled.stored o ho) hu' ho' d).mp hdiff
  · rintro ⟨b', hb', -, u, hu, o, ho, hname, hname', hmarked, hdiff⟩
    obtain rfl := Option.some_inj.mp hb'
    obtain ⟨hu', ho'⟩ := hsteady.long b rfl hsys u hu o ho (hname.trans hname'.symm) hmarked
    refine ⟨(hskip u hu o ho (hname.trans hname'.symm)).mpr hmarked, u, hu, o, ho, hname, hname', ?_⟩
    exact (difference_iff (hr.sampled.stored u hu) (hb.sampled.stored o ho) hu' ho' d).mpr hdiff

theorem gap_spec (hb : DeltaReading t p b) (hr : DeltaReading t p r) (hsaved : Saved t b st)
    (hsteady : Steady t (some b) r) (hsys : b.sysUpTime ≤ r.sysUpTime) :
    ∃ gap, singleDiscontinuity t st.oldDeltaDs (markers t r) = some gap ∧
      (gap = true → ∀ name d, ¬ Counts t (some b) r name d) ∧
      (gap = false → t.dwild = false → t.sysupt = false → ¬ Continues b r) := by
  unfold singleDiscontinuity
  by_cases hmode : (t.dwild || t.sysupt) = true
  · refine ⟨false, if_pos hmode, fun h => Bool.noConfusion h, fun _ hdwild hsysupt => ?_⟩
    rw [hdwild, hsysupt] at hmode
    cases hmode
  · rw [Bool.not_eq_true, Bool.or_eq_false_iff] at hmode
    obtain ⟨hdwild, hsysupt⟩ := hmode
    obtain ⟨m, hm⟩ := hr.single hsysupt hdwild
    obtain ⟨m', hm'⟩ := hb.single hsysupt hdwild
    have hold : st.oldDeltaDs.head? = some m' := by
      rw [hsaved.markers]
      unfold markers
      rw [hsysupt, hm']
      rfl
    have hne : st.oldDeltaDs ≠ [] := by
      intro hnil
      rw [hnil] at hold
      cases hold
    have hnew : (markers t r).head? = some m := by
      unfold markers
      rw [hsysupt, hm]
      rfl
    have hsteady' : Continues b r → ¬ SameMarker m m' ∧ ¬ (m'.value = none ∧ m.value = none) := by
      intro hcontinues
      refine hsteady.single hdwild hsysupt b rfl hsys hcontinues m ?_ m' ?_
      · rw [hm]
        rfl
      · rw [hm']
        rfl
    refine ⟨!(m'.value = none && m.value = none), ?_, ?_, ?_⟩
    · rw [hdwild, hsysupt, if_neg (by decide), if_neg hne, hold, hnew]
      rfl
    · rintro - name d ⟨b', hb', -, u, hu, o, ho, hname, hname', hmarked, -⟩
      obtain rfl := Option.some_inj.mp hb'
      unfold Marked at hmarked
      rw [hdwild, if_neg Bool.false_ne_true, hsysupt, hm, hm'] at hmarked
      obtain ⟨n, hn, n', hn', hsame⟩ := hmarked.resolve_left Bool.false_ne_true
      obtain rfl := Option.some_inj.mp hn
      obtain rfl := Option.some_inj.mp hn'
      exact (hsteady' ⟨u, hu, o, ho, hname.trans hname'.symm⟩).1 hsame
    · intro hgap _ _ hcontinues
      rw [Bool.not_eq_false', Bool.and_eq_true, decide_eq_true_iff, decide_eq_true_iff] at hgap
      exact (hsteady' hcontinues).2 hgap

theorem Paired.entry_name {N M P var old : List VarBind} (h : Paired N M var old) (hkept : Kept P M) {v : VarBind}
    (hv : v ∈ var) : (∃ u ∈ N, v.name = u.name) ∨ ∃ q ∈ P, v.name = q.name ∧ ∃ u ∈ N, v.name < u.name := by
  rw [← pairs_fst h.length] at hv
  obtain ⟨x, hx, rfl⟩ := mem_map.mp hv
  cases (h.mem x).mp hx with
  | @both u _ hu => exact .inl ⟨u, hu, rfl⟩
  | @appeared u hu => exact .inl ⟨u, hu, rfl⟩
  | @disappeared o ho hreal _ hbefore =>
    obtain ⟨q, hq, heq⟩ := hkept.real o ho hreal
    refine .inr ⟨q, hq, ?_, hbefore⟩
    change o.name = q.name
    rw [heq]

theorem align_spec (hp : p.length = t.valueIDLen) (hb : DeltaReading t p b) (hr : DeltaReading t p r)
    (hsaved : Saved t b st) (hsteady : Steady t (some b) r) (hsys : b.sysUpTime ≤ r.sysUpTime) {var old : List VarBind}
    (hpaired : Paired r.var st.oldResults var old)
    (hhead : ∀ o ∈ st.oldResults, o.type ≠ asnNULL → ∃ u ∈ r.var, u.name ≤ o.name)
    (hgap : t.dwild = false → t.sysupt = false → ¬ Continues b r) :
    ∃ dvar skip, (if t.dwild then align t.discontID t.valueIDLen var false (markers t r) else some (markers t r)) =
        some dvar ∧ dvar.head? = (markers t r).head? ∧ skips t dvar st.oldDeltaDs = some skip ∧
      ∀ u ∈ r.var, ∀ o ∈ b.var, u.name = o.name → (skip = false ↔ Marked t b r u) := by
  by_cases hdwild : t.dwild = true
  · have halike := hsteady.wild hdwild b rfl hsys
    obtain ⟨u, m, hu, hm, hsuffix⟩ := halike.first
    obtain ⟨u', first, rest, hu', hvar, hfirst⟩ := hpaired.first_entry hr.sampled.result hhead
    obtain rfl := Option.some_inj.mp (hu.symm.trans hu')
    obtain ⟨skip, hskip, hright⟩ := halike.alike
    have hdrop : ∀ s, (p ++ s).drop t.valueIDLen = s := by
      intro s
      rw [← hp]
      exact drop_left
    have hname : ∀ v ∈ var, ∃ s, v.name = p ++ s := by
      intro v hv
      rcases hpaired.entry_name hsaved.kept hv with ⟨u, hu, hvu⟩ | ⟨q, hq, hvq, -⟩
      · rw [hvu]
        exact hr.name u hu
      · rw [hvq]
        exact hb.name q hq
    have hmono : ∀ v ∈ var, ∀ w : VarBind, (∃ s, w.name = p ++ s) → v.name < w.name →
        v.name.drop t.valueIDLen < w.name.drop t.valueIDLen := by
      rintro v hv w ⟨s', hs'⟩ hlt
      obtain ⟨s, hs⟩ := hname v hv
      rw [hs, hs', append_lt_append] at hlt
      rw [hs, hs', hdrop, hdrop]
      exact hlt
    have hincreasing : IncreasingFrom t.valueIDLen var :=
      hpaired.kept.increasing.imp_of_mem fun hv hw hlt => hmono _ hv _ (hname _ hw) hlt
    have hcovered : ∀ v ∈ var, Covered t.discontID (v.name.drop t.valueIDLen) (markers t r) := by
      intro v hv
      rcases hpaired.entry_name hsaved.kept hv with ⟨w, hw, hvw⟩ | ⟨-, -, -, w, hw, hlt⟩
      · rw [hvw]
        exact halike.covered w hw
      · obtain ⟨n, hn, hle⟩ := halike.covered w hw
        exact ⟨n, hn, (hmono v hv w (hr.name w hw) hlt).le.trans hle⟩
    obtain ⟨ms, hms⟩ : ∃ ms, markers t r = m :: ms := by
      cases hmarkers : markers t r with
      | nil =>
        rw [hmarkers] at hm
        cases hm
      | cons n ms =>
        rw [hmarkers] at hm
        obtain rfl := Option.some_inj.mp hm
        exact ⟨ms, rfl⟩
    have hsuffix' : first.name.drop t.valueIDLen = markerSuffix t.discontID m := by
      rw [hfirst]
      exact hsuffix
    rw [hvar] at hincreasing hcovered
    rw [hms] at hcovered
    obtain ⟨out, hout⟩ := align_first hincreasing hsuffix' hcovered
    refine ⟨m :: out, skip, ?_, ?_, ?_, hright⟩
    · rw [if_pos hdwild, hvar, hms]
      exact hout
    · rw [hms]
      rfl
    · have hheads : (m :: out).head? = (markers t r).head? := hm.symm
      rw [skips_congr hheads hsaved.markers]
      unfold skips
      rw [if_pos hdwild]
      exact hskip
  · rw [Bool.not_eq_true] at hdwild
    refine ⟨markers t r, false, ?_, rfl, ?_, ?_⟩
    · rw [hdwild, if_neg Bool.false_ne_true]
    · unfold skips
      rw [hdwild, if_neg Bool.false_ne_true]
    · intro u hu o ho hname
      refine iff_of_true rfl ?_
      unfold Marked
      rw [hdwild, if_neg Bool.false_ne_true]
      cases hsysupt : t.sysupt with
      | true => exact .inl rfl
      | false => exact absurd ⟨u, hu, o, ho, hname⟩ (hgap hdwild hsysupt)

theorem run_delta_next (ht : DeltaTrigger t) (hp : p.length = t.valueIDLen) (hb : DeltaReading t p b)
    (hr : DeltaReading t p r) (hsaved : Saved t b st) (hsteady : Steady t (some b) r) :
    ∃ st' report, run t st r = some (st', report) ∧ Saved t r st' ∧ Respects t (some b) r report := by
  have hP := hb.sampled.result
  have hN := hr.sampled.result
  have hreal : ∃ o ∈ st.oldResults, o.type ≠ asnNULL := hsaved.kept.exists_real hP
  have hpaired := merge_paired hN (.inr ⟨hsaved.kept.increasing, hreal⟩)
  have hold : (merge r.var false st.oldResults).2 ≠ [] := by
    rw [ne_eq, hpaired.first]
    exact ne_nil_of_mem hreal.choose_spec.1
  have hlen := hpaired.length.resolve_left hold
  obtain ⟨existed, hexisted, -⟩ := existenceTests_event t hpaired.length
  have hhead : ∀ o ∈ st.oldResults, o.type ≠ asnNULL → ∃ u ∈ r.var, u.name ≤ o.name := by
    intro o ho hne
    obtain ⟨q, hq, heq⟩ := hsaved.kept.real o ho hne
    rw [heq]
    exact hsteady.head b rfl q hq
  have hrun := run_delta ht hexisted (hpaired.head hN hr.accepted hhead)
  rw [if_neg hold] at hrun
  by_cases hback : r.sysUpTime < st.sysUpTime
  · -- the clock has gone backwards
    refine ⟨_, _, hrun.trans (if_pos hback), ⟨hpaired.kept, rfl, rfl⟩, respects_nil ?_⟩
    rintro name d ⟨b', hb', hsys, -⟩
    obtain rfl := Option.some_inj.mp hb'
    rw [hsaved.sysUpTime] at hback
    omega
  · have hsys : b.sysUpTime ≤ r.sysUpTime := by
      rw [hsaved.sysUpTime] at hback
      omega
    obtain ⟨gap, hgap, hnone, hgone⟩ := gap_spec hb hr hsaved hsteady hsys
    rw [if_neg hback, hgap, Option.bind_some] at hrun
    cases gap with
    | true => exact ⟨_, _, hrun.trans (if_pos rfl), ⟨hpaired.kept, rfl, rfl⟩, respects_nil (hnone rfl)⟩
    | false =>
      obtain ⟨dvar, skip, halign, hheads, hskip, hright⟩ :=
        align_spec hp hb hr hsaved hsteady hsys hpaired hhead (hgone rfl)
      rw [if_neg Bool.false_ne_true, halign, Option.bind_some] at hrun
      have hreadable : ∀ x ∈ (merge r.var false st.oldResults).1.zip (merge r.var false st.oldResults).2,
          ReadablePair x := by
        intro x hx
        have hx' : x ∈ pairs (merge r.var false st.oldResults).1 (merge r.var false st.oldResults).2 := by
          unfold pairs
          rw [if_neg hold]
          exact hx
        refine ((hpaired.mem x).mp hx').readable hr.readable fun o ho => ?_
        refine or_iff_not_imp_left.mpr fun hne => ?_
        obtain ⟨q, hq, heq⟩ := hsaved.kept.real o ho hne
        rw [heq]
        exact hb.readable q hq
      obtain ⟨g, report, hevaluate, hflags, hboolean, hthreshold⟩ :=
        evaluate_delta { st with oldResults := (merge r.var false st.oldResults).2 } ht.delta hskip r.sysUpTime existed
          hlen hreadable
      refine ⟨_, report, hrun.trans hevaluate, ⟨?_, hheads, rfl⟩, ?_, ?_⟩
      · have hkept := hpaired.kept
        rw [← map_fst_zip hlen] at hkept
        exact hkept.map g hflags.same
      · intro hconf
        rw [hboolean hconf]
        exact rightSamples_of hb hr hsteady hsys hright
          (mem_deltaSamples hpaired hsaved.kept hP hold hreadable)
      · intro hconf
        rw [hthreshold hconf]
        exact rightSamples_of hb hr hsteady hsys hright
          (mem_deltaSamples hpaired hsaved.kept hP hold hreadable)

/-! ## runs -/

/-- Each run is evaluated on the samples that count. -/
def AllRespect (t : Trigger) : Option Reading → List Reading → List Report → Prop
  | _, [], reports => reports = []
  | _, _ :: _, [] => False
  | before, r :: rs, report :: reports => Respects t before r report ∧ AllRespect t (some r) rs reports

def AllSteady (t : Trigger) : Option Reading → List Reading → Prop
  | _, [] => True
  | before, r :: rs => Steady t before r ∧ AllSteady t (some r) rs

theorem runs_delta (ht : DeltaTrigger t) (hp : p.length = t.valueIDLen) (rs : List Reading)
    (hrs : ∀ r ∈ rs, DeltaReading t p r) (hb : DeltaReading t p b) (hsaved : Saved t b st)
    (hsteady : AllSteady t (some b) rs) :
    ∃ st' reports, runs t st rs = some (st', reports) ∧ AllRespect t (some b) rs reports := by
  induction rs generalizing st b with
  | nil => exact ⟨st, [], rfl, rfl⟩
  | cons r rs ih =>
    have hr := hrs r mem_cons_self
    obtain ⟨st', report, hrun, hsaved', hrespects⟩ := run_delta_next ht hp hb hr hsaved hsteady.1
    obtain ⟨st'', reports, hruns, hall⟩ :=
      ih (fun r hr => hrs r (mem_cons_of_mem _ hr)) hr hsaved' hsteady.2
    refine ⟨st'', report :: reports, ?_, hrespects, hall⟩
    rw [runs_cons hrun, hruns]
    rfl

/-- In every sequence of steady runs no pointer that is `NULL` is followed, and the tests are evaluated on just the
samples that count. -/
theorem delta_samples_count (t : Trigger) (ht : DeltaTrigger t) (p : Name) (hp : p.length = t.valueIDLen)
    (rs : List Reading) (hrs : ∀ r ∈ rs, DeltaReading t p r) (hsteady : AllSteady t none rs) :
    ∃ st reports, runs t State.init rs = some (st, reports) ∧ AllRespect t none rs reports := by
  cases rs with
  | nil => exact ⟨State.init, [], rfl, rfl⟩
  | cons r rs =>
    have hr := hrs r mem_cons_self
    have hnone : State.init.oldResults = [] := rfl
    obtain ⟨st, report, hrun, hsaved, hrespects⟩ := run_delta_first ht hr hnone
    obtain ⟨st', reports, hruns, hall⟩ :=
      runs_delta ht hp rs (fun r hr => hrs r (mem_cons_of_mem _ hr)) hr hsaved hsteady.2
    refine ⟨st', report :: reports, ?_, hrespects, hall⟩
    rw [runs_cons hrun, hruns]
    rfl

/-- A trigger on differences, with a single marker other than `sysUpTime`. -/
def markedTrigger : Trigger := { createEntry with boolean := true, boolEvent := true, delta := true, sysupt := false }

theorem markedTrigger_delta : DeltaTrigger markedTrigger := ⟨rfl, rfl⟩

/-- A marker that has not changed. -/
def unchanged : VarBind := ⟨[1, 4], asnTIMETICKS, some (storage asnTIMETICKS 7), 0⟩

theorem zero_stored (i : Nat) : Stored (zero i) 0 where
  accepted := rfl
  range := (by decide : (-2 : Int) ^ 31 ≤ 0 ∧ (0 : Int) < 2 ^ 31)
  value := rfl

theorem zero_sampled : Sampled [zero 1] := by
  refine ⟨cons_ne_nil _ _, pairwise_singleton _ _, ?_⟩
  rw [forall_mem_singleton]
  exact ⟨0, zero_stored 1⟩

/-- The value of an instance in two runs. -/
def twice : List Reading := [⟨[zero 1], 0, [unchanged]⟩, ⟨[zero 1], 1, [unchanged]⟩]

theorem twice_reading : ∀ r ∈ twice, DeltaReading markedTrigger [1, 3] r := by
  have hone : ∀ sysUpTime, DeltaReading markedTrigger [1, 3] ⟨[zero 1], sysUpTime, [unchanged]⟩ := by
    intro sysUpTime
    refine ⟨zero_sampled, ?_, fun _ _ => ⟨unchanged, rfl⟩⟩
    rw [forall_mem_singleton]
    exact ⟨[1], rfl⟩
  simp only [twice, forall_mem_cons, not_mem_nil, false_implies, implies_true, and_true]
  exact ⟨hone 0, hone 1⟩

/-- With the same single marker in both runs nothing is evaluated. -/
theorem twice_not_evaluated :
    DeltaTrigger markedTrigger ∧ (∀ r ∈ twice, DeltaReading markedTrigger [1, 3] r) ∧
      ∃ st reports, runs markedTrigger State.init twice = some (st, reports) ∧
        ¬ AllRespect markedTrigger none twice reports := by
  have hruns : (runs markedTrigger State.init twice).map Prod.snd = some [⟨[], [], []⟩, ⟨[], [], []⟩] := by
    decide +kernel
  obtain ⟨⟨st, reports⟩, hruns, rfl⟩ := Option.map_eq_some_iff.mp hruns
  refine ⟨markedTrigger_delta, twice_reading, st, _, hruns, fun h => ?_⟩
  have hcounts : Counts markedTrigger (some ⟨[zero 1], 0, [unchanged]⟩) ⟨[zero 1], 1, [unchanged]⟩ [1, 3, 1]
      (0 : BitVec 64).toInt := by
    refine ⟨_, rfl, by decide, zero 1, mem_cons_self, zero 1, mem_cons_self, rfl, rfl, ?_, 0, 0,
      zero_stored 1, zero_stored 1, rfl⟩
    exact .inr ⟨unchanged, rfl, unchanged, rfl, Option.some_ne_none _, rfl, rfl⟩
  exact absurd ((h.2.1.1 rfl [1, 3, 1] 0).mpr hcounts) not_mem_nil

/-- A trigger on differences, with `sysUpTime` as the marker. -/
def clockTrigger : Trigger := { createEntry with boolean := true, boolEvent := true, delta := true }

/-- The value of an instance in two runs. -/
def ticking : List Reading := [⟨[zero 1], 0, []⟩, ⟨[zero 1], 1, []⟩]

theorem ticking_reading : ∀ r ∈ ticking, DeltaReading clockTrigger [1, 3] r := by
  have hone : ∀ sysUpTime, DeltaReading clockTrigger [1, 3] ⟨[zero 1], sysUpTime, []⟩ := by
    intro sysUpTime
    refine ⟨zero_sampled, ?_, fun h => Bool.noConfusion h⟩
    rw [forall_mem_singleton]
    exact ⟨[1], rfl⟩
  simp only [ticking, forall_mem_cons, not_mem_nil, false_implies, implies_true, and_true]
  exact ⟨hone 0, hone 1⟩

theorem ticking_steady : AllSteady clockTrigger none ticking := by
  refine ⟨⟨?_, ?_, ?_, ?_⟩, ⟨?_, ?_, ?_, ?_⟩, trivial⟩
  · rintro b hb
    cases hb
  · rintro b hb
    cases hb
  · rintro - h
    cases h
  · intro h
    cases h
  · rintro b hb - u hu o ho - -
    obtain rfl := Option.some_inj.mp hb
    rw [mem_singleton.mp hu, mem_singleton.mp ho]
    exact ⟨rfl, rfl⟩
  · rintro b hb o ho
    obtain rfl := Option.some_inj.mp hb
    exact ⟨zero 1, mem_cons_self, (congrArg VarBind.name (mem_singleton.mp ho)).ge⟩
  · rintro - h
    cases h
  · intro h
    cases h

theorem delta_samples_count_ticking :
    ∃ st reports, runs clockTrigger State.init ticking = some (st, reports) ∧
      AllRespect clockTrigger none ticking reports :=
  delta_samples_count clockTrigger ⟨rfl, rfl⟩ [1, 3] rfl ticking ticking_reading ticking_steady

end Priot.MteTrigger
