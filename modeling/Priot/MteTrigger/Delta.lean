/-
# A run on delta samples

The loops go through the pairs of entries in step, and evaluate the difference of a pair of values. The loop that
makes the wildcarded markers match needs the first marker to be that of the first entry, and a marker for the last
entry or behind it; else it follows a pointer that is `NULL`.
-/
import Priot.MteTrigger.Absolute

namespace Priot.MteTrigger

open List

variable {t : Trigger} {var old N M P : List VarBind} {v o : VarBind} {x : VarBind × VarBind} {st : State} {r : Reading}
  {skip : Bool} {dv1 dv2 : List VarBind}

/-! ## the loop -/

/-- The difference that is evaluated for a pair. -/
def deltaSample (skip : Bool) (x : VarBind × VarBind) : Option (BitVec 64) :=
  if x.1.value = none ∨ skip = true ∨ x.2.type = asnNULL then none
  else x.1.integer.bind fun a => x.2.integer.map fun b => a - b

/-- The differences that are evaluated. -/
def deltaSamples (skip : Bool) (l : List (VarBind × VarBind)) : List (Name × BitVec 64) :=
  l.filterMap fun x => (deltaSample skip x).map fun d => (x.1.name, d)

/-- What a test makes of a pair. -/
def deltaEntry (skip : Bool) (test : VarBind → BitVec 64 → VarBind × List Fired) (x : VarBind × VarBind) : VarBind :=
  (deltaSample skip x).elim x.1 fun d => (test x.1 d).1

/-- Whether the samples are skipped, from the first markers. -/
def skips (t : Trigger) (dv1 dv2 : List VarBind) : Option Bool :=
  if t.dwild then discontinuity dv1 dv2 else some false

theorem sample_value (hdelta : t.delta = true) (hvalue : v.value ≠ none) (vp2 : List VarBind) :
    sample t dv1 dv2 v vp2 = (skips t dv1 dv2).bind fun skip =>
      if skip then (next vp2).bind fun rest => some (none, rest) else vp2.head?.bind fun o =>
        if o.type = asnNULL then some (none, vp2.tail)
        else v.integer.bind fun a => o.integer.bind fun b => some (some (a - b), vp2.tail) := by
  unfold sample skips
  rw [if_neg hvalue, hdelta, if_pos rfl]
  cases t.dwild with
  | true => rfl
  | false => rfl

theorem sample_delta (hdelta : t.delta = true) (hskip : skips t dv1 dv2 = some skip) (hread : ReadablePair (v, o)) :
    sample t dv1 dv2 v (o :: old) = some (deltaSample skip (v, o), old) := by
  unfold deltaSample
  dsimp only
  by_cases hnone : v.value = none
  · unfold sample
    rw [if_pos hnone, if_pos (.inl hnone)]
    rfl
  · obtain ⟨a, ha⟩ := hread.1.resolve_left hnone
    change v.integer = some a at ha
    rw [sample_value hdelta hnone, hskip, Option.bind_some]
    cases skip with
    | true =>
      have hskipped : v.value = none ∨ true = true ∨ o.type = asnNULL := .inr (.inl rfl)
      rw [if_pos rfl, if_pos hskipped]
      rfl
    | false =>
      rw [if_neg Bool.false_ne_true, head?_cons, Option.bind_some]
      by_cases hnull : o.type = asnNULL
      · rw [if_pos hnull, if_pos (.inr (.inr hnull))]
        rfl
      · obtain ⟨b, hb⟩ := hread.2.resolve_left hnull
        change o.integer = some b at hb
        have hall : ¬ (v.value = none ∨ false = true ∨ o.type = asnNULL) := by
          simp [hnone, hnull]
        rw [if_neg hnull, if_neg hall, ha, hb]
        rfl

theorem testLoop_delta (hdelta : t.delta = true) (hskip : skips t dv1 dv2 = some skip)
    (test : VarBind → BitVec 64 → VarBind × List Fired) (htest : ∀ v w, (test v w).1.name = v.name)
    (hlen : var.length ≤ old.length) (hread : ∀ x ∈ var.zip old, ReadablePair x) :
    ∃ fired, testLoop t dv1 dv2 test var old =
      some ⟨(var.zip old).map (deltaEntry skip test), deltaSamples skip (var.zip old), fired⟩ := by
  induction var generalizing old with
  | nil => exact ⟨[], rfl⟩
  | cons v var ih =>
    cases old with
    | nil => exact absurd hlen (Nat.not_succ_le_zero _)
    | cons o old =>
      rw [zip_cons_cons, forall_mem_cons] at hread
      obtain ⟨fired, hrest⟩ := ih (Nat.le_of_succ_le_succ hlen) hread.2
      rw [testLoop, sample_delta hdelta hskip hread.1]
      simp only [Option.bind_eq_bind, Option.bind_some, hrest, zip_cons_cons, map_cons, deltaSamples,
        filterMap_cons, deltaEntry]
      cases hsample : deltaSample skip (v, o) with
      | none => exact ⟨fired, rfl⟩
      | some d =>
        refine ⟨(test v d).2 ++ fired, ?_⟩
        simp only [Option.map_some, Option.elim, htest]

/-! ## the tests -/

theorem deltaSample_index (skip : Bool) (v o : VarBind) (index : BitVec 32) :
    deltaSample skip ({ v with index := index }, o) = deltaSample skip (v, o) := rfl

/-- The entries of a pass with other flags. -/
structure Flags (g : VarBind × VarBind → VarBind) : Prop where
  same : ∀ x, g x = { x.1 with index := (g x).index }

theorem Flags.fst : Flags Prod.fst := ⟨fun _ => rfl⟩

theorem Flags.entry {events : List Event} (skip : Bool) (test : VarBind → BitVec 64 → VarBind × List Fired)
    (htest : ∀ v w, Step v events (test v w)) : Flags (deltaEntry skip test) := by
  refine ⟨fun x => ?_⟩
  unfold deltaEntry
  cases deltaSample skip x with
  | none => rfl
  | some d => exact (htest x.1 d).same

theorem Flags.comp {g h : VarBind × VarBind → VarBind} (hg : Flags g) (hh : Flags h) : Flags fun x => h (g x, x.2) := by
  refine ⟨fun x => ?_⟩
  have hsame := hh.same (g x, x.2)
  rw [hg.same x] at hsame ⊢
  exact hsame

theorem zip_map_zip (g : VarBind × VarBind → VarBind) (hlen : var.length ≤ old.length) :
    ((var.zip old).map g).zip old = (var.zip old).map fun x => (g x, x.2) := by
  induction var generalizing old with
  | nil => rfl
  | cons v var ih =>
    cases old with
    | nil => exact absurd hlen (Nat.not_succ_le_zero _)
    | cons o old =>
      rw [zip_cons_cons, map_cons, zip_cons_cons, ih (Nat.le_of_succ_le_succ hlen), map_cons]

theorem Flags.samples {g : VarBind × VarBind → VarBind} (hg : Flags g) (skip : Bool) (l : List (VarBind × VarBind)) :
    deltaSamples skip (l.map fun x => (g x, x.2)) = deltaSamples skip l := by
  unfold deltaSamples
  rw [filterMap_map]
  refine filterMap_congr fun x _ => ?_
  dsimp only [Function.comp]
  rw [hg.same x, deltaSample_index]

theorem Flags.readable {g : VarBind × VarBind → VarBind} (hg : Flags g) {l : List (VarBind × VarBind)}
    (h : ∀ x ∈ l, ReadablePair x) : ∀ x ∈ l.map fun x => (g x, x.2), ReadablePair x := by
  intro y hy
  obtain ⟨x, hx, rfl⟩ := mem_map.mp hy
  obtain ⟨hread, hmatch⟩ := h x hx
  refine ⟨?_, hmatch⟩
  rw [hg.same x]
  exact hread

theorem tests_delta (hdelta : t.delta = true) (hskip : skips t dv1 dv2 = some skip) (configured : Bool)
    {events : List Event} {test : VarBind → BitVec 64 → VarBind × List Fired}
    (htest : ∀ v w, Step v events (test v w)) (hlen : var.length ≤ old.length)
    (hread : ∀ x ∈ var.zip old, ReadablePair x) :
    ∃ g evaluated fired, (if configured then testLoop t dv1 dv2 test var (if t.delta then old else [])
        else some ⟨var, [], []⟩) = some ⟨(var.zip old).map g, evaluated, fired⟩ ∧ Flags g ∧
      (configured = true → evaluated = deltaSamples skip (var.zip old)) := by
  cases configured with
  | true =>
    rw [hdelta, if_pos rfl, if_pos rfl]
    obtain ⟨fired, hloop⟩ := testLoop_delta hdelta hskip test (fun v w => (htest v w).named) hlen hread
    exact ⟨_, _, fired, hloop, Flags.entry skip test htest, fun _ => rfl⟩
  | false =>
    refine ⟨Prod.fst, [], [], ?_, Flags.fst, fun h => absurd h Bool.false_ne_true⟩
    rw [map_fst_zip hlen]
    rfl

theorem booleanTests_delta (hdelta : t.delta = true) (hskip : skips t dv1 dv2 = some skip)
    (hlen : var.length ≤ old.length) (hread : ∀ x ∈ var.zip old, ReadablePair x) :
    ∃ g evaluated fired, booleanTests t old dv1 dv2 var = some ⟨(var.zip old).map g, evaluated, fired⟩ ∧ Flags g ∧
      ((t.boolean && t.boolEvent) = true → evaluated = deltaSamples skip (var.zip old)) :=
  tests_delta hdelta hskip _ (booleanTest_step t (old = [])) hlen hread

theorem thresholdTests_delta (hdelta : t.delta = true) (hskip : skips t dv1 dv2 = some skip)
    (hlen : var.length ≤ old.length) (hread : ∀ x ∈ var.zip old, ReadablePair x) :
    ∃ g evaluated fired, thresholdTests t old dv1 dv2 var = some ⟨(var.zip old).map g, evaluated, fired⟩ ∧ Flags g ∧
      ((t.threshold && (t.thRiseEvent || t.thFallEvent)) = true → evaluated = deltaSamples skip (var.zip old)) :=
  tests_delta hdelta hskip _ (thresholdTest_step t (old = [])) hlen hread

theorem evaluate_delta (st : State) (hdelta : t.delta = true) {dvar : List VarBind}
    (hskip : skips t dvar st.oldDeltaDs = some skip) (sysUpTime : Int) (existed : List Fired)
    (hlen : var.length ≤ st.oldResults.length) (hread : ∀ x ∈ var.zip st.oldResults, ReadablePair x) :
    ∃ g report, evaluate t st sysUpTime var dvar existed =
        some (⟨(var.zip st.oldResults).map g, dvar, sysUpTime⟩, report) ∧ Flags g ∧
      ((t.boolean && t.boolEvent) = true → report.boolean = deltaSamples skip (var.zip st.oldResults)) ∧
      ((t.threshold && (t.thRiseEvent || t.thFallEvent)) = true →
        report.threshold = deltaSamples skip (var.zip st.oldResults)) := by
  obtain ⟨g, boolean, fired, hboolean, hg, hevaluated⟩ := booleanTests_delta hdelta hskip hlen hread
  have hzip := zip_map_zip g hlen
  have hlen' : ((var.zip st.oldResults).map g).length ≤ st.oldResults.length := by
    rw [length_map, length_zip]
    exact min_le_right _ _
  have hread' : ∀ x ∈ ((var.zip st.oldResults).map g).zip st.oldResults, ReadablePair x := by
    rw [hzip]
    exact hg.readable hread
  obtain ⟨h, threshold, fired', hthreshold, hh, hevaluated'⟩ := thresholdTests_delta hdelta hskip hlen' hread'
  rw [hzip, hg.samples] at hevaluated'
  rw [hzip, map_map] at hthreshold
  have hnone : ∀ l, deltaThresholdTests t st.oldResults l = some (l, []) := by
    intro l
    unfold deltaThresholdTests
    rw [hdelta, Bool.not_true, Bool.and_false, Bool.false_and, if_neg Bool.false_ne_true]
  refine ⟨fun x => h (g x, x.2), ⟨existed ++ fired ++ fired' ++ [], boolean, threshold⟩, ?_, hg.comp hh, hevaluated,
    hevaluated'⟩
  unfold evaluate
  rw [hboolean]
  simp only [Option.bind_eq_bind, Option.bind_some]
  rw [hthreshold]
  simp only [Option.bind_some, hnone, hdelta, if_true]
  rfl

/-! ## the samples -/

theorem deltaSample_iff (hread : ReadablePair x) (d : BitVec 64) :
    deltaSample skip x = some d ↔ skip = false ∧ x.2.type ≠ asnNULL ∧
      ∃ a b, x.1.integer = some a ∧ x.2.integer = some b ∧ d = a - b := by
  unfold deltaSample
  by_cases hnone : x.1.value = none
  · rw [if_pos (.inl hnone)]
    refine iff_of_false (Option.some_ne_none d).symm ?_
    rintro ⟨-, -, a, b, ha, -⟩
    rw [integer_none hnone] at ha
    cases ha
  · by_cases hskip : skip = true
    · rw [if_pos (.inr (.inl hskip)), hskip]
      exact iff_of_false (Option.some_ne_none d).symm fun h => Bool.noConfusion h.1
    · by_cases hnull : x.2.type = asnNULL
      · rw [if_pos (.inr (.inr hnull))]
        exact iff_of_false (Option.some_ne_none d).symm fun h => h.2.1 hnull
      · obtain ⟨a, ha⟩ := hread.1.resolve_left hnone
        obtain ⟨b, hb⟩ := hread.2.resolve_left hnull
        rw [if_neg (not_or.mpr ⟨hnone, not_or.mpr ⟨hskip, hnull⟩⟩), ha, hb]
        rw [Bool.not_eq_true] at hskip
        constructor
        · intro h
          exact ⟨hskip, hnull, a, b, rfl, rfl, (Option.some_inj.mp h).symm⟩
        · rintro ⟨-, -, a', b', ha', hb', rfl⟩
          rw [← Option.some_inj.mp ha', ← Option.some_inj.mp hb']
          rfl

theorem mem_deltaSamples (hpaired : Paired N M var old) (hkept : Kept P M) (hP : Result P)
    (hold : old ≠ []) (hread : ∀ x ∈ var.zip old, ReadablePair x) (name : Name) (d : BitVec 64) :
    (name, d) ∈ deltaSamples skip (var.zip old) ↔ skip = false ∧ ∃ u ∈ N, ∃ o ∈ P, u.name = name ∧ o.name = name ∧
      ∃ a b, u.integer = some a ∧ o.integer = some b ∧ d = a - b := by
  have hmem : ∀ x, x ∈ var.zip old ↔ Matches N M x := by
    intro x
    have hx := hpaired.mem x
    unfold pairs at hx
    rw [if_neg hold] at hx
    exact hx
  unfold deltaSamples
  rw [mem_filterMap]
  constructor
  · rintro ⟨x, hx, hsome⟩
    obtain ⟨d', hd', heq⟩ := Option.map_eq_some_iff.mp hsome
    obtain ⟨rfl, rfl⟩ := Prod.mk.inj heq
    obtain ⟨hskip, hreal, a, b, ha, hb, hd⟩ := (deltaSample_iff (hread x hx) d').mp hd'
    refine ⟨hskip, ?_⟩
    cases (hmem x).mp hx with
    | @both u o hu ho hname =>
      obtain ⟨q, hq, hqo⟩ := hkept.real o ho hreal
      refine ⟨u, hu, q, hq, rfl, ?_, a, b, ha, ?_, hd⟩
      · change q.name = u.name
        rw [hname, hqo]
      · change o.integer = some b at hb
        rw [hqo] at hb
        exact hb
    | appeared => exact absurd rfl hreal
    | disappeared => cases ha
  · rintro ⟨hskip, u, hu, q, hq, rfl, hname, a, b, ha, hb, hd⟩
    obtain ⟨o, ho, hqo⟩ := hkept.all q hq
    have hreal : o.type ≠ asnNULL := by
      rw [hqo]
      exact (hP.ordinary q hq).real
    have honame : u.name = o.name := by
      rw [hqo]
      exact hname.symm
    have hointeger : o.integer = some b := by
      rw [hqo]
      exact hb
    have hx := (hmem _).mpr (.both hu ho honame)
    refine ⟨_, hx, Option.map_eq_some_iff.mpr ⟨d, ?_, rfl⟩⟩
    exact (deltaSample_iff (hread _ hx) d).mpr ⟨hskip, hreal, a, b, ha, hointeger, hd⟩

/-! ## suffixes -/

variable {dvar : List VarBind} {u m : VarBind} {discontID suffix p a b : Name} {n : Nat}

/-- The instance of a marker. -/
def markerSuffix (discontID : Name) (m : VarBind) : Name := m.name.drop discontID.length

/-- There is a marker for an instance, or behind it. -/
def Covered (discontID suffix : Name) (dvar : List VarBind) : Prop := ∃ m ∈ dvar, suffix ≤ markerSuffix discontID m

theorem append_lt_append (p a b : Name) : p ++ a < p ++ b ↔ a < b := by
  induction p with
  | nil => exact Iff.rfl
  | cons x p ih =>
    rw [cons_append, cons_append, cons_lt_cons_iff, ih]
    simp

theorem Covered.tail (h : Covered discontID suffix (m :: dvar)) (hlt : markerSuffix discontID m < suffix) :
    Covered discontID suffix dvar := by
  obtain ⟨m', hm', hle⟩ := h
  rcases mem_cons.mp hm' with rfl | hm'
  · exact absurd hlt (not_lt.mpr hle)
  · exact ⟨m', hm', hle⟩

/-! ## the loop -/

theorem alignEntry_some (rest : Bool → List VarBind → Option (List VarBind)) (hcovered : Covered discontID suffix dvar)
    (hrest : ∀ dvar', (∀ s, suffix < s → Covered discontID s dvar → Covered discontID s dvar') →
      ∃ out, rest true dvar' = some out) : ∃ out, alignEntry discontID suffix rest true dvar = some out := by
  induction dvar with
  | nil => exact absurd hcovered.choose_spec.1 not_mem_nil
  | cons m dvar ih =>
    by_cases hlt : suffix < markerSuffix discontID m
    · obtain ⟨out, hout⟩ := hrest (m :: dvar) fun _ _ h => h
      refine ⟨dummy discontID 0 :: out, ?_⟩
      unfold markerSuffix at hlt
      rw [alignEntry, if_pos hlt, if_pos rfl, hout]
      rfl
    · by_cases heq : suffix = markerSuffix discontID m
      · obtain ⟨out, hout⟩ := hrest dvar fun s hs h => h.tail (heq ▸ hs)
        refine ⟨m :: out, ?_⟩
        unfold markerSuffix at hlt heq
        rw [alignEntry, if_neg hlt, if_pos heq, hout]
        rfl
      · -- the marker is of no use, and is removed
        have hgt : markerSuffix discontID m < suffix := lt_of_le_of_ne (not_lt.mp hlt) (Ne.symm heq)
        obtain ⟨out, hout⟩ := ih (hcovered.tail hgt) fun dvar' h =>
          hrest dvar' fun s hs hs' => h s hs (hs'.tail (hgt.trans hs))
        refine ⟨out, ?_⟩
        unfold markerSuffix at hlt heq
        rw [alignEntry, if_neg hlt, if_neg heq, if_pos rfl, hout]

/-- Entries by increasing instances. -/
abbrev IncreasingFrom (n : Nat) (l : List VarBind) : Prop := l.Pairwise fun u v => u.name.drop n < v.name.drop n

theorem align_some (hvar : IncreasingFrom n var) (hcovered : ∀ v ∈ var, Covered discontID (v.name.drop n) dvar) :
    ∃ out, align discontID n var true dvar = some out := by
  induction var generalizing dvar with
  | nil => exact ⟨dvar, rfl⟩
  | cons v var ih =>
    obtain ⟨hfirst, hvar'⟩ := pairwise_cons.mp hvar
    rw [forall_mem_cons] at hcovered
    refine alignEntry_some _ hcovered.1 fun dvar' h => ?_
    exact ih hvar' fun u hu => h _ (hfirst u hu) (hcovered.2 u hu)

theorem align_first (hvar : IncreasingFrom n (v :: var)) (hfirst : v.name.drop n = markerSuffix discontID m)
    (hcovered : ∀ u ∈ v :: var, Covered discontID (u.name.drop n) (m :: dvar)) :
    ∃ out, align discontID n (v :: var) false (m :: dvar) = some (m :: out) := by
  obtain ⟨hnext, hvar'⟩ := pairwise_cons.mp hvar
  rw [forall_mem_cons] at hcovered
  have hcovered' : ∀ u ∈ var, Covered discontID (u.name.drop n) dvar := by
    intro u hu
    refine (hcovered.2 u hu).tail ?_
    rw [← hfirst]
    exact hnext u hu
  obtain ⟨out, hout⟩ := align_some hvar' hcovered'
  refine ⟨out, ?_⟩
  unfold markerSuffix at hfirst
  rw [align, alignEntry, if_neg (hfirst ▸ lt_irrefl _), if_pos hfirst, hout]
  rfl

/-! ## the first markers -/

theorem discontinuity_congr {dv1 dv1' dv2 dv2' : List VarBind} (h : dv1.head? = dv1'.head?)
    (h' : dv2.head? = dv2'.head?) : discontinuity dv1 dv2 = discontinuity dv1' dv2' := by
  unfold discontinuity
  rw [h, h']

theorem skips_congr {dv1 dv1' dv2 dv2' : List VarBind} (h : dv1.head? = dv1'.head?) (h' : dv2.head? = dv2'.head?) :
    skips t dv1 dv2 = skips t dv1' dv2' := by
  unfold skips
  rw [discontinuity_congr h h']

end Priot.MteTrigger
