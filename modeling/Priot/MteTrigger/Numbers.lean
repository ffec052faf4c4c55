/-
# Which numbers are compared

In a first run the tests compare what an entry is read as with the reference values: the number that it holds, for the
types stored as a `long` and for 64-bit integers whose halves are equal.
-/
import Priot.MteTrigger.Boolean
import Priot.MteTrigger.Threshold
import Priot.MteTrigger.Stored

namespace Priot.MteTrigger

open Lib List

variable {t : Trigger} {N M : List VarBind} {u : VarBind} {v w : Int}

/-! ## decisions -/

/-- A trigger on absolute samples with Boolean or threshold tests. -/
structure ValueTrigger (t : Trigger) : Prop where
  delta : t.delta = false
  tests : (t.boolean || t.threshold) = true

/-- What the first run is to decide for an instance whose value is `v`: which events it fires, and which tests are left
armed. A falling event is not fired without a rising one. -/
structure Decides (t : Trigger) (u : VarBind) (v : Int) (kept : List VarBind) (fired : List Fired) : Prop where
  boolean : t.boolean = true → t.boolEvent = true →
    Once (t.boolComparison.holds v t.boolValue = true ∧ t.bstart = true) (fired.count ⟨.boolean, u.name⟩) ∧
      ∀ o ∈ kept, o.name = u.name → o.armed .boolean = !t.boolComparison.holds v t.boolValue
  rising : t.threshold = true → t.thRiseEvent = true →
    Once (t.thRiseValue ≤ v ∧ t.thStartRise = true) (fired.count ⟨.thRise, u.name⟩)
  falling : t.threshold = true → t.thRiseEvent = true →
    Once (v ≤ t.thFallValue ∧ t.thStartFall = true) (fired.count ⟨.thFall, u.name⟩)
  armed : t.threshold = true → (t.thRiseEvent || t.thFallEvent) = true → ∀ o ∈ kept, o.name = u.name →
    Gauge.value.sides o = Sides.sample ⟨true, true⟩ (t.thRiseValue ≤ v) (v ≤ t.thFallValue)

/-- Whether the comparisons that are made come out the same for two numbers. -/
structure Agrees (t : Trigger) (v w : Int) : Prop where
  boolean : t.boolean = true → t.boolComparison.holds v t.boolValue = t.boolComparison.holds w t.boolValue
  rising : t.threshold = true → (t.thRiseValue ≤ v ↔ t.thRiseValue ≤ w)
  falling : t.threshold = true → (v ≤ t.thFallValue ↔ w ≤ t.thFallValue)

theorem Agrees.refl (t : Trigger) (v : Int) : Agrees t v v :=
  ⟨fun _ => rfl, fun _ => Iff.rfl, fun _ => Iff.rfl⟩

theorem Decides.congr {kept : List VarBind} {fired : List Fired} (h : Decides t u w kept fired)
    (hagrees : Agrees t v w) : Decides t u v kept fired where
  boolean hboolean hevent := by
    rw [hagrees.boolean hboolean]
    exact h.boolean hboolean hevent
  rising hthreshold hrise := by
    rw [hagrees.rising hthreshold]
    exact h.rising hthreshold hrise
  falling hthreshold hrise := by
    rw [hagrees.falling hthreshold]
    exact h.falling hthreshold hrise
  armed hthreshold hevents := by
    have hrise : decide (t.thRiseValue ≤ v) = decide (t.thRiseValue ≤ w) :=
      decide_eq_decide.mpr (hagrees.rising hthreshold)
    have hfall : decide (v ≤ t.thFallValue) = decide (w ≤ t.thFallValue) :=
      decide_eq_decide.mpr (hagrees.falling hthreshold)
    rw [hrise, hfall]
    exact h.armed hthreshold hevents

/-! ## a first run -/

/-- The entry of an instance in the first run. -/
def firstEntry (u : VarBind) : VarBind × VarBind := ({ u with index := armedAll }, dummy u.name asnNULL)

theorem firstEntry_integer (u : VarBind) : (firstEntry u).1.integer = u.integer := rfl

theorem firstEntry_sides (u : VarBind) : Gauge.value.sides (firstEntry u).1 = ⟨true, true⟩ := by
  unfold firstEntry Gauge.sides
  rw [armed_index, armed_index, armedAll_getLsbD, armedAll_getLsbD]

theorem Passed.first {fired : List Fired} (h : Passed t N [] M fired) (hN : Increasing N) (hu : u ∈ N) :
    (∀ o ∈ M, o.name = u.name → o = (pass t true (firstEntry u)).1) ∧
      ∀ f : Fired, f.event ≠ .existence → f.name = u.name →
        Once (f ∈ (pass t true (firstEntry u)).2) (fired.count f) := by
  constructor
  · intro o ho hname
    obtain ⟨x, hx, rfl⟩ := (h.mem o).mp ho
    obtain ⟨u', hu', rfl⟩ := matches_first.mp hx
    have hnamed := (pass_step t true (firstEntry u')).named
    have hsame : u' = u := hN.unique hu' hu (hnamed.symm.trans hname)
    rw [hsame]
    rfl
  · intro f hf hname
    have hfires := h.fires f hf
    have hiff : (∃ x, Matches N [] x ∧ f ∈ (pass t (decide (([] : List VarBind) = [])) x).2) ↔
        f ∈ (pass t true (firstEntry u)).2 := by
      constructor
      · rintro ⟨x, hx, hmem⟩
        obtain ⟨u', hu', rfl⟩ := matches_first.mp hx
        have hnamed := (pass_step t true (firstEntry u')).name f hmem
        have hsame : u' = u := hN.unique hu' hu (hnamed.symm.trans hname)
        rw [hsame] at hmem
        exact hmem
      · intro hmem
        exact ⟨firstEntry u, matches_first.mpr ⟨u, hu, rfl⟩, hmem⟩
    rw [hiff] at hfires
    exact hfires

theorem thresholdStep_first {w : BitVec 64} (hthreshold : t.threshold = true)
    (hevents : (t.thRiseEvent || t.thFallEvent) = true) (hw : u.integer = some w) :
    ∃ e, Gauge.value.step t true (firstEntry u) =
        ({ e with index := (Gauge.value.test t true e w.toInt).1 }, (Gauge.value.test t true e w.toInt).2) ∧
      Gauge.value.sides e = ⟨true, true⟩ ∧ e.name = u.name := by
  have hb := booleanStep_step t true (firstEntry u).1
  refine ⟨(booleanStep t true (firstEntry u).1).1, ?_, ?_, hb.named⟩
  · unfold Gauge.step thresholdStep
    dsimp only
    rw [hthreshold, hevents, Bool.and_self, if_pos rfl,
      absolute_some _ (hb.integer.trans ((firstEntry_integer u).trans hw)), thresholdTest_eq]
  · rw [← firstEntry_sides u]
    exact Gauge.value.sides_congr (booleanStep_other true (by decide)) (booleanStep_other true (by decide))

theorem mem_bothHalves_armed {up down : Bool} {index : BitVec 32} {a b : Armed} (ha : index.getLsbD a.bit = true)
    (hb : index.getLsbD b.bit = true) {fireUp fireDown : Bool} {risen fallen f : Fired} :
    f ∈ (bothHalves up down index a b fireUp fireDown risen fallen).2 ↔
      (up = true ∧ fireUp = true ∧ f = risen) ∨ down = true ∧ fireDown = true ∧ f = fallen := by
  have hsecond : (thresholdHalf up index a b fireUp risen index).1.getLsbD b.bit = true := by
    rw [thresholdHalf_getLsbD, hb, decide_eq_true rfl, Bool.or_true, ite_self]
  unfold bothHalves
  dsimp only
  rw [mem_append, mem_thresholdHalf, mem_thresholdHalf, ha, hsecond, and_iff_left rfl, and_iff_left rfl]

theorem mem_pass_first {w : BitVec 64} (hthreshold : t.threshold = true) (hrise : t.thRiseEvent = true)
    (hw : u.integer = some w) {f : Fired} (hf : f.event ∈ [Event.thRise, .thFall]) :
    f ∈ (pass t true (firstEntry u)).2 ↔ (t.thRiseValue ≤ w.toInt ∧ t.thStartRise = true ∧ f = ⟨.thRise, u.name⟩) ∨
        w.toInt ≤ t.thFallValue ∧ t.thStartFall = true ∧ f = ⟨.thFall, u.name⟩ := by
  have hevents : (t.thRiseEvent || t.thFallEvent) = true := by
    rw [hrise, Bool.true_or]
  obtain ⟨e, hstep, hsides, hname⟩ := thresholdStep_first hthreshold hevents hw
  have hup : e.armed .thRise = true := congrArg Sides.up hsides
  have hdown : e.armed .thFall = true := congrArg Sides.down hsides
  rw [armed_eq] at hup hdown
  have hfire : ∀ start : Bool, ((!true || start) && Gauge.value.riseEvent t) = true ↔ start = true := by
    intro start
    change ((!true || start) && t.thRiseEvent) = true ↔ start = true
    rw [hrise]
    cases start <;> decide
  rw [Gauge.value.mem_pass hf, hstep, ← hname]
  refine (mem_bothHalves_armed hup hdown).trans ?_
  rw [hfire, hfire, decide_eq_true_iff, decide_eq_true_iff]
  rfl

theorem run_decides (ht : ValueTrigger t) (r : Reading) (hN : Sampled r.var) :
    ∃ st report, run t State.init r = some (st, report) ∧
      ∀ u ∈ r.var, Decides t u (number u) st.oldResults report.fired := by
  have hread : ∀ u ∈ r.var, ∃ w, u.integer = some w := by
    intro u hu
    obtain ⟨v, hv⟩ := hN.stored u hu
    exact hv.readable
  have haccepted : ∀ u ∈ r.var, accepted u.type = true := by
    intro u hu
    obtain ⟨v, hv⟩ := hN.stored u hu
    exact hv.accepted
  obtain ⟨st, report, hrun, hpassed⟩ := @run_absolute t State.init r ht.delta ht.tests hN.result (.inl rfl)
    hread (fun o ho => absurd ho not_mem_nil) haccepted fun o ho => absurd ho not_mem_nil
  refine ⟨st, report, hrun, fun u hu => ?_⟩
  obtain ⟨w, hw⟩ := hread u hu
  obtain ⟨hkept, hfired⟩ := Passed.first hpassed hN.increasing hu
  have hw' : (firstEntry u).1.integer = some w := hw
  rw [number_eq hw]
  refine ⟨?_, ?_, ?_, ?_⟩
  · intro hboolean hevent
    have htrigger : BooleanTrigger t := ⟨hboolean, hevent, ht.delta⟩
    have hcompares : Compares t (firstEntry u).1 ↔ t.boolComparison.holds w.toInt t.boolValue = true := by
      unfold Compares
      rw [number_eq hw']
    constructor
    · have honce := hfired ⟨.boolean, u.name⟩ Event.noConfusion rfl
      have harmed : (firstEntry u).1.armed .boolean = true := (armed_index u _ _).trans (armedAll_getLsbD _)
      rw [pass_boolean htrigger hw', hcompares, and_iff_right harmed] at honce
      have hstart : (true = true → t.bstart = true) ∧ (firstEntry u).1.name = u.name ↔ t.bstart = true :=
        ⟨fun h => h.1 rfl, fun h => ⟨fun _ => h, rfl⟩⟩
      rw [hstart] at honce
      exact honce
    · intro o ho hname
      rw [hkept o ho hname, Bool.eq_iff_iff, pass_armed htrigger hw', hcompares, Bool.not_eq_true', Bool.not_eq_true]
  · intro hthreshold hrise
    have honce := hfired ⟨.thRise, u.name⟩ Event.noConfusion rfl
    rw [mem_pass_first hthreshold hrise hw mem_cons_self] at honce
    simp only [Fired.mk.injEq, reduceCtorEq, and_false, or_false, and_true] at honce
    exact honce
  · intro hthreshold hrise
    have honce := hfired ⟨.thFall, u.name⟩ Event.noConfusion rfl
    rw [mem_pass_first hthreshold hrise hw (mem_cons_of_mem _ mem_cons_self)] at honce
    simp only [Fired.mk.injEq, reduceCtorEq, and_false, false_or, and_true] at honce
    exact honce
  · intro hthreshold hevents o ho hname
    obtain ⟨e, hstep, hsides, -⟩ := thresholdStep_first hthreshold hevents hw
    rw [hkept o ho hname, Gauge.value.sides_pass true, hstep]
    dsimp only
    rw [Gauge.value.test_sides, hsides]
    rfl

/-! ## whose decisions are right -/

/-- The decisions for an entry are those for the number `v`, in every first run of every trigger. -/
def DecidesAlways (u : VarBind) (v : Int) : Prop :=
  ∀ (t : Trigger) (r : Reading), ValueTrigger t → Sampled r.var → u ∈ r.var →
    ∃ st report, run t State.init r = some (st, report) ∧ Decides t u v st.oldResults report.fired

/-- A trigger that compares with a reference value. -/
def equalTrigger (reference : Int) : Trigger :=
  { createEntry with boolean := true, boolEvent := true, boolComparison := .equal, boolValue := reference }

theorem once_unique {p q : Prop} {n : Nat} (h : Once p n) (h' : Once q n) : p ↔ q := by
  by_cases hp : p
  · by_cases hq : q
    · exact iff_of_true hp hq
    · rw [h.1 hp] at h'
      exact absurd (h'.2 hq) Nat.one_ne_zero
  · by_cases hq : q
    · rw [h.2 hp] at h'
      exact absurd (h'.1 hq) Nat.zero_ne_one
    · exact iff_of_false hp hq

/-- For an entry that holds a number, the decisions are those for the number exactly if its type is one that is stored
as a `long`, or its halves are equal. For other numbers a decision is right if the comparisons come out the same with
the halves swapped. -/
theorem decides_iff (u : VarBind) (v : Int) (h : Stored u v) :
    (DecidesAlways u v ↔ isLong u.type = true ∨ (counter64 v).high = (counter64 v).low) ∧
      ∀ (t : Trigger) (r : Reading), ValueTrigger t → Sampled r.var → u ∈ r.var → Agrees t v (readAs u.type v) →
        ∃ st report, run t State.init r = some (st, report) ∧ Decides t u v st.oldResults report.fired := by
  have hagrees : ∀ (t : Trigger) (r : Reading), ValueTrigger t → Sampled r.var → u ∈ r.var →
      Agrees t v (readAs u.type v) →
        ∃ st report, run t State.init r = some (st, report) ∧ Decides t u v st.oldResults report.fired := by
    intro t r ht hN hu hsame
    obtain ⟨st, report, hrun, hdecides⟩ := run_decides ht r hN
    have hu' := hdecides u hu
    rw [h.number_eq] at hu'
    exact ⟨st, report, hrun, hu'.congr hsame⟩
  refine ⟨?_, hagrees⟩
  rw [← readAs_eq_iff h.range]
  constructor
  · -- a comparison with the number itself tells it from another one
    intro halways
    have ht : ValueTrigger (equalTrigger v) := ⟨rfl, rfl⟩
    have hN : Sampled [u] := by
      refine ⟨cons_ne_nil _ _, pairwise_singleton _ _, ?_⟩
      rw [forall_mem_singleton]
      exact ⟨v, h⟩
    have hu : u ∈ [u] := mem_singleton_self u
    obtain ⟨st, report, hrun, hright⟩ := halways (equalTrigger v) ⟨[u], 0, []⟩ ht hN hu
    obtain ⟨st', report', hrun', hread⟩ := run_decides ht ⟨[u], 0, []⟩ hN
    rw [hrun] at hrun'
    obtain ⟨rfl, rfl⟩ := Prod.mk.inj (Option.some_inj.mp hrun')
    have hread' := hread u hu
    rw [h.number_eq] at hread'
    have hiff := once_unique (hright.boolean rfl rfl).1 (hread'.boolean rfl rfl).1
    have hholds := (hiff.mp ⟨decide_eq_true rfl, rfl⟩).1
    exact of_decide_eq_true hholds
  · intro hsame t r ht hN hu
    refine hagrees t r ht hN hu ?_
    rw [hsame]
    exact Agrees.refl t v

/-- A counter that holds 5. -/
def five : VarBind := ⟨[1, 3, 1], asnCOUNTER64, some (storage asnCOUNTER64 5), 0⟩

theorem five_stored : Stored five 5 where
  accepted := rfl
  range := by
    unfold InRange
    decide
  value := rfl

/-- A trigger for values of at most 7. -/
def sevenTrigger : Trigger :=
  { createEntry with boolean := true, boolEvent := true, boolComparison := .lessEqual, boolValue := 7 }

/-- The event is not fired for 5. -/
theorem five_not_below_seven :
    Stored five 5 ∧ ValueTrigger sevenTrigger ∧
      ∃ st report, run sevenTrigger State.init ⟨[five], 0, []⟩ = some (st, report) ∧
        ¬ Decides sevenTrigger five 5 st.oldResults report.fired := by
  refine ⟨five_stored, ⟨rfl, rfl⟩, ?_⟩
  have hrun : (run sevenTrigger State.init ⟨[five], 0, []⟩).map Prod.snd =
      some ⟨[], [([1, 3, 1], 21474836480)], []⟩ := by
    decide +kernel
  obtain ⟨⟨st, report⟩, hrun, rfl⟩ := Option.map_eq_some_iff.mp hrun
  refine ⟨st, _, hrun, fun hdecides => ?_⟩
  exact absurd ((hdecides.boolean rfl rfl).1.1 ⟨rfl, rfl⟩) (by decide)

theorem decides_iff_five :
    (DecidesAlways five 5 ↔ isLong five.type = true ∨ (counter64 5).high = (counter64 5).low) ∧
      ∀ (t : Trigger) (r : Reading), ValueTrigger t → Sampled r.var → five ∈ r.var →
        Agrees t 5 (readAs five.type 5) →
          ∃ st report, run t State.init r = some (st, report) ∧ Decides t five 5 st.oldResults report.fired :=
  decides_iff five 5 five_stored

end Priot.MteTrigger
