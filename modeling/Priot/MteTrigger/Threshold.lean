/-
# Threshold triggers

The threshold and the delta-threshold tests are of one kind: each has two sides, of which a sample disarms one and arms
the other. Both fire a falling event only if there is a rising one.
-/
import Priot.MteTrigger.Absolute
import Priot.MteTrigger.Integers
import Priot.Lib.Hysteresis

namespace Priot.MteTrigger

open Lib List

variable {t : Trigger} {N M : List VarBind} {u v o : VarBind} {x : VarBind × VarBind} {st : State} {r : Reading}
  {a b : Armed} {index : BitVec 32}

/-! ## the two halves of a test -/

/-- Both halves, on one copy of the flags. -/
def bothHalves (up down : Bool) (index : BitVec 32) (a b : Armed) (fireUp fireDown : Bool) (risen fallen : Fired) :
    BitVec 32 × List Fired :=
  let r := thresholdHalf up index a b fireUp risen index
  let s := thresholdHalf down r.1 b a fireDown fallen r.1
  (s.1, r.2 ++ s.2)

/-- The flags of two sides. -/
def sidesOf (index : BitVec 32) (a b : Armed) : Sides := ⟨index.getLsbD a.bit, index.getLsbD b.bit⟩

theorem bothHalves_sides (index : BitVec 32) (up down : Bool) (fireUp fireDown : Bool) (risen fallen : Fired)
    (hab : a ≠ b) :
    sidesOf (bothHalves up down index a b fireUp fireDown risen fallen).1 a b = (sidesOf index a b).sample up down := by
  unfold bothHalves sidesOf Sides.sample
  simp only [thresholdHalf_getLsbD, decide_true, decide_eq_false hab, decide_eq_false hab.symm, Bool.not_true,
    Bool.not_false, Bool.and_false, Bool.and_true, Bool.or_false, Bool.or_true]
  cases hup : up && index.getLsbD a.bit with
  | true => cases down <;> simp
  | false =>
    cases hdown : down && index.getLsbD b.bit with
    | true => simp [hdown]
    | false => simp [hdown]

theorem second_half {up down : Bool} (hdisjoint : down = true → up = false) (index : BitVec 32) (a b : Armed)
    (fireUp fireDown : Bool) (risen fallen : Fired) :
    let r := thresholdHalf up index a b fireUp risen index
    thresholdHalf down r.1 b a fireDown fallen r.1 = thresholdHalf down index b a fireDown fallen r.1 := by
  intro r
  cases hdown : down with
  | false => rfl
  | true =>
    have hr : r.1 = index := by
      change (thresholdHalf up index a b fireUp risen index).1 = index
      rw [hdisjoint hdown]
      rfl
    rw [hr]

theorem mem_bothHalves {up down : Bool} (hdisjoint : down = true → up = false) {fireUp fireDown : Bool}
    {risen fallen f : Fired} : f ∈ (bothHalves up down index a b fireUp fireDown risen fallen).2 ↔
      ((up = true ∧ index.getLsbD a.bit = true) ∧ fireUp = true ∧ f = risen) ∨
        (down = true ∧ index.getLsbD b.bit = true) ∧ fireDown = true ∧ f = fallen := by
  unfold bothHalves
  dsimp only
  rw [mem_append, second_half hdisjoint, mem_thresholdHalf, mem_thresholdHalf]

/-! ## the two tests -/

/-- The two tests: of the values themselves, and of their differences. -/
inductive Gauge
  | value
  | delta

namespace Gauge

variable (g : Gauge) (t : Trigger)

def upper : Gauge → Armed
  | value => .thRise
  | delta => .thDRise

def lower : Gauge → Armed
  | value => .thFall
  | delta => .thDFall

def risingEvent : Gauge → Event
  | value => .thRise
  | delta => .thDRise

def fallingEvent : Gauge → Event
  | value => .thFall
  | delta => .thDFall

def riseValue (t : Trigger) : Gauge → Int
  | value => t.thRiseValue
  | delta => t.thDRiseValue

def fallValue (t : Trigger) : Gauge → Int
  | value => t.thFallValue
  | delta => t.thDFallValue

/-- Whether there is a rising event. -/
def riseEvent (t : Trigger) : Gauge → Bool
  | value => t.thRiseEvent
  | delta => t.thDRiseEvent

/-- Whether there is a falling event. -/
def fallEvent (t : Trigger) : Gauge → Bool
  | value => t.thFallEvent
  | delta => t.thDFallEvent

/-- Whether the rising event may be fired in the first run. There are no differences then. -/
def startRise (t : Trigger) : Gauge → Bool
  | value => t.thStartRise
  | delta => true

/-- Whether the falling event may be fired in the first run. -/
def startFall (t : Trigger) : Gauge → Bool
  | value => t.thStartFall
  | delta => true

/-- What is tested of an entry and its match. -/
def input : Gauge → VarBind × VarBind → Option Int
  | value, x => some (number x.1)
  | delta, x => if x.2.type = asnNULL then none else some (number x.1 - number x.2)

/-- Its flags. -/
def sides (v : VarBind) : Sides := ⟨v.armed g.upper, v.armed g.lower⟩

/-- Rising and falling samples. -/
def Rises (d : Int) : Prop := g.riseValue t ≤ d

def Falls (d : Int) : Prop := d ≤ g.fallValue t

instance : DecidablePred (g.Rises t) := fun d => Int.decLe _ d

instance : DecidablePred (g.Falls t) := fun d => Int.decLe d _

end Gauge

/-- A threshold trigger on absolute samples, with rising above falling values. It may have other tests as well. -/
structure ThresholdTrigger (t : Trigger) : Prop where
  threshold : t.threshold = true
  delta : t.delta = false
  apart : ∀ g : Gauge, g.fallValue t < g.riseValue t

theorem ThresholdTrigger.disjoint (ht : ThresholdTrigger t) (g : Gauge) (d : Int) (h : g.Rises t d) :
    ¬ g.Falls t d := by
  intro hfalls
  have hapart := ht.apart g
  unfold Gauge.Rises at h
  unfold Gauge.Falls at hfalls
  omega

theorem ThresholdTrigger.disjoint' (ht : ThresholdTrigger t) (g : Gauge) (d : Int) (h : decide (g.Falls t d) = true) :
    decide (g.Rises t d) = false :=
  decide_eq_false fun hrises => ht.disjoint g d hrises (of_decide_eq_true h)

/-- Both halves of one of the tests. -/
def Gauge.test (g : Gauge) (t : Trigger) (first : Bool) (v : VarBind) (d : Int) : BitVec 32 × List Fired :=
  bothHalves (g.Rises t d) (g.Falls t d) v.index g.upper g.lower ((!first || g.startRise t) && g.riseEvent t)
    ((!first || g.startFall t) && g.riseEvent t) ⟨g.risingEvent, v.name⟩ ⟨g.fallingEvent, v.name⟩

theorem thresholdTest_eq (t : Trigger) (first : Bool) (v : VarBind) (w : BitVec 64) :
    thresholdTest t first v w = ({ v with index := (Gauge.value.test t first v w.toInt).1 },
      (Gauge.value.test t first v w.toInt).2) := rfl

theorem deltaThresholdTest_eq (ht : ThresholdTrigger t) (first : Bool) (v : VarBind) (w : BitVec 64) :
    deltaThresholdTest t v w = ({ v with index := (Gauge.delta.test t first v w.toInt).1 },
      (Gauge.delta.test t first v w.toInt).2) := by
  have hfire : ((!first || Gauge.delta.startRise t) && Gauge.delta.riseEvent t) = t.thDRiseEvent := by
    change ((!first || true) && t.thDRiseEvent) = _
    rw [Bool.or_true, Bool.true_and]
  have hfire' : ((!first || Gauge.delta.startFall t) && Gauge.delta.riseEvent t) = t.thDRiseEvent := hfire
  have hsecond := second_half (ht.disjoint' .delta w.toInt) v.index .thDRise .thDFall t.thDRiseEvent t.thDRiseEvent
    ⟨.thDRise, v.name⟩ ⟨.thDFall, v.name⟩
  unfold Gauge.test bothHalves
  rw [hfire, hfire']
  dsimp only at hsecond ⊢
  unfold Gauge.upper Gauge.lower Gauge.risingEvent Gauge.fallingEvent
  dsimp only
  rw [hsecond]
  rfl

/-! ## an entry -/

theorem Gauge.sides_congr {v v' : VarBind} (g : Gauge) (hupper : v'.armed g.upper = v.armed g.upper)
    (hlower : v'.armed g.lower = v.armed g.lower) : g.sides v' = g.sides v := by
  unfold sides
  rw [hupper, hlower]

theorem Gauge.test_sides (g : Gauge) (t : Trigger) (first : Bool) (v : VarBind) (d : Int) :
    g.sides { v with index := (g.test t first v d).1 } = (g.sides v).sample (g.Rises t d) (g.Falls t d) := by
  have hne : g.upper ≠ g.lower := by
    cases g <;> decide
  have hsides := bothHalves_sides v.index (g.Rises t d) (g.Falls t d)
    ((!first || g.startRise t) && g.riseEvent t) ((!first || g.startFall t) && g.riseEvent t) ⟨g.risingEvent, v.name⟩
    ⟨g.fallingEvent, v.name⟩ hne
  unfold sides
  rw [armed_index, armed_index, armed_eq, armed_eq]
  exact hsides

theorem Gauge.mem_test (ht : ThresholdTrigger t) (g : Gauge) (first : Bool) (v : VarBind) (d : Int) (f : Fired) :
    f ∈ (g.test t first v d).2 ↔
      ((g.Rises t d ∧ (g.sides v).up = true) ∧ ((first = true → g.startRise t = true) ∧ g.riseEvent t = true) ∧
        f = ⟨g.risingEvent, v.name⟩) ∨
      (g.Falls t d ∧ (g.sides v).down = true) ∧ ((first = true → g.startFall t = true) ∧ g.riseEvent t = true) ∧
        f = ⟨g.fallingEvent, v.name⟩ := by
  have hfire : ∀ start : Bool, ((!first || start) && g.riseEvent t) = true ↔
      (first = true → start = true) ∧ g.riseEvent t = true := by
    intro start
    cases first <;> simp
  unfold test sides
  rw [mem_bothHalves (ht.disjoint' g d), hfire, hfire, decide_eq_true_iff, decide_eq_true_iff, armed_eq, armed_eq]

/-- The step of a run that makes the test. -/
def Gauge.step (t : Trigger) (first : Bool) (x : VarBind × VarBind) : Gauge → VarBind × List Fired
  | value => thresholdStep t first (booleanStep t first x.1).1
  | delta => deltaThresholdStep t (thresholdStep t first (booleanStep t first x.1).1).1 x.2

theorem Gauge.mem_pass (g : Gauge) {first : Bool} {f : Fired} (h : f.event ∈ [g.risingEvent, g.fallingEvent]) :
    f ∈ (pass t first x).2 ↔ f ∈ (g.step t first x).2 := by
  cases g with
  | value => exact mem_pass_threshold h
  | delta => exact mem_pass_deltaThreshold h

theorem Gauge.sides_pass (g : Gauge) (first : Bool) : g.sides (pass t first x).1 = g.sides (g.step t first x).1 := by
  cases g with
  | value =>
    exact Gauge.value.sides_congr (deltaThresholdStep_other (by decide) (by decide))
      (deltaThresholdStep_other (by decide) (by decide))
  | delta => rfl

theorem Gauge.input_null (h : x.2.type = asnNULL) : Gauge.delta.input x = none := if_pos h

theorem Gauge.input_real (h : x.2.type ≠ asnNULL) : Gauge.delta.input x = some (number x.1 - number x.2) := if_neg h

theorem Gauge.step_none (g : Gauge) (first : Bool) (h : g.input x = none) :
    g.sides (g.step t first x).1 = g.sides x.1 ∧ (g.step t first x).2 = [] := by
  cases g with
  | value => cases h
  | delta =>
    have hnull : x.2.type = asnNULL := by
      by_contra hreal
      rw [input_real hreal] at h
      cases h
    have hstep : Gauge.delta.step t first x = ((thresholdStep t first (booleanStep t first x.1).1).1, []) := by
      unfold step deltaThresholdStep
      dsimp only
      rw [deltaStep_null t _ hnull, ite_self]
    rw [hstep]
    refine ⟨Gauge.delta.sides_congr ?_ ?_, rfl⟩
    · rw [thresholdStep_other first (by decide) (by decide), booleanStep_other first (by decide)]
    · rw [thresholdStep_other first (by decide) (by decide), booleanStep_other first (by decide)]

theorem Gauge.step_some (ht : ThresholdTrigger t) (g : Gauge) (first : Bool)
    (hconf : (g.riseEvent t || g.fallEvent t) = true) (hx : Integer32 x.1)
    (hmatch : x.2.type = asnNULL ∨ Integer32 x.2) {d : Int} (h : g.input x = some d) :
    ∃ v, g.step t first x = ({ v with index := (g.test t first v d).1 }, (g.test t first v d).2) ∧
      g.sides v = g.sides x.1 ∧ v.name = x.1.name := by
  obtain ⟨w, hw⟩ := hx.readable
  have hb := booleanStep_step t first x.1
  cases g with
  | value =>
    refine ⟨(booleanStep t first x.1).1, ?_, Gauge.value.sides_congr ?_ ?_, hb.named⟩
    · have hd : w.toInt = d := by
        rw [← number_eq hw]
        exact Option.some_inj.mp h
      unfold step thresholdStep
      change (t.thRiseEvent || t.thFallEvent) = true at hconf
      dsimp only
      rw [ht.threshold, hconf, Bool.and_self, if_pos rfl, absolute_some _ (hb.integer.trans hw), thresholdTest_eq, hd]
    · exact booleanStep_other first (by decide)
    · exact booleanStep_other first (by decide)
  | delta =>
    have hh := thresholdStep_step t first (booleanStep t first x.1).1
    have hvalue : x.1.value ≠ none := by
      intro hnone
      rw [integer_none hnone] at hw
      cases hw
    have hreal : x.2.type ≠ asnNULL := by
      intro hnull
      rw [input_null hnull] at h
      cases h
    have hmatch' := hmatch.resolve_left hreal
    obtain ⟨w', hw'⟩ := hmatch'.readable
    refine ⟨(thresholdStep t first (booleanStep t first x.1).1).1, ?_, Gauge.delta.sides_congr ?_ ?_,
      hh.named.trans hb.named⟩
    · have hd : (w - w').toInt = d := by
        rw [number_sub hx hmatch' hw hw']
        rw [input_real hreal] at h
        exact Option.some_inj.mp h
      have hskip :
          ¬ ((thresholdStep t first (booleanStep t first x.1).1).1.value = none ∨ x.2.type = asnNULL) := by
        rw [hh.value, hb.value]
        exact not_or.mpr ⟨hvalue, hreal⟩
      unfold step deltaThresholdStep
      change (t.thDRiseEvent || t.thDFallEvent) = true at hconf
      dsimp only
      rw [ht.threshold, hconf, Bool.and_self, if_pos rfl]
      unfold deltaStep
      rw [if_neg hskip, hh.integer, hb.integer, hw, hw']
      change deltaThresholdTest t _ (w - w') = _
      rw [deltaThresholdTest_eq ht first, hd]
    · rw [thresholdStep_other first (by decide) (by decide), booleanStep_other first (by decide)]
    · rw [thresholdStep_other first (by decide) (by decide), booleanStep_other first (by decide)]

theorem Gauge.pass_sides (ht : ThresholdTrigger t) (g : Gauge) (first : Bool)
    (hconf : (g.riseEvent t || g.fallEvent t) = true) (hx : Integer32 x.1)
    (hmatch : x.2.type = asnNULL ∨ Integer32 x.2) : g.sides (pass t first x).1 =
      (g.input x).elim (g.sides x.1) fun d => (g.sides x.1).sample (g.Rises t d) (g.Falls t d) := by
  rw [g.sides_pass first]
  cases h : g.input x with
  | none => exact (g.step_none first h).1
  | some d =>
    obtain ⟨v, hstep, hsides, -⟩ := g.step_some ht first hconf hx hmatch h
    rw [hstep]
    dsimp only [Option.elim]
    rw [g.test_sides, hsides]

theorem Gauge.mem_pass_iff (ht : ThresholdTrigger t) (g : Gauge) (first : Bool)
    (hconf : (g.riseEvent t || g.fallEvent t) = true) (hx : Integer32 x.1)
    (hmatch : x.2.type = asnNULL ∨ Integer32 x.2) {f : Fired} (hf : f.event ∈ [g.risingEvent, g.fallingEvent]) :
    f ∈ (pass t first x).2 ↔ ∃ d, g.input x = some d ∧
      (((g.Rises t d ∧ (g.sides x.1).up = true) ∧ ((first = true → g.startRise t = true) ∧ g.riseEvent t = true) ∧
        f = ⟨g.risingEvent, x.1.name⟩) ∨
      (g.Falls t d ∧ (g.sides x.1).down = true) ∧ ((first = true → g.startFall t = true) ∧ g.riseEvent t = true) ∧
        f = ⟨g.fallingEvent, x.1.name⟩) := by
  rw [g.mem_pass hf]
  cases h : g.input x with
  | none =>
    rw [(g.step_none first h).2]
    refine iff_of_false not_mem_nil ?_
    rintro ⟨d, hd, -⟩
    cases hd
  | some d =>
    obtain ⟨v, hstep, hsides, hname⟩ := g.step_some ht first hconf hx hmatch h
    rw [hstep, g.mem_test ht, hsides, hname]
    constructor
    · exact fun hfired => ⟨d, rfl, hfired⟩
    · rintro ⟨d', hd', hfired⟩
      rw [Option.some_inj.mp hd']
      exact hfired

theorem Gauge.rising_ne_falling (g : Gauge) : g.risingEvent ≠ g.fallingEvent := by
  cases g <;> decide

theorem Gauge.mem_pass_rising (ht : ThresholdTrigger t) (g : Gauge) (first : Bool) (hrise : g.riseEvent t = true)
    (hx : Integer32 x.1) (hmatch : x.2.type = asnNULL ∨ Integer32 x.2) (name : Name) :
    ⟨g.risingEvent, name⟩ ∈ (pass t first x).2 ↔ ∃ d, g.input x = some d ∧ g.Rises t d ∧
      (g.sides x.1).up = true ∧ (first = true → g.startRise t = true) ∧ x.1.name = name := by
  have hconf : (g.riseEvent t || g.fallEvent t) = true := by
    rw [hrise, Bool.true_or]
  rw [g.mem_pass_iff ht first hconf hx hmatch mem_cons_self]
  refine exists_congr fun d => and_congr_right fun _ => ?_
  simp only [Fired.mk.injEq, g.rising_ne_falling, hrise, false_and, and_false, or_false, true_and, and_true, and_assoc,
    @eq_comm _ name]

theorem Gauge.mem_pass_falling (ht : ThresholdTrigger t) (g : Gauge) (first : Bool) (hfall : g.fallEvent t = true)
    (hx : Integer32 x.1) (hmatch : x.2.type = asnNULL ∨ Integer32 x.2) (name : Name) :
    ⟨g.fallingEvent, name⟩ ∈ (pass t first x).2 ↔ ∃ d, g.input x = some d ∧ g.Falls t d ∧
      (g.sides x.1).down = true ∧ (first = true → g.startFall t = true) ∧ g.riseEvent t = true ∧ x.1.name = name := by
  have hconf : (g.riseEvent t || g.fallEvent t) = true := by
    rw [hfall, Bool.or_true]
  have hmem : g.fallingEvent ∈ [g.risingEvent, g.fallingEvent] := mem_cons_of_mem _ mem_cons_self
  rw [g.mem_pass_iff ht first hconf hx hmatch hmem]
  refine exists_congr fun d => and_congr_right fun _ => ?_
  simp only [Fired.mk.injEq, g.rising_ne_falling.symm, false_and, and_false, false_or, true_and, and_assoc,
    @eq_comm _ name]

/-! ## the history of an instance -/

/-- The differences of consecutive values. -/
def differences : List Int → List Int
  | x :: y :: l => (y - x) :: differences (y :: l)
  | _ => []

theorem differences_concat (l : List Int) (x : Int) :
    differences (l ++ [x]) = differences l ++ (l.getLast?.map (x - ·)).toList := by
  induction l with
  | nil => rfl
  | cons y l ih =>
    cases l with
    | nil => rfl
    | cons z l =>
      rw [cons_append, cons_append, differences, ← cons_append, ih, differences, getLast?_cons_cons]
      rfl

/-- What a test has been made of, for some values. -/
def Gauge.series : Gauge → List Int → List Int
  | value, l => l
  | delta, l => differences l

/-- What it is made of, for the values up to now and another one. -/
def Gauge.current : Gauge → List Int → Int → Option Int
  | value, _, x => some x
  | delta, l, x => l.getLast?.map (x - ·)

theorem Gauge.series_concat (g : Gauge) (l : List Int) (x : Int) :
    g.series (l ++ [x]) = g.series l ++ (g.current l x).toList := by
  cases g with
  | value => rfl
  | delta => exact differences_concat l x

/-- The value of an instance. -/
def valueAt (N : List VarBind) (name : Name) : Int := ((N.find? fun u => u.name = name).map number).getD 0

/-- Its values in the runs up to now. -/
def samples (past : List Reading) (name : Name) : List Int := past.map fun r => valueAt r.var name

theorem valueAt_eq (h : Increasing N) (hu : u ∈ N) : valueAt N u.name = number u := by
  unfold valueAt
  cases hfind : N.find? fun v => v.name = u.name with
  | none =>
    rw [find?_eq_none] at hfind
    exact absurd (decide_eq_true rfl) (hfind u hu)
  | some v =>
    have hname := find?_some hfind
    simp only [decide_eq_true_eq] at hname
    rw [h.unique (mem_of_find?_eq_some hfind) hu hname]
    rfl

theorem samples_concat (past : List Reading) (h : Increasing r.var) (hu : u ∈ r.var) :
    samples (past ++ [r]) u.name = samples past u.name ++ [number u] := by
  unfold samples
  rw [map_append, map_singleton, valueAt_eq h hu]

end Priot.MteTrigger
