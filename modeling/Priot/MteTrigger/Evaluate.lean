/-
# The tests of absolute samples

On absolute samples a loop of tests goes through the entries one by one, and only changes their flags. Each test has
flags of its own, and fires events of its own.
-/
import Priot.MteTrigger.Existence
import Mathlib.Data.List.Perm.Basic

namespace Priot.MteTrigger

open List

variable {t : Trigger} {var old : List VarBind} {v o : VarBind} {a b : Armed} {index cmp : BitVec 32}

/-! ## flags -/

theorem Armed.bit_inj : a.bit = b.bit ↔ a = b := by
  constructor
  · cases a <;> cases b <;> simp [Armed.bit]
  · rintro rfl
    rfl

theorem Armed.bit_lt (a : Armed) : a.bit < 32 := by
  cases a <;> decide

theorem flag_and_ne_zero (index : BitVec 32) (a : Armed) : (decide (index &&& a.flag ≠ 0)) = index.getLsbD a.bit := by
  have hne : BitVec.twoPow 32 a.bit ≠ 0 := by
    cases a <;> decide
  rw [BitVec.and_comm, Armed.flag, BitVec.twoPow_and]
  cases index.getLsbD a.bit with
  | true => exact decide_eq_true hne
  | false => rfl

theorem flag_getLsbD (a b : Armed) : a.flag.getLsbD b.bit = decide (a = b) := by
  rw [Armed.flag, BitVec.getLsbD_twoPow, decide_eq_true (Armed.bit_lt a), Bool.true_and]
  exact decide_eq_decide.mpr Armed.bit_inj

theorem armed_eq (v : VarBind) (a : Armed) : v.armed a = v.index.getLsbD a.bit := flag_and_ne_zero v.index a

theorem armedAll_getLsbD (a : Armed) : armedAll.getLsbD a.bit = true := by
  cases a <;> decide

theorem clear_getLsbD (index : BitVec 32) (a b : Armed) :
    (index &&& ~~~ a.flag).getLsbD b.bit = (index.getLsbD b.bit && !decide (a = b)) := by
  rw [BitVec.getLsbD_and, BitVec.getLsbD_not, flag_getLsbD, decide_eq_true (Armed.bit_lt b), Bool.true_and]

theorem set_getLsbD (index : BitVec 32) (a b : Armed) :
    (index ||| a.flag).getLsbD b.bit = (index.getLsbD b.bit || decide (a = b)) := by
  rw [BitVec.getLsbD_or, flag_getLsbD]

/-! ## a loop of tests -/

/-- A value that can be read, or none. -/
def Readable (v : VarBind) : Prop := v.value = none ∨ ∃ w, v.integer = some w

/-- What a test makes of an entry. -/
def absolute (test : VarBind → BitVec 64 → VarBind × List Fired) (v : VarBind) : VarBind × List Fired :=
  (v.integer.map (test v)).getD (v, [])

theorem absolute_some (test : VarBind → BitVec 64 → VarBind × List Fired) {w : BitVec 64} (h : v.integer = some w) :
    absolute test v = test v w := by
  unfold absolute
  rw [h]
  rfl

theorem integer_none (h : v.value = none) : v.integer = none := by
  unfold VarBind.integer
  rw [h]
  rfl

theorem absolute_none (test : VarBind → BitVec 64 → VarBind × List Fired) (h : v.value = none) :
    absolute test v = (v, []) := by
  unfold absolute
  rw [integer_none h]
  rfl

theorem testLoop_absolute (hdelta : t.delta = false) (dv1 dv2 : List VarBind)
    (test : VarBind → BitVec 64 → VarBind × List Fired) (hread : ∀ v ∈ var, Readable v) :
    ∃ evaluated, testLoop t dv1 dv2 test var [] =
      some ⟨var.map fun v => (absolute test v).1, evaluated, var.flatMap fun v => (absolute test v).2⟩ := by
  induction var with
  | nil => exact ⟨[], rfl⟩
  | cons v var ih =>
    obtain ⟨evaluated, hrest⟩ := ih fun u hu => hread u (mem_cons_of_mem v hu)
    rcases hread v mem_cons_self with hnone | ⟨w, hw⟩
    · have hsample : sample t dv1 dv2 v [] = some (none, []) := by
        unfold sample
        rw [if_pos hnone]
        rfl
      refine ⟨evaluated, ?_⟩
      rw [testLoop, hsample]
      simp only [Option.bind_eq_bind, Option.bind_some, hrest, map_cons, flatMap_cons,
        absolute_none test hnone, nil_append]
    · have hvalue : v.value ≠ none := by
        intro hnone
        rw [integer_none hnone] at hw
        cases hw
      have hsample : sample t dv1 dv2 v [] = some (some w, []) := by
        unfold sample
        rw [if_neg hvalue, hdelta, if_neg Bool.false_ne_true, hw]
        rfl
      refine ⟨((test v w).1.name, w) :: evaluated, ?_⟩
      rw [testLoop, hsample]
      simp only [Option.bind_eq_bind, Option.bind_some, hrest, map_cons, flatMap_cons, absolute_some test hw]

/-- What the delta-threshold tests make of an entry and its match. -/
def deltaStep (t : Trigger) (v o : VarBind) : VarBind × List Fired :=
  if v.value = none ∨ o.type = asnNULL then (v, [])
  else (v.integer.bind fun x => o.integer.map fun y => deltaThresholdTest t v (x - y)).getD (v, [])

theorem deltaThresholdLoop_eq (t : Trigger) (hlen : var.length ≤ old.length)
    (hread : ∀ x ∈ var.zip old, Readable x.1 ∧ (x.2.type = asnNULL ∨ ∃ w, x.2.integer = some w)) :
    deltaThresholdLoop t var old = some ((var.zip old).map fun x => (deltaStep t x.1 x.2).1,
      (var.zip old).flatMap fun x => (deltaStep t x.1 x.2).2) := by
  induction var generalizing old with
  | nil => rfl
  | cons v var ih =>
    cases old with
    | nil => exact absurd hlen (Nat.not_succ_le_zero _)
    | cons o old =>
      rw [zip_cons_cons, forall_mem_cons] at hread
      have hrest := ih (Nat.le_of_succ_le_succ hlen) hread.2
      rw [deltaThresholdLoop]
      simp only [hrest, Option.bind_eq_bind, Option.bind_some, zip_cons_cons, map_cons, flatMap_cons]
      unfold deltaStep
      by_cases hskip : v.value = none ∨ o.type = asnNULL
      · rw [if_pos hskip, if_pos hskip]
        rfl
      · rw [not_or] at hskip
        obtain ⟨x, hx⟩ := hread.1.1.resolve_left hskip.1
        obtain ⟨y, hy⟩ := hread.1.2.resolve_left hskip.2
        rw [if_neg (not_or.mpr hskip), if_neg (not_or.mpr hskip), hx, hy]
        rfl

/-! ## what becomes of an entry -/

/-- An entry gets other flags, and fires some events, each at most once. -/
structure Step (v : VarBind) (events : List Event) (r : VarBind × List Fired) : Prop where
  same : r.1 = { v with index := r.1.index }
  name : ∀ f ∈ r.2, f.name = v.name
  events : (r.2.map Fired.event).Sublist events

theorem Step.refl (v : VarBind) (events : List Event) : Step v events (v, []) :=
  ⟨rfl, fun _ hf => absurd hf not_mem_nil, nil_sublist _⟩

variable {events : List Event} {r : VarBind × List Fired}

theorem Step.comp {events' : List Event} {r' : VarBind × List Fired} (h : Step v events r)
    (h' : Step r.1 events' r') : Step v (events ++ events') (r'.1, r.2 ++ r'.2) where
  same := by
    have hsame := h'.same
    rw [h.same] at hsame
    exact hsame
  name f hf := by
    rcases mem_append.mp hf with hf | hf
    · exact h.name f hf
    · have hname := h'.name f hf
      rw [h.same] at hname
      exact hname
  events := by
    rw [map_append]
    exact h.events.append h'.events

theorem Step.ite (h : Step v events r) (configured : Bool) : Step v events (if configured then r else (v, [])) := by
  cases configured with
  | true => exact h
  | false => exact Step.refl v events

theorem Step.named (h : Step v events r) : r.1.name = v.name := by
  rw [h.same]

theorem Step.type (h : Step v events r) : r.1.type = v.type := by
  rw [h.same]

theorem Step.value (h : Step v events r) : r.1.value = v.value := by
  rw [h.same]

theorem Step.integer (h : Step v events r) : r.1.integer = v.integer := by
  rw [h.same]
  rfl

theorem Step.readable (h : Step v events r) (hv : Readable v) : Readable r.1 := by
  unfold Readable
  rw [h.value, h.integer]
  exact hv

theorem absolute_step (test : VarBind → BitVec 64 → VarBind × List Fired)
    (htest : ∀ w, Step v events (test v w)) : Step v events (absolute test v) := by
  unfold absolute
  cases v.integer with
  | none => exact Step.refl v events
  | some w => exact htest w

theorem booleanTest_step (t : Trigger) (first : Bool) (v : VarBind) (w : BitVec 64) :
    Step v [.boolean] (booleanTest t first v w) := by
  unfold booleanTest
  split
  · split
    · refine ⟨rfl, ?_, ?_⟩
      · intro f hf
        rw [mem_ite_nil_right, mem_singleton] at hf
        rw [hf.2]
      · split
        · exact List.Sublist.refl _
        · exact nil_sublist _
    · exact Step.refl v _
  · exact ⟨rfl, fun _ hf => absurd hf not_mem_nil, nil_sublist _⟩

theorem mem_thresholdHalf {crossed fire : Bool} {f fired : Fired} :
    f ∈ (thresholdHalf crossed index a b fire fired cmp).2 ↔
      (crossed = true ∧ index.getLsbD a.bit = true) ∧ fire = true ∧ f = fired := by
  unfold thresholdHalf
  rw [flag_and_ne_zero, ← Bool.and_eq_true]
  split
  case isTrue h =>
    rw [mem_ite_nil_right, mem_singleton, and_iff_right h]
  case isFalse h =>
    exact iff_of_false not_mem_nil fun hf => h hf.1

theorem thresholdHalf_getLsbD {crossed fire : Bool} {fired : Fired} (c : Armed) :
    (thresholdHalf crossed index a b fire fired cmp).1.getLsbD c.bit =
      if crossed && index.getLsbD a.bit then cmp.getLsbD c.bit && !decide (a = c) || decide (b = c)
      else cmp.getLsbD c.bit := by
  unfold thresholdHalf
  rw [flag_and_ne_zero]
  split
  · rw [set_getLsbD, clear_getLsbD]
  · rfl

theorem thresholdHalf_sublist (crossed fire : Bool) (fired : Fired) (index cmp : BitVec 32) (a b : Armed) :
    ((thresholdHalf crossed index a b fire fired cmp).2.map Fired.event).Sublist [fired.event] := by
  unfold thresholdHalf
  split
  · split
    · exact List.Sublist.refl _
    · exact nil_sublist _
  · exact nil_sublist _

theorem thresholdTest_step (t : Trigger) (first : Bool) (v : VarBind) (w : BitVec 64) :
    Step v [.thRise, .thFall] (thresholdTest t first v w) where
  same := rfl
  name f hf := by
    rcases mem_append.mp hf with hf | hf
    · rw [(mem_thresholdHalf.mp hf).2.2]
    · rw [(mem_thresholdHalf.mp hf).2.2]
  events := by
    unfold thresholdTest
    rw [map_append]
    exact (thresholdHalf_sublist _ _ ⟨.thRise, v.name⟩ _ _ _ _).append
      (thresholdHalf_sublist _ _ ⟨.thFall, v.name⟩ _ _ _ _)

theorem deltaThresholdTest_step (t : Trigger) (v : VarBind) (w : BitVec 64) :
    Step v [.thDRise, .thDFall] (deltaThresholdTest t v w) where
  same := rfl
  name f hf := by
    rcases mem_append.mp hf with hf | hf
    · rw [(mem_thresholdHalf.mp hf).2.2]
    · rw [(mem_thresholdHalf.mp hf).2.2]
  events := by
    unfold deltaThresholdTest
    rw [map_append]
    exact (thresholdHalf_sublist _ _ ⟨.thDRise, v.name⟩ _ _ _ _).append
      (thresholdHalf_sublist _ _ ⟨.thDFall, v.name⟩ _ _ _ _)

/-- The Boolean test of an entry, if the trigger has one. -/
def booleanStep (t : Trigger) (first : Bool) (v : VarBind) : VarBind × List Fired :=
  if t.boolean && t.boolEvent then absolute (booleanTest t first) v else (v, [])

/-- Its threshold tests. -/
def thresholdStep (t : Trigger) (first : Bool) (v : VarBind) : VarBind × List Fired :=
  if t.threshold && (t.thRiseEvent || t.thFallEvent) then absolute (thresholdTest t first) v else (v, [])

/-- Its delta-threshold tests. In the first run an entry is taken to be matched with a dummy. -/
def deltaThresholdStep (t : Trigger) (v o : VarBind) : VarBind × List Fired :=
  if t.threshold && (t.thDRiseEvent || t.thDFallEvent) then deltaStep t v o else (v, [])

/-- What a run makes of an entry and its match. -/
def pass (t : Trigger) (first : Bool) (x : VarBind × VarBind) : VarBind × List Fired :=
  let b := booleanStep t first x.1
  let h := thresholdStep t first b.1
  let d := deltaThresholdStep t h.1 x.2
  (d.1, b.2 ++ (h.2 ++ d.2))

theorem booleanStep_step (t : Trigger) (first : Bool) (v : VarBind) : Step v [.boolean] (booleanStep t first v) :=
  (absolute_step _ (booleanTest_step t first v)).ite _

theorem thresholdStep_step (t : Trigger) (first : Bool) (v : VarBind) :
    Step v [.thRise, .thFall] (thresholdStep t first v) :=
  (absolute_step _ (thresholdTest_step t first v)).ite _

theorem deltaStep_step (t : Trigger) (v o : VarBind) : Step v [.thDRise, .thDFall] (deltaStep t v o) := by
  unfold deltaStep
  split
  · exact Step.refl v _
  · cases v.integer with
    | none => exact Step.refl v _
    | some x =>
      cases o.integer with
      | none => exact Step.refl v _
      | some y => exact deltaThresholdTest_step t v (x - y)

theorem deltaThresholdStep_step (t : Trigger) (v o : VarBind) :
    Step v [.thDRise, .thDFall] (deltaThresholdStep t v o) :=
  (deltaStep_step t v o).ite _

theorem pass_step (t : Trigger) (first : Bool) (x : VarBind × VarBind) :
    Step x.1 [.boolean, .thRise, .thFall, .thDRise, .thDFall] (pass t first x) := by
  have h := (thresholdStep_step t first (booleanStep t first x.1).1).comp
    (deltaThresholdStep_step t (thresholdStep t first (booleanStep t first x.1).1).1 x.2)
  exact (booleanStep_step t first x.1).comp h

theorem Step.not_mem (h : Step v events r) {f : Fired} (hf : f.event ∉ events) : f ∉ r.2 := by
  intro hmem
  exact hf (h.events.subset (mem_map_of_mem hmem))

variable {first : Bool} {x : VarBind × VarBind} {f : Fired}

theorem mem_pass_boolean (h : f.event = .boolean) : f ∈ (pass t first x).2 ↔ f ∈ (booleanStep t first x.1).2 := by
  have hthreshold : f.event ∉ [Event.thRise, .thFall] := by
    rw [h]
    decide
  have hdelta : f.event ∉ [Event.thDRise, .thDFall] := by
    rw [h]
    decide
  unfold pass
  rw [mem_append, mem_append, or_iff_left]
  rintro (hf | hf)
  · exact (thresholdStep_step t first _).not_mem hthreshold hf
  · exact (deltaThresholdStep_step t _ _).not_mem hdelta hf

theorem mem_pass_threshold (h : f.event ∈ [Event.thRise, .thFall]) :
    f ∈ (pass t first x).2 ↔ f ∈ (thresholdStep t first (booleanStep t first x.1).1).2 := by
  have hboolean : f.event ∉ [Event.boolean] :=
    (by decide : ∀ e ∈ [Event.thRise, .thFall], e ∉ [Event.boolean]) _ h
  have hdelta : f.event ∉ [Event.thDRise, .thDFall] :=
    (by decide : ∀ e ∈ [Event.thRise, .thFall], e ∉ [Event.thDRise, .thDFall]) _ h
  unfold pass
  rw [mem_append, mem_append, or_iff_right, or_iff_left]
  · exact (deltaThresholdStep_step t _ _).not_mem hdelta
  · exact (booleanStep_step t first _).not_mem hboolean

theorem mem_pass_deltaThreshold (h : f.event ∈ [Event.thDRise, .thDFall]) : f ∈ (pass t first x).2 ↔
      f ∈ (deltaThresholdStep t (thresholdStep t first (booleanStep t first x.1).1).1 x.2).2 := by
  have hboolean : f.event ∉ [Event.boolean] :=
    (by decide : ∀ e ∈ [Event.thDRise, .thDFall], e ∉ [Event.boolean]) _ h
  have hthreshold : f.event ∉ [Event.thRise, .thFall] :=
    (by decide : ∀ e ∈ [Event.thDRise, .thDFall], e ∉ [Event.thRise, .thFall]) _ h
  unfold pass
  rw [mem_append, mem_append, or_iff_right, or_iff_right]
  · exact (thresholdStep_step t first _).not_mem hthreshold
  · exact (booleanStep_step t first _).not_mem hboolean

theorem pass_none (t : Trigger) (first : Bool) (h : x.1.value = none) : pass t first x = (x.1, []) := by
  have hboolean : booleanStep t first x.1 = (x.1, []) := by
    unfold booleanStep
    rw [absolute_none _ h, ite_self]
  have hthreshold : thresholdStep t first x.1 = (x.1, []) := by
    unfold thresholdStep
    rw [absolute_none _ h, ite_self]
  have hdelta : deltaThresholdStep t x.1 x.2 = (x.1, []) := by
    have hskip : deltaStep t x.1 x.2 = (x.1, []) := if_pos (.inl h)
    unfold deltaThresholdStep
    rw [hskip, ite_self]
  unfold pass
  rw [hboolean]
  dsimp only
  rw [hthreshold]
  dsimp only
  rw [hdelta]
  rfl

/-! ## the flags of the other tests -/

theorem armed_index (v : VarBind) (a : Armed) (index : BitVec 32) :
    VarBind.armed { v with index := index } a = index.getLsbD a.bit := armed_eq _ a

variable {c : Armed}

theorem thresholdHalf_other {crossed fire : Bool} {fired : Fired} (ha : a ≠ c) (hb : b ≠ c) :
    (thresholdHalf crossed index a b fire fired cmp).1.getLsbD c.bit = cmp.getLsbD c.bit := by
  rw [thresholdHalf_getLsbD, decide_eq_false ha, decide_eq_false hb, Bool.not_false, Bool.and_true, Bool.or_false,
    ite_self]

theorem booleanTest_other (first : Bool) (w : BitVec 64) (h : .boolean ≠ c) :
    (booleanTest t first v w).1.armed c = v.armed c := by
  unfold booleanTest
  split
  · split
    · rw [armed_index, clear_getLsbD, decide_eq_false h, Bool.not_false, Bool.and_true, armed_eq]
    · rfl
  · rw [armed_index, set_getLsbD, decide_eq_false h, Bool.or_false, armed_eq]

theorem thresholdTest_other (first : Bool) (w : BitVec 64) (hrise : .thRise ≠ c) (hfall : .thFall ≠ c) :
    (thresholdTest t first v w).1.armed c = v.armed c := by
  unfold thresholdTest
  rw [armed_index, thresholdHalf_other hfall hrise, thresholdHalf_other hrise hfall, armed_eq]

theorem deltaThresholdTest_other (w : BitVec 64) (hrise : .thDRise ≠ c) (hfall : .thDFall ≠ c) :
    (deltaThresholdTest t v w).1.armed c = v.armed c := by
  unfold deltaThresholdTest
  rw [armed_index, thresholdHalf_other hfall hrise, thresholdHalf_other hrise hfall, armed_eq]

theorem absolute_other (test : VarBind → BitVec 64 → VarBind × List Fired)
    (htest : ∀ w, (test v w).1.armed c = v.armed c) : (absolute test v).1.armed c = v.armed c := by
  unfold absolute
  cases v.integer with
  | none => rfl
  | some w => exact htest w

theorem booleanStep_other (first : Bool) (h : .boolean ≠ c) : (booleanStep t first v).1.armed c = v.armed c := by
  unfold booleanStep
  split
  · exact absolute_other _ fun w => booleanTest_other first w h
  · rfl

theorem thresholdStep_other (first : Bool) (hrise : .thRise ≠ c) (hfall : .thFall ≠ c) :
    (thresholdStep t first v).1.armed c = v.armed c := by
  unfold thresholdStep
  split
  · exact absolute_other _ fun w => thresholdTest_other first w hrise hfall
  · rfl

theorem deltaThresholdStep_other (hrise : .thDRise ≠ c) (hfall : .thDFall ≠ c) :
    (deltaThresholdStep t v o).1.armed c = v.armed c := by
  unfold deltaThresholdStep
  split
  · unfold deltaStep
    split
    · rfl
    · cases v.integer with
      | none => rfl
      | some x =>
        cases o.integer with
        | none => rfl
        | some y => exact deltaThresholdTest_other (x - y) hrise hfall
  · rfl

end Priot.MteTrigger
