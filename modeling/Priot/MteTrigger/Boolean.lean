/-
# Boolean triggers

Whether an instance is armed is kept in its entry. A dummy is not armed, and hands this on to an instance that is back;
and a run whose first entry is a dummy is abandoned.
-/
import Priot.MteTrigger.Absolute
import Priot.MteTrigger.Integers

namespace Priot.MteTrigger

open List

variable {t : Trigger} {P₂ P N M : List VarBind} {v : VarBind} {x : VarBind × VarBind} {st : State} {r : Reading}

/-! ## the Boolean test of an entry -/

/-- A Boolean trigger on absolute samples that has an event. It may have other tests as well. -/
structure BooleanTrigger (t : Trigger) : Prop where
  boolean : t.boolean = true
  event : t.boolEvent = true
  delta : t.delta = false

/-- Whether the comparison holds of a value. -/
def Compares (t : Trigger) (u : VarBind) : Prop := t.boolComparison.holds (number u) t.boolValue = true

theorem booleanStep_eq (ht : BooleanTrigger t) {w : BitVec 64} (hw : v.integer = some w) (first : Bool) :
    booleanStep t first v = booleanTest t first v w := by
  unfold booleanStep
  rw [ht.boolean, ht.event, Bool.and_self, if_pos rfl, absolute_some _ hw]

theorem pass_armed (ht : BooleanTrigger t) {w : BitVec 64} (hw : x.1.integer = some w) (first : Bool) :
    (pass t first x).1.armed .boolean = true ↔ ¬ Compares t x.1 := by
  unfold pass
  rw [deltaThresholdStep_other (by decide) (by decide), thresholdStep_other first (by decide) (by decide),
    booleanStep_eq ht hw]
  unfold booleanTest Compares
  rw [number_eq hw]
  split
  case isTrue h =>
    refine iff_of_false ?_ (not_not_intro h)
    split
    · rw [armed_index, clear_getLsbD, decide_eq_true rfl, Bool.not_true, Bool.and_false]
      exact Bool.false_ne_true
    case isFalse harmed => exact harmed
  case isFalse h =>
    refine iff_of_true ?_ h
    rw [armed_index, set_getLsbD, decide_eq_true rfl, Bool.or_true]

theorem pass_boolean (ht : BooleanTrigger t) {w : BitVec 64} (hw : x.1.integer = some w) (first : Bool) (name : Name) :
    ⟨.boolean, name⟩ ∈ (pass t first x).2 ↔
      Compares t x.1 ∧ x.1.armed .boolean = true ∧ (first = true → t.bstart = true) ∧ x.1.name = name := by
  rw [mem_pass_boolean rfl, booleanStep_eq ht hw]
  unfold booleanTest Compares
  rw [number_eq hw]
  by_cases hholds : t.boolComparison.holds w.toInt t.boolValue = true
  · rw [if_pos hholds, and_iff_right hholds]
    by_cases harmed : x.1.armed .boolean = true
    · rw [if_pos harmed, and_iff_right harmed, mem_ite_nil_right, mem_singleton]
      refine and_congr ?_ ?_
      · cases first <;> simp
      · rw [Fired.mk.injEq, and_iff_right rfl]
        exact eq_comm
    · rw [if_neg harmed]
      exact iff_of_false not_mem_nil fun h => harmed h.1
  · rw [if_neg hholds]
    exact iff_of_false not_mem_nil fun h => hholds h.1

/-! ## a run -/

/-- The instances whose dummies are among the results: they were in the run before, and are not in `N`, whose last value
comes behind them. -/
def Gone (P N : List VarBind) (name : Name) : Prop :=
  (∃ o ∈ P, o.name = name) ∧ (∀ u ∈ N, u.name ≠ name) ∧ ∃ u ∈ N, name < u.name

/-- What is kept of the results `P` of a run: their entries are armed if the comparison does not hold, and dummies are
not armed. -/
structure Tracked (t : Trigger) (P₂ P M : List VarBind) : Prop where
  kept : Kept P M
  first : M = [] ↔ P = []
  armed : ∀ o ∈ M, o.type ≠ asnNULL → (o.armed .boolean = true ↔ ¬ Compares t o)
  gone : ∀ o ∈ M, o.type = asnNULL → o.armed .boolean = false ∧ Gone P₂ P o.name

theorem Tracked.init (t : Trigger) : Tracked t [] [] [] where
  kept := ⟨List.Pairwise.nil, by simp, by simp, by simp⟩
  first := Iff.rfl
  armed _ ho := absurd ho not_mem_nil
  gone _ ho := absurd ho not_mem_nil

/-- When the event is to be fired for an instance: the comparison holds now, and did not in the run before. In the first
run the startup flag must be set. -/
def Transition (t : Trigger) (P N : List VarBind) (name : Name) : Prop :=
  ∃ u ∈ N, u.name = name ∧ Compares t u ∧ (∀ o ∈ P, o.name = name → ¬ Compares t o) ∧ (P = [] → t.bstart = true)

/-- A run has fired the event once for each transition, and not for other instances. -/
def OnTransitions (t : Trigger) (P N : List VarBind) (fired : List Fired) : Prop :=
  ∀ name, Once (Transition t P N name) (fired.count ⟨.boolean, name⟩)

/-- No dummy matters in a run. -/
structure Undisturbed (t : Trigger) (P₂ P N : List VarBind) : Prop where
  /-- The first entry is no dummy. -/
  head : ∀ o ∈ P, ∃ u ∈ N, u.name ≤ o.name
  /-- The comparison holds of no instance that has been missing in the run before only. -/
  back : ∀ u ∈ N, Compares t u → ¬ Gone P₂ P u.name

theorem compares_index (t : Trigger) (u : VarBind) (index : BitVec 32) :
    Compares t { u with index := index } ↔ Compares t u := Iff.rfl

theorem Tracked.transitions (ht : BooleanTrigger t) (h : Tracked t P₂ P M) (hP : P = [] ∨ Result32 P)
    (hN : Result32 N) (hu : Undisturbed t P₂ P N) (name : Name) :
    (∃ x, Matches N M x ∧ Fired.mk .boolean name ∈ (pass t (M = []) x).2) ↔ Transition t P N name := by
  have hunique : ∀ {p q}, p ∈ P → q ∈ P → p.name = q.name → p = q := by
    intro p q hp hq
    rcases hP with rfl | hP
    · exact absurd hp not_mem_nil
    · exact hP.increasing.unique hp hq
  constructor
  · rintro ⟨x, hx, hfired⟩
    cases hx with
    | @both u o hmem ho hname =>
      obtain ⟨w, hw⟩ := (hN.integer u hmem).readable
      obtain ⟨hholds, harmed, hstart, rfl⟩ := (pass_boolean ht hw _ name).mp hfired
      have harmed' : o.armed .boolean = true := harmed
      by_cases hreal : o.type = asnNULL
      · rw [(h.gone o ho hreal).1] at harmed'
        cases harmed'
      · obtain ⟨q, hq, heq⟩ := h.kept.real o ho hreal
        have hqname : o.name = q.name := by rw [heq]
        have hnot := (h.armed o ho hreal).mp harmed'
        refine ⟨u, hmem, rfl, hholds, ?_, ?_⟩
        · intro p hp hpname
          have hsame := hunique hp hq (hpname.trans (hname.trans hqname))
          subst hsame
          rw [heq] at hnot
          exact hnot
        · intro hnil
          exact hstart (decide_eq_true (h.first.mpr hnil))
    | @appeared u hmem hnew =>
      obtain ⟨w, hw⟩ := (hN.integer u hmem).readable
      obtain ⟨hholds, -, hstart, rfl⟩ := (pass_boolean ht hw _ name).mp hfired
      refine ⟨u, hmem, rfl, hholds, ?_, ?_⟩
      · intro q hq hqname
        obtain ⟨o, ho, heq⟩ := h.kept.all q hq
        refine absurd ?_ (hnew o ho)
        rw [heq]
        exact hqname
      · intro hnil
        exact hstart (decide_eq_true (h.first.mpr hnil))
    | disappeared =>
      rw [pass_none t _ rfl] at hfired
      exact absurd hfired not_mem_nil
  · rintro ⟨u, hmem, rfl, hholds, hbefore, hstart⟩
    obtain ⟨w, hw⟩ := (hN.integer u hmem).readable
    have hstart' : decide (M = []) = true → t.bstart = true := by
      intro hnil
      exact hstart (h.first.mp (of_decide_eq_true hnil))
    by_cases hold : ∃ o ∈ M, o.name = u.name
    · obtain ⟨o, ho, hname⟩ := hold
      have hreal : o.type ≠ asnNULL := by
        intro hnull
        apply hu.back u hmem hholds
        rw [← hname]
        exact (h.gone o ho hnull).2
      obtain ⟨q, hq, heq⟩ := h.kept.real o ho hreal
      have hqname : q.name = u.name := by
        rw [← hname, heq]
      have harmed : o.armed .boolean = true := by
        rw [h.armed o ho hreal, heq]
        exact hbefore q hq hqname
      exact ⟨_, .both hmem ho hname.symm, (pass_boolean ht hw _ u.name).mpr ⟨hholds, harmed, hstart', rfl⟩⟩
    · rw [not_exists] at hold
      refine ⟨_, .appeared hmem fun o ho hname => hold o ⟨ho, hname⟩, ?_⟩
      refine (pass_boolean ht hw _ u.name).mpr ⟨hholds, ?_, hstart', rfl⟩
      rw [armed_eq]
      exact armedAll_getLsbD .boolean

theorem Tracked.next (ht : BooleanTrigger t) (h : Tracked t P₂ P M) (hN : Result32 N) {M' : List VarBind}
    {fired : List Fired} (hpassed : Passed t N M M' fired) : Tracked t P N M' where
  kept := hpassed.kept
  first := iff_of_false (hN.result.merge_ne_nil hpassed.kept) hN.nonempty
  armed o ho hreal := by
    obtain ⟨x, hx, rfl⟩ := (hpassed.mem o).mp ho
    have hsame := (pass_step t (M = []) x).same
    have hcompares : Compares t (pass t (M = []) x).1 ↔ Compares t x.1 := by
      rw [hsame]
      exact compares_index t x.1 _
    rw [hcompares]
    cases hx with
    | @both u _ hmem =>
      obtain ⟨w, hw⟩ := (hN.integer u hmem).readable
      exact pass_armed ht hw _
    | @appeared u hmem =>
      obtain ⟨w, hw⟩ := (hN.integer u hmem).readable
      exact pass_armed ht hw _
    | disappeared =>
      rw [pass_none t _ rfl] at hreal
      exact absurd rfl hreal
  gone o ho hnull := by
    obtain ⟨x, hx, rfl⟩ := (hpassed.mem o).mp ho
    have htype := (pass_step t (M = []) x).type
    rw [hnull] at htype
    cases hx with
    | @both u _ hmem => exact absurd htype.symm (hN.result.ordinary u hmem).real
    | @appeared u hmem => exact absurd htype.symm (hN.result.ordinary u hmem).real
    | @disappeared q hq hreal hgone hbefore =>
      rw [pass_none t _ rfl]
      obtain ⟨p, hp, heq⟩ := h.kept.real q hq hreal
      refine ⟨?_, ⟨p, hp, ?_⟩, hgone, hbefore⟩
      · rw [armed_eq]
        exact BitVec.getLsbD_zero
      · change p.name = q.name
        rw [heq]

theorem Tracked.run (ht : BooleanTrigger t) (h : Tracked t P₂ P st.oldResults) (hP : P = [] ∨ Result32 P)
    (hN : Result32 r.var) (hu : Undisturbed t P₂ P r.var) :
    ∃ st' report, run t st r = some (st', report) ∧ Tracked t P r.var st'.oldResults ∧
      OnTransitions t P r.var report.fired := by
  have hmergeable : Mergeable st.oldResults := by
    rcases hP with hP | hP
    · exact .inl (h.first.mpr hP)
    · exact .inr ⟨h.kept.increasing, h.kept.exists_real hP.result⟩
  have hold : ∀ o ∈ st.oldResults, o.type = asnNULL ∨ ∃ w, o.integer = some w := by
    intro o ho
    refine or_iff_not_imp_left.mpr fun hreal => ?_
    obtain ⟨q, hq, heq⟩ := h.kept.real o ho hreal
    rcases hP with rfl | hP
    · exact absurd hq not_mem_nil
    · rw [heq]
      exact (hP.integer q hq).readable
  have hhead : ∀ o ∈ st.oldResults, o.type ≠ asnNULL → ∃ u ∈ r.var, u.name ≤ o.name := by
    intro o ho hreal
    obtain ⟨q, hq, heq⟩ := h.kept.real o ho hreal
    rw [heq]
    exact hu.head q hq
  have htests : (t.boolean || t.threshold) = true := by
    rw [ht.boolean, Bool.true_or]
  obtain ⟨st', report, hrun, hpassed⟩ := run_absolute ht.delta htests hN.result hmergeable
    (fun u hu => (hN.integer u hu).readable) hold (fun u hu => (hN.integer u hu).accepted) hhead
  refine ⟨st', report, hrun, h.next ht hN hpassed, fun name => ?_⟩
  rw [← h.transitions ht hP hN hu name]
  exact hpassed.fires ⟨.boolean, name⟩ Event.noConfusion

/-! ## runs -/

/-- Each run fires on transitions; `P` are the results of the run before, none in the first run. -/
def FiresOnTransitions (t : Trigger) : List VarBind → List Reading → List Report → Prop
  | _, [], reports => reports = []
  | _, _ :: _, [] => False
  | P, r :: rs, report :: reports => OnTransitions t P r.var report.fired ∧ FiresOnTransitions t r.var rs reports

/-- No dummy matters in any run. -/
def AllUndisturbed (t : Trigger) : List VarBind → List VarBind → List Reading → Prop
  | _, _, [] => True
  | P₂, P, r :: rs => Undisturbed t P₂ P r.var ∧ AllUndisturbed t P r.var rs

theorem Tracked.runs (ht : BooleanTrigger t) (rs : List Reading) (h : Tracked t P₂ P st.oldResults)
    (hP : P = [] ∨ Result32 P) (hrs : ∀ r ∈ rs, Result32 r.var) (hu : AllUndisturbed t P₂ P rs) :
    ∃ st' reports, runs t st rs = some (st', reports) ∧ FiresOnTransitions t P rs reports := by
  induction rs generalizing st P₂ P with
  | nil => exact ⟨st, [], rfl, rfl⟩
  | cons r rs ih =>
    have hr := hrs r mem_cons_self
    obtain ⟨st', report, hrun, htracked, hfires⟩ := h.run ht hP hr hu.1
    obtain ⟨st'', reports, hruns, hall⟩ :=
      ih htracked (.inr hr) (fun r hr => hrs r (mem_cons_of_mem _ hr)) hu.2
    refine ⟨st'', report :: reports, ?_, hfires, hall⟩
    rw [runs_cons hrun, hruns]
    rfl

/-- In every sequence of runs in which no dummy matters, the event is fired just on transitions. -/
theorem boolean_fires_on_transitions (t : Trigger) (ht : BooleanTrigger t) (rs : List Reading)
    (hrs : ∀ r ∈ rs, Result32 r.var) (hu : AllUndisturbed t [] [] rs) :
    ∃ st reports, runs t State.init rs = some (st, reports) ∧ FiresOnTransitions t [] rs reports :=
  (Tracked.init t).runs ht rs (.inl rfl) hrs hu

/-- A trigger that compares with 0. -/
def nonzeroTrigger : Trigger := { createEntry with boolean := true, boolEvent := true }

theorem nonzeroTrigger_boolean : BooleanTrigger nonzeroTrigger := ⟨rfl, rfl, rfl⟩

/-- The second of three instances is missing in the second run, and is back with another value in the third. -/
def returning : List Reading :=
  [⟨[zero 1, zero 2, zero 3], 0, []⟩, ⟨[zero 1, zero 3], 1, []⟩, ⟨[zero 1, one 2, zero 3], 2, []⟩]

theorem returning_result : ∀ r ∈ returning, Result32 r.var := by
  simp only [returning, forall_mem_cons, not_mem_nil, false_implies, implies_true, and_true]
  refine ⟨⟨cons_ne_nil _ _, by decide, ?_⟩, ⟨cons_ne_nil _ _, by decide, ?_⟩,
    ⟨cons_ne_nil _ _, by decide, ?_⟩⟩
  · simp [zero_integer]
  · simp [zero_integer]
  · simp [zero_integer, one_integer]

/-- The event is not fired for the instance that is back. -/
theorem returning_not_fired :
    BooleanTrigger nonzeroTrigger ∧ (∀ r ∈ returning, Result32 r.var) ∧
      ∃ st reports, runs nonzeroTrigger State.init returning = some (st, reports) ∧
        ¬ FiresOnTransitions nonzeroTrigger [] returning reports := by
  have hruns : (runs nonzeroTrigger State.init returning).map Prod.snd =
      some [⟨[], [([1, 3, 1], 0), ([1, 3, 2], 0), ([1, 3, 3], 0)], []⟩, ⟨[], [([1, 3, 1], 0), ([1, 3, 3], 0)], []⟩,
        ⟨[], [([1, 3, 1], 0), ([1, 3, 2], 1), ([1, 3, 3], 0)], []⟩] := by
    decide +kernel
  obtain ⟨⟨st, reports⟩, hruns, rfl⟩ := Option.map_eq_some_iff.mp hruns
  refine ⟨nonzeroTrigger_boolean, returning_result, st, _, hruns, ?_⟩
  intro h
  have hthird := h.2.2.1
  have hdue : Transition nonzeroTrigger [zero 1, zero 3] [zero 1, one 2, zero 3] [1, 3, 2] := by
    refine ⟨one 2, by decide, rfl, ?_, ?_, fun h => absurd h (cons_ne_nil _ _)⟩
    · rw [Compares, number_one]
      decide
    · simp [zero]
  exact absurd ((hthird [1, 3, 2]).1 hdue) (by decide)

/-- The value of the second of two instances changes. -/
def changing : List Reading := [⟨[zero 1, zero 2], 0, []⟩, ⟨[zero 1, one 2], 1, []⟩]

theorem changing_result : ∀ r ∈ changing, Result32 r.var := by
  simp only [changing, forall_mem_cons, not_mem_nil, false_implies, implies_true, and_true]
  refine ⟨⟨cons_ne_nil _ _, by decide, ?_⟩, ⟨cons_ne_nil _ _, by decide, ?_⟩⟩
  · simp [zero_integer]
  · simp [zero_integer, one_integer]

theorem changing_undisturbed : AllUndisturbed nonzeroTrigger [] [] changing := by
  refine ⟨⟨?_, ?_⟩, ⟨?_, ?_⟩, trivial⟩
  · exact fun o ho => absurd ho not_mem_nil
  · exact fun u _ _ hgone => absurd hgone.1.choose_spec.1 not_mem_nil
  · exact (by decide : ∀ o ∈ [zero 1, zero 2], ∃ u ∈ [zero 1, one 2], u.name ≤ o.name)
  · exact fun u _ _ hgone => absurd hgone.1.choose_spec.1 not_mem_nil

theorem boolean_fires_on_transitions_changing :
    ∃ st reports, runs nonzeroTrigger State.init changing = some (st, reports) ∧
      FiresOnTransitions nonzeroTrigger [] changing reports :=
  boolean_fires_on_transitions nonzeroTrigger nonzeroTrigger_boolean changing changing_result changing_undisturbed

end Priot.MteTrigger
