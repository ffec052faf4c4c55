/-
# Which crossings fire

With a fixed set of instances the flags of an entry follow the history of its instance. The rising events are fired
just when they are due; the falling events too, if there is a rising one.
-/
import Priot.MteTrigger.Threshold

namespace Priot.MteTrigger

open Lib List

variable {t : Trigger} {names : List Name} {past : List Reading} {N M : List VarBind} {u o : VarBind}
  {x : VarBind × VarBind} {st : State} {r : Reading}

/-! ## what is due -/

/-- When the rising event of an instance is due: the sample is a rising one, and no rising one has come since the last
falling one. In the first run the startup flag must be set. -/
def Gauge.RisingDue (g : Gauge) (t : Trigger) (past : List Reading) (u : VarBind) : Prop :=
  ∃ d, g.current (samples past u.name) (number u) = some d ∧ g.Rises t d ∧
    ¬ Since (g.Rises t) (g.Falls t) (g.series (samples past u.name)) ∧ (past = [] → g.startRise t = true)

/-- When the falling event is due. -/
def Gauge.FallingDue (g : Gauge) (t : Trigger) (past : List Reading) (u : VarBind) : Prop :=
  ∃ d, g.current (samples past u.name) (number u) = some d ∧ g.Falls t d ∧
    ¬ Since (g.Falls t) (g.Rises t) (g.series (samples past u.name)) ∧ (past = [] → g.startFall t = true)

/-- A run fires the configured events once for each instance for which they are due, and not for others. -/
def FiresDue (t : Trigger) (past : List Reading) (N : List VarBind) (fired : List Fired) : Prop :=
  ∀ (g : Gauge) (name : Name),
    (g.riseEvent t = true →
      Once (∃ u ∈ N, u.name = name ∧ g.RisingDue t past u) (fired.count ⟨g.risingEvent, name⟩)) ∧
    (g.fallEvent t = true →
      Once (∃ u ∈ N, u.name = name ∧ g.FallingDue t past u) (fired.count ⟨g.fallingEvent, name⟩))

/-- A falling event that is configured without a rising one does not come due. -/
def NoneDue (t : Trigger) (past : List Reading) (N : List VarBind) : Prop :=
  ∀ g : Gauge, g.fallEvent t = true → g.riseEvent t = false → ∀ u ∈ N, ¬ g.FallingDue t past u

/-! ## a run -/

/-- The results of a run for the fixed instances. -/
structure Fixed (names : List Name) (N : List VarBind) : Prop where
  result : Result32 N
  names : N.map VarBind.name = names

theorem Fixed.mem_names (h : Fixed names N) (hu : u ∈ N) : u.name ∈ names := by
  rw [← h.names]
  exact mem_map_of_mem hu

/-- The entries that are kept have the flags that their instance's history gives them. -/
structure Followed (t : Trigger) (names : List Name) (past : List Reading) (M : List VarBind) : Prop where
  first : M = [] ↔ past = []
  increasing : Increasing M
  integer : ∀ o ∈ M, Integer32 o
  name : ∀ o ∈ M, o.name ∈ names
  all : past ≠ [] → ∀ name ∈ names, ∃ o ∈ M, o.name = name
  last : ∀ o ∈ M, (samples past o.name).getLast? = some (number o)
  after : ∀ g : Gauge, (g.riseEvent t || g.fallEvent t) = true → ∀ o ∈ M,
    Sides.After (g.Rises t) (g.Falls t) (g.series (samples past o.name)) (g.sides o)

theorem Followed.init (t : Trigger) (names : List Name) : Followed t names [] [] where
  first := iff_of_true rfl rfl
  increasing := List.Pairwise.nil
  integer _ ho := absurd ho not_mem_nil
  name _ ho := absurd ho not_mem_nil
  all h := absurd rfl h
  last _ ho := absurd ho not_mem_nil
  after _ _ _ ho := absurd ho not_mem_nil

/-- What is known of the entry that a run starts with for an instance. -/
structure Entered (t : Trigger) (past : List Reading) (u : VarBind) (x : VarBind × VarBind) : Prop where
  entry : x.1 = { u with index := x.1.index }
  integer : Integer32 x.1
  partner : x.2.type = asnNULL ∨ Integer32 x.2
  input : ∀ g : Gauge, g.input x = g.current (samples past u.name) (number u)
  after : ∀ g : Gauge, (g.riseEvent t || g.fallEvent t) = true →
    Sides.After (g.Rises t) (g.Falls t) (g.series (samples past u.name)) (g.sides x.1)

theorem samples_nil (name : Name) : samples [] name = [] := rfl

theorem Gauge.armedAll_sides (g : Gauge) (u : VarBind) : g.sides { u with index := armedAll } = ⟨true, true⟩ := by
  unfold sides
  rw [armed_index, armed_index, armedAll_getLsbD, armedAll_getLsbD]

theorem Followed.entered (h : Followed t names past M) (hN : Fixed names N) (hx : Matches N M x) :
    ∃ u ∈ N, Entered t past u x := by
  cases hx with
  | @both u o hu ho hname =>
    have hinteger := hN.result.integer u hu
    refine ⟨u, hu, rfl, hinteger.index _, .inr (h.integer o ho), ?_, ?_⟩
    · intro g
      cases g with
      | value => rfl
      | delta =>
        have hreal : o.type ≠ asnNULL := (h.integer o ho).ordinary.real
        rw [Gauge.input_real hreal, hname]
        change _ = Option.map (fun y => number u - y) (samples past o.name).getLast?
        rw [h.last o ho]
        rfl
    · intro g hconf
      have hafter := h.after g hconf o ho
      rw [hname]
      exact hafter
  | @appeared u hu hnew =>
    have hpast : past = [] := by
      by_contra hne
      obtain ⟨o, ho, hname⟩ := h.all hne u.name (hN.mem_names hu)
      exact hnew o ho hname
    have hinteger := hN.result.integer u hu
    subst hpast
    refine ⟨u, hu, rfl, hinteger.index _, .inl rfl, ?_, ?_⟩
    · intro g
      cases g with
      | value => rfl
      | delta => exact Gauge.input_null rfl
    · intro g _
      rw [g.armedAll_sides, samples_nil]
      cases g with
      | value => exact Sides.after_nil _ _
      | delta => exact Sides.after_nil _ _
  | @disappeared o ho _ hgone =>
    have hmem := h.name o ho
    rw [← hN.names] at hmem
    obtain ⟨u, hu, hname⟩ := mem_map.mp hmem
    exact absurd hname (hgone u hu)

theorem Followed.exists_entry (h : Followed t names past M) (hN : Fixed names N) (hu : u ∈ N) :
    ∃ x, Matches N M x ∧ Entered t past u x := by
  have hentry : ∃ x, Matches N M x ∧ x.1.name = u.name := by
    by_cases hold : ∃ o ∈ M, o.name = u.name
    · obtain ⟨o, ho, hname⟩ := hold
      exact ⟨_, .both hu ho hname.symm, rfl⟩
    · rw [not_exists] at hold
      exact ⟨_, .appeared hu fun o ho hname => hold o ⟨ho, hname⟩, rfl⟩
  obtain ⟨x, hx, hname⟩ := hentry
  obtain ⟨u', hu', hentered⟩ := h.entered hN hx
  have hname' : u'.name = u.name := by
    rw [← hname, hentered.entry]
  rw [hN.result.increasing.unique hu' hu hname'] at hentered
  exact ⟨x, hx, hentered⟩

theorem Followed.rising (ht : ThresholdTrigger t) (h : Followed t names past M) (hN : Fixed names N) (g : Gauge)
    (hrise : g.riseEvent t = true) (name : Name) :
    (∃ x, Matches N M x ∧ Fired.mk g.risingEvent name ∈ (pass t (M = []) x).2) ↔
      ∃ u ∈ N, u.name = name ∧ g.RisingDue t past u := by
  have hconf : (g.riseEvent t || g.fallEvent t) = true := by
    rw [hrise, Bool.true_or]
  have hfirst : decide (M = []) = true ↔ past = [] := decide_eq_true_iff.trans h.first
  constructor
  · rintro ⟨x, hx, hfired⟩
    obtain ⟨u, hu, hentered⟩ := h.entered hN hx
    have hname : x.1.name = u.name := by rw [hentered.entry]
    obtain ⟨d, hinput, hrises, hup, hstart, rfl⟩ :=
      (g.mem_pass_rising ht _ hrise hentered.integer hentered.partner name).mp hfired
    refine ⟨u, hu, hname.symm, d, ?_, hrises, (hentered.after g hconf).upper.mp hup, ?_⟩
    · rw [← hentered.input]
      exact hinput
    · rw [← hfirst]
      exact hstart
  · rintro ⟨u, hu, rfl, d, hcurrent, hrises, hsince, hstart⟩
    obtain ⟨x, hx, hentered⟩ := h.exists_entry hN hu
    have hname : x.1.name = u.name := by rw [hentered.entry]
    refine ⟨x, hx, (g.mem_pass_rising ht _ hrise hentered.integer hentered.partner u.name).mpr ?_⟩
    refine ⟨d, ?_, hrises, (hentered.after g hconf).upper.mpr hsince, ?_, hname⟩
    · rw [hentered.input]
      exact hcurrent
    · rw [hfirst]
      exact hstart

theorem Followed.falling (ht : ThresholdTrigger t) (h : Followed t names past M) (hN : Fixed names N) (g : Gauge)
    (hfall : g.fallEvent t = true) (name : Name) :
    (∃ x, Matches N M x ∧ Fired.mk g.fallingEvent name ∈ (pass t (M = []) x).2) ↔
      g.riseEvent t = true ∧ ∃ u ∈ N, u.name = name ∧ g.FallingDue t past u := by
  have hconf : (g.riseEvent t || g.fallEvent t) = true := by
    rw [hfall, Bool.or_true]
  have hfirst : decide (M = []) = true ↔ past = [] := decide_eq_true_iff.trans h.first
  constructor
  · rintro ⟨x, hx, hfired⟩
    obtain ⟨u, hu, hentered⟩ := h.entered hN hx
    have hname : x.1.name = u.name := by rw [hentered.entry]
    obtain ⟨d, hinput, hfalls, hdown, hstart, hrise, rfl⟩ :=
      (g.mem_pass_falling ht _ hfall hentered.integer hentered.partner name).mp hfired
    refine ⟨hrise, u, hu, hname.symm, d, ?_, hfalls, (hentered.after g hconf).lower.mp hdown, ?_⟩
    · rw [← hentered.input]
      exact hinput
    · rw [← hfirst]
      exact hstart
  · rintro ⟨hrise, u, hu, rfl, d, hcurrent, hfalls, hsince, hstart⟩
    obtain ⟨x, hx, hentered⟩ := h.exists_entry hN hu
    have hname : x.1.name = u.name := by rw [hentered.entry]
    refine ⟨x, hx, (g.mem_pass_falling ht _ hfall hentered.integer hentered.partner u.name).mpr ?_⟩
    refine ⟨d, ?_, hfalls, (hentered.after g hconf).lower.mpr hsince, ?_, hrise, hname⟩
    · rw [hentered.input]
      exact hcurrent
    · rw [hfirst]
      exact hstart

theorem Followed.next (ht : ThresholdTrigger t) (h : Followed t names past M) (hN : Fixed names r.var)
    {M' : List VarBind} {fired : List Fired} (hpassed : Passed t r.var M M' fired) :
    Followed t names (past ++ [r]) M' := by
  have hentry : ∀ o ∈ M', ∃ x, ∃ u ∈ r.var, Entered t past u x ∧ o = (pass t (M = []) x).1 ∧
      o = { u with index := o.index } := by
    intro o ho
    obtain ⟨x, hx, rfl⟩ := (hpassed.mem o).mp ho
    obtain ⟨u, hu, hentered⟩ := h.entered hN hx
    refine ⟨x, u, hu, hentered, rfl, ?_⟩
    have hsame := (pass_step t (M = []) x).same
    rw [hentered.entry] at hsame
    exact hsame
  refine ⟨?_, hpassed.kept.increasing, ?_, ?_, ?_, ?_, ?_⟩
  · exact iff_of_false (hN.result.result.merge_ne_nil hpassed.kept) (append_ne_nil_of_right_ne_nil _ (by simp))
  · intro o ho
    obtain ⟨x, u, hu, -, -, heq⟩ := hentry o ho
    rw [heq]
    exact (hN.result.integer u hu).index _
  · intro o ho
    obtain ⟨x, u, hu, -, -, heq⟩ := hentry o ho
    have hmem := hN.mem_names hu
    rw [heq]
    exact hmem
  · intro _ name hname
    rw [← hN.names] at hname
    obtain ⟨u, hu, rfl⟩ := mem_map.mp hname
    obtain ⟨o, ho, heq⟩ := hpassed.kept.all u hu
    refine ⟨o, ho, ?_⟩
    rw [heq]
  · intro o ho
    obtain ⟨x, u, hu, -, -, heq⟩ := hentry o ho
    rw [heq]
    change (samples (past ++ [r]) u.name).getLast? = some (number u)
    rw [samples_concat past hN.result.increasing hu, getLast?_concat]
  · intro g hconf o ho
    obtain ⟨x, u, hu, hentered, hpass, heq⟩ := hentry o ho
    have hname : o.name = u.name := by rw [heq]
    rw [hname, samples_concat past hN.result.increasing hu, g.series_concat, hpass,
      g.pass_sides ht _ hconf hentered.integer hentered.partner, hentered.input g]
    have hafter := hentered.after g hconf
    cases g.current (samples past u.name) (number u) with
    | none =>
      rw [Option.toList_none, append_nil]
      exact hafter
    | some d => exact hafter.concat (ht.disjoint g) d

/-- A run fires what is due exactly if no falling event comes due without a rising one. -/
theorem Followed.run (ht : ThresholdTrigger t) (h : Followed t names past st.oldResults) (hN : Fixed names r.var) :
    ∃ st' report, run t st r = some (st', report) ∧ Followed t names (past ++ [r]) st'.oldResults ∧
      (FiresDue t past r.var report.fired ↔ NoneDue t past r.var) := by
  have hreal : ∀ o ∈ st.oldResults, o.type ≠ asnNULL := fun o ho => (h.integer o ho).ordinary.real
  have hmergeable : Mergeable st.oldResults := by
    by_cases hnil : st.oldResults = []
    · exact .inl hnil
    · obtain ⟨o, ho⟩ := exists_mem_of_ne_nil _ hnil
      exact .inr ⟨h.increasing, o, ho, hreal o ho⟩
  have hhead : ∀ o ∈ st.oldResults, o.type ≠ asnNULL → ∃ u ∈ r.var, u.name ≤ o.name := by
    intro o ho _
    have hname := h.name o ho
    rw [← hN.names] at hname
    obtain ⟨u, hu, heq⟩ := mem_map.mp hname
    exact ⟨u, hu, heq.le⟩
  have htests : (t.boolean || t.threshold) = true := by
    rw [ht.threshold, Bool.or_true]
  obtain ⟨st', report, hrun, hpassed⟩ := run_absolute ht.delta htests hN.result.result hmergeable
    (fun u hu => (hN.result.integer u hu).readable) (fun o ho => .inr (h.integer o ho).readable)
    (fun u hu => (hN.result.integer u hu).accepted) hhead
  refine ⟨st', report, hrun, h.next ht hN hpassed, ?_⟩
  have hevent : ∀ g : Gauge, g.risingEvent ≠ .existence ∧ g.fallingEvent ≠ .existence := by
    intro g
    cases g <;> decide
  constructor
  · intro hfires g hfall hrise u hu hdue
    have hone := ((hfires g u.name).2 hfall).1 ⟨u, hu, rfl, hdue⟩
    have hnone := (hpassed.fires ⟨g.fallingEvent, u.name⟩ (hevent g).2).2
    rw [h.falling ht hN g hfall, hrise] at hnone
    rw [hnone fun hboth => Bool.false_ne_true hboth.1] at hone
    exact Nat.zero_ne_one hone
  · intro hnone g name
    constructor
    · intro hrise
      have honce := hpassed.fires ⟨g.risingEvent, name⟩ (hevent g).1
      rw [h.rising ht hN g hrise] at honce
      exact honce
    · intro hfall
      have honce := hpassed.fires ⟨g.fallingEvent, name⟩ (hevent g).2
      rw [h.falling ht hN g hfall] at honce
      cases hrise : g.riseEvent t with
      | true =>
        rw [hrise, and_iff_right rfl] at honce
        exact honce
      | false =>
        refine ⟨?_, ?_⟩
        · rintro ⟨u, hu, -, hdue⟩
          exact absurd hdue (hnone g hfall hrise u hu)
        · intro _
          refine honce.2 ?_
          rw [hrise]
          exact fun hboth => Bool.false_ne_true hboth.1

/-! ## runs -/

/-- Each run fires what is due; `past` are the runs before. -/
def AllFireDue (t : Trigger) : List Reading → List Reading → List Report → Prop
  | _, [], reports => reports = []
  | _, _ :: _, [] => False
  | past, r :: rs, report :: reports =>
    FiresDue t past r.var report.fired ∧ AllFireDue t (past ++ [r]) rs reports

/-- No falling event that is configured without a rising one comes due in any run. -/
def NoneEverDue (t : Trigger) : List Reading → List Reading → Prop
  | _, [] => True
  | past, r :: rs => NoneDue t past r.var ∧ NoneEverDue t (past ++ [r]) rs

theorem Followed.runs (ht : ThresholdTrigger t) (rs : List Reading) (h : Followed t names past st.oldResults)
    (hrs : ∀ r ∈ rs, Fixed names r.var) :
    ∃ st' reports, runs t st rs = some (st', reports) ∧ (AllFireDue t past rs reports ↔ NoneEverDue t past rs) := by
  induction rs generalizing st past with
  | nil => exact ⟨st, [], rfl, iff_of_true rfl trivial⟩
  | cons r rs ih =>
    obtain ⟨st', report, hrun, hfollowed, hiff⟩ := h.run ht (hrs r mem_cons_self)
    obtain ⟨st'', reports, hruns, hall⟩ := ih hfollowed fun r hr => hrs r (mem_cons_of_mem _ hr)
    refine ⟨st'', report :: reports, ?_, and_congr hiff hall⟩
    rw [runs_cons hrun, hruns]
    rfl

/-- In every sequence of runs with a fixed set of instances the events are fired just when they are due, exactly if no
falling event comes due that is configured without a rising one. -/
theorem threshold_fires_due_iff (t : Trigger) (ht : ThresholdTrigger t) (names : List Name) (rs : List Reading)
    (hrs : ∀ r ∈ rs, Fixed names r.var) :
    ∃ st reports, runs t State.init rs = some (st, reports) ∧ (AllFireDue t [] rs reports ↔ NoneEverDue t [] rs) :=
  (Followed.init t names).runs ht rs hrs

/-- A trigger with a falling event only. -/
def fallingTrigger : Trigger :=
  { createEntry with threshold := true, thRiseValue := 1, thDRiseValue := 1, thFallEvent := true }

theorem fallingTrigger_threshold : ThresholdTrigger fallingTrigger where
  threshold := rfl
  delta := rfl
  apart g := by
    cases g <;> decide

/-- The value of an instance falls from 1 to 0. -/
def dropping : List Reading := [⟨[one 1], 0, []⟩, ⟨[zero 1], 1, []⟩]

theorem dropping_fixed : ∀ r ∈ dropping, Fixed [[1, 3, 1]] r.var := by
  simp only [dropping, forall_mem_cons, not_mem_nil, false_implies, implies_true, and_true]
  refine ⟨⟨⟨cons_ne_nil _ _, pairwise_singleton _ _, ?_⟩, rfl⟩,
    ⟨⟨cons_ne_nil _ _, pairwise_singleton _ _, ?_⟩, rfl⟩⟩
  · simp [one_integer]
  · simp [zero_integer]

/-- The falling event is not fired. -/
theorem dropping_not_fired :
    ThresholdTrigger fallingTrigger ∧ (∀ r ∈ dropping, Fixed [[1, 3, 1]] r.var) ∧
      ∃ st reports, runs fallingTrigger State.init dropping = some (st, reports) ∧
        ¬ AllFireDue fallingTrigger [] dropping reports := by
  have hruns : (runs fallingTrigger State.init dropping).map Prod.snd =
      some [⟨[], [], [([1, 3, 1], 1)]⟩, ⟨[], [], [([1, 3, 1], 0)]⟩] := by
    decide +kernel
  obtain ⟨⟨st, reports⟩, hruns, rfl⟩ := Option.map_eq_some_iff.mp hruns
  refine ⟨fallingTrigger_threshold, dropping_fixed, st, _, hruns, ?_⟩
  intro h
  have hsecond := (h.2.1 .value [1, 3, 1]).2 rfl
  have hdue : Gauge.value.FallingDue fallingTrigger [⟨[one 1], 0, []⟩] (zero 1) := by
    refine ⟨0, rfl, by decide, ?_, fun hnil => absurd hnil (cons_ne_nil _ _)⟩
    -- the value before is not a falling one
    change ¬ Since _ _ ([] ++ [(1 : Int)])
    rw [Lib.since_concat]
    rintro (hfalls | ⟨hsince, -⟩)
    · exact absurd hfalls (by decide)
    · exact Lib.not_since_nil hsince
  exact absurd (hsecond.1 ⟨zero 1, mem_cons_self, rfl, hdue⟩) (by decide)

theorem threshold_fires_due_iff_dropping :
    ∃ st reports, runs fallingTrigger State.init dropping = some (st, reports) ∧
      (AllFireDue fallingTrigger [] dropping reports ↔ NoneEverDue fallingTrigger [] dropping) :=
  threshold_fires_due_iff fallingTrigger fallingTrigger_threshold [[1, 3, 1]] dropping dropping_fixed

end Priot.MteTrigger
