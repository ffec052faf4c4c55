/-
# Existence triggers

What has disappeared behind the last entry has no match, so that it is not reported; and where a value has appeared or
disappeared, the test for changed values compares it with a dummy.
-/
import Priot.MteTrigger.Merge
import Mathlib.Data.List.Nodup

namespace Priot.MteTrigger

open List

variable {t : Trigger} {name : Name} {P N M : List VarBind} {st : State} {r : Reading}

/-! ## results -/

/-- A value that is neither missing nor an exception. -/
structure Ordinary (u : VarBind) : Prop where
  flat : flatten u = u
  real : u.type ≠ asnNULL
  value : u.value ≠ none

/-- What a query answers: some ordinary values by increasing names. -/
structure Result (N : List VarBind) : Prop where
  nonempty : N ≠ []
  increasing : Increasing N
  ordinary : ∀ u ∈ N, Ordinary u

theorem Increasing.unique (h : Increasing N) {u v : VarBind} (hu : u ∈ N) (hv : v ∈ N) (hname : u.name = v.name) :
    u = v := by
  induction N with
  | nil => exact absurd hu not_mem_nil
  | cons x N ih =>
    obtain ⟨hx, hN⟩ := pairwise_cons.mp h
    rcases mem_cons.mp hu with rfl | hu'
    · rcases mem_cons.mp hv with rfl | hv'
      · rfl
      · exact absurd hname (hx v hv').ne
    · rcases mem_cons.mp hv with rfl | hv'
      · exact absurd hname (hx u hu').ne'
      · exact ih hN hu' hv'

/-- The entries of the old list are the results of the run before, and dummies of other names. -/
structure Kept (P M : List VarBind) : Prop where
  increasing : Increasing M
  real : ∀ o ∈ M, o.type ≠ asnNULL → ∃ u ∈ P, o = { u with index := o.index }
  all : ∀ u ∈ P, ∃ o ∈ M, o = { u with index := o.index }
  null : ∀ o ∈ M, o.type = asnNULL → o.value = none ∧ ∀ u ∈ P, u.name ≠ o.name

theorem Kept.exists_real (h : Kept P M) (hP : Result P) : ∃ o ∈ M, o.type ≠ asnNULL := by
  obtain ⟨u, hu⟩ := exists_mem_of_ne_nil P hP.nonempty
  obtain ⟨o, ho, heq⟩ := h.all u hu
  refine ⟨o, ho, ?_⟩
  rw [heq]
  exact (hP.ordinary u hu).real

theorem Kept.merged (h : Kept P M) (hP : Result P) (hN : Result N) : Merged N M (merge N false M) :=
  merge_spec N M false (fun u hu => (hN.ordinary u hu).flat) hN.increasing h.increasing (.inr (h.exists_real hP))

theorem Merged.kept {var old : List VarBind} (h : Merged N M (var, old)) (hN : Result N) : Kept N var where
  increasing := h.increasing
  real v hv hreal := by
    obtain ⟨o, ho⟩ := h.name hv
    cases ho with
    | both hu => exact ⟨_, hu, rfl⟩
    | appeared hu => exact ⟨_, hu, rfl⟩
    | disappeared => exact absurd rfl hreal
  all u hu := by
    by_cases hold : ∃ o ∈ M, o.name = u.name
    · obtain ⟨o, ho, hname⟩ := hold
      have hmem := (h.mem _).mpr (.both hu ho hname.symm)
      exact ⟨_, (of_mem_zip hmem).1, rfl⟩
    · rw [not_exists] at hold
      have hmem := (h.mem _).mpr (.appeared hu fun o ho hname => hold o ⟨ho, hname⟩)
      exact ⟨_, (of_mem_zip hmem).1, rfl⟩
  null v hv hnull := by
    obtain ⟨o, ho⟩ := h.name hv
    cases ho with
    | both hu => exact absurd hnull (hN.ordinary _ hu).real
    | appeared hu => exact absurd hnull (hN.ordinary _ hu).real
    | disappeared _ _ hgone => exact ⟨rfl, hgone⟩

theorem Kept.first (hN : Result N) : Kept N (merge N false []).1 := by
  rw [merge_first N fun u hu => (hN.ordinary u hu).flat]
  refine ⟨?_, ?_, ?_, ?_⟩
  · exact pairwise_map.mpr hN.increasing
  · intro o ho _
    obtain ⟨u, hu, rfl⟩ := mem_map.mp ho
    exact ⟨u, hu, rfl⟩
  · intro u hu
    exact ⟨_, mem_map_of_mem hu, rfl⟩
  · intro o ho hnull
    obtain ⟨u, hu, rfl⟩ := mem_map.mp ho
    exact absurd hnull (hN.ordinary u hu).real

/-! ## what is fired -/

theorem existenceLoop_eq (t : Trigger) (var old : List VarBind) (h : var.length ≤ old.length) :
    existenceLoop t var old = some (((var.zip old).filter fun x => existenceFires t x.1 x.2).map fun x =>
      ⟨.existence, x.1.name⟩) := by
  induction var generalizing old with
  | nil => rfl
  | cons v var ih =>
    cases old with
    | nil => exact absurd h (Nat.not_succ_le_zero _)
    | cons o old =>
      rw [existenceLoop, ih old (Nat.le_of_succ_le_succ h), zip_cons_cons, filter_cons]
      cases hfires : existenceFires t v o with
      | true => simp
      | false => simp

/-- When an event is fired for an instance. -/
def Fires (t : Trigger) (N M : List VarBind) (name : Name) : Prop :=
  ∃ x, Matches N M x ∧ x.1.name = name ∧ existenceFires t x.1 x.2 = true

theorem mem_existence {var old : List VarBind} (h : Merged N M (var, old)) (f : Fired) :
    f ∈ (((var.zip old).filter fun x => existenceFires t x.1 x.2).map fun x => Fired.mk .existence x.1.name) ↔
      f.event = .existence ∧ Fires t N M f.name := by
  simp only [mem_map, mem_filter, h.mem]
  constructor
  · rintro ⟨x, ⟨hx, hfires⟩, rfl⟩
    exact ⟨rfl, x, hx, rfl, hfires⟩
  · rintro ⟨hevent, x, hx, hname, hfires⟩
    refine ⟨x, ⟨hx, hfires⟩, ?_⟩
    rw [hname, ← hevent]

theorem existence_nodup {var old : List VarBind} (h : Merged N M (var, old)) :
    (((var.zip old).filter fun x => existenceFires t x.1 x.2).map fun x => Fired.mk .existence x.1.name).Nodup := by
  have hnames : (var.zip old).Pairwise fun x y => x.1.name < y.1.name := by
    have hfst : (var.zip old).map Prod.fst = var := map_fst_zip h.length
    have hinc := h.increasing
    change Increasing var at hinc
    rw [← hfst] at hinc
    exact (pairwise_map (R := fun u v : VarBind => u.name < v.name)).mp hinc
  refine pairwise_map.mpr ((hnames.filter _).imp ?_)
  intro x y hlt heq
  exact absurd (congrArg Fired.name heq) hlt.ne

theorem existenceFires_both {u o : VarBind} (hu : u.type ≠ asnNULL) (ho : o.type ≠ asnNULL) :
    existenceFires t u o = true ↔ t.exChanged = true ∧ u.octets ≠ o.octets := by
  simp [existenceFires, changed, hu, ho]

theorem existenceFires_appeared {u o : VarBind} (hu : u.type ≠ asnNULL) (ho : o.type = asnNULL)
    (hvalue : o.value = none) :
    existenceFires t u o = true ↔ t.exPresent = true ∨ t.exChanged = true ∧ u.octets ≠ [] := by
  have hoctets : o.octets = [] := by
    unfold VarBind.octets
    rw [hvalue]
    rfl
  simp [existenceFires, changed, hu, ho, hoctets]

theorem existenceFires_disappeared {o : VarBind} (ho : o.type ≠ asnNULL) (name : Name) :
    existenceFires t (dummy name asnNULL) o = true ↔ t.exAbsent = true ∨ t.exChanged = true ∧ o.octets ≠ [] := by
  have hnull : (dummy name asnNULL).type = asnNULL := rfl
  have hoctets : (dummy name asnNULL).octets = [] := rfl
  simp [existenceFires, changed, hnull, ho, hoctets]

theorem fires_iff (h : Kept P M) (hP : Result P) (hN : Result N) : Fires t N M name ↔
    (∃ u ∈ N, ∃ o ∈ P, u.name = name ∧ o.name = name ∧ t.exChanged = true ∧ u.octets ≠ o.octets) ∨
    (∃ u ∈ N, u.name = name ∧ (∀ o ∈ P, o.name ≠ name) ∧ (t.exPresent = true ∨ t.exChanged = true ∧ u.octets ≠ [])) ∨
    (∃ o ∈ P, o.name = name ∧ (∀ u ∈ N, u.name ≠ name) ∧ (∃ u ∈ N, name < u.name) ∧
      (t.exAbsent = true ∨ t.exChanged = true ∧ o.octets ≠ [])) := by
  constructor
  · rintro ⟨x, hx, rfl, hfires⟩
    cases hx with
    | @both u o hu ho hname =>
      by_cases hreal : o.type = asnNULL
      · -- its match is a dummy of the run before
        obtain ⟨hvalue, hgone⟩ := h.null o ho hreal
        refine .inr (.inl ⟨u, hu, rfl, ?_, ?_⟩)
        · intro q hq heq
          exact hgone q hq (heq.trans hname)
        · exact (existenceFires_appeared (hN.ordinary u hu).real hreal hvalue).mp hfires
      · obtain ⟨q, hq, heq⟩ := h.real o ho hreal
        have hqname : o.name = q.name := by rw [heq]
        have hoctets : o.octets = q.octets := by rw [heq]; rfl
        have hboth := (existenceFires_both (hN.ordinary u hu).real hreal).mp hfires
        rw [hoctets] at hboth
        exact .inl ⟨u, hu, q, hq, rfl, hqname.symm.trans hname.symm, hboth⟩
    | @appeared u hu hnew =>
      refine .inr (.inl ⟨u, hu, rfl, ?_, ?_⟩)
      · intro q hq heq
        obtain ⟨o, ho, hoq⟩ := h.all q hq
        apply hnew o ho
        rw [hoq]
        exact heq
      · exact (existenceFires_appeared (hN.ordinary u hu).real rfl rfl).mp hfires
    | @disappeared o ho hreal hgone hbefore =>
      obtain ⟨q, hq, heq⟩ := h.real o ho hreal
      have hqname : o.name = q.name := by rw [heq]
      have hoctets : o.octets = q.octets := by rw [heq]; rfl
      have hboth := (existenceFires_disappeared hreal o.name).mp hfires
      rw [hoctets] at hboth
      exact .inr (.inr ⟨q, hq, hqname.symm, hgone, hbefore, hboth⟩)
  · rintro (⟨u, hu, q, hq, rfl, hname, hboth⟩ | ⟨u, hu, rfl, hnew, hboth⟩ | ⟨q, hq, rfl, hgone, hbefore, hboth⟩)
    · obtain ⟨o, ho, heq⟩ := h.all q hq
      have hqname : o.name = q.name := by rw [heq]
      have hoctets : o.octets = q.octets := by rw [heq]; rfl
      have hreal : o.type ≠ asnNULL := by
        rw [heq]
        exact (hP.ordinary q hq).real
      refine ⟨_, .both hu ho (hname.symm.trans hqname.symm), rfl, ?_⟩
      refine (existenceFires_both (hN.ordinary u hu).real hreal).mpr ?_
      rw [hoctets]
      exact hboth
    · by_cases hold : ∃ o ∈ M, o.name = u.name
      · obtain ⟨o, ho, hname⟩ := hold
        have hnull : o.type = asnNULL := by
          by_contra hreal
          obtain ⟨q, hq, heq⟩ := h.real o ho hreal
          apply hnew q hq
          rw [← hname, heq]
        refine ⟨_, .both hu ho hname.symm, rfl, ?_⟩
        exact (existenceFires_appeared (hN.ordinary u hu).real hnull (h.null o ho hnull).1).mpr hboth
      · rw [not_exists] at hold
        refine ⟨_, .appeared hu fun o ho hname => hold o ⟨ho, hname⟩, rfl, ?_⟩
        exact (existenceFires_appeared (hN.ordinary u hu).real rfl rfl).mpr hboth
    · obtain ⟨o, ho, heq⟩ := h.all q hq
      have hqname : o.name = q.name := by rw [heq]
      have hoctets : o.octets = q.octets := by rw [heq]; rfl
      have hreal : o.type ≠ asnNULL := by
        rw [heq]
        exact (hP.ordinary q hq).real
      rw [← hqname] at hgone hbefore
      refine ⟨_, .disappeared ho hreal hgone hbefore, hqname, ?_⟩
      refine (existenceFires_disappeared hreal o.name).mpr ?_
      rw [hoctets]
      exact hboth

/-! ## what should be fired -/

/-- The changes that a trigger reports: an instance is there now and was not before, was there and is not now, or has
another value. -/
def Due (t : Trigger) (P N : List VarBind) (name : Name) : Prop :=
  (t.exPresent = true ∧ (∃ u ∈ N, u.name = name) ∧ ∀ o ∈ P, o.name ≠ name) ∨
  (t.exAbsent = true ∧ (∃ o ∈ P, o.name = name) ∧ ∀ u ∈ N, u.name ≠ name) ∨
  (t.exChanged = true ∧ ∃ u ∈ N, ∃ o ∈ P, u.name = name ∧ o.name = name ∧ (u.type ≠ o.type ∨ u.value ≠ o.value))

/-- A run has fired the event once for each change, and nothing else. -/
def Reports (t : Trigger) (P N : List VarBind) (fired : List Fired) : Prop :=
  ∀ f : Fired, (f.event = .existence ∧ Due t P N f.name → fired.count f = 1) ∧
    (¬ (f.event = .existence ∧ Due t P N f.name) → fired.count f = 0)

/-- What the changes between two runs must be like. -/
structure Reportable (t : Trigger) (P N : List VarBind) : Prop where
  /-- No value has disappeared behind the last one. -/
  absent : t.exAbsent = true → ∀ o ∈ P, (∀ u ∈ N, u.name ≠ o.name) → ∃ u ∈ N, o.name < u.name
  /-- Values that appear without being reported are empty. -/
  appeared : t.exChanged = true → t.exPresent = false → ∀ u ∈ N, (∀ o ∈ P, o.name ≠ u.name) → u.octets = []
  /-- Values that disappear without being reported are empty, unless they are behind the last one. -/
  disappeared : t.exChanged = true → t.exAbsent = false → ∀ o ∈ P, (∀ u ∈ N, u.name ≠ o.name) →
    (∃ u ∈ N, o.name < u.name) → o.octets = []
  /-- No value changes its type only. -/
  type : t.exChanged = true → ∀ u ∈ N, ∀ o ∈ P, u.name = o.name → u.octets = o.octets → u.type = o.type

theorem Ordinary.octets_eq {u o : VarBind} (hu : Ordinary u) (ho : Ordinary o) :
    u.octets = o.octets ↔ u.value = o.value := by
  obtain ⟨a, ha⟩ := Option.ne_none_iff_exists'.mp hu.value
  obtain ⟨b, hb⟩ := Option.ne_none_iff_exists'.mp ho.value
  unfold VarBind.octets
  rw [ha, hb]
  exact Option.some_inj.symm

/-- What is fired is what is due exactly if the changes are like that. -/
theorem fires_iff_due (h : Kept P M) (hP : Result P) (hN : Result N) :
    (∀ name, Fires t N M name ↔ Due t P N name) ↔ Reportable t P N := by
  constructor
  · intro hall
    refine ⟨?_, ?_, ?_, ?_⟩
    · intro habsent o ho hgone
      have hdue : Due t P N o.name := .inr (.inl ⟨habsent, ⟨o, ho, rfl⟩, hgone⟩)
      rcases (fires_iff h hP hN).mp ((hall o.name).mpr hdue) with
        ⟨u, hu, _, _, hname, _⟩ | ⟨u, hu, hname, _⟩ | ⟨_, _, _, _, hbefore, _⟩
      · exact absurd hname (hgone u hu)
      · exact absurd hname (hgone u hu)
      · exact hbefore
    · intro hchanged hpresent u hu hnew
      by_contra hvalue
      have hfires := (fires_iff (t := t) h hP hN).mpr (.inr (.inl ⟨u, hu, rfl, hnew, .inr ⟨hchanged, hvalue⟩⟩))
      rcases (hall u.name).mp hfires with ⟨htrue, _⟩ | ⟨_, _, hgone⟩ | ⟨_, v, _, o, ho, _, hname, _⟩
      · rw [hpresent] at htrue
        cases htrue
      · exact hgone u hu rfl
      · exact hnew o ho hname
    · intro hchanged habsent o ho hgone hbefore
      by_contra hvalue
      have hfires :=
        (fires_iff (t := t) h hP hN).mpr (.inr (.inr ⟨o, ho, rfl, hgone, hbefore, .inr ⟨hchanged, hvalue⟩⟩))
      rcases (hall o.name).mp hfires with ⟨_, ⟨u, hu, hname⟩, _⟩ | ⟨htrue, _⟩ | ⟨_, u, hu, _, _, hname, _⟩
      · exact hgone u hu hname
      · rw [habsent] at htrue
        cases htrue
      · exact hgone u hu hname
    · intro hchanged u hu o ho hname hoctets
      by_contra htype
      have hdue : Due t P N o.name := .inr (.inr ⟨hchanged, u, hu, o, ho, hname, rfl, .inl htype⟩)
      rcases (fires_iff h hP hN).mp ((hall o.name).mpr hdue) with
        ⟨v, hv, q, hq, hvname, hqname, _, hne⟩ | ⟨_, _, _, hnew, _⟩ | ⟨_, _, _, hgone, _⟩
      · rw [hN.increasing.unique hv hu (hvname.trans hname.symm), hP.increasing.unique hq ho hqname] at hne
        exact hne hoctets
      · exact hnew o ho rfl
      · exact hgone u hu hname
  · intro hchanges name
    rw [fires_iff h hP hN]
    constructor
    · rintro (⟨u, hu, o, ho, hu', ho', hchanged, hne⟩ | ⟨u, hu, rfl, hnew, hfires⟩ |
        ⟨o, ho, rfl, hgone, hbefore, hfires⟩)
      · refine .inr (.inr ⟨hchanged, u, hu, o, ho, hu', ho', .inr ?_⟩)
        exact mt ((hN.ordinary u hu).octets_eq (hP.ordinary o ho)).mpr hne
      · cases hpresent : t.exPresent with
        | true => exact .inl ⟨hpresent, ⟨u, hu, rfl⟩, hnew⟩
        | false =>
          obtain ⟨hchanged, hne⟩ := hfires.resolve_left (Bool.not_eq_true _ |>.mpr hpresent)
          exact absurd (hchanges.appeared hchanged hpresent u hu hnew) hne
      · cases habsent : t.exAbsent with
        | true => exact .inr (.inl ⟨habsent, ⟨o, ho, rfl⟩, hgone⟩)
        | false =>
          obtain ⟨hchanged, hne⟩ := hfires.resolve_left (Bool.not_eq_true _ |>.mpr habsent)
          exact absurd (hchanges.disappeared hchanged habsent o ho hgone hbefore) hne
    · rintro (⟨hpresent, ⟨u, hu, rfl⟩, hnew⟩ | ⟨habsent, ⟨o, ho, rfl⟩, hgone⟩ |
        ⟨hchanged, u, hu, o, ho, hu', ho', hne⟩)
      · exact .inr (.inl ⟨u, hu, rfl, hnew, .inl hpresent⟩)
      · exact .inr (.inr ⟨o, ho, rfl, hgone, hchanges.absent habsent o ho hgone, .inl habsent⟩)
      · refine .inl ⟨u, hu, o, ho, hu', ho', hchanged, fun heq => ?_⟩
        rcases hne with htype | hvalue
        · exact htype (hchanges.type hchanged u hu o ho (hu'.trans ho'.symm) heq)
        · exact hvalue (((hN.ordinary u hu).octets_eq (hP.ordinary o ho)).mp heq)

/-! ## runs -/

/-- A trigger that only tests for existence, and has an event. -/
structure ExistenceOnly (t : Trigger) : Prop where
  existence : t.existence = true
  event : t.exEvent = true
  boolean : t.boolean = false
  threshold : t.threshold = false

theorem run_existence (ht : ExistenceOnly t) {fired : List Fired}
    (h : existenceTests t (merge r.var false st.oldResults).1 (merge r.var false st.oldResults).2 = some fired) :
    ∃ st', run t st r = some (st', ⟨fired, [], []⟩) ∧ st'.oldResults = (merge r.var false st.oldResults).1 := by
  unfold run
  rw [ht.boolean, ht.threshold]
  simp only [h, Option.bind_eq_bind, Option.bind_some, evaluate, booleanTests, thresholdTests, deltaThresholdTests,
    ht.boolean, ht.threshold, Bool.false_and, Bool.or_self, Bool.false_eq_true, if_false, append_nil]
  cases t.delta with
  | true => exact ⟨_, rfl, rfl⟩
  | false => exact ⟨_, rfl, rfl⟩

theorem run_existence_first (ht : ExistenceOnly t) (hN : Result r.var) (hst : st.oldResults = []) :
    ∃ st' report, run t st r = some (st', report) ∧ Kept r.var st'.oldResults := by
  have hmerge := merge_first r.var fun u hu => (hN.ordinary u hu).flat
  have htests : existenceTests t (merge r.var false st.oldResults).1 (merge r.var false st.oldResults).2 =
      some (existenceStart t (merge r.var false st.oldResults).1) := by
    rw [hst, hmerge]
    simp [existenceTests, ht.existence, ht.event]
  obtain ⟨st', hrun, hold⟩ := run_existence ht htests
  refine ⟨st', _, hrun, ?_⟩
  rw [hold, hst]
  exact Kept.first hN

theorem run_existence_next (ht : ExistenceOnly t) (hP : Result P) (hN : Result r.var) (hst : Kept P st.oldResults) :
    ∃ st' report, run t st r = some (st', report) ∧ Kept r.var st'.oldResults ∧
      (Reports t P r.var report.fired ↔ Reportable t P r.var) := by
  have hmerged := hst.merged hP hN
  have hne : (merge r.var false st.oldResults).2 ≠ [] := by
    intro hnil
    have hlen := hmerged.length
    rw [hnil, length_nil, Nat.le_zero, length_eq_zero_iff] at hlen
    obtain ⟨u, hu⟩ := exists_mem_of_ne_nil _ hN.nonempty
    obtain ⟨v, hv, -⟩ := (hmerged.kept hN).all u hu
    rw [hlen] at hv
    exact absurd hv not_mem_nil
  have htests : existenceTests t (merge r.var false st.oldResults).1 (merge r.var false st.oldResults).2 =
      some ((((merge r.var false st.oldResults).1.zip (merge r.var false st.oldResults).2).filter fun x =>
        existenceFires t x.1 x.2).map fun x => ⟨.existence, x.1.name⟩) := by
    rw [← existenceLoop_eq t _ _ hmerged.length]
    simp [existenceTests, ht.existence, ht.event, hne]
  obtain ⟨st', hrun, hold⟩ := run_existence ht htests
  refine ⟨st', _, hrun, ?_, ?_⟩
  · rw [hold]
    exact hmerged.kept hN
  · rw [← fires_iff_due hst hP hN]
    have hnodup := existence_nodup (t := t) hmerged
    have hmem := fun f => mem_existence (t := t) hmerged f
    constructor
    · intro hreports name
      obtain ⟨hone, hnone⟩ := hreports ⟨.existence, name⟩
      constructor
      · intro hfires
        by_contra hdue
        have hzero := hnone fun h => hdue h.2
        have hin := (hmem ⟨.existence, name⟩).mpr ⟨rfl, hfires⟩
        exact count_eq_zero.mp hzero hin
      · intro hdue
        have hcount := hone ⟨rfl, hdue⟩
        have hin : Fired.mk .existence name ∈ _ := count_pos_iff.mp (by rw [hcount]; exact Nat.one_pos)
        exact ((hmem _).mp hin).2
    · intro hall f
      constructor
      · rintro ⟨hevent, hdue⟩
        have hin := (hmem f).mpr ⟨hevent, (hall f.name).mpr hdue⟩
        exact nodup_iff_count_eq_one.mp hnodup f hin
      · intro hnot
        refine count_eq_zero.mpr fun hin => hnot ?_
        obtain ⟨hevent, hfires⟩ := (hmem f).mp hin
        exact ⟨hevent, (hall f.name).mp hfires⟩

/-- Each later run reports the changes from the run before. -/
def ReportsAll (t : Trigger) (runs : List (Reading × Report)) : Prop :=
  runs.IsChain fun a b => Reports t a.1.var b.1.var b.2.fired

theorem runs_cons {st' : State} {report : Report} (h : run t st r = some (st', report)) (rs : List Reading) :
    runs t st (r :: rs) = (runs t st' rs).map fun x => (x.1, report :: x.2) := by
  rw [runs, h]
  exact Option.map_eq_bind.symm

theorem runs_existence (ht : ExistenceOnly t) (rs : List Reading) (hrs : ∀ r ∈ rs, Result r.var) (first : Reading)
    (hfirst : Result first.var) (hst : Kept first.var st.oldResults) :
    ∃ st' reports, runs t st rs = some (st', reports) ∧ reports.length = rs.length ∧
      ∀ report, ReportsAll t ((first, report) :: rs.zip reports) ↔
        (first :: rs).IsChain fun a b => Reportable t a.var b.var := by
  induction rs generalizing st first with
  | nil =>
    refine ⟨st, [], rfl, rfl, fun report => ?_⟩
    exact iff_of_true (List.IsChain.singleton _) (List.IsChain.singleton _)
  | cons r rs ih =>
    have hr := hrs r mem_cons_self
    obtain ⟨st', report, hrun, hkept, hiff⟩ := run_existence_next ht hfirst hr hst
    obtain ⟨st'', reports, hruns, hlen, hchain⟩ := ih (fun r hr => hrs r (mem_cons_of_mem _ hr)) r hr hkept
    refine ⟨st'', report :: reports, ?_, congrArg (· + 1) hlen, fun report' => ?_⟩
    · rw [runs_cons hrun, hruns]
      rfl
    · rw [ReportsAll, zip_cons_cons, isChain_cons_cons, isChain_cons_cons]
      exact and_congr hiff (hchain report)

/-- In every sequence of runs each run but the first reports just the changes, exactly if the changes from run to run
are such as the comparison with dummies can tell. -/
theorem existence_reports_iff (t : Trigger) (ht : ExistenceOnly t) (rs : List Reading)
    (hrs : ∀ r ∈ rs, Result r.var) :
    ∃ st reports, runs t State.init rs = some (st, reports) ∧ reports.length = rs.length ∧
      (ReportsAll t (rs.zip reports) ↔ rs.IsChain fun a b => Reportable t a.var b.var) := by
  cases rs with
  | nil => exact ⟨_, [], rfl, rfl, iff_of_true .nil .nil⟩
  | cons r rs =>
    have hr := hrs r mem_cons_self
    have hnone : State.init.oldResults = [] := rfl
    obtain ⟨st, report, hrun, hkept⟩ := run_existence_first ht hr hnone
    obtain ⟨st', reports, hruns, hlen, hchain⟩ :=
      runs_existence ht rs (fun r hr => hrs r (mem_cons_of_mem _ hr)) r hr hkept
    refine ⟨st', report :: reports, ?_, congrArg (· + 1) hlen, hchain report⟩
    rw [runs_cons hrun, hruns]
    rfl

/-- A trigger that reports what has disappeared. -/
def absentTrigger : Trigger := { createEntry with existence := true, exEvent := true, exPresent := false }

theorem absentTrigger_existenceOnly : ExistenceOnly absentTrigger := ⟨rfl, rfl, rfl, rfl⟩

/-- An instance with the value 0. -/
def zero (i : Nat) : VarBind := ⟨[1, 3, i], asnINTEGER, some (List.replicate 8 0), 0⟩

theorem zero_ordinary (i : Nat) : Ordinary (zero i) where
  flat := rfl
  real := (by decide : asnINTEGER ≠ asnNULL)
  value := Option.some_ne_none _

/-- Two instances, of which the second disappears. -/
def shrinking : List Reading := [⟨[zero 1, zero 2], 0, []⟩, ⟨[zero 1], 1, []⟩]

theorem shrinking_result : ∀ r ∈ shrinking, Result r.var := by
  simp [shrinking]
  refine ⟨⟨cons_ne_nil _ _, ?_, ?_⟩, ⟨cons_ne_nil _ _, ?_, ?_⟩⟩
  · exact pairwise_pair.mpr (by decide)
  · simp [zero_ordinary]
  · exact pairwise_singleton _ _
  · simp [zero_ordinary]

/-- Nothing is fired for an instance that disappears behind the last one. -/
theorem shrinking_not_reported :
    ∃ st reports, runs absentTrigger State.init shrinking = some (st, reports) ∧
      ¬ ReportsAll absentTrigger (shrinking.zip reports) := by
  have hruns : runs absentTrigger State.init shrinking =
      some (⟨[{ zero 1 with index := armedAll }], [], 0⟩, [⟨[], [], []⟩, ⟨[], [], []⟩]) := by
    decide +kernel
  refine ⟨_, _, hruns, ?_⟩
  intro h
  have hreports := (isChain_cons_cons.mp h).1
  have hdue : Due absentTrigger [zero 1, zero 2] [zero 1] [1, 3, 2] := by
    refine .inr (.inl ⟨rfl, ⟨zero 2, by decide, rfl⟩, ?_⟩)
    rw [forall_mem_singleton]
    decide
  exact absurd ((hreports ⟨.existence, [1, 3, 2]⟩).1 ⟨rfl, hdue⟩) (by decide)

theorem existence_reports_iff_shrinking :
    ∃ st reports, runs absentTrigger State.init shrinking = some (st, reports) ∧ reports.length = shrinking.length ∧
      (ReportsAll absentTrigger (shrinking.zip reports) ↔
        shrinking.IsChain fun a b => Reportable absentTrigger a.var b.var) :=
  existence_reports_iff absentTrigger absentTrigger_existenceOnly shrinking shrinking_result

end Priot.MteTrigger
