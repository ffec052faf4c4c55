/-
# Baby steps and their flow chart

All rows share the word that says what has been hit, so that undoing a commit is skipped for every row or for none. In
the phases behind ACTION a step that fails ends the row too.
-/
import Priot.BabySteps.Steps
import Mathlib.Data.List.Nodup

namespace Priot.BabySteps

open Lib List

variable {registered c : BitVec 32} {mode : Mode} {s : Step} {r n : Nat} {answers : Answers}

/-! ## the flow chart -/

/-- What a step comes to when it and its requests have succeeded. -/
def Answer.succeeded (a : Answer) : Prop := a.rc = 0 ∧ ∀ status ∈ a.status, status = 0

/-- A SET has followed the flow chart. -/
structure Right (registered : BitVec 32) (answers : Answers) (n : Nat) (log : List Event) : Prop where
  once : (log.map fun e => (e.row, e.step)).Nodup
  order : ∀ m r s, m = .reserve1 ∨ m = .reserve2 ∨ m = .action → Event.mk m r s ∈ log →
    ∀ t ∈ before (setModeMap m) s, has registered t → Event.mk m r t ∈ log ∧ (answers m r t).succeeded
  undoCommit : ∀ r, Event.mk .undo r .undoCommit ∈ log → Event.mk .action r .commit ∈ log
  undoCleanup : ∀ r, Event.mk .free r .undoCleanup ∈ log → Event.mk .reserve2 r .undoSetup ∈ log
  postRequest : has registered .postRequest → ∀ r < n, (log.map fun e => (e.row, e.step)).count (r, .postRequest) = 1

/-- A row gets as far as its commit. -/
def Commits (registered : BitVec 32) (answers : Answers) (r : Nat) : Prop :=
  has registered .commit ∧
    ∀ s, s = .setValue ∨ s = .checkConsistency → has registered s → (answers .action r s).succeeded

/-- When a SET follows the flow chart. A commit is undone in no row or in all, so it must have been hit in none or in
all. No step before the last one of COMMIT, FREE or UNDO may fail, as it would end the row. -/
def Follows (registered : BitVec 32) (answers : Answers) (n : Nat) : Sequence → Prop
  | .reserve1Free => True
  | .reserve2Free => has registered .postRequest → has registered .undoCleanup → has registered .undoSetup →
      ∀ r < n, (answers .free r .undoCleanup).rc = 0
  | .actionCommit => has registered .postRequest → ∀ r < n, ∀ s, s = .irreversibleCommit ∨ s = .undoCleanup →
      has registered s → (answers .commit r s).rc = 0
  | .actionUndo =>
    (has registered .undoCommit → (∃ r < n, Commits registered answers r) → ∀ r < n, Commits registered answers r) ∧
      (has registered .postRequest → ∀ r < n,
        (has registered .undoCommit → (∃ r < n, Commits registered answers r) →
          (answers .undo r .undoCommit).rc = 0) ∧
        ∀ s, s = .undoSet ∨ s = .undoCleanup → has registered s → (answers .undo r s).rc = 0)

theorem checkRequestsError_eq_zero (status : List Int) : checkRequestsError status = 0 ↔ ∀ st ∈ status, st = 0 := by
  induction status with
  | nil => simp [checkRequestsError]
  | cons st status ih =>
    rw [checkRequestsError, forall_mem_cons]
    by_cases h : st = 0
    · rw [if_neg (not_not_intro h), ih]
      exact (and_iff_right h).symm
    · rw [if_pos h]
      exact iff_of_false h fun hall => h hall.1

theorem Answer.succeeded_iff (a : Answer) (h : mode.checked = true) : a.succeeded ↔ ¬ a.ends mode := by
  unfold Answer.succeeded Answer.ends
  rw [← checkRequestsError_eq_zero, h]
  simp

theorem Answer.rc_iff (mode : Mode) (h : mode.checked = false) (a : Answer) : a.rc = 0 ↔ ¬ a.ends mode := by
  unfold Answer.ends
  rw [h]
  simp

theorem mem_phaseRun {m : Mode} {rows : List Nat} : Event.mk m r s ∈ phaseRun registered c answers mode rows ↔
      m = mode ∧ r ∈ rows ∧ s ∈ rowRun registered c mode (answers mode r) := by
  unfold phaseRun
  simp only [mem_flatMap, mem_map, Event.mk.injEq]
  constructor
  · rintro ⟨r, hr, s, hs, rfl, rfl, rfl⟩
    exact ⟨rfl, hr, hs⟩
  · rintro ⟨rfl, hr, hs⟩
    exact ⟨r, hr, s, hs, rfl, rfl, rfl⟩

/-! ## the log -/

section Log

variable {sequence : Sequence} {w : BitVec 32} {l : List Event}

theorem mem_flatMap_phaseRun {m : Mode} (hl : l = sequence.modes.flatMap fun m =>
    phaseRun registered w answers m (List.range n)) :
    Event.mk m r s ∈ l ↔ m ∈ sequence.modes ∧ r < n ∧ s ∈ rowRun registered w m (answers m r) := by
  rw [hl, mem_flatMap]
  simp only [mem_phaseRun, mem_range]
  constructor
  · rintro ⟨_, hm, rfl, hr, hs⟩
    exact ⟨hm, hr, hs⟩
  · rintro ⟨hm, hr, hs⟩
    exact ⟨m, hm, rfl, hr, hs⟩

theorem modes_disjoint (sequence : Sequence) :
    sequence.modes.Pairwise fun m m' => ∀ s ∈ setModeMap m, s ∉ setModeMap m' := by
  cases sequence <;> decide

theorem log_once (hl : l = sequence.modes.flatMap fun m => phaseRun registered w answers m (List.range n)) :
    (l.map fun e => (e.row, e.step)).Nodup := by
  rw [hl, map_flatMap, nodup_flatMap]
  constructor
  · intro m _
    unfold phaseRun
    rw [map_flatMap, nodup_flatMap]
    constructor
    · intro r _
      rw [map_map]
      refine List.Nodup.map (fun s t h => (Prod.mk.inj h).2) ?_
      exact (setModeMap_nodup m).sublist (rowRun_sublist registered w m _)
    · -- the rows are different
      refine nodup_range.imp ?_
      intro r r' hne
      simp only [Function.onFun, disjoint_left, mem_map]
      rintro _ ⟨_, ⟨s, -, rfl⟩, rfl⟩ ⟨_, ⟨t, -, rfl⟩, heq⟩
      exact hne (Prod.mk.inj heq).1.symm
  · -- the steps are different
    refine (modes_disjoint sequence).imp ?_
    intro m m' hdisjoint
    simp only [Function.onFun, disjoint_left, mem_map]
    rintro _ ⟨⟨_, r, s⟩, he, rfl⟩ ⟨⟨_, r', s'⟩, he', heq⟩
    obtain ⟨rfl, -, hs⟩ := mem_phaseRun.mp he
    obtain ⟨rfl, -, hs'⟩ := mem_phaseRun.mp he'
    cases (Prod.mk.inj heq).2
    exact hdisjoint s ((rowRun_sublist _ _ _ _).mem hs) ((rowRun_sublist _ _ _ _).mem hs')

theorem log_order (hl : l = sequence.modes.flatMap fun m => phaseRun registered w answers m (List.range n)) (m : Mode)
    (r : Nat) (s : Step) (hm : m = .reserve1 ∨ m = .reserve2 ∨ m = .action) (hs : Event.mk m r s ∈ l) (t : Step)
    (ht : t ∈ before (setModeMap m) s) (hreg : has registered t) : Event.mk m r t ∈ l ∧ (answers m r t).succeeded := by
  have hchecked : m.checked = true := by
    rcases hm with rfl | rfl | rfl <;> rfl
  have hdue : due registered w m t := by
    rcases hm with rfl | rfl | rfl <;> simp [due, skipped, hreg]
  obtain ⟨hmode, hr, hrun⟩ := (mem_flatMap_phaseRun hl).mp hs
  obtain ⟨-, -, hbefore⟩ := mem_rowRun.mp hrun
  refine ⟨(mem_flatMap_phaseRun hl).mpr ⟨hmode, hr, mem_rowRun.mpr ⟨mem_of_mem_before ht, hdue, ?_⟩⟩,
    (Answer.succeeded_iff _ hchecked).mpr (hbefore t ht hdue)⟩
  exact fun u hu => hbefore u (before_subset ht hu)

theorem log_postRequest (hl : l = sequence.modes.flatMap fun m => phaseRun registered w answers m (List.range n))
    (hreg : has registered .postRequest) (hr : r < n) : (l.map fun e => (e.row, e.step)).count (r, .postRequest) = 1 ↔
      ∀ t ∈ before (setModeMap sequence.last) .postRequest, due registered w sequence.last t →
        ¬ (answers sequence.last r t).ends sequence.last := by
  have hmem : .postRequest ∈ setModeMap sequence.last := by
    cases sequence <;> decide
  have hdue : due registered w sequence.last .postRequest := by
    cases sequence <;> simp [due, skipped, hreg, Sequence.last]
  have hnot : ∀ m ∈ sequence.modes, .postRequest ∈ setModeMap m → m = sequence.last := by
    cases sequence <;> decide
  have hin : sequence.last ∈ sequence.modes := by
    cases sequence <;> decide
  have hrun : .postRequest ∈ rowRun registered w sequence.last (answers sequence.last r) ↔
      ∀ t ∈ before (setModeMap sequence.last) .postRequest, due registered w sequence.last t →
        ¬ (answers sequence.last r t).ends sequence.last := by
    rw [mem_rowRun, and_iff_right hmem, and_iff_right hdue]
  rw [← hrun]
  constructor
  · intro hcount
    have hkey : (r, Step.postRequest) ∈ l.map fun e => (e.row, e.step) := count_pos_iff.mp (by omega)
    obtain ⟨⟨m, r', s⟩, he, heq⟩ := mem_map.mp hkey
    cases heq
    obtain ⟨hm, -, hs⟩ := (mem_flatMap_phaseRun hl).mp he
    cases hnot m hm ((rowRun_sublist _ _ _ _).mem hs)
    exact hs
  · intro hs
    have he := (mem_flatMap_phaseRun hl).mpr ⟨hin, hr, hs⟩
    exact nodup_iff_count_eq_one.mp (log_once hl) _ (mem_map_of_mem he)

theorem commits_iff : Commits registered answers r ↔ .commit ∈ rowRun registered w .action (answers .action r) := by
  have hdue : ∀ s, due registered w .action s ↔ has registered s := by
    intro s
    simp [due, skipped]
  have hbefore : before (setModeMap .action) .commit = [.setValue, .checkConsistency] := rfl
  have hmem : Step.commit ∈ setModeMap .action := by decide
  rw [mem_rowRun, and_iff_right hmem, hdue, hbefore]
  unfold Commits
  refine and_congr Iff.rfl (forall_congr' fun s => ?_)
  rw [mem_cons, mem_singleton, hdue]
  refine imp_congr Iff.rfl (imp_congr Iff.rfl ?_)
  exact Answer.succeeded_iff _ rfl

/-- What is known of the word when something may be undone. -/
def Hit (registered w : BitVec 32) (answers : Answers) (n : Nat) (sequence : Sequence) : Prop :=
  0 < n → ∀ t, t ∉ setModeMap .reserve1 →
    (has w t ↔ ∃ m ∈ sequence.middle, ∃ r < n, t ∈ rowRun registered w m (answers m r))

theorem hit_commit (hw : Hit registered w answers n .actionUndo) (hr : r < n) :
    has w .commit ↔ ∃ r < n, Commits registered answers r := by
  rw [hw (Nat.zero_lt_of_lt hr) .commit (by decide)]
  simp only [commits_iff (w := w)]
  constructor
  · rintro ⟨m, hm, r, hr, hs⟩
    rcases mem_pair.mp hm with rfl | rfl
    · exact absurd ((rowRun_sublist _ _ _ _).mem hs) (by decide)
    · exact ⟨r, hr, hs⟩
  · rintro ⟨r, hr, hs⟩
    exact ⟨.action, by decide, r, hr, hs⟩

/-- No step comes before the set-up in RESERVE2, so that it is hit in every row. -/
theorem undoSetup_iff :
    .undoSetup ∈ rowRun registered w .reserve2 (answers .reserve2 r) ↔ has registered .undoSetup := by
  have hbefore : before (setModeMap .reserve2) .undoSetup = [] := rfl
  have hmem : Step.undoSetup ∈ setModeMap .reserve2 := by decide
  rw [mem_rowRun, and_iff_right hmem, hbefore]
  simp [due, skipped]

theorem hit_undoSetup (hw : Hit registered w answers n sequence) (hr : r < n) :
    has w .undoSetup ↔ .reserve2 ∈ sequence.middle ∧ has registered .undoSetup := by
  rw [hw (Nat.zero_lt_of_lt hr) .undoSetup (by decide)]
  constructor
  · rintro ⟨m, hm, r, hr, hs⟩
    have hmode : m = .reserve2 := by
      have hstep := (rowRun_sublist _ _ _ _).mem hs
      revert hstep
      cases m <;> decide
    subst hmode
    exact ⟨hm, undoSetup_iff.mp hs⟩
  · rintro ⟨hm, hs⟩
    exact ⟨.reserve2, hm, r, hr, undoSetup_iff.mpr hs⟩

theorem log_undoCommit (hl : l = sequence.modes.flatMap fun m => phaseRun registered w answers m (List.range n))
    (hw : Hit registered w answers n sequence) :
    (∀ r, Event.mk .undo r .undoCommit ∈ l → Event.mk .action r .commit ∈ l) ↔
      (sequence = .actionUndo → has registered .undoCommit → (∃ r < n, Commits registered answers r) →
        ∀ r < n, Commits registered answers r) := by
  have hmem : Step.undoCommit ∈ setModeMap .undo := by decide
  have hbefore : before (setModeMap .undo) .undoCommit = [] := rfl
  have hdue : due registered w .undo .undoCommit ↔ has registered .undoCommit ∧ has w .commit := by
    simp [due, skipped]
  have hundo : .undo ∈ sequence.modes ↔ sequence = .actionUndo := by
    cases sequence <;> decide
  simp only [mem_flatMap_phaseRun hl, mem_rowRun (s := .undoCommit), and_iff_right hmem, hbefore, hdue, hundo,
    ← commits_iff]
  constructor
  · rintro h rfl hreg hcommits r hr
    have hnone : ∀ t ∈ ([] : List Step), due registered w .undo t → ¬ (answers .undo r t).ends .undo :=
      fun t ht => absurd ht not_mem_nil
    exact (h r ⟨rfl, hr, ⟨hreg, (hit_commit hw hr).mpr hcommits⟩, hnone⟩).2.2
  · rintro h r ⟨rfl, hr, ⟨hreg, hhit⟩, -⟩
    exact ⟨by decide, hr, h rfl hreg ((hit_commit hw hr).mp hhit) r hr⟩

theorem log_undoCleanup (hl : l = sequence.modes.flatMap fun m => phaseRun registered w answers m (List.range n))
    (hw : Hit registered w answers n sequence) (r : Nat) (h : Event.mk .free r .undoCleanup ∈ l) :
    Event.mk .reserve2 r .undoSetup ∈ l := by
  obtain ⟨-, hr, hs⟩ := (mem_flatMap_phaseRun hl).mp h
  obtain ⟨-, hdue, -⟩ := mem_rowRun.mp hs
  have hhit : has w .undoSetup := by
    simp [due, skipped] at hdue
    exact hdue.2
  obtain ⟨hmode, hreg⟩ := (hit_undoSetup hw hr).mp hhit
  refine (mem_flatMap_phaseRun hl).mpr ⟨?_, hr, undoSetup_iff.mpr hreg⟩
  rw [Sequence.modes_eq]
  exact mem_append_left _ (mem_cons_of_mem _ hmode)

end Log

/-! ## when a SET follows the flow chart -/

/-- A SET follows the flow chart for every row exactly if a commit that may be undone has been hit in no row or in all,
and no step before the last one of COMMIT, FREE or UNDO fails. -/
theorem follows_iff (modes completed : BitVec 32) (answers : Answers) (n : Nat) (sequence : Sequence) :
    Right (handlerGet modes) answers n (log modes completed answers n sequence) ↔
      Follows (handlerGet modes) answers n sequence := by
  obtain ⟨w, hl, hw⟩ := log_spec modes completed answers n sequence
  generalize handlerGet modes = registered at *
  generalize log modes completed answers n sequence = l at *
  change Hit registered w answers n sequence at hw
  have hright : Right registered answers n l ↔
      (sequence = .actionUndo → has registered .undoCommit → (∃ r < n, Commits registered answers r) →
        ∀ r < n, Commits registered answers r) ∧
      (has registered .postRequest → ∀ r < n, ∀ t ∈ before (setModeMap sequence.last) .postRequest,
        due registered w sequence.last t → ¬ (answers sequence.last r t).ends sequence.last) := by
    rw [← log_undoCommit hl hw]
    constructor
    · intro h
      exact ⟨h.undoCommit, fun hreg r hr => (log_postRequest hl hreg hr).mp (h.postRequest hreg r hr)⟩
    · rintro ⟨hcommit, hpost⟩
      exact ⟨log_once hl, log_order hl, hcommit, log_undoCleanup hl hw,
        fun hreg r hr => (log_postRequest hl hreg hr).mpr (hpost hreg r hr)⟩
  rw [hright]
  cases sequence with
  | reserve1Free =>
    refine iff_of_true ⟨fun h => absurd h (by decide), ?_⟩ trivial
    intro _ r hr t ht hdue
    -- nothing has been set up
    have hnot : ¬ has w .undoSetup := fun h => absurd ((hit_undoSetup hw hr).mp h).1 not_mem_nil
    cases mem_singleton.mp ht
    simp [due, skipped, Sequence.last, hnot] at hdue
  | reserve2Free =>
    rw [and_iff_right fun h => absurd h (by decide)]
    unfold Follows
    have hbefore : before (setModeMap Sequence.reserve2Free.last) .postRequest = [.undoCleanup] := rfl
    simp only [hbefore, forall_mem_singleton, ← Answer.rc_iff Sequence.reserve2Free.last rfl]
    have hdue : ∀ r < n, due registered w Sequence.reserve2Free.last .undoCleanup ↔
        has registered .undoCleanup ∧ has registered .undoSetup := by
      intro r hr
      have hhit := hit_undoSetup hw hr
      rw [and_iff_right (by decide)] at hhit
      rw [← hhit]
      simp [due, skipped, Sequence.last]
    constructor
    · exact fun h hpost hcleanup hsetup r hr => h hpost r hr ((hdue r hr).mpr ⟨hcleanup, hsetup⟩)
    · exact fun h hpost r hr ht => h hpost ((hdue r hr).mp ht).1 ((hdue r hr).mp ht).2 r hr
  | actionCommit =>
    rw [and_iff_right fun h => absurd h (by decide)]
    unfold Follows
    have hbefore : before (setModeMap Sequence.actionCommit.last) .postRequest = [.irreversibleCommit, .undoCleanup] :=
      rfl
    have hdue : ∀ t, due registered w Sequence.actionCommit.last t ↔ has registered t := by
      intro t
      simp [due, skipped, Sequence.last]
    simp only [hbefore, mem_pair, hdue, ← Answer.rc_iff Sequence.actionCommit.last rfl]
    rfl
  | actionUndo =>
    unfold Follows
    have hbefore : before (setModeMap Sequence.actionUndo.last) .postRequest = [.undoCommit, .undoSet, .undoCleanup] :=
      rfl
    refine and_congr (forall_prop_of_true rfl) ?_
    simp only [hbefore, ← Answer.rc_iff Sequence.actionUndo.last rfl, forall_mem_cons]
    refine imp_congr Iff.rfl (forall_congr' fun r => forall_congr' fun hr => ?_)
    have hcommit : due registered w Sequence.actionUndo.last .undoCommit ↔
        has registered .undoCommit ∧ ∃ r < n, Commits registered answers r := by
      rw [← hit_commit hw hr]
      simp [due, skipped, Sequence.last]
    have hdue : ∀ t, t = .undoSet ∨ t = .undoCleanup →
        (due registered w Sequence.actionUndo.last t ↔ has registered t) := by
      rintro t (rfl | rfl) <;> simp [due, skipped, Sequence.last]
    rw [hcommit, hdue .undoSet (.inl rfl), hdue .undoCleanup (.inr rfl)]
    constructor
    · rintro ⟨hfirst, hset, hcleanup, -⟩
      refine ⟨fun hreg hhit => hfirst ⟨hreg, hhit⟩, ?_⟩
      rintro s (rfl | rfl)
      · exact hset
      · exact hcleanup
    · rintro ⟨hfirst, hrest⟩
      exact ⟨fun h => hfirst h.1 h.2, hrest _ (.inl rfl), hrest _ (.inr rfl), fun t ht => absurd ht not_mem_nil⟩

/-- Row 0 commits and row 1 fails to set its value: the commit is undone in both. -/
def undoneAnswers : Answers := fun m r s => if m = .action ∧ r = 1 ∧ s = .setValue then ⟨5, []⟩ else ⟨0, []⟩

theorem undo_without_commit : ¬ Right (handlerGet 0) undoneAnswers 2 (log 0 0 undoneAnswers 2 .actionUndo) := by
  intro h
  have hundone : Event.mk .undo 1 .undoCommit ∈ log 0 0 undoneAnswers 2 .actionUndo := by
    decide +kernel
  have hcommit : Event.mk .action 1 .commit ∉ log 0 0 undoneAnswers 2 .actionUndo := by
    decide +kernel
  exact hcommit (h.undoCommit 1 hundone)

end Priot.BabySteps
