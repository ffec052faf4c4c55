/-
# The steps that a SET runs

In a phase the registered steps of a row are run in order, up to the first that fails. What is skipped depends on a word
that the rows share, and that no step of the phase changes in what matters.
-/
import Priot.BabySteps.Helper
import Priot.Lib.UpTo
import Mathlib.Data.List.Range

namespace Priot.BabySteps

open Lib List

variable {registered c c' : BitVec 32} {mode : Mode} {s t : Step} {r n : Nat} {answers : Answers}

/-! ## flags -/

theorem Step.bit_inj : s.bit = t.bit ↔ s = t := by
  constructor
  · cases s <;> cases t <;> simp [Step.bit]
  · rintro rfl
    rfl

theorem Step.bit_lt (s : Step) : s.bit < 32 := by
  cases s <;> decide

theorem has_eq (c : BitVec 32) (s : Step) : has c s = c.getLsbD s.bit := by
  have hne : BitVec.twoPow 32 s.bit ≠ 0 := by
    cases s <;> decide
  unfold has mode2flag
  rw [BitVec.twoPow_and]
  cases c.getLsbD s.bit with
  | true => exact decide_eq_true hne
  | false => rfl

theorem has_zero (s : Step) : has 0 s = false := by
  rw [has_eq]
  exact BitVec.getLsbD_zero

theorem has_or (c : BitVec 32) (s t : Step) : has (c ||| mode2flag s) t = (has c t || decide (s = t)) := by
  rw [has_eq, has_eq, BitVec.getLsbD_or, mode2flag, BitVec.getLsbD_twoPow, decide_eq_true (Step.bit_lt s),
    Bool.true_and]
  exact congrArg _ (decide_eq_decide.mpr Step.bit_inj)

/-! ## the steps of a row -/

/-- Whether the helper goes through a step: it is registered, and not skipped. -/
def due (registered c : BitVec 32) (mode : Mode) (s : Step) : Bool := has registered s && !skipped mode c s

/-- Whether what a step comes to ends the row. -/
def Answer.ends (a : Answer) (mode : Mode) : Bool :=
  a.rc ≠ 0 || (mode.checked && decide (checkRequestsError a.status ≠ 0))

/-- The steps run for a row. -/
def rowRun (registered c : BitVec 32) (mode : Mode) (answer : Step → Answer) : List Step :=
  upTo (fun s => (answer s).ends mode) ((setModeMap mode).filter (due registered c mode))

theorem mem_rowRun {answer : Step → Answer} : s ∈ rowRun registered c mode answer ↔
    s ∈ setModeMap mode ∧ due registered c mode s ∧
      ∀ t ∈ before (setModeMap mode) s, due registered c mode t → ¬ (answer t).ends mode :=
  mem_upTo_filter

theorem rowRun_sublist (registered c : BitVec 32) (mode : Mode) (answer : Step → Answer) :
    (rowRun registered c mode answer).Sublist (setModeMap mode) :=
  (upTo_sublist _ _).trans filter_sublist

theorem setModeMap_nodup (mode : Mode) : (setModeMap mode).Nodup := by
  cases mode <;> decide

theorem skipped_congr (h : ∀ t, t ∉ setModeMap mode → has c' t = has c t) (s : Step) :
    skipped mode c' s = skipped mode c s := by
  unfold skipped
  cases mode with
  | undo => rw [h .commit (by decide)]; simp
  | free => rw [h .undoSetup (by decide)]; simp
  | _ => simp

theorem skipped_or (h : s ∈ setModeMap mode) (t : Step) : skipped mode (c ||| mode2flag s) t = skipped mode c t := by
  apply skipped_congr
  intro u hu
  have hne : s ≠ u := by
    rintro rfl
    exact hu h
  rw [has_or, decide_eq_false hne, Bool.or_false]

theorem loop_spec (registered c : BitVec 32) (answer : Option Step → Answer) (steps : List Step)
    (hsteps : ∀ s ∈ steps, s ∈ setModeMap mode)
    (run : List (Option Step)) (rc : Int) (hskip : ∀ s, skipped mode c' s = skipped mode c s) :
    let went := upTo (fun s => (answer (some s)).ends mode) (steps.filter (due registered c mode))
    let result := loop registered mode answer (steps.map some) c' run rc
    result.run = run ++ went.map some ∧ ∀ t, has result.completed t = (has c' t || decide (t ∈ went)) := by
  induction steps generalizing c' run rc with
  | nil => simp [loop, upTo]
  | cons s steps ih =>
    have hs := hsteps s mem_cons_self
    have hrest := fun t ht => hsteps t (mem_cons_of_mem s ht)
    rw [map_cons, loop, filter_cons, due, hskip s]
    by_cases hskipped : skipped mode c s = true
    · rw [if_pos hskipped, hskipped, Bool.not_true, Bool.and_false, if_neg Bool.false_ne_true]
      exact ih hrest run rc hskip
    · rw [if_neg hskipped, Bool.not_eq_true _ |>.mp hskipped, Bool.not_false, Bool.and_true]
      by_cases hreg : has registered s = true
      · rw [if_neg (not_not_intro hreg), if_pos hreg, upTo]
        have hends : (answer (some s)).ends mode = true ↔
            (answer (some s)).rc ≠ 0 ∨ mode.checked = true ∧ checkRequestsError (answer (some s)).status ≠ 0 := by
          simp [Answer.ends]
        have hmark : ∀ t, has (c' ||| mode2flag s) t = (has c' t || decide (t = s)) := by
          intro t
          rw [has_or]
          exact congrArg _ (decide_eq_decide.mpr eq_comm)
        by_cases hrc : (answer (some s)).rc ≠ 0
        · rw [if_pos (hends.mpr (.inl hrc)), if_pos hrc]
          refine ⟨rfl, fun t => ?_⟩
          simp [hmark]
        · rw [if_neg hrc]
          by_cases hstatus : mode.checked = true ∧ checkRequestsError (answer (some s)).status ≠ 0
          · rw [if_pos (hends.mpr (.inr hstatus)), if_pos hstatus]
            refine ⟨rfl, fun t => ?_⟩
            simp [hmark]
          · rw [if_neg fun h => (hends.mp h).elim hrc hstatus, if_neg hstatus]
            have hskip' : ∀ t, skipped mode (c' ||| mode2flag s) t = skipped mode c t :=
              fun t => (skipped_or hs t).trans (hskip t)
            obtain ⟨hrun, hhas⟩ := ih hrest (run ++ [some s]) 0 hskip'
            refine ⟨?_, fun t => ?_⟩
            · rw [hrun, append_assoc]
              rfl
            · rw [hhas, hmark]
              simp [Bool.or_assoc]
      · rw [if_pos hreg, if_neg hreg]
        exact ih hrest run rc hskip

theorem modeMap_set (h : mode ≠ .get) : modeMap mode = (setModeMap mode).map some := by
  cases mode with
  | get => exact absurd rfl h
  | _ => rfl

theorem helper_spec (registered : BitVec 32) (h : mode ≠ .get) (hskip : ∀ s, skipped mode c' s = skipped mode c s)
    (answer : Option Step → Answer) :
    let went := rowRun registered c mode fun s => answer (some s)
    let result := helper registered mode c' answer
    result.run = went.map some ∧
      ∀ t, has result.completed t = ((decide (mode ≠ .reserve1) && has c' t) || decide (t ∈ went)) := by
  have key := fun (c'' : BitVec 32) (hc : ∀ s, skipped mode c'' s = skipped mode c s) =>
    loop_spec registered c answer (setModeMap mode) (fun s hs => hs) [] 0 hc
  unfold helper
  rw [modeMap_set h]
  cases mode with
  | get => exact absurd rfl h
  | reserve1 =>
    have hreserve1 := key 0 fun s => rfl
    simp only [has_zero] at hreserve1
    exact hreserve1
  | _ => exact key c' hskip

/-! ## a phase -/

/-- What a phase runs. -/
def phaseRun (registered c : BitVec 32) (answers : Answers) (mode : Mode) (rows : List Nat) : List Event :=
  rows.flatMap fun r => (rowRun registered c mode (answers mode r)).map (Event.mk mode r)

theorem phase_spec (registered : BitVec 32) (answers : Answers) (h : mode ≠ .get) (rows : List Nat) (log : List Event)
    (hskip : ∀ s, skipped mode c' s = skipped mode c s) :
    let after := phase registered answers mode rows c' log
    after.2 = log ++ phaseRun registered c answers mode rows ∧
      (mode ≠ .reserve1 → ∀ t, has after.1 t ↔
        has c' t ∨ ∃ r ∈ rows, t ∈ rowRun registered c mode (answers mode r)) ∧
      (mode = .reserve1 → ∀ t, has after.1 t → t ∈ setModeMap mode ∨ rows = [] ∧ has c' t) := by
  induction rows generalizing c' log with
  | nil =>
    refine ⟨(append_nil log).symm, ?_, ?_⟩
    · intro _ t
      simp [phase]
    · exact fun _ t ht => .inr ⟨rfl, ht⟩
  | cons r rows ih =>
    obtain ⟨hrun, hhas⟩ := helper_spec registered h hskip fun s =>
      (s.map (answers mode r)).getD ⟨0, []⟩
    let result := helper registered mode c' fun s => (s.map (answers mode r)).getD ⟨0, []⟩
    have hphase : phase registered answers mode (r :: rows) c' log = phase registered answers mode rows result.completed
        (log ++ result.run.filterMap (Option.map fun s => ⟨mode, r, s⟩)) := rfl
    change result.run = (rowRun registered c mode (answers mode r)).map some at hrun
    change ∀ t, has result.completed t =
      ((decide (mode ≠ .reserve1) && has c' t) || decide (t ∈ rowRun registered c mode (answers mode r))) at hhas
    have hmem : ∀ t, t ∈ rowRun registered c mode (answers mode r) → t ∈ setModeMap mode :=
      fun t => (rowRun_sublist registered c mode _).mem
    -- the marks of the row are of steps of the phase
    have hskip' : ∀ s, skipped mode result.completed s = skipped mode c s := by
      intro s
      by_cases hreserve1 : mode = .reserve1
      · subst hreserve1
        rfl
      · rewrite [← hskip s]
        apply skipped_congr
        intro t ht
        rw [hhas, decide_eq_true hreserve1, Bool.true_and, decide_eq_false (mt (hmem t) ht), Bool.or_false]
    obtain ⟨hlog, hcompleted, hreserve1⟩ := ih (log ++ result.run.filterMap (Option.map fun s => ⟨mode, r, s⟩)) hskip'
    rw [hphase]
    refine ⟨?_, ?_, ?_⟩
    · rw [hlog, hrun, append_assoc]
      simp [phaseRun, filterMap_map]
    · intro hmode t
      rw [hcompleted hmode, hhas, decide_eq_true hmode]
      simp [or_assoc]
    · intro hmode t ht
      refine .inl ?_
      rcases hreserve1 hmode t ht with ht | ⟨-, ht⟩
      · exact ht
      · rw [hhas, decide_eq_false (not_not_intro hmode), Bool.false_and, Bool.false_or] at ht
        exact hmem t (of_decide_eq_true ht)

/-! ## a SET -/

/-- The phases in which something can be hit that is undone later. -/
def Sequence.middle : Sequence → List Mode
  | .reserve1Free => []
  | .reserve2Free => [.reserve2]
  | .actionUndo | .actionCommit => [.reserve2, .action]

def Sequence.last : Sequence → Mode
  | .reserve1Free | .reserve2Free => .free
  | .actionUndo => .undo
  | .actionCommit => .commit

theorem Sequence.modes_eq (sequence : Sequence) : sequence.modes = .reserve1 :: sequence.middle ++ [sequence.last] := by
  cases sequence <;> rfl

theorem phases_middle (registered w : BitVec 32) (answers : Answers) (n : Nat) (ms : List Mode)
    (hms : ∀ m ∈ ms, m = .reserve2 ∨ m = .action)
    (c : BitVec 32) (log : List Event) :
    let after := phases registered answers n ms c log
    after.2 = log ++ ms.flatMap (fun m => phaseRun registered w answers m (List.range n)) ∧
      ∀ t, has after.1 t ↔ has c t ∨ ∃ m ∈ ms, ∃ r < n, t ∈ rowRun registered w m (answers m r) := by
  induction ms generalizing c log with
  | nil => simp [phases]
  | cons m ms ih =>
    have hm := hms m mem_cons_self
    have hget : m ≠ .get := by
      rintro rfl
      exact absurd hm (by decide)
    have hreserve1 : m ≠ .reserve1 := by
      rintro rfl
      exact absurd hm (by decide)
    have hskip : ∀ s, skipped m c s = skipped m w s := by
      intro s
      rcases hm with rfl | rfl <;> rfl
    obtain ⟨hlog, hcompleted, -⟩ := phase_spec registered answers hget (List.range n) log hskip
    obtain ⟨hlogs, hafter⟩ := ih (fun m hm => hms m (mem_cons_of_mem _ hm))
      (phase registered answers m (List.range n) c log).1 (phase registered answers m (List.range n) c log).2
    refine ⟨?_, fun t => ?_⟩
    · exact hlogs.trans (by rw [hlog, append_assoc]; rfl)
    · refine (hafter t).trans ?_
      rw [hcompleted hreserve1]
      simp [or_assoc]

theorem phases_append (ms : List Mode) (m : Mode) (c : BitVec 32) (log : List Event) :
    phases registered answers n (ms ++ [m]) c log = phase registered answers m (List.range n)
      (phases registered answers n ms c log).1 (phases registered answers n ms c log).2 := by
  induction ms generalizing c log with
  | nil => rfl
  | cons m' ms ih => exact ih _ _

theorem log_spec (modes completed : BitVec 32) (answers : Answers) (n : Nat) (sequence : Sequence) : ∃ w : BitVec 32,
      log modes completed answers n sequence =
          sequence.modes.flatMap (fun m => phaseRun (handlerGet modes) w answers m (List.range n)) ∧
        (0 < n → ∀ t, t ∉ setModeMap .reserve1 →
          (has w t ↔ ∃ m ∈ sequence.middle, ∃ r < n, t ∈ rowRun (handlerGet modes) w m (answers m r))) := by
  let p := phase (handlerGet modes) answers .reserve1 (List.range n) completed []
  let q := phases (handlerGet modes) answers n sequence.middle p.1 p.2
  have hmiddle : ∀ m ∈ sequence.middle, m = .reserve2 ∨ m = .action := by
    cases sequence <;> decide
  have hlast : sequence.last ≠ .get ∧ sequence.last ≠ .reserve1 := by
    cases sequence <;> decide
  have hlog : log modes completed answers n sequence =
      (phase (handlerGet modes) answers sequence.last (List.range n) q.1 q.2).2 := by
    unfold log
    rw [Sequence.modes_eq, phases_append]
    rfl
  have hclear : ∀ s, skipped .reserve1 completed s = skipped .reserve1 q.1 s := fun s => rfl
  have hsame : ∀ s, skipped sequence.last q.1 s = skipped sequence.last q.1 s := fun s => rfl
  obtain ⟨hp, -, hreserve1⟩ := phase_spec (handlerGet modes) answers (by decide) (List.range n) [] hclear
  obtain ⟨hq, hhit⟩ := phases_middle (handlerGet modes) q.1 answers n sequence.middle hmiddle p.1 p.2
  obtain ⟨hend, -⟩ := phase_spec (handlerGet modes) answers hlast.1 (List.range n) q.2 hsame
  refine ⟨q.1, ?_, ?_⟩
  · rw [hlog, hend, Sequence.modes_eq]
    change q.2 = p.2 ++ _ at hq
    change p.2 = _ at hp
    rw [hq, hp]
    simp
  · intro hn t ht
    refine (hhit t).trans (or_iff_right ?_)
    intro hmark
    -- RESERVE1 has cleared the word
    rcases hreserve1 rfl t hmark with hmem | ⟨hrows, -⟩
    · exact ht hmem
    · rw [range_eq_nil] at hrows
      exact absurd hrows (Nat.pos_iff_ne_zero.mp hn)

end Priot.BabySteps
