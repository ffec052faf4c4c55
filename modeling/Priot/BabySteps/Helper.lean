/-
# Baby steps

Which steps have been hit is remembered in one word for all rows, to skip the undoing of what has not been done. What
the steps come to is an input: the return value of each, and the status of the row's requests after it. The log is not
in the source.
-/
import Mathlib.Data.List.Basic

namespace Priot.BabySteps

/-! ## steps and flags -/

/-- The `MODE_BSTEP_` modes. -/
inductive Step
  | preRequest
  | objectLookup
  | rowCreate
  | checkValue
  | undoSetup
  | setValue
  | checkConsistency
  | commit
  | irreversibleCommit
  | undoCommit
  | undoSet
  | undoCleanup
  | postRequest
  deriving DecidableEq

/-- The mode of a request: a phase of a SET, or one of the others. -/
inductive Mode
  | get
  | reserve1
  | reserve2
  | action
  | commit
  | free
  | undo
  deriving DecidableEq

/-- The place of a flag of `BabyStepsMode_e`. -/
def Step.bit : Step → Nat
  | .preRequest => 1
  | .objectLookup => 2
  | .checkValue => 3
  | .rowCreate => 4
  | .undoSetup => 5
  | .setValue => 6
  | .checkConsistency => 7
  | .undoSet => 8
  | .commit => 9
  | .undoCommit => 10
  | .irreversibleCommit => 11
  | .undoCleanup => 12
  | .postRequest => 13

def mode2flag (s : Step) : BitVec 32 := BitVec.twoPow 32 s.bit

/-- Whether the flag of a step is set. -/
def has (flags : BitVec 32) (s : Step) : Bool := mode2flag s &&& flags ≠ 0

/-- `_babySteps_getModeMap`. `BSTEP_USE_ORIGINAL` is `none`. -/
def getModeMap : List (Option Step) := [some .preRequest, some .objectLookup, none, some .postRequest]

def setModeMap : Mode → List Step
  | .get => []
  | .reserve1 => [.preRequest, .objectLookup, .rowCreate, .checkValue]
  | .reserve2 => [.undoSetup]
  | .action => [.setValue, .checkConsistency, .commit]
  | .commit => [.irreversibleCommit, .undoCleanup, .postRequest]
  | .free => [.undoCleanup, .postRequest]
  | .undo => [.undoCommit, .undoSet, .undoCleanup, .postRequest]

/-- `mode_map_ptr`. -/
def modeMap : Mode → List (Option Step)
  | .get => getModeMap
  | mode => (setModeMap mode).map some

/-- `registered`, as `BabySteps_handlerGet` sets it. -/
def handlerGet (modes : BitVec 32) : BitVec 32 := if modes = 0 then BitVec.allOnes 32 else modes

/-! ## the helper -/

/-- What a call of the next handler comes to. -/
structure Answer where
  rc : Int
  status : List Int

def checkRequestsError : List Int → Int
  | [] => 0
  | status :: requests => if status ≠ 0 then status else checkRequestsError requests

/-- The modes in which errors of the requests count. -/
def Mode.checked : Mode → Bool
  | .get | .reserve1 | .reserve2 | .action => true
  | .commit | .free | .undo => false

/-- Whether undoing a step is skipped since it has not been hit. -/
def skipped (mode : Mode) (completed : BitVec 32) (s : Step) : Bool :=
  (mode = .undo && s = .undoCommit && !has completed .commit) ||
    (mode = .free && s = .undoCleanup && !has completed .undoSetup)

/-- What the helper comes to: `completed`, what has been run, and the return value. -/
structure Result where
  completed : BitVec 32
  run : List (Option Step)
  rc : Int

/-- The loop of `_BabySteps_helper`. -/
def loop (registered : BitVec 32) (mode : Mode) (answer : Option Step → Answer) :
    List (Option Step) → BitVec 32 → List (Option Step) → Int → Result
  | [], completed, run, rc => ⟨completed, run, rc⟩
  | none :: steps, completed, run, _ =>
    let a := answer none
    if a.rc ≠ 0 then ⟨completed, run ++ [none], a.rc⟩
    else if mode.checked ∧ checkRequestsError a.status ≠ 0 then ⟨completed, run ++ [none], checkRequestsError a.status⟩
    else loop registered mode answer steps completed (run ++ [none]) 0
  | some s :: steps, completed, run, rc =>
    if skipped mode completed s then loop registered mode answer steps completed run rc
    else if ¬ has registered s then loop registered mode answer steps completed run rc
    else
      let completed := completed ||| mode2flag s
      let a := answer (some s)
      if a.rc ≠ 0 then ⟨completed, run ++ [some s], a.rc⟩
      else if mode.checked ∧ checkRequestsError a.status ≠ 0 then
        ⟨completed, run ++ [some s], checkRequestsError a.status⟩
      else loop registered mode answer steps completed (run ++ [some s]) 0

def helper (registered : BitVec 32) (mode : Mode) (completed : BitVec 32) (answer : Option Step → Answer) : Result :=
  let completed := match mode with
    | .get | .reserve1 => 0
    | _ => completed
  loop registered mode answer (modeMap mode) completed [] 0

/-! ## a SET -/

/-- A step that has been run for a row, in a phase. -/
structure Event where
  mode : Mode
  row : Nat
  step : Step
  deriving DecidableEq

/-- What the steps of a SET come to, by phase and row. -/
abbrev Answers := Mode → Nat → Step → Answer

/-- A phase, in which the helper is called for one row after the other. -/
def phase (registered : BitVec 32) (answers : Answers) (mode : Mode) :
    List Nat → BitVec 32 → List Event → BitVec 32 × List Event
  | [], completed, log => (completed, log)
  | r :: rows, completed, log =>
    let result := helper registered mode completed fun s => (s.map (answers mode r)).getD ⟨0, []⟩
    phase registered answers mode rows result.completed (log ++ result.run.filterMap (Option.map fun s => ⟨mode, r, s⟩))

/-- The phases of a SET for so many rows. -/
def phases (registered : BitVec 32) (answers : Answers) (n : Nat) :
    List Mode → BitVec 32 → List Event → BitVec 32 × List Event
  | [], completed, log => (completed, log)
  | mode :: modes, completed, log =>
    let (completed, log) := phase registered answers mode (List.range n) completed log
    phases registered answers n modes completed log

/-- The orders in which the agent goes through the phases. -/
inductive Sequence
  | reserve1Free
  | reserve2Free
  | actionUndo
  | actionCommit
  deriving DecidableEq

def Sequence.modes : Sequence → List Mode
  | .reserve1Free => [.reserve1, .free]
  | .reserve2Free => [.reserve1, .reserve2, .free]
  | .actionUndo => [.reserve1, .reserve2, .action, .undo]
  | .actionCommit => [.reserve1, .reserve2, .action, .commit]

/-- What has been run in a SET, whatever the word says that earlier requests have left. -/
def log (modes completed : BitVec 32) (answers : Answers) (n : Nat) (sequence : Sequence) : List Event :=
  (phases (handlerGet modes) answers n sequence.modes completed []).2

end Priot.BabySteps
