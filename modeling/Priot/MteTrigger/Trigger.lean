/-
# Triggers

A trigger queries values, compares them with those of its previous run, and fires events. An entry that only one of
the two lists has gets a dummy in the other; which tests are armed is kept in its `index`. What the queries answer is
an input. To follow a `NULL` pointer, or to read octets that have not been stored, is a fault (`none`).
-/
import Mathlib.Data.List.Lex

namespace Priot.MteTrigger

abbrev Name := List Nat

/-! ## varbinds -/

def asnINTEGER : Nat := 0x02
def asnNULL : Nat := 0x05
def asnCOUNTER : Nat := 0x41
def asnGAUGE : Nat := 0x42
def asnTIMETICKS : Nat := 0x43
def asnCOUNTER64 : Nat := 0x46
def asnUINTEGER : Nat := 0x47
def asnOPAQUE_COUNTER64 : Nat := 0x76
def asnOPAQUE_I64 : Nat := 0x7a
def asnOPAQUE_U64 : Nat := 0x7b
def noSuchObject : Nat := 0x80
def noSuchInstance : Nat := 0x81
def asnPRIV_RETRY : Nat := 0xc7

/-- `VariableList`, without the link. A value that is `NULL` is `none`; its `valueLength` is the number of octets. -/
structure VarBind where
  name : Name
  type : Nat
  value : Option (List (BitVec 8))
  index : BitVec 32
  deriving DecidableEq

/-- The octets of a value: none if it is `NULL`, which has `valueLength` 0. -/
def VarBind.octets (v : VarBind) : List (BitVec 8) := v.value.getD []

/-- A new varbind with a name and a type: `calloc` and `Client_setVarObjid`. -/
def dummy (name : Name) (type : Nat) : VarBind := ⟨name, type, none, 0⟩

/-- A `long` as it is stored, the lowest octet first. -/
def readLong : List (BitVec 8) → Option (BitVec 64)
  | b0 :: b1 :: b2 :: b3 :: b4 :: b5 :: b6 :: b7 :: _ =>
    some (b7 ++ b6 ++ b5 ++ b4 ++ b3 ++ b2 ++ b1 ++ b0)
  | _ => none

/-- `*vp->value.integer`. -/
def VarBind.integer (v : VarBind) : Option (BitVec 64) := v.value.bind readLong

/-! ## the trigger -/

/-- The flags of `index`, by their places. -/
inductive Armed
  | thRise
  | thFall
  | thDRise
  | thDFall
  | boolean
  deriving DecidableEq

def Armed.bit : Armed → Nat
  | .thRise => 0
  | .thFall => 1
  | .thDRise => 2
  | .thDFall => 3
  | .boolean => 4

def Armed.flag (a : Armed) : BitVec 32 := BitVec.twoPow 32 a.bit

def armedAll : BitVec 32 := 0x1f

/-- `MTE_BOOL_UNEQUAL` to `MTE_BOOL_GREATEREQUAL`. -/
inductive Comparison
  | unequal
  | equal
  | less
  | lessEqual
  | greater
  | greaterEqual
  deriving DecidableEq

def Comparison.holds : Comparison → Int → Int → Bool
  | .unequal, value, reference => value ≠ reference
  | .equal, value, reference => value = reference
  | .less, value, reference => value < reference
  | .lessEqual, value, reference => value ≤ reference
  | .greater, value, reference => value > reference
  | .greaterEqual, value, reference => value ≥ reference

/-- What is configured of a trigger. An event is configured if its name is not empty. -/
structure Trigger where
  existence : Bool
  boolean : Bool
  threshold : Bool
  delta : Bool
  vwild : Bool
  dwild : Bool
  sysupt : Bool
  bstart : Bool
  exPresent : Bool
  exAbsent : Bool
  exChanged : Bool
  exStartPresent : Bool
  exStartAbsent : Bool
  exEvent : Bool
  boolComparison : Comparison
  boolValue : Int
  boolEvent : Bool
  thStartRise : Bool
  thStartFall : Bool
  thRiseValue : Int
  thFallValue : Int
  thDRiseValue : Int
  thDFallValue : Int
  thRiseEvent : Bool
  thFallEvent : Bool
  thDRiseEvent : Bool
  thDFallEvent : Bool
  valueIDLen : Nat
  discontID : Name

/-- What `mteTrigger_createEntry` sets. -/
def createEntry : Trigger where
  existence := false
  boolean := false
  threshold := false
  delta := false
  vwild := false
  dwild := false
  sysupt := true
  bstart := true
  exPresent := true
  exAbsent := true
  exChanged := false
  exStartPresent := true
  exStartAbsent := true
  exEvent := false
  boolComparison := .unequal
  boolValue := 0
  boolEvent := false
  thStartRise := true
  thStartFall := true
  thRiseValue := 0
  thFallValue := 0
  thDRiseValue := 0
  thDFallValue := 0
  thRiseEvent := false
  thFallEvent := false
  thDRiseEvent := false
  thDFallEvent := false
  valueIDLen := 2
  discontID := [1, 3, 6, 1, 2, 1, 1, 3, 0]

/-- The events of a trigger. -/
inductive Event
  | existence
  | boolean
  | thRise
  | thFall
  | thDRise
  | thDFall
  deriving DecidableEq

/-- An event fired for an instance. -/
structure Fired where
  event : Event
  name : Name
  deriving DecidableEq

/-! ## the two lists of results -/

/-- Exceptions are taken for missing values. -/
def flatten (vp1 : VarBind) : VarBind :=
  if vp1.type = noSuchInstance ∨ vp1.type = noSuchObject ∨ vp1.type = asnPRIV_RETRY then { vp1 with type := asnNULL }
  else vp1

/-- The rounds of the loop up to the next `vp1`; `rest` is what is made of the entries behind it. The flag is whether
`vp2_prev` is set. The results are `var` and `entry->old_results` from here on. -/
def mergeEntry (vp1 : VarBind) (rest : Bool → List VarBind → List VarBind × List VarBind) :
    Bool → List VarBind → List VarBind × List VarBind
  | prev, [] =>
    let (news, olds) := rest prev []
    ({ vp1 with index := armedAll } :: news, if prev then dummy vp1.name asnNULL :: olds else olds)
  | prev, vp2 :: vp2s =>
    if vp1.name < vp2.name then
      let (news, olds) := rest true (vp2 :: vp2s)
      ({ vp1 with index := armedAll } :: news, dummy vp1.name asnNULL :: olds)
    else if vp1.name = vp2.name then
      let (news, olds) := rest true vp2s
      ({ vp1 with index := vp2.index } :: news, vp2 :: olds)
    else if vp2.type ≠ asnNULL then
      let (news, olds) := mergeEntry vp1 rest true vp2s
      (dummy vp2.name asnNULL :: news, vp2 :: olds)
    else mergeEntry vp1 rest prev vp2s

/-- The loop that makes the lists match. -/
def merge : List VarBind → Bool → List VarBind → List VarBind × List VarBind
  | [], _, olds => ([], olds)
  | vp1 :: vp1s, prev, olds => mergeEntry (flatten vp1) (merge vp1s) prev olds

/-! ## existence -/

/-- Whether the value is another: its length, or `memcmp`. -/
def changed (vp1 vp2 : VarBind) : Bool := vp1.octets ≠ vp2.octets

/-- Whether one of the tests matches. -/
def existenceFires (t : Trigger) (vp1 vp2 : VarBind) : Bool :=
  (t.exPresent && vp1.type ≠ asnNULL && vp2.type = asnNULL) ||
    (t.exAbsent && vp1.type = asnNULL && vp2.type ≠ asnNULL) || (t.exChanged && changed vp1 vp2)

/-- The loop over both lists. -/
def existenceLoop (t : Trigger) : List VarBind → List VarBind → Option (List Fired)
  | [], _ => some []
  | _ :: _, [] => none
  | vp1 :: vp1s, vp2 :: vp2s => do
    let rest ← existenceLoop t vp1s vp2s
    some (if existenceFires t vp1 vp2 then ⟨.existence, vp1.name⟩ :: rest else rest)

/-- The existence tests of the first run. -/
def existenceStart (t : Trigger) (var : List VarBind) : List Fired :=
  (if t.exPresent && t.exStartPresent then var.map fun vp1 => ⟨.existence, vp1.name⟩ else []) ++
    (if t.exAbsent && t.exStartAbsent && !t.vwild then
      (var.head?.filter fun vp1 => vp1.type = asnNULL).toList.map fun vp1 => ⟨.existence, vp1.name⟩ else [])

def existenceTests (t : Trigger) (var old : List VarBind) : Option (List Fired) :=
  if t.existence && t.exEvent then
    if old = [] then some (existenceStart t var) else existenceLoop t var old
  else some []

/-! ## the sample of an entry -/

/-- Whether a type can be used for Boolean and threshold tests. -/
def accepted (type : Nat) : Bool :=
  type ∈ [asnINTEGER, asnCOUNTER, asnGAUGE, asnTIMETICKS, asnUINTEGER, asnCOUNTER64, asnOPAQUE_COUNTER64,
    asnOPAQUE_U64, asnOPAQUE_I64]

/-- Whether the wildcarded marker has changed, or is bogus. -/
def discontinuity (dv1 dv2 : List VarBind) : Option Bool := do
  let dv1 ← dv1.head?
  if dv1.type = asnNULL then some true
  else
    let dv2 ← dv2.head?
    if dv1.type ≠ dv2.type then some true else some ((← dv1.integer) ≠ (← dv2.integer))

/-- `vp2 = vp2->next`. -/
def next : List VarBind → Option (List VarBind)
  | [] => none
  | _ :: vp2s => some vp2s

/-- The value to be tested for an entry, unless it is skipped, and `vp2` after it. Without `delta` there is no use of
`vp2`. -/
def sample (t : Trigger) (dv1 dv2 : List VarBind) (vp1 : VarBind) (vp2 : List VarBind) :
    Option (Option (BitVec 64) × List VarBind) :=
  if vp1.value = none then some (none, vp2.tail)
  else if t.delta then do
    let skip ← if t.dwild then discontinuity dv1 dv2 else some false
    if skip then some (none, ← next vp2)
    else
      let old ← vp2.head?
      if old.type = asnNULL then some (none, vp2.tail)
      else some (some ((← vp1.integer) - (← old.integer)), vp2.tail)
  else do some (some (← vp1.integer), vp2)

/-- What a loop over the entries makes of them: the entries with other flags, the samples that have been evaluated, and
the events fired. -/
structure Tested where
  var : List VarBind
  evaluated : List (Name × BitVec 64)
  fired : List Fired

/-- The loop of the Boolean and of the threshold tests. -/
def testLoop (t : Trigger) (dv1 dv2 : List VarBind) (test : VarBind → BitVec 64 → VarBind × List Fired) :
    List VarBind → List VarBind → Option Tested
  | [], _ => some ⟨[], [], []⟩
  | vp1 :: vp1s, vp2 => do
    let (value, vp2) ← sample t dv1 dv2 vp1 vp2
    let rest ← testLoop t dv1 dv2 test vp1s vp2
    match value with
    | none => some { rest with var := vp1 :: rest.var }
    | some value =>
      let (vp1, fired) := test vp1 value
      some ⟨vp1 :: rest.var, (vp1.name, value) :: rest.evaluated, fired ++ rest.fired⟩

/-! ## the tests -/

def VarBind.armed (v : VarBind) (a : Armed) : Bool := v.index &&& a.flag ≠ 0

/-- The Boolean test of a value; `first` is that there are no old results. -/
def booleanTest (t : Trigger) (first : Bool) (vp1 : VarBind) (value : BitVec 64) : VarBind × List Fired :=
  if t.boolComparison.holds value.toInt t.boolValue then
    if vp1.armed .boolean then
      ({ vp1 with index := vp1.index &&& ~~~ Armed.boolean.flag },
        if !first || t.bstart then [⟨.boolean, vp1.name⟩] else [])
    else (vp1, [])
  else ({ vp1 with index := vp1.index ||| Armed.boolean.flag }, [])

/-- One half of a threshold test, on a working copy `cmp` of the flags: if the test is armed, it is disarmed and its
opposite armed, and the event may be fired. -/
def thresholdHalf (crossed : Bool) (index : BitVec 32) (armed opposite : Armed) (fire : Bool) (fired : Fired)
    (cmp : BitVec 32) : BitVec 32 × List Fired :=
  if crossed && index &&& armed.flag ≠ 0 then
    ((cmp &&& ~~~ armed.flag) ||| opposite.flag, if fire then [fired] else [])
  else (cmp, [])

/-- The threshold tests of a value. Both halves look at the working copy, and whether there is a rising event. -/
def thresholdTest (t : Trigger) (first : Bool) (vp1 : VarBind) (value : BitVec 64) : VarBind × List Fired :=
  let (cmp, rising) := thresholdHalf (value.toInt ≥ t.thRiseValue) vp1.index .thRise .thFall
    ((!first || t.thStartRise) && t.thRiseEvent) ⟨.thRise, vp1.name⟩ vp1.index
  let (cmp, falling) := thresholdHalf (value.toInt ≤ t.thFallValue) cmp .thFall .thRise
    ((!first || t.thStartFall) && t.thRiseEvent) ⟨.thFall, vp1.name⟩ cmp
  ({ vp1 with index := cmp }, rising ++ falling)

/-- The delta-threshold tests of a value. Both halves look at the flags, and whether there is a rising event. -/
def deltaThresholdTest (t : Trigger) (vp1 : VarBind) (value : BitVec 64) : VarBind × List Fired :=
  let (cmp, rising) := thresholdHalf (value.toInt ≥ t.thDRiseValue) vp1.index .thDRise .thDFall t.thDRiseEvent
    ⟨.thDRise, vp1.name⟩ vp1.index
  let (cmp, falling) := thresholdHalf (value.toInt ≤ t.thDFallValue) vp1.index .thDFall .thDRise t.thDRiseEvent
    ⟨.thDFall, vp1.name⟩ cmp
  ({ vp1 with index := cmp }, rising ++ falling)

/-- The loop of the delta-threshold tests. -/
def deltaThresholdLoop (t : Trigger) : List VarBind → List VarBind → Option (List VarBind × List Fired)
  | [], _ => some ([], [])
  | vp1s, [] => some (vp1s, [])
  | vp1 :: vp1s, vp2 :: vp2s => do
    let (vars, fired) ← deltaThresholdLoop t vp1s vp2s
    if vp1.value = none ∨ vp2.type = asnNULL then some (vp1 :: vars, fired)
    else
      let (vp1, fired') := deltaThresholdTest t vp1 ((← vp1.integer) - (← vp2.integer))
      some (vp1 :: vars, fired' ++ fired)

/-! ## the wildcarded markers -/

/-- The rounds of the loop up to the next `vp1`, as in `mergeEntry`. The first marker can neither be preceded by a dummy
nor be removed, and a dummy has type 0. -/
def alignEntry (discontID suffix : Name) (rest : Bool → List VarBind → Option (List VarBind)) :
    Bool → List VarBind → Option (List VarBind)
  | _, [] => none
  | prev, vp2 :: vp2s =>
    if suffix < vp2.name.drop discontID.length then
      if prev then do some (dummy discontID 0 :: (← rest true (vp2 :: vp2s))) else none
    else if suffix = vp2.name.drop discontID.length then do some (vp2 :: (← rest true vp2s))
    else if prev then alignEntry discontID suffix rest prev vp2s else none

/-- The loop that makes the markers match the entries. -/
def align (discontID : Name) (n : Nat) : List VarBind → Bool → List VarBind → Option (List VarBind)
  | [], _, dvar => some dvar
  | vp1 :: vp1s, prev, dvar => alignEntry discontID (vp1.name.drop n) (align discontID n vp1s) prev dvar

/-! ## a run -/

/-- What a trigger keeps from run to run. -/
structure State where
  oldResults : List VarBind
  oldDeltaDs : List VarBind
  sysUpTime : Int
  deriving DecidableEq

/-- What the queries of a run answer. -/
structure Reading where
  var : List VarBind
  sysUpTime : Int
  dvar : List VarBind

/-- What a run comes to: the events fired, and the samples evaluated in the Boolean and the threshold tests. -/
structure Report where
  fired : List Fired
  boolean : List (Name × BitVec 64)
  threshold : List (Name × BitVec 64)
  deriving DecidableEq

def booleanTests (t : Trigger) (old dv1 dv2 var : List VarBind) : Option Tested :=
  if t.boolean && t.boolEvent then
    testLoop t dv1 dv2 (booleanTest t (old = [])) var (if t.delta then old else [])
  else some ⟨var, [], []⟩

def thresholdTests (t : Trigger) (old dv1 dv2 var : List VarBind) : Option Tested :=
  if t.threshold && (t.thRiseEvent || t.thFallEvent) then
    testLoop t dv1 dv2 (thresholdTest t (old = [])) var (if t.delta then old else [])
  else some ⟨var, [], []⟩

def deltaThresholdTests (t : Trigger) (old var : List VarBind) : Option (List VarBind × List Fired) :=
  if t.threshold && (t.thDRiseEvent || t.thDFallEvent) && !t.delta && old ≠ [] then deltaThresholdLoop t var old
  else some (var, [])

/-- Whether the single marker is taken to have changed. Pointers are compared, and those of two varbinds that are both
in use differ unless both are `NULL`. -/
def singleDiscontinuity (t : Trigger) (oldDeltaDs dvar : List VarBind) : Option Bool :=
  if t.dwild || t.sysupt then some false
  else if oldDeltaDs = [] then some true
  else do
    let new ← dvar.head?
    let old ← oldDeltaDs.head?
    some !(old.value = none && new.value = none)

/-- What is left of a run when the lists match, and the markers, if they are needed, do too. -/
def evaluate (t : Trigger) (st : State) (sysUpTime : Int) (var dvar : List VarBind) (existed : List Fired) :
    Option (State × Report) := do
  let boolean ← booleanTests t st.oldResults dvar st.oldDeltaDs var
  let threshold ← thresholdTests t st.oldResults dvar st.oldDeltaDs boolean.var
  let (var, fired) ← deltaThresholdTests t st.oldResults threshold.var
  let st : State := if t.delta then ⟨var, dvar, sysUpTime⟩ else { st with oldResults := var }
  some (st, ⟨existed ++ boolean.fired ++ threshold.fired ++ fired, boolean.evaluated, threshold.evaluated⟩)

/-- `mteTrigger_run`, for a trigger that is enabled, when the queries succeed. -/
def run (t : Trigger) (st : State) (r : Reading) : Option (State × Report) := do
  let (var, old) := merge r.var false st.oldResults
  let st : State := { st with oldResults := old }
  let existed ← existenceTests t var old
  if t.boolean || t.threshold then
    let first ← var.head?
    if !accepted first.type then some ({ st with oldResults := var }, ⟨existed, [], []⟩)
    else if t.delta then
      let dvar := if t.sysupt then [] else r.dvar
      let saved : State := ⟨var, dvar, r.sysUpTime⟩
      if old = [] then some (saved, ⟨existed, [], []⟩)
      else if r.sysUpTime < st.sysUpTime then some (saved, ⟨existed, [], []⟩)
      else if ← singleDiscontinuity t st.oldDeltaDs dvar then some (saved, ⟨existed, [], []⟩)
      else
        let dvar ← if t.dwild then align t.discontID t.valueIDLen var false dvar else some dvar
        evaluate t st r.sysUpTime var dvar existed
    else evaluate t st r.sysUpTime var [] existed
  else evaluate t st r.sysUpTime var [] existed

/-- Runs one after the other. -/
def runs (t : Trigger) : State → List Reading → Option (State × List Report)
  | st, [] => some (st, [])
  | st, r :: rs => do
    let (st, report) ← run t st r
    let (st, reports) ← runs t st rs
    some (st, report :: reports)

/-- Before the first run. -/
def State.init : State := ⟨[], [], 0⟩

end Priot.MteTrigger
