/-
# Creating a row of another agent

A machine of six steps sends SET requests until one way of creating the row is accepted. The values of varbinds are
octets, and `NULL` is `none`; a value that is written through a `NULL` pointer is `none` for the whole run. That the
answer of a request that succeeds is copied over the varbinds is left out: those of the caller's list are not looked
at any more. Allocations succeed.
-/
import Priot.Lib.ForLoop
import Priot.Containers.BinarySearch
import Priot.Registry.Oid

namespace Priot.Client

open Lib Containers List

/-! ## varbinds and requests -/

def asnINTEGER : Nat := 0x02

def ErrorCode_ABORT : Int := -22

def ErrorCode_GENERR : Int := -1

def ErrorCode_SUCCESS : Int := 0

/-- `tcROW_STATUS_ACTIVE`, `tcROW_STATUS_CREATEANDGO` and `tcROW_STATUS_CREATEANDWAIT`. -/
def tcROW_STATUS_ACTIVE : UInt8 := 1

def tcROW_STATUS_CREATEANDGO : UInt8 := 4

def tcROW_STATUS_CREATEANDWAIT : UInt8 := 5

/-- `VariableList`. The length of the value is `valueLength`. -/
structure VarBind where
  name : ObjId
  type : Nat
  value : Option (List UInt8)
  deriving DecidableEq

/-- A varbind of a list, and the position in the caller's list of the one that it is a copy of. C tells the members of
a list apart by their addresses. -/
abbrev Member := VarBind × Nat

/-- A `long`, as it lies in memory. -/
def longOctets (val : UInt8) : List UInt8 := [val, 0, 0, 0, 0, 0, 0, 0]

/-- `*value.integer = val`. The eight octets are there, whatever the length of the value is. -/
def storeLong (val : UInt8) (octets : List UInt8) : List UInt8 :=
  (longOctets val).take octets.length ++ octets.drop 8

def VarBind.withLong (var : VarBind) (val : UInt8) : VarBind := { var with value := some (longOctets val) }

def cloneVarbind (vars : List Member) : List Member := vars.take 10000

def getVbNum : List Member → Int → Option Member
  | [], _ => none
  | var :: vars, index => if index > 0 then getVbNum vars (index - 1) else some var

/-- The requests that have been sent, with what `Client_querySet` returned for them. -/
abbrev Sent := List (List Member × Int)

/-- `Client_querySet`. What comes of the requests is given by their number. -/
def querySet (outcome : Nat → Int) (sent : Sent) (vars : List Member) : Int × Sent :=
  let rc := outcome sent.length
  (if rc = -2 then ErrorCode_ABORT else rc, sent ++ [(vars, rc)])

/-! ## the steps -/

/-- `Client_RowcreateState`, and what becomes of the requests. -/
structure RowcreateState where
  vars : List Member
  rowStatusIndex : Nat
  outcome : Nat → Int

variable (ctx : RowcreateState) (sent : Sent)

/-- A request with the RowStatus alone. -/
def sendRowStatus (val : UInt8) : Int × Sent :=
  match getVbNum ctx.vars ctx.rowStatusIndex with
  | none => (ErrorCode_GENERR, sent)
  | some rsVar => querySet ctx.outcome sent [(rsVar.1.withLong val, rsVar.2)]

/-- A request with everything, in which the varbind at a position has been given a RowStatus. -/
def sendAllValues (index : Int) (val : UInt8) : Option (Int × Sent) :=
  let vars := cloneVarbind ctx.vars
  match getVbNum vars index with
  | none => some (ErrorCode_GENERR, sent)
  | some rsVar => rsVar.1.value.map fun octets =>
      querySet ctx.outcome sent
        (vars.set index.toNat ({ rsVar.1 with value := some (storeLong val octets) }, rsVar.2))

def activate : Int × Sent := sendRowStatus ctx sent tcROW_STATUS_ACTIVE

/-- The loop of `_Client_rowStatusStateSingleValueCols`. -/
def singleValueLoop (outcome : Nat → Int) (rowStatus : Member) : Int → Sent → List Member → Int × Sent
  | rc, sent, [] => (rc, sent)
  | rc, sent, var :: vars =>
    if var.2 = rowStatus.2 then singleValueLoop outcome rowStatus rc sent vars
    else
      let r := querySet outcome sent [var]
      if r.1 ≠ ErrorCode_SUCCESS then r else singleValueLoop outcome rowStatus r.1 r.2 vars

def singleValueCols : Int × Sent :=
  match getVbNum ctx.vars ctx.rowStatusIndex with
  | none => (ErrorCode_GENERR, sent)
  | some rowStatus => singleValueLoop ctx.outcome rowStatus ErrorCode_GENERR sent ctx.vars

def multipleValuesCols : Int × Sent :=
  let vars := cloneVarbind ctx.vars
  match getVbNum vars ctx.rowStatusIndex with
  | none => (ErrorCode_GENERR, sent)
  | some _ => querySet ctx.outcome sent (vars.eraseIdx ctx.rowStatusIndex)

def singleValueCreateAndWait : Int × Sent := sendRowStatus ctx sent tcROW_STATUS_CREATEANDWAIT

def allValuesCreateAndWait : Option (Int × Sent) :=
  sendAllValues ctx sent ctx.rowStatusIndex tcROW_STATUS_CREATEANDWAIT

/-- `_Client_rowStatusStateAllValuesCreateAndGo`. The position is one more, as an `int`. -/
def allValuesCreateAndGo : Option (Int × Sent) :=
  sendAllValues ctx sent (toInt (ctx.rowStatusIndex + 1)) tcROW_STATUS_CREATEANDGO

/-- The steps of `Client_rowCreate`, in the order in which it declares them. -/
inductive Step
  | activate
  | svCols
  | mvCols
  | svCaw
  | avCaw
  | avCag
  deriving DecidableEq

def Step.run : Step → Option (Int × Sent)
  | .activate => some (Client.activate ctx sent)
  | .svCols => some (singleValueCols ctx sent)
  | .mvCols => some (multipleValuesCols ctx sent)
  | .svCaw => some (singleValueCreateAndWait ctx sent)
  | .avCaw => allValuesCreateAndWait ctx sent
  | .avCag => allValuesCreateAndGo ctx sent

def Step.onSuccess : Step → Option Step
  | .activate => none
  | .svCols => some .activate
  | .mvCols => some .activate
  | .svCaw => some .mvCols
  | .avCaw => some .activate
  | .avCag => none

def Step.onError : Step → Option Step
  | .activate => none
  | .svCols => none
  | .mvCols => some .svCols
  | .svCaw => none
  | .avCaw => some .svCaw
  | .avCag => some .avCaw

/-- What the machine has come to: the requests, and the result of `last_run`. -/
structure Run where
  sent : Sent
  result : Int

/-- A round of `Client_stateMachineRun`. Every step here has something to run. -/
def Step.round (current : Step) (input : Run) : Option (Run × Option Step) :=
  (current.run ctx input.sent).map fun r =>
    (⟨r.2, r.1⟩,
      if r.1 = ErrorCode_SUCCESS then current.onSuccess
      else if r.1 = ErrorCode_ABORT then none
      else current.onError)

/-- `Client_rowCreate`, for so many rounds at most. -/
def rowCreate (rounds : Nat) : Option Run :=
  runSteps (Step.round ctx) rounds (some .avCag) ⟨[], ErrorCode_SUCCESS⟩

/-! ## what is asked of a run -/

/-- A list with an INTEGER RowStatus in it. -/
structure Row where
  vars : List VarBind
  index : Nat
  rowStatus : VarBind
  octets : List UInt8
  there : vars[index]? = some rowStatus
  integer : rowStatus.type = asnINTEGER
  value_eq : rowStatus.value = some octets
  long : octets.length = 8
  index_le : index < 2 ^ 31

namespace Row

variable (row : Row) (outcome : Nat → Int) (sent : Sent)

/-- The members of the caller's list. -/
def members : List Member := row.vars.zipIdx

/-- The members with another value for the RowStatus. -/
def withValue (value : Option (List UInt8)) : List Member :=
  row.members.set row.index ({ row.rowStatus with value := value }, row.index)

def start : RowcreateState := ⟨row.members, row.index, outcome⟩

/-- Nothing is assigned but the caller's values, save that the RowStatus may have one of three others. -/
def Assigns (request : List Member) : Prop :=
  ∃ value, (value = row.rowStatus.value ∨
      ∃ val ∈ [tcROW_STATUS_CREATEANDGO, tcROW_STATUS_CREATEANDWAIT, tcROW_STATUS_ACTIVE],
        value = some (longOctets val)) ∧
    request.Sublist (row.withValue value)

/-- A request that gives the RowStatus this value has been accepted. -/
def Accepted (val : UInt8) : Prop :=
  ∃ request, (request, ErrorCode_SUCCESS) ∈ sent ∧ (row.rowStatus.withLong val, row.index) ∈ request

/-- Every other varbind has been accepted. -/
def OthersAccepted : Prop :=
  ∀ var ∈ row.members, var.2 ≠ row.index → ∃ request, (request, ErrorCode_SUCCESS) ∈ sent ∧ var ∈ request

/-- The row has been created in one request, or has been made active after it was filled. -/
def Created : Prop :=
  (row.withValue (some (longOctets tcROW_STATUS_CREATEANDGO)), ErrorCode_SUCCESS) ∈ sent ∨
    ∃ earlier request later, sent = earlier ++ (request, ErrorCode_SUCCESS) :: later ∧
      row.Accepted earlier tcROW_STATUS_CREATEANDWAIT ∧ row.OthersAccepted earlier ∧
      (row.rowStatus.withLong tcROW_STATUS_ACTIVE, row.index) ∈ request

/-- `Client_rowCreate` ends, sends only what was intended, and has created the row where its last step succeeds. -/
def Intended : Prop :=
  ∃ run, (∀ rounds, 6 ≤ rounds → rowCreate (row.start outcome) rounds = some run) ∧
    (∀ request ∈ run.sent, row.Assigns request.1) ∧
    (run.result = ErrorCode_SUCCESS → row.Created run.sent)

/-- What comes behind the RowStatus is not changed by the step that takes it for the RowStatus. -/
def NextStands : Prop :=
  row.rowStatus.value = some (longOctets tcROW_STATUS_CREATEANDGO) ∧
    ∃ next octets, row.vars[row.index + 1]? = some next ∧ next.value = some octets ∧
      storeLong tcROW_STATUS_CREATEANDGO octets = octets

/-- The RowStatus is out of reach of the clones, or the list fits into a clone and the position behind the RowStatus
does no harm. -/
def Unharmed : Prop :=
  (10000 ≤ row.index ∧ row.index + 1 < 2 ^ 31) ∨
    (row.vars.length ≤ 10000 ∧ (row.index + 1 = row.vars.length ∨ row.NextStands))

end Row

/-! ## lists and positions -/

variable {row : Row} {outcome : Nat → Int} {vars : List Member} {request : List Member} {rc : Int}

theorem getVbNum_eq (vars : List Member) (index : Int) : getVbNum vars index = vars[index.toNat]? := by
  induction vars generalizing index with
  | nil => rfl
  | cons var vars ih =>
    rw [getVbNum]
    split
    · rename_i hpos
      obtain ⟨n, rfl⟩ : ∃ n : Nat, index = (n + 1 : Nat) := ⟨(index - 1).toNat, by omega⟩
      have hpred : ((n + 1 : Nat) : Int) - 1 = (n : Nat) := by omega
      rw [hpred, ih, Int.toNat_natCast, Int.toNat_natCast, getElem?_cons_succ]
    · rename_i hpos
      rw [Int.toNat_of_nonpos (by omega)]
      rfl

theorem getVbNum_natCast (vars : List Member) (n : Nat) : getVbNum vars n = vars[n]? := by
  rw [getVbNum_eq, Int.toNat_natCast]

theorem set_same {var : Member} {n : Nat} (h : vars[n]? = some var) : vars.set n var = vars := by
  -- the position is one of the list, as something stands there
  obtain ⟨hlt, rfl⟩ := List.getElem?_eq_some_iff.1 h
  exact set_getElem_self hlt

namespace Row

theorem members_getElem? (n : Nat) : row.members[n]? = row.vars[n]?.map fun var => (var, n) := by
  rw [members, getElem?_zipIdx, Nat.zero_add]

theorem length_members : row.members.length = row.vars.length := length_zipIdx

theorem rowStatus_member : row.members[row.index]? = some (row.rowStatus, row.index) := by
  rw [members_getElem?, row.there]
  rfl

theorem index_lt : row.index < row.vars.length := (List.getElem?_eq_some_iff.1 row.there).1

theorem members_position {var : Member} (h : var ∈ row.members) : row.members[var.2]? = some var := by
  have hget := mem_zipIdx_iff_getElem?.1 h
  rw [members_getElem?, hget]
  rfl

theorem withValue_own : row.withValue row.rowStatus.value = row.members := set_same rowStatus_member

theorem mem_withValue (value : Option (List UInt8)) :
    ({ row.rowStatus with value := value }, row.index) ∈ row.withValue value := by
  apply mem_set
  rw [length_members]
  exact row.index_lt

theorem mem_withValue_of_ne {var : Member} {value : Option (List UInt8)} (h : var ∈ row.members)
    (hne : var.2 ≠ row.index) : var ∈ row.withValue value := by
  apply mem_of_getElem? (i := var.2)
  rw [withValue, getElem?_set_ne (Ne.symm hne)]
  exact members_position h

/-! ## requests that may be sent -/

theorem assigns_own (h : request.Sublist row.members) : row.Assigns request := by
  refine ⟨row.rowStatus.value, Or.inl rfl, ?_⟩
  rw [withValue_own]
  exact h

theorem assigns_value {val : UInt8}
    (hval : val ∈ [tcROW_STATUS_CREATEANDGO, tcROW_STATUS_CREATEANDWAIT, tcROW_STATUS_ACTIVE])
    (h : request.Sublist (row.withValue (some (longOctets val)))) : row.Assigns request :=
  ⟨some (longOctets val), Or.inr ⟨val, hval, rfl⟩, h⟩

theorem assigns_rowStatus {val : UInt8}
    (hval : val ∈ [tcROW_STATUS_CREATEANDGO, tcROW_STATUS_CREATEANDWAIT, tcROW_STATUS_ACTIVE]) :
    row.Assigns [(row.rowStatus.withLong val, row.index)] := by
  apply assigns_value hval
  rw [singleton_sublist]
  exact mem_withValue _

end Row

/-! ## what the steps do -/

variable {sent more : Sent} {val : UInt8}

theorem querySet_sent (outcome : Nat → Int) (sent : Sent) (vars : List Member) :
    (querySet outcome sent vars).2 = sent ++ [(vars, outcome sent.length)] := rfl

theorem querySet_success (h : (querySet outcome sent vars).1 = ErrorCode_SUCCESS) :
    (querySet outcome sent vars).2 = sent ++ [(vars, ErrorCode_SUCCESS)] := by
  have hrc : outcome sent.length = ErrorCode_SUCCESS := by
    simp only [querySet] at h
    split at h
    · exact absurd h (by decide)
    · exact h
  rw [querySet_sent, hrc]

theorem cloneVarbind_short (h : vars.length ≤ 10000) : cloneVarbind vars = vars := take_of_length_le h

theorem cloneVarbind_beyond {n : Nat} (h : 10000 ≤ n) : (cloneVarbind vars)[n]? = none := by
  apply getElem?_eq_none
  rw [cloneVarbind, length_take]
  omega

theorem storeLong_long {octets : List UInt8} (h : octets.length = 8) : storeLong val octets = longOctets val := by
  rw [storeLong, h, drop_eq_nil_of_le (by omega), append_nil]
  rfl

namespace Row

theorem Accepted.append (h : row.Accepted sent val) (more : Sent) : row.Accepted (sent ++ more) val := by
  obtain ⟨request, hmem, hval⟩ := h
  exact ⟨request, mem_append_left more hmem, hval⟩

theorem all_assigned (hall : ∀ request ∈ sent, row.Assigns request.1) (h : row.Assigns vars) :
    ∀ request ∈ (querySet outcome sent vars).2, row.Assigns request.1 := by
  intro request hmem
  rw [querySet_sent, mem_append, mem_singleton] at hmem
  cases hmem with
  | inl hold => exact hall request hold
  | inr hnew =>
    subst hnew
    exact h

theorem sendRowStatus_eq (outcome : Nat → Int) (sent : Sent) (val : UInt8) :
    sendRowStatus (row.start outcome) sent val = querySet outcome sent [(row.rowStatus.withLong val, row.index)] := by
  rw [sendRowStatus, start, getVbNum_natCast, rowStatus_member]

theorem sendAllValues_rowStatus (h : row.vars.length ≤ 10000) : sendAllValues (row.start outcome) sent row.index val =
      some (querySet outcome sent (row.withValue (some (longOctets val)))) := by
  have hclone : cloneVarbind row.members = row.members := cloneVarbind_short (length_members.trans_le h)
  rw [sendAllValues, start, hclone, getVbNum_natCast, rowStatus_member]
  simp only [row.value_eq, Option.map_some, Int.toNat_natCast, storeLong_long row.long, withValue]

theorem sendAllValues_beyond {index : Int} (h : (cloneVarbind row.members)[index.toNat]? = none) :
    sendAllValues (row.start outcome) sent index val = some (ErrorCode_GENERR, sent) := by
  rw [sendAllValues, start, getVbNum_eq, h]

theorem singleValueLoop_spec (outcome : Nat → Int) (rc : Int) (rowStatus : Member)
    (hsub : ∀ var ∈ vars, var ∈ row.members) (hall : ∀ request ∈ sent, row.Assigns request.1) :
    (∃ more, (singleValueLoop outcome rowStatus rc sent vars).2 = sent ++ more) ∧
      (∀ request ∈ (singleValueLoop outcome rowStatus rc sent vars).2, row.Assigns request.1) ∧
      ((singleValueLoop outcome rowStatus rc sent vars).1 = ErrorCode_SUCCESS → ∀ var ∈ vars, var.2 ≠ rowStatus.2 →
          ∃ request, (request, ErrorCode_SUCCESS) ∈ (singleValueLoop outcome rowStatus rc sent vars).2 ∧
            var ∈ request) := by
  induction vars generalizing rc sent with
  | nil => exact ⟨⟨[], (append_nil sent).symm⟩, hall, fun _ var hvar => absurd hvar not_mem_nil⟩
  | cons var vars ih =>
    have hrest : ∀ var ∈ vars, var ∈ row.members := fun v hv => hsub v (mem_cons_of_mem var hv)
    rw [singleValueLoop]
    split
    · rename_i hsame
      obtain ⟨hmore, hassign, hok⟩ := ih rc hrest hall
      refine ⟨hmore, hassign, ?_⟩
      intro hrc v hv hne
      cases mem_cons.1 hv with
      | inl heq =>
        subst heq
        exact absurd hsame hne
      | inr htail => exact hok hrc v htail hne
    · have hvar : row.Assigns [var] :=
        assigns_own (singleton_sublist.2 (hsub var mem_cons_self))
      have hall₁ : ∀ request ∈ (querySet outcome sent [var]).2, row.Assigns request.1 := all_assigned hall hvar
      simp only
      split
      · rename_i hbad
        refine ⟨⟨_, querySet_sent outcome sent [var]⟩, hall₁, ?_⟩
        intro hrc
        exact absurd hrc hbad
      · rename_i hgood
        have hsent := querySet_success (Decidable.not_not.1 hgood)
        obtain ⟨⟨more, hmore⟩, hassign, hok⟩ := ih (querySet outcome sent [var]).1 hrest hall₁
        refine ⟨⟨[([var], ErrorCode_SUCCESS)] ++ more, ?_⟩, hassign, ?_⟩
        · rw [hmore, hsent, append_assoc]
        · intro hrc v hv hne
          cases mem_cons.1 hv with
          | inl heq =>
            subst heq
            refine ⟨[v], ?_, mem_singleton_self v⟩
            rw [hmore, hsent]
            exact mem_append_left more (mem_append_right sent (mem_singleton_self _))
          | inr htail => exact hok hrc v htail hne

/-! ## what holds between the steps -/

/-- What has been accepted before a step is run. -/
def Reached (row : Row) : Step → Sent → Prop
  | .activate, sent => row.Accepted sent tcROW_STATUS_CREATEANDWAIT ∧ row.OthersAccepted sent
  | .svCols, sent => row.Accepted sent tcROW_STATUS_CREATEANDWAIT
  | .mvCols, sent => row.Accepted sent tcROW_STATUS_CREATEANDWAIT
  | .svCaw, _ => True
  | .avCaw, _ => True
  | .avCag, _ => True

def Before (row : Row) (current : Step) (run : Run) : Prop :=
  (∀ request ∈ run.sent, row.Assigns request.1) ∧ row.Reached current run.sent

def Ended (row : Row) (run : Run) : Prop :=
  (∀ request ∈ run.sent, row.Assigns request.1) ∧ (run.result = ErrorCode_SUCCESS → row.Created run.sent)

end Row

/-- The links lead to steps of smaller rank. -/
def Step.rank : Step → Nat
  | .activate => 0
  | .svCols => 1
  | .mvCols => 2
  | .svCaw => 3
  | .avCaw => 4
  | .avCag => 5

theorem Step.rank_onSuccess {c d : Step} (h : c.onSuccess = some d) : d.rank < c.rank := by
  cases c <;> cases h <;> decide

theorem Step.rank_onError {c d : Step} (h : c.onError = some d) : d.rank < c.rank := by
  cases c <;> cases h <;> decide

namespace Row

theorem round_leads {current : Step} {run : Run} {r : Int × Sent}
    (hrun : current.run (row.start outcome) run.sent = some r) (hall : ∀ request ∈ r.2, row.Assigns request.1)
    (hlast : r.1 = ErrorCode_SUCCESS → current.onSuccess = none → row.Created r.2)
    (hnext : r.1 = ErrorCode_SUCCESS → ∀ d, current.onSuccess = some d → row.Reached d r.2)
    (herror : r.1 ≠ ErrorCode_SUCCESS → ∀ d, current.onError = some d → row.Reached d r.2) :
    ∃ run' next, current.round (row.start outcome) run = some (run', next) ∧
      Leads Step.rank row.Before row.Ended current.rank next run' := by
  refine ⟨_, _, by rw [Step.round, hrun, Option.map_some], ?_⟩
  by_cases hok : r.1 = ErrorCode_SUCCESS
  · rw [if_pos hok]
    cases hlink : current.onSuccess with
    | none => exact ⟨hall, fun _ => hlast hok hlink⟩
    | some d => exact ⟨⟨hall, hnext hok d hlink⟩, Step.rank_onSuccess hlink⟩
  · rw [if_neg hok]
    have hend : row.Ended ⟨r.2, r.1⟩ := ⟨hall, fun h => absurd h hok⟩
    split
    · exact hend
    · cases hlink : current.onError with
      | none => exact hend
      | some d => exact ⟨⟨hall, herror hok d hlink⟩, Step.rank_onError hlink⟩

theorem round_nothing {current : Step} {run : Run}
    (hrun : current.run (row.start outcome) run.sent = some (ErrorCode_GENERR, run.sent))
    (hall : ∀ request ∈ run.sent, row.Assigns request.1)
    (herror : ∀ d, current.onError = some d → row.Reached d run.sent) :
    ∃ run' next, current.round (row.start outcome) run = some (run', next) ∧
      Leads Step.rank row.Before row.Ended current.rank next run' := by
  have hbad : ErrorCode_GENERR ≠ ErrorCode_SUCCESS := by decide
  exact round_leads hrun hall (fun hok => absurd hok hbad) (fun hok => absurd hok hbad) fun _ => herror

end Row

/-! ## each step -/

namespace Row

variable {run : Run}

theorem mem_querySet (h : (querySet outcome sent vars).1 = ErrorCode_SUCCESS) :
    (vars, ErrorCode_SUCCESS) ∈ (querySet outcome sent vars).2 := by
  rw [querySet_success h]
  exact mem_append_right sent (mem_singleton_self _)

theorem activate_leads (h : row.Before .activate run) :
    ∃ run' next, Step.activate.round (row.start outcome) run = some (run', next) ∧
      Leads Step.rank row.Before row.Ended Step.activate.rank next run' := by
  have hrun : Step.activate.run (row.start outcome) run.sent =
      some (querySet outcome run.sent [(row.rowStatus.withLong tcROW_STATUS_ACTIVE, row.index)]) := by
    rw [Step.run, activate, sendRowStatus_eq]
  apply round_leads hrun (all_assigned h.1 (assigns_rowStatus (by decide)))
  · intro hok _
    refine Or.inr ⟨run.sent, _, [], querySet_success hok, h.2.1, h.2.2, mem_singleton_self _⟩
  · intro _ d hlink
    cases hlink
  · intro _ d hlink
    cases hlink

theorem svCols_leads (h : row.Before .svCols run) :
    ∃ run' next, Step.svCols.round (row.start outcome) run = some (run', next) ∧
      Leads Step.rank row.Before row.Ended Step.svCols.rank next run' := by
  have hrun : Step.svCols.run (row.start outcome) run.sent =
      some (singleValueLoop outcome (row.rowStatus, row.index) ErrorCode_GENERR run.sent row.members) := by
    rw [Step.run, singleValueCols, start, getVbNum_natCast, rowStatus_member]
  obtain ⟨⟨more, hmore⟩, hassign, hothers⟩ := singleValueLoop_spec outcome ErrorCode_GENERR
    (row.rowStatus, row.index) (fun var hvar => hvar) h.1
  apply round_leads hrun hassign
  · intro _ hlink
    cases hlink
  · intro hok d hlink
    cases hlink
    refine ⟨?_, hothers hok⟩
    rw [hmore]
    exact h.2.append more
  · intro _ d hlink
    cases hlink

theorem mvCols_leads (hlen : 10000 ≤ row.index ∨ row.vars.length ≤ 10000) (h : row.Before .mvCols run) :
    ∃ run' next, Step.mvCols.round (row.start outcome) run = some (run', next) ∧
      Leads Step.rank row.Before row.Ended Step.mvCols.rank next run' := by
  cases hlen with
  | inl hbeyond =>
    have hrun : Step.mvCols.run (row.start outcome) run.sent = some (ErrorCode_GENERR, run.sent) := by
      rw [Step.run, multipleValuesCols, start, getVbNum_natCast, cloneVarbind_beyond hbeyond]
    apply round_nothing hrun h.1
    intro d hlink
    cases hlink
    exact h.2
  | inr hshort =>
    have hrun : Step.mvCols.run (row.start outcome) run.sent =
        some (querySet outcome run.sent (row.members.eraseIdx row.index)) := by
      have hclone : cloneVarbind row.members = row.members :=
        cloneVarbind_short (length_members.trans_le hshort)
      rw [Step.run, multipleValuesCols, start, hclone, getVbNum_natCast, rowStatus_member]
    apply round_leads hrun (all_assigned h.1 (assigns_own (eraseIdx_sublist row.members row.index)))
    · intro _ hlink
      cases hlink
    · intro hok d hlink
      cases hlink
      refine ⟨h.2.append _, ?_⟩
      intro var hvar hne
      refine ⟨_, mem_querySet hok, ?_⟩
      exact mem_eraseIdx_iff_getElem?.2 ⟨var.2, hne, members_position hvar⟩
    · intro _ d hlink
      cases hlink
      exact h.2.append _

theorem svCaw_leads (h : row.Before .svCaw run) :
    ∃ run' next, Step.svCaw.round (row.start outcome) run = some (run', next) ∧
      Leads Step.rank row.Before row.Ended Step.svCaw.rank next run' := by
  have hrun : Step.svCaw.run (row.start outcome) run.sent =
      some (querySet outcome run.sent [(row.rowStatus.withLong tcROW_STATUS_CREATEANDWAIT, row.index)]) := by
    rw [Step.run, singleValueCreateAndWait, sendRowStatus_eq]
  apply round_leads hrun (all_assigned h.1 (assigns_rowStatus (by decide)))
  · intro _ hlink
    cases hlink
  · intro hok d hlink
    cases hlink
    exact ⟨_, mem_querySet hok, mem_singleton_self _⟩
  · intro _ d hlink
    cases hlink

theorem avCaw_leads (hlen : 10000 ≤ row.index ∨ row.vars.length ≤ 10000) (h : row.Before .avCaw run) :
    ∃ run' next, Step.avCaw.round (row.start outcome) run = some (run', next) ∧
      Leads Step.rank row.Before row.Ended Step.avCaw.rank next run' := by
  cases hlen with
  | inl hbeyond =>
    have hrun : Step.avCaw.run (row.start outcome) run.sent = some (ErrorCode_GENERR, run.sent) :=
      sendAllValues_beyond (cloneVarbind_beyond hbeyond)
    apply round_nothing hrun h.1
    intro d hlink
    cases hlink
    trivial
  | inr hshort =>
    have hrun : Step.avCaw.run (row.start outcome) run.sent =
        some (querySet outcome run.sent (row.withValue (some (longOctets tcROW_STATUS_CREATEANDWAIT)))) :=
      sendAllValues_rowStatus hshort
    apply round_leads hrun (all_assigned h.1 (assigns_value (by decide) (List.Sublist.refl _)))
    · intro _ hlink
      cases hlink
    · intro hok d hlink
      cases hlink
      refine ⟨⟨_, mem_querySet hok, mem_withValue _⟩, ?_⟩
      intro var hvar hne
      exact ⟨_, mem_querySet hok, mem_withValue_of_ne hvar hne⟩
    · intro _ d hlink
      cases hlink
      trivial

theorem avCag_run (outcome : Nat → Int) (sent : Sent) (h : row.Unharmed) :
    Step.avCag.run (row.start outcome) sent = some (ErrorCode_GENERR, sent) ∨ Step.avCag.run (row.start outcome) sent =
        some (querySet outcome sent (row.withValue (some (longOctets tcROW_STATUS_CREATEANDGO)))) := by
  -- the index, one more, is still an `int`
  have hplus : row.index + 1 < 2 ^ 31 → (toInt (row.index + 1)).toNat = row.index + 1 := by
    intro hlt
    rw [toInt_natCast hlt, Int.toNat_natCast]
  rcases h with ⟨hbeyond, hlt⟩ | ⟨hshort, hend | ⟨hvalue, next, octets, hnext, hoctets, hsame⟩⟩
  · left
    have hnone : (cloneVarbind row.members)[(toInt (row.index + 1)).toNat]? = none := by
      rw [hplus hlt]
      exact cloneVarbind_beyond (by omega)
    exact sendAllValues_beyond hnone
  · left
    have hnone : (cloneVarbind row.members)[(toInt (row.index + 1)).toNat]? = none := by
      rw [hplus (by omega), cloneVarbind_short (length_members.trans_le hshort)]
      apply getElem?_eq_none
      rw [length_members]
      omega
    exact sendAllValues_beyond hnone
  · right
    have hlt : row.index + 1 < row.vars.length := (List.getElem?_eq_some_iff.1 hnext).1
    have hmember : row.members[row.index + 1]? = some (next, row.index + 1) := by
      rw [members_getElem?, hnext, Option.map_some]
    have hself : row.members.set (row.index + 1) ({ next with value := some octets }, row.index + 1) =
        row.members := by
      rw [← hoctets]
      exact set_same hmember
    rw [← hvalue, withValue_own, Step.run, allValuesCreateAndGo, sendAllValues, start,
      cloneVarbind_short (length_members.trans_le hshort), getVbNum_eq, hplus (by omega), hmember]
    simp only [hoctets, Option.map_some, hsame, hself]

theorem avCag_leads (hrow : row.Unharmed) (h : row.Before .avCag run) :
    ∃ run' next, Step.avCag.round (row.start outcome) run = some (run', next) ∧
      Leads Step.rank row.Before row.Ended Step.avCag.rank next run' := by
  cases avCag_run outcome run.sent hrow with
  | inl hrun =>
    apply round_nothing hrun h.1
    intro d hlink
    cases hlink
    trivial
  | inr hrun =>
    apply round_leads hrun (all_assigned h.1 (assigns_value (by decide) (List.Sublist.refl _)))
    · intro hok _
      exact Or.inl (mem_querySet hok)
    · intro _ d hlink
      cases hlink
    · intro _ d hlink
      cases hlink
      trivial

theorem intended_of_unharmed (h : row.Unharmed) (outcome : Nat → Int) : row.Intended outcome := by
  have hlen : 10000 ≤ row.index ∨ row.vars.length ≤ 10000 := h.imp (fun hb => hb.1) fun hs => hs.1
  -- each step leads to a step of a lower rank, or ends the run
  have hstep : ∀ current run, row.Before current run →
      ∃ run' next, Step.round (row.start outcome) current run = some (run', next) ∧
        Leads Step.rank row.Before row.Ended current.rank next run' := by
    intro current run hbefore
    cases current with
    | activate => exact activate_leads hbefore
    | svCols => exact svCols_leads hbefore
    | mvCols => exact mvCols_leads hlen hbefore
    | svCaw => exact svCaw_leads hbefore
    | avCaw => exact avCaw_leads hlen hbefore
    | avCag => exact avCag_leads h hbefore
  have hfirst : row.Before .avCag ⟨[], ErrorCode_SUCCESS⟩ := ⟨fun request hmem => absurd hmem not_mem_nil, trivial⟩
  obtain ⟨run, hrun, hended⟩ := runSteps_spec hstep hfirst (n := 6) (by decide)
  exact ⟨run, fun rounds hrounds => runSteps_mono hrounds hrun, hended.1, hended.2⟩

end Row

/-! ## where it goes wrong -/

namespace Row

/-- Every request is accepted. -/
def accepting : Nat → Int := fun _ => ErrorCode_SUCCESS

theorem querySet_accepting (sent : Sent) (vars : List Member) :
    querySet accepting sent vars = (ErrorCode_SUCCESS, sent ++ [(vars, ErrorCode_SUCCESS)]) := by
  have hbad : ¬ ErrorCode_SUCCESS = -2 := by decide
  have hrc : ¬ accepting sent.length = -2 := hbad
  simp only [querySet, if_neg hrc]
  rfl

theorem run_of_found {var : Member} {octets : List UInt8} {run : Run}
    (hvar : (cloneVarbind row.members)[(toInt (row.index + 1)).toNat]? = some var) (hvalue : var.1.value = some octets)
    (hrun : rowCreate (row.start accepting) 6 = some run) :
    run = ⟨[((cloneVarbind row.members).set (toInt (row.index + 1)).toNat
      ({ var.1 with value := some (storeLong tcROW_STATUS_CREATEANDGO octets) }, var.2), ErrorCode_SUCCESS)],
      ErrorCode_SUCCESS⟩ := by
  have hfirst : Step.avCag.run (row.start accepting) [] = some (querySet accepting []
      ((cloneVarbind row.members).set (toInt (row.index + 1)).toNat
        ({ var.1 with value := some (storeLong tcROW_STATUS_CREATEANDGO octets) }, var.2))) := by
    rw [Step.run, allValuesCreateAndGo, sendAllValues, start, getVbNum_eq, hvar]
    simp only [hvalue, Option.map_some]
  rw [rowCreate, runSteps, Step.round, hfirst] at hrun
  cases hrun
  rfl

theorem rowCreate_of_null {var : Member} (rounds : Nat)
    (hvar : (cloneVarbind row.members)[(toInt (row.index + 1)).toNat]? = some var) (hvalue : var.1.value = none) :
    rowCreate (row.start outcome) (rounds + 1) = none := by
  have hfirst : Step.avCag.run (row.start outcome) [] = none := by
    rw [Step.run, allValuesCreateAndGo, sendAllValues, start, getVbNum_eq, hvar]
    simp only [hvalue, Option.map_none]
  rw [rowCreate, runSteps, Step.round, hfirst]
  rfl

theorem run_of_missed {run : Run} (hmissed : (cloneVarbind row.members)[(toInt (row.index + 1)).toNat]? = none)
    (hfound : (cloneVarbind row.members)[row.index]? = some (row.rowStatus, row.index))
    (hrun : rowCreate (row.start accepting) 6 = some run) :
    run = ⟨[((cloneVarbind row.members).set row.index (row.rowStatus.withLong tcROW_STATUS_CREATEANDWAIT, row.index),
        ErrorCode_SUCCESS),
      ([(row.rowStatus.withLong tcROW_STATUS_ACTIVE, row.index)], ErrorCode_SUCCESS)], ErrorCode_SUCCESS⟩ := by
  -- nothing stands behind the RowStatus, so the first request is not sent
  have hfirst : Step.avCag.run (row.start accepting) [] = some (ErrorCode_GENERR, []) := sendAllValues_beyond hmissed
  have hsecond : Step.avCaw.run (row.start accepting) [] = some (ErrorCode_SUCCESS, [((cloneVarbind row.members).set
      row.index (row.rowStatus.withLong tcROW_STATUS_CREATEANDWAIT, row.index), ErrorCode_SUCCESS)]) := by
    rw [Step.run, allValuesCreateAndWait, sendAllValues, start, getVbNum_natCast, hfound]
    simp only [querySet_accepting, nil_append, row.value_eq, Option.map_some, Int.toNat_natCast,
      storeLong_long row.long, VarBind.withLong]
  -- the last step does not look at what was sent before
  have hthird : ∀ sent, Step.activate.run (row.start accepting) sent =
      some (ErrorCode_SUCCESS,
        sent ++ [([(row.rowStatus.withLong tcROW_STATUS_ACTIVE, row.index)], ErrorCode_SUCCESS)]) := by
    intro sent
    rw [Step.run, activate, sendRowStatus_eq, querySet_accepting]
  rw [rowCreate, runSteps, Step.round, hfirst, Option.map_some, Option.bind_some, if_neg (by decide),
    if_neg (by decide), Step.onError, runSteps, Step.round, hsecond, Option.map_some, Option.bind_some, if_pos rfl,
    Step.onSuccess, runSteps, Step.round, hthird] at hrun
  cases hrun
  rfl

theorem created_single {request : List Member} (h : row.Created [(request, ErrorCode_SUCCESS)]) :
    request = row.withValue (some (longOctets tcROW_STATUS_CREATEANDGO)) := by
  cases h with
  | inl hgo =>
    rw [mem_singleton, Prod.mk.injEq] at hgo
    exact hgo.1.symm
  | inr hwait =>
    obtain ⟨earlier, last, later, hsent, ⟨first, hfirst, _⟩, _⟩ := hwait
    have hlength := congrArg List.length hsent
    have hpos := length_pos_of_mem hfirst
    simp only [length_append, length_cons, length_nil] at hlength
    omega

theorem length_withValue (value : Option (List UInt8)) : (row.withValue value).length = row.vars.length := by
  rw [withValue, length_set, length_members]

/-- The request of the first step is the one for createAndGo only if it has changed nothing. -/
theorem nextStands_of_same {var : Member} {octets : List UInt8} (hvalue : var.1.value = some octets)
    (hvar : row.members[row.index + 1]? = some var)
    (h : row.members.set (row.index + 1)
        ({ var.1 with value := some (storeLong tcROW_STATUS_CREATEANDGO octets) }, var.2) =
      row.withValue (some (longOctets tcROW_STATUS_CREATEANDGO))) : row.NextStands := by
  have hlt : row.index + 1 < row.members.length := (List.getElem?_eq_some_iff.1 hvar).1
  have hnext := congrArg (·[row.index + 1]?) h
  have hown := congrArg (·[row.index]?) h
  simp only [withValue] at hnext hown
  rw [getElem?_set_self hlt, getElem?_set_ne (by omega), hvar, Option.some.injEq] at hnext
  rw [getElem?_set_ne (by omega), getElem?_set_self (by omega), rowStatus_member, Option.some.injEq] at hown
  have hsame : var.1.value = some (storeLong tcROW_STATUS_CREATEANDGO octets) :=
    (congrArg (fun m : Member => m.1.value) hnext).symm
  have hrs : row.rowStatus.value = some (longOctets tcROW_STATUS_CREATEANDGO) :=
    congrArg (fun m : Member => m.1.value) hown
  rw [members_getElem?] at hvar
  obtain ⟨next, hget, rfl⟩ := Option.map_eq_some_iff.1 hvar
  rw [hvalue, Option.some.injEq] at hsame
  exact ⟨hrs, next, octets, hget, hvalue, hsame.symm⟩

theorem position_lt {var : Member} (h : var ∈ cloneVarbind row.members) : var.2 < 10000 := by
  obtain ⟨n, hn⟩ := mem_iff_getElem?.1 h
  rw [cloneVarbind, getElem?_take] at hn
  split at hn
  · rename_i hlt
    rw [members_getElem?] at hn
    obtain ⟨vb, _, rfl⟩ := Option.map_eq_some_iff.1 hn
    exact hlt
  · cases hn

theorem not_created_cut (hindex : row.index < 10000) (hlen : 10000 < row.vars.length) {first : Member}
    (hfirst : first.2 = row.index) : ¬ row.Created [((cloneVarbind row.members).set row.index first, ErrorCode_SUCCESS),
      ([(row.rowStatus.withLong tcROW_STATUS_ACTIVE, row.index)], ErrorCode_SUCCESS)] := by
  -- neither request reaches beyond the clone
  have hpositions : ∀ request : List Member × Int,
      request ∈ [((cloneVarbind row.members).set row.index first, ErrorCode_SUCCESS),
        ([(row.rowStatus.withLong tcROW_STATUS_ACTIVE, row.index)], ErrorCode_SUCCESS)] →
      ∀ var ∈ request.1, var.2 < 10000 := by
    intro request hrequest var hvar
    rw [mem_pair] at hrequest
    rcases hrequest with rfl | rfl
    · cases mem_or_eq_of_mem_set hvar with
      | inl hold => exact position_lt hold
      | inr hnew =>
        rw [hnew, hfirst]
        exact hindex
    · rw [mem_singleton.1 hvar]
      exact hindex
  -- the list does
  have hlast : row.members[10000]? = some (row.vars[10000], 10000) := by
    rw [members_getElem?, getElem?_eq_getElem hlen, Option.map_some]
  intro h
  cases h with
  | inl hgo =>
    have hmem : (row.vars[10000], 10000) ∈ row.withValue (some (longOctets tcROW_STATUS_CREATEANDGO)) :=
      mem_withValue_of_ne (mem_of_getElem? hlast) (by omega)
    exact absurd (hpositions _ hgo _ hmem) (Nat.lt_irrefl _)
  | inr hwait =>
    obtain ⟨earlier, last, later, hsent, _, hothers, _⟩ := hwait
    obtain ⟨request, hrequest, hmem⟩ := hothers _ (mem_of_getElem? hlast) (by omega)
    have hin := mem_append_left ((last, ErrorCode_SUCCESS) :: later) hrequest
    rw [← hsent] at hin
    exact absurd (hpositions _ hin _ hmem) (Nat.lt_irrefl _)

theorem unharmed_of_found {var : Member} (h : row.Intended accepting)
    (hvar : (cloneVarbind row.members)[(toInt (row.index + 1)).toNat]? = some var) : row.Unharmed := by
  obtain ⟨run, hrun, _, hcreated⟩ := h
  have hsix := hrun 6 (Nat.le_refl 6)
  cases hvalue : var.1.value with
  | none =>
    rw [rowCreate_of_null 5 hvar hvalue] at hsix
    cases hsix
  | some octets =>
    have hall := run_of_found hvar hvalue hsix
    subst hall
    have hsame := created_single (hcreated rfl)
    have hlength := congrArg List.length hsame
    rw [length_set, length_withValue, cloneVarbind, length_take, length_members] at hlength
    have hshort : row.vars.length ≤ 10000 := by omega
    have hlt := row.index_lt
    rw [cloneVarbind_short (length_members.trans_le hshort), toInt_natCast (by omega), Int.toNat_natCast] at hvar hsame
    exact Or.inr ⟨hshort, Or.inr (nextStands_of_same hvalue hvar hsame)⟩

theorem unharmed_of_intended (h : row.Intended accepting) : row.Unharmed := by
  have hlt := row.index_lt
  have hle := row.index_le
  have hclone : (cloneVarbind row.members).length = min 10000 row.vars.length := by
    rw [cloneVarbind, length_take, length_members]
  cases hvar : (cloneVarbind row.members)[(toInt (row.index + 1)).toNat]? with
  | some var => exact unharmed_of_found h hvar
  | none =>
    have hend := List.getElem?_eq_none_iff.1 hvar
    -- the run with `accepting` tells the cases apart
    by_cases hfits : row.index + 1 < 2 ^ 31
    · rw [toInt_natCast hfits, Int.toNat_natCast, hclone] at hend
      by_cases hbeyond : 10000 ≤ row.index
      · exact Or.inl ⟨hbeyond, hfits⟩
      by_cases hshort : row.vars.length ≤ 10000
      · exact Or.inr ⟨hshort, Or.inl (by omega)⟩
      obtain ⟨run, hrun, _, hcreated⟩ := h
      have hfound : (cloneVarbind row.members)[row.index]? = some (row.rowStatus, row.index) := by
        rw [cloneVarbind, getElem?_take, if_pos (by omega), rowStatus_member]
      have hall := run_of_missed hvar hfound (hrun 6 (Nat.le_refl 6))
      subst hall
      exact absurd (hcreated rfl) (not_created_cut (by omega) (by omega) rfl)
    · -- the position is negative as an `int`, and the head of the list is taken
      have hwrap : (toInt (row.index + 1)).toNat = 0 := by
        have hindex : row.index + 1 = 2147483648 := by omega
        have hcast : ((row.index : Int) + 1) = 2147483648 := by omega
        have hdecide : (toInt 2147483648).toNat = 0 := by decide
        simpa only [hindex] using hdecide
      rw [hwrap, hclone] at hend
      omega

end Row

/-- For every list and every position of a RowStatus in it: whatever comes of the requests, `Client_rowCreate` does what
is intended if and only if the RowStatus is out of reach of the clones, or the list fits into a clone and what stands
behind the RowStatus, if anything, is not changed. -/
theorem rowCreate_intended_iff (row : Row) : (∀ outcome, row.Intended outcome) ↔ row.Unharmed :=
  ⟨fun h => Row.unharmed_of_intended (h Row.accepting), Row.intended_of_unharmed⟩

/-- A RowStatus with a column behind it. -/
def rowWithColumn : Row where
  vars := [⟨[1, 1], asnINTEGER, some (longOctets tcROW_STATUS_CREATEANDGO)⟩, ⟨[1, 2], asnINTEGER, some (longOctets 7)⟩]
  index := 0
  rowStatus := ⟨[1, 1], asnINTEGER, some (longOctets tcROW_STATUS_CREATEANDGO)⟩
  octets := longOctets tcROW_STATUS_CREATEANDGO
  there := rfl
  integer := rfl
  value_eq := rfl
  long := rfl
  index_le := by decide

/-- The column is set to createAndGo. -/
theorem not_rowCreate_intended : ¬ ∀ (row : Row) outcome, row.Intended outcome := by
  intro h
  have hunharmed := Row.unharmed_of_intended (h rowWithColumn Row.accepting)
  revert hunharmed
  rintro (⟨hbeyond, _⟩ | ⟨_, hend | ⟨_, next, octets, hnext, hoctets, hsame⟩⟩)
  · exact absurd hbeyond (by decide)
  · exact absurd hend (by decide)
  · cases hnext
    cases hoctets
    exact absurd hsame (by decide)

end Priot.Client
