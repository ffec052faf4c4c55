/-
# What has been delegated is settled

Whatever comes back for a list of requests, none stays delegated, and an answer goes to them in order; except where a
response is too short, or an error status looks like an exception.
-/
import Priot.Agentx.Master

namespace Priot.Agentx

open Agent Proxy List

/-! ## what is meant -/

/-- A response without an error, with a variable for each of `n` requests if they ask for values. -/
def Answers (mode : Mode) (n : Nat) : Operation → Prop
  | .receivedMessage message => message.pdu.errstat = 0 ∧ (Asks mode → message.pdu.vars.length = n)
  | _ => False

/-- The varbind that a request is left with for a variable. -/
def answeredVar (x : Variable) (v : RequestVar) : RequestVar :=
  if x.value = .null .endOfMibView then v else ⟨x.name, some x.value⟩

/-- The outcome of `operation` for the requests that were `given`, when they are `left` so. -/
structure Settled (mode : Mode) (operation : Operation) (given left : List Request) : Prop where
  released : ∀ r ∈ left, r.delegated = false
  reported : ¬ Answers mode given.length operation → ∃ r ∈ left, r.status ≠ errNoError
  answered : ∀ message, operation = .receivedMessage message → Answers mode given.length operation → Asks mode →
    ∀ (i : Nat) r x, given[i]? = some r → message.pdu.vars[i]? = some x →
      ∃ r', left[i]? = some r' ∧ r'.varbinds[r.answered.length]? = some (answeredVar x r.requestvb)

/-- The error becomes the status of a request, and is not put in place of its value. -/
def Reports (mode : Mode) (err : Int) : Prop := exception err ≠ none → ¬ Asks mode

/-- A response that settles the requests. Without an error it has a variable for each of those that ask for values,
unless there is only one; an error status that is an exception is not for a request that asks for a value, unless there
is an error already. -/
structure Settling (mode : Mode) (requests : List Request) (pdu : AgentxPdu) : Prop where
  enough : pdu.errstat = 0 → Asks mode → requests.length ≤ max pdu.vars.length 1
  noException : pdu.errstat ≠ 0 → 1 ≤ pdu.errindex → pdu.errindex ≤ requests.length →
    exception pdu.errstat ≠ none → Asks mode → ∃ r ∈ requests, r.status ≠ errNoError

/-! ## errors -/

variable {mode : Mode} {r : Request} {rs requests : List Request} {err errindex i : Int}

theorem requestSetError_delegated (r : Request) (mode : Mode) (err : Int) :
    (requestSetError r mode err).delegated = false := by
  unfold requestSetError
  dsimp only
  split
  · split
    · rfl
    · split <;> rfl
  · rfl

theorem requestSetError_genErr (r : Request) (mode : Mode) : (requestSetError r mode errGenErr).status = errGenErr :=
  rfl

theorem requestSetError_status (herr : err ≠ 0) :
    (requestSetError r mode err).status ≠ errNoError ↔ Reports mode err ∨ r.status ≠ errNoError := by
  unfold requestSetError Reports
  cases h : exception err with
  | none =>
    refine iff_of_true ?_ (Or.inl fun hne => absurd rfl hne)
    show (if err < 0 then errGenErr else err) ≠ errNoError
    split
    · decide
    · exact herr
  | some t =>
    have hne : (some t : Option NullType) ≠ none := Option.some_ne_none t
    dsimp only
    by_cases hasks : Asks mode
    · rw [if_pos hasks]
      exact ⟨Or.inr, fun h => h.resolve_left fun h => h hne hasks⟩
    · rw [if_neg hasks]
      refine iff_of_true ?_ (Or.inl fun _ => hasks)
      split
      · show errNoCreation ≠ errNoError
        decide
      · show errNoSuchName ≠ errNoError
        decide

theorem setRequestError_released (h : ∀ r ∈ rs, r.delegated = false) (mode : Mode) (err : Int) :
    ∀ r ∈ setRequestError mode err rs, r.delegated = false := by
  cases rs with
  | nil => exact h
  | cons r rs =>
    intro r' hr'
    rcases mem_cons.mp hr' with rfl | hr'
    · exact requestSetError_delegated r mode err
    · exact h r' (mem_cons_of_mem _ hr')

theorem setRequestError_reported (hne : rs ≠ []) (mode : Mode) :
    ∃ r ∈ setRequestError mode errGenErr rs, r.status ≠ errNoError := by
  cases rs with
  | nil => exact absurd rfl hne
  | cons r rs =>
    refine ⟨_, mem_cons_self, ?_⟩
    rw [requestSetError_genErr]
    decide

theorem markNotDelegated_released (rs : List Request) : ∀ r ∈ markNotDelegated rs, r.delegated = false := by
  intro r hr
  obtain ⟨r', -, rfl⟩ := mem_map.mp hr
  rfl

theorem closeAgentxSession_released (h : ∀ r ∈ rs, r.delegated = false) (mode : Mode) :
    ∀ r ∈ closeAgentxSession mode rs, r.delegated = false := by
  intro r hr
  obtain ⟨r', hr', rfl⟩ := mem_map.mp hr
  split
  · exact requestSetError_delegated r' mode _
  · exact h r' hr'

theorem closeAgentxSession_reported (h : ∃ r ∈ rs, r.status ≠ errNoError) (mode : Mode) :
    ∃ r ∈ closeAgentxSession mode rs, r.status ≠ errNoError := by
  obtain ⟨r, hr, hstatus⟩ := h
  refine ⟨_, mem_map_of_mem hr, ?_⟩
  split
  · rw [requestSetError_genErr]
    decide
  · exact hstatus

/-! ## the loops -/

theorem errorLoop_released (mode : Mode) (err errindex i : Int) (rs : List Request) :
    ∀ r ∈ (errorLoop mode err errindex i rs).1, r.delegated = false := by
  induction rs generalizing i with
  | nil =>
    intro r hr
    cases hr
  | cons r rs ih =>
    intro r' hr'
    rcases mem_cons.mp hr' with rfl | hr'
    · rfl
    · exact ih (i + 1) r' hr'

theorem errorLoop_length (mode : Mode) (err errindex i : Int) (rs : List Request) :
    (errorLoop mode err errindex i rs).1.length = rs.length := by
  induction rs generalizing i with
  | nil => rfl
  | cons r rs ih => exact congrArg Nat.succ (ih (i + 1))

theorem errorLoop_found (mode : Mode) (err errindex i : Int) (rs : List Request) :
    (errorLoop mode err errindex i rs).2 = true ↔ i ≤ errindex ∧ errindex < i + rs.length := by
  induction rs generalizing i with
  | nil =>
    refine iff_of_false Bool.false_ne_true fun h => ?_
    rw [length_nil] at h
    omega
  | cons r rs ih =>
    show (decide (i = errindex) || (errorLoop mode err errindex (i + 1) rs).2) = true ↔ _
    rw [Bool.or_eq_true, decide_eq_true_iff, ih, length_cons]
    push_cast
    omega

theorem errorLoop_status (herr : err ≠ 0) (errindex i : Int) (rs : List Request) :
    (∃ r ∈ (errorLoop mode err errindex i rs).1, r.status ≠ errNoError) ↔
      ((errorLoop mode err errindex i rs).2 = true ∧ Reports mode err) ∨ ∃ r ∈ rs, r.status ≠ errNoError := by
  induction rs generalizing i with
  | nil => exact ⟨Or.inr, fun h => h.resolve_left fun h => Bool.false_ne_true h.1⟩
  | cons r rs ih =>
    have hhead : (if i = errindex then requestSetError r mode err else r).status ≠ errNoError ↔
        (i = errindex ∧ Reports mode err) ∨ r.status ≠ errNoError := by
      by_cases h : i = errindex
      · rw [if_pos h, requestSetError_status herr]
        simp only [h, true_and]
      · rw [if_neg h]
        simp only [h, false_and, false_or]
    show (∃ r' ∈ { (if i = errindex then requestSetError r mode err else r) with delegated := false } ::
      (errorLoop mode err errindex (i + 1) rs).1, r'.status ≠ errNoError) ↔
        ((decide (i = errindex) || (errorLoop mode err errindex (i + 1) rs).2) = true ∧ Reports mode err) ∨ _
    rw [exists_mem_cons_iff, exists_mem_cons_iff, ih (i + 1), Bool.or_eq_true, decide_eq_true_iff, or_and_right]
    refine (or_congr_left hhead).trans ?_
    constructor
    · rintro ((h | h) | h | h)
      · exact Or.inl (Or.inl h)
      · exact Or.inr (Or.inl h)
      · exact Or.inl (Or.inr h)
      · exact Or.inr (Or.inr h)
    · rintro ((h | h) | h | h)
      · exact Or.inl (Or.inl h)
      · exact Or.inr (Or.inl h)
      · exact Or.inl (Or.inr h)
      · exact Or.inr (Or.inr h)

theorem answerLoop_getElem? (vars : List Variable) (rs : List Request) (i : Nat) :
    (answerLoop vars rs)[i]? = rs[i]?.map fun r => (vars[i]?).elim r (answer · r) := by
  induction vars generalizing rs i with
  | nil =>
    have hid : (fun r : Request => (([] : List Variable)[i]?).elim r (answer · r)) = id := by
      funext r
      rw [getElem?_nil]
      rfl
    rw [hid, Option.map_id]
    rfl
  | cons x vars ih =>
    cases rs with
    | nil => rfl
    | cons r rs =>
      cases i with
      | zero => rfl
      | succ i => exact ih rs i

theorem answerLoop_length (vars : List Variable) (rs : List Request) : (answerLoop vars rs).length = rs.length := by
  induction vars generalizing rs with
  | nil => rfl
  | cons x vars ih =>
    cases rs with
    | nil => rfl
    | cons r rs => exact congrArg Nat.succ (ih rs)

theorem fixRequest_delegated (r : Request) : (fixRequest r).delegated = r.delegated := by
  unfold fixRequest
  split <;> rfl

theorem fixRequest_status (r : Request) : (fixRequest r).status = r.status := by
  unfold fixRequest
  split <;> rfl

theorem fixRequest_varbind (r : Request) : (fixRequest r).varbinds[r.answered.length]? = some r.requestvb := by
  unfold fixRequest Request.varbinds
  split
  · show ((r.answered ++ [r.requestvb]) ++ _)[r.answered.length]? = _
    rw [append_assoc, getElem?_append_right (Nat.le_refl _), Nat.sub_self]
    rfl
  · rw [getElem?_append_right (Nat.le_refl _), Nat.sub_self]
    rfl

/-! ## a response -/

variable {pdu : AgentxPdu}

theorem responseError_ne_zero (h₀ : 0 ≤ pdu.errstat) (hlt : pdu.errstat < 2 ^ 16) (hne : pdu.errstat ≠ 0) :
    responseError pdu.errstat ≠ 0 := by
  unfold responseError
  split
  · decide
  · rw [Int.bmod_eq_of_le (by omega) (by omega)]
    exact hne

theorem exception_responseError (h₀ : 0 ≤ pdu.errstat) (hlt : pdu.errstat < 2 ^ 16) :
    exception (responseError pdu.errstat) = exception pdu.errstat := by
  unfold responseError
  split
  · next h => rcases h with h | h | h <;> rw [h] <;> rfl
  · rw [Int.bmod_eq_of_le (by omega) (by omega)]

theorem gotMessage_error_released (herr : pdu.errstat ≠ 0) :
    ∀ r ∈ gotMessage mode pdu requests, r.delegated = false := by
  rw [gotMessage, if_pos herr]
  dsimp only
  split
  · exact errorLoop_released _ _ _ _ _
  · exact setRequestError_released (errorLoop_released _ _ _ _ _) _ _

theorem gotMessage_error_reported (hne : requests ≠ []) (h₀ : 0 ≤ pdu.errstat) (hlt : pdu.errstat < 2 ^ 16)
    (herr : pdu.errstat ≠ 0) : (∃ r ∈ gotMessage mode pdu requests, r.status ≠ errNoError) ↔
      (1 ≤ pdu.errindex → pdu.errindex ≤ requests.length → exception pdu.errstat ≠ none → Asks mode →
        ∃ r ∈ requests, r.status ≠ errNoError) := by
  rw [gotMessage, if_pos herr]
  dsimp only
  have hstatus := @errorLoop_status mode _ (responseError_ne_zero h₀ hlt herr) pdu.errindex 1 requests
  have hfound := errorLoop_found mode (responseError pdu.errstat) pdu.errindex 1 requests
  rw [Reports, exception_responseError h₀ hlt] at hstatus
  split
  · next h =>
    have hin := hfound.mp h
    rw [hstatus]
    constructor
    · rintro (⟨-, hreports⟩ | hold)
      · exact fun _ _ hexception hasks => absurd hasks (hreports hexception)
      · exact fun _ _ _ _ => hold
    · intro hcond
      by_cases hreports : exception pdu.errstat ≠ none → ¬ Asks mode
      · exact Or.inl ⟨h, hreports⟩
      · rw [Classical.not_imp, not_not] at hreports
        exact Or.inr (hcond hin.1 (by omega) hreports.1 hreports.2)
  · next h =>
    refine iff_of_true (setRequestError_reported ?_ mode) fun h₁ h₂ => absurd (hfound.mpr ⟨h₁, by omega⟩) h
    intro hnil
    have hlen := errorLoop_length mode (responseError pdu.errstat) pdu.errindex 1 requests
    rw [hnil] at hlen
    exact hne (length_eq_zero_iff.mp hlen.symm)

/-- What is left of the requests that ask for values before those of a GETBULK go on. -/
def answeredOf (mode : Mode) (pdu : AgentxPdu) (requests : List Request) : List Request :=
  if requests.length ≠ pdu.vars.length then setRequestError mode errGenErr (answerLoop pdu.vars requests)
  else answerLoop pdu.vars requests

theorem gotMessage_asks (herr : pdu.errstat = 0) (hasks : Asks mode) : gotMessage mode pdu requests =
      if mode = .getBulk then (answeredOf mode pdu requests).map fixRequest else answeredOf mode pdu requests := by
  rw [gotMessage, if_neg (not_not_intro herr), if_pos hasks]
  rfl

theorem gotMessage_asks_forall (herr : pdu.errstat = 0) (hasks : Asks mode) (p : Request → Prop)
    (hp : ∀ r, p (fixRequest r) ↔ p r) :
    (∀ r ∈ gotMessage mode pdu requests, p r) ↔ ∀ r ∈ answeredOf mode pdu requests, p r := by
  rw [gotMessage_asks herr hasks]
  split
  · rw [forall_mem_map]
    exact forall₂_congr fun r _ => hp r
  · exact Iff.rfl

/-- No request stays delegated just when there is a variable for each, or none for the only one. -/
theorem answeredOf_released (hdelegated : ∀ r ∈ requests, r.delegated = true) :
    (∀ r ∈ answeredOf mode pdu requests, r.delegated = false) ↔ requests.length ≤ max pdu.vars.length 1 := by
  have hget := answerLoop_getElem? pdu.vars requests
  have hanswered : requests.length ≤ pdu.vars.length → ∀ r ∈ answerLoop pdu.vars requests, r.delegated = false := by
    intro hle r hr
    obtain ⟨i, hi⟩ := mem_iff_getElem?.mp hr
    rw [hget] at hi
    obtain ⟨r₀, hr₀, rfl⟩ := Option.map_eq_some_iff.mp hi
    have hlt : i < requests.length := (List.getElem?_eq_some_iff.mp hr₀).1
    rw [getElem?_eq_getElem (Nat.lt_of_lt_of_le hlt hle)]
    rfl
  constructor
  · intro h
    by_contra hlong
    rw [Nat.not_le] at hlong
    -- the first request behind the first one that has no variable
    have hi : requests[max pdu.vars.length 1]? = some requests[max pdu.vars.length 1] := getElem?_eq_getElem hlong
    have hleft : (answerLoop pdu.vars requests)[max pdu.vars.length 1]? = some requests[max pdu.vars.length 1] := by
      rw [hget, hi, getElem?_eq_none (Nat.le_max_left _ _)]
      rfl
    have hmem : requests[max pdu.vars.length 1] ∈ answeredOf mode pdu requests := by
      rw [answeredOf, if_pos (by omega)]
      generalize answerLoop pdu.vars requests = rs at hleft
      cases rs with
      | nil => cases hleft
      | cons r rs =>
        obtain ⟨k, hk⟩ : ∃ k, max pdu.vars.length 1 = k + 1 := ⟨max pdu.vars.length 1 - 1, by omega⟩
        refine mem_cons_of_mem _ (mem_of_getElem? (i := k) ?_)
        rw [← hleft, hk]
        rfl
    have hfalse := h _ hmem
    rw [hdelegated _ (getElem_mem hlong)] at hfalse
    cases hfalse
  · intro hle
    unfold answeredOf
    by_cases hvars : requests.length ≤ pdu.vars.length
    · split
      · exact setRequestError_released (hanswered hvars) _ _
      · exact hanswered hvars
    · -- there is one request, which gets an error
      rw [if_pos (by omega)]
      have hone : (answerLoop pdu.vars requests).length ≤ 1 := by
        rw [answerLoop_length]
        omega
      generalize answerLoop pdu.vars requests = rs at hone
      match rs, hone with
      | [], _ => exact fun r hr => nomatch hr
      | [r], _ =>
        intro r' hr'
        rw [mem_singleton.mp hr']
        exact requestSetError_delegated r mode _

theorem answeredOf_reported (hne : requests ≠ []) (hlen : requests.length ≠ pdu.vars.length) :
    ∃ r ∈ answeredOf mode pdu requests, r.status ≠ errNoError := by
  rw [answeredOf, if_pos hlen]
  refine setRequestError_reported (fun hnil => ?_) mode
  have hlen' := answerLoop_length pdu.vars requests
  rw [hnil] at hlen'
  exact hne (length_eq_zero_iff.mp hlen'.symm)

theorem gotMessage_answered (herr : pdu.errstat = 0) (hasks : Asks mode) (hlen : pdu.vars.length = requests.length)
    (hstored : ∀ x ∈ pdu.vars, setVarTypedValue x.value = x.value) (i : Nat) {x : Variable}
    (hr : requests[i]? = some r) (hx : pdu.vars[i]? = some x) : ∃ r', (gotMessage mode pdu requests)[i]? = some r' ∧
      r'.varbinds[r.answered.length]? = some (answeredVar x r.requestvb) := by
  have hleft : (answeredOf mode pdu requests)[i]? = some (answer x r) := by
    rw [answeredOf, if_neg (not_not_intro hlen.symm), answerLoop_getElem?, hr, hx]
    rfl
  have hanswer : (answer x r).answered = r.answered ∧ (answer x r).requestvb = answeredVar x r.requestvb := by
    rw [answer, answeredVar, hstored x (mem_of_getElem? hx)]
    by_cases hend : x.value = .null .endOfMibView
    · rw [if_neg (not_not_intro hend), if_pos hend]
      exact ⟨rfl, rfl⟩
    · rw [if_pos hend, if_neg hend]
      exact ⟨rfl, rfl⟩
  rw [gotMessage_asks herr hasks, ← hanswer.1, ← hanswer.2]
  split
  · refine ⟨fixRequest (answer x r), ?_, fixRequest_varbind _⟩
    rw [getElem?_map, hleft, Option.map_some]
  · refine ⟨answer x r, hleft, ?_⟩
    rw [Request.varbinds, getElem?_append_right (Nat.le_refl _), Nat.sub_self]
    rfl

/-! ## every outcome -/

variable {operation : Operation} {command : Int}

theorem gotMessage_settled_iff (hne : requests ≠ []) (hcommand : command ≠ AGENTX_MSG_CLEANUPSET) (message : Message) :
    Settled mode (.receivedMessage message) requests
        (gotMessage mode message.pdu (requests.map (handOver mode command))) ↔ Settling mode requests message.pdu := by
  have hne' : requests.map (handOver mode command) ≠ [] := fun h => hne (map_eq_nil_iff.mp h)
  have hdelegated : ∀ r ∈ requests.map (handOver mode command), r.delegated = true := by
    intro r hr
    obtain ⟨r', -, rfl⟩ := mem_map.mp hr
    exact decide_eq_true hcommand
  by_cases herr : message.pdu.errstat = 0
  · by_cases hasks : Asks mode
    · have hreleased : (∀ r ∈ gotMessage mode message.pdu (requests.map (handOver mode command)),
          r.delegated = false) ↔ requests.length ≤ max message.pdu.vars.length 1 := by
        rw [gotMessage_asks_forall herr hasks (fun r => r.delegated = false) (fun r => by rw [fixRequest_delegated]),
          answeredOf_released hdelegated, length_map]
      constructor
      · intro h
        exact ⟨fun _ _ => hreleased.mp h.released, fun h => absurd herr h⟩
      · intro h
        refine ⟨hreleased.mpr (h.enough herr hasks), fun hnot => ?_, ?_⟩
        · have hlen : (requests.map (handOver mode command)).length ≠ message.pdu.vars.length := by
            rw [length_map]
            exact fun hlen => hnot ⟨herr, fun _ => hlen.symm⟩
          by_contra hnone
          have hzero : ∀ r ∈ answeredOf mode message.pdu (requests.map (handOver mode command)),
              r.status = errNoError := by
            refine (gotMessage_asks_forall herr hasks (fun r => r.status = errNoError)
              fun r => by rw [fixRequest_status]).mp fun r hr => ?_
            by_contra hstatus
            exact hnone ⟨r, hr, hstatus⟩
          obtain ⟨r, hr, hstatus⟩ := @answeredOf_reported mode _ _ hne' hlen
          exact hstatus (hzero r hr)
        · intro message' hmessage hanswers _ i r x hr hx
          cases hmessage
          refine gotMessage_answered (r := handOver mode command r) herr hasks ?_ message.stored i ?_ hx
          · rw [length_map]
            exact hanswers.2 hasks
          · rw [getElem?_map, hr, Option.map_some]
    · refine iff_of_true ⟨?_, fun h => absurd ⟨herr, fun h => absurd h hasks⟩ h, ?_⟩ ⟨?_, fun h => absurd herr h⟩
      · rw [gotMessage, if_neg (not_not_intro herr), if_neg hasks]
        exact markNotDelegated_released _
      · exact fun _ _ _ h => absurd h hasks
      · exact fun _ h => absurd h hasks
  · have hreported := @gotMessage_error_reported mode _ _ hne' message.errstat_nonneg message.errstat_lt herr
    have hold : (∃ r ∈ requests.map (handOver mode command), r.status ≠ errNoError) ↔
        ∃ r ∈ requests, r.status ≠ errNoError := by
      constructor
      · rintro ⟨r, hr, hstatus⟩
        obtain ⟨r', hr', rfl⟩ := mem_map.mp hr
        exact ⟨r', hr', hstatus⟩
      · rintro ⟨r, hr, hstatus⟩
        exact ⟨_, mem_map_of_mem hr, hstatus⟩
    rw [length_map, hold] at hreported
    constructor
    · intro h
      exact ⟨fun h => absurd h herr, fun _ => hreported.mp (h.reported fun h => herr h.1)⟩
    · intro h
      refine ⟨gotMessage_error_released herr, fun _ => hreported.mpr (h.noException herr), ?_⟩
      exact fun message' hmessage hanswers => by
        cases hmessage
        exact absurd hanswers.1 herr

theorem settled_of_released {left : List Request} (hop : ∀ message, operation ≠ .receivedMessage message)
    (hreleased : ∀ r ∈ left, r.delegated = false) (hreported : ∃ r ∈ left, r.status ≠ errNoError) :
    Settled mode operation requests left :=
  ⟨hreleased, fun _ => hreported, fun message h => absurd h (hop message)⟩

theorem settled_of_closed (hop : ∀ message, operation ≠ .receivedMessage message) (hne : rs ≠ []) :
    Settled mode operation requests
      (setRequestError mode errGenErr (markNotDelegated (closeAgentxSession mode rs))) := by
  refine settled_of_released hop (setRequestError_released (markNotDelegated_released _) mode errGenErr)
    (setRequestError_reported ?_ mode)
  exact fun h => hne (map_eq_nil_iff.mp (map_eq_nil_iff.mp h))

theorem settled_of_timeout (found : Bool) (hne : rs ≠ []) : Settled mode .timedOut requests
      (if found then closeAgentxSession mode (setRequestError mode errGenErr (markNotDelegated rs))
        else setRequestError mode errGenErr (markNotDelegated rs)) := by
  have hop : ∀ message, Operation.timedOut ≠ .receivedMessage message := by
    intro message h
    cases h
  have hreleased := setRequestError_released (markNotDelegated_released rs) mode errGenErr
  have hne' : markNotDelegated rs ≠ [] := fun h => hne (map_eq_nil_iff.mp h)
  have hreported := setRequestError_reported hne' mode
  split
  · exact settled_of_released hop (closeAgentxSession_released hreleased mode)
      (closeAgentxSession_reported hreported mode)
  · exact settled_of_released hop hreleased hreported

variable {axSession : Option AxSession} {contextName : Option (List UInt8)} {reqid transid : Int}

theorem masterHandler_no_cache (hfresh : ∀ r ∈ requests, r.delegated = false)
    (hcache : (masterHandler axSession contextName mode reqid transid requests).cache = none) :
    ∀ r ∈ (masterHandler axSession contextName mode reqid transid requests).requests, r.delegated = false := by
  unfold masterHandler at hcache ⊢
  cases axSession with
  | none => exact setRequestError_released hfresh mode _
  | some axSession =>
    cases hcommand : commandOf mode with
    | none =>
      dsimp only
      exact hfresh
    | some command =>
      rw [hcommand] at hcache
      dsimp only at hcache ⊢
      split at hcache
      · cases hcache
      · next h =>
        intro r hr
        obtain ⟨r', -, rfl⟩ := mem_map.mp hr
        exact decide_eq_false h

theorem masterHandler_cache {cache : DelegatedCache}
    (hcache : (masterHandler axSession contextName mode reqid transid requests).cache = some cache) :
    ∃ command, command ≠ AGENTX_MSG_CLEANUPSET ∧ cache = ⟨transid, mode, requests.map (handOver mode command)⟩ := by
  unfold masterHandler at hcache
  cases axSession with
  | none => cases hcache
  | some axSession =>
    cases hcommand : commandOf mode with
    | none =>
      rw [hcommand] at hcache
      cases hcache
    | some command =>
      rw [hcommand] at hcache
      dsimp only at hcache
      split at hcache
      · next h => exact ⟨command, h, (Option.some.inj hcache).symm⟩
      · cases hcache

/-- What has been handed to a subagent is settled by every outcome, a response apart that has too few variables for
the requests, or that reports an exception as the error of one of them. -/
theorem delegation_settled_iff (hne : requests ≠ []) :
    ((masterHandler axSession contextName mode reqid transid requests).cache = none →
      (∀ r ∈ requests, r.delegated = false) →
      ∀ r ∈ (masterHandler axSession contextName mode reqid transid requests).requests, r.delegated = false) ∧
    ∀ cache, (masterHandler axSession contextName mode reqid transid requests).cache = some cache →
      ∀ agentDelegatedList found operation, cache.transactionId ∈ agentDelegatedList → operation ≠ .other →
        ∃ left, (gotResponse agentDelegatedList found (some cache) operation).2 = some left ∧
          (Settled mode operation requests left ↔
            ∀ message, operation = .receivedMessage message → Settling mode requests message.pdu) := by
  refine ⟨fun hcache hfresh => masterHandler_no_cache hfresh hcache, ?_⟩
  intro cache hcache agentDelegatedList found operation hvalid hop
  obtain ⟨command, hcommand, rfl⟩ := masterHandler_cache hcache
  have hcheck : handlerCheckCache agentDelegatedList (some ⟨transid, mode, requests.map (handOver mode command)⟩) =
      some ⟨transid, mode, requests.map (handOver mode command)⟩ := Option.filter_some_pos (decide_eq_true hvalid)
  have hne' : requests.map (handOver mode command) ≠ [] := fun h => hne (map_eq_nil_iff.mp h)
  unfold gotResponse
  rw [hcheck]
  cases operation with
  | timedOut =>
    refine ⟨_, rfl, iff_of_true (settled_of_timeout found hne') ?_⟩
    intro message h
    cases h
  | disconnect =>
    refine ⟨_, rfl, iff_of_true (settled_of_closed ?_ hne') ?_⟩
    · intro message h
      cases h
    · intro message h
      cases h
  | sendFailed =>
    refine ⟨_, rfl, iff_of_true (settled_of_closed ?_ hne') ?_⟩
    · intro message h
      cases h
    · intro message h
      cases h
  | receivedMessage message =>
    refine ⟨_, rfl, (gotMessage_settled_iff hne hcommand message).trans ⟨?_, fun h => h message rfl⟩⟩
    intro h message' hmessage
    cases hmessage
    exact h
  | other => exact absurd rfl hop

/-- A request for a value. -/
def getRequest (name : ObjId) : Request where
  answered := []
  requestvb := ⟨name, some (.null .null)⟩
  behind := []
  repeats := 0
  rangeEnd := []
  startA := []
  inclusive := 0
  ofSession := false
  delegated := false
  processed := false
  status := errNoError

/-- A response without an error, with one variable. -/
def oneAnswer : Message where
  pdu := { newPdu ⟨1, true⟩ AGENTX_MSG_RESPONSE 1 7 none with
    errstat := 0
    errindex := 0
    vars := [⟨[1, 1], .integer 5⟩] }
  errstat_nonneg := by decide
  errstat_lt := by decide
  stored := by decide

/-- A response with the exception `noSuchObject` as its error. -/
def oneException : Message where
  pdu := { oneAnswer.pdu with errstat := 0x80, errindex := 1 }
  errstat_nonneg := by decide
  errstat_lt := by decide
  stored := by decide

def getCache (requests : List Request) : DelegatedCache := ⟨7, .get, requests.map (handOver .get AGENTX_MSG_GET)⟩

theorem delegation_settled_iff_one :
    ∃ left, (gotResponse [7] true (some (getCache [getRequest [1, 1]])) (.receivedMessage oneAnswer)).2 = some left ∧
      Settled .get (.receivedMessage oneAnswer) [getRequest [1, 1]] left := by
  have h := (@delegation_settled_iff .get [getRequest [1, 1]] (some ⟨1, true⟩) none 1 7 (by decide)).2
    (getCache [getRequest [1, 1]]) rfl [7] true (.receivedMessage oneAnswer) (by decide) (by intro h; cases h)
  obtain ⟨left, hleft, hsettled⟩ := h
  refine ⟨left, hleft, hsettled.mpr fun message hmessage => ?_⟩
  cases hmessage
  exact ⟨fun _ _ => by decide, fun h => absurd rfl h⟩

/-- A request without a variable stays delegated; an exception as an error leaves no error. -/
theorem not_delegation_settled :
    (∃ cache left, (masterHandler (some ⟨1, true⟩) none .get 1 7 [getRequest [1, 1], getRequest [1, 2]]).cache =
        some cache ∧ (gotResponse [7] true (some cache) (.receivedMessage oneAnswer)).2 = some left ∧
        ∃ r ∈ left, r.delegated = true) ∧
      ∃ cache left, (masterHandler (some ⟨1, true⟩) none .get 1 7 [getRequest [1, 1]]).cache = some cache ∧
        (gotResponse [7] true (some cache) (.receivedMessage oneException)).2 = some left ∧
        ∀ r ∈ left, r.status = errNoError := by
  refine ⟨⟨_, _, rfl, rfl, ?_⟩, ⟨_, _, rfl, rfl, ?_⟩⟩
  · decide
  · decide

end Priot.Agentx
