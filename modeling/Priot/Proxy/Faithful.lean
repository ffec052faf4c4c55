/-
# The proxied subtree as a whole

The proxy is given requests, and then the response. No buffer is ever left. Each request gets what it should exactly
if each is sent and searched for in the right place; or if the first one is too long and there is nothing to answer
anyway.
-/
import Priot.Proxy.Answers
import Priot.Proxy.Translation

namespace Priot.Proxy

open Agent Lib List

/-! ## runs -/

/-- How a request stands. -/
def outcome (r : Request) : Outcome :=
  if r.delegated then .pending
  else if r.status ≠ errNoError then .failed
  else .ofVar ⟨r.requestvb.name, r.requestvb.value⟩

variable (fixRequests : List Request → List Request) (stack : OidBuffer) (sp : SimpleProxy) (name base : ObjId)
  (A : RemoteAgent) (mode : Mode) (requests : List Request)

/-- The requests are given to the handler, and what it sends is answered. -/
def serve : Option (List Request) := do
  match ← proxyHandler (some sp) mode requests with
  | .returned _ requests => return requests
  | .sent sp pdu requests =>
    let done ← proxyGotResponse fixRequests stack (some sp) mode (.receivedMessage (A.answer pdu)) requests
    return done.2

/-- A request as it comes from a PDU: a GET for a name of the subtree, or a GETNEXT before its end. -/
structure Asked (r : Request) : Prop where
  fresh : r.delegated = false
  status : r.status = errNoError
  value : r.requestvb.value = .null .null
  length : r.requestvb.nameLength ≤ maxOidLen
  inside : mode = .get → name <+: r.requestvb.name
  belowEnd : mode = .getNext → BelowEnd name r.requestvb.name

/-- No buffer is left, each request gets what it should, and it gets the same when it comes alone. -/
def Faithful : Prop :=
  ∃ done, serve fixRequests stack sp A mode requests = some done ∧
    List.Forall₂ (fun r r' => Correct name base A mode r.requestvb.name (outcome r') ∧
      ∃ alone, serve fixRequests stack sp A mode [r] = some [alone] ∧ outcome alone = outcome r') requests done

/-- Each request that can be sent is searched for in the right place; and all of them can be sent, or the first one
cannot and there is nothing to answer any of them with. -/
structure Passes : Prop where
  right : mode = .getNext → ∀ r ∈ requests, Sendable name base mode r.requestvb.name →
    Reached name base A r.requestvb.name ∧ Short name base A r.requestvb.name
  sent : (∀ r ∈ requests, Sendable name base mode r.requestvb.name) ∨
    (∃ r rs, requests = r :: rs ∧ ¬ Sendable name base mode r.requestvb.name) ∧
      ∀ r ∈ requests, ∀ w, Image name base A w → ¬ Sought mode r.requestvb.name w.name

variable {fixRequests stack sp name base A mode requests} {r r' : Request} {rs : List Request}

/-! ## the loops -/

theorem outcome_of_asked (h : Asked name mode r) : outcome r = .unanswered := by
  unfold outcome
  rw [h.fresh, h.status, h.value]
  rfl

/-- A request that has been sent. -/
def Delegated (r r' : Request) : Prop := r'.delegated = true ∧ r'.status = r.status

theorem forwardLoop_sent (h : Entry sp name base)
    (hr : ∀ r ∈ rs, r.requestvb.nameLength ≤ maxOidLen ∧ Sendable name base mode r.requestvb.name)
    (hfits : ∀ r ∈ rs, mode = .getNext → r.requestvb.name < base → (lastBefore base).length ≤ maxOidLen) :
    ∃ sp' rs', forwardLoop sp mode rs = some (sp', rs',
      some (rs.map fun r => ⟨asked name base mode r.requestvb.name, r.requestvb.value⟩)) ∧
      Entry sp' name base ∧ sp'.sess = sp.sess ∧ List.Forall₂ Delegated rs rs' := by
  induction rs generalizing sp with
  | nil => exact ⟨sp, [], rfl, h, rfl, .nil⟩
  | cons r rs ih =>
    obtain ⟨hlen, hs⟩ := hr r mem_cons_self
    obtain ⟨sp₁, v, ht, h₁, hsess₁, -⟩ := translate_of_sendable h hlen hs (hfits r mem_cons_self)
    obtain ⟨sp₂, rs', hl, h₂, hsess₂, hd⟩ := ih h₁ (fun r' hr' => hr r' (mem_cons_of_mem r hr'))
      fun r' hr' => hfits r' (mem_cons_of_mem r hr')
    refine ⟨sp₂, { r with requestvb := v, delegated := true } :: rs', ?_, h₂, hsess₂.trans hsess₁, .cons ⟨rfl, rfl⟩ hd⟩
    rw [forwardLoop, ht]
    show (forwardLoop sp₁ mode rs).bind _ = _
    rw [hl]
    rfl

theorem forwardLoop_stops (h : Configured sp name base) (hlen : ∀ r ∈ rs, r.requestvb.nameLength ≤ maxOidLen)
    (hr : ∃ r ∈ rs, ¬ Sendable name base mode r.requestvb.name) :
    ∃ sp' r r' rest rest', rs = r :: rest ∧ forwardLoop sp mode rs = some (sp', r' :: rest', none) ∧
      (Sendable name base mode r.requestvb.name → r'.delegated = true) ∧
      (¬ Sendable name base mode r.requestvb.name → r' = r ∧ rest' = rest) := by
  induction rs generalizing sp with
  | nil =>
    obtain ⟨r, hr, -⟩ := hr
    exact absurd hr not_mem_nil
  | cons r rs ih =>
    have hlenr : r.requestvb.nameLength ≤ maxOidLen := hlen r mem_cons_self
    by_cases hs : Sendable name base mode r.requestvb.name
    · obtain ⟨sp₁, v, ht, h₁, hsess₁, -⟩ := translate_of_sendable h.entry hlenr hs fun _ _ => h.lastBefore_le
      obtain ⟨r', hr', hns⟩ := hr
      rcases mem_cons.mp hr' with rfl | hr'
      · exact absurd hs hns
      · obtain ⟨sp₂, a, a', rest, rest', rfl, hl, -, -⟩ :=
          ih (h.of_entry h₁ hsess₁) (fun q hq => hlen q (mem_cons_of_mem r hq)) ⟨r', hr', hns⟩
        refine ⟨sp₂, r, { r with requestvb := v, delegated := true }, _, a' :: rest', rfl, ?_, fun _ => rfl,
          fun hn => absurd hs hn⟩
        rw [forwardLoop, ht]
        show (forwardLoop sp₁ mode (a :: rest)).bind _ = _
        rw [hl]
        rfl
    · refine ⟨sp, r, r, rs, rs, rfl, ?_, fun hs' => absurd hs' hs, fun _ => ⟨rfl, rfl⟩⟩
      rw [forwardLoop, translate_of_not_sendable h.entry hlenr hs]
      rfl

theorem outcome_of_done (hd : r.delegated = false) (hstatus : r.status = errNoError) :
    outcome r = .ofVar ⟨r.requestvb.name, r.requestvb.value⟩ := by
  rw [outcome, hd, if_neg Bool.false_ne_true, if_neg fun h => h hstatus]

theorem takeVar_outside (h : Entry sp name base) (r : Request) {var : VariableList}
    (hout : ¬ remote name base <+: var.name) :
    takeVar stack sp r var =
      some (.updated { r with requestvb := { r.requestvb with value := .null .null }, delegated := false }) := by
  unfold takeVar
  by_cases hbase : base = []
  · have hzero : sp.baseLen = 0 := by rw [h.baseLen, hbase]; rfl
    have hpre : ¬ name <+: var.name := by rwa [remote, if_pos hbase] at hout
    rw [if_neg fun h' => h'.1 hzero, if_pos ⟨hzero, (outOfRange_iff h.readName h.nameLen).mpr hpre⟩]
  · have hpos : sp.baseLen ≠ 0 := by rw [h.baseLen]; exact mt length_eq_zero_iff.mp hbase
    have hpre : ¬ base <+: var.name := by rwa [remote, if_neg hbase] at hout
    rw [if_pos ⟨hpos, (outOfRange_iff h.readBase h.baseLen).mpr hpre⟩]

theorem takeVar_inside (h : Entry sp name base) (r : Request) {var : VariableList}
    (hpre : remote name base <+: var.name) (hvar : base = [] → var.name.length ≤ maxOidLen) :
    takeVar stack sp r var = if (back name base var.name).length ≤ maxOidLen then
        (setVarObjid { r.requestvb with value := var.value } (back name base var.name)).map fun v =>
          .updated { r with requestvb := v, delegated := false }
      else some (.tooLong { r with requestvb := { r.requestvb with value := var.value }, delegated := false }) := by
  unfold takeVar
  by_cases hbase : base = []
  · have hzero : sp.baseLen = 0 := by rw [h.baseLen, hbase]; rfl
    have hrange := outOfRange_iff (x := var.name) h.readName h.nameLen
    have hback : back name base var.name = var.name := if_pos hbase
    rw [remote, if_pos hbase] at hpre
    rw [if_neg fun h' => h'.1 hzero, if_neg fun h' => hrange.mp h'.2 hpre, if_neg fun h' => h' hzero, hback,
      if_pos (hvar hbase)]
    show (setVarObjid _ _).bind _ = _
    cases setVarObjid { r.requestvb with value := var.value } var.name <;> rfl
  · have hpos : sp.baseLen ≠ 0 := by rw [h.baseLen]; exact mt length_eq_zero_iff.mp hbase
    have hrange := outOfRange_iff (x := var.name) h.readBase h.baseLen
    have hback : back name base var.name = name ++ var.name.drop base.length := if_neg hbase
    rw [remote, if_neg hbase] at hpre
    rw [if_neg fun h' => hrange.mp h'.2 hpre, if_neg fun h' => hpos h'.1, if_pos hpos, rewriteBack_spec h hpre, hback]
    by_cases hlen : (name ++ var.name.drop base.length).length ≤ maxOidLen
    · rw [if_pos hlen, if_pos hlen]
      show (setVarObjid _ _).bind _ = _
      cases setVarObjid { r.requestvb with value := var.value } (name ++ var.name.drop base.length) <;> rfl
    · rw [if_neg hlen, if_neg hlen]
      rfl

theorem takeVar_spec (h : Entry sp name base) (r : Request) {var : VariableList}
    (hstatus : r.status = errNoError) (hvar : base = [] → var.name.length ≤ maxOidLen) :
    (takenAs name base var = none → ∃ r', takeVar stack sp r var = some (.tooLong r')) ∧
      ∀ out, takenAs name base var = some out → ∃ r', takeVar stack sp r var = some (.updated r') ∧ outcome r' = out := by
  by_cases hpre : remote name base <+: var.name
  · rw [takenAs, if_pos hpre, takeVar_inside h r hpre hvar]
    by_cases hlen : (back name base var.name).length ≤ maxOidLen
    · rw [if_pos hlen, if_pos hlen]
      obtain ⟨v', hv', hname, hvalue⟩ := setVarObjid_spec { r.requestvb with value := var.value } hlen
      refine ⟨fun hn => absurd hn (by simp), fun out hout => ⟨_, by rw [hv']; rfl, ?_⟩⟩
      obtain rfl := Option.some.inj hout
      refine (outcome_of_done rfl ?_).trans ?_
      · exact hstatus
      show Outcome.ofVar ⟨v'.name, v'.value⟩ = _
      rw [hname, hvalue]
    · rw [if_neg hlen, if_neg hlen]
      exact ⟨fun _ => ⟨_, rfl⟩, fun out hout => absurd hout (by simp)⟩
  · rw [takenAs, if_neg hpre, takeVar_outside h r hpre]
    refine ⟨fun hn => absurd hn (by simp), fun out hout => ⟨_, rfl, ?_⟩⟩
    obtain rfl := Option.some.inj hout
    refine (outcome_of_done rfl ?_).trans ?_
    · exact hstatus
    · rfl

theorem updateLoop_all (h : Entry sp name base) {vars : List VariableList} {rs : List Request}
    {outs : List Outcome} (hvars : List.Forall₂ (fun var out => takenAs name base var = some out) vars outs)
    (hlen : rs.length = vars.length) (hstatus : ∀ r ∈ rs, r.status = errNoError)
    (hvar : ∀ var ∈ vars, base = [] → var.name.length ≤ maxOidLen) :
    ∃ rs', updateLoop stack sp rs vars = some (rs', .through false) ∧ rs'.map outcome = outs := by
  induction hvars generalizing rs with
  | nil =>
    obtain rfl := length_eq_zero_iff.mp hlen
    exact ⟨[], rfl, rfl⟩
  | @cons var out vars outs htaken _ ih =>
    obtain ⟨r, rs, rfl⟩ := exists_cons_of_length_eq_add_one hlen
    obtain ⟨r', hr', hout⟩ := (takeVar_spec h r (hstatus r mem_cons_self)
      (hvar var mem_cons_self)).2 out htaken
    obtain ⟨rs', hrs', houts⟩ := ih (Nat.succ.inj hlen) (fun q hq => hstatus q (mem_cons_of_mem r hq))
      fun w hw => hvar w (mem_cons_of_mem var hw)
    refine ⟨r' :: rs', ?_, ?_⟩
    · rw [updateLoop, hr']
      show (updateLoop stack sp rs vars).bind _ = _
      rw [hrs']
      rfl
    · rw [map_cons, hout, houts]

theorem updateLoop_stops (h : Entry sp name base) {vars : List VariableList} {rs : List Request}
    (hvars : ∃ var ∈ vars, takenAs name base var = none) (hlen : rs.length = vars.length)
    (hstatus : ∀ r ∈ rs, r.status = errNoError) (hvar : ∀ var ∈ vars, base = [] → var.name.length ≤ maxOidLen) :
    ∃ r' rs', updateLoop stack sp rs vars = some (r' :: rs', .tooLong) := by
  induction vars generalizing rs with
  | nil =>
    obtain ⟨var, hvar, -⟩ := hvars
    exact absurd hvar not_mem_nil
  | cons var vars ih =>
    obtain ⟨r, rs, rfl⟩ := exists_cons_of_length_eq_add_one hlen
    have hspec := @takeVar_spec stack sp name base h r var (hstatus r mem_cons_self) (hvar var mem_cons_self)
    cases htaken : takenAs name base var with
    | none =>
      obtain ⟨r', hr'⟩ := hspec.1 htaken
      exact ⟨r', rs, by rw [updateLoop, hr']; rfl⟩
    | some out =>
      obtain ⟨r', hr', -⟩ := hspec.2 out htaken
      have hrest : ∃ w ∈ vars, takenAs name base w = none := by
        obtain ⟨w, hw, hnone⟩ := hvars
        rcases mem_cons.mp hw with rfl | hw
        · rw [htaken] at hnone
          exact absurd hnone (by simp)
        · exact ⟨w, hw, hnone⟩
      obtain ⟨q, rs', hrs'⟩ := ih hrest (Nat.succ.inj hlen) (fun q hq => hstatus q (mem_cons_of_mem r hq))
        fun w hw => hvar w (mem_cons_of_mem var hw)
      refine ⟨r', q :: rs', ?_⟩
      rw [updateLoop, hr']
      show (updateLoop stack sp rs vars).bind _ = _
      rw [hrs']
      rfl

/-! ## a list of requests -/

theorem asked_getNext_length {x : ObjId} (hx : x.length ≤ maxOidLen) : (A.getNext x).name.length ≤ maxOidLen := by
  cases hy : A.next x with
  | none =>
    rw [RemoteAgent.getNext_of_none hy]
    exact hx
  | some y =>
    have hnext := A.next_spec x
    rw [hy] at hnext
    obtain ⟨-, v, hv⟩ := hnext.1
    rw [RemoteAgent.getNext_of_some hy hv]
    exact RemoteAgent.length_le_of_value hv

theorem answerVar_length {o : ObjId} (ho : o.length ≤ maxOidLen) (hbase : base = []) :
    (A.answerVar (mode = .getNext) (asked name base mode o)).name.length ≤ maxOidLen := by
  subst hbase
  rw [asked_nil, RemoteAgent.answerVar]
  split
  · exact asked_getNext_length ho
  · exact ho

theorem proxyHandler_eq (hmode : mode = .get ∨ mode = .getNext) :
    ∃ command, proxyHandler (some sp) mode requests = forward (some sp) mode command requests ∧
      (command = .getNext ↔ mode = .getNext) := by
  rcases hmode with rfl | rfl
  · exact ⟨.get, rfl, by decide⟩
  · exact ⟨.getNext, rfl, by decide⟩

theorem serve_sent (h : Configured sp name base) (hmode : mode = .get ∨ mode = .getNext)
    (hr : ∀ r ∈ requests, r.requestvb.nameLength ≤ maxOidLen ∧ Sendable name base mode r.requestvb.name) :
    ∃ sp' sent, Configured sp' name base ∧ List.Forall₂ Delegated requests sent ∧
      serve fixRequests stack sp A mode requests =
        (proxyGotResponse fixRequests stack (some sp') mode (.receivedMessage ⟨errNoError, 0,
          requests.map fun r => A.answerVar (mode = .getNext) (asked name base mode r.requestvb.name)⟩) sent).map
            Prod.snd := by
  obtain ⟨command, hhandler, hcommand⟩ := @proxyHandler_eq sp mode requests hmode
  obtain ⟨sp', sent, hloop, hentry, hsess, hsent⟩ := forwardLoop_sent h.entry hr fun _ _ _ _ => h.lastBefore_le
  have h' := h.of_entry hentry hsess
  refine ⟨sp', sent, h', hsent, ?_⟩
  have hforward : forward (some sp) mode command requests = some (.sent sp'
      ⟨command, requests.map fun r => ⟨asked name base mode r.requestvb.name, r.requestvb.value⟩⟩ sent) := by
    show (forwardLoop sp mode requests).bind _ = _
    rw [hloop]
    show (if sp'.sess = true then some _ else _) = _
    rw [if_pos h'.sess]
  have hanswer : A.answer ⟨command, requests.map fun r =>
      ⟨asked name base mode r.requestvb.name, r.requestvb.value⟩⟩ = ⟨errNoError, 0,
        requests.map fun r => A.answerVar (mode = .getNext) (asked name base mode r.requestvb.name)⟩ := by
    show Response.mk errNoError 0 (List.map _ (List.map _ _)) = _
    rw [map_map, decide_eq_decide.mpr hcommand]
    rfl
  rw [← hanswer]
  unfold serve
  rw [hhandler, hforward]
  show (proxyGotResponse _ _ _ _ _ _).bind _ = _
  cases proxyGotResponse fixRequests stack (some sp') mode
    (.receivedMessage (A.answer ⟨command, requests.map fun r =>
      ⟨asked name base mode r.requestvb.name, r.requestvb.value⟩⟩)) sent <;> rfl

theorem gotResponse_eq (hmode : mode = .get ∨ mode = .getNext) {vars : List VariableList} :
    (proxyGotResponse fixRequests stack (some sp) mode (.receivedMessage ⟨errNoError, 0, vars⟩) requests).map Prod.snd =
      (updateLoop stack sp requests vars).map fun done =>
        match done.2 with
        | .tooLong => setRequestError mode errGenErr done.1
        | .through rest => if rest then setRequestError mode errGenErr done.1 else done.1 := by
  have hbulk : mode ≠ .getBulk := by rcases hmode with rfl | rfl <;> decide
  show ((updateLoop stack sp requests vars).bind _).map _ = _
  cases updateLoop stack sp requests vars with
  | none => rfl
  | some done =>
    obtain ⟨rs, ended⟩ := done
    cases ended with
    | tooLong => rfl
    | through rest =>
      show some (if mode = .getBulk then _ else _) = _
      rw [if_neg hbulk]
      rfl

theorem status_of_delegated {sent : List Request} (hsent : List.Forall₂ Delegated requests sent)
    (hr : ∀ r ∈ requests, r.status = errNoError) : ∀ r ∈ sent, r.status = errNoError := by
  induction hsent with
  | nil => exact fun r hr => absurd hr not_mem_nil
  | cons hd _ ih =>
    intro r hmem
    rcases mem_cons.mp hmem with rfl | hmem
    · exact hd.2.trans (hr _ mem_cons_self)
    · exact ih (fun q hq => hr q (mem_cons_of_mem _ hq)) r hmem

theorem sent_fit (hreq : ∀ r ∈ requests, Asked name mode r) (var : VariableList)
    (hvar : var ∈ requests.map fun r => A.answerVar (mode = .getNext) (asked name base mode r.requestvb.name))
    (hbase : base = []) : var.name.length ≤ maxOidLen := by
  obtain ⟨r, hr, rfl⟩ := mem_map.mp hvar
  exact answerVar_length (by rw [length_name (hreq r hr).length]; exact (hreq r hr).length) hbase

/-- What should come of a request comes of it. -/
def Good (name base : ObjId) (A : RemoteAgent) (mode : Mode) (r : Request) : Prop :=
  ∃ out, result name base A mode r.requestvb.name = some out ∧ Correct name base A mode r.requestvb.name out

theorem forall₂_iff_of_map {α β γ : Type} {f : α → γ} {g : β → γ} {P : α → β → Prop} {Q : α → Prop} {l : List α}
    {l' : List β} (hmap : l.map f = l'.map g) (hPQ : ∀ a ∈ l, ∀ b ∈ l', f a = g b → (P a b ↔ Q a)) :
    List.Forall₂ P l l' ↔ ∀ a ∈ l, Q a := by
  induction l generalizing l' with
  | nil =>
    obtain rfl := map_eq_nil_iff.mp hmap.symm
    exact ⟨fun _ a ha => absurd ha not_mem_nil, fun _ => .nil⟩
  | cons a l ih =>
    obtain ⟨b, l', rfl, hab, hl⟩ := map_eq_cons_iff.mp hmap.symm
    have hrest := ih hl.symm fun a' ha' b' hb' => hPQ a' (mem_cons_of_mem a ha') b' (mem_cons_of_mem b hb')
    rw [forall₂_cons, forall_mem_cons, hrest, hPQ a mem_cons_self b mem_cons_self hab.symm]

theorem good_iff (hmode : mode = .get ∨ mode = .getNext) (hreq : ∀ r ∈ requests, Asked name mode r)
    (hr : r ∈ requests) : Good name base A mode r ↔
    (mode = .getNext → Reached name base A r.requestvb.name ∧ Short name base A r.requestvb.name) := by
  have hlen : r.requestvb.name.length ≤ maxOidLen := by
    rw [length_name (hreq r hr).length]
    exact (hreq r hr).length
  rcases hmode with rfl | rfl
  · exact iff_of_true (result_get ((hreq r hr).inside rfl) hlen) fun hget => absurd hget (by decide)
  · rw [Good, result_getNext_iff ((hreq r hr).belowEnd rfl) hlen]
    exact ⟨fun hg _ => hg, fun hg => hg rfl⟩

section Requests

variable (h : Configured sp name base) (hmode : mode = .get ∨ mode = .getNext)
  (hreq : ∀ r ∈ requests, Asked name mode r)

include h hmode hreq

theorem serve_all (hs : ∀ r ∈ requests, Sendable name base mode r.requestvb.name)
    (hres : ∀ r ∈ requests, result name base A mode r.requestvb.name ≠ none) :
    ∃ done, serve fixRequests stack sp A mode requests = some done ∧
      requests.map (fun r => result name base A mode r.requestvb.name) = done.map fun r => some (outcome r) := by
  obtain ⟨sp', sent, h', hsent, hserve⟩ := @serve_sent fixRequests stack sp name base A mode requests h hmode
    fun r hr => ⟨(hreq r hr).length, hs r hr⟩
  have hout : ∀ r ∈ requests, result name base A mode r.requestvb.name =
      some ((result name base A mode r.requestvb.name).getD .pending) := by
    intro r hr
    obtain ⟨out, hout⟩ := Option.ne_none_iff_exists'.mp (hres r hr)
    rw [hout, Option.getD_some]
  have htaken : List.Forall₂ (fun var out => takenAs name base var = some out)
      (requests.map fun r => A.answerVar (mode = .getNext) (asked name base mode r.requestvb.name))
      (requests.map fun r => (result name base A mode r.requestvb.name).getD .pending) := by
    rw [forall₂_map_left_iff, forall₂_map_right_iff, forall₂_same]
    exact hout
  obtain ⟨done, hdone, houts⟩ : ∃ done, updateLoop stack sp' sent _ = some (done, .through false) ∧ _ :=
    updateLoop_all h'.entry htaken (by rw [length_map, hsent.length_eq])
      (status_of_delegated hsent fun r hr => (hreq r hr).status) (sent_fit hreq)
  refine ⟨done, ?_, ?_⟩
  · rw [hserve, gotResponse_eq hmode, hdone]
    rfl
  · rw [map_congr_left hout]
    have hsome := congrArg (List.map some) houts
    rw [map_map, map_map] at hsome
    exact hsome.symm

theorem serve_failed (hs : ∀ r ∈ requests, Sendable name base mode r.requestvb.name)
    (hres : ∃ r ∈ requests, result name base A mode r.requestvb.name = none) :
    ∃ r' rest, serve fixRequests stack sp A mode requests = some (r' :: rest) ∧ outcome r' = .failed := by
  obtain ⟨sp', sent, h', hsent, hserve⟩ := @serve_sent fixRequests stack sp name base A mode requests h hmode
    fun r hr => ⟨(hreq r hr).length, hs r hr⟩
  have hnone : ∃ var ∈ requests.map fun r => A.answerVar (mode = .getNext) (asked name base mode r.requestvb.name),
      takenAs name base var = none := by
    obtain ⟨r, hr, hnone⟩ := hres
    exact ⟨_, mem_map_of_mem hr, hnone⟩
  obtain ⟨r', rest, hloop⟩ : ∃ r' rest, updateLoop stack sp' sent _ = some (r' :: rest, .tooLong) :=
    updateLoop_stops h'.entry hnone (by rw [length_map, hsent.length_eq])
      (status_of_delegated hsent fun r hr => (hreq r hr).status) (sent_fit hreq)
  refine ⟨requestSetError r' mode errGenErr, rest, ?_, rfl⟩
  rw [hserve, gotResponse_eq hmode, hloop]
  rfl

/-- A request cannot be sent, so none is. The first one stays delegated if it is not the one that is too long; if it
is, all stay as they were. -/
theorem serve_blocked (hs : ∃ r ∈ requests, ¬ Sendable name base mode r.requestvb.name) :
    ∃ r r' rest rest', requests = r :: rest ∧ serve fixRequests stack sp A mode requests = some (r' :: rest') ∧
      (Sendable name base mode r.requestvb.name → outcome r' = .pending) ∧
      (¬ Sendable name base mode r.requestvb.name → r' = r ∧ rest' = rest) := by
  obtain ⟨command, hhandler, -⟩ := @proxyHandler_eq sp mode requests hmode
  obtain ⟨sp', r, r', rest, rest', rfl, hloop, hsendable, hnot⟩ :=
    forwardLoop_stops h (fun r hr => (hreq r hr).length) hs
  refine ⟨r, r', rest, rest', rfl, ?_, fun hsr => ?_, hnot⟩
  · have hforward : forward (some sp) mode command (r :: rest) = some (.returned errNoError (r' :: rest')) := by
      show (forwardLoop sp mode (r :: rest)).bind _ = _
      rw [hloop]
      rfl
    unfold serve
    rw [hhandler, hforward]
    rfl
  · rw [outcome, hsendable hsr]
    rfl

theorem serve_single {out : Outcome} (hr : r ∈ requests) (hs : Sendable name base mode r.requestvb.name)
    (hres : result name base A mode r.requestvb.name = some out) :
    ∃ alone, serve fixRequests stack sp A mode [r] = some [alone] ∧ outcome alone = out := by
  have hreq₁ : ∀ q ∈ [r], Asked name mode q := fun q hq => mem_singleton.mp hq ▸ hreq r hr
  obtain ⟨done, hdone, hmap⟩ := @serve_all fixRequests stack sp name base A mode [r] h hmode hreq₁
    (fun q hq => mem_singleton.mp hq ▸ hs) (fun q hq => by
      obtain rfl := mem_singleton.mp hq
      rw [hres]
      exact Option.some_ne_none out)
  have hlen := congrArg List.length hmap
  rw [length_map, length_map] at hlen
  obtain ⟨alone, rfl⟩ := length_eq_one_iff.mp hlen.symm
  refine ⟨alone, hdone, ?_⟩
  rw [map_singleton, map_singleton, singleton_inj, hres] at hmap
  exact (Option.some.inj hmap).symm

theorem faithful_of_all (hs : ∀ r ∈ requests, Sendable name base mode r.requestvb.name) :
    Faithful fixRequests stack sp name base A mode requests ↔ ∀ r ∈ requests, Good name base A mode r := by
  by_cases hres : ∀ r ∈ requests, result name base A mode r.requestvb.name ≠ none
  · obtain ⟨done, hdone, hmap⟩ := @serve_all fixRequests stack sp name base A mode requests h hmode hreq hs hres
    have hiff : List.Forall₂ (fun r r' => Correct name base A mode r.requestvb.name (outcome r') ∧
        ∃ alone, serve fixRequests stack sp A mode [r] = some [alone] ∧ outcome alone = outcome r') requests done ↔
          ∀ r ∈ requests, Good name base A mode r := by
      refine forall₂_iff_of_map hmap fun r hr r' _ hrr' => ⟨fun hc => ⟨_, hrr', hc.1⟩, ?_⟩
      rintro ⟨out, hout, hc⟩
      obtain rfl := Option.some.inj (hrr'.symm.trans hout)
      exact ⟨hc, serve_single h hmode hreq hr (hs r hr) hrr'⟩
    rw [← hiff]
    constructor
    · rintro ⟨done', hdone', hc⟩
      obtain rfl := Option.some.inj (hdone.symm.trans hdone')
      exact hc
    · exact fun hc => ⟨done, hdone, hc⟩
  · obtain ⟨r, hr, hnone⟩ : ∃ r ∈ requests, result name base A mode r.requestvb.name = none := by
      by_contra hall
      exact hres fun r hr hnone => hall ⟨r, hr, hnone⟩
    refine iff_of_false ?_ fun hgood => ?_
    · rintro ⟨done, hdone, hc⟩
      obtain ⟨r', rest, hserve, hfailed⟩ :=
        @serve_failed fixRequests stack sp name base A mode requests h hmode hreq hs ⟨r, hr, hnone⟩
      obtain rfl := Option.some.inj (hserve.symm.trans hdone)
      cases hc with
      | cons hhead _ =>
        rw [hfailed] at hhead
        exact hhead.1
    · obtain ⟨out, hout, -⟩ := hgood r hr
      rw [hnone] at hout
      exact absurd hout (by simp)

theorem faithful_of_blocked {rest : List Request} (hrs : requests = r :: rest)
    (hns : ¬ Sendable name base mode r.requestvb.name) : Faithful fixRequests stack sp name base A mode requests ↔
      (∀ r ∈ requests, Sendable name base mode r.requestvb.name → Good name base A mode r) ∧
        ∀ r ∈ requests, ∀ w, Image name base A w → ¬ Sought mode r.requestvb.name w.name := by
  have hblocked : ∀ {q : Request} {qs : List Request}, (∀ q' ∈ q :: qs, Asked name mode q') →
      ¬ Sendable name base mode q.requestvb.name → serve fixRequests stack sp A mode (q :: qs) = some (q :: qs) := by
    intro q qs hq hnq
    obtain ⟨q₁, q', rest, rest', hl, hserve, -, hsame⟩ :=
      @serve_blocked fixRequests stack sp name base A mode (q :: qs) h hmode hq ⟨q, mem_cons_self, hnq⟩
    obtain ⟨rfl, rfl⟩ := List.cons.inj hl
    obtain ⟨rfl, rfl⟩ := hsame hnq
    exact hserve
  have hdone : serve fixRequests stack sp A mode requests = some requests := by
    subst hrs
    exact hblocked hreq hns
  have hiff : List.Forall₂ (fun r r' => Correct name base A mode r.requestvb.name (outcome r') ∧
      ∃ alone, serve fixRequests stack sp A mode [r] = some [alone] ∧ outcome alone = outcome r') requests requests ↔
        ∀ r ∈ requests, (Sendable name base mode r.requestvb.name → Good name base A mode r) ∧
          ∀ w, Image name base A w → ¬ Sought mode r.requestvb.name w.name := by
    refine forall₂_iff_of_map (f := id) (g := id) rfl fun q hq q' _ hqq' => ?_
    obtain rfl : q = q' := hqq'
    rw [outcome_of_asked (hreq q hq)]
    constructor
    · rintro ⟨hc, alone, hserve, halone⟩
      refine ⟨fun hsq => ?_, hc⟩
      cases hres : result name base A mode q.requestvb.name with
      | none =>
        obtain ⟨q₁, rest₁, hserve₁, hfailed⟩ := @serve_failed fixRequests stack sp name base A mode [q] h hmode
          (fun q₁ hq₁ => mem_singleton.mp hq₁ ▸ hreq q hq) (fun q₁ hq₁ => mem_singleton.mp hq₁ ▸ hsq)
          ⟨q, mem_singleton_self q, hres⟩
        obtain ⟨rfl, rfl⟩ := List.cons.inj (Option.some.inj (hserve.symm.trans hserve₁))
        rw [hfailed] at halone
        exact absurd halone (by simp)
      | some out =>
        obtain ⟨alone', hserve', halone'⟩ :=
          @serve_single fixRequests stack sp name base A mode requests q h hmode hreq out hq hsq hres
        obtain ⟨rfl, -⟩ := List.cons.inj (Option.some.inj (hserve.symm.trans hserve'))
        refine ⟨out, hres, ?_⟩
        rw [← halone', halone]
        exact hc
    · rintro ⟨hgood, hnone⟩
      refine ⟨hnone, ?_⟩
      by_cases hsq : Sendable name base mode q.requestvb.name
      · obtain ⟨out, hout, hc⟩ := hgood hsq
        obtain ⟨alone, hserve, halone⟩ :=
          @serve_single fixRequests stack sp name base A mode requests q h hmode hreq out hq hsq hout
        refine ⟨alone, hserve, ?_⟩
        rw [halone]
        cases out with
        | unanswered => rfl
        | answered v => exact absurd hc.2.1 (hnone v hc.1)
        | pending => exact absurd hc id
        | failed => exact absurd hc id
      · exact ⟨q, hblocked (fun q' hq' => mem_singleton.mp hq' ▸ hreq q hq) hsq, outcome_of_asked (hreq q hq)⟩
  have hforall : (∀ r ∈ requests, (Sendable name base mode r.requestvb.name → Good name base A mode r) ∧
      ∀ w, Image name base A w → ¬ Sought mode r.requestvb.name w.name) ↔ _ ∧ _ := forall₂_and
  rw [← hforall, ← hiff]
  constructor
  · rintro ⟨done, hdone', hc⟩
    obtain rfl := Option.some.inj (hdone.symm.trans hdone')
    exact hc
  · exact fun hc => ⟨requests, hdone, hc⟩

theorem serve_isSome : ∃ done, serve fixRequests stack sp A mode requests = some done := by
  by_cases hs : ∀ r ∈ requests, Sendable name base mode r.requestvb.name
  · by_cases hres : ∀ r ∈ requests, result name base A mode r.requestvb.name ≠ none
    · obtain ⟨done, hdone, -⟩ := @serve_all fixRequests stack sp name base A mode requests h hmode hreq hs hres
      exact ⟨done, hdone⟩
    · have hnone : ∃ r ∈ requests, result name base A mode r.requestvb.name = none := by
        by_contra hall
        exact hres fun r hr hnone => hall ⟨r, hr, hnone⟩
      obtain ⟨r', rest, hserve, -⟩ :=
        @serve_failed fixRequests stack sp name base A mode requests h hmode hreq hs hnone
      exact ⟨_, hserve⟩
  · have hns : ∃ r ∈ requests, ¬ Sendable name base mode r.requestvb.name := by
      by_contra hall
      exact hs fun r hr => by_contra fun hn => hall ⟨r, hr, hn⟩
    obtain ⟨r, r', rest, rest', -, hserve, -⟩ :=
      @serve_blocked fixRequests stack sp name base A mode requests h hmode hreq hns
    exact ⟨_, hserve⟩

theorem faithful_iff : Faithful fixRequests stack sp name base A mode requests ↔ Passes name base A mode requests := by
  by_cases hs : ∀ r ∈ requests, Sendable name base mode r.requestvb.name
  · rw [@faithful_of_all fixRequests stack sp name base A mode requests h hmode hreq hs]
    constructor
    · intro hgood
      exact ⟨fun hget r hr _ => (good_iff hmode hreq hr).mp (hgood r hr) hget, .inl hs⟩
    · exact fun hp r hr => (good_iff hmode hreq hr).mpr fun hget => hp.right hget r hr (hs r hr)
  · have hns : ∃ r ∈ requests, ¬ Sendable name base mode r.requestvb.name := by
      by_contra hall
      exact hs fun r hr => by_contra fun hn => hall ⟨r, hr, hn⟩
    obtain ⟨r, r', rest, rest', hrs, hserve, hpending, -⟩ :=
      @serve_blocked fixRequests stack sp name base A mode requests h hmode hreq hns
    by_cases hfirst : Sendable name base mode r.requestvb.name
    · -- The first request stays delegated.
      refine iff_of_false ?_ fun hp => ?_
      · rintro ⟨done, hdone, hc⟩
        obtain rfl := Option.some.inj (hserve.symm.trans hdone)
        rw [hrs] at hc
        cases hc with
        | cons hhead _ =>
          rw [hpending hfirst] at hhead
          exact hhead.1
      · rcases hp.sent with hall | ⟨⟨q, qs, hq, hnq⟩, -⟩
        · exact hs hall
        · obtain ⟨rfl, -⟩ := List.cons.inj (hrs.symm.trans hq)
          exact hnq hfirst
    · rw [@faithful_of_blocked fixRequests stack sp name base A mode requests r h hmode hreq rest hrs hfirst]
      constructor
      · rintro ⟨hgood, hnone⟩
        exact ⟨fun hget q hq hsq => (good_iff hmode hreq hq).mp (hgood q hq hsq) hget,
          .inr ⟨⟨r, rest, hrs, hfirst⟩, hnone⟩⟩
      · intro hp
        refine ⟨fun q hq hsq => (good_iff hmode hreq hq).mpr fun hget => hp.right hget q hq hsq, ?_⟩
        rcases hp.sent with hall | ⟨-, hnone⟩
        · exact absurd hall hs
        · exact hnone

end Requests

def bufferOf (x : ObjId) (h : x.length ≤ maxOidLen) : OidBuffer :=
  ⟨x ++ List.replicate (maxOidLen - x.length) 0, by rw [List.length_append, List.length_replicate]; omega⟩

/-- The subtree `1.2` is the image of `1.3`. -/
def shifted : SimpleProxy := ⟨bufferOf [1, 2] (by decide), 2, bufferOf [1, 3] (by decide), 2, true⟩

/-- The instances `1.3.1` and `1.3.2`. -/
def twoInstances : RemoteAgent where
  instances := [([1, 3, 1], .integer 7 4), ([1, 3, 2], .integer 8 4)]
  missing := fun _ => .noSuchInstance
  fits := by decide
  valued := by
    intro i hi t
    rcases List.mem_cons.mp hi with rfl | hi
    · exact fun h => nomatch h
    · obtain rfl := List.mem_singleton.mp hi
      exact fun h => nomatch h

def requestFor (x : ObjId) (h : x.length ≤ maxOidLen) : Request :=
  ⟨⟨bufferOf x h, x.length, .null .null⟩, false, false, Agent.errNoError⟩

theorem shifted_configured : Configured shifted [1, 2] [1, 3] := by
  refine ⟨rfl, ?_, rfl, ?_, ?_, ?_, ?_, rfl⟩ <;> decide

end Priot.Proxy
