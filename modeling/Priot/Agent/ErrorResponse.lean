/-
# The error of a response

The agent keeps the status and the index of the first error; but it loses the status when something is delegated, and
the original varbinds are sent only where nothing was.
-/
import Priot.Agent.ErrorStatus

namespace Priot.Agent

open Lib List

variable {V : Type}

/-! ## completions -/

/-- The statuses of requests when completions have followed. -/
def afterCompletions : (Nat → Int) → List (Completion V) → Nat → Int
  | st, [] => st
  | st, c :: cs => afterCompletions (if c.status ≠ errNoError then Function.update st c.index c.status else st) cs

def fillAll (cs : List (Completion V)) (vars : V) : V := cs.foldl (fun vars c => c.fill vars) vars

theorem complete_eq {entries : List (List Nat)} {c : Completion V} {asp : AgentSession V} {st : Nat → Int}
    {delegated : Nat → Bool} (hcache : asp.treecache = cacheOf entries st delegated) (hc : c.index ∈ entries.flatten)
    (hd : delegated c.index = true) :
    ∃ log, complete asp c =
      { asp with
        treecache := cacheOf entries (if c.status ≠ errNoError then Function.update st c.index c.status else st)
          (Function.update delegated c.index false)
        vars := c.fill asp.vars, log } := by
  have hasked : (asp.requests.any fun r => r.index = c.index && r.delegated) = true := by
    unfold AgentSession.requests
    rw [hcache, cacheOf_flatten, any_map]
    refine any_eq_true.mpr ⟨c.index, hc, ?_⟩
    show (decide (c.index = c.index) && delegated c.index) = true
    rw [hd, decide_eq_true rfl]
    rfl
  have hmap : asp.treecache.map (·.map c.apply) =
      cacheOf entries (if c.status ≠ errNoError then Function.update st c.index c.status else st)
        (Function.update delegated c.index false) := by
    rw [hcache]
    refine cacheOf_map c.apply fun i => ?_
    by_cases hi : i = c.index
    · subst hi
      have hval : (if c.status ≠ errNoError then Function.update st c.index c.status else st) c.index =
          if c.status ≠ errNoError then c.status else st c.index := by
        split
        · exact Function.update_self ..
        · rfl
      rw [Function.update_self, hval]
      exact if_pos ⟨rfl, hd⟩
    · have hval : (if c.status ≠ errNoError then Function.update st c.index c.status else st) i = st i := by
        split
        · exact Function.update_of_ne hi ..
        · rfl
      rw [Function.update_of_ne hi, hval]
      exact if_neg fun h => hi h.1
  unfold complete
  rw [if_pos hasked, hmap]
  exact ⟨_, rfl⟩

theorem foldl_complete {entries : List (List Nat)} {cs : List (Completion V)} {asp : AgentSession V} {st : Nat → Int}
    {delegated : Nat → Bool} (hcache : asp.treecache = cacheOf entries st delegated)
    (hnodup : (cs.map (·.index)).Nodup)
    (hcs : ∀ i, i ∈ cs.map (·.index) ↔ i ∈ entries.flatten ∧ delegated i = true) :
    ∃ log delegated', cs.foldl complete asp =
        { asp with treecache := cacheOf entries (afterCompletions st cs) delegated', vars := fillAll cs asp.vars, log } ∧
      ∀ i ∈ entries.flatten, delegated' i = false := by
  induction cs generalizing asp st delegated with
  | nil =>
    refine ⟨asp.log, delegated, ?_, fun i hi => ?_⟩
    · show asp = { asp with treecache := cacheOf entries st delegated, vars := asp.vars, log := asp.log }
      rw [← hcache]
    · by_contra hd
      exact not_mem_nil ((hcs i).mpr ⟨hi, Bool.not_eq_false _ ▸ hd⟩)
  | cons c cs ih =>
    obtain ⟨hnot, hnodup⟩ := nodup_cons.mp hnodup
    obtain ⟨hmem, hd⟩ := (hcs c.index).mp mem_cons_self
    obtain ⟨log, hc⟩ := complete_eq hcache hmem hd
    have hcs' (i : Nat) : i ∈ cs.map (·.index) ↔
        i ∈ entries.flatten ∧ Function.update delegated c.index false i = true := by
      by_cases hi : i = c.index
      · subst hi
        rw [Function.update_self]
        exact ⟨fun h => absurd h hnot, fun h => absurd h.2 Bool.false_ne_true⟩
      · rw [Function.update_of_ne hi, ← hcs i, map_cons, mem_cons]
        exact (or_iff_right hi).symm
    obtain ⟨log', delegated', hfold, hdone⟩ := @ih (complete asp c) _ _ (by rw [hc]) hnodup hcs'
    refine ⟨log', delegated', ?_, hdone⟩
    rw [foldl_cons, hfold, hc]
    rfl

theorem checkDelayedRequest_get {asp : AgentSession V} {s : Script V} (hmode : asp.mode = .get)
    (hdel : checkForDelegated asp = false) : checkDelayedRequest asp s = wrapUpRequest asp errNoError s.finish := by
  simp only [checkDelayedRequest, hmode]
  exact if_neg (by rw [hdel]; exact Bool.false_ne_true)

theorem checkDelayedRequest_search {asp asp' : AgentSession V} {s : Script V} {status : Int}
    (hmode : asp.mode = .getNext ∨ asp.mode = .getBulk)
    (hloop : handleGetnextLoop (checkAllRequestsStatus asp 0) s.rounds = (asp', status))
    (hdel : checkForDelegated asp' = false) : checkDelayedRequest asp s = wrapUpRequest asp' errNoError s.finish := by
  rcases hmode with hmode | hmode <;>
    (simp only [checkDelayedRequest, hmode, hloop]
     exact if_neg (by rw [hdel]; exact Bool.false_ne_true))

theorem wrapUpRequest_noError (asp : AgentSession V) (finish : V → V) :
    (wrapUpRequest asp errNoError finish).2 =
      some { vars := finish asp.vars, errstat := asp.status, errindex := asp.index } := by
  have hs : (if errNoError ≠ errNoError ∧ asp.status = errNoError then errNoError else asp.status) = asp.status :=
    if_neg fun h => h.1 rfl
  show some (Response.mk (if errNoError = errNoError then finish asp.vars else asp.origVars)
    (if errNoError ≠ errNoError ∧ asp.status = errNoError then errNoError else asp.status) asp.index) = _
  rw [hs, if_pos rfl]

theorem earlier_self (m : Option Nat) : earlier m m = m := by
  cases m with
  | none => rfl
  | some m =>
    show some (if m < m then m else m) = some m
    rw [ite_self]

theorem afterCompletions_ne {st : Nat → Int} {i : Nat} (cs : List (Completion V)) (h : st i ≠ errNoError) :
    afterCompletions st cs i ≠ errNoError := by
  induction cs generalizing st with
  | nil => exact h
  | cons c cs ih =>
    refine ih ?_
    split
    · next hc =>
      by_cases hi : i = c.index
      · subst hi
        rw [Function.update_self]
        exact hc
      · rw [Function.update_of_ne hi]
        exact h
    · exact h

/-! ## the response -/

/-- A request that is not a SET, and all that is done about it: `first` is the first pass, in which handlers return
noError; the later passes, until something is delegated (`rounds`) and after that (`later`), are without errors; what
the first pass delegates is completed in some order; and `finish` stands for what the agent does to the varbinds at
the end. -/
structure Inquiry (V : Type) where
  transid : Nat
  command : Command
  inclusives : Bool
  vars : V
  entries : List (List Nat)
  first : Pass V
  rounds : List (Round V)
  completions : List (Completion V)
  later : List (Round V)
  finish : V → V
  isGet : command ≠ .set
  nodup : entries.flatten.Nodup
  pos : ∀ i ∈ entries.flatten, 0 < i
  returns : ∀ i, first.ret i = errNoError
  quiet : ∀ r ∈ rounds ++ later, r.pass.Quiet
  completed : (completions.map (·.index)).Nodup
  delegated : ∀ i, i ∈ completions.map (·.index) ↔ i ∈ entries.flatten ∧ first.delegate i = true

namespace Inquiry

variable (q : Inquiry V)

def script (rounds : List (Round V)) : Script V :=
  { setup := .grouped q.entries, first := q.first, rounds, phases := [], finish := q.finish }

/-- The agent's answer: at once, or when what was delegated has been completed. -/
def answer : Option (Response V) :=
  match handleRequest (.init q.transid q.command q.inclusives q.vars) (q.script q.rounds) with
  | (_, some r) => some r
  | (asp, none) => (checkOutstanding (q.completions.foldl complete asp) (q.script q.later)).2

/-- The status that each request has been given. -/
def given : Nat → Int := afterCompletions q.first.report q.completions

/-- The response says which error was first, and carries the varbinds of the request; without an error it says so. -/
def Consistent (r : Response V) : Prop :=
  (∀ m, LeastOf (fun i => i ∈ q.entries.flatten ∧ q.given i ≠ errNoError) (some m) →
    r.vars = q.vars ∧ r.errindex = m ∧ r.errstat = q.given m) ∧
  ((∀ i ∈ q.entries.flatten, q.given i = errNoError) → r.errstat = errNoError ∧ r.errindex = 0)

def delegates : Bool := q.entries.flatten.any q.first.delegate

/-- A GET is made first for the inclusive ranges of a GETNEXT or GETBULK. -/
def special : Bool := q.inclusives && q.command ≠ .get

/-- The varbinds when a request is answered for which something was delegated and an error was reported. -/
def lateVars : V :=
  let vars := fillAll q.completions (q.first.fill q.vars)
  q.finish (if q.inclusives || q.command = .get then vars else lateFill q.later vars)

/-- The condition under which the response is consistent. -/
def Kept : Prop :=
  ∀ m, leastError q.given q.entries.flatten = some m →
    if q.delegates then
      q.lateVars = q.vars ∧
        (q.first.report m = errNoError ∨ (q.special = false ∧ firstError q.first.report q.entries = q.given m))
    else q.special = false

/-- The mode in which the search goes on. -/
def mode : Mode :=
  match q.command with
  | .getBulk => .getBulk
  | .get | .getNext | .set => .getNext

theorem mode_search : q.mode = .getNext ∨ q.mode = .getBulk := by
  unfold mode
  cases q.command <;> simp only [reduceCtorEq, or_true, true_or]

/-- The session when the agent has gone through the PDU. What is delegated is found in it as the first pass has left
it; else it holds the first error, unless the error was lost to a GET for inclusive ranges. -/
structure Started (asp : AgentSession V) (status : Int) : Prop where
  delegated : checkForDelegated asp = q.delegates
  origVars : asp.origVars = q.vars
  index : asp.index = (leastError q.first.report q.entries.flatten).getD 0
  found : if q.delegates then
      asp.treecache = cacheOf q.entries q.first.report q.first.delegate ∧ asp.vars = q.first.fill q.vars ∧
        status = (if q.special then errNoError else firstError q.first.report q.entries) ∧
        asp.mode = if q.inclusives || q.command = .get then .get else q.mode
    else if q.special then asp.status = errNoError ∧ status = errNoError
    else status = firstError q.first.report q.entries ∧
      asp.status = ((leastError q.first.report q.entries.flatten).map q.first.report).getD errNoError

/-- The session after the first pass. -/
def afterFirst (mode oldmode : Mode) (log : List Event) : AgentSession V :=
  { transid := q.transid, command := q.command, inclusives := q.inclusives, mode, oldmode
    status := ((leastError q.first.report q.entries.flatten).map q.first.report).getD errNoError
    index := (leastError q.first.report q.entries.flatten).getD 0
    treecache := cacheOf q.entries q.first.report q.first.delegate
    vars := q.first.fill q.vars, origVars := q.vars, log }

theorem firstPass (mode oldmode : Mode) (hmode : lookFor mode = 0) :
    ∃ log, handleVarRequests
      { AgentSession.init q.transid q.command q.inclusives q.vars with
        treecache := q.entries.map newRequests, mode, oldmode } q.first =
      (q.afterFirst mode oldmode log, firstError q.first.report q.entries) := by
  let asp : AgentSession V :=
    { AgentSession.init q.transid q.command q.inclusives q.vars with
      treecache := q.entries.map newRequests, mode, oldmode }
  obtain ⟨log, hpass⟩ :=
    @handleVarRequests_first V asp q.entries q.first rfl q.pos q.returns hmode rfl rfl
  obtain ⟨hi, hs⟩ := @note_first V asp rfl rfl q.first.report (leastError q.first.report q.entries.flatten)
  refine ⟨log, hpass.trans ?_⟩
  rw [note_frame, hi, hs]
  rfl

theorem delegated_afterFirst (mode oldmode : Mode) (log : List Event) :
    checkForDelegated (q.afterFirst mode oldmode log) = q.delegates :=
  checkForDelegated_cacheOf rfl

theorem special_false_of_get (hc : q.command = .get) : q.special = false := by
  unfold special
  rw [hc, Bool.and_eq_false_iff]
  exact .inr rfl

theorem started_get (hc : q.command = .get) :
    ∃ asp status, handlePdu (.init q.transid q.command q.inclusives q.vars) (q.script q.rounds) = (asp, status) ∧
      q.Started asp status := by
  obtain ⟨log, hpass⟩ := q.firstPass .get .setReserve1 rfl
  have hpdu : handlePdu (.init q.transid q.command q.inclusives q.vars) (q.script q.rounds) = handleVarRequests
      { AgentSession.init q.transid q.command q.inclusives q.vars with
        treecache := q.entries.map newRequests, mode := .get, oldmode := .setReserve1 } q.first := by
    have hcmd : (AgentSession.init q.transid q.command q.inclusives q.vars).command = .get := hc
    simp only [handlePdu, script, handleEntries, hcmd]
    rfl
  have hmode : Mode.get = if q.inclusives || q.command = .get then .get else q.mode := by
    rw [hc, decide_eq_true rfl, Bool.or_true, if_pos rfl]
  refine ⟨_, _, hpdu.trans hpass, q.delegated_afterFirst .., rfl, rfl, ?_⟩
  rw [q.special_false_of_get hc]
  split
  · exact ⟨rfl, rfl, rfl, hmode⟩
  · exact ⟨rfl, rfl⟩

theorem started_search (hc : q.command ≠ .get) :
    ∃ asp status, handlePdu (.init q.transid q.command q.inclusives q.vars) (q.script q.rounds) = (asp, status) ∧
      q.Started asp status := by
  have hspecial : q.special = q.inclusives := by
    unfold special
    rw [decide_eq_true hc, Bool.and_true]
  have hpdu : handlePdu (.init q.transid q.command q.inclusives q.vars) (q.script q.rounds) =
      handleSearch { AgentSession.init q.transid q.command q.inclusives q.vars with
        treecache := q.entries.map newRequests } q.mode (q.script q.rounds) := by
    have hcmd := q.isGet
    cases hcase : q.command with
    | get => exact absurd hcase hc
    | set => exact absurd hcase hcmd
    | getNext => simp only [handlePdu, script, handleEntries, AgentSession.init, mode, hcase]
    | getBulk => simp only [handlePdu, script, handleEntries, AgentSession.init, mode, hcase]
  have hmode : lookFor (if q.inclusives then .get else q.mode) = 0 := by
    unfold mode
    split
    · rfl
    · split <;> rfl
  obtain ⟨log, hpass⟩ := q.firstPass _ (if q.inclusives then q.mode else .setReserve1) hmode
  let asp := q.afterFirst (if q.inclusives then .get else q.mode) (if q.inclusives then q.mode else .setReserve1) log
  have hsearch : handlePdu (.init q.transid q.command q.inclusives q.vars) (q.script q.rounds) =
      if firstError q.first.report q.entries ≠ errNoError then
        if q.inclusives then handleGetnextLoop { asp with status := errNoError } q.rounds
        else (asp, firstError q.first.report q.entries)
      else handleGetnextLoop asp q.rounds := by
    rw [hpdu]
    exact handleSearch_eq { AgentSession.init q.transid q.command q.inclusives q.vars with
      treecache := q.entries.map newRequests } q.mode (q.script q.rounds) hpass
  rw [hsearch]
  have hdel : checkForDelegated asp = q.delegates := q.delegated_afterFirst ..
  have hquiet : ∀ r ∈ q.rounds, r.pass.Quiet := fun r hr => q.quiet r (mem_append_left _ hr)
  have hasp : asp.mode = if q.inclusives || q.command = .get then .get else q.mode := by
    rw [decide_eq_false hc, Bool.or_false]
    rfl
  have hnone (he : firstError q.first.report q.entries = errNoError) : asp.status = errNoError := by
    show ((leastError q.first.report q.entries.flatten).map q.first.report).getD errNoError = errNoError
    rw [firstError_eq_zero.mp he]
    rfl
  cases hd : q.delegates with
  | true =>
    -- the search has to wait, and returns noError
    rw [hd] at hdel
    have hwait (asp' : AgentSession V) (hdel' : checkForDelegated asp' = true) :=
      @handleGetnextLoop_delegated V asp' q.rounds hdel'
    by_cases he : firstError q.first.report q.entries = errNoError
    · refine ⟨asp, errNoError, ?_, hdel.trans hd.symm, rfl, rfl, ?_⟩
      · rw [if_neg (not_not.mpr he), hwait asp hdel]
      · rw [if_pos hd]
        refine ⟨rfl, rfl, ?_, hasp⟩
        rw [he, ite_self]
    · rw [if_pos he]
      by_cases hincl : q.inclusives = true
      · rw [if_pos hincl, hwait { asp with status := errNoError } hdel]
        refine ⟨_, _, rfl, hdel.trans hd.symm, rfl, rfl, ?_⟩
        rw [if_pos hd]
        exact ⟨rfl, rfl, by rw [hspecial, if_pos hincl], hasp⟩
      · refine ⟨_, _, if_neg hincl, hdel.trans hd.symm, rfl, rfl, ?_⟩
        rw [if_pos hd]
        exact ⟨rfl, rfl, by rw [hspecial, if_neg hincl], hasp⟩
  | false =>
    rw [hd] at hdel
    have hnot : ¬q.delegates = true := by
      rw [hd]
      exact Bool.false_ne_true
    by_cases he : firstError q.first.report q.entries = errNoError
    · obtain ⟨asp', status, hloop, hdel', hs, hi, ho, hz, -⟩ := handleGetnextLoop_quiet hquiet hdel
      refine ⟨asp', status, ?_, hdel'.trans hd.symm, ho, hi, ?_⟩
      · rw [if_neg (not_not.mpr he), hloop]
      · rw [if_neg hnot, hz (hnone he), he, hs]
        split
        · exact ⟨hnone he, rfl⟩
        · exact ⟨rfl, rfl⟩
    · rw [if_pos he]
      by_cases hincl : q.inclusives = true
      · let lost : AgentSession V := { asp with status := errNoError }
        have hlost : checkForDelegated lost = false := hdel
        obtain ⟨asp', status, hloop, hdel', hs, hi, ho, hz, -⟩ := handleGetnextLoop_quiet hquiet hlost
        refine ⟨asp', status, (if_pos hincl).trans hloop, hdel'.trans hd.symm, ho, hi, ?_⟩
        rw [if_neg hnot, if_pos (hspecial.trans hincl)]
        exact ⟨hs, hz rfl⟩
      · refine ⟨_, _, if_neg hincl, hdel.trans hd.symm, rfl, rfl, ?_⟩
        rw [if_neg hnot, if_neg (by rw [hspecial]; exact hincl)]
        exact ⟨rfl, rfl⟩

theorem started : ∃ asp status, handlePdu (.init q.transid q.command q.inclusives q.vars) (q.script q.rounds) =
    (asp, status) ∧ q.Started asp status := by
  by_cases hc : q.command = .get
  · exact q.started_get hc
  · exact q.started_search hc

theorem not_delegates (hd : q.delegates = false) : q.completions = [] ∧ q.given = q.first.report := by
  have hnil : q.completions = [] := by
    rw [eq_nil_iff_forall_not_mem]
    intro c hc
    obtain ⟨hi, hdel⟩ := (q.delegated c.index).mp (mem_map.mpr ⟨c, hc, rfl⟩)
    exact any_eq_false.mp hd c.index hi hdel
  refine ⟨hnil, ?_⟩
  unfold given
  rw [hnil]
  rfl

theorem consistent_none (h : leastError q.given q.entries.flatten = none) (r : Response V) :
    q.Consistent r ↔ r.errstat = errNoError ∧ r.errindex = 0 := by
  have hzero := leastError_none h
  exact ⟨fun hr => hr.2 hzero, fun hr => ⟨fun m hm => absurd (hzero m hm.1.1) hm.1.2, fun _ => hr⟩⟩

theorem consistent_some {m : Nat} (h : leastError q.given q.entries.flatten = some m) (r : Response V) :
    q.Consistent r ↔ r.vars = q.vars ∧ r.errindex = m ∧ r.errstat = q.given m := by
  have hleast := leastError_leastOf q.given q.entries.flatten
  rw [h] at hleast
  refine ⟨fun hr => hr.1 m hleast, fun hr => ⟨fun m' hm' => ?_, fun hz => ?_⟩⟩
  · obtain rfl : m = m' := Option.some.inj (hleast.unique hm')
    exact hr
  · exact absurd (hz m hleast.1.1) hleast.1.2

theorem kept_none (h : leastError q.given q.entries.flatten = none) : q.Kept := by
  intro m hm
  rw [h] at hm
  cases hm

theorem kept_some {m : Nat} (h : leastError q.given q.entries.flatten = some m) : q.Kept ↔ if q.delegates then
        q.lateVars = q.vars ∧
          (q.first.report m = errNoError ∨ (q.special = false ∧ firstError q.first.report q.entries = q.given m))
      else q.special = false := by
  refine ⟨fun hk => hk m h, fun hk m' hm' => ?_⟩
  obtain rfl : m = m' := Option.some.inj (h.symm.trans hm')
  exact hk

theorem answer_now (hd : q.delegates = false) : ∃ r, q.answer = some r ∧ (q.Consistent r ↔ q.Kept) := by
  obtain ⟨asp, status, hpdu, hstart⟩ := q.started
  obtain ⟨-, hgiven⟩ := q.not_delegates hd
  have hnot : ¬q.delegates = true := by
    rw [hd]
    exact Bool.false_ne_true
  have hreq : handleRequest (.init q.transid q.command q.inclusives q.vars) (q.script q.rounds) =
      wrapUpRequest asp status q.finish := by
    unfold handleRequest
    rw [hpdu]
    exact if_neg (by rw [hstart.delegated]; exact hnot)
  have hindex := hstart.index
  have hfound := hstart.found
  rw [if_neg hnot] at hfound
  let r : Response V :=
    { vars := if status = errNoError then q.finish asp.vars else asp.origVars
      errstat := if status ≠ errNoError ∧ asp.status = errNoError then status else asp.status
      errindex := asp.index }
  have hanswer : q.answer = some r := by
    unfold answer
    rw [hreq]
    rfl
  refine ⟨r, hanswer, ?_⟩
  cases hl : leastError q.given q.entries.flatten with
  | none =>
    rw [consistent_none q hl, iff_true_right (q.kept_none hl)]
    rw [hgiven] at hl
    rw [hl] at hindex
    have hstatus : asp.status = errNoError ∧ status = errNoError := by
      split at hfound
      · exact hfound
      · rw [hl] at hfound
        exact ⟨hfound.2, hfound.1.trans (firstError_eq_zero.mpr hl)⟩
    refine ⟨?_, hindex⟩
    show (if status ≠ errNoError ∧ asp.status = errNoError then status else asp.status) = errNoError
    rw [if_neg fun h => h.1 hstatus.2, hstatus.1]
  | some m =>
    rw [consistent_some q hl, kept_some q hl, if_neg hnot]
    have hm := (leastError_ne hl).2
    rw [hgiven] at hl hm
    rw [hl] at hindex
    show (if status = errNoError then q.finish asp.vars else asp.origVars) = q.vars ∧ asp.index = m ∧
      (if status ≠ errNoError ∧ asp.status = errNoError then status else asp.status) = q.given m ↔ _
    rw [hgiven]
    split at hfound
    · next hsp =>
      -- the error is lost to the GET for inclusive ranges
      have he : (if status ≠ errNoError ∧ asp.status = errNoError then status else asp.status) = errNoError := by
        rw [if_neg fun h => h.1 hfound.2, hfound.1]
      rw [he, hsp]
      exact ⟨fun h => absurd h.2.2.symm hm, fun h => nomatch h⟩
    · next hsp =>
      rw [hl] at hfound
      have hstatus : status ≠ errNoError := by
        rw [hfound.1]
        intro h
        rw [firstError_eq_zero.mp h] at hl
        cases hl
      have hasp : asp.status = q.first.report m := hfound.2
      rw [if_neg hstatus, if_neg fun h => hm (hasp.symm.trans h.2)]
      exact iff_of_true ⟨hstart.origVars, hindex, hasp⟩ (Bool.not_eq_true _ ▸ hsp)

theorem answer_completed (hd : q.delegates = true) : ∃ (ready noted : AgentSession V) (v : V),
    noted = ready.note q.given (leastError q.given q.entries.flatten) ∧
    ready.index = (leastError q.first.report q.entries.flatten).getD 0 ∧
    ready.status = (if q.special then errNoError else firstError q.first.report q.entries) ∧
    q.answer = some ⟨q.finish v, noted.status, noted.index⟩ ∧
    (noted.status ≠ errNoError → q.finish v = q.lateVars) := by
  obtain ⟨asp, status, hpdu, hstart⟩ := q.started
  have hfound := hstart.found
  rw [if_pos hd] at hfound
  obtain ⟨hcache, hvars, hstatus, hmode⟩ := hfound
  have hreq : handleRequest (.init q.transid q.command q.inclusives q.vars) (q.script q.rounds) =
      ({ asp with status }, none) := by
    unfold handleRequest
    rw [hpdu]
    exact if_pos (hstart.delegated.trans hd)
  let waiting : AgentSession V := { asp with status }
  have hwaiting : waiting.treecache = cacheOf q.entries q.first.report q.first.delegate := hcache
  obtain ⟨log, delegated', hfold, hdone⟩ := foldl_complete hwaiting q.completed q.delegated
  -- the session when everything has been completed, and with the errors of all requests
  let ready : AgentSession V :=
    { waiting with
      treecache := cacheOf q.entries q.given delegated', vars := fillAll q.completions (q.first.fill q.vars), log }
  have hfold : q.completions.foldl complete waiting = ready := by
    rw [hfold]
    show ({ waiting with treecache := _, vars := fillAll q.completions asp.vars, log } : AgentSession V) = _
    rw [hvars]
    rfl
  let noted := ready.note q.given (leastError q.given q.entries.flatten)
  have hready : checkForDelegated ready = false := by
    rw [checkForDelegated_cacheOf (show ready.treecache = _ from rfl)]
    exact any_eq_false.mpr fun i hi => by rw [hdone i hi]; exact Bool.false_ne_true
  have hall : checkAllRequestsStatus ready 0 = noted :=
    checkAllRequestsStatus_eq (show ready.treecache = _ from rfl) q.pos
  have hanswer : q.answer = (checkDelayedRequest noted (q.script q.later)).2 := by
    unfold answer
    rw [hreq]
    show (checkOutstanding (q.completions.foldl complete waiting) _).2 = _
    rw [hfold]
    unfold checkOutstanding
    rw [if_neg (by rw [hready]; exact Bool.false_ne_true), hall]
  have hframe : noted = { ready with index := noted.index, status := noted.status } := note_frame ..
  have hnoted : checkForDelegated noted = false := by
    rw [hframe]
    exact hready
  have hnmode : noted.mode = asp.mode := by rw [hframe]
  have hnvars : noted.vars = fillAll q.completions (q.first.fill q.vars) := by rw [hframe]
  by_cases hg : (q.inclusives || q.command = .get) = true
  · rw [if_pos hg] at hmode
    refine ⟨ready, noted, noted.vars, rfl, hstart.index, hstatus, ?_, fun _ => ?_⟩
    · rw [hanswer, checkDelayedRequest_get (hnmode.trans hmode) hnoted, wrapUpRequest_noError]
      rfl
    · rw [hnvars]
      exact congrArg q.finish (if_pos hg).symm
  · rw [if_neg hg] at hmode
    have hsearch : noted.mode = .getNext ∨ noted.mode = .getBulk := by
      rw [hnmode, hmode]
      exact q.mode_search
    have hcache' : noted.treecache = cacheOf q.entries q.given delegated' := by rw [hframe]
    have hagain : checkAllRequestsStatus noted 0 = noted := by
      rw [checkAllRequestsStatus_eq hcache' q.pos]
      show (ready.note _ _).note _ _ = ready.note _ _
      rw [note_note (fun m hm => q.pos m (leastError_ne hm).1), earlier_self]
    obtain ⟨asp', st, hloop, hdel', hs, hi, -, -, hv⟩ :=
      handleGetnextLoop_quiet (fun r hr => q.quiet r (mem_append_right _ hr)) hnoted
    refine ⟨ready, noted, asp'.vars, rfl, hstart.index, hstatus, ?_, fun hne => ?_⟩
    · rw [hanswer, checkDelayedRequest_search hsearch (by rw [hagain]; exact hloop) hdel', wrapUpRequest_noError, hs, hi]
      rfl
    · have hsome : noted.treecache ≠ [] := by
        rw [hcache']
        intro hnil
        have hempty : q.entries = [] := map_eq_nil_iff.mp hnil
        have : q.delegates = false := by
          unfold delegates
          rw [hempty]
          rfl
        exact Bool.false_ne_true (this.symm.trans hd)
      rw [hv hne hsome, hnvars]
      exact congrArg q.finish (if_neg hg).symm

theorem answer_late (hd : q.delegates = true) : ∃ r, q.answer = some r ∧ (q.Consistent r ↔ q.Kept) := by
  obtain ⟨ready, noted, v, hnote, hindex, hstat, hv, hlate⟩ := q.answer_completed hd
  refine ⟨_, hv, ?_⟩
  have hgiven (i : Nat) (hi : q.first.report i ≠ errNoError) : q.given i ≠ errNoError :=
    afterCompletions_ne q.completions hi
  cases hl : leastError q.given q.entries.flatten with
  | none =>
    have hfirst : leastError q.first.report q.entries.flatten = none :=
      leastError_eq fun i hi => hgiven i hi.2 (leastError_none hl i hi.1)
    have hnoted : noted = ready := by
      rw [hnote, hl]
      rfl
    rw [consistent_none q hl, iff_true_right (q.kept_none hl), hnoted, hindex, hstat, hfirst,
      firstError_eq_zero.mpr hfirst, ite_self]
    exact ⟨rfl, rfl⟩
  | some m =>
    rw [consistent_some q hl, kept_some q hl, if_pos hd]
    have hm := (leastError_ne hl).2
    -- the error is the one kept from the first pass, or it came later
    by_cases hlate' : ready.index = 0 ∨ m < ready.index
    · have hnoted : noted = { ready with index := m, status := q.given m } := by
        rw [hnote, hl, note_of_earlier ready hlate']
      have hreport : q.first.report m = errNoError := by
        by_contra hne
        have hleast := leastError_leastOf q.first.report q.entries.flatten
        obtain ⟨k, hk, hkm⟩ := hleast.exists_le ⟨(leastError_ne hl).1, hne⟩
        rw [hindex, hk] at hlate'
        have hkpos := q.pos k (leastError_ne hk).1
        exact hlate'.elim (fun h => absurd h (Nat.ne_of_gt hkpos)) hkm
      rw [hnoted] at hlate ⊢
      rw [hlate hm, hreport]
      exact ⟨fun h => ⟨h.1, .inl rfl⟩, fun h => ⟨h.1, rfl, rfl⟩⟩
    · have hnoted : noted = ready := by
        rw [hnote, hl, note_of_later ready hlate']
      cases hk : leastError q.first.report q.entries.flatten with
      | none =>
        rw [hindex, hk] at hlate'
        exact absurd (.inl rfl) hlate'
      | some k =>
        have hkm : k = m := by
          have hleast := leastError_leastOf q.given q.entries.flatten
          rw [hl] at hleast
          have h := hleast.2 k ⟨(leastError_ne hk).1, hgiven k (leastError_ne hk).2⟩
          rw [hindex, hk] at hlate'
          show k = m
          have h' : ¬(k = 0 ∨ m < k) := hlate'
          omega
        subst hkm
        have hreport := (leastError_ne hk).2
        rw [hnoted] at hlate ⊢
        rw [hindex, hk, hstat]
        cases hsp : q.special with
        | true =>
          rw [if_pos rfl]
          exact iff_of_false (fun h => hm h.2.2.symm) fun h => h.2.elim hreport fun h => nomatch h.1
        | false =>
          have hne : firstError q.first.report q.entries ≠ errNoError := by
            intro h
            rw [firstError_eq_zero.mp h] at hk
            cases hk
          rw [hstat, hsp] at hlate
          rw [hlate hne, if_neg Bool.false_ne_true]
          exact ⟨fun h => ⟨h.1, .inr ⟨rfl, h.2.2⟩⟩,
            fun h => ⟨h.1, rfl, (h.2.resolve_left hreport).2⟩⟩

/-- A response is consistent if there was no error; if nothing was delegated, and no GET was made for inclusive ranges;
or if the varbinds happen to be those of the request, and the first error came with a completion or is that of the
first entry with an error. -/
theorem answer_consistent_iff : ∃ r, q.answer = some r ∧ (q.Consistent r ↔ q.Kept) := by
  cases hd : q.delegates with
  | false => exact q.answer_now hd
  | true => exact q.answer_late hd

end Inquiry

/-! A GET for two varbinds. The first is answered, and the second is delegated and completed with genErr. -/

def halfAnswered : Inquiry (List (Option Int)) where
  transid := 1
  command := .get
  inclusives := false
  vars := [none, none]
  entries := [[1], [2]]
  first := { report := fun _ => errNoError, delegate := fun i => i == 2, ret := fun _ => errNoError,
             fill := fun _ => [some 7, none] }
  rounds := []
  completions := [{ index := 2, status := errGenErr, fill := id }]
  later := []
  finish := id
  isGet := by decide
  nodup := by decide
  pos := by decide
  returns _ := rfl
  quiet _ h := absurd h List.not_mem_nil
  completed := by decide
  delegated i := by
    show i ∈ [2] ↔ i ∈ [1, 2] ∧ (i == 2) = true
    constructor
    · intro hi
      obtain rfl := List.mem_singleton.mp hi
      decide
    · intro hi
      exact List.mem_singleton.mpr (beq_iff_eq.mp hi.2)

/-- The response carries the answer to the first varbind. -/
theorem not_answer_consistent : ¬∀ (V : Type) (q : Inquiry V) r, q.answer = some r → q.Consistent r := by
  intro h
  have hanswer : halfAnswered.answer = some ⟨[some 7, none], errGenErr, 2⟩ := rfl
  have hleast : LeastOf (fun i => i ∈ halfAnswered.entries.flatten ∧ halfAnswered.given i ≠ errNoError) (some 2) := by
    refine ⟨by decide, fun i hi => ?_⟩
    have hmem : i = 1 ∨ i = 2 := by
      have := hi.1
      simpa [halfAnswered] using this
    rcases hmem with rfl | rfl
    · exact absurd hi.2 (by decide)
    · decide
  exact absurd ((h _ _ _ hanswer).1 2 hleast).1 (by decide)

end Priot.Agent
