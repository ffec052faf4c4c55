/-
# SET transactions over whole runs

Requests of the master and answers of the internal agent come in any order. As long as the master goes on only from a
phase that has gone well, and undoes only what has been set, each transaction keeps to its life cycle.
-/
import Priot.Subagent.Phases

namespace Priot.Subagent

open Lib List

variable {V : Type} {s s' : State V} {p q : Ptr} {a b : AgentSetInfo V} {mode : Mode} {e : Int} {sess : Ptr}
  {transid : Int} {vars : List V} {ev : Event V} {out : List (Output V)} {command : Command}

/-! ## runs -/

/-- The events of a run, each with what happened at it. -/
abbrev Log (V : Type) := List (Event V × List (Output V))

/-- What a step says about one transaction. -/
def mark (p : Ptr) : Output V → Option (Mark V)
  | .internal q pdu => if q = p then some (.start pdu.command pdu.vars) else none
  | .answered q mode errstat => if q = p then some (.finish mode errstat) else none
  | .error _ _ _ => none
  | .response _ _ _ => none

/-- The history of one transaction, which is known by the address of its saved set. -/
def history (log : Log V) (p : Ptr) : List (Mark V) := (log.flatMap Prod.snd).filterMap (mark p)

/-- No TestSet for a transaction that has not ended, no request for one with a phase running, and no answer that
nobody waits for. -/
def Orderly (s : State V) : Event V → Prop
  | .packet sess .testSet transid _ => ∀ p a, (p, a) ∈ s.sets → ¬ (a.sess = sess ∧ a.transID = transid)
  | .packet sess _ transid _ => ∀ p a, (p, a) ∈ s.sets → a.sess = sess → a.transID = transid →
    p ∉ s.pending.map Prod.fst
  | .completed p _ => p ∈ s.pending.map Prod.fst

/-- The master goes on only from a phase that has gone well, and undoes only what has been set. -/
def Checked (s : State V) : Event V → Prop
  | .packet sess .commitSet transid _ => ∀ p a, (p, a) ∈ s.sets → a.sess = sess → a.transID = transid →
    a.mode = .reserve2 → a.errstat = some PRIOT_ERR_NOERROR
  | .packet sess .cleanupSet transid _ => ∀ p a, (p, a) ∈ s.sets → a.sess = sess → a.transID = transid →
    a.mode = .action → a.errstat = some PRIOT_ERR_NOERROR
  | .packet sess .undoSet transid _ => ∀ p a, (p, a) ∈ s.sets → a.sess = sess → a.transID = transid →
    a.mode = .action
  | _ => True

/-- A state of a run whose events all meet a condition, and the run up to it. -/
inductive Reached (C : State V → Event V → Prop) : State V → Log V → Prop
  | fresh : Reached C fresh []
  | step {s s' : State V} {log : Log V} {ev : Event V} {out : List (Output V)} (hs : Reached C s log) (hC : C s ev)
    (hstep : step s ev = some (s', out)) : Reached C s' (log ++ [(ev, out)])

variable {log : Log V}

/-- A request fits the stage of its transaction. -/
def Fits (s : State V) (log : Log V) (sess : Ptr) (transid : Int) (command : Command) : Prop :=
  match command with
  | .testSet => True
  | .commitSet => ∃ p a, (p, a) ∈ s.sets ∧ a.sess = sess ∧ a.transID = transid ∧
    (history log p).getLast? = some (.finish .reserve2 PRIOT_ERR_NOERROR)
  | .cleanupSet => ∃ p a, (p, a) ∈ s.sets ∧ a.sess = sess ∧ a.transID = transid ∧
    ∃ m e, (history log p).getLast? = some (.finish m e) ∧
      (m = .reserve1 ∨ m = .reserve2 ∨ m = .action ∧ e = PRIOT_ERR_NOERROR)
  | .undoSet => ∃ p a, (p, a) ∈ s.sets ∧ a.sess = sess ∧ a.transID = transid ∧
    ∃ e, (history log p).getLast? = some (.finish .action e)

/-- The transaction that an event is about. -/
def Concerns (s : State V) : Event V → Ptr → Prop
  | .packet _ .testSet _ _, q => q = s.brk
  | .packet sess _ transid _, q => ∃ b, (q, b) ∈ s.sets ∧ b.sess = sess ∧ b.transID = transid
  | .completed p _, q => q = p

/-- What one event does. -/
structure Stepped (s s' : State V) (log : Log V) (ev : Event V) (out : List (Output V)) : Prop where
  /-- a phase with a first one is started by a TestSet, on its variables -/
  tests : ∀ p pdu, .internal p pdu ∈ out → pdu.command = .reserve1 →
    ∃ sess, ev = .packet sess .testSet pdu.transid pdu.vars
  /-- a request that does not fit does nothing -/
  unfit : ∀ sess command transid vars, ev = .packet sess command transid vars →
    ¬ Fits s log sess transid command → s' = s ∧ ∀ p pdu, .internal p pdu ∉ out
  /-- other transactions are left alone -/
  others : ∀ q, ¬ Concerns s ev q → (∀ b, (q, b) ∈ s'.sets ↔ (q, b) ∈ s.sets) ∧ out.filterMap (mark q) = []

/-! ## one event -/

theorem history_append (log : Log V) (ev : Event V) (out : List (Output V)) (p : Ptr) :
    history (log ++ [(ev, out)]) p = history log p ++ out.filterMap (mark p) := by
  rw [history, history, flatMap_append, filterMap_append]
  simp

theorem history_of_others (h : out.filterMap (mark q) = []) : history (log ++ [(ev, out)]) q = history log q := by
  rw [history_append, h, append_nil]

theorem history_update {l : List (Mark V)} (hp : out.filterMap (mark p) = l)
    (hq : ∀ q, q ≠ p → out.filterMap (mark q) = []) :
    history (log ++ [(ev, out)]) = Function.update (history log) p (history log p ++ l) := by
  funext q
  by_cases h : q = p
  · subst h
    rw [Function.update_self, history_append, hp]
  · rw [Function.update_of_ne h, history_of_others (hq q h)]

theorem Life.last {m : Mode} {h : List (Mark V)} (hl : Life vars (.done m e) h) : h.getLast? = some (.finish m e) := by
  cases hl with
  | finish _ hl => rw [getLast?_append]; rfl

theorem Kept.restoreSetVars_spec {H : Ptr → List (Mark V)} (h : Kept s H) (sess : Ptr) (transid : Int) :
    (restoreSetVars s sess transid = none ∧ ∀ p a, (p, a) ∈ s.sets → ¬ (a.sess = sess ∧ a.transID = transid)) ∨
    ∃ p a, restoreSetVars s sess transid = some (p, a) ∧ (p, a) ∈ s.sets ∧ a.sess = sess ∧ a.transID = transid := by
  cases hfind : s.sets.find? (isFor sess transid) with
  | none =>
    refine .inl ⟨by rw [restoreSetVars, hfind], fun p a ha hkey => ?_⟩
    have := find?_eq_none.mp hfind (p, a) ha
    exact this (by simpa [isFor] using hkey)
  | some x =>
    obtain ⟨p, a⟩ := x
    have ha := mem_of_find?_eq_some hfind
    have hkey := find?_some hfind
    simp only [isFor, decide_eq_true_eq] at hkey
    refine .inr ⟨p, a, ?_, ha, hkey.1, hkey.2⟩
    rw [restoreSetVars, hfind]
    exact if_neg (by simpa using h.nonempty p a ha)

/-- The states of a run. -/
structure Invariant (s : State V) (log : Log V) : Prop where
  kept : Kept s (history log)
  settled : Settled s

theorem Invariant.refused (h : Invariant s log) (hout : ∀ q, out.filterMap (mark q) = [])
    (hinternal : ∀ p pdu, .internal p pdu ∉ out) : Invariant s (log ++ [(ev, out)]) ∧ Stepped s s log ev out := by
  have hhist : history (log ++ [(ev, out)]) = history log := funext fun q => history_of_others (hout q)
  refine ⟨⟨hhist ▸ h.kept, h.settled⟩, ?_, ?_, ?_⟩
  · exact fun p pdu hmem _ => absurd hmem (hinternal p pdu)
  · exact fun _ _ _ _ _ _ => ⟨rfl, hinternal⟩
  · exact fun q _ => ⟨fun b => Iff.rfl, hout q⟩

theorem Invariant.started (h : Invariant s log) (ha : (p, a) ∈ s.sets) (hidle : p ∉ s.pending.map Prod.fst)
    (hlife : Life a.varList (.running mode) (history log p ++ [.start mode a.varList])) (hmode : mode ≠ .reserve1)
    (hev : ev = .packet a.sess command a.transID vars) (hcommand : command ≠ .testSet)
    (hfits : Fits s log a.sess a.transID command) :
    ∃ s' out, submit s p mode a.transID a.varList = (s', out) ∧ Invariant s' (log ++ [(ev, out)]) ∧
      Stepped s s' log ev out := by
  obtain ⟨s', e, hkept, hbrk, hpend, hsets⟩ := h.kept.submit ha hidle hlife
  have hconcerns : Concerns s ev p := by
    rw [hev]
    cases command with
    | testSet => exact absurd rfl hcommand
    | commitSet => exact ⟨a, ha, rfl, rfl⟩
    | undoSet => exact ⟨a, ha, rfl, rfl⟩
    | cleanupSet => exact ⟨a, ha, rfl, rfl⟩
  have hmark : ∀ q, q ≠ p →
      ([.internal p ⟨mode, a.transID, a.varList⟩] : List (Output V)).filterMap (mark q) = [] := by
    intro q hq
    simp [mark, hq.symm]
  refine ⟨s', _, e, ⟨?_, ?_⟩, ?_, ?_, ?_⟩
  · rw [history_update (by simp [mark]; rfl) hmark]
    exact hkept
  · intro q b hb hq hb1
    rw [hpend, map_append, mem_append, not_or] at hq
    rw [hsets] at hb
    obtain ⟨c, hc, rfl⟩ := mem_setInfo.mp hb
    have hne : q ≠ p := fun hqp => hq.2 (hqp ▸ mem_cons_self)
    rw [if_neg hne] at hb1 ⊢
    exact h.settled q c hc hq.1 hb1
  · intro q pdu hmem hr1
    obtain ⟨rfl, rfl⟩ := Output.internal.inj (mem_singleton.mp hmem)
    exact absurd hr1 hmode
  · intro sess' command' transid' vars' hev' hunfit
    rw [hev] at hev'
    obtain ⟨rfl, rfl, rfl, rfl⟩ := Event.packet.inj hev'
    exact absurd hfits hunfit
  · intro q hq
    have hne : q ≠ p := fun hqp => hq (hqp ▸ hconcerns)
    refine ⟨fun b => ?_, hmark q hne⟩
    rw [hsets, mem_setInfo_ne hne]

theorem Invariant.idle (h : Invariant s log) (ha : (p, a) ∈ s.sets) (hp : p ∉ s.pending.map Prod.fst) :
    ∃ e, a.errstat = some e ∧ ¬ a.mode.Final ∧ Life a.varList (.done a.mode e) (history log p) ∧
      (history log p).getLast? = some (.finish a.mode e) := by
  obtain ⟨e, he, hmode, hlife⟩ := h.kept.done p a ha hp
  exact ⟨e, he, hmode, hlife, hlife.last⟩

theorem Invariant.testSet (h : Invariant s log)
    (hnew : ∀ p a, (p, a) ∈ s.sets → ¬ (a.sess = sess ∧ a.transID = transid)) :
    ∃ s' out, handleAgentxPacket s sess .testSet transid vars = (s', out) ∧
      Invariant s' (log ++ [(.packet sess .testSet transid vars, out)]) ∧
      Stepped s s' log (.packet sess .testSet transid vars) out := by
  by_cases hvars : vars = []
  · refine ⟨s, [.error sess transid AGENTX_ERR_PARSE_FAILED], ?_, h.refused ?_ ?_⟩
    · rw [handleAgentxPacket, saveSetVars, if_pos (by simpa using hvars)]
    · exact fun q => rfl
    · exact fun p pdu hmem => absurd (mem_singleton.mp hmem) (by simp)
  · obtain ⟨s₁, s', hsave, hsubmit, hkept, hpend, hmem⟩ := h.kept.save hvars hnew
    have hmark : ∀ q, q ≠ s.brk →
        ([.internal s.brk ⟨.reserve1, transid, vars⟩] : List (Output V)).filterMap (mark q) = [] := by
      intro q hq
      simp [mark, hq.symm]
    refine ⟨s', _, by rw [handleAgentxPacket, hsave]; exact hsubmit, ⟨?_, ?_⟩, ?_, ?_, ?_⟩
    · rw [history_update (by simp [mark]; rfl) hmark, h.kept.unused _ (Nat.le_refl _)]
      exact hkept
    · intro q b hb hq
      rw [hpend, map_append, mem_append, not_or] at hq
      have hb := ((hmem q b).mp hb).resolve_left fun hb => hq.2 (hb.1 ▸ mem_cons_self)
      exact h.settled q b hb hq.1
    · intro q pdu hpdu _
      obtain ⟨rfl, rfl⟩ := Output.internal.inj (mem_singleton.mp hpdu)
      exact ⟨sess, rfl⟩
    · intro sess' command' transid' vars' hev hunfit
      obtain ⟨rfl, rfl, rfl, rfl⟩ := Event.packet.inj hev
      exact absurd trivial hunfit
    · intro q hq
      refine ⟨fun b => ?_, hmark q hq⟩
      rw [hmem]
      exact ⟨fun hb => hb.resolve_left fun hb => hq hb.1, .inr⟩

theorem Invariant.packet (h : Invariant s log) (horderly : Orderly s (.packet sess command transid vars))
    (hchecked : Checked s (.packet sess command transid vars)) :
    ∃ s' out, handleAgentxPacket s sess command transid vars = (s', out) ∧
      Invariant s' (log ++ [(.packet sess command transid vars, out)]) ∧
      Stepped s s' log (.packet sess command transid vars) out := by
  have herror : ∀ {e : Int}, Invariant s (log ++ [(.packet sess command transid vars, [.error sess transid e])]) ∧
      Stepped s s log (.packet sess command transid vars) [.error sess transid e] := by
    intro e
    refine h.refused (fun q => rfl) ?_
    exact fun p pdu hmem => absurd (mem_singleton.mp hmem) (by simp)
  rcases h.kept.restoreSetVars_spec sess transid with ⟨hnone, hnew⟩ | ⟨p, a, hsome, ha, rfl, rfl⟩
  · cases command with
    | testSet => exact h.testSet hnew
    | commitSet => exact ⟨s, _, by rw [handleAgentxPacket, hnone], herror⟩
    | undoSet => exact ⟨s, _, by rw [handleAgentxPacket, hnone], herror⟩
    | cleanupSet => exact ⟨s, _, by rw [handleAgentxPacket, hnone], herror⟩
  · cases command with
    | testSet => exact absurd ⟨rfl, rfl⟩ (horderly p a ha)
    | commitSet =>
      have hidle : p ∉ s.pending.map Prod.fst := horderly p a ha rfl rfl
      obtain ⟨e, he, -, hlife, hlast⟩ := h.idle ha hidle
      by_cases hmode : a.mode = .reserve2
      · have hok := hchecked p a ha rfl rfl hmode
        obtain rfl : e = PRIOT_ERR_NOERROR := Option.some.inj (he.symm.trans hok)
        rw [hmode] at hlife hlast
        obtain ⟨s', out, hsubmit, hinv⟩ := h.started ha hidle (.commitSet hlife) (by decide)
          (rfl : (.packet a.sess .commitSet a.transID vars : Event V) = _) (by decide) ⟨p, a, ha, rfl, rfl, hlast⟩
        exact ⟨s', out, by simp only [handleAgentxPacket, hsome, hmode, ne_eq, not_true_eq_false, if_false, hsubmit],
          hinv⟩
      · exact ⟨s, [.error a.sess a.transID AGENTX_ERR_PROCESSING_ERROR],
          by simp only [handleAgentxPacket, hsome, ne_eq, hmode, not_false_eq_true, if_true], herror⟩
    | undoSet =>
      have hidle : p ∉ s.pending.map Prod.fst := horderly p a ha rfl rfl
      obtain ⟨e, he, -, hlife, hlast⟩ := h.idle ha hidle
      have hmode : a.mode = .action := hchecked p a ha rfl rfl
      rw [hmode] at hlife hlast
      obtain ⟨s', out, hsubmit, hinv⟩ := h.started ha hidle (.undoSet hlife) (by decide)
        (rfl : (.packet a.sess .undoSet a.transID vars : Event V) = _) (by decide) ⟨p, a, ha, rfl, rfl, e, hlast⟩
      exact ⟨s', out, by simp only [handleAgentxPacket, hsome, hsubmit], hinv⟩
    | cleanupSet =>
      have hidle : p ∉ s.pending.map Prod.fst := horderly p a ha rfl rfl
      obtain ⟨e, he, hnot, hlife, hlast⟩ := h.idle ha hidle
      have hev : (.packet a.sess .cleanupSet a.transID vars : Event V) = .packet a.sess .cleanupSet a.transID vars :=
        rfl
      cases hmode : a.mode with
      | reserve1 =>
        have hne : e ≠ PRIOT_ERR_NOERROR := by
          rintro rfl
          exact h.settled p a ha hidle hmode he
        rw [hmode] at hlife hlast
        obtain ⟨s', out, hsubmit, hinv⟩ := h.started ha hidle (.cleanupFailed hlife hne) (by decide) hev (by decide)
          ⟨p, a, ha, rfl, rfl, _, e, hlast, .inl rfl⟩
        exact ⟨s', out, by simp only [handleAgentxPacket, hsome, hmode, true_or, if_true, hsubmit], hinv⟩
      | reserve2 =>
        rw [hmode] at hlife hlast
        obtain ⟨s', out, hsubmit, hinv⟩ := h.started ha hidle (.cleanupTested hlife) (by decide) hev (by decide)
          ⟨p, a, ha, rfl, rfl, _, e, hlast, .inr (.inl rfl)⟩
        exact ⟨s', out, by simp only [handleAgentxPacket, hsome, hmode, or_true, if_true, hsubmit], hinv⟩
      | action =>
        have hok := hchecked p a ha rfl rfl hmode
        obtain rfl : e = PRIOT_ERR_NOERROR := Option.some.inj (he.symm.trans hok)
        rw [hmode] at hlife hlast
        obtain ⟨s', out, hsubmit, hinv⟩ := h.started ha hidle (.cleanupCommitted hlife) (by decide) hev (by decide)
          ⟨p, a, ha, rfl, rfl, _, _, hlast, .inr (.inr ⟨rfl, rfl⟩)⟩
        exact ⟨s', out, by simp [handleAgentxPacket, hsome, hmode, hsubmit], hinv⟩
      | commit => exact absurd (.inr (.inl hmode)) hnot
      | free => exact absurd (.inl hmode) hnot
      | undo => exact absurd (.inr (.inr hmode)) hnot

theorem Invariant.running (h : Invariant s log) (hp : p ∈ s.pending.map Prod.fst) :
    ∃ a, (p, a) ∈ s.sets ∧ s.sets.lookup p = some a ∧
      s.pending.lookup p = some ⟨a.mode, a.transID, a.varList⟩ ∧ Life a.varList (.running a.mode) (history log p) := by
  obtain ⟨⟨p, pdu⟩, hpdu, rfl⟩ := mem_map.mp hp
  obtain ⟨a, ha, hpdu'⟩ := h.kept.pending p pdu hpdu
  refine ⟨a, ha, lookup_of_mem h.kept.nodup ha, ?_, h.kept.running p a ha hp⟩
  rw [lookup_of_mem h.kept.pendingNodup hpdu, hpdu']

theorem Invariant.answeredFirst (h : Invariant s log) (ha : (p, a) ∈ s.sets) (hp : p ∈ s.pending.map Prod.fst)
    (hinfo : s.sets.lookup p = some a) (hlookup : s.pending.lookup p = some ⟨a.mode, a.transID, a.varList⟩)
    (hlife : Life a.varList (.running a.mode) (history log p)) (hmode : a.mode = .reserve1) :
    ∃ s' out, step s (.completed p PRIOT_ERR_NOERROR) = some (s', out) ∧
      Invariant s' (log ++ [(.completed p PRIOT_ERR_NOERROR, out)]) ∧
      Stepped s s' log (.completed p PRIOT_ERR_NOERROR) out := by
  have hkept := h.kept.answer ha hp (by rw [hmode]; simp [Mode.Final]) PRIOT_ERR_NOERROR
  have ha₁ : (p, ({ a with errstat := some PRIOT_ERR_NOERROR } : AgentSetInfo V)) ∈
      (setInfo { s with pending := s.pending.eraseP (·.1 = p) } p
        fun a => { a with errstat := some PRIOT_ERR_NOERROR }).sets :=
    mem_setInfo.mpr ⟨a, ha, (if_pos rfl).symm⟩
  have hidle : p ∉ (s.pending.eraseP (·.1 = p)).map Prod.fst := by
    intro hp'
    obtain ⟨y, hy, hyp⟩ := mem_map.mp hp'
    exact ((mem_erase_key h.kept.pendingNodup).mp hy).2 hyp
  rw [hmode] at hlife hkept
  have hlife₂ := Life.reserve2 (.finish PRIOT_ERR_NOERROR hlife)
  have hself : Function.update (history log) p (history log p ++ [Mark.finish .reserve1 PRIOT_ERR_NOERROR]) p =
      history log p ++ [Mark.finish .reserve1 PRIOT_ERR_NOERROR] := Function.update_self ..
  rw [← hself] at hlife₂
  obtain ⟨s', hsubmit, hkept', -, hpend, hsets⟩ := hkept.submit ha₁ hidle hlife₂
  rw [Function.update_self, Function.update_idem, append_assoc] at hkept'
  have hsubmit' : submit (setInfo { s with pending := s.pending.eraseP (·.1 = p) } p
      fun a => { a with errstat := some PRIOT_ERR_NOERROR }) p .reserve2 a.transID a.varList =
      (s', [.internal p ⟨.reserve2, a.transID, a.varList⟩]) := hsubmit
  have hmark : ∀ q, q ≠ p → ([.answered p .reserve1 PRIOT_ERR_NOERROR,
      .internal p ⟨.reserve2, a.transID, a.varList⟩] : List (Output V)).filterMap (mark q) = [] := by
    intro q hq
    simp [mark, hq.symm]
  have hmem : ∀ q, q ≠ p → ∀ b, (q, b) ∈ s'.sets ↔ (q, b) ∈ s.sets := by
    intro q hq b
    rw [hsets, mem_setInfo_ne hq, mem_setInfo_ne hq]
  refine ⟨s', [.answered p .reserve1 PRIOT_ERR_NOERROR, .internal p ⟨.reserve2, a.transID, a.varList⟩], ?_,
    ⟨?_, ?_⟩, ?_, ?_, ?_⟩
  · simp only [step, hlookup, Option.bind_eq_bind, Option.bind_some, handleSubagentSetResponse, hinfo, hmode,
      if_true, hsubmit']
  · rw [history_update (by simp [mark]; rfl) hmark]
    exact hkept'
  · intro q b hb hq
    rw [hpend, map_append, mem_append, not_or] at hq
    have hqp : q ≠ p := fun hqp => hq.2 (hqp ▸ mem_cons_self)
    exact h.settled q b ((hmem q hqp b).mp hb) (not_mem_of_erase_key h.kept.pendingNodup hqp hq.1)
  · intro q pdu hpdu hr1
    obtain ⟨rfl, rfl⟩ : q = p ∧ pdu = ⟨.reserve2, a.transID, a.varList⟩ := by simpa using hpdu
    exact absurd hr1 (by simp)
  · exact fun _ _ _ _ hev => absurd hev (by simp)
  · exact fun q hq => ⟨hmem q hq, hmark q hq⟩

theorem Invariant.answered (h : Invariant s log) (hp : p ∈ s.pending.map Prod.fst)
    (hkept : Kept s' (Function.update (history log) p (history log p ++ [.finish mode e])))
    (hpend : s'.pending = s.pending.eraseP (·.1 = p)) (hmem : ∀ q, q ≠ p → ∀ b, (q, b) ∈ s'.sets ↔ (q, b) ∈ s.sets)
    (hself : ∀ b, (p, b) ∈ s'.sets → b.mode = .reserve1 → b.errstat ≠ some PRIOT_ERR_NOERROR)
    (hout : out = [.answered p mode e, .response sess transid e]) :
    Invariant s' (log ++ [(.completed p e, out)]) ∧ Stepped s s' log (.completed p e) out := by
  have hmark : ∀ q, q ≠ p → out.filterMap (mark q) = [] := by
    intro q hq
    rw [hout]
    simp [mark, hq.symm]
  refine ⟨⟨?_, ?_⟩, ?_, ?_, ?_⟩
  · have hhist : out.filterMap (mark p) = [.finish mode e] := by
      rw [hout]
      simp [mark]
    rw [history_update hhist hmark]
    exact hkept
  · intro q b hb hq
    by_cases hqp : q = p
    · subst hqp
      exact hself b hb
    · rw [hpend] at hq
      exact h.settled q b ((hmem q hqp b).mp hb) (not_mem_of_erase_key h.kept.pendingNodup hqp hq)
  · intro q pdu hpdu _
    rw [hout] at hpdu
    exact absurd hpdu (by simp)
  · exact fun _ _ _ _ hev => absurd hev (by simp)
  · exact fun q hq => ⟨hmem q hq, hmark q hq⟩

theorem Invariant.completed (h : Invariant s log) (horderly : Orderly s (.completed p e)) :
    ∃ s' out, step s (.completed p e) = some (s', out) ∧ Invariant s' (log ++ [(.completed p e, out)]) ∧
      Stepped s s' log (.completed p e) out := by
  have hp : p ∈ s.pending.map Prod.fst := horderly
  obtain ⟨a, ha, hinfo, hlookup, hlife⟩ := h.running hp
  by_cases hfinal : a.mode.Final
  · obtain ⟨s', hfree, hkept, hpend, hmem⟩ := h.kept.answerFinal ha hp hfinal e
    have hmode : a.mode ≠ .reserve1 := by
      intro hmode
      rw [hmode] at hfinal
      exact absurd hfinal (by simp [Mode.Final])
    have hmode' : a.mode = .free ∨ a.mode = .undo ∨ a.mode = .commit := hfinal.imp_right Or.symm
    refine ⟨s', [.answered p a.mode e, .response a.sess a.transID e], ?_,
      h.answered hp hkept hpend (fun q hq b => by simp [hmem, hq]) ?_ rfl⟩
    · simp only [step, hlookup, Option.bind_eq_bind, Option.bind_some, handleSubagentSetResponse, hinfo, hmode,
        if_false, hmode', if_true, hfree]
    · exact fun b hb => absurd rfl ((hmem p b).mp hb).2
  · by_cases hnext : a.mode = .reserve1 ∧ e = PRIOT_ERR_NOERROR
    · obtain ⟨hmode, rfl⟩ := hnext
      exact h.answeredFirst ha hp hinfo hlookup hlife hmode
    · refine ⟨_, [.answered p a.mode e, .response a.sess a.transID e], ?_, h.answered hp (h.kept.answer ha hp hfinal e) rfl (fun q hq b => mem_setInfo_ne hq) ?_ rfl⟩
      · have hmode' : ¬ (a.mode = .free ∨ a.mode = .undo ∨ a.mode = .commit) := fun hm => hfinal (hm.imp_right Or.symm)
        by_cases hmode : a.mode = .reserve1
        · have he : e ≠ PRIOT_ERR_NOERROR := fun he => hnext ⟨hmode, he⟩
          simp only [step, hlookup, Option.bind_eq_bind, Option.bind_some, handleSubagentSetResponse, hinfo, hmode,
            if_true, he, if_false]
        · simp only [step, hlookup, Option.bind_eq_bind, Option.bind_some, handleSubagentSetResponse, hinfo, hmode,
            if_false, hmode']
      · intro b hb hb1
        obtain ⟨c, hc, rfl⟩ := mem_setInfo.mp hb
        obtain rfl := value_eq h.kept.nodup hc ha
        rw [if_pos rfl] at hb1 ⊢
        exact fun he => hnext ⟨hb1, Option.some.inj he⟩

theorem Invariant.step_spec (h : Invariant s log) (horderly : Orderly s ev) (hchecked : Checked s ev) :
    ∃ s' out, step s ev = some (s', out) ∧ Invariant s' (log ++ [(ev, out)]) ∧ Stepped s s' log ev out := by
  cases ev with
  | packet sess command transid vars =>
    obtain ⟨s', out, e, hinv⟩ := h.packet horderly hchecked
    exact ⟨s', out, congrArg some e, hinv⟩
  | completed p e => exact h.completed horderly

theorem invariant_fresh : Invariant (fresh : State V) [] := by
  refine ⟨⟨nodup_nil, ?_, List.Pairwise.nil, ?_, nodup_nil, ?_, ?_, ?_, fun _ _ => rfl, ?_⟩, ?_⟩
  · exact fun p hp => absurd hp not_mem_nil
  · exact fun p a ha => absurd ha not_mem_nil
  · exact fun p pdu hp => absurd hp not_mem_nil
  · exact fun p a ha => absurd ha not_mem_nil
  · exact fun p a ha => absurd ha not_mem_nil
  · exact fun p hp => absurd hp (Nat.not_lt_zero p)
  · exact fun p a ha => absurd ha not_mem_nil

/-- A first phase comes from a TestSet. -/
def FromTests (log : Log V) : Prop :=
  ∀ ev out, (ev, out) ∈ log → ∀ p pdu, .internal p pdu ∈ out → pdu.command = .reserve1 →
    ∃ sess, ev = .packet sess .testSet pdu.transid pdu.vars

/-! ## whole runs -/

/-- Every transaction keeps to the life cycle on the variables of its TestSet, and has a saved set until its last
phase has ended. -/
structure LifeCycle (s : State V) (log : Log V) : Prop where
  transactions : ∀ p, history log p = [] ∨ ∃ sess transid vars out,
    (.packet sess .testSet transid vars, out) ∈ log ∧ .internal p ⟨.reserve1, transid, vars⟩ ∈ out ∧
    Follows vars (history log p)
  saved : ∀ p, p ∈ s.sets.map Prod.fst ↔ history log p ≠ [] ∧ ¬ Ended (history log p)

theorem Life.start_mem {st : Stage} {h : List (Mark V)} (hl : Life vars st h) : .start .reserve1 vars ∈ h := by
  induction hl with
  | testSet => exact mem_cons_self
  | finish _ _ ih => exact mem_append_left _ ih
  | reserve2 _ ih => exact mem_append_left _ ih
  | commitSet _ ih => exact mem_append_left _ ih
  | cleanupFailed _ _ ih => exact mem_append_left _ ih
  | cleanupTested _ ih => exact mem_append_left _ ih
  | cleanupCommitted _ ih => exact mem_append_left _ ih
  | undoSet _ ih => exact mem_append_left _ ih

theorem Life.testSet_mem {st : Stage} (hl : Life vars st (history log p)) (htests : FromTests log) :
    ∃ sess transid out, (.packet sess .testSet transid vars, out) ∈ log ∧
      .internal p ⟨.reserve1, transid, vars⟩ ∈ out := by
  obtain ⟨o, ho, hmark⟩ := mem_filterMap.mp hl.start_mem
  obtain ⟨⟨ev, out⟩, hlog, ho⟩ := mem_flatMap.mp ho
  cases o with
  | internal q pdu =>
    by_cases hq : q = p
    · subst hq
      rw [mark, if_pos rfl] at hmark
      obtain ⟨hcommand, hvars⟩ := Mark.start.inj (Option.some.inj hmark)
      obtain ⟨sess, rfl⟩ := htests ev out hlog q pdu ho hcommand
      refine ⟨sess, pdu.transid, out, hvars ▸ hlog, ?_⟩
      rw [← hcommand, ← hvars]
      exact ho
    · rw [mark, if_neg hq] at hmark
      exact absurd hmark (by simp)
  | answered q mode e =>
    rw [mark] at hmark
    split at hmark <;> exact absurd hmark (by simp)
  | error _ _ _ => exact absurd hmark (by simp [mark])
  | response _ _ _ => exact absurd hmark (by simp [mark])

theorem Invariant.lifeCycle (h : Invariant s log) (htests : FromTests log) : LifeCycle s log := by
  have hlives : ∀ p, (p ∈ s.sets.map Prod.fst → ∃ vars st, Life vars st (history log p) ∧
      ∀ m e, m.Final → st ≠ .done m e) ∧
      (p ∉ s.sets.map Prod.fst → history log p = [] ∨
        ∃ vars m e, m.Final ∧ Life vars (.done m e) (history log p)) := by
    intro p
    constructor
    · intro hp
      obtain ⟨⟨p, a⟩, ha, rfl⟩ := mem_map.mp hp
      by_cases hpend : p ∈ s.pending.map Prod.fst
      · exact ⟨_, _, h.kept.running p a ha hpend, fun m e _ => by simp⟩
      · obtain ⟨e, -, hmode, hlife⟩ := h.kept.done p a ha hpend
        refine ⟨_, _, hlife, fun m e' hm heq => hmode ?_⟩
        rw [(Stage.done.inj heq).1]
        exact hm
    · intro hp
      rcases Nat.lt_or_ge p s.brk with hlt | hge
      · exact .inr (h.kept.gone p hlt hp)
      · exact .inl (h.kept.unused p hge)
  have hfollows : ∀ {p : Ptr} {vars : List V} {st : Stage}, Life vars st (history log p) →
      ∃ sess transid vars out, (.packet sess .testSet transid vars, out) ∈ log ∧
        .internal p ⟨.reserve1, transid, vars⟩ ∈ out ∧ Follows vars (history log p) := by
    intro p vars st hl
    obtain ⟨sess, transid, out, hlog, hout⟩ := hl.testSet_mem htests
    exact ⟨sess, transid, vars, out, hlog, hout, hl.follows⟩
  constructor
  · intro p
    by_cases hp : p ∈ s.sets.map Prod.fst
    · obtain ⟨vars, st, hl, -⟩ := (hlives p).1 hp
      exact .inr (hfollows hl)
    · exact ((hlives p).2 hp).imp_right fun ⟨_, _, _, _, hl⟩ => hfollows hl
  · intro p
    constructor
    · intro hp
      obtain ⟨vars, st, hl, hst⟩ := (hlives p).1 hp
      refine ⟨ne_nil_of_mem hl.start_mem, fun hended => ?_⟩
      obtain ⟨m, e, hm, heq⟩ := hl.ended_iff.mp hended
      exact hst m e hm heq
    · rintro ⟨hne, hnot⟩
      by_contra hp
      rcases (hlives p).2 hp with hnil | ⟨vars, m, e, hm, hl⟩
      · exact hne hnil
      · exact hnot (hl.ended_iff.mpr ⟨m, e, hm, rfl⟩)

theorem Reached.invariant (h : Reached (fun s ev => Orderly s ev ∧ Checked s ev) s log) :
    Invariant s log ∧ FromTests log := by
  induction h with
  | fresh => exact ⟨invariant_fresh, fun _ _ hmem => absurd hmem not_mem_nil⟩
  | step _ hC hstep ih =>
    obtain ⟨hinv, htests⟩ := ih
    obtain ⟨s', out, e, hinv', hstepped⟩ := hinv.step_spec hC.1 hC.2
    rw [hstep] at e
    obtain ⟨rfl, rfl⟩ := Prod.mk.inj (Option.some.inj e)
    refine ⟨hinv', fun ev out hmem => ?_⟩
    rcases mem_append.mp hmem with hmem | hmem
    · exact htests ev out hmem
    · obtain ⟨rfl, rfl⟩ := Prod.mk.inj (mem_singleton.mp hmem)
      exact hstepped.tests

/-- Runs in which the master goes on only from what has gone well keep to the life cycle, and every next event does
what it should to its own transaction and nothing to the others. -/
theorem set_keeps_life_cycle (h : Reached (fun s ev => Orderly s ev ∧ Checked s ev) s log) :
    LifeCycle s log ∧ ∀ ev, Orderly s ev → Checked s ev →
      ∃ s' out, step s ev = some (s', out) ∧ Stepped s s' log ev out := by
  obtain ⟨hinv, htests⟩ := h.invariant
  refine ⟨hinv.lifeCycle htests, fun ev horderly hchecked => ?_⟩
  obtain ⟨s', out, e, -, hstepped⟩ := hinv.step_spec horderly hchecked
  exact ⟨s', out, e, hstepped⟩

/-! ## a phase that has failed -/

/-- Session 1 tests transaction 7, and the second phase ends with `e`. -/
def afterTest : State Nat := ⟨[(0, ⟨7, 1, .reserve1, none, [5]⟩)], 1, [(0, ⟨.reserve1, 7, [5]⟩)]⟩

def afterFirst : State Nat :=
  ⟨[(0, ⟨7, 1, .reserve2, some PRIOT_ERR_NOERROR, [5]⟩)], 1, [(0, ⟨.reserve2, 7, [5]⟩)]⟩

def afterSecond (e : Int) : State Nat := ⟨[(0, ⟨7, 1, .reserve2, some e, [5]⟩)], 1, []⟩

def testedLog (e : Int) : Log Nat :=
  [(.packet 1 .testSet 7 [5], [.internal 0 ⟨.reserve1, 7, [5]⟩]),
    (.completed 0 PRIOT_ERR_NOERROR, [.answered 0 .reserve1 PRIOT_ERR_NOERROR, .internal 0 ⟨.reserve2, 7, [5]⟩]),
    (.completed 0 e, [.answered 0 .reserve2 e, .response 1 7 e])]

theorem reached_tested {C : State Nat → Event Nat → Prop} (h₁ : C fresh (.packet 1 .testSet 7 [5]))
    (h₂ : C afterTest (.completed 0 PRIOT_ERR_NOERROR)) (h₃ : C afterFirst (.completed 0 e)) :
    Reached C (afterSecond e) (testedLog e) := by
  have r₁ : Reached C afterTest _ := .step .fresh h₁ rfl
  have r₂ : Reached C afterFirst _ := .step r₁ h₂ rfl
  exact .step r₂ h₃ rfl

theorem orderly_tested : Orderly (fresh : State Nat) (.packet 1 .testSet 7 [5]) ∧
    Orderly afterTest (.completed 0 PRIOT_ERR_NOERROR) ∧ ∀ e, Orderly afterFirst (.completed 0 e) :=
  ⟨fun _ _ ha => absurd ha not_mem_nil, mem_singleton.mpr rfl, fun _ => mem_singleton.mpr rfl⟩

theorem set_keeps_life_cycle_tested : LifeCycle (afterSecond 0) (testedLog 0) ∧
    ∀ ev, Orderly (afterSecond 0) ev → Checked (afterSecond 0) ev →
      ∃ s' out, step (afterSecond 0) ev = some (s', out) ∧ Stepped (afterSecond 0) s' (testedLog 0) ev out :=
  set_keeps_life_cycle (reached_tested ⟨orderly_tested.1, trivial⟩ ⟨orderly_tested.2.1, trivial⟩
    ⟨orderly_tested.2.2 0, trivial⟩)

/-- The second phase has failed, and a CommitSet starts the third. -/
theorem set_not_life_cycle : ¬ ∀ (s : State Nat) log, Reached Orderly s log → LifeCycle s log := by
  intro h
  have hcommit : Orderly (afterSecond 10) (.packet 1 .commitSet 7 []) := fun _ _ _ _ _ => not_mem_nil
  have hreached := Reached.step (reached_tested orderly_tested.1 orderly_tested.2.1 (orderly_tested.2.2 10)) hcommit rfl
  rcases (h _ _ hreached).transactions 0 with hnil | ⟨_, _, vars, _, _, _, hfollows⟩
  · exact absurd hnil (cons_ne_nil _ _)
  · have hmem := (hfollows.action [.start .reserve1 [5], .finish .reserve1 0, .start .reserve2 [5],
      .finish .reserve2 10] [5] [] rfl).2
    simp [PRIOT_ERR_NOERROR] at hmem

end Priot.Subagent
