/-
# Sending notifications

A standard trap is to get the varbind with the enterprise if it has none. Whether the trap is a standard one is read
off the head of the caller's list; where that list begins with sysUpTime.0, this is the time. Sessions are numbers.
`NULL` values and subidentifiers behind a value are faults. The varbinds that are put in can be allocated.
-/
import Priot.Trap.Convert

namespace Priot.Trap

open Client Lib Octets Registry List

/-! ## the functions -/

def PRIOT_TRAP_AUTHFAIL : Int := 4

/-- `struct TrapSink`. -/
structure TrapSink where
  sesp : Nat
  pdutype : Nat
  deriving DecidableEq

/-- What the agent brings with it: its uptime and address, and whether `trap_enableauthentraps` says "disabled". -/
structure Agent where
  uptime : Nat
  address : List UInt8
  authentrapsDisabled : Bool
  trapSinks : List TrapSink

/-- What a call passes on: the PDUs for the sinks, and those for the callbacks `SEND_TRAP1` and `SEND_TRAP2`. -/
structure Sent where
  result : Int
  sinks : List (TrapSink × Pdu)
  trap1 : Option Pdu
  trap2 : Option Pdu

def rejected : Sent := ⟨-1, [], none, none⟩

def pduCreate (command : Nat) : Pdu := ⟨command, 0, 0, 0, [], [0, 0, 0, 0], none, []⟩

/-- A PDU, or `NULL`. -/
def orNull : Except Stop Pdu → Except Stop (Option Pdu)
  | .ok pdu => .ok (some pdu)
  | .error .null => .ok none
  | .error .fault => .error .fault

/-- What `Trap_sendTraps` does with the two PDUs. The one for v2 keeps the type that its last sink wants. -/
def deliver (agent : Agent) (v1 v2 : Option Pdu) : Sent :=
  if agent.authentrapsDisabled = true ∧ (∃ pdu ∈ v1, pdu.trapType = PRIOT_TRAP_AUTHFAIL) then ⟨0, [], none, none⟩
  else
    { result := 0
      sinks := v2.toList.flatMap fun pdu => agent.trapSinks.map fun sink => (sink, { pdu with command := sink.pdutype })
      trap1 := v1.map fun pdu => { pdu with agentAddr := agent.address }
      trap2 := v2.map fun pdu =>
        { pdu with command := (agent.trapSinks.getLast?.map TrapSink.pdutype).getD pdu.command } }

/-- `Trap_sendTraps` with a varbind list that says which trap it is. -/
def sendNotification (agent : Agent) (behind : Nat → UInt8) (enterprise : ObjId) : List VarBind → Except Stop Sent
  | [] => .ok rejected
  | head :: tail =>
    let own := decide (oidCompare head.name sysuptimeOid = .eq)
    let vars := if own = true then head :: tail else uptimeVarbind agent.uptime :: head :: tail
    match (if own = true then tail.head? else some head) with
    | none => .ok rejected
    | some trapVb =>
      if oidCompare trapVb.name priotTrapOid ≠ .eq then .ok rejected
      else do
        let objectId ← deref head.value
        let standard ← startsWith trapPrefix (leWords objectId)
        let vars := appendMissing vars standard (enterpriseVarbind enterprise)
        let v2 := { pduCreate PRIOT_MSG_TRAP2 with varbinds := vars }
        let v1 ← orNull (convertV2pduToV1 behind v2)
        .ok (deliver agent v1 (some v2))

/-- `Trap_sendTraps` with a trap type. -/
def sendTrap (agent : Agent) (trap specific : Int) (enterprise : ObjId) (vblist : List VarBind) : Except Stop Sent := do
  let v1 := { pduCreate PRIOT_MSG_TRAP with
    trapType := trap
    specificType := specific
    time := agent.uptime
    enterprise := enterprise
    varbinds := vblist }
  let v2 ← orNull (convertV1pduToV2 v1)
  .ok (deliver agent (some v1) v2)

def sendTraps (agent : Agent) (behind : Nat → UInt8) (trap specific : Int) (enterprise : ObjId) (vars : List VarBind) :
    Except Stop Sent :=
  let vblist := vars.take 10000
  if trap = -1 then sendNotification agent behind enterprise vblist
  else sendTrap agent trap specific enterprise vblist

/-! ## what is asked of a call -/

/-- A call with trap -1, or with a generic or enterprise-specific trap. -/
structure Call where
  trap : Int
  specific : Int
  enterprise : ObjId
  vars : List VarBind
  trap_range : -1 ≤ trap ∧ trap ≤ PRIOT_TRAP_ENTERPRISESPECIFIC

/-- A list that begins with snmpTrapOID.0. -/
def splitTrap (front : Option VarBind) : List VarBind → Option (Option VarBind × VarBind × List VarBind)
  | [] => none
  | trap :: rest => if trap.name = priotTrapOid then some (front, trap, rest) else none

/-- A list taken apart: sysUpTime.0 if it is there, snmpTrapOID.0 and the other varbinds. -/
def split : List VarBind → Option (Option VarBind × VarBind × List VarBind)
  | [] => none
  | head :: tail => if head.name = sysuptimeOid then splitTrap (some head) tail else splitTrap none (head :: tail)

def enterprises (l : List VarBind) : List VarBind := l.filter fun var => var.name = priottrapenterpriseOid

/-- The value is one of the standard traps, from coldStart to egpNeighborLoss. -/
def StandardTrap (var : VarBind) : Prop :=
  ∃ v : Oid, 1 ≤ v ∧ v ≤ 6 ∧ var.value = some (wordOctets (trapPrefix ++ [v]))

/-- sysUpTime.0, snmpTrapOID.0 and then the caller's varbinds, with one enterprise if the trap is a standard one. -/
def IsCanonical (rest varbinds : List VarBind) : Prop :=
  ∃ uptime trap more, varbinds = uptime :: trap :: (rest ++ more) ∧ uptime.name = sysuptimeOid ∧
    trap.name = priotTrapOid ∧ (StandardTrap trap → (enterprises varbinds).length = 1)

namespace Call

variable (call : Call) (agent : Agent) (behind : Nat → UInt8)

def send : Except Stop Sent := sendTraps agent behind call.trap call.specific call.enterprise call.vars

/-- The caller's varbinds that are not yet at their place in front. -/
def remaining : List VarBind :=
  if call.trap = -1 then (split call.vars).elim [] fun parts => parts.2.2 else call.vars

/-- The trap is an authentication failure. -/
def AuthFail : Prop :=
  call.trap = PRIOT_TRAP_AUTHFAIL ∨
    (call.trap = -1 ∧ ∃ parts octets, split call.vars = some parts ∧ parts.2.1.value = some octets ∧
      trapPrefix ++ [5] <+: leWords octets)

/-- The call comes to an end; what it passes on is canonical, and it passes it to each sink and to the callback, unless
it has rejected the list or the trap is an authentication failure and these are disabled. -/
def CanonicallySent : Prop :=
  ∃ sent, call.send agent behind = .ok sent ∧
    (∀ pdu ∈ sent.sinks.map Prod.snd ++ sent.trap2.toList, IsCanonical call.remaining pdu.varbinds) ∧
    (sent.result = 0 → ¬ (agent.authentrapsDisabled = true ∧ call.AuthFail) →
      sent.sinks.map Prod.fst = agent.trapSinks ∧ sent.trap2.isSome = true)

end Call

/-! ## the condition -/

/-- The conversion to v1 reads nothing that is not there: it stops before, or the value of snmpTrapOID.0 goes on behind
the prefix and the agent's address has a value. -/
def Readable (trap : VarBind) (seen : List VarBind) : Prop :=
  (∃ var ∈ seen, var.type = asnCOUNTER64) ∨
    ∃ octets, trap.value = some octets ∧ ¬ leWords octets <+: trapPrefix ∧
      (ShortTrapOid (leWords octets) ∨ ∀ var, findVarbindInList seen agentaddrOid = some var → var.value ≠ none)

/-- The notification becomes an authentication failure in v1. -/
def BecomesAuthFail (trap : VarBind) (seen : List VarBind) : Prop :=
  (∀ var ∈ seen, var.type ≠ asnCOUNTER64) ∧
    ∃ octets, trap.value = some octets ∧ trapPrefix ++ [5] <+: leWords octets

namespace Call

variable (call : Call) (agent : Agent)

/-- What a clone of the caller's list holds, and what it does not. -/
def kept : List VarBind := call.vars.take 10000

def cutOff : List VarBind := call.vars.drop 10000

/-- The enterprise is appended: there is none, and the trap is given by a type or the value at the head of the list
begins like a standard trap. -/
def Appended : Prop :=
  (∀ var ∈ call.kept, var.name ≠ priottrapenterpriseOid) ∧
    (call.trap = -1 → ∃ parts octets, split call.kept = some parts ∧ (parts.1.getD parts.2.1).value = some octets ∧
      trapPrefix <+: leWords octets)

/-- Nothing is cut off, except for a varbind that is appended anyhow. -/
def Whole : Prop :=
  call.cutOff = [] ∨ (call.Appended ∧ call.cutOff = [enterpriseVarbind call.enterprise])

def OneEnterprise : Prop := (enterprises call.kept).length = 1 ∨ call.Appended

/-- A notification is read without a fault, and nothing is lost if it is sent. -/
def GoodNotification (parts : Option VarBind × VarBind × List VarBind) : Prop :=
  (∃ octets, (parts.1.getD parts.2.1).value = some octets ∧
      (leWords octets <+: trapPrefix → leWords octets = trapPrefix)) ∧
    Readable parts.2.1 (parts.2.2.take 9998) ∧
    ((agent.authentrapsDisabled = true ∧ BecomesAuthFail parts.2.1 (parts.2.2.take 9998)) ∨
      (call.Whole ∧ (StandardTrap parts.2.1 → call.OneEnterprise)))

def Good : Prop :=
  if call.trap = -1 then ∀ parts, split call.kept = some parts → call.GoodNotification agent parts
  else
    (agent.authentrapsDisabled = true ∧ call.trap = PRIOT_TRAP_AUTHFAIL) ∨
      ((call.trap = PRIOT_TRAP_ENTERPRISESPECIFIC → call.enterprise.length + 2 ≤ TYPES_MAX_OID_LEN) ∧ call.Whole ∧
        (call.trap ≠ PRIOT_TRAP_ENTERPRISESPECIFIC → call.OneEnterprise))

end Call

/-! ## what is passed on -/

variable {agent : Agent} {behind : Nat → UInt8} {call : Call} {v1 : Option Pdu} {p : Pdu}
  {uptime trap : VarBind} {l m rest tail : List VarBind} {front : Option VarBind}

theorem canonical_of_rejected (h : call.send agent behind = .ok rejected) : call.CanonicallySent agent behind := by
  refine ⟨rejected, h, ?_, ?_⟩
  · intro pdu hpdu
    exact absurd hpdu not_mem_nil
  · intro hresult
    exact absurd hresult (by decide)

theorem not_canonical_of_fault (h : call.send agent behind = .error .fault) : ¬ call.CanonicallySent agent behind := by
  rintro ⟨sent, hsent, _⟩
  rw [h] at hsent
  cases hsent

theorem canonicallySent_iff_deliver (hsend : call.send agent behind = .ok (deliver agent v1 (some p)))
    (hauth : (∃ pdu ∈ v1, pdu.trapType = PRIOT_TRAP_AUTHFAIL) → call.AuthFail) : call.CanonicallySent agent behind ↔
      (agent.authentrapsDisabled = true ∧ ∃ pdu ∈ v1, pdu.trapType = PRIOT_TRAP_AUTHFAIL) ∨
        IsCanonical call.remaining p.varbinds := by
  by_cases hheld : agent.authentrapsDisabled = true ∧ ∃ pdu ∈ v1, pdu.trapType = PRIOT_TRAP_AUTHFAIL
  · rw [deliver, if_pos hheld] at hsend
    refine iff_of_true ⟨_, hsend, ?_, ?_⟩ (Or.inl hheld)
    · intro pdu hpdu
      exact absurd hpdu not_mem_nil
    · intro _ hopen
      exact absurd ⟨hheld.1, hauth hheld.2⟩ hopen
  · rw [deliver, if_neg hheld] at hsend
    rw [or_iff_right hheld]
    constructor
    · rintro ⟨sent, hsent, hall, _⟩
      rw [hsend, Except.ok.injEq] at hsent
      subst hsent
      have hlast := hall _ (mem_append_right _ (mem_singleton_self _))
      exact hlast
    · intro hcanonical
      refine ⟨_, hsend, ?_, ?_⟩
      · intro pdu hpdu
        have hvarbinds : pdu.varbinds = p.varbinds := by
          simp only [Option.toList_some, flatMap_cons, flatMap_nil, append_nil, map_map,
            Option.map_some, mem_append, mem_map, mem_singleton] at hpdu
          rcases hpdu with ⟨sink, _, rfl⟩ | rfl
          · rfl
          · rfl
        rw [hvarbinds]
        exact hcanonical
      · intro _ _
        simp only [Option.toList_some, flatMap_cons, flatMap_nil, append_nil, map_map,
          Option.map_some, Option.isSome_some, and_true]
        exact map_id _

theorem enterprises_cons_of_ne (h : trap.name ≠ priottrapenterpriseOid) : enterprises (trap :: l) = enterprises l := by
  rw [enterprises, filter_cons_of_neg (by simpa using h), enterprises]

theorem enterprises_append (l m : List VarBind) : enterprises (l ++ m) = enterprises l ++ enterprises m :=
  filter_append ..

theorem enterprises_eq_nil (h : ∀ var ∈ l, var.name ≠ priottrapenterpriseOid) : enterprises l = [] := by
  rw [enterprises, filter_eq_nil_iff]
  intro var hvar
  simpa using h var hvar

theorem sysuptime_ne (h : uptime.name = sysuptimeOid) : uptime.name ≠ priottrapenterpriseOid := by
  rw [h]
  decide

theorem trapOid_ne (h : trap.name = priotTrapOid) : trap.name ≠ priottrapenterpriseOid := by
  rw [h]
  decide

theorem isCanonical_iff (hup : uptime.name = sysuptimeOid) (htrap : trap.name = priotTrapOid) :
    IsCanonical rest (uptime :: trap :: tail) ↔
      rest <+: tail ∧ (StandardTrap trap → (enterprises tail).length = 1) := by
  constructor
  · rintro ⟨_, _, more, heq, _, _, hone⟩
    cases heq
    rw [enterprises_cons_of_ne (sysuptime_ne hup), enterprises_cons_of_ne (trapOid_ne htrap)] at hone
    exact ⟨prefix_append rest more, hone⟩
  · rintro ⟨⟨more, hmore⟩, hone⟩
    refine ⟨uptime, trap, more, by rw [hmore], hup, htrap, ?_⟩
    rw [enterprises_cons_of_ne (sysuptime_ne hup), enterprises_cons_of_ne (trapOid_ne htrap)]
    exact hone

/-- What is behind the caller's varbinds is the enterprise, where it is appended. -/
def Call.Adds (call : Call) (m : List VarBind) : Prop :=
  (call.Appended ∧ m = [enterpriseVarbind call.enterprise]) ∨ (¬ call.Appended ∧ m = [])

theorem Call.Adds.cutOff_prefix_iff (h : call.Adds m) : call.cutOff <+: m ↔ call.Whole := by
  rw [Call.Whole]
  rcases h with ⟨happended, rfl⟩ | ⟨hnot, rfl⟩
  · rw [and_iff_right happended, prefix_cons_iff]
    constructor
    · rintro (h | ⟨t, ht, hnil⟩)
      · exact Or.inl h
      · rw [prefix_nil] at hnil
        rw [hnil] at ht
        exact Or.inr ht
    · rintro (h | h)
      · exact Or.inl h
      · exact Or.inr ⟨[], h, nil_prefix⟩
  · rw [prefix_nil]
    exact (or_iff_left fun h => hnot h.1).symm

theorem Call.Adds.length_enterprises (h : call.Adds m) (hl : enterprises l = enterprises call.kept) :
    (enterprises (l ++ m)).length = 1 ↔ call.OneEnterprise := by
  rw [enterprises_append, hl, length_append, Call.OneEnterprise]
  rcases h with ⟨happended, rfl⟩ | ⟨hnot, rfl⟩
  · have hone : (enterprises [enterpriseVarbind call.enterprise]).length = 1 := by
      rw [enterprises, filter_cons_of_pos (by simp [enterpriseVarbind])]
      rfl
    rw [enterprises_eq_nil happended.1, hone]
    exact iff_of_true rfl (Or.inr happended)
  · rw [or_iff_left hnot]
    rfl

theorem isCanonical_append_iff (hup : uptime.name = sysuptimeOid) (htrap : trap.name = priotTrapOid)
    (hrest : call.remaining = l ++ call.cutOff) (hadds : call.Adds m) (hl : enterprises l = enterprises call.kept) :
    IsCanonical call.remaining (uptime :: trap :: (l ++ m)) ↔
      call.Whole ∧ (StandardTrap trap → call.OneEnterprise) := by
  rw [isCanonical_iff hup htrap, hrest, prefix_append_right_inj, hadds.cutOff_prefix_iff,
    hadds.length_enterprises hl]

/-! ## calls with a trap type -/

theorem orNull_ok (x : Pdu) : orNull (.ok x) = .ok (some x) := rfl

theorem appendMissing_unwanted (l : List VarBind) (var : VarBind) : appendMissing l false var = l :=
  if_neg fun h => absurd h.2 Bool.false_ne_true

theorem find_eq_none_iff {name : ObjId} : findVarbindInList l name = none ↔ ∀ var ∈ l, var.name ≠ name := by
  constructor
  · intro h var hvar hname
    rw [findVarbindInList, find?_eq_none] at h
    exact h var hvar (decide_eq_true (oidCompare_eq_iff.2 hname))
  · exact find_absent

/-- What is appended to a list that is to have an enterprise. -/
def missingEnterprise (l : List VarBind) (wanted : Bool) (enterprise : ObjId) : List VarBind :=
  if (∀ var ∈ l, var.name ≠ priottrapenterpriseOid) ∧ wanted = true then [enterpriseVarbind enterprise] else []

theorem appendMissing_enterprise (wanted : Bool) (hup : uptime.name ≠ priottrapenterpriseOid)
    (htrap : trap.name ≠ priottrapenterpriseOid) (enterprise : ObjId) :
    appendMissing (uptime :: trap :: l) wanted (enterpriseVarbind enterprise) =
      uptime :: trap :: (l ++ missingEnterprise l wanted enterprise) := by
  have hiff : findVarbindInList (uptime :: trap :: l) priottrapenterpriseOid = none ↔
      ∀ var ∈ l, var.name ≠ priottrapenterpriseOid := by
    rw [find_cons_of_ne hup, find_cons_of_ne htrap, find_eq_none_iff]
  have hname : (enterpriseVarbind enterprise).name = priottrapenterpriseOid := rfl
  simp only [appendMissing, hname, hiff, missingEnterprise]
  split
  · rfl
  · rw [append_nil]

theorem wordOctets_inj {o o' : ObjId} (h : wordOctets o = wordOctets o') : o = o' := by
  rw [← leWords_wordOctets o, h, leWords_wordOctets]

theorem standardTrap_iff {o : ObjId} (htype : 0 ≤ p.trapType ∧ p.trapType ≤ PRIOT_TRAP_ENTERPRISESPECIFIC)
    (h : trapOid p = .ok o) : StandardTrap (trapVarbind o) ↔ p.trapType ≠ PRIOT_TRAP_ENTERPRISESPECIFIC := by
  by_cases hspecific : p.trapType = PRIOT_TRAP_ENTERPRISESPECIFIC
  · refine iff_of_false ?_ (not_not.2 hspecific)
    rintro ⟨v, _, _, hv⟩
    rw [trapOid, if_pos hspecific] at h
    split at h
    · cases h
      rw [trapVarbind, Option.some.injEq] at hv
      have heq := wordOctets_inj hv
      have hlength : p.enterprise.length = 8 := by
        have hlengths := congrArg List.length heq
        rw [length_append, length_append] at hlengths
        simp only [trapPrefix, length_cons, length_nil] at hlengths
        omega
      -- a 0 stands where the prefix has its last subidentifier
      have hzero : (p.enterprise ++ [0, Mib.oidOfLong p.specificType])[8]? = (trapPrefix ++ [v])[8]? := by rw [heq]
      rw [getElem?_append_right (by omega), hlength] at hzero
      exact absurd hzero (by simp [trapPrefix])
    · cases h
  · refine iff_of_true ?_ hspecific
    rw [trapOid, if_neg hspecific, Except.ok.injEq] at h
    subst h
    rw [PRIOT_TRAP_ENTERPRISESPECIFIC] at htype hspecific
    have hcases : p.trapType = 0 ∨ p.trapType = 1 ∨ p.trapType = 2 ∨ p.trapType = 3 ∨ p.trapType = 4 ∨
        p.trapType = 5 := by omega
    refine ⟨Mib.oidOfLong (p.trapType + 1), ?_, ?_, rfl⟩
    · rcases hcases with h | h | h | h | h | h <;> rw [h] <;> decide
    · rcases hcases with h | h | h | h | h | h <;> rw [h] <;> decide

/-- The v1 trap that a call builds. -/
def Call.v1Pdu (call : Call) (agent : Agent) : Pdu :=
  { pduCreate PRIOT_MSG_TRAP with
    trapType := call.trap
    specificType := call.specific
    time := agent.uptime
    enterprise := call.enterprise
    varbinds := call.kept }

theorem Call.kept_take (call : Call) : call.kept.take 10000 = call.kept := by
  rw [Call.kept, take_take, Nat.min_self]

theorem Call.kept_append (call : Call) : call.kept ++ call.cutOff = call.vars := take_append_drop 10000 call.vars

theorem convert_v1Pdu {o : ObjId} (h : trapOid (call.v1Pdu agent) = .ok o) :
    convertV1pduToV2 (call.v1Pdu agent) = .ok { call.v1Pdu agent with
      command := PRIOT_MSG_TRAP2
      varbinds := uptimeVarbind agent.uptime :: trapVarbind o ::
        (call.kept ++ missingEnterprise call.kept true call.enterprise) } := by
  have hagent : ((call.v1Pdu agent).agentAddr.any (· ≠ 0)) = false := rfl
  have hcommunity : (call.v1Pdu agent).community.isSome = false := rfl
  have hvars : (clonePdu (call.v1Pdu agent)).varbinds = call.kept := call.kept_take
  rw [convertV1pduToV2, h, ok_bind, hvars, hagent, hcommunity]
  simp only [appendMissing_unwanted]
  rw [appendMissing_enterprise true (sysuptime_ne rfl) (trapOid_ne rfl)]
  rfl

theorem adds_of_type (h : call.trap ≠ -1) : call.Adds (missingEnterprise call.kept true call.enterprise) := by
  have happended : call.Appended ↔ (∀ var ∈ call.kept, var.name ≠ priottrapenterpriseOid) ∧ true = true :=
    ⟨fun ha => ⟨ha.1, rfl⟩, fun ha => ⟨ha.1, fun htrap => absurd htrap h⟩⟩
  rw [Call.Adds, happended, missingEnterprise]
  split
  · rename_i ha
    exact Or.inl ⟨ha, rfl⟩
  · rename_i ha
    exact Or.inr ⟨ha, rfl⟩

theorem sendTrap_iff (h : call.trap ≠ -1) : call.CanonicallySent agent behind ↔ call.Good agent := by
  have hrange : 0 ≤ (call.v1Pdu agent).trapType ∧ (call.v1Pdu agent).trapType ≤ PRIOT_TRAP_ENTERPRISESPECIFIC := by
    have hcall := call.trap_range
    refine ⟨?_, hcall.2⟩
    change 0 ≤ call.trap
    omega
  have hsend : call.send agent behind =
      (do
        let v2 ← orNull (convertV1pduToV2 (call.v1Pdu agent))
        Except.ok (deliver agent (some (call.v1Pdu agent)) v2)) := by
    rw [Call.send, sendTraps, if_neg h]
    rfl
  have hauth : (∃ pdu ∈ some (call.v1Pdu agent), pdu.trapType = PRIOT_TRAP_AUTHFAIL) ↔
      call.trap = PRIOT_TRAP_AUTHFAIL := by
    constructor
    · rintro ⟨pdu, hpdu, htype⟩
      cases hpdu
      exact htype
    · intro htype
      exact ⟨_, rfl, htype⟩
  rw [Call.Good, if_neg h]
  cases hoid : trapOid (call.v1Pdu agent) with
  | error x =>
    -- an enterprise that does not fit into the array
    have hlong : call.trap = PRIOT_TRAP_ENTERPRISESPECIFIC ∧ ¬ call.enterprise.length + 2 ≤ TYPES_MAX_OID_LEN ∧
        x = .fault := by
      rw [trapOid] at hoid
      split at hoid
      · rename_i hspecific
        split at hoid
        · cases hoid
        · rename_i hlength
          cases hoid
          exact ⟨hspecific, hlength, rfl⟩
      · cases hoid
    obtain ⟨hspecific, hlength, rfl⟩ := hlong
    have hfault : call.send agent behind = .error .fault := by
      rw [hsend, convertV1pduToV2, hoid]
      rfl
    refine iff_of_false (not_canonical_of_fault hfault) ?_
    rintro (⟨_, hfour⟩ | ⟨hfits, _⟩)
    · rw [hspecific] at hfour
      exact absurd hfour (by decide)
    · exact hlength (hfits hspecific)
  | ok o =>
    rw [convert_v1Pdu hoid, orNull_ok, ok_bind] at hsend
    -- an enterprise that has been appended to had the room
    have hfits : call.trap = PRIOT_TRAP_ENTERPRISESPECIFIC → call.enterprise.length + 2 ≤ TYPES_MAX_OID_LEN := by
      intro hspecific
      by_contra hlength
      have htype : (call.v1Pdu agent).trapType = PRIOT_TRAP_ENTERPRISESPECIFIC := hspecific
      have hpdu : ¬ (call.v1Pdu agent).enterprise.length + 2 ≤ TYPES_MAX_OID_LEN := hlength
      rw [trapOid, if_pos htype, if_neg hpdu] at hoid
      cases hoid
    have hremaining : call.remaining = call.kept ++ call.cutOff := by
      rw [Call.remaining, if_neg h, call.kept_append]
    rw [canonicallySent_iff_deliver hsend (fun hfour => Or.inl (hauth.1 hfour)), hauth, and_iff_right hfits]
    simp only
    rw [isCanonical_append_iff rfl rfl hremaining (adds_of_type h) rfl, standardTrap_iff hrange hoid]
    rfl

/-! ## lists that say which trap it is -/

theorem splitTrap_some {front' : Option VarBind} (h : splitTrap front' l = some (front, trap, rest)) :
    front = front' ∧ l = trap :: rest ∧ trap.name = priotTrapOid := by
  cases l with
  | nil => cases h
  | cons head tail =>
    rw [splitTrap] at h
    split at h
    · rename_i hhead
      cases h
      exact ⟨rfl, rfl, hhead⟩
    · cases h

theorem split_some (h : split l = some (front, trap, rest)) :
    l = front.toList ++ trap :: rest ∧ trap.name = priotTrapOid ∧ ∀ up ∈ front, up.name = sysuptimeOid := by
  cases l with
  | nil => cases h
  | cons head tail =>
    rw [Trap.split] at h
    split at h
    · rename_i hhead
      obtain ⟨rfl, rfl, htrap⟩ := splitTrap_some h
      refine ⟨rfl, htrap, ?_⟩
      intro up hup
      cases hup
      exact hhead
    · obtain ⟨rfl, hlist, htrap⟩ := splitTrap_some h
      exact ⟨hlist, htrap, fun up hup => absurd hup (Option.not_mem_none up)⟩

theorem split_append (h : split l = some (front, trap, rest)) (m : List VarBind) :
    split (l ++ m) = some (front, trap, rest ++ m) := by
  obtain ⟨rfl, htrap, hfront⟩ := split_some h
  cases front with
  | none =>
    have hne : ¬ trap.name = sysuptimeOid := by
      rw [htrap]
      decide
    simp only [Option.toList_none, nil_append, cons_append, Trap.split, if_neg hne, splitTrap, if_pos htrap]
  | some up =>
    have hup : up.name = sysuptimeOid := hfront up rfl
    simp only [Option.toList_some, cons_append, nil_append, Trap.split, if_pos hup, splitTrap, if_pos htrap]

theorem sendNotification_rejected (h : split l = none) (enterprise : ObjId) :
    sendNotification agent behind enterprise l = .ok rejected := by
  cases l with
  | nil => rfl
  | cons head tail =>
    rw [Trap.split] at h
    simp only [sendNotification, oidCompare_eq_iff]
    by_cases hhead : head.name = sysuptimeOid
    · rw [if_pos hhead] at h
      cases tail with
      | nil => simp [hhead]
      | cons second tail =>
        have hsecond : second.name ≠ priotTrapOid := by
          intro hname
          rw [splitTrap, if_pos hname] at h
          cases h
        simp [hhead, oidCompare_eq_iff, hsecond]
    · rw [if_neg hhead] at h
      have hname : head.name ≠ priotTrapOid := by
        intro hname
        rw [splitTrap, if_pos hname] at h
        cases h
      simp [hhead, oidCompare_eq_iff, hname]

theorem sendNotification_eq (h : split l = some (front, trap, rest)) (enterprise : ObjId) :
    sendNotification agent behind enterprise l = (do
      let objectId ← deref (front.getD trap).value
      let standard ← startsWith trapPrefix (leWords objectId)
      let v2 := { pduCreate PRIOT_MSG_TRAP2 with
        varbinds := appendMissing (front.getD (uptimeVarbind agent.uptime) :: trap :: rest) standard
          (enterpriseVarbind enterprise) }
      let v1 ← orNull (convertV2pduToV1 behind v2)
      Except.ok (deliver agent v1 (some v2))) := by
  obtain ⟨rfl, htrap, hfront⟩ := split_some h
  have hnot : ¬ oidCompare trap.name priotTrapOid ≠ .eq := not_not.2 (oidCompare_eq_iff.2 htrap)
  cases front with
  | none =>
    -- no sysUpTime.0 of its own stands in front
    have hown : decide (oidCompare trap.name sysuptimeOid = .eq) = false := by
      apply decide_eq_false
      rw [oidCompare_eq_iff, htrap]
      decide
    simp only [Option.toList_none, nil_append, sendNotification, hown, Bool.false_eq_true, if_false, if_neg hnot,
      Option.getD_none]
  | some up =>
    have hown : decide (oidCompare up.name sysuptimeOid = .eq) = true :=
      decide_eq_true (oidCompare_eq_iff.2 (hfront up rfl))
    simp only [Option.toList_some, cons_append, nil_append, sendNotification, hown, if_true, head?_cons,
      if_neg hnot, Option.getD_some]

theorem type_authFail_iff {o : ObjId} {identity : Int × Int × ObjId}
    (h : (∃ v, trapPrefix ++ [v] <+: o ∧ identity.1 = (v - 1).toNat) ∨
      (¬ trapPrefix <+: o ∧ identity.1 = PRIOT_TRAP_ENTERPRISESPECIFIC)) :
    identity.1 = PRIOT_TRAP_AUTHFAIL ↔ trapPrefix ++ [5] <+: o := by
  rcases h with ⟨v, hv, hidentity⟩ | ⟨hbegins, hidentity⟩
  · have hpred : ((v - 1).toNat : Int) = PRIOT_TRAP_AUTHFAIL ↔ v = 5 := by
      constructor
      · intro hfour
        -- an authentication failure has the type 4, and the OID ends in 5
        have hnat : (v - 1).toNat = (4 : UInt32).toNat := by
          rw [PRIOT_TRAP_AUTHFAIL] at hfour
          exact_mod_cast hfour
        have hfive : v - 1 = 4 := UInt32.toNat_inj.1 hnat
        rw [← UInt32.sub_add_cancel v 1, hfive]
        rfl
      · rintro rfl
        decide
    rw [hidentity, hpred]
    constructor
    · rintro rfl
      exact hv
    · intro hfive
      have hlength : (trapPrefix ++ [v]).length = (trapPrefix ++ [5]).length := rfl
      have hsame := prefix_of_prefix_length_le hv hfive hlength.le
      rw [prefix_append_right_inj, cons_prefix_cons] at hsame
      exact hsame.1
  · rw [hidentity]
    refine iff_of_false (by decide) ?_
    intro hfive
    exact hbegins ((prefix_append trapPrefix [5]).trans hfive)

theorem orNull_convert_cases (behind : Nat → UInt8) {ticks : List UInt8}
    (hvars : p.varbinds.take 10000 = uptime :: trap :: tail)
    (hup : uptime.name = sysuptimeOid) (hticks : uptime.value = some ticks) (htrap : trap.name = priotTrapOid) :
    (¬ Readable trap tail ∧ orNull (convertV2pduToV1 behind p) = .error .fault) ∨
      (Readable trap tail ∧ ∃ v1, orNull (convertV2pduToV1 behind p) = .ok v1 ∧
        ((∃ pdu ∈ v1, pdu.trapType = PRIOT_TRAP_AUTHFAIL) ↔ BecomesAuthFail trap tail)) := by
  have hnull : ¬ ∃ pdu ∈ (none : Option Pdu), pdu.trapType = PRIOT_TRAP_AUTHFAIL := by
    rintro ⟨pdu, hpdu, _⟩
    cases hpdu
  have hfind : findVarbindInList (trap :: tail) agentaddrOid = findVarbindInList tail agentaddrOid := by
    apply find_cons_of_ne
    rw [htrap]
    decide
  unfold convertV2pduToV1 clonePdu
  simp only [hvars, reject_of_not (not_not.2 (oidCompare_eq_iff.2 hup)),
    reject_of_not (not_not.2 (oidCompare_eq_iff.2 htrap)), ok_bind, hticks, deref]
  by_cases hcounter : ∃ var ∈ tail, var.type = asnCOUNTER64
  · right
    simp only [reject_of hcounter, error_bind]
    refine ⟨Or.inl hcounter, none, rfl, iff_of_false hnull ?_⟩
    intro h
    obtain ⟨var, hvar, htype⟩ := hcounter
    exact h.1 var hvar htype
  have hcarriable : ∀ var ∈ tail, var.type ≠ asnCOUNTER64 := fun var hvar htype => hcounter ⟨var, hvar, htype⟩
  simp only [reject_of_not hcounter, ok_bind]
  cases hvalue : trap.value with
  | none =>
    refine Or.inl ⟨?_, rfl⟩
    rintro (h | ⟨octets, hoctets, _⟩)
    · exact hcounter h
    · rw [hvalue] at hoctets
      cases hoctets
  | some octets =>
    -- from here on it is the value of snmpTrapOID.0 that decides
    have hreadable : Readable trap tail ↔ ¬ leWords octets <+: trapPrefix ∧ (ShortTrapOid (leWords octets) ∨
        ¬ ∃ var, findVarbindInList (trap :: tail) agentaddrOid = some var ∧ var.value = none) := by
      rw [Readable, or_iff_right hcounter, hvalue, hfind]
      simp only [Option.some.injEq, exists_eq_left', not_exists, not_and, ne_eq]
    have hauth : BecomesAuthFail trap tail ↔ trapPrefix ++ [5] <+: leWords octets := by
      rw [BecomesAuthFail, and_iff_right hcarriable, hvalue]
      simp only [Option.some.injEq, exists_eq_left']
    rw [hreadable, hauth]
    simp only [ok_bind]
    rcases trapIdentity_cases (trap :: tail) (leWords octets) with
      ⟨hshort, heq⟩ | ⟨hshort, hlong, heq⟩ | ⟨hshort, hlong, identity, heq, htype⟩
    · rw [heq, error_bind]
      exact Or.inl ⟨fun h => h.1 hshort, rfl⟩
    · rw [heq, error_bind]
      refine Or.inr ⟨⟨hlong, Or.inl hshort⟩, none, rfl, iff_of_false hnull ?_⟩
      intro hfive
      exact hshort.1 ((prefix_append trapPrefix [5]).trans hfive)
    · rw [heq, ok_bind]
      rcases agentAddress_cases behind (trap :: tail) p.agentAddr with ⟨haddr, hfault⟩ | ⟨haddr, addr, hok⟩
      · rw [hfault, error_bind]
        refine Or.inl ⟨?_, rfl⟩
        rintro ⟨_, h | h⟩
        · exact hshort h
        · exact h haddr
      · rw [hok, ok_bind]
        refine Or.inr ⟨⟨hlong, Or.inr haddr⟩, _, rfl, ?_⟩
        rw [← type_authFail_iff htype]
        constructor
        · rintro ⟨pdu, hpdu, hfour⟩
          cases hpdu
          exact hfour
        · intro hfour
          exact ⟨_, rfl, hfour⟩

/-! ## calls with trap -1 -/

theorem take_missing (rest : List VarBind) (standard : Bool) (enterprise : ObjId) :
    ∃ m, (rest ++ missingEnterprise rest standard enterprise).take 9998 = rest.take 9998 ++ m ∧
      ∀ var ∈ m, var.type ≠ asnCOUNTER64 ∧ var.name ≠ agentaddrOid := by
  refine ⟨_, take_append, ?_⟩
  intro var hvar
  -- the enterprise is neither an address nor a Counter64
  have hmem := mem_of_mem_take hvar
  rw [missingEnterprise] at hmem
  split at hmem
  · rw [mem_singleton.1 hmem]
    exact ⟨(by decide : asnOBJECT_ID ≠ asnCOUNTER64), (by decide : priottrapenterpriseOid ≠ agentaddrOid)⟩
  · exact absurd hmem not_mem_nil

theorem readable_append (hm : ∀ var ∈ m, var.type ≠ asnCOUNTER64 ∧ var.name ≠ agentaddrOid) :
    Readable trap (l ++ m) ↔ Readable trap l := by
  have hcounter : (∃ var ∈ l ++ m, var.type = asnCOUNTER64) ↔ ∃ var ∈ l, var.type = asnCOUNTER64 := by
    constructor
    · rintro ⟨var, hvar, htype⟩
      cases mem_append.1 hvar with
      | inl hl => exact ⟨var, hl, htype⟩
      | inr hright => exact absurd htype (hm var hright).1
    · rintro ⟨var, hvar, htype⟩
      exact ⟨var, mem_append_left m hvar, htype⟩
  have hfind : findVarbindInList (l ++ m) agentaddrOid = findVarbindInList l agentaddrOid := by
    have hnone := find_absent fun var hvar => (hm var hvar).2
    rw [findVarbindInList] at hnone ⊢
    rw [find?_append, hnone, Option.or_none, findVarbindInList]
  rw [Readable, Readable, hcounter, hfind]

theorem becomesAuthFail_append (hm : ∀ var ∈ m, var.type ≠ asnCOUNTER64 ∧ var.name ≠ agentaddrOid) :
    BecomesAuthFail trap (l ++ m) ↔ BecomesAuthFail trap l := by
  rw [BecomesAuthFail, BecomesAuthFail, forall_mem_append, and_iff_left fun var hvar => (hm var hvar).1]

theorem absent_iff (hsplit : split l = some (front, trap, rest)) :
    (∀ var ∈ l, var.name ≠ priottrapenterpriseOid) ↔ ∀ var ∈ rest, var.name ≠ priottrapenterpriseOid := by
  obtain ⟨rfl, htrap, hfront⟩ := split_some hsplit
  rw [forall_mem_append, forall_mem_cons, and_iff_right (trapOid_ne htrap), and_iff_right]
  intro var hvar
  exact sysuptime_ne (hfront var (Option.mem_toList.1 hvar))

theorem enterprises_rest (hsplit : split l = some (front, trap, rest)) : enterprises rest = enterprises l := by
  obtain ⟨rfl, htrap, hfront⟩ := split_some hsplit
  have hnil : enterprises front.toList = [] :=
    enterprises_eq_nil fun var hvar => sysuptime_ne (hfront var (Option.mem_toList.1 hvar))
  rw [enterprises_append, hnil, nil_append, enterprises_cons_of_ne (trapOid_ne htrap)]

theorem adds_of_list {octets : List UInt8} {standard : Bool} (h : call.trap = -1)
    (hsplit : split call.kept = some (front, trap, rest)) (hvalue : (front.getD trap).value = some octets)
    (hstandard : standard = true ↔ trapPrefix <+: leWords octets) :
    call.Adds (missingEnterprise rest standard call.enterprise) := by
  have happended : call.Appended ↔ (∀ var ∈ rest, var.name ≠ priottrapenterpriseOid) ∧ standard = true := by
    rw [Call.Appended, absent_iff hsplit, hstandard]
    apply and_congr_right
    intro _
    constructor
    · intro hall
      obtain ⟨parts, octets', hparts, hoctets, hbegins⟩ := hall h
      rw [hsplit] at hparts
      cases hparts
      rw [hvalue] at hoctets
      cases hoctets
      exact hbegins
    · intro hbegins _
      exact ⟨_, _, hsplit, hvalue, hbegins⟩
  rw [Call.Adds, happended, missingEnterprise]
  split
  · rename_i ha
    exact Or.inl ⟨ha, rfl⟩
  · rename_i ha
    exact Or.inr ⟨ha, rfl⟩

theorem sendNotification_iff_of_compared {octets : List UInt8} {standard : Bool} (h : call.trap = -1)
    (hsplit : split call.kept = some (front, trap, rest)) (hvalue : (front.getD trap).value = some octets)
    (hstart : startsWith trapPrefix (leWords octets) = .ok standard)
    (hstandard : standard = true ↔ trapPrefix <+: leWords octets) :
    call.CanonicallySent agent behind ↔ Readable trap (rest.take 9998) ∧
      ((agent.authentrapsDisabled = true ∧ BecomesAuthFail trap (rest.take 9998)) ∨
        (call.Whole ∧ (StandardTrap trap → call.OneEnterprise))) := by
  obtain ⟨_, htrap, hfront⟩ := split_some hsplit
  have hup : (front.getD (uptimeVarbind agent.uptime)).name = sysuptimeOid := by
    cases front with
    | none => rfl
    | some up => exact hfront up rfl
  have hticks : ∃ ticks, (front.getD (uptimeVarbind agent.uptime)).value = some ticks := by
    cases front with
    | none => exact ⟨_, rfl⟩
    | some up => exact ⟨octets, hvalue⟩
  obtain ⟨ticks, hticks⟩ := hticks
  have hremaining : call.remaining = rest ++ call.cutOff := by
    have hwhole := split_append hsplit call.cutOff
    rw [call.kept_append] at hwhole
    rw [Call.remaining, if_pos h, hwhole]
    rfl
  have hsend : call.send agent behind = sendNotification agent behind call.enterprise call.kept := by
    rw [Call.send, sendTraps, if_pos h]
    rfl
  rw [sendNotification_eq hsplit, hvalue, deref, ok_bind, hstart, ok_bind] at hsend
  simp only [appendMissing_enterprise standard (sysuptime_ne hup) (trapOid_ne htrap)] at hsend
  obtain ⟨m, htake, hm⟩ := take_missing rest standard call.enterprise
  have hvars : ({ pduCreate PRIOT_MSG_TRAP2 with
      varbinds := front.getD (uptimeVarbind agent.uptime) :: trap ::
        (rest ++ missingEnterprise rest standard call.enterprise) } : Pdu).varbinds.take 10000 =
      front.getD (uptimeVarbind agent.uptime) :: trap :: (rest.take 9998 ++ m) := by
    rw [← htake]
    rfl
  have hconvert := orNull_convert_cases behind hvars hup hticks htrap
  rw [readable_append hm, becomesAuthFail_append hm] at hconvert
  rcases hconvert with ⟨hbad, hfault⟩ | ⟨hgood, v1, hv1, hauth⟩
  · rw [hfault] at hsend
    exact iff_of_false (not_canonical_of_fault hsend) fun hboth => hbad hboth.1
  · rw [hv1, ok_bind] at hsend
    -- the whole list begins with what is kept of it
    have hfail : (∃ pdu ∈ v1, pdu.trapType = PRIOT_TRAP_AUTHFAIL) → call.AuthFail := by
      intro hfour
      obtain ⟨_, value, hval, hfive⟩ := hauth.1 hfour
      have hwhole := split_append hsplit call.cutOff
      rw [call.kept_append] at hwhole
      exact Or.inr ⟨h, _, value, hwhole, hval, hfive⟩
    rw [canonicallySent_iff_deliver hsend hfail, hauth, and_iff_right hgood]
    simp only
    rw [isCanonical_append_iff hup htrap hremaining (adds_of_list h hsplit hvalue hstandard) (enterprises_rest hsplit)]

theorem sendList_iff (h : call.trap = -1) : call.CanonicallySent agent behind ↔ call.Good agent := by
  have hsend : call.send agent behind = sendNotification agent behind call.enterprise call.kept := by
    rw [Call.send, sendTraps, if_pos h]
    rfl
  rw [Call.Good, if_pos h]
  cases hsplit : split call.kept with
  | none =>
    rw [sendNotification_rejected hsplit] at hsend
    refine iff_of_true (canonical_of_rejected hsend) ?_
    intro parts hparts
    cases hparts
  | some parts =>
    obtain ⟨front, trap, rest⟩ := parts
    -- the parts of the list are those it has been split into
    have hgood : (∀ parts, some (front, trap, rest) = some parts → call.GoodNotification agent parts) ↔
        call.GoodNotification agent (front, trap, rest) := by
      constructor
      · intro hall
        exact hall _ rfl
      · intro hone parts hparts
        cases hparts
        exact hone
    rw [hgood, Call.GoodNotification]
    simp only
    cases hvalue : (front.getD trap).value with
    | none =>
      have hfault : call.send agent behind = .error .fault := by
        rw [hsend, sendNotification_eq hsplit, hvalue]
        rfl
      refine iff_of_false (not_canonical_of_fault hfault) ?_
      rintro ⟨⟨octets, hoctets, _⟩, _⟩
      cases hoctets
    | some octets =>
      rcases startsWith_cases trapPrefix (leWords octets) with
        ⟨hbegins, hstart⟩ | ⟨hbegins, hshort, hstart⟩ | ⟨hbegins, hshort, hstart⟩
      · have hhead : ∃ o, some octets = some o ∧ (leWords o <+: trapPrefix → leWords o = trapPrefix) := by
          refine ⟨octets, rfl, ?_⟩
          intro hshort
          exact hshort.eq_of_length_le hbegins.length_le
        rw [sendNotification_iff_of_compared h hsplit hvalue hstart (iff_of_true rfl hbegins), and_iff_right hhead]
      · have hfault : call.send agent behind = .error .fault := by
          rw [hsend, sendNotification_eq hsplit, hvalue, deref, ok_bind, hstart]
          rfl
        refine iff_of_false (not_canonical_of_fault hfault) ?_
        rintro ⟨⟨o, ho, hsame⟩, _⟩
        cases ho
        apply hbegins
        exact ⟨[], by rw [append_nil, hsame hshort]⟩
      · have hhead : ∃ o, some octets = some o ∧ (leWords o <+: trapPrefix → leWords o = trapPrefix) :=
          ⟨octets, rfl, fun hle => absurd hle hshort⟩
        rw [sendNotification_iff_of_compared h hsplit hvalue hstart (iff_of_false Bool.false_ne_true hbegins),
          and_iff_right hhead]

/-- For every call, and whatever lies behind short values: what is sent is canonical if and only if the call is good. -/
theorem sendTraps_canonical_iff (call : Call) (agent : Agent) (behind : Nat → UInt8) :
    call.CanonicallySent agent behind ↔ call.Good agent := by
  by_cases h : call.trap = -1
  · exact sendList_iff h
  · exact sendTrap_iff h

/-- coldStart, in a list that begins with sysUpTime.0. -/
def coldStartCall : Call where
  trap := -1
  specific := -1
  enterprise := [1, 3, 6, 1, 4, 1]
  vars := [uptimeVarbind 0, trapVarbind coldStartOid]
  trap_range := by decide

def oneSink : Agent where
  uptime := 0
  address := [127, 0, 0, 1]
  authentrapsDisabled := true
  trapSinks := [⟨1, PRIOT_MSG_TRAP2⟩]

/-- It gets no enterprise. -/
theorem not_sendTraps_canonical : ¬ ∀ (call : Call) agent behind, call.CanonicallySent agent behind := by
  intro h
  have hlist : coldStartCall.trap = -1 := rfl
  have hgood := (sendList_iff hlist).1 (h coldStartCall oneSink fun _ => 0)
  rw [Call.Good, if_pos hlist] at hgood
  obtain ⟨_, _, ⟨_, _, value, hvalue, hfive⟩ | ⟨_, hstandard⟩⟩ := hgood _ rfl
  · cases hvalue
    exact absurd hfive (by decide)
  · have hone := hstandard ⟨1, by decide, by decide, rfl⟩
    rcases hone with hlength | ⟨_, happended⟩
    · exact absurd hlength (by decide)
    · obtain ⟨parts, octets, hparts, hoctets, hbegins⟩ := happended rfl
      cases hparts
      cases hoctets
      exact absurd hbegins (by decide)

end Priot.Trap
