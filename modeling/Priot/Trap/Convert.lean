/-
# SNMPv1 traps and SNMPv2 notifications

The conversion to v1 takes an OID to be longer than the prefix that it is compared with, and so reads behind it where
it is not. The host is little-endian, with subidentifiers of 32 bits and a `long` of 64. Octets behind a value are
read from its buffer, where anything may stand; subidentifiers behind a value, and what a `NULL` pointer points to,
are a fault. Allocations succeed.
-/
import Priot.Client.RowCreate
import Priot.Lib.Octets
import Priot.Lib.Outcome
import Priot.Mib.Index

namespace Priot.Trap

open Client Lib Mib Octets Registry List

/-! ## PDUs -/

def asnOCTET_STR : Nat := 0x04

def asnOBJECT_ID : Nat := 0x06

def asnIPADDRESS : Nat := 0x40

def asnTIMETICKS : Nat := 0x43

def asnCOUNTER64 : Nat := 0x46

def PRIOT_MSG_TRAP : Nat := 0xa4

def PRIOT_MSG_TRAP2 : Nat := 0xa7

def PRIOT_TRAP_ENTERPRISESPECIFIC : Int := 6

/-- snmpTraps. -/
def trapPrefix : ObjId := [1, 3, 6, 1, 6, 3, 1, 1, 5]

def coldStartOid : ObjId := [1, 3, 6, 1, 6, 3, 1, 1, 5, 1]

def priotTrapOid : ObjId := [1, 3, 6, 1, 6, 3, 1, 1, 4, 1, 0]

def priottrapenterpriseOid : ObjId := [1, 3, 6, 1, 6, 3, 1, 1, 4, 3, 0]

def sysuptimeOid : ObjId := [1, 3, 6, 1, 2, 1, 1, 3, 0]

def agentaddrOid : ObjId := [1, 3, 6, 1, 6, 3, 18, 1, 3, 0]

def communityOid : ObjId := [1, 3, 6, 1, 6, 3, 18, 1, 4, 0]

/-- The fields of `Types_Pdu` that say what a trap is. An `enterprise` that is `NULL` has no subidentifiers, and
the list of `variables` is called `varbinds` here. -/
structure Pdu where
  command : Nat
  trapType : Int
  specificType : Int
  time : Nat
  enterprise : ObjId
  agentAddr : List UInt8
  community : Option (List UInt8)
  varbinds : List VarBind
  deriving DecidableEq

def clonePdu (pdu : Pdu) : Pdu := { pdu with varbinds := pdu.varbinds.take 10000 }

def findVarbindInList (vblist : List VarBind) (name : ObjId) : Option VarBind :=
  vblist.find? fun var => oidCompare var.name name = .eq

/-- Why there is no PDU: the function returns `NULL`, or it reads what is not there. -/
inductive Stop
  | null
  | fault
  deriving DecidableEq

def deref {α : Type} : Option α → Except Stop α
  | none => .error .fault
  | some a => .ok a

def reject (c : Prop) [Decidable c] : Except Stop Unit := if c then .error .null else .ok ()

/-- A number of octets at a value, of which the last may stand behind it. -/
def readOctets (behind : Nat → UInt8) (octets : List UInt8) (n : Nat) : List UInt8 :=
  (List.range n).map fun k => octets[k]?.getD (behind k)

/-! ## the functions -/

/-- `Api_oidCompare` of as many subidentifiers as there are in the second OID. -/
def startsWith : ObjId → ObjId → Except Stop Bool
  | [], _ => .ok true
  | _ :: _, [] => .error .fault
  | p :: ps, v :: vs => if v = p then startsWith ps vs else .ok false

/-- The generic type, the specific type and the enterprise, from the value of snmpTrapOID.0. -/
def trapIdentity (vblist : List VarBind) (objectId : ObjId) : Except Stop (Int × Int × ObjId) := do
  if ← startsWith trapPrefix objectId then
    let v ← deref objectId[trapPrefix.length]?
    match findVarbindInList vblist priottrapenterpriseOid with
    | some var => .ok ((v - 1).toNat, 0, leWords (var.value.getD []))
    | none => .ok ((v - 1).toNat, 0, [])
  else
    let len := objectId.length
    reject (len ≤ 2)
    let specific ← deref objectId[len - 1]?
    let v ← deref objectId[len - 2]?
    .ok (PRIOT_TRAP_ENTERPRISESPECIFIC, specific.toNat, objectId.take (if v = 0 then len - 2 else len - 1))

/-- The agent's address, if there is a varbind for it. -/
def agentAddress (behind : Nat → UInt8) (vblist : List VarBind) (agentAddr : List UInt8) :
    Except Stop (List UInt8) :=
  match findVarbindInList vblist agentaddrOid with
  | none => .ok agentAddr
  | some var => do
    let octets ← deref var.value
    .ok (readOctets behind octets 4)

def convertV2pduToV1 (behind : Nat → UInt8) (template : Pdu) : Except Stop Pdu :=
  match (clonePdu template).varbinds with
  | [] => .error .null
  | uptime :: vblist => do
    reject (oidCompare uptime.name sysuptimeOid ≠ .eq)
    let ticks ← deref uptime.value
    match vblist with
    | [] => .error .null
    | trap :: rest => do
      reject (oidCompare trap.name priotTrapOid ≠ .eq)
      reject (∃ var ∈ rest, var.type = asnCOUNTER64)
      let objectId ← deref trap.value
      let identity ← trapIdentity vblist (leWords objectId)
      let agentAddr ← agentAddress behind vblist template.agentAddr
      .ok { template with
        command := PRIOT_MSG_TRAP
        trapType := identity.1
        specificType := identity.2.1
        enterprise := identity.2.2
        agentAddr := agentAddr
        time := leNat (readOctets behind ticks 8)
        varbinds := rest }

/-- The value that snmpTrapOID.0 gets. It is put together in an array. -/
def trapOid (pdu : Pdu) : Except Stop ObjId :=
  if pdu.trapType = PRIOT_TRAP_ENTERPRISESPECIFIC then
    if pdu.enterprise.length + 2 ≤ TYPES_MAX_OID_LEN then .ok (pdu.enterprise ++ [0, oidOfLong pdu.specificType])
    else .error .fault
  else .ok (coldStartOid.set 9 (oidOfLong (pdu.trapType + 1)))

/-- What `Client_setVarValue` makes of a `long` of type `asnTIMETICKS`. -/
def timeTicks (time : Nat) : Nat := if 0xffffffff < time ∧ time < 2 ^ 63 then time % 2 ^ 32 else time

/-- A varbind is appended where it is wanted and there is none of its name. -/
def appendMissing (vars : List VarBind) (wanted : Bool) (var : VarBind) : List VarBind :=
  if findVarbindInList vars var.name = none ∧ wanted = true then vars ++ [var] else vars

def uptimeVarbind (time : Nat) : VarBind := ⟨sysuptimeOid, asnTIMETICKS, some (leOctets 8 (timeTicks time))⟩

def trapVarbind (objectId : ObjId) : VarBind := ⟨priotTrapOid, asnOBJECT_ID, some (wordOctets objectId)⟩

def agentaddrVarbind (agentAddr : List UInt8) : VarBind := ⟨agentaddrOid, asnIPADDRESS, some agentAddr⟩

def communityVarbind (community : Option (List UInt8)) : VarBind :=
  ⟨communityOid, asnOCTET_STR, some (community.getD [])⟩

def enterpriseVarbind (enterprise : ObjId) : VarBind :=
  ⟨priottrapenterpriseOid, asnOBJECT_ID, some (wordOctets enterprise)⟩

def convertV1pduToV2 (template : Pdu) : Except Stop Pdu := do
  let enterprise ← trapOid template
  let vars := uptimeVarbind template.time :: trapVarbind enterprise :: (clonePdu template).varbinds
  let vars := appendMissing vars (template.agentAddr.any (· ≠ 0)) (agentaddrVarbind template.agentAddr)
  let vars := appendMissing vars template.community.isSome (communityVarbind template.community)
  let vars := appendMissing vars true (enterpriseVarbind template.enterprise)
  .ok { template with command := PRIOT_MSG_TRAP2, varbinds := vars }

/-! ## comparing and finding -/

variable {p e o : ObjId} {l m : List VarBind} {var : VarBind} {name : ObjId} {behind : Nat → UInt8}

theorem reject_of_not {c : Prop} [Decidable c] (h : ¬ c) : reject c = .ok () := if_neg h

theorem reject_of {c : Prop} [Decidable c] (h : c) : reject c = .error .null := if_pos h

theorem startsWith_cases (p e : ObjId) :
    (p <+: e ∧ startsWith p e = .ok true) ∨ (¬ p <+: e ∧ e <+: p ∧ startsWith p e = .error .fault) ∨
      (¬ p <+: e ∧ ¬ e <+: p ∧ startsWith p e = .ok false) := by
  induction p generalizing e with
  | nil => exact Or.inl ⟨List.nil_prefix, rfl⟩
  | cons v p ih =>
    cases e with
    | nil =>
      refine Or.inr (Or.inl ⟨?_, nil_prefix, rfl⟩)
      intro h
      cases prefix_nil.1 h
    | cons w e =>
      -- the comparison goes on only behind subidentifiers that are the same
      by_cases hsame : w = v
      · subst hsame
        rw [startsWith, if_pos rfl, cons_prefix_cons, cons_prefix_cons]
        simpa using ih e
      · refine Or.inr (Or.inr ⟨?_, ?_, by rw [startsWith, if_neg hsame]⟩)
        · intro h
          exact hsame (cons_prefix_cons.1 h).1.symm
        · intro h
          exact hsame (cons_prefix_cons.1 h).1

theorem startsWith_of_prefix (h : p <+: e) : startsWith p e = .ok true := by
  rcases startsWith_cases p e with ⟨_, heq⟩ | ⟨hnot, _⟩ | ⟨hnot, _⟩
  · exact heq
  · exact absurd h hnot
  · exact absurd h hnot

theorem startsWith_of_differ (hp : ¬ p <+: e) (he : ¬ e <+: p) : startsWith p e = .ok false := by
  rcases startsWith_cases p e with ⟨h, _⟩ | ⟨_, h, _⟩ | ⟨_, _, heq⟩
  · exact absurd h hp
  · exact absurd h he
  · exact heq

theorem oidCompare_eq_iff : oidCompare p e = .eq ↔ p = e := (oidCompare_spec p e).2.1

theorem find_absent (h : ∀ var ∈ l, var.name ≠ name) : findVarbindInList l name = none := by
  rw [findVarbindInList, find?_eq_none]
  intro var hvar heq
  exact h var hvar (oidCompare_eq_iff.1 (of_decide_eq_true heq))

theorem find_last (h : ∀ var ∈ l, var.name ≠ name) (hvar : var.name = name) :
    findVarbindInList (l ++ [var]) name = some var := by
  have hfirst := find_absent h
  rw [findVarbindInList] at hfirst ⊢
  have hlast : decide (oidCompare var.name name = .eq) = true := decide_eq_true (oidCompare_eq_iff.2 hvar)
  rw [find?_append, hfirst, Option.none_or, find?_cons, hlast]

theorem find_cons_of_ne (h : var.name ≠ name) : findVarbindInList (var :: l) name = findVarbindInList l name := by
  have hne : decide (oidCompare var.name name = .eq) = false := by
    apply decide_eq_false
    intro heq
    exact h (oidCompare_eq_iff.1 heq)
  rw [findVarbindInList, find?_cons, hne, findVarbindInList]

theorem find_some (h : findVarbindInList l name = some var) : var ∈ l ∧ var.name = name := by
  rw [findVarbindInList] at h
  have heq := find?_some h
  exact ⟨mem_of_find?_eq_some h, oidCompare_eq_iff.1 (of_decide_eq_true heq)⟩

theorem appendMissing_absent (wanted : Bool) (h : ∀ v ∈ l, v.name ≠ var.name) :
    appendMissing l wanted var = l ++ if wanted = true then [var] else [] := by
  rw [appendMissing, find_absent h]
  cases wanted with
  | false => simp
  | true => simp

theorem readOctets_short (behind : Nat → UInt8) {octets : List UInt8} {n : Nat} (h : octets.length = n) :
    readOctets behind octets n = octets := by
  apply ext_getElem?
  intro k
  rw [readOctets, getElem?_map]
  by_cases hk : k < n
  · rw [getElem?_range hk, Option.map_some, getElem?_eq_getElem (by omega), Option.getD_some]
  · rw [getElem?_eq_none (by rw [length_range]; omega), getElem?_eq_none (by omega)]
    rfl

/-! ## there and back -/

/-- A v1 trap: a generic type, or an enterprise-specific one. Its own varbinds are none of those that the conversions
put in, and none of them is a Counter64. -/
structure V1Trap where
  pdu : Pdu
  type_range : 0 ≤ pdu.trapType ∧ pdu.trapType ≤ PRIOT_TRAP_ENTERPRISESPECIFIC
  specific_range : 0 ≤ pdu.specificType ∧ pdu.specificType < 2 ^ 31
  generic : pdu.trapType ≠ PRIOT_TRAP_ENTERPRISESPECIFIC → pdu.specificType = 0
  enterprise_length : 1 ≤ pdu.enterprise.length ∧ pdu.enterprise.length ≤ 126
  agentAddr_length : pdu.agentAddr.length = 4
  time_lt : pdu.time < 2 ^ 64
  carriable : ∀ var ∈ pdu.varbinds, var.type ≠ asnCOUNTER64
  apart : ∀ var ∈ pdu.varbinds,
    var.name ∉ [priotTrapOid, sysuptimeOid, priottrapenterpriseOid, agentaddrOid, communityOid]

/-- The varbinds that are appended on the way to v2. The last one is always there. -/
def Pdu.optional (pdu : Pdu) : List VarBind :=
  (if pdu.agentAddr.any (· ≠ 0) = true then [agentaddrVarbind pdu.agentAddr] else []) ++
    (if pdu.community.isSome = true then [communityVarbind pdu.community] else [])

def Pdu.extras (pdu : Pdu) : List VarBind := pdu.optional ++ [enterpriseVarbind pdu.enterprise]

namespace V1Trap

variable (t : V1Trap)

/-- The trap comes back as it was, with its varbinds in front. -/
def RoundTrips (behind : Nat → UInt8) : Prop :=
  ∃ v2 v1, convertV1pduToV2 t.pdu = .ok v2 ∧ convertV2pduToV1 behind v2 = .ok v1 ∧
    v1.trapType = t.pdu.trapType ∧ v1.specificType = t.pdu.specificType ∧ v1.enterprise = t.pdu.enterprise ∧
    v1.agentAddr = t.pdu.agentAddr ∧ v1.time = t.pdu.time ∧ t.pdu.varbinds <+: v1.varbinds

/-- With the two varbinds in front, all of them fit into a clone. -/
def Fits : Prop := t.pdu.varbinds.length + t.pdu.extras.length ≤ 9998

/-- The time is one that a varbind holds, and the enterprise can be read off again: from the value of snmpTrapOID.0,
unless that value is taken for a standard trap, and else from the varbind at the end. -/
def Survives : Prop :=
  (t.pdu.time < 2 ^ 32 ∨ 2 ^ 63 ≤ t.pdu.time) ∧
    ((t.pdu.trapType = PRIOT_TRAP_ENTERPRISESPECIFIC ∧ ¬ trapPrefix <+: t.pdu.enterprise ∧
        t.pdu.varbinds.length ≤ 9998) ∨
      (t.Fits ∧ (t.pdu.trapType = PRIOT_TRAP_ENTERPRISESPECIFIC →
        trapPrefix ++ [7] <+: t.pdu.enterprise ∧ t.pdu.specificType = 0)))

/-- What is left of the varbinds after the second clone. -/
def carried : List VarBind := (t.pdu.varbinds ++ t.pdu.extras).take 9998

end V1Trap

namespace V1Trap

variable {t : V1Trap} {identity : Int × Int × ObjId}

theorem name_ne (h : var ∈ t.pdu.varbinds)
    (hname : name ∈ [priotTrapOid, sysuptimeOid, priottrapenterpriseOid, agentaddrOid, communityOid]) :
    var.name ≠ name := by
  rintro rfl
  exact t.apart var h hname

theorem mem_optional {pdu : Pdu} (h : var ∈ pdu.optional) :
    var = agentaddrVarbind pdu.agentAddr ∨ var = communityVarbind pdu.community := by
  cases mem_append.1 h with
  | inl h =>
    left
    split at h
    · exact mem_singleton.1 h
    · exact absurd h not_mem_nil
  | inr h =>
    right
    split at h
    · exact mem_singleton.1 h
    · exact absurd h not_mem_nil

theorem mem_extras {pdu : Pdu} (h : var ∈ pdu.extras) :
    var = agentaddrVarbind pdu.agentAddr ∨ var = communityVarbind pdu.community ∨
      var = enterpriseVarbind pdu.enterprise := by
  rw [Pdu.extras, mem_append, mem_singleton] at h
  cases h with
  | inl h => exact (mem_optional h).imp_right Or.inl
  | inr h => exact Or.inr (Or.inr h)

theorem mem_carried (h : var ∈ t.carried) : var ∈ t.pdu.varbinds ∨ var ∈ t.pdu.extras :=
  mem_append.1 (mem_of_mem_take h)

theorem convertV1pduToV2_eq (h : trapOid t.pdu = .ok o) :
    convertV1pduToV2 t.pdu = .ok { t.pdu with
      command := PRIOT_MSG_TRAP2
      varbinds := uptimeVarbind t.pdu.time :: trapVarbind o :: (t.pdu.varbinds.take 10000 ++ t.pdu.extras) } := by
  have huptime : ∀ n ∈ [priottrapenterpriseOid, agentaddrOid, communityOid], sysuptimeOid ≠ n := by decide
  have htrap : ∀ n ∈ [priottrapenterpriseOid, agentaddrOid, communityOid], priotTrapOid ≠ n := by decide
  -- no varbind that is there has the name of one that is appended
  have hfront : ∀ n ∈ [priottrapenterpriseOid, agentaddrOid, communityOid],
      ∀ v ∈ uptimeVarbind t.pdu.time :: trapVarbind o :: t.pdu.varbinds.take 10000, v.name ≠ n := by
    intro n hn v hv
    rw [mem_cons, mem_cons] at hv
    rcases hv with rfl | rfl | hv
    · exact huptime n hn
    · exact htrap n hn
    · exact name_ne (mem_of_mem_take hv) (mem_cons_of_mem _ (mem_cons_of_mem _ hn))
  have happended : ∀ (l : List VarBind) (c : Bool) (new : VarBind) (n : ObjId), (∀ v ∈ l, v.name ≠ n) →
      new.name ≠ n → ∀ v ∈ l ++ if c = true then [new] else [], v.name ≠ n := by
    intro l c new n hl hne v hv
    cases mem_append.1 hv with
    | inl hold => exact hl v hold
    | inr hnew =>
      split at hnew
      · rw [mem_singleton.1 hnew]
        exact hne
      · exact absurd hnew not_mem_nil
  have hagent := hfront agentaddrOid (by decide)
  have hcommunity := happended _ (t.pdu.agentAddr.any (· ≠ 0)) (agentaddrVarbind t.pdu.agentAddr) communityOid
    (hfront communityOid (by decide)) (by decide : agentaddrOid ≠ communityOid)
  have henterprise := happended _ t.pdu.community.isSome (communityVarbind t.pdu.community) priottrapenterpriseOid
    (happended _ (t.pdu.agentAddr.any (· ≠ 0)) (agentaddrVarbind t.pdu.agentAddr) priottrapenterpriseOid
      (hfront priottrapenterpriseOid (by decide)) (by decide : agentaddrOid ≠ priottrapenterpriseOid))
    (by decide : communityOid ≠ priottrapenterpriseOid)
  rw [convertV1pduToV2, h, ok_bind]
  simp only [clonePdu]
  rw [@appendMissing_absent _ (agentaddrVarbind t.pdu.agentAddr) _ hagent,
    @appendMissing_absent _ (communityVarbind t.pdu.community) _ hcommunity,
    @appendMissing_absent _ (enterpriseVarbind t.pdu.enterprise) _ henterprise, if_pos rfl]
  simp only [Pdu.extras, Pdu.optional, append_assoc, cons_append]

theorem take_carried (u v : VarBind) :
    (u :: v :: (t.pdu.varbinds.take 10000 ++ t.pdu.extras)).take 10000 = u :: v :: t.carried := by
  have htake : (t.pdu.varbinds.take 10000 ++ t.pdu.extras).take 9998 = t.carried := by
    rw [carried]
    -- the first clone cuts at 10000, the second one at 9998 behind the two that are put in front
    by_cases hlen : t.pdu.varbinds.length ≤ 10000
    · rw [take_of_length_le hlen]
    · rw [take_append_of_le_length (by rw [length_take]; omega),
        take_append_of_le_length (by omega), take_take]
      rfl
  rw [← htake]
  rfl

theorem agentAddress_carried (o : ObjId) :
    agentAddress behind (trapVarbind o :: t.carried) t.pdu.agentAddr = .ok t.pdu.agentAddr := by
  rw [agentAddress]
  cases hfind : findVarbindInList (trapVarbind o :: t.carried) agentaddrOid with
  | none => rfl
  | some var =>
    have hname := (find_some hfind).2
    -- the one that is found can only be the one that was appended
    have hvar : var = agentaddrVarbind t.pdu.agentAddr := by
      cases mem_cons.1 (find_some hfind).1 with
      | inl heq =>
        subst heq
        exact absurd hname (by decide : priotTrapOid ≠ agentaddrOid)
      | inr hcarried =>
        cases mem_carried hcarried with
        | inl hown => exact absurd hname (name_ne hown (by decide))
        | inr hextra =>
          rcases mem_extras hextra with rfl | rfl | rfl
          · rfl
          · exact absurd hname (by decide : communityOid ≠ agentaddrOid)
          · exact absurd hname (by decide : priottrapenterpriseOid ≠ agentaddrOid)
    subst hvar
    simp only [agentaddrVarbind, deref, ok_bind, readOctets_short behind t.agentAddr_length]

theorem timeTicks_lt {time : Nat} (h : time < 2 ^ 64) : timeTicks time < 256 ^ 8 := by
  have hpow : (256 : Nat) ^ 8 = 2 ^ 64 := by norm_num
  rw [hpow, timeTicks]
  split
  · have hmod := Nat.mod_lt time (by decide : 0 < 2 ^ 32)
    omega
  · exact h

theorem timeTicks_eq_iff {time : Nat} : timeTicks time = time ↔ time < 2 ^ 32 ∨ 2 ^ 63 ≤ time := by
  rw [timeTicks]
  split
  · rename_i hbig
    have hmod := Nat.mod_lt time (by decide : 0 < 2 ^ 32)
    constructor
    · omega
    · omega
  · rename_i hsmall
    constructor
    · intro _
      omega
    · intro _
      rfl

theorem convertV2pduToV1_eq (behind : Nat → UInt8)
    (hidentity : trapIdentity (trapVarbind o :: t.carried) o = .ok identity) :
    convertV2pduToV1 behind { t.pdu with
        command := PRIOT_MSG_TRAP2
        varbinds := uptimeVarbind t.pdu.time :: trapVarbind o :: (t.pdu.varbinds.take 10000 ++ t.pdu.extras) } =
      .ok { t.pdu with
        command := PRIOT_MSG_TRAP
        trapType := identity.1
        specificType := identity.2.1
        enterprise := identity.2.2
        time := timeTicks t.pdu.time
        varbinds := t.carried } := by
  -- nothing that is appended is a Counter64
  have hcarriable : ¬ ∃ var ∈ t.carried, var.type = asnCOUNTER64 := by
    rintro ⟨var, hvar, htype⟩
    cases mem_carried hvar with
    | inl hown => exact t.carriable var hown htype
    | inr hextra =>
      rcases mem_extras hextra with rfl | rfl | rfl
      · exact absurd htype (by decide : asnIPADDRESS ≠ asnCOUNTER64)
      · exact absurd htype (by decide : asnOCTET_STR ≠ asnCOUNTER64)
      · exact absurd htype (by decide : asnOBJECT_ID ≠ asnCOUNTER64)
  have htime : leNat (readOctets behind (leOctets 8 (timeTicks t.pdu.time)) 8) = timeTicks t.pdu.time := by
    rw [readOctets_short behind (length_leOctets _ _), leNat_leOctets_of_lt (timeTicks_lt t.time_lt)]
  have hup : ¬ oidCompare (uptimeVarbind t.pdu.time).name sysuptimeOid ≠ .eq := not_not.2 (oidCompare_eq_iff.2 rfl)
  have htrap : ¬ oidCompare (trapVarbind o).name priotTrapOid ≠ .eq := not_not.2 (oidCompare_eq_iff.2 rfl)
  have hticks : deref (uptimeVarbind t.pdu.time).value = .ok (leOctets 8 (timeTicks t.pdu.time)) := rfl
  have hvalue : deref (trapVarbind o).value = .ok (wordOctets o) := rfl
  rw [convertV2pduToV1, clonePdu, take_carried]
  simp only [reject_of_not hup, reject_of_not htrap, reject_of_not hcarriable, hticks, hvalue, ok_bind,
    leWords_wordOctets, hidentity, agentAddress_carried o, htime]

/-! ## what is read off on the way back -/

instance : Decidable t.Fits := inferInstanceAs (Decidable (_ ≤ _))

/-- The enterprise in the varbind that is appended last, if this one has not been cut off. -/
def leftEnterprise (t : V1Trap) : ObjId := if t.Fits then t.pdu.enterprise else []

theorem name_front (h : var ∈ t.pdu.varbinds ++ t.pdu.optional) : var.name ≠ priottrapenterpriseOid := by
  cases mem_append.1 h with
  | inl hown => exact name_ne hown (by decide)
  | inr hoptional =>
    cases mem_optional hoptional with
    | inl heq =>
      subst heq
      exact (by decide : agentaddrOid ≠ priottrapenterpriseOid)
    | inr heq =>
      subst heq
      exact (by decide : communityOid ≠ priottrapenterpriseOid)

theorem find_enterprise (o : ObjId) : findVarbindInList (trapVarbind o :: t.carried) priottrapenterpriseOid =
      if t.Fits then some (enterpriseVarbind t.pdu.enterprise) else none := by
  have htrap : (trapVarbind o).name ≠ priottrapenterpriseOid := (by decide : priotTrapOid ≠ priottrapenterpriseOid)
  have hlength : t.pdu.extras.length = t.pdu.optional.length + 1 := by
    rw [Pdu.extras, length_append, length_singleton]
  rw [find_cons_of_ne htrap, carried, Pdu.extras, ← append_assoc]
  split
  · rename_i hfits
    rw [Fits, hlength] at hfits
    rw [take_of_length_le]
    · exact find_last (fun v hv => name_front hv) rfl
    · rw [length_append, length_append, length_singleton]
      omega
  · rename_i hcut
    rw [Fits, hlength] at hcut
    apply find_absent
    intro v hv
    rw [take_append_of_le_length (by rw [length_append]; omega)] at hv
    exact name_front (mem_of_mem_take hv)

theorem trapIdentity_standard {v : Oid} (hbegins : trapPrefix <+: o) (hv : o[trapPrefix.length]? = some v) :
    trapIdentity (trapVarbind o :: t.carried) o = .ok ((v - 1).toNat, 0, t.leftEnterprise) := by
  rw [trapIdentity, startsWith_of_prefix hbegins, ok_bind, if_pos rfl, hv, deref, ok_bind, find_enterprise,
    leftEnterprise]
  split
  · rename_i hfound
    split at hfound
    · cases hfound
      simp only [enterpriseVarbind, Option.getD_some, leWords_wordOctets]
      rw [if_pos ‹_›]
    · cases hfound
  · rename_i hnone
    split at hnone
    · cases hnone
    · rw [if_neg ‹_›]

theorem prefix_of_prefix_zero {r : ObjId} (h : trapPrefix <+: o ++ 0 :: r) : trapPrefix <+: o := by
  cases prefix_or_prefix_of_prefix h (prefix_append o (0 :: r)) with
  | inl hshort => exact hshort
  | inr hlong =>
    obtain ⟨rest, hrest⟩ := hlong
    cases rest with
    | nil =>
      rw [append_nil] at hrest
      exact ⟨[], by rw [append_nil, hrest]⟩
    | cons v rest =>
      rw [← hrest, prefix_append_right_inj, cons_prefix_cons] at h
      have hmem : (0 : Oid) ∈ trapPrefix := by
        rw [← hrest, h.1]
        exact mem_append_right o mem_cons_self
      exact absurd hmem (by decide)

theorem trapIdentity_specific {s : Oid} (hlen : 1 ≤ o.length) (hbegins : ¬ trapPrefix <+: o) (vblist : List VarBind) :
    trapIdentity vblist (o ++ [0, s]) = .ok (PRIOT_TRAP_ENTERPRISESPECIFIC, s.toNat, o) := by
  have hnot : ¬ trapPrefix <+: o ++ [0, s] := fun h => hbegins (prefix_of_prefix_zero h)
  have hzero : ¬ o ++ [0, s] <+: trapPrefix := by
    intro h
    have hmem : (0 : Oid) ∈ trapPrefix := h.subset (mem_append_right o mem_cons_self)
    exact absurd hmem (by decide)
  have hlength : (o ++ [0, s]).length = o.length + 2 := by
    rw [length_append]
    rfl
  have hlast : (o ++ [0, s])[(o ++ [0, s]).length - 1]? = some s := by
    rw [hlength, getElem?_append_right (by omega), show o.length + 2 - 1 - o.length = 1 by omega]
    rfl
  have hmiddle : (o ++ [0, s])[(o ++ [0, s]).length - 2]? = some 0 := by
    rw [hlength, getElem?_append_right (by omega), show o.length + 2 - 2 - o.length = 0 by omega]
    rfl
  have htake : (o ++ [0, s]).take ((o ++ [0, s]).length - 2) = o := by
    rw [hlength, Nat.add_sub_cancel, take_left']
    rfl
  have hlong : ¬ (o ++ [0, s]).length ≤ 2 := by omega
  rw [trapIdentity, startsWith_of_differ hnot hzero, ok_bind, if_neg Bool.false_ne_true]
  simp only [reject_of_not hlong, hlast, hmiddle, deref, ok_bind]
  rw [if_pos trivial, htake]

/-! ## when a trap comes back -/

theorem roundTrips_iff_identity (h : trapOid t.pdu = .ok o)
    (hidentity : trapIdentity (trapVarbind o :: t.carried) o = .ok identity) (behind : Nat → UInt8) :
    t.RoundTrips behind ↔ (t.pdu.time < 2 ^ 32 ∨ 2 ^ 63 ≤ t.pdu.time) ∧ t.pdu.varbinds.length ≤ 9998 ∧
      identity = (t.pdu.trapType, t.pdu.specificType, t.pdu.enterprise) := by
  have hback := convertV2pduToV1_eq behind hidentity
  have hcarried : t.pdu.varbinds <+: t.carried ↔ t.pdu.varbinds.length ≤ 9998 := by
    rw [carried, prefix_take_iff]
    exact and_iff_right (prefix_append _ _)
  constructor
  · rintro ⟨v2, v1, hv2, hv1, htype, hspecific, henterprise, -, htime, hvars⟩
    rw [convertV1pduToV2_eq h, Except.ok.injEq] at hv2
    subst hv2
    rw [hback, Except.ok.injEq] at hv1
    subst hv1
    exact ⟨timeTicks_eq_iff.1 htime, hcarried.1 hvars, Prod.ext htype (Prod.ext hspecific henterprise)⟩
  · rintro ⟨htime, hvars, rfl⟩
    exact ⟨_, _, convertV1pduToV2_eq h, hback, rfl, rfl, rfl, rfl, timeTicks_eq_iff.2 htime, hcarried.2 hvars⟩

theorem leftEnterprise_iff : t.leftEnterprise = t.pdu.enterprise ↔ t.Fits := by
  rw [leftEnterprise]
  constructor
  · intro h
    by_contra hcut
    rw [if_neg hcut] at h
    have hpos := t.enterprise_length.1
    rw [← h] at hpos
    exact absurd hpos (by decide)
  · intro h
    rw [if_pos h]

theorem length_of_fits (h : t.Fits) : t.pdu.varbinds.length ≤ 9998 := by
  rw [Fits] at h
  omega

theorem roundTrips_generic (hgeneric : t.pdu.trapType ≠ PRIOT_TRAP_ENTERPRISESPECIFIC) (behind : Nat → UInt8) :
    t.RoundTrips behind ↔ (t.pdu.time < 2 ^ 32 ∨ 2 ^ 63 ≤ t.pdu.time) ∧ t.Fits := by
  have hoid : trapOid t.pdu = .ok (coldStartOid.set 9 (oidOfLong (t.pdu.trapType + 1))) := if_neg hgeneric
  have hbegins : trapPrefix <+: coldStartOid.set 9 (oidOfLong (t.pdu.trapType + 1)) := ⟨[_], rfl⟩
  have hidentity := trapIdentity_standard (t := t) hbegins rfl
  have htype : ((oidOfLong (t.pdu.trapType + 1) - 1).toNat : Int) = t.pdu.trapType := by
    have hrange := t.type_range
    rw [PRIOT_TRAP_ENTERPRISESPECIFIC] at hrange hgeneric
    have hcases : t.pdu.trapType = 0 ∨ t.pdu.trapType = 1 ∨ t.pdu.trapType = 2 ∨ t.pdu.trapType = 3 ∨
        t.pdu.trapType = 4 ∨ t.pdu.trapType = 5 := by omega
    rcases hcases with h | h | h | h | h | h <;> rw [h] <;> decide
  rw [roundTrips_iff_identity hoid hidentity, htype, t.generic hgeneric]
  constructor
  · rintro ⟨htime, _, heq⟩
    exact ⟨htime, leftEnterprise_iff.1 (congrArg (fun i => i.2.2) heq)⟩
  · rintro ⟨htime, hfits⟩
    exact ⟨htime, length_of_fits hfits, by rw [leftEnterprise_iff.2 hfits]⟩

theorem trapOid_specific (h : t.pdu.trapType = PRIOT_TRAP_ENTERPRISESPECIFIC) :
    trapOid t.pdu = .ok (t.pdu.enterprise ++ [0, oidOfLong t.pdu.specificType]) := by
  have hlength := t.enterprise_length.2
  rw [trapOid, if_pos h, if_pos]
  simp only [TYPES_MAX_OID_LEN]
  omega

theorem toNat_specific : ((oidOfLong t.pdu.specificType).toNat : Int) = t.pdu.specificType := by
  obtain ⟨hlow, hhigh⟩ := t.specific_range
  have hmod : t.pdu.specificType % 2 ^ 32 = t.pdu.specificType := Int.emod_eq_of_lt hlow (by omega)
  rw [oidOfLong, hmod, UInt32.toNat_ofNat_of_lt' (by rw [UInt32.size]; omega)]
  omega

theorem roundTrips_specific (h : t.pdu.trapType = PRIOT_TRAP_ENTERPRISESPECIFIC)
    (hbegins : ¬ trapPrefix <+: t.pdu.enterprise) (behind : Nat → UInt8) :
    t.RoundTrips behind ↔ (t.pdu.time < 2 ^ 32 ∨ 2 ^ 63 ≤ t.pdu.time) ∧ t.pdu.varbinds.length ≤ 9998 := by
  rw [roundTrips_iff_identity (trapOid_specific h)
    (trapIdentity_specific t.enterprise_length.1 hbegins (trapVarbind _ :: t.carried)), toNat_specific, h]
  exact and_congr_right fun _ => and_iff_left rfl

theorem roundTrips_under (h : t.pdu.trapType = PRIOT_TRAP_ENTERPRISESPECIFIC)
    (hbegins : trapPrefix <+: t.pdu.enterprise) (behind : Nat → UInt8) :
    t.RoundTrips behind ↔ (t.pdu.time < 2 ^ 32 ∨ 2 ^ 63 ≤ t.pdu.time) ∧ t.Fits ∧
      trapPrefix ++ [7] <+: t.pdu.enterprise ∧ t.pdu.specificType = 0 := by
  obtain ⟨rest, hrest⟩ := hbegins
  have hoid := trapOid_specific h
  -- the generic type is one less than the subidentifier
  have hseven : ∀ v : Oid, ((v - 1).toNat : Int) = PRIOT_TRAP_ENTERPRISESPECIFIC ↔ v = 7 := by
    intro v
    constructor
    · intro hsix
      have hnat : (v - 1).toNat = (6 : UInt32).toNat := by
        rw [PRIOT_TRAP_ENTERPRISESPECIFIC] at hsix
        exact_mod_cast hsix
      have hpred : v - 1 = 6 := UInt32.toNat_inj.1 hnat
      rw [← UInt32.sub_add_cancel v 1, hpred]
      rfl
    · rintro rfl
      decide
  -- an enterprise that is the prefix itself is followed by the 0
  have hfirst : ∃ v, (t.pdu.enterprise ++ [0, oidOfLong t.pdu.specificType])[trapPrefix.length]? = some v ∧
      (v = 7 ↔ trapPrefix ++ [7] <+: t.pdu.enterprise) := by
    rw [← hrest, append_assoc, getElem?_append_right (Nat.le_refl _), Nat.sub_self,
      prefix_append_right_inj]
    cases rest with
    | nil =>
      refine ⟨0, rfl, iff_of_false (by decide) ?_⟩
      intro hnil
      cases prefix_nil.1 hnil
    | cons v rest =>
      refine ⟨v, rfl, ?_⟩
      rw [cons_prefix_cons]
      constructor
      · intro hv
        exact ⟨hv.symm, nil_prefix⟩
      · intro hv
        exact hv.1.symm
  obtain ⟨v, hget, hv⟩ := hfirst
  have hunder : trapPrefix <+: t.pdu.enterprise ++ [0, oidOfLong t.pdu.specificType] := by
    rw [← hrest, append_assoc]
    exact prefix_append _ _
  rw [roundTrips_iff_identity hoid (trapIdentity_standard hunder hget), h, Prod.mk.injEq, Prod.mk.injEq, hseven, hv,
    leftEnterprise_iff]
  constructor
  · rintro ⟨htime, _, hseven, hspecific, hfits⟩
    exact ⟨htime, hfits, hseven, hspecific.symm⟩
  · rintro ⟨htime, hfits, hseven, hspecific⟩
    exact ⟨htime, length_of_fits hfits, hseven, hspecific.symm, hfits⟩

theorem roundTrips_iff (behind : Nat → UInt8) : t.RoundTrips behind ↔ t.Survives := by
  by_cases h : t.pdu.trapType = PRIOT_TRAP_ENTERPRISESPECIFIC
  · by_cases hbegins : trapPrefix <+: t.pdu.enterprise
    · rw [roundTrips_under h hbegins, Survives]
      simp [h, hbegins]
    · have hseven : ¬ trapPrefix ++ [7] <+: t.pdu.enterprise := by
        intro hlong
        exact hbegins ((prefix_append trapPrefix [7]).trans hlong)
      rw [roundTrips_specific h hbegins, Survives]
      simp [h, hbegins, hseven]
  · rw [roundTrips_generic h, Survives]
    simp [h]

end V1Trap

/-! ## notifications of any content -/

/-- There is no v1 trap, or one of a generic type that there is; nothing is read that is not there. -/
def Safe : Except Stop Pdu → Prop :=
  Ends (· = .null) fun v1 => 0 ≤ v1.trapType ∧ v1.trapType ≤ PRIOT_TRAP_ENTERPRISESPECIFIC

/-- The value of snmpTrapOID.0 ends before it has been told apart from the prefix and the trap in it has been read, or
the trap is none of those that have a generic type. -/
def BadTrapOid (o : ObjId) : Prop := o <+: trapPrefix ∨ ∃ v, trapPrefix ++ [v] <+: o ∧ ¬ (1 ≤ v ∧ v ≤ 7)

/-- The value is refused: it is no standard trap, and too short for an enterprise and a specific type. -/
def ShortTrapOid (o : ObjId) : Prop := ¬ trapPrefix <+: o ∧ o.length ≤ 2

/-- A notification that gets through to a value that is not there or that is bad. -/
def Harmful (pdu : Pdu) : Prop :=
  ∃ uptime vblist, pdu.varbinds.take 10000 = uptime :: vblist ∧ uptime.name = sysuptimeOid ∧
    (uptime.value = none ∨
      ∃ trap rest, vblist = trap :: rest ∧ trap.name = priotTrapOid ∧ (∀ var ∈ rest, var.type ≠ asnCOUNTER64) ∧
        (trap.value = none ∨
          ∃ octets, trap.value = some octets ∧
            (BadTrapOid (leWords octets) ∨
              (¬ ShortTrapOid (leWords octets) ∧
                ∃ var, findVarbindInList vblist agentaddrOid = some var ∧ var.value = none))))

theorem agentAddress_cases (behind : Nat → UInt8) (vblist : List VarBind) (agentAddr : List UInt8) :
    ((∃ var, findVarbindInList vblist agentaddrOid = some var ∧ var.value = none) ∧
        agentAddress behind vblist agentAddr = .error .fault) ∨
      ((¬ ∃ var, findVarbindInList vblist agentaddrOid = some var ∧ var.value = none) ∧
        ∃ addr, agentAddress behind vblist agentAddr = .ok addr) := by
  unfold agentAddress
  cases hfind : findVarbindInList vblist agentaddrOid with
  | none =>
    refine Or.inr ⟨?_, agentAddr, rfl⟩
    rintro ⟨var, hvar, _⟩
    cases hvar
  | some var =>
    cases hvalue : var.value with
    | none => exact Or.inl ⟨⟨var, rfl, hvalue⟩, by simp only [hvalue]; rfl⟩
    | some octets =>
      refine Or.inr ⟨?_, readOctets behind octets 4, by simp only [hvalue]; rfl⟩
      rintro ⟨other, hother, hnone⟩
      cases hother
      rw [hvalue] at hnone
      cases hnone

theorem pred_le_iff (v : Oid) :
    (0 ≤ ((v - 1).toNat : Int) ∧ ((v - 1).toNat : Int) ≤ PRIOT_TRAP_ENTERPRISESPECIFIC) ↔ 1 ≤ v ∧ v ≤ 7 := by
  have hone : (1 : Oid).toNat = 1 := rfl
  have hseven : (7 : Oid).toNat = 7 := rfl
  have hlt := v.toNat_lt
  rw [PRIOT_TRAP_ENTERPRISESPECIFIC, UInt32.le_iff_toNat_le, UInt32.le_iff_toNat_le, UInt32.toNat_sub, hone, hseven]
  omega

theorem badTrapOid_iff {v : Oid} (h : trapPrefix ++ [v] <+: o) : BadTrapOid o ↔ ¬ (1 ≤ v ∧ v ≤ 7) := by
  constructor
  · rintro (hshort | ⟨w, hw, hbad⟩)
    · have hle := h.length_le.trans hshort.length_le
      rw [length_append, length_singleton] at hle
      omega
    · have hlength : (trapPrefix ++ [v]).length = (trapPrefix ++ [w]).length := rfl
      have hsame := prefix_of_prefix_length_le h hw hlength.le
      rw [prefix_append_right_inj, cons_prefix_cons] at hsame
      rwa [hsame.1]
  · intro hbad
    exact Or.inr ⟨v, h, hbad⟩

theorem not_badTrapOid (hp : ¬ trapPrefix <+: o) (ho : ¬ o <+: trapPrefix) : ¬ BadTrapOid o := by
  rintro (hshort | ⟨v, hv, _⟩)
  · exact ho hshort
  · exact hp ((prefix_append trapPrefix [v]).trans hv)

theorem trapIdentity_cases (vblist : List VarBind) (o : ObjId) :
    (o <+: trapPrefix ∧ trapIdentity vblist o = .error .fault) ∨
      (ShortTrapOid o ∧ ¬ o <+: trapPrefix ∧ trapIdentity vblist o = .error .null) ∨
      (¬ ShortTrapOid o ∧ ¬ o <+: trapPrefix ∧ ∃ identity, trapIdentity vblist o = .ok identity ∧
        ((∃ v, trapPrefix ++ [v] <+: o ∧ identity.1 = (v - 1).toNat) ∨
          (¬ trapPrefix <+: o ∧ identity.1 = PRIOT_TRAP_ENTERPRISESPECIFIC))) := by
  rcases startsWith_cases trapPrefix o with ⟨hbegins, hstart⟩ | ⟨_, hshort, hstart⟩ | ⟨hbegins, hshort, hstart⟩
  · obtain ⟨rest, rfl⟩ := hbegins
    cases rest with
    | nil =>
      left
      rw [append_nil] at hstart ⊢
      refine ⟨prefix_refl _, ?_⟩
      rw [trapIdentity, hstart]
      rfl
    | cons v rest =>
      right
      right
      have hv : trapPrefix ++ [v] <+: trapPrefix ++ v :: rest := by
        rw [prefix_append_right_inj, cons_prefix_cons]
        exact ⟨rfl, nil_prefix⟩
      refine ⟨fun h => h.1 (prefix_append _ _), ?_, ?_⟩
      · intro h
        have hle := h.length_le
        rw [length_append, length_cons] at hle
        omega
      · have hget : (trapPrefix ++ v :: rest)[trapPrefix.length]? = some v := by
          rw [getElem?_append_right (Nat.le_refl _), Nat.sub_self]
          rfl
        rw [trapIdentity, hstart, ok_bind, if_pos rfl, hget, deref, ok_bind]
        split
        · exact ⟨_, rfl, Or.inl ⟨v, hv, rfl⟩⟩
        · exact ⟨_, rfl, Or.inl ⟨v, hv, rfl⟩⟩
  · left
    refine ⟨hshort, ?_⟩
    rw [trapIdentity, hstart]
    rfl
  · right
    rw [trapIdentity, hstart, ok_bind, if_neg Bool.false_ne_true]
    by_cases hlen : o.length ≤ 2
    · left
      simp only [reject_of hlen, error_bind]
      exact ⟨⟨hbegins, hlen⟩, hshort, trivial⟩
    · right
      have hlast : o[o.length - 1]? = some o[o.length - 1] := getElem?_eq_getElem (by omega)
      have hmiddle : o[o.length - 2]? = some o[o.length - 2] := getElem?_eq_getElem (by omega)
      simp only [reject_of_not hlen, hlast, hmiddle, deref, ok_bind]
      exact ⟨fun h => hlen h.2, hshort, _, rfl, Or.inr ⟨hbegins, rfl⟩⟩

theorem type_range_iff {identity : Int × Int × ObjId} (hshort : ¬ o <+: trapPrefix)
    (h : (∃ v, trapPrefix ++ [v] <+: o ∧ identity.1 = (v - 1).toNat) ∨
      (¬ trapPrefix <+: o ∧ identity.1 = PRIOT_TRAP_ENTERPRISESPECIFIC)) :
    (0 ≤ identity.1 ∧ identity.1 ≤ PRIOT_TRAP_ENTERPRISESPECIFIC) ↔ ¬ BadTrapOid o := by
  rcases h with ⟨v, hv, hidentity⟩ | ⟨hbegins, hidentity⟩
  · rw [hidentity, pred_le_iff, badTrapOid_iff hv, not_not]
  · rw [hidentity]
    exact iff_of_true (by decide) (not_badTrapOid hbegins hshort)

theorem safe_identity (behind : Nat → UInt8) (vblist : List VarBind) (o : ObjId) (agentAddr : List UInt8)
    (make : Int × Int × ObjId → List UInt8 → Pdu)
    (hmake : ∀ identity addr, (make identity addr).trapType = identity.1) :
    Safe (do
        let identity ← trapIdentity vblist o
        let addr ← agentAddress behind vblist agentAddr
        Except.ok (make identity addr)) ↔
      ¬ (BadTrapOid o ∨
        (¬ ShortTrapOid o ∧ ∃ var, findVarbindInList vblist agentaddrOid = some var ∧ var.value = none)) := by
  rcases trapIdentity_cases vblist o with ⟨hshort, heq⟩ | ⟨hshort, hlong, heq⟩ | ⟨hshort, hlong, identity, heq, htype⟩
  · rw [heq, error_bind]
    refine iff_of_false ?_ (not_not.2 (Or.inl (Or.inl hshort)))
    intro h
    cases h
  · rw [heq, error_bind]
    refine iff_of_true rfl ?_
    rintro (h | ⟨h, _⟩)
    · exact not_badTrapOid hshort.1 hlong h
    · exact h hshort
  · rw [heq, ok_bind]
    rcases agentAddress_cases behind vblist agentAddr with ⟨hnull, hfault⟩ | ⟨hnull, addr, haddr⟩
    · rw [hfault, error_bind]
      refine iff_of_false ?_ (not_not.2 (Or.inr ⟨hshort, hnull⟩))
      intro h
      cases h
    · rw [haddr, ok_bind, Safe, Ends, hmake, not_or, type_range_iff hlong htype]
      exact (and_iff_left fun h => hnull h.2).symm

theorem exists_cons_iff {α : Type} {a : α} {l : List α} {P : α → List α → Prop} :
    (∃ b m, a :: l = b :: m ∧ P b m) ↔ P a l := by
  constructor
  · rintro ⟨b, m, heq, h⟩
    cases heq
    exact h
  · intro h
    exact ⟨a, l, rfl, h⟩

theorem not_exists_cons_nil {α : Type} {P : α → List α → Prop} : ¬ ∃ b m, ([] : List α) = b :: m ∧ P b m := by
  rintro ⟨b, m, heq, _⟩
  cases heq

theorem safe_iff (behind : Nat → UInt8) (pdu : Pdu) : Safe (convertV2pduToV1 behind pdu) ↔ ¬ Harmful pdu := by
  have hnull : Safe (.error .null) := rfl
  have hfault : ¬ Safe (.error .fault) := by
    intro h
    cases h
  unfold convertV2pduToV1 Harmful clonePdu
  simp only
  cases pdu.varbinds.take 10000 with
  | nil => exact iff_of_true hnull not_exists_cons_nil
  | cons uptime vblist =>
    rw [exists_cons_iff]
    by_cases hup : uptime.name = sysuptimeOid
    · simp only [reject_of_not (not_not.2 (oidCompare_eq_iff.2 hup)), ok_bind]
      cases hticks : uptime.value with
      | none => exact iff_of_false hfault (not_not.2 ⟨hup, Or.inl rfl⟩)
      | some ticks =>
        rw [and_iff_right hup, or_iff_right (Option.some_ne_none ticks), deref, ok_bind]
        cases vblist with
        | nil => exact iff_of_true hnull not_exists_cons_nil
        | cons trap rest =>
          rw [exists_cons_iff]
          by_cases htrap : trap.name = priotTrapOid
          · simp only [reject_of_not (not_not.2 (oidCompare_eq_iff.2 htrap)), ok_bind]
            rw [and_iff_right htrap]
            by_cases hcounter : ∃ var ∈ rest, var.type = asnCOUNTER64
            · simp only [reject_of hcounter, error_bind]
              refine iff_of_true hnull ?_
              intro h
              obtain ⟨var, hvar, htype⟩ := hcounter
              exact h.1 var hvar htype
            · have hcarriable : ∀ var ∈ rest, var.type ≠ asnCOUNTER64 := by
                intro var hvar htype
                exact hcounter ⟨var, hvar, htype⟩
              simp only [reject_of_not hcounter, ok_bind]
              rw [and_iff_right hcarriable]
              cases hvalue : trap.value with
              | none => exact iff_of_false hfault (not_not.2 (Or.inl rfl))
              | some octets =>
                rw [or_iff_right (Option.some_ne_none octets)]
                simp only [deref, ok_bind, Option.some.injEq, exists_eq_left']
                exact safe_identity behind (trap :: rest) (leWords octets) pdu.agentAddr _ fun _ _ => rfl
          · have hreject : reject (oidCompare trap.name priotTrapOid ≠ .eq) = .error .null :=
              reject_of fun heq => htrap (oidCompare_eq_iff.1 heq)
            simp only [hreject, error_bind]
            exact iff_of_true hnull fun h => htrap h.1
    · have hreject : reject (oidCompare uptime.name sysuptimeOid ≠ .eq) = .error .null :=
        reject_of fun heq => hup (oidCompare_eq_iff.1 heq)
      simp only [hreject, error_bind]
      exact iff_of_true hnull fun h => hup h.1

/-- A v1 trap comes back from v2 if and only if it survives the way there, and the conversion of a notification to v1 is
safe if and only if the notification does no harm. -/
theorem conversions_iff (t : V1Trap) (pdu : Pdu) (behind : Nat → UInt8) :
    (t.RoundTrips behind ↔ t.Survives) ∧ (Safe (convertV2pduToV1 behind pdu) ↔ ¬ Harmful pdu) :=
  ⟨V1Trap.roundTrips_iff behind, safe_iff behind pdu⟩

/-- A notification with a trap under snmpTraps that has no generic type. -/
def ninthTrap : Pdu where
  command := PRIOT_MSG_TRAP2
  trapType := 0
  specificType := 0
  time := 0
  enterprise := []
  agentAddr := [0, 0, 0, 0]
  community := none
  varbinds := [uptimeVarbind 0, trapVarbind (trapPrefix ++ [9])]

/-- It gets the generic type 8. -/
theorem not_conversions :
    ¬ ((∀ (t : V1Trap) (behind : Nat → UInt8), t.RoundTrips behind) ∧
      ∀ (pdu : Pdu) (behind : Nat → UInt8), Safe (convertV2pduToV1 behind pdu)) := by
  intro h
  have hsafe := h.2 ninthTrap fun _ => 0
  rw [safe_iff] at hsafe
  apply hsafe
  refine ⟨_, _, rfl, rfl, Or.inr ⟨_, _, rfl, rfl, fun var hvar => absurd hvar not_mem_nil, Or.inr ⟨_, rfl, ?_⟩⟩⟩
  left
  rw [leWords_wordOctets]
  exact Or.inr ⟨9, prefix_refl _, by decide⟩

end Priot.Trap
