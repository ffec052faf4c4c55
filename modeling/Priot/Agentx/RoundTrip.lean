/-
# Messages that are read as they were built

A payload is read back command by command, a message by its header, its context and its payload; what is read of it in
another way than it was sent is shown at the end.
-/
import Priot.Agentx.Fields

namespace Priot.Agentx

open Api Octets List

variable {order : Bool} {rest : List UInt8}

/-! ## payloads -/

/-- The upper bound of a range that is registered is the name, with the subidentifier of the range changed. -/
def SendableBound (rangeSubid : Int) (name : ObjId) (value : Value) : Prop :=
  rangeSubid = 0 ∧ value = .null .null ∨
    1 ≤ rangeSubid ∧ rangeSubid ≤ name.length ∧ ∃ b, value.oid = .ok (name.set (rangeSubid.toNat - 1) b)

theorem SendableBound.octet {rangeSubid : Int} {name : ObjId} {value : Value}
    (h : SendableBound rangeSubid name value) (hname : name.length ≤ TYPES_MAX_OID_LEN) :
    0 ≤ rangeSubid ∧ rangeSubid < 2 ^ 8 := by
  have hmax : TYPES_MAX_OID_LEN = 128 := rfl
  rcases h with ⟨rfl, -⟩ | ⟨hone, hplace, -⟩
  · decide
  · omega

/-- A message of one of the types, with the variables that the type needs, and each field within its width. -/
inductive AgentxPdu.Sendable (pdu : AgentxPdu) : Prop
  | opening {name : ObjId} {s : List UInt8} (hcommand : pdu.command = AGENTX_MSG_OPEN) (htime : pdu.time < 256)
      (hvars : pdu.vars = [⟨name, .string .octetStr s⟩]) (hname : name.length ≤ TYPES_MAX_OID_LEN)
      (hs : s.length < API_MAX_MSG_SIZE)
  | closing (hcommand : pdu.command = AGENTX_MSG_CLOSE) (herrstat : 0 ≤ pdu.errstat ∧ pdu.errstat < 2 ^ 8)
      (hvars : pdu.vars = [])
  | registration {name : ObjId} {value : Value}
      (hcommand : pdu.command = AGENTX_MSG_REGISTER ∨ pdu.command = AGENTX_MSG_UNREGISTER)
      (htime : pdu.command = AGENTX_MSG_REGISTER → pdu.time < 256)
      (hpriority : 0 ≤ pdu.priority ∧ pdu.priority < 2 ^ 8) (hvars : pdu.vars = [⟨name, value⟩])
      (hname : name.length ≤ TYPES_MAX_OID_LEN) (hbound : SendableBound pdu.rangeSubid name value)
  | bulk (hcommand : pdu.command = AGENTX_MSG_GETBULK) (herrstat : 0 ≤ pdu.errstat ∧ pdu.errstat < 2 ^ 16)
      (herrindex : 0 ≤ pdu.errindex ∧ pdu.errindex < 2 ^ 16) (hvars : ∀ v ∈ pdu.vars, v.SendableRange)
  | get (hcommand : pdu.command = AGENTX_MSG_GET ∨ pdu.command = AGENTX_MSG_GETNEXT)
      (hvars : ∀ v ∈ pdu.vars, v.SendableRange)
  | response (hcommand : pdu.command = AGENTX_MSG_RESPONSE) (htime : pdu.time.toNat < 2 ^ 32)
      (herrstat : 0 ≤ pdu.errstat ∧ pdu.errstat < 2 ^ 16) (herrindex : 0 ≤ pdu.errindex ∧ pdu.errindex < 2 ^ 16)
      (hvars : ∀ v ∈ pdu.vars, v.Sendable)
  | varbinds (hcommand : pdu.command = AGENTX_MSG_INDEX_ALLOCATE ∨ pdu.command = AGENTX_MSG_INDEX_DEALLOCATE ∨
      pdu.command = AGENTX_MSG_NOTIFY ∨ pdu.command = AGENTX_MSG_TESTSET) (hvars : ∀ v ∈ pdu.vars, v.Sendable)
  | empty (hcommand : pdu.command = AGENTX_MSG_COMMITSET ∨ pdu.command = AGENTX_MSG_UNDOSET ∨
      pdu.command = AGENTX_MSG_CLEANUPSET ∨ pdu.command = AGENTX_MSG_PING) (hvars : pdu.vars = [])
  | capabilities {name : ObjId} {s : List UInt8} (hcommand : pdu.command = AGENTX_MSG_ADD_AGENT_CAPS)
      (hvars : pdu.vars = [⟨name, .string .octetStr s⟩]) (hname : name.length ≤ TYPES_MAX_OID_LEN)
      (hs : s.length < API_MAX_MSG_SIZE)
  | removal {name : ObjId} (hcommand : pdu.command = AGENTX_MSG_REMOVE_AGENT_CAPS)
      (hvars : pdu.vars = [⟨name, .null .null⟩]) (hname : name.length ≤ TYPES_MAX_OID_LEN)

/-- The variable of a registration that is read for one that is sent: an upper bound is read as an inclusive range. -/
def Variable.receivedBound (v : Variable) : Variable :=
  match v.value with
  | .objectId o | .range _ o => ⟨readOid v.name, .range true o⟩
  | value => ⟨readOid v.name, value⟩

/-- The commands whose payload has a timeout. -/
def hasTimeout (command : Int) : Bool := command = AGENTX_MSG_OPEN || command = AGENTX_MSG_REGISTER

def hasErrstat (command : Int) : Bool :=
  command = AGENTX_MSG_CLOSE || command = AGENTX_MSG_GETBULK || command = AGENTX_MSG_RESPONSE

def hasErrindex (command : Int) : Bool := command = AGENTX_MSG_GETBULK || command = AGENTX_MSG_RESPONSE

def hasUpTime (command : Int) : Bool := command = AGENTX_MSG_RESPONSE

def hasPriority (command : Int) : Bool := command = AGENTX_MSG_REGISTER || command = AGENTX_MSG_UNREGISTER

/-- The commands whose payload is a list of search ranges. -/
def hasRanges (command : Int) : Bool :=
  command = AGENTX_MSG_GETBULK || command = AGENTX_MSG_GET || command = AGENTX_MSG_GETNEXT

/-- The variables that are read for those that are sent. -/
def AgentxPdu.received (pdu : AgentxPdu) : List Variable :=
  if hasRanges pdu.command then pdu.vars.map Variable.receivedRange
  else if hasPriority pdu.command then pdu.vars.map Variable.receivedBound
  else pdu.vars.map Variable.received

/-- A `long` that is sent in 32 bits and read as an `int`. -/
structure SameInt (sent got : Int) : Prop where
  bits : got % 2 ^ 32 = sent % 2 ^ 32
  same : -2 ^ 31 ≤ sent → sent < 2 ^ 31 → got = sent

/-- The fields of the payload. -/
structure SamePayload (sent got : AgentxPdu) : Prop where
  time : hasTimeout sent.command → got.time = sent.time
  upTime : hasUpTime sent.command → SameInt sent.time.toNat got.time.toNat
  errstat : hasErrstat sent.command → got.errstat = sent.errstat
  errindex : hasErrindex sent.command → got.errindex = sent.errindex
  registration : hasPriority sent.command → got.priority = sent.priority ∧ got.rangeSubid = sent.rangeSubid
  vars : got.vars = sent.received

/-- The fields of the header, and the context, that the payload leaves alone. -/
structure SameHeader (before got : AgentxPdu) : Prop where
  command : got.command = before.command
  sessid : got.sessid = before.sessid
  transid : got.transid = before.transid
  reqid : got.reqid = before.reqid
  community : got.community = before.community

theorem toNat_octet {v : Int} (hv : 0 ≤ v ∧ v < 2 ^ 8) : ((UInt8.ofInt v).toNat : Int) = v := by
  rw [UInt8.ofInt, UInt8.toNat_ofNat']
  omega

theorem toNat_short {v : Int} (hv : 0 ≤ v ∧ v < 2 ^ 16) : ((UInt16.ofInt v).toNat : Int) = v := by
  rw [UInt16.ofInt, UInt16.toNat_ofNat']
  omega

theorem timeout_octet {time : UInt64} (h : time < 256) : time.toUInt8.toUInt64 = time := by
  apply UInt64.toNat_inj.mp
  rw [UInt8.toNat_toUInt64, UInt64.toNat_toUInt8]
  exact Nat.mod_eq_of_lt h

theorem field_front {read : Nat} (hread : read ≤ 4) (a b c d : UInt8) (rest : List UInt8) :
    field read 4 ([a, b, c, d] ++ rest) = .ok ([a, b, c, d], rest) := by
  refine (field_eq_ok hread).mpr ⟨?_, rfl⟩
  rw [length_append]
  exact Nat.le_add_right 4 _

theorem names_build {name : ObjId} (hname : name.length ≤ TYPES_MAX_OID_LEN) (inclusive : UInt8) (rest : List UInt8) :
    parseOid order TYPES_MAX_OID_LEN TYPES_MAX_OID_LEN (reallocBuildOid order inclusive name ++ rest) =
      .ok (some (if name = [] then 0 else inclusive, readOid name, rest)) :=
  parseOid_build hname (Nat.le_refl _) (Nat.le_refl _) inclusive rest

theorem parseDescription_build {pdu : AgentxPdu} {name : ObjId} {s : List UInt8}
    (hname : name.length ≤ TYPES_MAX_OID_LEN) (hs : s.length < API_MAX_MSG_SIZE) :
    parseDescription order pdu (reallocBuildOid order 0 name ++ reallocBuildString order s) =
      .ok (.noError, pdu.addVariable (readOid name) (.string .octetStr s)) := by
  have hread : parseString order API_MAX_MSG_SIZE (reallocBuildString order s ++ []) = _ := parseString_build hs []
  rw [append_nil] at hread
  simp only [parseDescription, names_build hname, hread, bind, Except.bind]
  rfl

theorem parseRegistration_build {pdu : AgentxPdu} {rangeSubid : Int} {name : ObjId} {value : Value}
    (hname : name.length ≤ TYPES_MAX_OID_LEN) (hbound : SendableBound rangeSubid name value) {built : List UInt8}
    (h : buildRegistration order rangeSubid [⟨name, value⟩] = .ok built) :
    parseRegistration order pdu (UInt8.ofInt rangeSubid) built =
      .ok (.noError, { pdu with vars := pdu.vars ++ [Variable.receivedBound ⟨name, value⟩] }) := by
  have hmax : TYPES_MAX_OID_LEN = 128 := rfl
  rcases hbound with ⟨rfl, rfl⟩ | ⟨hone, hplace, b, hvalue⟩
  · cases h
    have hread : parseOid order TYPES_MAX_OID_LEN TYPES_MAX_OID_LEN (reallocBuildOid order 0 name ++ []) = _ :=
      names_build hname 0 []
    rw [append_nil] at hread
    simp only [parseRegistration, hread, bind, Except.bind]
    rfl
  · have hoctet : ((UInt8.ofInt rangeSubid).toNat : Int) = rangeSubid := toNat_octet ⟨by omega, by omega⟩
    have hsubid : (UInt8.ofInt rangeSubid).toNat = rangeSubid.toNat := by omega
    have hrange : UInt8.ofInt rangeSubid ≠ 0 := by
      intro hzero
      rw [hzero] at hoctet
      have : (0 : Int) = rangeSubid := hoctet
      omega
    have hthere : name ≠ [] := by
      rintro rfl
      have : rangeSubid ≤ 0 := hplace
      omega
    have hset : (name.set (rangeSubid.toNat - 1) b).getD (rangeSubid.toNat - 1) 0 = b := by
      rw [getD_eq_getElem?_getD, getElem?_set_self (by omega)]
      rfl
    have hbuilt : built = reallocBuildOid order 0 name ++ reallocBuildInt order b := by
      have hlen : ¬ (rangeSubid < 1 ∨ ((name.set (rangeSubid.toNat - 1) b).length : Int) < rangeSubid) := by
        rw [length_set]
        omega
      simp only [buildRegistration, if_neg (show ¬ rangeSubid = 0 by omega), hvalue, bind, Except.bind, if_neg hlen,
        hset] at h
      cases h
      rfl
    have hint := field_append (reallocBuildInt_length order b) []
    have hread := parseUInt_build order b []
    rw [append_nil] at hint hread
    have hreceived : Variable.receivedBound ⟨name, value⟩ =
        ⟨name, .range true (name.set (rangeSubid.toNat - 1) b)⟩ := by
      cases value with
      | objectId o | range inclusive o =>
        cases hvalue
        simp only [Variable.receivedBound, readOid, if_neg hthere]
      | null t => exact absurd ((set_eq_nil_iff _ _).mp (Except.ok.inj hvalue).symm) hthere
      | _ => cases hvalue
    rw [hbuilt, hreceived]
    simp only [parseRegistration, names_build hname, bind, Except.bind, if_neg hrange, hint, hread,
      readOid, if_neg hthere, hsubid, if_neg (show ¬ rangeSubid.toNat > TYPES_MAX_OID_LEN by omega),
      UInt32.ofNat_toNat]
    rfl

theorem unsent {c command : Int} {p : Int → Bool} {q : Prop} (hc : command = c) (hp : p c = false) : p command → q := by
  intro h
  rw [hc, hp] at h
  cases h

theorem received_varbinds {sent : AgentxPdu} {c : Int} (hc : sent.command = c) (hranges : hasRanges c = false)
    (hpriority : hasPriority c = false) : sent.received = sent.vars.map Variable.received := by
  unfold AgentxPdu.received
  rw [hc, hranges, hpriority]
  rfl

theorem received_ranges {sent : AgentxPdu} {c : Int} (hc : sent.command = c) (hranges : hasRanges c) :
    sent.received = sent.vars.map Variable.receivedRange := by
  unfold AgentxPdu.received
  rw [hc, if_pos hranges]

theorem short_sent {v : Int} (hv : 0 ≤ v ∧ v < 2 ^ 16) (rest : List UInt8) :
    (parseShort order (reallocBuildShort order (UInt16.ofInt v) ++ rest) : Int) = v := by
  rw [parseShort_build]
  exact toNat_short hv

theorem second_short_sent {a : UInt16} {v : Int} (hv : 0 ≤ v ∧ v < 2 ^ 16) :
    (parseShort order ((reallocBuildShort order a ++ reallocBuildShort order (UInt16.ofInt v)).drop 2) : Int) = v := by
  rw [drop_built (reallocBuildShort_length order a)]
  have hread := @short_sent order v hv []
  rw [append_nil] at hread
  exact hread

theorem field_shorts (a b : UInt16) (rest : List UInt8) :
    field 4 4 (reallocBuildShort order a ++ (reallocBuildShort order b ++ rest)) =
      .ok (reallocBuildShort order a ++ reallocBuildShort order b, rest) := by
  rw [← append_assoc]
  exact field_append (by rw [length_append, reallocBuildShort_length, reallocBuildShort_length]) rest

theorem upTime_sent {time : UInt64} (h : time.toNat < 2 ^ 32) :
    SameInt time.toNat (UInt64.ofInt (parseInt order (reallocBuildInt order time.toUInt32))).toNat := by
  have hread := parseUInt_build order time.toUInt32 []
  rw [append_nil, UInt64.toNat_toUInt32, Nat.mod_eq_of_lt h] at hread
  rw [parseInt, hread, UInt64.ofInt, UInt64.toNat_ofNat']
  unfold castInt
  constructor
  · split <;> omega
  · intro _ hsmall
    rw [if_pos (by omega)]
    omega

variable {pdu : AgentxPdu} {data : List UInt8}

/-- The commands whose payload is only a list of VarBinds. -/
def IsVarbinds (command : Int) : Prop :=
  command = AGENTX_MSG_INDEX_ALLOCATE ∨ command = AGENTX_MSG_INDEX_DEALLOCATE ∨ command = AGENTX_MSG_NOTIFY ∨
    command = AGENTX_MSG_TESTSET

def IsGet (command : Int) : Prop := command = AGENTX_MSG_GET ∨ command = AGENTX_MSG_GETNEXT

def IsRegistration (command : Int) : Prop := command = AGENTX_MSG_REGISTER ∨ command = AGENTX_MSG_UNREGISTER

theorem buildBody_get (hc : IsGet pdu.command) :
    buildBody order pdu = buildEach (reallocBuildRange order) pdu.vars := by
  unfold buildBody
  rcases hc with hc | hc
  · rw [hc]
    rfl
  · rw [hc]
    rfl

theorem parseBody_get (hc : IsGet pdu.command) :
    parseBody order pdu data = pdu.withVars (parseRanges order data pdu.vars) := by
  unfold parseBody
  rcases hc with hc | hc
  · rw [hc]
    rfl
  · rw [hc]
    rfl

theorem buildBody_varbinds (hc : IsVarbinds pdu.command) :
    buildBody order pdu = buildEach (reallocBuildVarbind order) pdu.vars := by
  unfold buildBody
  rcases hc with hc | hc | hc | hc
  · rw [hc]
    rfl
  · rw [hc]
    rfl
  · rw [hc]
    rfl
  · rw [hc]
    rfl

theorem parseBody_varbinds (hc : IsVarbinds pdu.command) :
    parseBody order pdu data = pdu.withVars (parseVarbinds order data pdu.vars) := by
  unfold parseBody
  rcases hc with hc | hc | hc | hc
  · rw [hc]
    rfl
  · rw [hc]
    rfl
  · rw [hc]
    rfl
  · rw [hc]
    rfl

theorem buildBody_registration (hc : IsRegistration pdu.command) :
    buildBody order pdu = (buildRegistration order pdu.rangeSubid pdu.vars).map fun registration =>
      [if pdu.command = AGENTX_MSG_REGISTER then pdu.time.toUInt8 else 0, UInt8.ofInt pdu.priority,
        UInt8.ofInt pdu.rangeSubid, 0] ++ registration := by
  unfold buildBody
  rcases hc with hc | hc
  · rw [hc]
    cases buildRegistration order pdu.rangeSubid pdu.vars <;> rfl
  · rw [hc]
    cases buildRegistration order pdu.rangeSubid pdu.vars <;> rfl

/-- A message as it is when the first octets of its registration have been read. -/
def AgentxPdu.withRegistration (pdu : AgentxPdu) (timeout priority subid : UInt8) : AgentxPdu :=
  { pdu with
    time := if pdu.command = AGENTX_MSG_REGISTER then timeout.toUInt64 else pdu.time
    priority := priority.toNat
    rangeSubid := subid.toNat }

theorem parseBody_registration (hc : IsRegistration pdu.command) (timeout priority subid : UInt8) :
    parseBody order pdu ([timeout, priority, subid, 0] ++ data) =
      parseRegistration order (pdu.withRegistration timeout priority subid) subid data := by
  unfold parseBody AgentxPdu.withRegistration
  rcases hc with hc | hc
  · rw [hc]
    simp only [field_front (by decide : 3 ≤ 4)]
    rfl
  · rw [hc]
    simp only [field_front (by decide : 3 ≤ 4)]
    rfl

theorem parseBody_bulk (hc : pdu.command = AGENTX_MSG_GETBULK) : parseBody order pdu data = (do
    let (head, rest) ← field 4 4 data
    let pdu := { pdu with
      errstat := parseShort order head
      errindex := parseShort order (head.drop 2) }
    pdu.withVars (parseRanges order rest pdu.vars)) := by
  unfold parseBody
  rw [hc]
  rfl

theorem parseBody_response (hc : pdu.command = AGENTX_MSG_RESPONSE) : parseBody order pdu data = (do
    let (time, rest) ← field 4 4 data
    let (errors, rest) ← field 4 4 rest
    let pdu := { pdu with
      flags := pdu.flags ||| PRIOT_UCD_MSG_FLAG_RESPONSE_PDU
      time := UInt64.ofInt (parseInt order time)
      errstat := parseShort order errors
      errindex := parseShort order (errors.drop 2) }
    pdu.withVars (parseVarbinds order rest pdu.vars)) := by
  unfold parseBody
  rw [hc]
  rfl

theorem varbinds_sent {sent before : AgentxPdu} {built : List UInt8} (hvars : ∀ v ∈ sent.vars, v.Sendable)
    (hempty : before.vars = []) (h : buildEach (reallocBuildVarbind order) sent.vars = .ok built) :
    before.withVars (parseVarbinds order built before.vars) =
      .ok (.noError, { before with vars := sent.vars.map Variable.received }) := by
  rw [hempty, parseVarbinds_build hvars h]
  rfl

theorem ranges_sent {sent before : AgentxPdu} {built : List UInt8} (hvars : ∀ v ∈ sent.vars, v.SendableRange)
    (hempty : before.vars = []) (h : buildEach (reallocBuildRange order) sent.vars = .ok built) :
    before.withVars (parseRanges order built before.vars) =
      .ok (.noError, { before with vars := sent.vars.map Variable.receivedRange }) := by
  rw [hempty, parseRanges_build hvars h]
  rfl

theorem SamePayload.of_vars {sent got : AgentxPdu} {c : Int} (hc : sent.command = c)
    (hnone : hasTimeout c = false ∧ hasUpTime c = false ∧ hasErrstat c = false ∧ hasErrindex c = false ∧
      hasPriority c = false) (hvars : got.vars = sent.received) : SamePayload sent got := by
  obtain ⟨h₁, h₂, h₃, h₄, h₅⟩ := hnone
  exact ⟨unsent hc h₁, unsent hc h₂, unsent hc h₃, unsent hc h₄, unsent hc h₅, hvars⟩

/-- The payload of a message is read back, and the fields of the header are left alone. -/
def BodyRead (order : Bool) (sent before : AgentxPdu) (built : List UInt8) : Prop :=
  ∃ got, parseBody order before built = .ok (.noError, got) ∧ SamePayload sent got ∧ SameHeader before got

section Body

variable {sent before : AgentxPdu} {built : List UInt8} (hcommand : before.command = sent.command)
  (hempty : before.vars = []) (h : buildBody order sent = .ok built)
include hcommand hempty

theorem bodyRead_empty (hc : sent.command = AGENTX_MSG_COMMITSET ∨ sent.command = AGENTX_MSG_UNDOSET ∨
    sent.command = AGENTX_MSG_CLEANUPSET ∨ sent.command = AGENTX_MSG_PING) (hvars : sent.vars = []) :
    BodyRead order sent before built := by
  have hreceived : sent.received = [] := by
    unfold AgentxPdu.received
    rw [hvars]
    split
    · rfl
    · split <;> rfl
  have hpdu : before.vars = sent.received := by rw [hempty, hreceived]
  refine ⟨before, ?_, ?_, ⟨rfl, rfl, rfl, rfl, rfl⟩⟩
  · unfold parseBody
    rw [hcommand]
    rcases hc with hc | hc | hc | hc
    · rw [hc]
      rfl
    · rw [hc]
      rfl
    · rw [hc]
      rfl
    · rw [hc]
      rfl
  · rcases hc with hc | hc | hc | hc
    · exact .of_vars hc (by decide) hpdu
    · exact .of_vars hc (by decide) hpdu
    · exact .of_vars hc (by decide) hpdu
    · exact .of_vars hc (by decide) hpdu

include h

theorem bodyRead_opening {name : ObjId} {s : List UInt8} (hc : sent.command = AGENTX_MSG_OPEN) (htime : sent.time < 256)
    (hvars : sent.vars = [⟨name, .string .octetStr s⟩]) (hname : name.length ≤ TYPES_MAX_OID_LEN)
    (hs : s.length < API_MAX_MSG_SIZE) : BodyRead order sent before built := by
  have hbuilt : built = [sent.time.toUInt8, 0, 0, 0] ++
      (reallocBuildOid order 0 name ++ reallocBuildString order s) := by
    unfold buildBody at h
    rw [hc, hvars] at h
    cases h
    rfl
  refine ⟨AgentxPdu.addVariable { before with time := sent.time.toUInt8.toUInt64 } (readOid name)
    (.string .octetStr s), ?_, ?_, ⟨rfl, rfl, rfl, rfl, rfl⟩⟩
  · unfold parseBody
    rw [hcommand, hc, hbuilt, if_pos rfl, field_front (by decide)]
    exact parseDescription_build hname hs
  · refine ⟨fun _ => timeout_octet htime, unsent hc rfl, unsent hc rfl, unsent hc rfl, unsent hc rfl, ?_⟩
    rw [received_varbinds hc rfl rfl, hvars]
    show before.vars ++ _ = _
    rw [hempty]
    rfl

theorem bodyRead_closing (hc : sent.command = AGENTX_MSG_CLOSE) (herrstat : 0 ≤ sent.errstat ∧ sent.errstat < 2 ^ 8)
    (hvars : sent.vars = []) : BodyRead order sent before built := by
  have hbuilt : built = [UInt8.ofInt sent.errstat, 0, 0, 0] := by
    unfold buildBody at h
    rw [hc] at h
    cases h
    rfl
  refine ⟨{ before with errstat := (UInt8.ofInt sent.errstat).toNat }, ?_, ?_, ⟨rfl, rfl, rfl, rfl, rfl⟩⟩
  · unfold parseBody
    rw [hcommand, hc, hbuilt]
    rfl
  · refine ⟨unsent hc rfl, unsent hc rfl, fun _ => toNat_octet herrstat, unsent hc rfl, unsent hc rfl, ?_⟩
    rw [received_varbinds hc rfl rfl, hvars]
    exact hempty

theorem bodyRead_registration {name : ObjId} {value : Value} (hc : IsRegistration sent.command)
    (htime : sent.command = AGENTX_MSG_REGISTER → sent.time < 256)
    (hpriority : 0 ≤ sent.priority ∧ sent.priority < 2 ^ 8) (hvars : sent.vars = [⟨name, value⟩])
    (hname : name.length ≤ TYPES_MAX_OID_LEN) (hbound : SendableBound sent.rangeSubid name value) :
    BodyRead order sent before built := by
  have hsubid : ((UInt8.ofInt sent.rangeSubid).toNat : Int) = sent.rangeSubid := toNat_octet (hbound.octet hname)
  rw [buildBody_registration hc, hvars] at h
  cases hbuilt : buildRegistration order sent.rangeSubid [⟨name, value⟩] with
  | error e =>
    rw [hbuilt] at h
    cases h
  | ok registration =>
    rw [hbuilt] at h
    cases h
    have hc' : IsRegistration before.command := by
      rw [hcommand]
      exact hc
    refine ⟨_, (parseBody_registration hc' _ _ _).trans (parseRegistration_build hname hbound hbuilt), ?_,
      ⟨rfl, rfl, rfl, rfl, rfl⟩⟩
    have hreceived : sent.received = [Variable.receivedBound ⟨name, value⟩] := by
      unfold AgentxPdu.received
      rw [hvars]
      rcases hc with hc | hc
      · rw [hc]
        rfl
      · rw [hc]
        rfl
    have hpdu : before.vars ++ [Variable.receivedBound ⟨name, value⟩] = sent.received := by
      rw [hempty, hreceived]
      rfl
    have hfields : ((UInt8.ofInt sent.priority).toNat : Int) = sent.priority ∧
        ((UInt8.ofInt sent.rangeSubid).toNat : Int) = sent.rangeSubid := ⟨toNat_octet hpriority, hsubid⟩
    rcases hc with hc | hc
    · refine ⟨fun _ => ?_, unsent hc rfl, unsent hc rfl, unsent hc rfl, fun _ => hfields, hpdu⟩
      unfold AgentxPdu.withRegistration
      rw [if_pos (hcommand.trans hc), if_pos hc]
      exact timeout_octet (htime hc)
    · exact ⟨unsent hc rfl, unsent hc rfl, unsent hc rfl, unsent hc rfl, fun _ => hfields, hpdu⟩

theorem bodyRead_bulk (hc : sent.command = AGENTX_MSG_GETBULK) (herrstat : 0 ≤ sent.errstat ∧ sent.errstat < 2 ^ 16)
    (herrindex : 0 ≤ sent.errindex ∧ sent.errindex < 2 ^ 16) (hvars : ∀ v ∈ sent.vars, v.SendableRange) :
    BodyRead order sent before built := by
  cases hranges : buildEach (reallocBuildRange order) sent.vars with
  | error e =>
    unfold buildBody at h
    rw [hc, hranges] at h
    cases h
  | ok ranges =>
    have hbuilt : built = reallocBuildShort order (UInt16.ofInt sent.errstat) ++
        (reallocBuildShort order (UInt16.ofInt sent.errindex) ++ ranges) := by
      unfold buildBody at h
      rw [hc, hranges] at h
      cases h
      rfl
    have hread : ∀ pdu : AgentxPdu, pdu.vars = [] →
        pdu.withVars (parseRanges order ranges pdu.vars) =
          .ok (.noError, { pdu with vars := sent.vars.map Variable.receivedRange }) := fun pdu hpdu =>
      ranges_sent hvars hpdu hranges
    refine ⟨{ before with
        errstat := parseShort order (reallocBuildShort order (UInt16.ofInt sent.errstat) ++
          reallocBuildShort order (UInt16.ofInt sent.errindex))
        errindex := parseShort order ((reallocBuildShort order (UInt16.ofInt sent.errstat) ++
          reallocBuildShort order (UInt16.ofInt sent.errindex)).drop 2)
        vars := sent.vars.map Variable.receivedRange }, ?_, ?_, ⟨rfl, rfl, rfl, rfl, rfl⟩⟩
    · have hc' : before.command = AGENTX_MSG_GETBULK := hcommand.trans hc
      rw [parseBody_bulk hc', hbuilt, field_shorts]
      exact hread _ hempty
    · exact ⟨unsent hc rfl, unsent hc rfl, fun _ => short_sent herrstat _, fun _ => second_short_sent herrindex,
        unsent hc rfl, (received_ranges hc rfl).symm⟩

theorem bodyRead_get (hc : IsGet sent.command) (hvars : ∀ v ∈ sent.vars, v.SendableRange) :
    BodyRead order sent before built := by
  have hc' : IsGet before.command := by
    rw [hcommand]
    exact hc
  rw [buildBody_get hc] at h
  refine ⟨_, (parseBody_get hc').trans (ranges_sent hvars hempty h), ?_, ⟨rfl, rfl, rfl, rfl, rfl⟩⟩
  rcases hc with hc | hc
  · exact .of_vars hc (by decide) (received_ranges hc rfl).symm
  · exact .of_vars hc (by decide) (received_ranges hc rfl).symm

theorem bodyRead_response (hc : sent.command = AGENTX_MSG_RESPONSE) (htime : sent.time.toNat < 2 ^ 32)
    (herrstat : 0 ≤ sent.errstat ∧ sent.errstat < 2 ^ 16) (herrindex : 0 ≤ sent.errindex ∧ sent.errindex < 2 ^ 16)
    (hvars : ∀ v ∈ sent.vars, v.Sendable) : BodyRead order sent before built := by
  cases hvarbinds : buildEach (reallocBuildVarbind order) sent.vars with
  | error e =>
    unfold buildBody at h
    rw [hc, hvarbinds] at h
    cases h
  | ok varbinds =>
    have hbuilt : built = reallocBuildInt order sent.time.toUInt32 ++
        (reallocBuildShort order (UInt16.ofInt sent.errstat) ++
          (reallocBuildShort order (UInt16.ofInt sent.errindex) ++ varbinds)) := by
      unfold buildBody at h
      rw [hc, hvarbinds] at h
      cases h
      rfl
    have hread : ∀ pdu : AgentxPdu, pdu.vars = [] →
        pdu.withVars (parseVarbinds order varbinds pdu.vars) =
          .ok (.noError, { pdu with vars := sent.vars.map Variable.received }) := fun pdu hpdu =>
      varbinds_sent hvars hpdu hvarbinds
    refine ⟨{ before with
        flags := before.flags ||| PRIOT_UCD_MSG_FLAG_RESPONSE_PDU
        time := UInt64.ofInt (parseInt order (reallocBuildInt order sent.time.toUInt32))
        errstat := parseShort order (reallocBuildShort order (UInt16.ofInt sent.errstat) ++
          reallocBuildShort order (UInt16.ofInt sent.errindex))
        errindex := parseShort order ((reallocBuildShort order (UInt16.ofInt sent.errstat) ++
          reallocBuildShort order (UInt16.ofInt sent.errindex)).drop 2)
        vars := sent.vars.map Variable.received }, ?_, ?_, ⟨rfl, rfl, rfl, rfl, rfl⟩⟩
    · have hc' : before.command = AGENTX_MSG_RESPONSE := hcommand.trans hc
      rw [parseBody_response hc', hbuilt, field_append (reallocBuildInt_length order _)]
      show (field 4 4 _ >>= _) = _
      rw [field_shorts]
      exact hread _ hempty
    · exact ⟨unsent hc rfl, fun _ => upTime_sent htime, fun _ => short_sent herrstat _,
        fun _ => second_short_sent herrindex, unsent hc rfl, (received_varbinds hc rfl rfl).symm⟩

theorem bodyRead_varbinds (hc : IsVarbinds sent.command) (hvars : ∀ v ∈ sent.vars, v.Sendable) :
    BodyRead order sent before built := by
  have hc' : IsVarbinds before.command := by
    rw [hcommand]
    exact hc
  rw [buildBody_varbinds hc] at h
  refine ⟨_, (parseBody_varbinds hc').trans (varbinds_sent hvars hempty h), ?_, ⟨rfl, rfl, rfl, rfl, rfl⟩⟩
  rcases hc with hc | hc | hc | hc
  · exact .of_vars hc (by decide) (received_varbinds hc rfl rfl).symm
  · exact .of_vars hc (by decide) (received_varbinds hc rfl rfl).symm
  · exact .of_vars hc (by decide) (received_varbinds hc rfl rfl).symm
  · exact .of_vars hc (by decide) (received_varbinds hc rfl rfl).symm

theorem bodyRead_capabilities {name : ObjId} {s : List UInt8} (hc : sent.command = AGENTX_MSG_ADD_AGENT_CAPS)
    (hvars : sent.vars = [⟨name, .string .octetStr s⟩]) (hname : name.length ≤ TYPES_MAX_OID_LEN)
    (hs : s.length < API_MAX_MSG_SIZE) : BodyRead order sent before built := by
  have hbuilt : built = reallocBuildOid order 0 name ++ reallocBuildString order s := by
    unfold buildBody at h
    rw [hc, hvars] at h
    cases h
    rfl
  refine ⟨before.addVariable (readOid name) (.string .octetStr s), ?_, ?_, ⟨rfl, rfl, rfl, rfl, rfl⟩⟩
  · rw [hbuilt, ← @parseDescription_build order before name s hname hs]
    unfold parseBody
    rw [hcommand, hc]
    rfl
  · refine .of_vars hc (by decide) ?_
    rw [received_varbinds hc rfl rfl, hvars]
    show before.vars ++ _ = _
    rw [hempty]
    rfl

theorem bodyRead_removal {name : ObjId} (hc : sent.command = AGENTX_MSG_REMOVE_AGENT_CAPS)
    (hvars : sent.vars = [⟨name, .null .null⟩]) (hname : name.length ≤ TYPES_MAX_OID_LEN) :
    BodyRead order sent before built := by
  have hbuilt : built = reallocBuildOid order 0 name := by
    unfold buildBody at h
    rw [hc, hvars] at h
    cases h
    rfl
  have hread : parseOid order TYPES_MAX_OID_LEN TYPES_MAX_OID_LEN (reallocBuildOid order 0 name ++ []) = _ :=
    names_build hname 0 []
  rw [append_nil] at hread
  refine ⟨before.addVariable (readOid name) (.null .null), ?_, ?_, ⟨rfl, rfl, rfl, rfl, rfl⟩⟩
  · unfold parseBody
    rw [hcommand, hc, hbuilt, hread]
    rfl
  · refine .of_vars hc (by decide) ?_
    rw [received_varbinds hc rfl rfl, hvars]
    show before.vars ++ _ = _
    rw [hempty]
    rfl

theorem parseBody_build (hsent : sent.Sendable) : BodyRead order sent before built := by
  cases hsent with
  | opening hc htime hvars hname hs => exact bodyRead_opening hcommand hempty h hc htime hvars hname hs
  | closing hc herrstat hvars => exact bodyRead_closing hcommand hempty h hc herrstat hvars
  | registration hc htime hpriority hvars hname hbound => exact bodyRead_registration hcommand hempty h hc htime hpriority hvars hname hbound
  | bulk hc herrstat herrindex hvars => exact bodyRead_bulk hcommand hempty h hc herrstat herrindex hvars
  | get hc hvars => exact bodyRead_get hcommand hempty h hc hvars
  | response hc htime herrstat herrindex hvars => exact bodyRead_response hcommand hempty h hc htime herrstat herrindex hvars
  | varbinds hc hvars => exact bodyRead_varbinds hcommand hempty h hc hvars
  | empty hc hvars => exact bodyRead_empty hcommand hempty hc hvars
  | capabilities hc hvars hname hs => exact bodyRead_capabilities hcommand hempty h hc hvars hname hs
  | removal hc hvars hname => exact bodyRead_removal hcommand hempty h hc hvars hname

end Body

/-! ## messages -/

/-- The context that is sent with a message. -/
def AgentxPdu.context (pdu : AgentxPdu) : Option (List UInt8) :=
  if pdu.flags &&& AGENTX_MSG_FLAG_NON_DEFAULT_CONTEXT ≠ 0 then some (pdu.community.getD []) else none

/-- What is read of a message. -/
structure Rebuilt (sent got : AgentxPdu) : Prop where
  command : got.command = sent.command
  sessid : SameInt sent.sessid got.sessid
  transid : SameInt sent.transid got.transid
  reqid : SameInt sent.reqid got.reqid
  payload : SamePayload sent got
  community : ∀ prepared, sent.prepare = .ok prepared → got.community = prepared.context

theorem id_sent (order : Bool) (v : Int) (rest : List UInt8) :
    SameInt v (parseInt order (reallocBuildInt order (UInt32.ofInt v) ++ rest)) := by
  refine ⟨?_, fun hlo hhi => parseInt_build order hlo hhi rest⟩
  have hsent := toNat_ofInt v
  rw [parseInt, parseUInt_build]
  unfold castInt
  split <;> omega

theorem low_flags (flags : UInt64) {m : UInt64} (hm : 255 &&& m = m) :
    (0 ||| flags.toUInt8.toUInt64) &&& m = flags &&& m := by
  have hlow : flags.toUInt8.toUInt64 = flags &&& 255 := by
    apply UInt64.toNat_inj.mp
    rw [UInt64.toUInt64_toUInt8, UInt64.toNat_mod, UInt64.toNat_and]
    exact (Nat.and_two_pow_sub_one_eq_mod flags.toNat 8).symm
  rw [UInt64.zero_or, hlow, UInt64.and_assoc, hm]

theorem controlFlags_and (octet : UInt8) : controlFlags (0 ||| octet.toUInt64) &&& AGENTX_FLAGS_NETWORK_BYTE_ORDER =
        (0 ||| octet.toUInt64) &&& AGENTX_FLAGS_NETWORK_BYTE_ORDER ∧
      controlFlags (0 ||| octet.toUInt64) &&& AGENTX_MSG_FLAG_NON_DEFAULT_CONTEXT =
        (0 ||| octet.toUInt64) &&& AGENTX_MSG_FLAG_NON_DEFAULT_CONTEXT := by
  have hall : ∀ i : Fin 256, controlFlags (0 ||| (UInt8.ofNat i).toUInt64) &&& AGENTX_FLAGS_NETWORK_BYTE_ORDER =
        (0 ||| (UInt8.ofNat i).toUInt64) &&& AGENTX_FLAGS_NETWORK_BYTE_ORDER ∧
      controlFlags (0 ||| (UInt8.ofNat i).toUInt64) &&& AGENTX_MSG_FLAG_NON_DEFAULT_CONTEXT =
        (0 ||| (UInt8.ofNat i).toUInt64) &&& AGENTX_MSG_FLAG_NON_DEFAULT_CONTEXT := by decide +kernel
  have hoctet := hall ⟨octet.toNat, octet.toNat_lt⟩
  rw [show UInt8.ofNat (⟨octet.toNat, octet.toNat_lt⟩ : Fin 256).val = octet from UInt8.ofNat_toNat] at hoctet
  exact hoctet

theorem header_length (order : Bool) (pdu : AgentxPdu) (payload : UInt32) : (header order pdu payload).length = 20 := by
  cases order <;> rfl

theorem prepare_eq {pdu prepared : AgentxPdu} (h : pdu.prepare = .ok prepared) :
    ∃ flags community, prepared = { pdu with flags := flags, community := community } := by
  have hcopy : ∀ {pdu prepared : AgentxPdu}, pdu.copyContext = .ok prepared →
      ∃ flags community, prepared = { pdu with flags := flags, community := community } := by
    intro pdu prepared h
    unfold AgentxPdu.copyContext at h
    split at h
    · dsimp only at h
      split at h
      · cases h
      · cases h
        exact ⟨_, _, rfl⟩
    · cases h
      exact ⟨_, _, rfl⟩
  unfold AgentxPdu.prepare at h
  split at h
  · obtain ⟨flags, community, hprepared⟩ := hcopy h
    exact ⟨flags, community, hprepared⟩
  · exact hcopy h

theorem withContext_eq (pdu : AgentxPdu) (s : List UInt8) : ∃ name len,
    pdu.withContext s = { pdu with community := some s, contextName := name, contextNameLen := len } := by
  unfold AgentxPdu.withContext
  dsimp only
  split
  · exact ⟨_, _, rfl⟩
  · exact ⟨_, _, rfl⟩

theorem AgentxPdu.Sendable.command (h : pdu.Sendable) : 0 ≤ pdu.command ∧ pdu.command < 2 ^ 8 := by
  cases h with
  | opening hc | closing hc | bulk hc | response hc | capabilities hc | removal hc =>
    rw [hc]
    decide
  | registration hc | get hc =>
    rcases hc with hc | hc
    · rw [hc]
      decide
    · rw [hc]
      decide
  | varbinds hc | empty hc =>
    rcases hc with hc | hc | hc | hc
    · rw [hc]
      decide
    · rw [hc]
      decide
    · rw [hc]
      decide
    · rw [hc]
      decide

/-- What the header of a message leaves, in one that was empty. -/
structure HeaderRead (sent got : AgentxPdu) : Prop where
  flags : got.flags = 0 ||| sent.flags.toUInt8.toUInt64
  command : got.command = sent.command
  sessid : SameInt sent.sessid got.sessid
  transid : SameInt sent.transid got.transid
  reqid : SameInt sent.reqid got.reqid
  community : got.community = none
  vars : got.vars = []

theorem header_drop (order : Bool) (sent : AgentxPdu) (payload : UInt32) (rest : List UInt8) :
    (header order sent payload ++ rest).drop 4 = reallocBuildInt order (UInt32.ofInt sent.sessid) ++
        (reallocBuildInt order (UInt32.ofInt sent.transid) ++
          (reallocBuildInt order (UInt32.ofInt sent.reqid) ++ (reallocBuildInt order payload ++ rest))) ∧
      (header order sent payload ++ rest).drop 8 = reallocBuildInt order (UInt32.ofInt sent.transid) ++
        (reallocBuildInt order (UInt32.ofInt sent.reqid) ++ (reallocBuildInt order payload ++ rest)) ∧
      (header order sent payload ++ rest).drop 12 =
        reallocBuildInt order (UInt32.ofInt sent.reqid) ++ (reallocBuildInt order payload ++ rest) ∧
      (header order sent payload ++ rest).drop 16 = reallocBuildInt order payload ++ rest := by
  have hint := reallocBuildInt_length order
  have hfour : (header order sent payload ++ rest).drop 4 = reallocBuildInt order (UInt32.ofInt sent.sessid) ++
      (reallocBuildInt order (UInt32.ofInt sent.transid) ++
        (reallocBuildInt order (UInt32.ofInt sent.reqid) ++ (reallocBuildInt order payload ++ rest))) := by
    unfold header
    rw [append_assoc]
    show reallocBuildInt order (UInt32.ofInt sent.sessid) ++ _ ++ rest = _
    simp only [append_assoc]
  have hnext : ∀ n, (header order sent payload ++ rest).drop (4 + n) =
      ((header order sent payload ++ rest).drop 4).drop n := fun n => drop_drop.symm
  refine ⟨hfour, ?_, ?_, ?_⟩
  · rw [hnext 4, hfour, drop_built (hint _)]
  · rw [hnext 8, hfour, ← drop_drop (i := 4) (j := 4), drop_built (hint _), drop_built (hint _)]
  · rw [hnext 12, hfour, ← drop_drop (i := 8) (j := 4), ← drop_drop (i := 4) (j := 4), drop_built (hint _),
      drop_built (hint _), drop_built (hint _)]

theorem parseHeader_build {sent : AgentxPdu} {payload : List UInt8} (hcommand : 0 ≤ sent.command ∧ sent.command < 2 ^ 8)
    (horder : order = decide (sent.flags &&& AGENTX_FLAGS_NETWORK_BYTE_ORDER ≠ 0)) (hlen : payload.length < 2 ^ 31) :
    ∃ got, parseHeader emptyPdu (header order sent (UInt32.ofNat payload.length) ++ payload) = (got, some payload) ∧
      HeaderRead sent got := by
  have htwenty := header_length order sent (UInt32.ofNat payload.length)
  obtain ⟨hsess, htrans, hreq, hpayload⟩ := header_drop order sent (UInt32.ofNat payload.length) payload
  have hflags : decide ((0 ||| sent.flags.toUInt8.toUInt64) &&& AGENTX_FLAGS_NETWORK_BYTE_ORDER ≠ 0) = order := by
    rw [low_flags _ (by decide), horder]
  have hsent : castInt (UInt32.ofNat payload.length).toNat = payload.length := by
    rw [UInt32.toNat_ofNat', Nat.mod_eq_of_lt (by omega)]
    exact Api.castInt_of_lt hlen
  have haccepted : HeaderAccepted (emptyPdu.flags |||
      ((header order sent (UInt32.ofNat payload.length) ++ payload).getD 2 0).toUInt64)
      (header order sent (UInt32.ofNat payload.length) ++ payload) := by
    refine ⟨by rw [length_append]; omega, ?_⟩
    show (((header order sent (UInt32.ofNat payload.length) ++ payload).drop 20).length : Int) =
      parseInt (decide ((0 ||| sent.flags.toUInt8.toUInt64) &&& AGENTX_FLAGS_NETWORK_BYTE_ORDER ≠ 0)) _ % 2 ^ 64
    rw [hflags, drop_built htwenty, hpayload, parseInt, parseUInt_build, hsent]
    omega
  refine ⟨emptyPdu.withHeader (header order sent (UInt32.ofNat payload.length) ++ payload), ?_, ?_⟩
  · rw [parseHeader_accepted haccepted, drop_built htwenty]
  · constructor
    · rfl
    · show ((UInt8.ofInt sent.command).toNat : Int) = sent.command
      exact toNat_octet hcommand
    · show SameInt sent.sessid (parseInt (decide ((0 ||| sent.flags.toUInt8.toUInt64) &&& _ ≠ 0)) _)
      rw [hflags, hsess]
      exact id_sent order _ _
    · show SameInt sent.transid (parseInt (decide ((0 ||| sent.flags.toUInt8.toUInt64) &&& _ ≠ 0)) _)
      rw [hflags, htrans]
      exact id_sent order _ _
    · show SameInt sent.reqid (parseInt (decide ((0 ||| sent.flags.toUInt8.toUInt64) &&& _ ≠ 0)) _)
      rw [hflags, hreq]
      exact id_sent order _ _
    · rfl
    · rfl

theorem parsePayload_build {pdu sent before : AgentxPdu} (hpdu : pdu.Sendable) (hcommand : before.command = pdu.command)
    (hempty : before.vars = []) (hnone : before.community = none)
    (horder : decide (before.flags &&& AGENTX_FLAGS_NETWORK_BYTE_ORDER ≠ 0) = order)
    (hflag : before.flags &&& AGENTX_MSG_FLAG_NON_DEFAULT_CONTEXT = sent.flags &&& AGENTX_MSG_FLAG_NON_DEFAULT_CONTEXT)
    (hcontext : ∀ s, sent.context = some s → s.length < API_MAX_MSG_SIZE) {body : List UInt8}
    (hbody : buildBody order pdu = .ok body) :
    ∃ got, parsePayload before (buildContext order sent ++ body) = .ok (.noError, got) ∧ SamePayload pdu got ∧
      SameHeader { before with community := sent.context } got := by
  unfold parsePayload
  by_cases hctx : sent.flags &&& AGENTX_MSG_FLAG_NON_DEFAULT_CONTEXT ≠ 0
  · have hcommunity : sent.context = some (sent.community.getD []) := if_pos hctx
    have hread : parseString order API_MAX_MSG_SIZE _ = _ := parseString_build (hcontext _ hcommunity) body
    obtain ⟨name, len, hwith⟩ := withContext_eq before (sent.community.getD [])
    have hcommand' : (before.withContext (sent.community.getD [])).command = pdu.command := by
      rw [hwith]
      exact hcommand
    have hempty' : (before.withContext (sent.community.getD [])).vars = [] := by
      rw [hwith]
      exact hempty
    obtain ⟨got, hgot, hsame, hheader⟩ := parseBody_build hcommand' hempty' hbody hpdu
    refine ⟨got, ?_, hsame, ?_⟩
    · simp only [horder, hflag, if_pos hctx, buildContext, hread, bind, Except.bind]
      exact hgot
    · rw [hwith] at hheader
      rw [hcommunity]
      exact ⟨hheader.command, hheader.sessid, hheader.transid, hheader.reqid, hheader.community⟩
  · have hcommunity : sent.context = none := if_neg hctx
    obtain ⟨got, hgot, hsame, hheader⟩ := parseBody_build hcommand hempty hbody hpdu
    refine ⟨got, ?_, hsame, ?_⟩
    · simp only [horder, hflag, if_neg hctx, buildContext, nil_append]
      exact hgot
    · rw [hcommunity]
      exact ⟨hheader.command, hheader.sessid, hheader.transid, hheader.reqid, hheader.community.trans hnone⟩

theorem buildBody_prepared {pdu prepared : AgentxPdu} (h : pdu.prepare = .ok prepared) :
    buildBody order prepared = buildBody order pdu := by
  obtain ⟨flags, community, rfl⟩ := prepare_eq h
  rfl

theorem parse_built {version : UInt64} (hversion : isAgentxVersion version) {pdu sent : AgentxPdu}
    (hpdu : pdu.Sendable) (hprepare : pdu.prepare = .ok sent)
    (hcontext : ∀ s, sent.context = some s → s.length < API_MAX_MSG_SIZE) {built : List UInt8}
    (h : reallocBuild pdu = .ok built) (hlen : built.length < 2 ^ 31) :
    ∃ read got, parse version emptyPdu built = .ok (.noError, got) ∧ SamePayload pdu got ∧ HeaderRead sent read ∧
      SameHeader { read with community := sent.context } got := by
  obtain ⟨order, horder⟩ : ∃ order : Bool, order = decide (sent.flags &&& AGENTX_FLAGS_NETWORK_BYTE_ORDER ≠ 0) :=
    ⟨_, rfl⟩
  have h : buildPrepared order sent = .ok built := by
    rw [horder]
    simp only [reallocBuild, hprepare] at h
    exact h
  have hprepared := @buildBody_prepared order pdu sent hprepare
  cases hbody : buildBody order pdu with
  | error e =>
    simp only [buildPrepared, hprepared, hbody] at h
    cases h
  | ok body =>
    simp only [buildPrepared, hprepared, hbody] at h
    cases h
    have hcommand : sent.command = pdu.command := by
      obtain ⟨flags, community, hsent⟩ := prepare_eq hprepare
      rw [hsent]
    rw [length_append, header_length] at hlen
    have hoctet : 0 ≤ sent.command ∧ sent.command < 2 ^ 8 := by
      rw [hcommand]
      exact hpdu.command
    have hshort : (buildContext order sent ++ body).length < 2 ^ 31 := by omega
    obtain ⟨read, hread, hheader⟩ := parseHeader_build hoctet horder hshort
    have hbits := controlFlags_and sent.flags.toUInt8
    have hread_order : decide (controlFlags read.flags &&& AGENTX_FLAGS_NETWORK_BYTE_ORDER ≠ 0) = order := by
      rw [hheader.flags, hbits.1, low_flags _ (by decide), horder]
    have hread_context : controlFlags read.flags &&& AGENTX_MSG_FLAG_NON_DEFAULT_CONTEXT =
        sent.flags &&& AGENTX_MSG_FLAG_NON_DEFAULT_CONTEXT := by
      rw [hheader.flags, hbits.2, low_flags _ (by decide)]
    obtain ⟨got, hgot, hpayload, hsame⟩ := @parsePayload_build order pdu sent
      { read with flags := controlFlags read.flags } hpdu (hheader.command.trans hcommand) hheader.vars
      hheader.community hread_order hread_context hcontext body hbody
    refine ⟨read, got, ?_, hpayload, hheader, hsame.command, hsame.sessid, hsame.transid, hsame.reqid,
      hsame.community⟩
    unfold parse
    rw [if_neg (not_not.mpr hversion), hread]
    exact hgot

/-- What is built of a message is read as the same message, in every session, with either order of the octets, with a
context and without. -/
theorem parse_reallocBuild {version : UInt64} (hversion : isAgentxVersion version) {pdu : AgentxPdu}
    (hpdu : pdu.Sendable)
    (hcontext : ∀ prepared s, pdu.prepare = .ok prepared → prepared.context = some s → s.length < API_MAX_MSG_SIZE)
    {built : List UInt8} (h : reallocBuild pdu = .ok built) (hlen : built.length < 2 ^ 31) :
    ∃ got, parse version emptyPdu built = .ok (.noError, got) ∧ Rebuilt pdu got := by
  cases hprepare : pdu.prepare with
  | error e =>
    simp only [reallocBuild, hprepare] at h
    cases h
  | ok sent =>
    obtain ⟨read, got, hgot, hpayload, hheader, hsame⟩ :=
      parse_built hversion hpdu hprepare (fun s hs => hcontext sent s hprepare hs) h hlen
    obtain ⟨flags, community, hsent⟩ := prepare_eq hprepare
    have hcommand : sent.command = pdu.command := by rw [hsent]
    have hids : sent.sessid = pdu.sessid ∧ sent.transid = pdu.transid ∧ sent.reqid = pdu.reqid := by
      rw [hsent]
      exact ⟨rfl, rfl, rfl⟩
    refine ⟨got, hgot, hsame.command.trans (hheader.command.trans hcommand), ?_, ?_, ?_, hpayload, ?_⟩
    · rw [hsame.sessid, ← hids.1]
      exact hheader.sessid
    · rw [hsame.transid, ← hids.2.1]
      exact hheader.transid
    · rw [hsame.reqid, ← hids.2.2]
      exact hheader.reqid
    · intro prepared hp
      rw [hprepare] at hp
      cases hp
      exact hsame.community

/-- An `AgentX` Notify with a context, for the network's order of the octets. -/
def notifyInContext : AgentxPdu :=
  { emptyPdu with
    command := AGENTX_MSG_NOTIFY
    flags := 0x18
    sessid := 7
    community := some [99]
    vars := [⟨[1, 3, 6, 1, 4, 1], .integer (-3)⟩] }

theorem parse_reallocBuild_notify : ∃ built got, reallocBuild notifyInContext = .ok built ∧
    parse 192 emptyPdu built = .ok (.noError, got) ∧ Rebuilt notifyInContext got := by
  have hpdu : notifyInContext.Sendable := .varbinds (.inr (.inr (.inl rfl))) fun v hv => by
    obtain rfl := mem_singleton.mp hv
    exact ⟨by decide, by decide, by decide⟩
  have hcontext : ∀ prepared s, notifyInContext.prepare = .ok prepared → prepared.context = some s →
      s.length < API_MAX_MSG_SIZE := by
    intro prepared s hp hs
    cases hp
    have hsent : notifyInContext.context = some [99] := if_pos (by decide)
    have hs : notifyInContext.context = some s := hs
    rw [hsent] at hs
    cases hs
    decide
  obtain ⟨got, hgot, hrebuilt⟩ := @parse_reallocBuild 192 (by decide) notifyInContext hpdu hcontext _ rfl (by decide)
  exact ⟨_, got, rfl, hgot, hrebuilt⟩

/-! ## what is not read as it was sent -/

theorem parseString_long {s : List UInt8} (hlong : API_MAX_MSG_SIZE < s.length) (hs : s.length < 2 ^ 16)
    (rest : List UInt8) : parseString order API_MAX_MSG_SIZE (reallocBuildString order s ++ rest) = .ok none := by
  have hsent : (UInt32.ofNat s.length).toNat = s.length := by
    rw [UInt32.toNat_ofNat']
    exact Nat.mod_eq_of_lt (by omega)
  have hlen : parseUInt order (reallocBuildString order s ++ rest) = s.length := by
    rw [reallocBuildString, append_assoc, parseUInt_build, hsent]
  have htotal : s.length + 4 ≤ (reallocBuildString order s ++ rest).length := by
    rw [reallocBuildString, length_append, length_append, length_append, reallocBuildInt_length]
    omega
  unfold parseString
  simp only [hlen]
  rw [if_neg (by omega), if_neg (by omega), if_pos hlong]

/-- A Notify of one string. -/
def notifyOf (s : List UInt8) : AgentxPdu :=
  { emptyPdu with command := AGENTX_MSG_NOTIFY, vars := [⟨[1, 3], .string .octetStr s⟩] }

theorem parse_notifyOf_long {s : List UInt8} (hlong : API_MAX_MSG_SIZE < s.length) (hs : s.length < 2 ^ 16) :
    ∃ built got, reallocBuild (notifyOf s) = .ok built ∧ parse 192 emptyPdu built = .ok (.asnParseErr, got) := by
  have hmax : API_MAX_MSG_SIZE = 1472 := rfl
  obtain ⟨varbind, hvarbind⟩ : ∃ varbind, varbind = reallocBuildShort false asnOCTET_STR.toUInt16 ++ [0, 0] ++
      (reallocBuildOid false 0 [1, 3] ++ reallocBuildString false s) ++ [] := ⟨_, rfl⟩
  have horder : false = decide ((0 : UInt64) &&& AGENTX_FLAGS_NETWORK_BYTE_ORDER ≠ 0) := by decide
  have hcontext : ¬ ((0 : UInt64) &&& AGENTX_MSG_FLAG_NON_DEFAULT_CONTEXT ≠ 0) := by decide
  have hbody : buildBody false (notifyOf s) = .ok varbind := by
    rw [buildBody_varbinds (.inr (.inr (.inl rfl))), hvarbind]
    rfl
  have hbuilt : reallocBuild (notifyOf s) =
      .ok (header false (notifyOf s) (UInt32.ofNat varbind.length) ++ varbind) := by
    have hprepare : (notifyOf s).prepare = .ok (notifyOf s) := rfl
    rw [reallocBuild, hprepare]
    show buildPrepared (decide ((0 : UInt64) &&& AGENTX_FLAGS_NETWORK_BYTE_ORDER ≠ 0)) (notifyOf s) = _
    have hnone : buildContext false (notifyOf s) = [] := if_neg hcontext
    rw [← horder, buildPrepared, hbody, hnone]
    rfl
  have hshort : varbind.length < 2 ^ 31 := by
    have hpadding : (padding s.length).length < 4 := by
      unfold padding
      split
      · rw [length_replicate]
        omega
      · decide
    rw [hvarbind]
    simp only [length_append, reallocBuildString, reallocBuildInt_length, reallocBuildShort_length]
    show 2 + 2 + (12 + (4 + (s.length + _))) + 0 < _
    omega
  have hoctet : 0 ≤ (notifyOf s).command ∧ (notifyOf s).command < 2 ^ 8 := by
    show (0 : Int) ≤ AGENTX_MSG_NOTIFY ∧ AGENTX_MSG_NOTIFY < 2 ^ 8
    decide
  obtain ⟨read, hread, hheader⟩ := @parseHeader_build false (notifyOf s) varbind hoctet horder hshort
  have hrefused : parseVarbind false varbind = .ok none := by
    rw [hvarbind, @parseVarbind_front false [1, 3] asnOCTET_STR (.string .octetStr) (by decide) rfl, parseValue, parseString_long hlong hs]
    rfl
  have hmore : varbind ≠ [] := by
    rw [hvarbind]
    exact cons_ne_nil _ _
  have hflags : read.flags = 0 := by
    rw [hheader.flags]
    show (0 ||| (0 : UInt64).toUInt8.toUInt64) = 0
    decide
  have hread_order : decide (controlFlags 0 &&& AGENTX_FLAGS_NETWORK_BYTE_ORDER ≠ 0) = false := by decide
  have hread_context : ¬ (controlFlags 0 &&& AGENTX_MSG_FLAG_NON_DEFAULT_CONTEXT ≠ 0) := by decide
  have hlist : parseBody false { read with flags := controlFlags 0 } varbind =
      .ok (.asnParseErr, { read with flags := controlFlags 0 }) := by
    have hcommand : IsVarbinds ({ read with flags := controlFlags 0 } : AgentxPdu).command :=
      .inr (.inr (.inl hheader.command))
    rw [parseBody_varbinds hcommand, parseVarbinds_refused hmore hrefused]
    rfl
  refine ⟨_, { read with flags := controlFlags 0 }, hbuilt, ?_⟩
  unfold parse
  rw [if_neg (by decide), hread]
  show parsePayload { read with flags := controlFlags read.flags } varbind = _
  rw [hflags]
  unfold parsePayload
  simp only [if_neg hread_context, hread_order]
  exact hlist

/-- A Get of one range that begins with the null OID, and includes it. -/
def getFromNull : AgentxPdu :=
  { emptyPdu with command := AGENTX_MSG_GET, vars := [⟨[], .range true [1, 4]⟩] }

/-- A registration of a range, as a subagent sends it. -/
def registerRange : AgentxPdu :=
  { emptyPdu with command := AGENTX_MSG_REGISTER, rangeSubid := 2, vars := [⟨[1, 3], .objectId [1, 9]⟩] }

/-- A string of 1473 octets is refused, a search range that includes the null OID is read as one that does not include
0.0, and the upper bound of a registered range is read as a range. -/
theorem parse_reallocBuild_changes :
    (∃ built got, reallocBuild (notifyOf (List.replicate 1473 65)) = .ok built ∧
      parse 192 emptyPdu built = .ok (.asnParseErr, got)) ∧
    (∃ built got, reallocBuild getFromNull = .ok built ∧ parse 192 emptyPdu built = .ok (.noError, got) ∧
      got.vars = [⟨[0, 0], .range false [1, 4]⟩]) ∧
    ∃ built got, reallocBuild registerRange = .ok built ∧ parse 192 emptyPdu built = .ok (.noError, got) ∧
      got.vars = [⟨[1, 3], .range true [1, 9]⟩] := by
  refine ⟨parse_notifyOf_long (by rw [length_replicate]; decide) (by rw [length_replicate]; decide), ?_, ?_⟩
  · have hpdu : getFromNull.Sendable := .get (.inl rfl) fun v hv => by
      obtain rfl := mem_singleton.mp hv
      exact .mk true (by decide) (by decide)
    obtain ⟨read, got, hgot, hpayload, -⟩ := @parse_built 192 (by decide) getFromNull getFromNull hpdu rfl
      (fun s hs => nomatch hs) _ rfl (by decide)
    exact ⟨_, got, rfl, hgot, hpayload.vars⟩
  · have hpdu : registerRange.Sendable := .registration (.inl rfl) (by decide) (by decide) rfl (by decide)
      (.inr ⟨by decide, by decide, 9, rfl⟩)
    obtain ⟨read, got, hgot, hpayload, -⟩ := @parse_built 192 (by decide) registerRange registerRange hpdu rfl
      (fun s hs => nomatch hs) _ rfl (by decide)
    exact ⟨_, got, rfl, hgot, hpayload.vars⟩

end Priot.Agentx
