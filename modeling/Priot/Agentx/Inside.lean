/-
# Where the parser stays inside the message

A run stays inside the message just when the walk over its fields comes to none that is cut off, to no string that
fills the buffer, and to no range subidentifier behind the buffer of the upper bound.
-/
import Priot.Agentx.Protocol

namespace Priot.Agentx

open List

variable {order : Bool} {data rest : List UInt8} {n oidLen strLen : Nat}

/-! ## the sizes of fields -/

/-- The octets of an OID that is accepted. -/
def oidSize (oidLen : Nat) (data : List UInt8) : Option Nat :=
  match data with
  | nSubid :: pre :: _ :: _ :: rest =>
    if nSubid = 0 ∧ pre = 0 then some 4
    else if oidLen < (if pre ≠ 0 then nSubid.toNat + 5 else nSubid.toNat) ∨ rest.length < 4 * nSubid.toNat then none
    else some (4 + 4 * nSubid.toNat)
  | _ => none

/-- The octets of a string that is accepted, with its padding. -/
def stringSize (order : Bool) (strLen : Nat) (data : List UInt8) : Option Nat :=
  if data.length < 4 then none
  else if data.length < (parseUInt order data + 4) % 2 ^ 32 ∨ parseUInt order data > strLen then none
  else some (padded (parseUInt order data) + 4)

/-- A string that is accepted does not fill the buffer, and its padding is there. -/
def StringInside (order : Bool) (data : List UInt8) : Prop :=
  ∀ k, stringSize order API_MAX_MSG_SIZE data = some k → parseUInt order data ≠ API_MAX_MSG_SIZE ∧ k ≤ data.length

def valueSize (order : Bool) (c : Case) (data : List UInt8) : Option Nat :=
  match c with
  | .integer | .unsigned _ => some 4
  | .string _ | .opaqueStr => stringSize order API_MAX_MSG_SIZE data
  | .objectId | .range _ => oidSize API_MAX_MSG_SIZE data
  | .counter64 => some 8
  | .null _ => some 0

def ValueInside (order : Bool) (c : Case) (data : List UInt8) : Prop :=
  match c with
  | .integer | .unsigned _ => 4 ≤ data.length
  | .string _ | .opaqueStr => StringInside order data
  | .counter64 => 8 ≤ data.length
  | .objectId | .range _ | .null _ => True

def varbindSize (order : Bool) (data : List UInt8) : Option Nat :=
  (oidSize TYPES_MAX_OID_LEN (data.drop 4)).bind fun k => (caseOf (parseShort order data)).bind fun c =>
    (valueSize order c (data.drop (4 + k))).map (4 + k + ·)

/-- The type of a VarBind is there, and the value if the name and the type are accepted. -/
structure VarbindInside (order : Bool) (data : List UInt8) : Prop where
  type : 4 ≤ data.length
  value : ∀ k c, oidSize TYPES_MAX_OID_LEN (data.drop 4) = some k → caseOf (parseShort order data) = some c →
    ValueInside order c (data.drop (4 + k))

/-- The walk over a VarBind list, up to its end or to one that is refused. -/
inductive VarbindsInside (order : Bool) : List UInt8 → Prop
  | nil : VarbindsInside order []
  | cons {data : List UInt8} (more : data ≠ []) (first : VarbindInside order data)
      (others : ∀ k, varbindSize order data = some k → VarbindsInside order (data.drop k)) : VarbindsInside order data

def DescriptionInside (order : Bool) (data : List UInt8) : Prop :=
  ∀ k, oidSize TYPES_MAX_OID_LEN data = some k → StringInside order (data.drop k)

/-- The four octets in front, and the upper bound of a range, that has its place. -/
structure RegistrationInside (data : List UInt8) : Prop where
  head : 4 ≤ data.length
  bound : ∀ k, oidSize TYPES_MAX_OID_LEN (data.drop 4) = some k → data.getD 2 0 ≠ 0 →
    4 ≤ (data.drop (4 + k)).length ∧ (data.getD 2 0).toNat ≤ TYPES_MAX_OID_LEN

def BodyInside (order : Bool) (command : Int) (data : List UInt8) : Prop :=
  if command = AGENTX_MSG_OPEN then 4 ≤ data.length ∧ DescriptionInside order (data.drop 4)
  else if command = AGENTX_MSG_CLOSE then 4 ≤ data.length
  else if command = AGENTX_MSG_UNREGISTER ∨ command = AGENTX_MSG_REGISTER then RegistrationInside data
  else if command = AGENTX_MSG_GETBULK then 4 ≤ data.length
  else if command = AGENTX_MSG_GETNEXT ∨ command = AGENTX_MSG_GET then True
  else if command = AGENTX_MSG_RESPONSE then 8 ≤ data.length ∧ VarbindsInside order (data.drop 8)
  else if command = AGENTX_MSG_INDEX_ALLOCATE ∨ command = AGENTX_MSG_INDEX_DEALLOCATE ∨
      command = AGENTX_MSG_NOTIFY ∨ command = AGENTX_MSG_TESTSET then VarbindsInside order data
  else if command = AGENTX_MSG_ADD_AGENT_CAPS then DescriptionInside order data
  else True

/-- The header is whole, and the payload is as long as it says. -/
def HeaderAccepted (flags : UInt64) (data : List UInt8) : Prop :=
  20 ≤ data.length ∧
    ((data.drop 20).length : Int) = parseInt (flags &&& AGENTX_FLAGS_NETWORK_BYTE_ORDER ≠ 0) (data.drop 16) % 2 ^ 64

/-- A context, if there is one, and what is behind it. -/
def PayloadInside (flags : UInt64) (command : Int) (data : List UInt8) : Prop :=
  let order : Bool := flags &&& AGENTX_FLAGS_NETWORK_BYTE_ORDER ≠ 0
  if flags &&& AGENTX_MSG_FLAG_NON_DEFAULT_CONTEXT ≠ 0 then
    StringInside order data ∧
      ∀ k, stringSize order API_MAX_MSG_SIZE data = some k → BodyInside order command (data.drop k)
  else BodyInside order command data

/-- Every field that the walk over a message comes to. `flags` is what the message has before. -/
def Inside (version flags : UInt64) (data : List UInt8) : Prop :=
  isAgentxVersion version = true → HeaderAccepted (flags ||| (data.getD 2 0).toUInt64) data →
    PayloadInside (controlFlags (flags ||| (data.getD 2 0).toUInt64)) (data.getD 1 0).toNat (data.drop 20)

/-! ## one field -/

/-- A reader has done nothing wrong, and what is left begins behind so many octets, or it has refused. -/
def Reads {α : Type} (x : Except Fault (Option (α × List UInt8))) (data : List UInt8) (size : Option Nat) : Prop :=
  ∃ r, x = .ok r ∧ r.map Prod.snd = size.map data.drop

/-- The OID in front of some octets. -/
def oidValue (order : Bool) (data : List UInt8) : ObjId :=
  match data with
  | nSubid :: pre :: _ :: _ :: rest =>
    if nSubid = 0 ∧ pre = 0 then [0, 0]
    else (if pre ≠ 0 then [1, 3, 6, 1, pre.toUInt32] else []) ++ parseSubids order nSubid.toNat rest
  | _ => []

theorem parseOid_eq {capacity : Nat} (h : oidLen ≤ capacity ∨ 260 ≤ capacity) : parseOid order capacity oidLen data =
      .ok ((oidSize oidLen data).map fun k => (data.getD 2 0, oidValue order data, data.drop k)) := by
  rcases data with _ | ⟨nSubid, _ | ⟨pre, _ | ⟨inc, _ | ⟨reserved, rest⟩⟩⟩⟩
  · rfl
  · rfl
  · rfl
  · rfl
  · have hn := nSubid.toNat_lt
    simp only [parseOid, oidSize, oidValue]
    by_cases hnull : nSubid = 0 ∧ pre = 0
    · simp only [if_pos hnull]
      rfl
    · simp only [if_neg hnull]
      have htmp : (if pre ≠ 0 then nSubid.toNat + 5 else nSubid.toNat) ≤ 260 := by split <;> omega
      generalize (if pre ≠ 0 then nSubid.toNat + 5 else nSubid.toNat) = tmpOidLen at htmp ⊢
      by_cases hlong : oidLen < tmpOidLen
      · have hrefused : oidLen < tmpOidLen ∨ rest.length < 4 * nSubid.toNat := .inl hlong
        rw [if_pos hlong, if_pos hrefused]
        rfl
      · by_cases hshort : rest.length < 4 * nSubid.toNat
        · have hrefused : oidLen < tmpOidLen ∨ rest.length < 4 * nSubid.toNat := .inr hshort
          rw [if_neg hlong, if_pos hshort, if_pos hrefused]
          rfl
        · have haccepted : ¬ (oidLen < tmpOidLen ∨ rest.length < 4 * nSubid.toNat) := not_or.mpr ⟨hlong, hshort⟩
          have hplace : ¬ capacity < tmpOidLen := by omega
          rw [if_neg hlong, if_neg hshort, if_neg hplace, if_neg haccepted, Option.map_some,
            show 4 + 4 * nSubid.toNat = 4 * nSubid.toNat + 4 from Nat.add_comm _ _]
          rfl

theorem parseString_ok_iff : (∃ r, parseString order API_MAX_MSG_SIZE data = .ok r) ↔ StringInside order data := by
  unfold parseString StringInside stringSize
  dsimp only
  rw [API_MAX_MSG_SIZE]
  split_ifs with h₁ h₂ h₃ h₄ h₅ h₆ h₇ <;> simp <;> omega

theorem parseString_eq (h : StringInside order data) : parseString order API_MAX_MSG_SIZE data =
    .ok ((stringSize order API_MAX_MSG_SIZE data).map fun k =>
      ((data.drop 4).take (parseUInt order data), data.drop k)) := by
  unfold StringInside at h
  unfold parseString
  unfold stringSize at h ⊢
  dsimp only
  rw [API_MAX_MSG_SIZE] at h ⊢
  by_cases hshort : data.length < 4
  · rw [if_pos hshort, if_pos hshort]
    rfl
  · rw [if_neg hshort] at h ⊢
    rw [if_neg hshort]
    by_cases hcut : data.length < (parseUInt order data + 4) % 2 ^ 32
    · rw [if_pos hcut, if_pos (.inl hcut)]
      rfl
    · by_cases hlong : parseUInt order data > 1472
      · rw [if_neg hcut, if_pos hlong, if_pos (.inr hlong)]
        rfl
      · have hok : ¬ (data.length < (parseUInt order data + 4) % 2 ^ 32 ∨ parseUInt order data > 1472) :=
          not_or.mpr ⟨hcut, hlong⟩
        rw [if_neg hok] at h ⊢
        obtain ⟨hfull, hpadding⟩ := h _ rfl
        rw [if_neg hcut, if_neg hlong, if_neg (by omega), if_neg (by omega), if_neg (by omega)]
        rfl

theorem field_ok_iff {read size : Nat} (hread : read ≤ size) :
    (∃ r, field read size data = .ok r) ↔ size ≤ data.length := by
  constructor
  · rintro ⟨r, hr⟩
    exact ((field_eq_ok hread).mp hr).1
  · exact fun h => ⟨_, (field_eq_ok hread).mpr ⟨h, rfl⟩⟩

/-! ## one VarBind -/

theorem Reads.isOk {α : Type} {x : Except Fault (Option (α × List UInt8))} {size : Option Nat}
    (h : Reads x data size) : ∃ r, x = .ok r :=
  let ⟨r, hr, _⟩ := h
  ⟨r, hr⟩

theorem parseValue_reads {c : Case} (h : ValueInside order c data) :
    Reads (parseValue order c data) data (valueSize order c data) := by
  have hfield : ∀ n, n ≤ data.length → field n n data = .ok (data.take n, data.drop n) := fun n hn =>
    (field_eq_ok (Nat.le_refl n)).mpr ⟨hn, rfl⟩
  have hoid : parseOid order (API_MAX_MSG_SIZE / 4) API_MAX_MSG_SIZE data = _ :=
    parseOid_eq (.inr (by decide))
  cases c with
  | integer =>
    refine ⟨some (.integer (parseInt order (data.take 4)), data.drop 4), ?_, rfl⟩
    rw [parseValue, hfield 4 h]
    rfl
  | unsigned t =>
    refine ⟨some (.unsigned t (parseUInt order (data.take 4)), data.drop 4), ?_, rfl⟩
    rw [parseValue, hfield 4 h]
    rfl
  | counter64 =>
    refine ⟨some (counter64Of order (data.take 8), data.drop 8), ?_, rfl⟩
    rw [parseValue, hfield 8 h]
    rfl
  | string t | opaqueStr =>
    rw [parseValue, parseString_eq h, valueSize]
    cases stringSize order API_MAX_MSG_SIZE data with
    | none => exact ⟨none, rfl, rfl⟩
    | some k => exact ⟨_, rfl, rfl⟩
  | objectId | range inclusive =>
    rw [parseValue, hoid, valueSize]
    cases oidSize API_MAX_MSG_SIZE data with
    | none => exact ⟨none, rfl, rfl⟩
    | some k => exact ⟨_, rfl, rfl⟩
  | null t => exact ⟨_, rfl, rfl⟩

theorem parseValue_ok_iff {c : Case} : (∃ r, parseValue order c data = .ok r) ↔ ValueInside order c data := by
  constructor
  · rintro ⟨r, hr⟩
    cases c with
    | integer | unsigned t | counter64 =>
      simp only [parseValue, bind, Except.bind] at hr
      split at hr
      · cases hr
      · rename_i hv
        exact (field_ok_iff (Nat.le_refl _)).mp ⟨_, hv⟩
    | string t | opaqueStr =>
      simp only [parseValue, bind, Except.bind] at hr
      split at hr
      · cases hr
      · rename_i hread
        exact parseString_ok_iff.mp ⟨_, hread⟩
    | objectId | range inclusive | null t => trivial
  · exact fun h => (parseValue_reads h).isOk

theorem parseShort_take : parseShort order (data.take 4) = parseShort order data := by
  unfold parseShort
  rw [take_take]
  rfl

theorem parseVarbind_accepted {k : Nat} {c : Case} (hdata : 4 ≤ data.length)
    (hk : oidSize TYPES_MAX_OID_LEN (data.drop 4) = some k) (hc : caseOf (parseShort order data) = some c) :
    parseVarbind order data = (parseValue order c (data.drop (4 + k))).map fun read =>
      read.map fun r => (⟨oidValue order (data.drop 4), r.1⟩, r.2) := by
  have hhead : field 2 4 data = .ok (data.take 4, data.drop 4) := (field_eq_ok (by omega)).mpr ⟨hdata, rfl⟩
  have hoid : parseOid order TYPES_MAX_OID_LEN TYPES_MAX_OID_LEN (data.drop 4) = _ := parseOid_eq (.inl (Nat.le_refl _))
  simp only [parseVarbind, hhead, hoid, hk, hc, bind, Except.bind, parseShort_take, Option.map_some, drop_drop]
  cases parseValue order c (data.drop (4 + k)) <;> rfl

theorem parseVarbind_refused (hdata : 4 ≤ data.length)
    (h : oidSize TYPES_MAX_OID_LEN (data.drop 4) = none ∨ caseOf (parseShort order data) = none) :
    parseVarbind order data = .ok none := by
  have hhead : field 2 4 data = .ok (data.take 4, data.drop 4) := (field_eq_ok (by omega)).mpr ⟨hdata, rfl⟩
  have hoid : parseOid order TYPES_MAX_OID_LEN TYPES_MAX_OID_LEN (data.drop 4) = _ := parseOid_eq (.inl (Nat.le_refl _))
  simp only [parseVarbind, hhead, hoid, bind, Except.bind, parseShort_take]
  cases hk : oidSize TYPES_MAX_OID_LEN (data.drop 4) with
  | none => rfl
  | some k =>
    rw [hk] at h
    simp only [Option.map_some, h.resolve_left (by simp)]
    rfl

theorem varbind_cases (order : Bool) (data : List UInt8) :
    (oidSize TYPES_MAX_OID_LEN (data.drop 4) = none ∨ caseOf (parseShort order data) = none) ∨
      ∃ k c, oidSize TYPES_MAX_OID_LEN (data.drop 4) = some k ∧ caseOf (parseShort order data) = some c := by
  cases oidSize TYPES_MAX_OID_LEN (data.drop 4) with
  | none => exact .inl (.inl rfl)
  | some k =>
    cases caseOf (parseShort order data) with
    | none => exact .inl (.inr rfl)
    | some c => exact .inr ⟨k, c, rfl, rfl⟩

theorem varbindSize_eq {k : Nat} {c : Case} (hk : oidSize TYPES_MAX_OID_LEN (data.drop 4) = some k)
    (hc : caseOf (parseShort order data) = some c) :
    varbindSize order data = (valueSize order c (data.drop (4 + k))).map (4 + k + ·) := by
  rw [varbindSize, hk, hc, Option.bind_some, Option.bind_some]

theorem varbindSize_refused
    (h : oidSize TYPES_MAX_OID_LEN (data.drop 4) = none ∨ caseOf (parseShort order data) = none) :
    varbindSize order data = none := by
  rw [varbindSize]
  rcases h with h | h
  · rw [h, Option.bind_none]
  · rw [h]
    cases oidSize TYPES_MAX_OID_LEN (data.drop 4) <;> rfl

theorem parseVarbind_reads (h : VarbindInside order data) :
    Reads (parseVarbind order data) data (varbindSize order data) := by
  rcases varbind_cases order data with hrefused | ⟨k, c, hk, hc⟩
  · rw [parseVarbind_refused h.type hrefused, varbindSize_refused hrefused]
    exact ⟨none, rfl, rfl⟩
  · obtain ⟨r, hr, hsize⟩ := parseValue_reads (h.value k c hk hc)
    rw [parseVarbind_accepted h.type hk hc, varbindSize_eq hk hc, hr]
    refine ⟨_, rfl, ?_⟩
    rw [Option.map_map, Option.map_map]
    have hdrop : data.drop ∘ (4 + k + ·) = (data.drop (4 + k)).drop := by
      funext j
      exact drop_drop.symm
    rw [hdrop, ← hsize]
    rfl

theorem parseVarbind_ok_iff : (∃ r, parseVarbind order data = .ok r) ↔ VarbindInside order data := by
  constructor
  · rintro ⟨r, hr⟩
    have htype : 4 ≤ data.length := by
      simp only [parseVarbind, bind, Except.bind] at hr
      split at hr
      · cases hr
      · rename_i hhead
        exact (field_ok_iff (by omega)).mp ⟨_, hhead⟩
    refine ⟨htype, fun k c hk hc => parseValue_ok_iff.mp ?_⟩
    rw [parseVarbind_accepted htype hk hc] at hr
    cases hvalue : parseValue order c (data.drop (4 + k)) with
    | error f => rw [hvalue] at hr; cases hr
    | ok read => exact ⟨read, rfl⟩
  · exact fun h => (parseVarbind_reads h).isOk

/-! ## lists -/

theorem parseVarbinds_fault {f : Fault} (hmore : data ≠ []) (h : parseVarbind order data = .error f)
    (vars : List Variable) : parseVarbinds order data vars = .error f := by
  rw [parseVarbinds, if_neg hmore]
  split
  · rename_i h'
    rw [h] at h'
    cases h'
    rfl
  · rename_i h'
    rw [h] at h'
    cases h'
  · rename_i h'
    rw [h] at h'
    cases h'

theorem parseVarbinds_refused (hmore : data ≠ []) (h : parseVarbind order data = .ok none) (vars : List Variable) :
    parseVarbinds order data vars = .ok (.asnParseErr, vars) := by
  rw [parseVarbinds, if_neg hmore]
  split
  · rename_i h'
    rw [h] at h'
    cases h'
  · rfl
  · rename_i h'
    rw [h] at h'
    cases h'

theorem parseVarbinds_more {v : Variable} (hmore : data ≠ [])
    (h : parseVarbind order data = .ok (some (v, rest))) (vars : List Variable) :
    parseVarbinds order data vars = parseVarbinds order rest (vars ++ [v]) := by
  rw [parseVarbinds, if_neg hmore]
  split
  · rename_i h'
    rw [h] at h'
    cases h'
  · rename_i h'
    rw [h] at h'
    cases h'
  · rename_i h'
    rw [h] at h'
    cases h'
    rfl

theorem VarbindsInside.first (h : VarbindsInside order data) (hmore : data ≠ []) : VarbindInside order data := by
  cases h with
  | nil => exact absurd rfl hmore
  | cons _ hfirst _ => exact hfirst

theorem VarbindsInside.others {k : Nat} (h : VarbindsInside order data) (hmore : data ≠ [])
    (hk : varbindSize order data = some k) : VarbindsInside order (data.drop k) := by
  cases h with
  | nil => exact absurd rfl hmore
  | cons _ _ hothers => exact hothers k hk

theorem varbindsInside_iff {v : Variable} (hmore : data ≠ []) (h : parseVarbind order data = .ok (some (v, rest))) :
    VarbindsInside order data ↔ VarbindsInside order rest := by
  have hfirst := parseVarbind_ok_iff.mp ⟨_, h⟩
  obtain ⟨r, hr, hsize⟩ := parseVarbind_reads hfirst
  rw [h] at hr
  cases hr
  obtain ⟨k, hk, hrest⟩ := Option.map_eq_some_iff.mp hsize.symm
  have hrest : data.drop k = rest := hrest
  constructor
  · intro hinside
    rw [← hrest]
    exact hinside.others hmore hk
  · refine fun hinside => .cons hmore hfirst fun j hj => ?_
    rw [hk, Option.some.injEq] at hj
    rw [← hj, hrest]
    exact hinside

theorem parseVarbinds_ok_iff (vars : List Variable) :
    (∃ r, parseVarbinds order data vars = .ok r) ↔ VarbindsInside order data := by
  induction data, vars using parseVarbinds.induct order with
  | case1 vars =>
    rw [parseVarbinds, if_pos rfl]
    exact ⟨fun _ => .nil, fun _ => ⟨_, rfl⟩⟩
  | case2 data vars hmore f hf =>
    rw [parseVarbinds_fault hmore hf]
    refine iff_of_false (fun ⟨r, hr⟩ => nomatch hr) fun hinside => ?_
    obtain ⟨r, hr⟩ := parseVarbind_ok_iff.mpr (hinside.first hmore)
    rw [hf] at hr
    cases hr
  | case3 data vars hmore hnone =>
    rw [parseVarbinds_refused hmore hnone]
    refine iff_of_true ⟨_, rfl⟩ (.cons hmore (parseVarbind_ok_iff.mp ⟨_, hnone⟩) fun k hk => ?_)
    obtain ⟨r, hr, hsize⟩ := parseVarbind_reads (parseVarbind_ok_iff.mp ⟨_, hnone⟩)
    rw [hnone] at hr
    cases hr
    rw [hk] at hsize
    cases hsize
  | case4 data vars hmore v rest hread ih =>
    rw [parseVarbinds_more hmore hread, varbindsInside_iff hmore hread]
    exact ih

theorem parseRange_ok (order : Bool) (data : List UInt8) : ∃ r, parseRange order data = .ok r := by
  have hoid : ∀ data, parseOid order TYPES_MAX_OID_LEN TYPES_MAX_OID_LEN data = _ :=
    fun _ => parseOid_eq (.inl (Nat.le_refl _))
  simp only [parseRange, hoid, bind, Except.bind]
  cases oidSize TYPES_MAX_OID_LEN data <;> exact ⟨_, rfl⟩

theorem parseRanges_ok (order : Bool) (data : List UInt8) (vars : List Variable) :
    ∃ r, parseRanges order data vars = .ok r := by
  induction data, vars using parseRanges.induct order with
  | case1 vars =>
    rw [parseRanges, if_pos rfl]
    exact ⟨_, rfl⟩
  | case2 data vars hmore f hf =>
    obtain ⟨r, hr⟩ := parseRange_ok order data
    rw [hf] at hr
    cases hr
  | case3 data vars hmore hnone =>
    rw [parseRanges, if_neg hmore]
    split
    · rename_i h
      rw [hnone] at h
      cases h
    · exact ⟨_, rfl⟩
    · rename_i h
      rw [hnone] at h
      cases h
  | case4 data vars hmore v rest hread ih =>
    rw [parseRanges, if_neg hmore]
    split
    · rename_i h
      rw [hread] at h
      cases h
    · rename_i h
      rw [hread] at h
      cases h
    · rename_i h
      rw [hread] at h
      cases h
      exact ih

/-! ## messages -/

variable {pdu : AgentxPdu}

theorem withVars_ok_iff {x : Except Fault (Returned × List Variable)} :
    (∃ r, pdu.withVars x = .ok r) ↔ ∃ r, x = .ok r := by
  cases x with
  | error f => exact iff_of_false (fun ⟨r, hr⟩ => nomatch hr) fun ⟨r, hr⟩ => nomatch hr
  | ok r => exact iff_of_true ⟨_, rfl⟩ ⟨_, rfl⟩

theorem parseOid_names (order : Bool) (data : List UInt8) : parseOid order TYPES_MAX_OID_LEN TYPES_MAX_OID_LEN data =
      .ok ((oidSize TYPES_MAX_OID_LEN data).map fun k => (data.getD 2 0, oidValue order data, data.drop k)) :=
  parseOid_eq (.inl (Nat.le_refl _))

theorem parseDescription_ok_iff : (∃ r, parseDescription order pdu data = .ok r) ↔ DescriptionInside order data := by
  simp only [parseDescription, parseOid_names, bind, Except.bind]
  unfold DescriptionInside
  cases oidSize TYPES_MAX_OID_LEN data with
  | none => exact iff_of_true ⟨_, rfl⟩ fun k hk => nomatch hk
  | some k =>
    simp only [Option.map_some, Option.some.injEq, forall_eq']
    rw [← parseString_ok_iff]
    cases parseString order API_MAX_MSG_SIZE (data.drop k) with
    | error f => exact iff_of_false (fun ⟨r, hr⟩ => nomatch hr) fun ⟨r, hr⟩ => nomatch hr
    | ok read => cases read <;> exact iff_of_true ⟨_, rfl⟩ ⟨_, rfl⟩

theorem parseRegistration_ok_iff {rangeSubid : UInt8} : (∃ r, parseRegistration order pdu rangeSubid data = .ok r) ↔
      ∀ k, oidSize TYPES_MAX_OID_LEN data = some k → rangeSubid ≠ 0 →
        4 ≤ (data.drop k).length ∧ rangeSubid.toNat ≤ TYPES_MAX_OID_LEN := by
  simp only [parseRegistration, parseOid_names, bind, Except.bind]
  cases oidSize TYPES_MAX_OID_LEN data with
  | none => exact iff_of_true ⟨_, rfl⟩ fun k hk => nomatch hk
  | some k =>
    simp only [Option.map_some, Option.some.injEq, forall_eq']
    by_cases hzero : rangeSubid = 0
    · rw [if_pos hzero]
      exact iff_of_true ⟨_, rfl⟩ fun h => absurd hzero h
    · rw [if_neg hzero]
      by_cases hbound : 4 ≤ (data.drop k).length
      · rw [(field_eq_ok (Nat.le_refl 4)).mpr ⟨hbound, rfl⟩]
        simp only
        split_ifs with hplace
        · exact iff_of_false (fun ⟨r, hr⟩ => nomatch hr) fun h => absurd (h hzero).2 (by omega)
        · exact iff_of_true ⟨_, rfl⟩ fun _ => ⟨hbound, by omega⟩
      · refine iff_of_false ?_ fun h => hbound (h hzero).1
        rintro ⟨r, hr⟩
        split at hr
        · cases hr
        · rename_i hv
          exact hbound ((field_ok_iff (Nat.le_refl 4)).mp ⟨_, hv⟩)

theorem field_bind_ok_iff {α : Type} {read size : Nat} (hread : read ≤ size)
    {f : List UInt8 × List UInt8 → Except Fault α} {P : Prop}
    (h : size ≤ data.length → ((∃ r, f (data.take size, data.drop size) = .ok r) ↔ P)) :
    (∃ r, (field read size data >>= f) = .ok r) ↔ size ≤ data.length ∧ P := by
  by_cases hsize : size ≤ data.length
  · rw [(field_eq_ok hread).mpr ⟨hsize, rfl⟩]
    exact (h hsize).trans ⟨fun hp => ⟨hsize, hp⟩, And.right⟩
  · refine iff_of_false ?_ fun hp => hsize hp.1
    rintro ⟨r, hr⟩
    cases hfield : field read size data with
    | error f => rw [hfield] at hr; cases hr
    | ok x => exact hsize ((field_ok_iff hread).mp ⟨x, hfield⟩)

theorem parseBody_ok_iff : (∃ r, parseBody order pdu data = .ok r) ↔ BodyInside order pdu.command data := by
  have hone : 1 ≤ 4 := by decide
  have hthree : 3 ≤ 4 := by decide
  have hdone : ∀ {α : Type} (r : α), (∃ r', (pure r : Except Fault α) = .ok r') ↔ True :=
    fun r => iff_of_true ⟨r, rfl⟩ trivial
  unfold parseBody BodyInside
  by_cases h : pdu.command = AGENTX_MSG_OPEN
  · rw [if_pos h, if_pos h]
    exact field_bind_ok_iff hone fun _ => parseDescription_ok_iff
  rw [if_neg h, if_neg h]
  clear h
  by_cases h : pdu.command = AGENTX_MSG_CLOSE
  · rw [if_pos h, if_pos h]
    refine (field_bind_ok_iff hone fun _ => ?_).trans (iff_of_eq (and_true _))
    exact iff_of_true ⟨_, rfl⟩ trivial
  rw [if_neg h, if_neg h]
  clear h
  by_cases h : pdu.command = AGENTX_MSG_UNREGISTER ∨ pdu.command = AGENTX_MSG_REGISTER
  · rw [if_pos h, if_pos h]
    refine (field_bind_ok_iff hthree fun hlen => parseRegistration_ok_iff).trans ?_
    have hsubid : (data.take 4).getD 2 0 = data.getD 2 0 := by
      rw [getD_eq_getElem?_getD, getD_eq_getElem?_getD, getElem?_take_of_lt (by decide)]
    simp only [hsubid, drop_drop]
    exact ⟨fun h => ⟨h.1, h.2⟩, fun h => ⟨h.head, h.bound⟩⟩
  rw [if_neg h, if_neg h]
  clear h
  by_cases h : pdu.command = AGENTX_MSG_GETBULK
  · rw [if_pos h, if_pos h]
    refine (field_bind_ok_iff (Nat.le_refl 4) fun _ => ?_).trans (iff_of_eq (and_true _))
    exact iff_of_true (withVars_ok_iff.mpr (parseRanges_ok order _ _)) trivial
  rw [if_neg h, if_neg h]
  clear h
  by_cases h : pdu.command = AGENTX_MSG_GETNEXT ∨ pdu.command = AGENTX_MSG_GET
  · rw [if_pos h, if_pos h]
    exact iff_of_true (withVars_ok_iff.mpr (parseRanges_ok order data pdu.vars)) trivial
  rw [if_neg h, if_neg h]
  clear h
  by_cases h : pdu.command = AGENTX_MSG_RESPONSE
  · rw [if_pos h, if_pos h]
    refine (field_bind_ok_iff (Nat.le_refl 4) fun _ =>
      field_bind_ok_iff (Nat.le_refl 4) fun _ => withVars_ok_iff.trans (parseVarbinds_ok_iff _)).trans ?_
    rw [drop_drop, length_drop]
    constructor
    · rintro ⟨h₁, h₂, hlist⟩
      exact ⟨by omega, hlist⟩
    · rintro ⟨h₁, hlist⟩
      exact ⟨by omega, by omega, hlist⟩
  rw [if_neg h, if_neg h]
  clear h
  by_cases h : pdu.command = AGENTX_MSG_INDEX_ALLOCATE ∨ pdu.command = AGENTX_MSG_INDEX_DEALLOCATE ∨
      pdu.command = AGENTX_MSG_NOTIFY ∨ pdu.command = AGENTX_MSG_TESTSET
  · rw [if_pos h, if_pos h]
    exact withVars_ok_iff.trans (parseVarbinds_ok_iff pdu.vars)
  rw [if_neg h, if_neg h]
  clear h
  by_cases hempty : pdu.command = AGENTX_MSG_COMMITSET ∨ pdu.command = AGENTX_MSG_UNDOSET ∨
      pdu.command = AGENTX_MSG_CLEANUPSET ∨ pdu.command = AGENTX_MSG_PING
  · have hadd : ¬ pdu.command = AGENTX_MSG_ADD_AGENT_CAPS := by
      intro h
      rw [h] at hempty
      exact absurd hempty (by decide)
    rw [if_pos hempty, if_neg hadd]
    exact hdone _
  rw [if_neg hempty]
  by_cases h : pdu.command = AGENTX_MSG_ADD_AGENT_CAPS
  · rw [if_pos h, if_pos h]
    exact parseDescription_ok_iff
  rw [if_neg h, if_neg h]
  by_cases h : pdu.command = AGENTX_MSG_REMOVE_AGENT_CAPS
  · rw [if_pos h]
    simp only [parseOid_names, bind, Except.bind]
    cases oidSize TYPES_MAX_OID_LEN data <;> exact iff_of_true ⟨_, rfl⟩ trivial
  · rw [if_neg h]
    exact hdone _

theorem parseHeader_accepted (h : HeaderAccepted (pdu.flags ||| (data.getD 2 0).toUInt64) data) :
    parseHeader pdu data = (pdu.withHeader data, some (data.drop 20)) := by
  unfold parseHeader
  rw [if_neg (by have := h.1; omega)]
  exact congrArg (Prod.mk _) (if_neg (not_not.mpr h.2))

theorem parseHeader_refused (h : ¬ HeaderAccepted (pdu.flags ||| (data.getD 2 0).toUInt64) data) :
    (parseHeader pdu data).2 = none := by
  unfold parseHeader
  by_cases hshort : data.length < 20
  · rw [if_pos hshort]
  · rw [if_neg hshort]
    exact if_pos fun hlen => h ⟨by omega, hlen⟩

theorem withContext_command (pdu : AgentxPdu) (s : List UInt8) : (pdu.withContext s).command = pdu.command := by
  unfold AgentxPdu.withContext
  dsimp only
  split <;> rfl

theorem parsePayload_ok_iff : (∃ r, parsePayload pdu data = .ok r) ↔ PayloadInside pdu.flags pdu.command data := by
  unfold parsePayload PayloadInside
  by_cases hcontext : pdu.flags &&& AGENTX_MSG_FLAG_NON_DEFAULT_CONTEXT ≠ 0
  · simp only [if_pos hcontext]
    generalize (decide (pdu.flags &&& AGENTX_FLAGS_NETWORK_BYTE_ORDER ≠ 0)) = order
    rw [← parseString_ok_iff]
    constructor
    · rintro ⟨r, hr⟩
      cases hread : parseString order API_MAX_MSG_SIZE data with
      | error f =>
        rw [hread] at hr
        cases hr
      | ok read =>
        refine ⟨⟨_, rfl⟩, fun k hk => ?_⟩
        rw [hread] at hr
        rw [parseString_eq (parseString_ok_iff.mp ⟨_, hread⟩), hk] at hread
        cases hread
        rw [← withContext_command pdu]
        exact parseBody_ok_iff.mp ⟨r, hr⟩
    · rintro ⟨hinside, hbody⟩
      rw [parseString_eq (parseString_ok_iff.mp hinside)]
      cases hk : stringSize order API_MAX_MSG_SIZE data with
      | none => exact ⟨_, rfl⟩
      | some k =>
        refine parseBody_ok_iff.mpr ?_
        rw [withContext_command]
        exact hbody k hk
  · simp only [if_neg hcontext]
    exact parseBody_ok_iff

/-- A message is parsed inside its octets, and inside the buffers, if and only if the walk over its fields comes to
none that is not there. -/
theorem parse_ok_iff (version : UInt64) (pdu : AgentxPdu) (data : List UInt8) :
    (∃ r, parse version pdu data = .ok r) ↔ Inside version pdu.flags data := by
  unfold parse Inside
  by_cases hversion : isAgentxVersion version = true
  · rw [if_neg (not_not.mpr hversion)]
    by_cases hheader : HeaderAccepted (pdu.flags ||| (data.getD 2 0).toUInt64) data
    · rw [parseHeader_accepted hheader]
      exact parsePayload_ok_iff.trans ⟨fun h _ _ => h, fun h => h hversion hheader⟩
    · -- the parser waits for the rest
      have hnone := parseHeader_refused hheader
      refine iff_of_true ?_ fun _ h => absurd h hheader
      split
      · exact ⟨_, rfl⟩
      · rename_i h
        rw [h] at hnone
        cases hnone
  · rw [if_pos hversion]
    exact iff_of_true ⟨_, rfl⟩ fun h => absurd h hversion

/-! ## a Close without its reason -/

/-- A message as `calloc` leaves it. -/
def emptyPdu : AgentxPdu :=
  ⟨0, 0, 0, 0, 0, 0, 0, 0, 0, 0, 0, none, none, 0, []⟩

/-- The header of a Close, which says that there is no payload. -/
def closeHeader : List UInt8 := [1, 2, 0, 0, 0, 0, 0, 0, 0, 0, 0, 0, 0, 0, 0, 0, 0, 0, 0, 0]

theorem parse_not_inside :
    ¬ ∀ (version : UInt64) (pdu : AgentxPdu) (data : List UInt8), ∃ r, parse version pdu data = .ok r := by
  intro h
  obtain ⟨r, hr⟩ := h 193 emptyPdu closeHeader
  have hfault : parse 193 emptyPdu closeHeader = .error .read := by rfl
  rw [hfault] at hr
  cases hr

end Priot.Agentx
