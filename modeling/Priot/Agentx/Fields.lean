/-
# Fields that are read as they were built

Each field is read back from the octets that it was built to, whatever follows them, and a list by induction over its
variables.
-/
import Priot.Agentx.Inside
import Priot.Agentx.Build

namespace Priot.Agentx

open Api Octets List

variable {order : Bool} {rest : List UInt8}

/-! ## numbers -/

theorem beNat_octetsOf (value : UInt32) : beNat (octetsOf value) = value.toNat := by
  have hlt := value.toNat_lt
  simp only [octetsOf, Octets.beNat_cons, length_cons, length_nil, Octets.beNat_nil, UInt32.toNat_toUInt8,
    UInt32.toNat_shiftRight, Nat.shiftRight_eq_div_pow]
  simp
  omega

theorem reallocBuildInt_length (order : Bool) (value : UInt32) : (reallocBuildInt order value).length = 4 := by
  cases order <;> rfl

theorem parseUInt_build (order : Bool) (value : UInt32) (rest : List UInt8) :
    parseUInt order (reallocBuildInt order value ++ rest) = value.toNat := by
  unfold parseUInt
  rw [take_left' (reallocBuildInt_length order value), ← beNat_octetsOf]
  cases order
  · rfl
  · rfl

theorem parseShort_build (order : Bool) (value : UInt16) (rest : List UInt8) :
    parseShort order (reallocBuildShort order value ++ rest) = value.toNat := by
  have hlt := value.toNat_lt
  have hvalue : beNat [(value >>> 8).toUInt8, value.toUInt8] = value.toNat := by
    simp only [Octets.beNat_cons, length_cons, length_nil, Octets.beNat_nil, UInt16.toNat_toUInt8,
      UInt16.toNat_shiftRight, Nat.shiftRight_eq_div_pow]
    simp
    omega
  rw [← hvalue]
  cases order
  · rfl
  · rfl

/-! ## OIDs and strings -/

variable {built : List UInt8}

theorem drop_built {n : Nat} (h : built.length = n) (rest : List UInt8) :
    (built ++ rest).drop n = rest := drop_left' h

theorem subids_length (order : Bool) (name : ObjId) :
    (name.flatMap (reallocBuildInt order)).length = 4 * name.length := by
  induction name with
  | nil => rfl
  | cons subid name ih =>
    rw [flatMap_cons, length_append, reallocBuildInt_length, ih, length_cons]
    omega

theorem parseSubids_build (order : Bool) (name : ObjId) (rest : List UInt8) :
    parseSubids order name.length (name.flatMap (reallocBuildInt order) ++ rest) = name := by
  induction name with
  | nil => rfl
  | cons subid name ih =>
    rw [length_cons, parseSubids, flatMap_cons, append_assoc, parseUInt_build,
      drop_built (reallocBuildInt_length order subid), ih, UInt32.ofNat_toNat]

/-- What is read for an OID: the null OID is read as 0.0. -/
def readOid (name : ObjId) : ObjId :=
  if name = [] then [0, 0] else name

theorem internet_append {name : ObjId} (h : IsInternet name) :
    [1, 3, 6, 1, (name.getD 4 0).toUInt8.toUInt32] ++ name.drop 5 = name := by
  obtain ⟨hlen, hfront, -, hsmall⟩ := h
  rcases name with _ | ⟨a, _ | ⟨b, _ | ⟨c, _ | ⟨d, _ | ⟨e, name⟩⟩⟩⟩⟩
  · simp at hlen
  · simp at hlen
  · simp at hlen
  · simp at hlen
  · simp at hlen
  · have hfront : [a, b, c, d] = [1, 3, 6, 1] := hfront
    have hsmall : e < 256 := hsmall
    have hcast : e.toUInt8.toUInt32 = e := by
      apply UInt32.toNat_inj.mp
      have : e.toNat < 256 := hsmall
      rw [UInt8.toNat_toUInt32, UInt32.toNat_toUInt8]
      exact Nat.mod_eq_of_lt this
    show [1, 3, 6, 1, e.toUInt8.toUInt32] ++ name = [a, b, c, d] ++ (e :: name)
    rw [hfront, hcast]
    rfl

theorem parseOid_octets {capacity oidLen : Nat} {pre : UInt8} {name : ObjId} (hnull : ¬ (name = [] ∧ pre = 0))
    (hname : name.length < 256) (hlen : (if pre ≠ 0 then name.length + 5 else name.length) ≤ oidLen)
    (hplace : (if pre ≠ 0 then name.length + 5 else name.length) ≤ capacity) (inclusive : UInt8) (rest : List UInt8) :
    parseOid order capacity oidLen (oidOctets order pre inclusive name ++ rest) =
      .ok (some (inclusive, (if pre ≠ 0 then [1, 3, 6, 1, pre.toUInt32] else []) ++ name, rest)) := by
  have hcount : (UInt8.ofNat name.length).toNat = name.length := Octets.toNat_ofNat_of_lt hname
  have hzero : ¬ (UInt8.ofNat name.length = 0 ∧ pre = 0) := by
    rintro ⟨hcount0, hpre⟩
    rw [hcount0] at hcount
    exact hnull ⟨length_eq_zero_iff.mp hcount.symm, hpre⟩
  have hsent := subids_length order name
  show parseOid order capacity oidLen (UInt8.ofNat name.length :: pre :: inclusive :: 0 ::
    (name.flatMap (reallocBuildInt order) ++ rest)) = _
  simp only [parseOid]
  rw [if_neg hzero, hcount, if_neg (by omega), if_neg (by rw [length_append]; omega), if_neg (by omega),
    parseSubids_build, drop_built hsent]

theorem parseOid_build {capacity oidLen : Nat} {name : ObjId} (hname : name.length ≤ TYPES_MAX_OID_LEN)
    (hlen : TYPES_MAX_OID_LEN ≤ oidLen) (hplace : TYPES_MAX_OID_LEN ≤ capacity) (inclusive : UInt8)
    (rest : List UInt8) : parseOid order capacity oidLen (reallocBuildOid order inclusive name ++ rest) =
      .ok (some (if name = [] then 0 else inclusive, readOid name, rest)) := by
  have hmax : TYPES_MAX_OID_LEN = 128 := rfl
  unfold reallocBuildOid readOid
  by_cases hnull : name = []
  · subst hnull
    rfl
  dsimp only
  rw [if_neg hnull, if_neg hnull]
  by_cases hinternet : IsInternet name
  · have hwhole := internet_append hinternet
    rw [if_pos hinternet]
    obtain ⟨hfive, -, hpos, hsmall⟩ := hinternet
    have hpre : (name.getD 4 0).toUInt8 ≠ 0 := by
      intro h
      have hlt : (name.getD 4 0).toNat < 256 := hsmall
      have hzero : (name.getD 4 0).toNat % 256 = 0 := by
        rw [← UInt32.toNat_toUInt8, h]
        rfl
      have hpos : 0 < (name.getD 4 0).toNat := hpos
      omega
    rw [parseOid_octets (fun h => hpre h.2) (by rw [length_drop]; omega)
      (by rw [if_pos hpre, length_drop]; omega) (by rw [if_pos hpre, length_drop]; omega), if_pos hpre, hwhole]
  · rw [if_neg hinternet, parseOid_octets (fun h => hnull h.1) (by omega)
      (by rw [if_neg (not_not.mpr rfl)]; omega) (by rw [if_neg (not_not.mpr rfl)]; omega), if_neg (not_not.mpr rfl)]
    rfl

theorem padded_length (s : List UInt8) : (s ++ padding s.length).length = padded s.length := by
  unfold padding padded
  rw [length_append]
  split
  · rw [length_replicate]
    omega
  · rw [length_nil]
    omega

theorem parseString_build {s : List UInt8} (hs : s.length < API_MAX_MSG_SIZE) (rest : List UInt8) :
    parseString order API_MAX_MSG_SIZE (reallocBuildString order s ++ rest) = .ok (some (s, rest)) := by
  have hmax : API_MAX_MSG_SIZE = 1472 := rfl
  have hint := reallocBuildInt_length order (UInt32.ofNat s.length)
  have hsent : (UInt32.ofNat s.length).toNat = s.length := by
    rw [UInt32.toNat_ofNat']
    exact Nat.mod_eq_of_lt (by omega)
  have hpadded := padded_length s
  have hle : s.length ≤ padded s.length := by
    unfold padded
    omega
  have htotal : (reallocBuildString order s ++ rest).length = 4 + padded s.length + rest.length := by
    rw [reallocBuildString, length_append, length_append, hint, hpadded]
  have hlen : parseUInt order (reallocBuildString order s ++ rest) = s.length := by
    rw [reallocBuildString, append_assoc, parseUInt_build, hsent]
  have hdrop : (reallocBuildString order s ++ rest).drop 4 = s ++ padding s.length ++ rest := by
    rw [reallocBuildString, append_assoc, drop_built hint]
  have hrest : (reallocBuildString order s ++ rest).drop (padded s.length + 4) = rest := by
    rw [Nat.add_comm, ← drop_drop, hdrop, drop_built hpadded]
  unfold parseString
  simp only [hlen]
  rw [if_neg (by omega), if_neg (by omega), if_neg (by omega), if_neg (by omega), if_neg (by omega),
    if_neg (by omega), hdrop, hrest, append_assoc, take_left' rfl]

/-! ## variables -/

/-- A value that fits its width on the wire. A string leaves room for the zero that is written behind it, and an
Opaque does not begin with the tag of a special one. -/
def Value.Sendable : Value → Prop
  | .integer v => -2 ^ 31 ≤ v ∧ v < 2 ^ 31
  | .unsigned _ v => v < 2 ^ 32
  | .string .octetStr s | .string .ipaddress s => s.length < API_MAX_MSG_SIZE
  | .string .opaqueStr s => s.length < API_MAX_MSG_SIZE ∧ s.head? ≠ some asnOPAQUE_TAG1
  | .objectId o => o.length ≤ TYPES_MAX_OID_LEN
  | .counter64 _ _ | .null _ | .float _ | .double _ => True
  | .string .nsap _ | .range _ _ | .opaque64 _ _ | .bitString _ => False

/-- The value that is read for one that is sent. -/
def Value.received : Value → Value
  | .objectId o => .objectId (readOid o)
  | value => value

theorem field_append {n : Nat} (h : built.length = n) (rest : List UInt8) :
    field n n (built ++ rest) = .ok (built, rest) := by
  refine (field_eq_ok (Nat.le_refl n)).mpr ⟨?_, ?_⟩
  · rw [length_append]
    omega
  · rw [take_left' h, drop_built h]

theorem toNat_ofInt (v : Int) : ((UInt32.ofInt v).toNat : Int) = v % 2 ^ 32 := by
  rw [UInt32.ofInt, UInt32.toNat_ofNat']
  omega

theorem parseInt_build (order : Bool) {v : Int} (hlo : -2 ^ 31 ≤ v) (hhi : v < 2 ^ 31) (rest : List UInt8) :
    parseInt order (reallocBuildInt order (UInt32.ofInt v) ++ rest) = v := by
  have hsent := toNat_ofInt v
  rw [parseInt, parseUInt_build]
  unfold castInt
  split <;> omega

theorem opaqueValue_plain {s : List UInt8} (h : s.head? ≠ some asnOPAQUE_TAG1) :
    opaqueValue s = .string .opaqueStr s := by
  rcases s with _ | ⟨tag, _ | ⟨sub, _ | ⟨size, body⟩⟩⟩
  · rfl
  · rfl
  · rfl
  · have htag : tag ≠ asnOPAQUE_TAG1 := fun heq => h (by rw [heq]; rfl)
    exact if_pos (.inr htag)

theorem opaqueValue_float (bits : UInt32) :
    opaqueValue ([asnOPAQUE_TAG1, asnOPAQUE_FLOAT, 4] ++ octetsOf bits) = .float bits := by
  have hbits : UInt32.ofNat (beNat (octetsOf bits)) = bits := by
    rw [beNat_octetsOf, UInt32.ofNat_toNat]
  show (.float (UInt32.ofNat (beNat (octetsOf bits))) : Value) = .float bits
  rw [hbits]

theorem opaqueValue_double (bits : UInt64) :
    opaqueValue ([asnOPAQUE_TAG1, asnOPAQUE_DOUBLE, 8] ++ octetsOf (bits >>> 32).toUInt32 ++
      octetsOf bits.toUInt32) = .double bits := by
  have hlt := bits.toNat_lt
  have hbits : UInt64.ofNat (beNat (octetsOf (bits >>> 32).toUInt32 ++ octetsOf bits.toUInt32)) = bits := by
    apply UInt64.toNat_inj.mp
    rw [Octets.beNat_append, beNat_octetsOf, beNat_octetsOf, UInt64.toNat_toUInt32, UInt64.toNat_toUInt32,
      UInt64.toNat_shiftRight, UInt64.toNat_ofNat', Nat.shiftRight_eq_div_pow]
    show (_ * 256 ^ 4 + _) % _ = _
    simp
    omega
  show (.double (UInt64.ofNat (beNat (octetsOf (bits >>> 32).toUInt32 ++ octetsOf bits.toUInt32))) : Value) = _
  rw [hbits]

theorem reallocBuildCounter64_length (order : Bool) (high low : UInt32) :
    (if order then reallocBuildInt order high ++ reallocBuildInt order low
      else reallocBuildInt order low ++ reallocBuildInt order high).length = 8 := by
  cases order <;> rfl

theorem counter64Of_build (order : Bool) (high low : UInt32) :
    counter64Of order (if order then reallocBuildInt order high ++ reallocBuildInt order low
      else reallocBuildInt order low ++ reallocBuildInt order high) = .counter64 high low := by
  have hread : ∀ first second : UInt32,
      UInt32.ofNat (parseUInt order (reallocBuildInt order first ++ reallocBuildInt order second)) = first ∧
        UInt32.ofNat (parseUInt order ((reallocBuildInt order first ++ reallocBuildInt order second).drop 4)) =
          second := by
    intro first second
    have hsecond := parseUInt_build order second []
    rw [append_nil] at hsecond
    rw [parseUInt_build, drop_built (reallocBuildInt_length order first), hsecond]
    exact ⟨UInt32.ofNat_toNat, UInt32.ofNat_toNat⟩
  cases order with
  | true =>
    show Value.counter64 _ _ = _
    rw [if_pos rfl, (hread high low).1, (hread high low).2]
  | false =>
    show Value.counter64 _ _ = _
    rw [if_neg Bool.false_ne_true, (hread low high).1, (hread low high).2]

theorem parseValue_build {value : Value} (hvalue : value.Sendable)
    (h : reallocBuildValue order value = .ok built) (rest : List UInt8) : ∃ c, caseOf value.sentType.toNat = some c ∧
      parseValue order c (built ++ rest) = .ok (some (value.received, rest)) := by
  cases value with
  | integer v =>
    cases h
    refine ⟨.integer, rfl, ?_⟩
    rw [parseValue, field_append (reallocBuildInt_length order _)]
    have hread := parseInt_build order hvalue.1 hvalue.2 []
    rw [append_nil] at hread
    show Except.ok (some (Value.integer (parseInt order _), rest)) = _
    rw [hread]
    rfl
  | unsigned t v =>
    cases h
    have hsent : (UInt32.ofNat v).toNat = v := by
      rw [UInt32.toNat_ofNat']
      exact Nat.mod_eq_of_lt hvalue
    have hread := parseUInt_build order (UInt32.ofNat v) []
    rw [append_nil, hsent] at hread
    refine ⟨.unsigned t, by cases t <;> rfl, ?_⟩
    rw [parseValue, field_append (reallocBuildInt_length order _)]
    show Except.ok (some (Value.unsigned t (parseUInt order _), rest)) = _
    rw [hread]
    rfl
  | string t s =>
    cases t with
    | octetStr =>
      cases h
      refine ⟨.string .octetStr, rfl, ?_⟩
      rw [parseValue, parseString_build hvalue]
      rfl
    | ipaddress =>
      cases h
      refine ⟨.string .ipaddress, rfl, ?_⟩
      rw [parseValue, parseString_build hvalue]
      rfl
    | opaqueStr =>
      cases h
      refine ⟨.opaqueStr, rfl, ?_⟩
      rw [parseValue, parseString_build hvalue.1]
      show Except.ok (some (opaqueValue s, rest)) = _
      rw [opaqueValue_plain hvalue.2]
      rfl
    | nsap => cases hvalue
  | objectId o =>
    cases h
    refine ⟨.objectId, rfl, ?_⟩
    rw [parseValue, parseOid_build hvalue (by decide) (by decide)]
    rfl
  | counter64 high low =>
    cases h
    refine ⟨.counter64, rfl, ?_⟩
    rw [parseValue, field_append (reallocBuildCounter64_length order high low)]
    show Except.ok (some (counter64Of order _, rest)) = _
    rw [counter64Of_build]
    rfl
  | null t =>
    cases h
    exact ⟨.null t, by cases t <;> rfl, rfl⟩
  | float bits =>
    cases h
    have hshort : ([asnOPAQUE_TAG1, asnOPAQUE_FLOAT, 4] ++ octetsOf bits).length < API_MAX_MSG_SIZE := by
      show 7 < 1472
      decide
    refine ⟨.opaqueStr, rfl, ?_⟩
    rw [parseValue, reallocBuildFloat, parseString_build hshort]
    show Except.ok (some (opaqueValue _, rest)) = _
    rw [opaqueValue_float]
    rfl
  | double bits =>
    cases h
    have hshort : ([asnOPAQUE_TAG1, asnOPAQUE_DOUBLE, 8] ++ octetsOf (bits >>> 32).toUInt32 ++
        octetsOf bits.toUInt32).length < API_MAX_MSG_SIZE := by
      show 11 < 1472
      decide
    refine ⟨.opaqueStr, rfl, ?_⟩
    rw [parseValue, reallocBuildDouble, parseString_build hshort]
    show Except.ok (some (opaqueValue _, rest)) = _
    rw [opaqueValue_double]
    rfl
  | range inclusive o => cases hvalue
  | opaque64 t s => cases hvalue
  | bitString s => cases hvalue

structure Variable.Sendable (v : Variable) : Prop where
  name : v.name.length ≤ TYPES_MAX_OID_LEN
  value : v.value.Sendable

/-- The variable that is read for one that is sent. -/
def Variable.received (v : Variable) : Variable :=
  ⟨readOid v.name, v.value.received⟩

theorem reallocBuildShort_length (order : Bool) (value : UInt16) : (reallocBuildShort order value).length = 2 := by
  cases order <;> rfl

theorem parseVarbind_front {name : ObjId} {type : UInt8} {c : Case} (hname : name.length ≤ TYPES_MAX_OID_LEN)
    (hc : caseOf type.toNat = some c) (octets rest : List UInt8) :
    parseVarbind order (reallocBuildShort order type.toUInt16 ++ [0, 0] ++ (reallocBuildOid order 0 name ++ octets) ++
      rest) = (parseValue order c (octets ++ rest)).map fun read => read.map fun r => (⟨readOid name, r.1⟩, r.2) := by
  have hhead : (reallocBuildShort order type.toUInt16 ++ [0, 0]).length = 4 := by
    rw [length_append, reallocBuildShort_length]
    rfl
  have hfield : field 2 4 (reallocBuildShort order type.toUInt16 ++ [0, 0] ++ (reallocBuildOid order 0 name ++ octets) ++
      rest) = .ok (reallocBuildShort order type.toUInt16 ++ [0, 0],
        reallocBuildOid order 0 name ++ (octets ++ rest)) := by
    refine (field_eq_ok (by decide)).mpr ⟨?_, ?_⟩
    · rw [append_assoc, length_append]
      omega
    · rw [append_assoc, take_left' hhead, drop_built hhead, append_assoc]
  have htype : parseShort order (reallocBuildShort order type.toUInt16 ++ [0, 0]) = type.toNat := by
    rw [parseShort_build, UInt8.toNat_toUInt16]
  have hread : parseOid order TYPES_MAX_OID_LEN TYPES_MAX_OID_LEN
      (reallocBuildOid order 0 name ++ (octets ++ rest)) = _ :=
    parseOid_build hname (Nat.le_refl _) (Nat.le_refl _) 0 (octets ++ rest)
  simp only [parseVarbind, hfield, hread, htype, hc, bind, Except.bind]
  cases parseValue order c (octets ++ rest) <;> rfl

theorem parseVarbind_build {v : Variable} (hv : v.Sendable)
    (h : reallocBuildVarbind order v = .ok built) (rest : List UInt8) :
    parseVarbind order (built ++ rest) = .ok (some (v.received, rest)) := by
  obtain ⟨name, value⟩ := v
  cases hbuilt : reallocBuildValue order value with
  | error e =>
    simp only [reallocBuildVarbind, hbuilt] at h
    cases h
  | ok octets =>
    simp only [reallocBuildVarbind, hbuilt] at h
    cases h
    obtain ⟨c, hc, hread⟩ := parseValue_build hv.value hbuilt rest
    rw [show _ ++ rest = _ from congrArg (· ++ rest) rfl, parseVarbind_front hv.name hc, hread]
    rfl

/-! ## lists -/

theorem buildEach_cons {build : Variable → Except NotBuilt (List UInt8)} {v : Variable} {vars : List Variable} (h : buildEach build (v :: vars) = .ok built) :
    ∃ first others, build v = .ok first ∧ buildEach build vars = .ok others ∧ built = first ++ others := by
  cases hfirst : build v with
  | error e =>
    simp only [buildEach, hfirst] at h
    cases h
  | ok first =>
    cases hothers : buildEach build vars with
    | error e =>
      simp only [buildEach, hfirst, hothers] at h
      cases h
    | ok others =>
      simp only [buildEach, hfirst, hothers] at h
      cases h
      exact ⟨first, others, rfl, rfl, rfl⟩

theorem parseVarbinds_build {vars : List Variable} (hvars : ∀ v ∈ vars, v.Sendable)
    (h : buildEach (reallocBuildVarbind order) vars = .ok built) (before : List Variable) :
    parseVarbinds order built before = .ok (.noError, before ++ vars.map Variable.received) := by
  induction vars generalizing built before with
  | nil =>
    cases h
    rw [parseVarbinds, if_pos rfl, map_nil, append_nil]
  | cons v vars ih =>
    obtain ⟨first, others, hfirst, hothers, rfl⟩ := buildEach_cons h
    have hread := parseVarbind_build (hvars v mem_cons_self) hfirst others
    have hmore : first ++ others ≠ [] := by
      intro hnil
      have hlt := parseVarbind_length hread
      rw [hnil] at hlt
      exact Nat.not_lt_zero _ hlt
    rw [parseVarbinds_more hmore hread, ih (fun w hw => hvars w (mem_cons_of_mem _ hw)) hothers,
      map_cons, append_assoc]
    rfl

/-- A search range: its ends fit. -/
inductive Variable.SendableRange : Variable → Prop
  | mk {name o : ObjId} (inclusive : Bool) (hname : name.length ≤ TYPES_MAX_OID_LEN)
      (hend : o.length ≤ TYPES_MAX_OID_LEN) : SendableRange ⟨name, .range inclusive o⟩

/-- The search range that is read for one that is sent: one that begins with the null OID does not include it. -/
def Variable.receivedRange (v : Variable) : Variable :=
  match v.value with
  | .range inclusive o => ⟨readOid v.name, .range (inclusive && decide (v.name ≠ [])) (readOid o)⟩
  | value => ⟨readOid v.name, value⟩

theorem parseRange_build {v : Variable} (hv : v.SendableRange)
    (h : reallocBuildRange order v = .ok built) (rest : List UInt8) :
    parseRange order (built ++ rest) = .ok (some (v.receivedRange, rest)) := by
  obtain ⟨inclusive, hname, hend⟩ := hv
  rename_i name o
  have hnames : ∀ {name : ObjId} (inc : UInt8) (rest : List UInt8), name.length ≤ TYPES_MAX_OID_LEN →
      parseOid order TYPES_MAX_OID_LEN TYPES_MAX_OID_LEN (reallocBuildOid order inc name ++ rest) =
        .ok (some (if name = [] then 0 else inc, readOid name, rest)) := fun inc rest h =>
    parseOid_build h (Nat.le_refl _) (Nat.le_refl _) inc rest
  have hbuilt : built = reallocBuildOid order (if inclusive then 1 else 0) name ++ reallocBuildOid order 0 o := by
    cases inclusive <;> cases h <;> rfl
  rw [hbuilt, append_assoc]
  simp only [parseRange, hnames _ _ hname, hnames _ _ hend, bind, Except.bind, Option.map_some]
  show Except.ok (some (_, rest)) = .ok (some (_, rest))
  have hinc : decide ((if name = [] then 0 else if inclusive then 1 else 0 : UInt8) ≠ 0) =
      (inclusive && decide (name ≠ [])) := by
    by_cases hnull : name = [] <;> cases inclusive <;> simp [hnull]
  simp only [hinc]
  rfl

theorem parseRanges_more {data : List UInt8} {v : Variable} (hmore : data ≠ [])
    (h : parseRange order data = .ok (some (v, rest))) (vars : List Variable) :
    parseRanges order data vars = parseRanges order rest (vars ++ [v]) := by
  rw [parseRanges, if_neg hmore]
  split
  · rename_i h'
    rw [h] at h'
    cases h'
  · rename_i h'
    rw [h] at h'
    cases h'
  · rename_i h'
    rw [h] at h'
    cases h'
    rfl

theorem parseRanges_build {vars : List Variable} (hvars : ∀ v ∈ vars, v.SendableRange)
    (h : buildEach (reallocBuildRange order) vars = .ok built) (before : List Variable) :
    parseRanges order built before = .ok (.noError, before ++ vars.map Variable.receivedRange) := by
  induction vars generalizing built before with
  | nil =>
    cases h
    rw [parseRanges, if_pos rfl, map_nil, append_nil]
  | cons v vars ih =>
    obtain ⟨first, others, hfirst, hothers, rfl⟩ := buildEach_cons h
    have hread := parseRange_build (hvars v mem_cons_self) hfirst others
    have hmore : first ++ others ≠ [] := by
      intro hnil
      have hlt := parseRange_length hread
      rw [hnil] at hlt
      exact Nat.not_lt_zero _ hlt
    rw [parseRanges_more hmore hread, ih (fun w hw => hvars w (mem_cons_of_mem _ hw)) hothers,
      map_cons, append_assoc]
    rfl

end Priot.Agentx
