/-
# Index OIDs of `header_complex.c`

A length is read from an `oid` into an `int`, and from there it goes to `calloc` as a `size_t`. The OID that is read
is an array with an end, and to read behind it is a fault, as is a write before the start of what `calloc` returned.
Allocations succeed for every size that an object can have.
-/
import Priot.Mib.IndexSpec
import Priot.Containers.BinarySearch
import Priot.Lib.Outcome
import Mathlib.Data.List.Forall2

namespace Priot.HeaderComplex

open Containers Lib Mib List

/-! ## writing -/

def asnMAX_OID_LEN : Nat := TYPES_MAX_OID_LEN

/-- An index variable, and the name that is cached with it. -/
structure Variable where
  index : IndexVar
  name : Option ObjId
  deriving DecidableEq

/-- The switch of `header_complex_generate_varoid`. -/
def varoid (var : IndexVar) : Option ObjId :=
  match var.type with
  | .integer | .counter | .gauge | .timeticks => some [oidOfLong var.integer]
  | .impliedObjectId => some (var.objectId.take (var.valueLength / SIZEOF_OID))
  | .objectId =>
    some (UInt32.ofNat (var.valueLength / SIZEOF_OID) :: var.objectId.take (var.valueLength / SIZEOF_OID))
  | .impliedOctetStr => some ((var.string.take var.valueLength).map (·.toUInt32))
  | .opaqueStr | .octetStr => some (UInt32.ofNat var.valueLength :: (var.string.take var.valueLength).map (·.toUInt32))
  | .ipaddress | .other => none

/-- `header_complex_generate_varoid`: whether it succeeds, and the variable. -/
def generateVaroid (var : Variable) : Bool × Variable :=
  match var.name with
  | some name => (decide (name.length ≤ asnMAX_OID_LEN), var)
  | none =>
    match varoid var.index with
    | none => (false, var)
    | some name => (decide (name.length ≤ asnMAX_OID_LEN), { var with name := some name })

/-- The loop of `header_complex_generate_oid`. -/
def generateLoop (out : ObjId) : List Variable → ObjId
  | [] => out
  | var :: data => generateLoop (out ++ (generateVaroid var).2.name.getD []) data

def generateOid (pre : Option ObjId) (data : List Variable) : ObjId := generateLoop (pre.getD []) data

/-! ## reading -/

inductive Failure
  | genErr
  | fault
  deriving DecidableEq, Repr

/-- Whether `calloc` returns memory. -/
def callocs (size : Nat) : Bool := size < 2 ^ 63

/-- `*oidIndex++` and `oidLen--`. -/
def next (oid : ObjId) (i oidLen : Nat) : Except Failure (Oid × Nat × Nat) :=
  match oid[i]? with
  | none => .error .fault
  | some v => .ok (v, i + 1, oidLen - 1)

/-- The length of a string or an OID. -/
def readLength (oid : ObjId) (implied : Bool) (i oidLen : Nat) : Except Failure (Int × Nat × Nat) :=
  if implied then .ok (toInt oidLen, i, oidLen)
  else do
    let (v, i, oidLen) ← next oid i oidLen
    let itmp := toInt v.toNat
    if itmp > toInt oidLen then .error .genErr else .ok (itmp, i, oidLen)

/-- `*oidIndex++`, so many times. -/
def elements (oid : ObjId) (i : Nat) (itmp : Int) : Except Failure ObjId :=
  if i + itmp.toNat ≤ oid.length then .ok ((oid.drop i).take itmp.toNat) else .error .fault

/-- What is stored for an OID of the length `itmp`. -/
def storeObjectId (oid : ObjId) (var : IndexVar) (itmp : Int) (i oidLen : Nat) :
    Except Failure (IndexVar × Nat × Nat) :=
  if itmp = 0 then .ok (var, i, oidLen)
  else
    let valueLength := toSize (itmp * SIZEOF_OID)
    if callocs valueLength then do
      let subids ← elements oid i itmp
      .ok ({ var with value := some (.objectId (subids.map fun v => v.toUInt8.toUInt32)), valueLength := valueLength },
        i + itmp.toNat, toSize (oidLen - itmp))
    else .error .genErr

/-- What is stored for a string of the length `itmp`. -/
def storeString (oid : ObjId) (var : IndexVar) (itmp : Int) (i oidLen : Nat) :
    Except Failure (IndexVar × Nat × Nat) :=
  if itmp = 0 then .ok (var, i, oidLen)
  else if callocs (toSize (itmp + 1)) then do
    let subids ← elements oid i itmp
    -- `string[ itmp ] = '\0'`
    if itmp < 0 then .error .fault
    else
      .ok ({ var with value := some (.string (subids.map (·.toUInt8))), valueLength := toSize itmp },
        i + itmp.toNat, toSize (oidLen - itmp))
  else .error .genErr

/-- One round of the loop. -/
def parseVar (oid : ObjId) (i oidLen : Nat) (var : IndexVar) : Except Failure (IndexVar × Nat × Nat) :=
  match var.type with
  | .integer | .counter | .gauge | .timeticks => do
    let (v, i, oidLen) ← next oid i oidLen
    .ok ({ var with value := some (.integer v.toNat), valueLength := SIZEOF_LONG }, i, oidLen)
  | .objectId | .impliedObjectId => do
    let (itmp, i, oidLen) ← readLength oid (var.type = .impliedObjectId) i oidLen
    storeObjectId oid var itmp i oidLen
  | .opaqueStr | .octetStr | .impliedOctetStr => do
    let (itmp, i, oidLen) ← readLength oid (var.type = .impliedOctetStr) i oidLen
    storeString oid var itmp i oidLen
  | .ipaddress | .other => .error .genErr

/-- The loop: the variables, and how many subidentifiers have been read. -/
def parseLoop (oid : ObjId) : Nat → Nat → List IndexVar → Except Failure (List IndexVar × Nat)
  | i, oidLen, [] => if oidLen > 0 then .error .genErr else .ok ([], i)
  | i, oidLen, var :: data =>
    if oidLen > 0 then do
      let (var, i, oidLen) ← parseVar oid i oidLen var
      let (data, i) ← parseLoop oid i oidLen data
      .ok (var :: data, i)
    else .error .genErr

def parseOid (oid : ObjId) (data : List IndexVar) : Except Failure (List IndexVar × Nat) :=
  parseLoop oid 0 oid.length data

/-! ## what a round does -/

variable {oid part rest : ObjId} {var : IndexVar} {v : Oid} {i oidLen n : Nat}

/-- The counters stand at what is left of the OID. -/
structure Left (oid : ObjId) (i oidLen : Nat) (rest : ObjId) : Prop where
  drop : oid.drop i = rest
  index_le : i ≤ oid.length
  len : oidLen = rest.length
  short : oid.length ≤ asnMAX_OID_LEN

theorem Left.start (h : oid.length ≤ asnMAX_OID_LEN) : Left oid 0 oid.length oid :=
  ⟨rfl, Nat.zero_le _, rfl, h⟩

theorem Left.total (h : Left oid i oidLen rest) : i + rest.length = oid.length := by
  have hdrop := h.drop
  have hle := h.index_le
  rw [← hdrop, length_drop]
  omega

theorem Left.small (h : Left oid i oidLen rest) : rest.length < 2 ^ 31 := by
  have htotal := h.total
  have hshort := h.short
  simp only [asnMAX_OID_LEN, TYPES_MAX_OID_LEN] at hshort
  omega

theorem Left.take (h : Left oid i oidLen (part ++ rest)) :
    elements oid i part.length = .ok part ∧ Left oid (i + part.length) rest.length rest := by
  have htotal := h.total
  rw [length_append] at htotal
  constructor
  · rw [elements, Int.toNat_natCast, if_pos (by omega), h.drop, take_left']
    rfl
  · refine ⟨?_, by omega, rfl, h.short⟩
    rw [← drop_drop, h.drop, drop_left']
    rfl

theorem Left.next (h : Left oid i oidLen (v :: rest)) :
    next oid i oidLen = .ok (v, i + 1, rest.length) ∧ Left oid (i + 1) rest.length rest := by
  have hv : oid[i]? = some v := by
    have hhead : (oid.drop i)[0]? = some v := by
      rw [h.drop]
      rfl
    rw [getElem?_drop] at hhead
    exact hhead
  have hsplit : Left oid i oidLen ([v] ++ rest) := h
  refine ⟨?_, hsplit.take.2⟩
  rw [HeaderComplex.next, hv, h.len, length_cons]
  rfl

/-- A variable after an OID has been read, and after a string has. Nothing is stored where there are no elements. -/
def withObjectId (var : IndexVar) (part : ObjId) : IndexVar :=
  if part = [] then var
  else
    { var with
      value := some (.objectId (part.map fun v => v.toUInt8.toUInt32))
      valueLength := part.length * SIZEOF_OID }

def withString (var : IndexVar) (part : ObjId) : IndexVar :=
  if part = [] then var
  else { var with value := some (.string (part.map (·.toUInt8))), valueLength := part.length }

theorem toInt_negative (hlower : 2 ^ 31 ≤ n) (hupper : n < 2 ^ 32) : toInt n = (n : Int) - 2 ^ 32 := by
  unfold toInt
  rw [← Int.sub_bmod_right, Int.bmod_eq_of_le_mul_two]
  all_goals
    omega

theorem callocs_small (h : n < 2 ^ 31) : callocs n = true := by
  rw [callocs, decide_eq_true_eq]
  omega

theorem readLength_counted (h : Left oid i oidLen (v :: rest)) : readLength oid false i oidLen =
    if v.toNat ≤ rest.length ∨ 2 ^ 31 ≤ v.toNat then .ok (toInt v.toNat, i + 1, rest.length) else .error .genErr := by
  have hsmall := h.next.2.small
  have hv := v.toNat_lt
  rw [readLength, if_neg Bool.false_ne_true, h.next.1, ok_bind]
  simp only [toInt_natCast hsmall]
  by_cases hneg : 2 ^ 31 ≤ v.toNat
  · rw [toInt_negative hneg hv, if_neg (by omega), if_pos (.inr hneg)]
  · rw [toInt_natCast (not_le.mp hneg)]
    by_cases hle : v.toNat ≤ rest.length
    · rw [if_neg (by omega), if_pos (.inl hle)]
    · rw [if_pos (by omega), if_neg (by omega)]

theorem readLength_implied (h : Left oid i oidLen rest) :
    readLength oid true i oidLen = .ok ((rest.length : Int), i, oidLen) := by
  rw [readLength, if_pos rfl, h.len, toInt_natCast h.small]

theorem storeObjectId_nat (h : Left oid i oidLen (part ++ rest)) (var : IndexVar) :
    storeObjectId oid var part.length i oidLen = .ok (withObjectId var part, i + part.length, rest.length) := by
  have hsmall := h.small
  have hlen := h.len
  have htotal := h.total
  have hshort := h.short
  simp only [asnMAX_OID_LEN, TYPES_MAX_OID_LEN] at hshort
  rw [length_append] at hsmall hlen htotal
  rw [storeObjectId, withObjectId]
  by_cases hnil : part = []
  · subst hnil
    rw [if_pos (by rfl), if_pos rfl, hlen]
    simp
  · have hpos := length_pos_iff.mpr hnil
    have hsize : ((part.length : Int) * (SIZEOF_OID : Nat)) = ((part.length * SIZEOF_OID : Nat) : Int) := by
      push_cast
      rfl
    -- the product fits into an `int`
    have hbytes : part.length * SIZEOF_OID < 2 ^ 31 := by
      simp only [SIZEOF_OID]
      omega
    have hleft : ((oidLen : Int) - (part.length : Int)) = (rest.length : Int) := by omega
    simp only [if_neg (by omega : ¬ (part.length : Int) = 0), if_neg hnil, hsize, toSize_natCast hbytes,
      callocs_small hbytes, if_true, h.take.1, ok_bind, hleft, toSize_natCast (by omega : rest.length < 2 ^ 31),
      Int.toNat_natCast]

theorem storeString_nat (h : Left oid i oidLen (part ++ rest)) (var : IndexVar) :
    storeString oid var part.length i oidLen = .ok (withString var part, i + part.length, rest.length) := by
  have hsmall := h.small
  have hlen := h.len
  rw [length_append] at hsmall hlen
  rw [storeString, withString]
  by_cases hnil : part = []
  · subst hnil
    rw [if_pos (by rfl), if_pos rfl, hlen]
    simp
  · have hpos := length_pos_iff.mpr hnil
    have htotal := h.total
    have hshort := h.short
    rw [length_append] at htotal
    simp only [asnMAX_OID_LEN, TYPES_MAX_OID_LEN] at hshort
    have hsize : ((part.length : Int) + 1) = ((part.length + 1 : Nat) : Int) := by
      push_cast
      rfl
    have hleft : ((oidLen : Int) - (part.length : Int)) = (rest.length : Int) := by omega
    simp only [if_neg (by omega : ¬ (part.length : Int) = 0), if_neg hnil, hsize,
      toSize_natCast (by omega : part.length + 1 < 2 ^ 31), callocs_small (by omega : part.length + 1 < 2 ^ 31),
      toSize_natCast (by omega : part.length < 2 ^ 31), if_true, h.take.1, ok_bind, hleft,
      toSize_natCast (by omega : rest.length < 2 ^ 31), if_neg (by omega : ¬ (part.length : Int) < 0),
      Int.toNat_natCast]

theorem storeObjectId_negative (hlower : 2 ^ 31 ≤ n) (hupper : n < 2 ^ 32) :
    storeObjectId oid var (toInt n) i oidLen = .error .genErr := by
  have hsize : callocs (toSize (((n : Int) - 2 ^ 32) * (SIZEOF_OID : Nat))) = false := by
    rw [callocs, decide_eq_false_iff_not, toSize]
    simp only [SIZEOF_OID]
    omega
  simp only [storeObjectId, toInt_negative hlower hupper, if_neg (by omega : ¬ (n : Int) - 2 ^ 32 = 0), hsize,
    if_neg Bool.false_ne_true]

theorem storeString_negative (h : i ≤ oid.length) (hlower : 2 ^ 31 ≤ n) (hupper : n < 2 ^ 32) :
    storeString oid var (toInt n) i oidLen = .error (if n = 2 ^ 32 - 1 then .fault else .genErr) := by
  rw [storeString, toInt_negative hlower hupper, if_neg (by omega)]
  by_cases hlast : n = 2 ^ 32 - 1
  · subst hlast
    -- a length of -1 asks for no memory, and gets it
    have hsize : callocs (toSize (((2 ^ 32 - 1 : Nat) : Int) - 2 ^ 32 + 1)) = true := by decide
    have helements : elements oid i (((2 ^ 32 - 1 : Nat) : Int) - 2 ^ 32) = .ok [] := by
      have hzero : ((((2 ^ 32 - 1 : Nat) : Int) - 2 ^ 32)).toNat = 0 := by decide
      rw [elements, hzero, Nat.add_zero, if_pos h, take_zero]
    rw [hsize, if_pos rfl, helements, ok_bind, if_pos rfl, if_pos (by decide)]
  · have hsize : callocs (toSize ((n : Int) - 2 ^ 32 + 1)) = false := by
      rw [callocs, decide_eq_false_iff_not, toSize]
      omega
    rw [hsize, if_neg hlast, if_neg Bool.false_ne_true]

/-! ## every OID -/

/-- The types that stand for one subidentifier. -/
def integers : List IndexType := [.integer, .counter, .gauge, .timeticks]

/-- How many elements a variable holds. -/
def count (var : IndexVar) : Nat :=
  match var.value with
  | none => 0
  | some (.integer _) => 1
  | some (.string _) => var.valueLength
  | some (.objectId _) => var.valueLength / SIZEOF_OID

/-- Reading fails, or it takes all that is left of the OID apart, and no variable holds more than its part. -/
def ParsesFrom (oid : ObjId) (i oidLen : Nat) (rest : ObjId) (types : List IndexType) : Prop :=
  Ends (fun e => e = .genErr)
    (fun r => r.2 = oid.length ∧ ∃ parts : List ObjId, parts.flatten = rest ∧
      List.Forall₂ (fun part var => count var ≤ part.length) parts r.1)
    (parseLoop oid i oidLen (types.map IndexVar.fresh))

/-- An OID, read into fresh variables of these types. -/
def Parses (types : List IndexType) (oid : ObjId) : Prop := ParsesFrom oid 0 oid.length oid types

/-- The subidentifier for the length of a string is the largest there is. -/
def Wraps : List IndexType → ObjId → Prop
  | [], _ | _, [] => False
  | t :: types, v :: rest =>
    match t with
    | .integer | .counter | .gauge | .timeticks => Wraps types rest
    | .objectId => v.toNat ≤ rest.length ∧ Wraps types (rest.drop v.toNat)
    | .opaqueStr | .octetStr => v.toNat = 2 ^ 32 - 1 ∨ v.toNat ≤ rest.length ∧ Wraps types (rest.drop v.toNat)
    | .impliedObjectId | .impliedOctetStr | .ipaddress | .other => False

variable {t : IndexType} {types : List IndexType} {tail : ObjId} {j : Nat} {W : Prop}

theorem count_withObjectId (t : IndexType) (part : ObjId) :
    count (withObjectId (IndexVar.fresh t) part) ≤ part.length := by
  rw [withObjectId]
  split
  · exact Nat.zero_le _
  · show part.length * SIZEOF_OID / SIZEOF_OID ≤ part.length
    rw [Nat.mul_div_cancel _ (by decide)]

theorem count_withString (t : IndexType) (part : ObjId) : count (withString (IndexVar.fresh t) part) ≤ part.length := by
  rw [withString]
  split
  · exact Nat.zero_le _
  · exact le_refl part.length

/-- What is left has a first subidentifier, so there is a round. -/
theorem parseLoop_cons (h : Left oid i oidLen (v :: rest)) (var : IndexVar) (data : List IndexVar) :
    parseLoop oid i oidLen (var :: data) = (do
      let (var, i, oidLen) ← parseVar oid i oidLen var
      let (data, i) ← parseLoop oid i oidLen data
      .ok (var :: data, i)) := by
  rw [parseLoop, if_pos]
  rw [h.len]
  exact Nat.succ_pos _

/-- The loop goes wrong in the way `W` says, or not at all. -/
def Outcome (W : Prop) (oid : ObjId) (i oidLen : Nat) (rest : ObjId) (types : List IndexType) : Prop :=
  (W → parseLoop oid i oidLen (types.map IndexVar.fresh) = .error .fault) ∧ (¬ W → ParsesFrom oid i oidLen rest types)

theorem Outcome.congr {W' : Prop} (h : Outcome W oid i oidLen rest types) (hw : W' ↔ W) :
    Outcome W' oid i oidLen rest types :=
  ⟨fun hw' => h.1 (hw.mp hw'), fun hw' => h.2 fun hW => hw' (hw.mpr hW)⟩

theorem Outcome.round {var : IndexVar} (h : Left oid i oidLen (v :: rest))
    (hround : parseVar oid i oidLen (.fresh t) = .ok (var, j, tail.length)) (hpart : part ++ tail = v :: rest)
    (hcount : count var ≤ part.length) (hnext : Outcome W oid j tail.length tail types) :
    Outcome W oid i oidLen (v :: rest) (t :: types) := by
  constructor
  · intro hw
    rw [map_cons, parseLoop_cons h, hround, ok_bind]
    simp only [hnext.1 hw]
    rfl
  · intro hw
    have hends := hnext.2 hw
    unfold ParsesFrom at hends ⊢
    rw [map_cons, parseLoop_cons h, hround, ok_bind]
    refine Ends.bind hends ?_
    rintro ⟨data, n⟩ ⟨hn, parts, hflatten, hall⟩
    exact ⟨hn, part :: parts, by rw [flatten_cons, hflatten, hpart], .cons hcount hall⟩

theorem Outcome.refused (h : Left oid i oidLen (v :: rest)) (hround : parseVar oid i oidLen (.fresh t) = .error .genErr)
    (hw : ¬ W) : Outcome W oid i oidLen (v :: rest) (t :: types) := by
  refine ⟨fun hW => absurd hW hw, fun _ => ?_⟩
  unfold ParsesFrom
  rw [map_cons, parseLoop_cons h, hround]
  rfl

theorem parseVar_integer (ht : t ∈ integers) (h : Left oid i oidLen (v :: rest)) :
    parseVar oid i oidLen (.fresh t) = .ok (⟨t, some (.integer v.toNat), SIZEOF_LONG⟩, i + 1, rest.length) := by
  simp only [integers, mem_cons, not_mem_nil, or_false] at ht
  rcases ht with rfl | rfl | rfl | rfl
  all_goals
    simp only [parseVar, IndexVar.fresh, h.next.1, ok_bind]

theorem parseVar_counted {store : Int → Nat → Nat → Except Failure (IndexVar × Nat × Nat)} {made : ObjId → IndexVar}
    {e : Failure} (h : Left oid i oidLen (v :: rest))
    (hround : parseVar oid i oidLen (.fresh t) = readLength oid false i oidLen >>= fun r => store r.1 r.2.1 r.2.2)
    (hnat : ∀ {part tail : ObjId} {i oidLen : Nat}, Left oid i oidLen (part ++ tail) →
      store part.length i oidLen = .ok (made part, i + part.length, tail.length))
    (hnegative : 2 ^ 31 ≤ v.toNat → store (toInt v.toNat) (i + 1) rest.length = .error e)
    (hpositive : v.toNat < 2 ^ 31 → e = .genErr) : parseVar oid i oidLen (.fresh t) =
      if v.toNat ≤ rest.length then .ok (made (rest.take v.toNat), i + 1 + v.toNat, (rest.drop v.toNat).length)
      else .error e := by
  rw [hround, readLength_counted h]
  by_cases hle : v.toNat ≤ rest.length
  · have hleft := h.next.2
    have hsmall := hleft.small
    have hlen := length_take_of_le hle
    rw [← take_append_drop v.toNat rest] at hleft
    have hstore := hnat hleft
    rw [take_append_drop, hlen] at hstore
    rw [if_pos (.inl hle), if_pos hle, ok_bind, toInt_natCast (by omega)]
    exact hstore
  · rw [if_neg hle]
    by_cases hneg : 2 ^ 31 ≤ v.toNat
    · rw [if_pos (.inr hneg), ok_bind]
      dsimp only
      exact hnegative hneg
    · rw [if_neg (by omega), hpositive (Nat.lt_of_not_le hneg)]
      rfl

theorem parseVar_objectId (h : Left oid i oidLen (v :: rest)) : parseVar oid i oidLen (.fresh .objectId) =
    if v.toNat ≤ rest.length then
      .ok (withObjectId (.fresh .objectId) (rest.take v.toNat), i + 1 + v.toNat, (rest.drop v.toNat).length)
    else .error .genErr :=
  parseVar_counted h rfl (fun hleft => storeObjectId_nat hleft (.fresh .objectId))
    (fun hneg => storeObjectId_negative hneg v.toNat_lt) fun _ => rfl

theorem parseVar_string (ht : t = .octetStr ∨ t = .opaqueStr) (h : Left oid i oidLen (v :: rest)) :
    parseVar oid i oidLen (.fresh t) = if v.toNat ≤ rest.length then
        .ok (withString (.fresh t) (rest.take v.toNat), i + 1 + v.toNat, (rest.drop v.toNat).length)
      else .error (if v.toNat = 2 ^ 32 - 1 then .fault else .genErr) := by
  have hround : parseVar oid i oidLen (.fresh t) =
      readLength oid false i oidLen >>= fun r => storeString oid (.fresh t) r.1 r.2.1 r.2.2 := by
    rcases ht with rfl | rfl <;> rfl
  refine parseVar_counted h hround (fun hleft => storeString_nat hleft (.fresh t))
    (fun hneg => storeString_negative h.next.2.index_le hneg v.toNat_lt) fun hpos => ?_
  rw [if_neg (by omega)]

theorem parseVar_impliedObjectId (h : Left oid i oidLen rest) : parseVar oid i oidLen (.fresh .impliedObjectId) =
    .ok (withObjectId (.fresh .impliedObjectId) rest, i + rest.length, 0) := by
  have hround : parseVar oid i oidLen (.fresh .impliedObjectId) = (do
      let (itmp, i, oidLen) ← readLength oid true i oidLen
      storeObjectId oid (.fresh .impliedObjectId) itmp i oidLen) := rfl
  have hleft : Left oid i oidLen (rest ++ []) := (append_nil rest).symm ▸ h
  rw [hround, readLength_implied h, ok_bind]
  exact storeObjectId_nat hleft (.fresh .impliedObjectId)

theorem parseVar_impliedString (h : Left oid i oidLen rest) : parseVar oid i oidLen (.fresh .impliedOctetStr) =
    .ok (withString (.fresh .impliedOctetStr) rest, i + rest.length, 0) := by
  have hround : parseVar oid i oidLen (.fresh .impliedOctetStr) = (do
      let (itmp, i, oidLen) ← readLength oid true i oidLen
      storeString oid (.fresh .impliedOctetStr) itmp i oidLen) := rfl
  have hleft : Left oid i oidLen (rest ++ []) := (append_nil rest).symm ▸ h
  rw [hround, readLength_implied h, ok_bind]
  exact storeString_nat hleft (.fresh .impliedOctetStr)

theorem Outcome.nil (h : Left oid i oidLen []) (types : List IndexType) (hw : ¬ W) :
    Outcome W oid i oidLen [] types := by
  refine ⟨fun hW => absurd hW hw, fun _ => ?_⟩
  have htotal := h.total
  have hlen := h.len
  rw [length_nil] at hlen
  unfold ParsesFrom
  subst hlen
  cases types with
  | nil =>
    show i = oid.length ∧ _
    exact ⟨htotal, [], rfl, .nil⟩
  | cons t types => rfl

theorem Outcome.implied {var : IndexVar} (h : Left oid i oidLen (v :: rest))
    (hround : parseVar oid i oidLen (.fresh t) = .ok (var, i + (v :: rest).length, 0))
    (hcount : count var ≤ (v :: rest).length) (types : List IndexType) :
    Outcome False oid i oidLen (v :: rest) (t :: types) := by
  have hleft : Left oid i oidLen ((v :: rest) ++ []) := (append_nil (v :: rest)).symm ▸ h
  exact .round h hround (append_nil _) hcount (.nil hleft.take.2 types id)

theorem Left.counted (h : Left oid i oidLen (v :: rest)) (hle : v.toNat ≤ rest.length) :
    Left oid (i + 1 + v.toNat) (rest.drop v.toNat).length (rest.drop v.toNat) := by
  have hnext := h.next.2
  rw [← take_append_drop v.toNat rest] at hnext
  have htake := hnext.take.2
  rw [length_take_of_le hle] at htake
  exact htake

theorem parseLoop_spec (types : List IndexType) (h : Left oid i oidLen rest) :
    Outcome (Wraps types rest) oid i oidLen rest types := by
  induction types generalizing i oidLen rest with
  | nil =>
    cases rest with
    | nil => exact .nil h [] id
    | cons v rest =>
      refine ⟨False.elim, fun _ => ?_⟩
      unfold ParsesFrom
      rw [map_nil, parseLoop, h.len, if_pos (length_pos_of_ne_nil (cons_ne_nil v rest))]
      rfl
  | cons t types ih =>
    cases rest with
    | nil => exact .nil h (t :: types) id
    | cons v rest =>
      -- the rest is cut behind the part that is counted
      have hparts : v :: rest.take v.toNat ++ rest.drop v.toNat = v :: rest := by
        rw [cons_append, take_append_drop]
      have hinteger : t ∈ integers → Outcome (Wraps types rest) oid i oidLen (v :: rest) (t :: types) := by
        intro ht
        exact .round h (parseVar_integer ht h) (rfl : [v] ++ rest = v :: rest) (le_refl 1) (ih h.next.2)
      have hstring : t = .octetStr ∨ t = .opaqueStr →
          Outcome (v.toNat = 2 ^ 32 - 1 ∨ v.toNat ≤ rest.length ∧ Wraps types (rest.drop v.toNat)) oid i oidLen
            (v :: rest) (t :: types) := by
        intro ht
        have hround := parseVar_string ht h
        by_cases hle : v.toNat ≤ rest.length
        · rw [if_pos hle] at hround
          have hsmall := h.next.2.small
          refine (Outcome.round h hround hparts ?_ (ih (h.counted hle))).congr ?_
          · exact (count_withString t _).trans (Nat.le_succ _)
          · rw [or_iff_right (by omega), and_iff_right hle]
        · rw [if_neg hle] at hround
          by_cases hlast : v.toNat = 2 ^ 32 - 1
          · rw [if_pos hlast] at hround
            refine ⟨fun _ => ?_, fun hw => absurd (Or.inl hlast) hw⟩
            rw [map_cons, parseLoop_cons h, hround]
            rfl
          · rw [if_neg hlast] at hround
            exact .refused h hround fun hw => hw.elim hlast fun hw => hle hw.1
      cases t with
      | integer => exact hinteger (by decide)
      | counter => exact hinteger (by decide)
      | gauge => exact hinteger (by decide)
      | timeticks => exact hinteger (by decide)
      | opaqueStr => exact hstring (.inr rfl)
      | octetStr => exact hstring (.inl rfl)
      | objectId =>
        have hround := parseVar_objectId h
        by_cases hle : v.toNat ≤ rest.length
        · rw [if_pos hle] at hround
          refine (Outcome.round h hround hparts ?_ (ih (h.counted hle))).congr (and_iff_right hle)
          exact (count_withObjectId _ _).trans (Nat.le_succ _)
        · rw [if_neg hle] at hround
          exact .refused h hround fun hw => hle hw.1
      | impliedObjectId => exact .implied h (parseVar_impliedObjectId h) (count_withObjectId _ _) types
      | impliedOctetStr => exact .implied h (parseVar_impliedString h) (count_withString _ _) types
      | ipaddress => exact .refused h rfl id
      | other => exact .refused h rfl id

/-! ## back from what was written -/

/-- Index variables. Implied values come last and are not empty. -/
inductive Indexes : List IndexVar → Prop
  | nil : Indexes []
  | integer {t : IndexType} {n : Nat} {vars : List IndexVar} (ht : t ∈ integers) (hn : n < 2 ^ 32)
      (hvars : Indexes vars) : Indexes (⟨t, some (.integer n), SIZEOF_LONG⟩ :: vars)
  | string {t : IndexType} {s : List UInt8} {vars : List IndexVar} (ht : t = .octetStr ∨ t = .opaqueStr)
      (hvars : Indexes vars) : Indexes (⟨t, some (.string s), s.length⟩ :: vars)
  | objectId {o : ObjId} {vars : List IndexVar} (hvars : Indexes vars) :
      Indexes (⟨.objectId, some (.objectId o), o.length * SIZEOF_OID⟩ :: vars)
  | impliedString {s : List UInt8} (hs : s ≠ []) : Indexes [⟨.impliedOctetStr, some (.string s), s.length⟩]
  | impliedObjectId {o : ObjId} (ho : o ≠ []) :
      Indexes [⟨.impliedObjectId, some (.objectId o), o.length * SIZEOF_OID⟩]

/-- The OID of some variables, none of which has a cached name. -/
def encoding (vars : List IndexVar) : ObjId := generateOid none (vars.map fun var => ⟨var, none⟩)

/-- Index variables whose OID has room for its subidentifiers. -/
structure IndexList where
  vars : List IndexVar
  indexes : Indexes vars
  fits : (encoding vars).length ≤ asnMAX_OID_LEN

/-- An OID of at most 128 subidentifiers. -/
structure IndexOid where
  oid : ObjId
  fits : oid.length ≤ asnMAX_OID_LEN

/-- The same type, and the same elements. -/
structure SameValue (var var' : IndexVar) : Prop where
  type : var'.type = var.type
  valueLength : var'.valueLength = var.valueLength
  value : var.valueLength ≠ 0 → var'.value = var.value

/-- Fresh variables of the same types get the same values. -/
def RoundTrips (vars : List IndexVar) : Prop :=
  ∃ r, parseOid (encoding vars) (vars.map fun var => .fresh var.type) = .ok r ∧ List.Forall₂ SameValue vars r.1

/-- What is read back for a variable. -/
def readBack (var : IndexVar) : IndexVar :=
  match var.value with
  | some (.string s) => withString (.fresh var.type) (s.map (·.toUInt32))
  | some (.objectId o) => withObjectId (.fresh var.type) o
  | _ => var

variable {vars : List IndexVar}

theorem encoding_cons (var : IndexVar) (vars : List IndexVar) :
    encoding (var :: vars) = (varoid var).getD [] ++ encoding vars := by
  -- what has been written already is left alone
  have hloop : ∀ (data : List Variable) (out : ObjId), generateLoop out data = out ++ generateLoop [] data := by
    intro data
    induction data with
    | nil => exact fun out => (append_nil out).symm
    | cons var data ih =>
      intro out
      rw [generateLoop, generateLoop, ih, ih ([] ++ _), nil_append, append_assoc]
  unfold encoding generateOid
  rw [map_cons, generateLoop, hloop, Option.getD_none, nil_append]
  congr 1
  unfold generateVaroid
  cases varoid var <;> rfl

theorem string_encoding {t : IndexType} {s : List UInt8} (ht : t = .octetStr ∨ t = .opaqueStr) :
    varoid ⟨t, some (.string s), s.length⟩ = some (UInt32.ofNat s.length :: s.map (·.toUInt32)) := by
  rcases ht with rfl | rfl
  all_goals
    show some (UInt32.ofNat s.length :: (s.take s.length).map (·.toUInt32)) = _
    rw [take_length]

theorem objectId_encoding (o : ObjId) :
    varoid ⟨.objectId, some (.objectId o), o.length * SIZEOF_OID⟩ = some (UInt32.ofNat o.length :: o) := by
  show some (UInt32.ofNat (o.length * SIZEOF_OID / SIZEOF_OID) :: o.take (o.length * SIZEOF_OID / SIZEOF_OID)) = _
  rw [Nat.mul_div_cancel _ (by decide), take_length]

theorem counted_part (part rest : ObjId) (h : Left oid i oidLen (UInt32.ofNat part.length :: (part ++ rest))) :
    (UInt32.ofNat part.length).toNat = part.length ∧ (part ++ rest).take part.length = part ∧
      (part ++ rest).drop part.length = rest ∧ part.length ≤ (part ++ rest).length := by
  have hsmall := h.small
  rw [length_cons, length_append] at hsmall
  refine ⟨?_, take_left' rfl, drop_left' rfl, ?_⟩
  · rw [UInt32.toNat_ofNat', Nat.mod_eq_of_lt (by omega)]
  · rw [length_append]
    omega

theorem parseLoop_round {var : IndexVar} {data data' : List IndexVar} {l : Nat} (h : Left oid i oidLen (v :: rest))
    (hround : parseVar oid i oidLen (.fresh t) = .ok (var, j, l)) (hrest : parseLoop oid j l data = .ok (data', n)) :
    parseLoop oid i oidLen (.fresh t :: data) = .ok (var :: data', n) := by
  rw [parseLoop_cons h, hround, ok_bind]
  simp only [hrest]
  rfl

theorem parseLoop_encoding (hvars : Indexes vars) (h : Left oid i oidLen (encoding vars)) :
    parseLoop oid i oidLen (vars.map fun var => .fresh var.type) = .ok (vars.map readBack, oid.length) := by
  induction hvars generalizing i oidLen with
  | nil =>
    have hlen := h.len
    have htotal := h.total
    rw [show encoding [] = [] from rfl, length_nil] at hlen htotal
    subst hlen
    show Except.ok (([] : List IndexVar), i) = _
    rw [← htotal]
    rfl
  | @integer t n vars ht hn _ ih =>
    have hv : varoid ⟨t, some (.integer n), SIZEOF_LONG⟩ = some [oidOfLong n] := by
      simp only [integers, mem_cons, not_mem_nil, or_false] at ht
      rcases ht with rfl | rfl | rfl | rfl <;> rfl
    -- an index is not negative and fits into a subidentifier
    have hback : (oidOfLong (n : Int)).toNat = n := by
      have := Mib.toNat_oidOfLong (by omega : (0 : Int) ≤ n) (by omega : (n : Int) < 2 ^ 32)
      omega
    rw [encoding_cons, hv] at h
    have hround := parseVar_integer ht h
    rw [hback] at hround
    exact parseLoop_round h hround (ih h.next.2)
  | @string t s vars ht _ ih =>
    rw [encoding_cons, string_encoding ht, Option.getD_some, cons_append] at h
    have hround := parseVar_string ht h
    have hpart := counted_part (s.map (·.toUInt32)) (encoding vars) (by rwa [length_map])
    rw [length_map] at hpart
    obtain ⟨hv, htake, hdrop, hle⟩ := hpart
    rw [hv, if_pos hle, htake, hdrop] at hround
    have hnext := h.counted (by rwa [hv])
    rw [hv, hdrop] at hnext
    exact parseLoop_round h hround (ih hnext)
  | @objectId o vars _ ih =>
    rw [encoding_cons, objectId_encoding, Option.getD_some, cons_append] at h
    have hround := parseVar_objectId h
    obtain ⟨hv, htake, hdrop, hle⟩ := counted_part o (encoding vars) h
    rw [hv, if_pos hle, htake, hdrop] at hround
    have hnext := h.counted (by rwa [hv])
    rw [hv, hdrop] at hnext
    exact parseLoop_round h hround (ih hnext)
  | @impliedString s hs =>
    have hv : encoding [⟨.impliedOctetStr, some (.string s), s.length⟩] = s.map (·.toUInt32) := by
      rw [encoding_cons]
      show (s.take s.length).map (·.toUInt32) ++ [] = _
      rw [take_length, append_nil]
    rw [hv] at h
    have hround := parseVar_impliedString h
    have htotal := h.total
    obtain ⟨v, s', hcons⟩ := exists_cons_of_ne_nil (map_eq_nil_iff.not.mpr hs : s.map (·.toUInt32) ≠ [])
    rw [hcons] at h
    exact parseLoop_round h (htotal ▸ hround) rfl
  | @impliedObjectId o ho =>
    have hv : encoding [⟨.impliedObjectId, some (.objectId o), o.length * SIZEOF_OID⟩] = o := by
      rw [encoding_cons]
      show o.take (o.length * SIZEOF_OID / SIZEOF_OID) ++ [] = _
      rw [Nat.mul_div_cancel _ (by decide), take_length, append_nil]
    rw [hv] at h
    have hround := parseVar_impliedObjectId h
    have htotal := h.total
    obtain ⟨v, o', rfl⟩ := exists_cons_of_ne_nil ho
    exact parseLoop_round h (htotal ▸ hround) rfl

/-- The subidentifiers of the values are octets. -/
def Octets (vars : List IndexVar) : Prop := ∀ var ∈ vars, ∀ v ∈ var.objectId, v ≤ 255

theorem Indexes.forms {var : IndexVar} (hvars : Indexes vars) (hvar : var ∈ vars) :
    (∃ t n, var = ⟨t, some (.integer n), SIZEOF_LONG⟩) ∨ (∃ t s, var = ⟨t, some (.string s), s.length⟩) ∨
      ∃ t o, var = ⟨t, some (.objectId o), o.length * SIZEOF_OID⟩ := by
  induction hvars with
  | nil => exact absurd hvar not_mem_nil
  | integer _ _ _ ih => exact (mem_cons.mp hvar).elim (fun h => .inl ⟨_, _, h⟩) ih
  | string _ _ ih => exact (mem_cons.mp hvar).elim (fun h => .inr (.inl ⟨_, _, h⟩)) ih
  | objectId _ ih => exact (mem_cons.mp hvar).elim (fun h => .inr (.inr ⟨_, _, h⟩)) ih
  | impliedString _ => exact .inr (.inl ⟨_, _, mem_singleton.mp hvar⟩)
  | impliedObjectId _ => exact .inr (.inr ⟨_, _, mem_singleton.mp hvar⟩)

theorem narrow_eq_iff (o : ObjId) : o.map (fun v => v.toUInt8.toUInt32) = o ↔ ∀ v ∈ o, v ≤ 255 := by
  rw [← Mib.map_toUInt32_toUInt8_iff, map_map]
  rfl

theorem sameValue_readBack (hvars : Indexes vars) {var : IndexVar} (hvar : var ∈ vars) :
    SameValue var (readBack var) ↔ ∀ v ∈ var.objectId, v ≤ 255 := by
  rcases hvars.forms hvar with ⟨t, n, rfl⟩ | ⟨t, s, rfl⟩ | ⟨t, o, rfl⟩
  · exact iff_of_true ⟨rfl, rfl, fun _ => rfl⟩ fun v hv => absurd hv not_mem_nil
  · refine iff_of_true ?_ fun v hv => absurd hv not_mem_nil
    by_cases hnil : s = []
    · subst hnil
      exact ⟨rfl, rfl, fun h => absurd rfl h⟩
    · have hback : readBack ⟨t, some (.string s), s.length⟩ = ⟨t, some (.string s), s.length⟩ := by
        show withString (.fresh t) (s.map (·.toUInt32)) = _
        rw [withString, if_neg (map_eq_nil_iff.not.mpr hnil), Mib.map_toUInt8_toUInt32, length_map]
        rfl
      rw [hback]
      exact ⟨rfl, rfl, fun _ => rfl⟩
  · show _ ↔ ∀ v ∈ o, v ≤ 255
    by_cases hnil : o = []
    · subst hnil
      refine iff_of_true ⟨rfl, rfl, fun h => absurd rfl h⟩ fun v hv => absurd hv not_mem_nil
    · have hback : readBack ⟨t, some (.objectId o), o.length * SIZEOF_OID⟩ =
          ⟨t, some (.objectId (o.map fun v => v.toUInt8.toUInt32)), o.length * SIZEOF_OID⟩ := by
        show withObjectId (.fresh t) o = _
        rw [withObjectId, if_neg hnil]
        rfl
      rw [hback, ← narrow_eq_iff]
      constructor
      · intro h
        have hpos := length_pos_iff.mpr hnil
        have hvalue := h.value (Nat.mul_ne_zero (by omega) (by decide))
        exact Value.objectId.inj (Option.some.inj hvalue)
      · intro h
        exact ⟨rfl, rfl, fun _ => by rw [h]⟩

/-- Index variables come back if and only if the subidentifiers of their OIDs are octets. An OID is refused, or read
to its end and no further, if and only if no string has the largest length there is. -/
theorem parseOid_exact_iff (l : IndexList) (types : List IndexType) (o : IndexOid) :
    (RoundTrips l.vars ↔ Octets l.vars) ∧ (Parses types o.oid ↔ ¬ Wraps types o.oid) := by
  constructor
  · have hparse := parseLoop_encoding l.indexes (Left.start l.fits)
    -- strings come back in any case
    have hsame : List.Forall₂ SameValue l.vars (l.vars.map readBack) ↔ Octets l.vars := by
      rw [forall₂_map_right_iff, forall₂_same]
      exact forall₂_congr fun var hvar => sameValue_readBack l.indexes hvar
    rw [← hsame]
    constructor
    · rintro ⟨r, hr, hall⟩
      rw [parseOid, hparse, Except.ok.injEq] at hr
      rwa [← hr] at hall
    · exact fun hall => ⟨_, hparse, hall⟩
  · obtain ⟨hfault, hparses⟩ := parseLoop_spec types (Left.start o.fits)
    refine ⟨fun h hw => ?_, hparses⟩
    have hends := hfault hw
    unfold Parses ParsesFrom at h
    rw [hends] at h
    cases h

/-- The index of a table that has an OID for it, `1.3.300`. -/
def oidIndex : List IndexVar := [⟨.objectId, some (.objectId [1, 3, 300]), 12⟩]

/-- 300 comes back as 44. -/
theorem not_parseOid_exact :
    ¬ ((∀ l : IndexList, RoundTrips l.vars) ∧ ∀ (types : List IndexType) (o : IndexOid), Parses types o.oid) := by
  rintro ⟨hback, -⟩
  have hfits : (encoding oidIndex).length ≤ asnMAX_OID_LEN := by decide
  obtain ⟨r, hr, hall⟩ := hback ⟨oidIndex, .objectId .nil, hfits⟩
  have hread : parseOid (encoding oidIndex) (oidIndex.map fun var => .fresh var.type) =
      .ok ([⟨.objectId, some (.objectId [1, 3, 44]), 12⟩], 4) := by decide +kernel
  rw [hread, Except.ok.injEq] at hr
  subst hr
  cases hall with
  | cons hsame _ =>
    have hvalue := hsame.value (by decide)
    exact absurd hvalue (by decide)

end Priot.HeaderComplex
