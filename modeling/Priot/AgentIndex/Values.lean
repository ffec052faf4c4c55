/-
# Index values

How the registry compares two values, and how it makes a new one from the last. Texts are compared as far as both
reach, so that a text and what it begins with count as equal.
-/
import Priot.Lib.Compare
import Priot.Registry.Oid

namespace Priot.AgentIndex

open Lib Registry List

/-! ## the functions -/

/-- A value with the type that tells how to read it. -/
inductive IndexValue
  | integer (v : Int)
  | octets (v : List UInt8)
  | objectId (v : ObjId)
  deriving DecidableEq

/-- The type octet of a value. -/
def IndexValue.type : IndexValue → UInt8
  | integer _ => asnINTEGER
  | octets _ => asnOCTET_STR
  | objectId _ => asnOBJECT_ID

/-- The result of `Api_oidCompare` as a number. -/
def sign : Ordering → Int
  | .lt => -1
  | .eq => 0
  | .gt => 1

/-- The `switch` over the type of the value looked for. The difference of two `long` is an `int` here. Nothing is
said about values of two types. -/
def compareValues : IndexValue → IndexValue → Option Int
  | .integer v, .integer w => some ((v - w).bmod (2 ^ 32))
  | .octets v, .octets w => some (memcmp (min v.length w.length) v w)
  | .objectId v, .objectId w => some (sign (oidCompare v w))
  | _, _ => none

/-- What `Client_setVarValue` keeps of a value. -/
def setVarValue : IndexValue → IndexValue
  | .integer v => .integer (if v > 0xffffffff then v % 2 ^ 32 else v)
  | v => v

/-- The size of the `buffer` in a varbind. -/
def bufferSize : Nat := 40

/-- `while (buffer[i] == 'z') { … } buffer[i]++`, for a text of `len` octets. -/
def countUpOctets (len : Nat) : Nat → List UInt8 → Option (List UInt8)
  | 0, buffer => do
    let c ← buffer[0]?
    if c = 122 then
      -- `i` goes on behind the text, where it finds an 'a'
      if len + 1 < buffer.length then some (((buffer.set 0 97).set len 98).set (len + 1) 0) else none
    else some (buffer.set 0 (c + 1))
  | i + 1, buffer => do
    let c ← buffer[i + 1]?
    if c = 122 then countUpOctets len i (buffer.set (i + 1) 97) else some (buffer.set (i + 1) (c + 1))

/-- The `strlen` of the buffer is the length of the new text. A longer text than the buffer holds is stored
elsewhere, and so the loop leaves the buffer. -/
def nextOctets (v : List UInt8) : Option (List UInt8) := do
  if v.length = 0 ∨ bufferSize < v.length then none
  let buffer ← countUpOctets v.length (v.length - 1) (v ++ List.replicate (bufferSize - v.length) 0)
  if 0 ∈ buffer then some (buffer.takeWhile (· ≠ 0)) else none

/-- `while (objectId[i] == 255) { … } objectId[i]++`, for `len` subidentifiers. -/
def countUpObjectId (len : Nat) : Nat → ObjId → Option ObjId
  | 0, o => do
    let c ← o[0]?
    -- `i` leaves the array
    if c = 255 then none else some (o.set 0 (c + 1))
  | i + 1, o => do
    let c ← o[i + 1]?
    if c = 255 then
      let o := o.set (i + 1) 1
      -- `i` goes on behind the OID, where it finds a 0
      if i = 0 ∧ o[0]? = some 2 then if 4 * len < bufferSize then some (o.set 0 1 ++ [1]) else none
      else countUpObjectId len i o
    else some (o.set (i + 1) (c + 1))

def nextObjectId (v : ObjId) : Option ObjId :=
  if v.length = 0 then none else countUpObjectId v.length (v.length - 1) v

/-- The value after the last one. -/
def nextValue : IndexValue → Option IndexValue
  | .integer v => some (.integer ((v + 1).bmod (2 ^ 64)))
  | .octets v => (nextOctets v).map .octets
  | .objectId v => (nextObjectId v).map .objectId

/-- The first value of the type of `v` for a new OID. -/
def firstValue (name : ObjId) (v : IndexValue) : IndexValue :=
  match v with
  | .integer _ => .integer 1
  | .octets _ => .octets [97, 97, 97, 97]
  | .objectId _ => .objectId (if (name.length + 1) * 4 ≤ bufferSize then name ++ [1] else [1, 1, 1, 1])

/-! ## the order of the values -/

/-- In front of, among the values of one type. For texts neither begins with the other. -/
def IndexValue.Below : IndexValue → IndexValue → Prop
  | .integer v, .integer w => v < w
  | .octets v, .octets w => PartsBefore v w
  | .objectId v, .objectId w => v < w
  | _, _ => False

/-- One of two texts goes on where the other ends. -/
def IndexValue.Extends : IndexValue → IndexValue → Prop
  | .octets v, .octets w => v ≠ w ∧ (v <+: w ∨ w <+: v)
  | _, _ => False

/-- The difference of two integers is an `int`. -/
def IndexValue.Near : IndexValue → IndexValue → Prop
  | .integer v, .integer w => -2 ^ 31 ≤ v - w ∧ v - w < 2 ^ 31
  | _, _ => True

variable {u v w : IndexValue}

open IndexValue

theorem below_trans (huv : u.Below v) (hvw : v.Below w) : u.Below w := by
  cases u <;> cases v <;> first | exact huv.elim | skip
  all_goals cases w <;> first | exact hvw.elim | skip
  case integer.integer.integer => exact Int.lt_trans huv hvw
  case octets.octets.octets => exact PartsBefore.trans huv hvw
  case objectId.objectId.objectId => exact Std.lt_trans huv hvw

theorem below_irrefl (v : IndexValue) : ¬ v.Below v := by
  cases v with
  | integer v => exact Int.lt_irrefl v
  | octets v => exact PartsBefore.irrefl v
  | objectId v => exact Std.lt_irrefl (a := v)

theorem below_type_eq (h : v.Below w) : v.type = w.type := by
  cases v <;> cases w <;> first | rfl | exact h.elim

@[elab_as_elim]
theorem of_type_eq {P : IndexValue → IndexValue → Prop} (h : v.type = w.type)
    (hi : ∀ v w, P (integer v) (integer w)) (ho : ∀ v w, P (octets v) (octets w))
    (hd : ∀ v w, P (objectId v) (objectId w)) : P v w := by
  have h₁ : asnINTEGER ≠ asnOCTET_STR := by decide
  have h₂ : asnINTEGER ≠ asnOBJECT_ID := by decide
  have h₃ : asnOCTET_STR ≠ asnOBJECT_ID := by decide
  cases v <;> cases w
  case integer.integer v w => exact hi v w
  case octets.octets v w => exact ho v w
  case objectId.objectId v w => exact hd v w
  case integer.octets => exact absurd h h₁
  case integer.objectId => exact absurd h h₂
  case octets.integer => exact absurd h.symm h₁
  case octets.objectId => exact absurd h h₃
  case objectId.integer => exact absurd h.symm h₂
  case objectId.octets => exact absurd h.symm h₃

theorem compareValues_spec (htype : v.type = w.type) (hnear : v.Near w) :
    ∃ r, compareValues v w = some r ∧ (r < 0 ↔ v.Below w) ∧ (r = 0 ↔ v = w ∨ v.Extends w) ∧ (0 < r ↔ w.Below v) := by
  revert hnear
  refine of_type_eq htype ?_ ?_ ?_
  · intro v w hnear
    obtain ⟨h₁, h₂⟩ := hnear
    refine ⟨_, rfl, ?_⟩
    rw [Int.bmod_eq_of_le (by omega) (by omega), integer.injEq]
    show (v - w < 0 ↔ v < w) ∧ (v - w = 0 ↔ v = w ∨ False) ∧ (0 < v - w ↔ w < v)
    rw [or_false]
    omega
  · intro v w _
    obtain ⟨hlt, heq⟩ := Lib.memcmp_min v w
    obtain ⟨hgt, -⟩ := Lib.memcmp_min w v
    have hswap := (Lib.memcmp_total (min v.length w.length)).swap w v
    rw [Nat.min_comm] at hgt
    refine ⟨_, rfl, hlt, ?_, hswap.symm.trans hgt⟩
    rw [heq, octets.injEq]
    show _ ↔ v = w ∨ v ≠ w ∧ _
    by_cases h : v = w
    · simp [h]
    · simp [h]
  · intro v w _
    obtain ⟨hlt, heq, hgt⟩ := Registry.oidCompare_spec v w
    refine ⟨_, rfl, ?_⟩
    rw [objectId.injEq, ← heq]
    show (_ ↔ v < w) ∧ (_ ↔ _ ∨ False) ∧ (_ ↔ w < v)
    rw [← hlt, ← hgt]
    cases oidCompare v w <;> simp [sign]

/-! ## new values -/

/-- The last value of an OID has one after it. -/
def IndexValue.CountsUp : IndexValue → Prop
  | .integer v => v < 2 ^ 31
  | .octets v => v.length < bufferSize ∧
      ∃ s c k, v = s ++ c :: List.replicate k 122 ∧ c ≠ 122 ∧ c ≠ 255 ∧ 0 ∉ s
  | .objectId v => ∃ s c k, v = s ++ c :: List.replicate k 255 ∧ c ≠ 255 ∧ c ≠ 4294967295 ∧
      ¬ (s = [] ∧ c = 2 ∧ k ≠ 0)

/-- The integers that the registry may come to hold. -/
def IndexValue.InRange : IndexValue → Prop
  | .integer v => 0 ≤ v ∧ v ≤ 2 ^ 31
  | _ => True

theorem countUpOctets_spec (len : Nat) (s : List UInt8) {c : UInt8} (hc : c ≠ 122) (k : Nat) (t : List UInt8) :
    countUpOctets len (s.length + k) (s ++ c :: (List.replicate k 122 ++ t)) =
      some (s ++ (c + 1) :: (List.replicate k 97 ++ t)) := by
  induction k generalizing t with
  | zero =>
    have hget : (s ++ c :: t)[s.length]? = some c := by simp
    have hset : (s ++ c :: t).set s.length (c + 1) = s ++ (c + 1) :: t := by simp
    show countUpOctets len s.length (s ++ c :: t) = some (s ++ (c + 1) :: t)
    cases hs : s.length with
    | zero =>
      rw [hs] at hget hset
      rw [countUpOctets, hget, Option.bind_eq_bind, Option.bind_some, if_neg hc, hset]
    | succ n =>
      rw [hs] at hget hset
      rw [countUpOctets, hget, Option.bind_eq_bind, Option.bind_some, if_neg hc, hset]
  | succ k ih =>
    have hbuf : s ++ c :: (replicate (k + 1) 122 ++ t) = (s ++ c :: replicate k 122) ++ 122 :: t := by
      rw [replicate_succ']
      simp
    have hlen : (s ++ c :: replicate k 122).length = s.length + k + 1 := by simp; omega
    have hget : ((s ++ c :: replicate k 122) ++ 122 :: t)[s.length + k + 1]? = some 122 := by
      rw [← hlen, getElem?_append_right (Nat.le_refl _), Nat.sub_self]
      rfl
    have hset : ((s ++ c :: replicate k 122) ++ 122 :: t).set (s.length + k + 1) 97 =
        s ++ c :: (replicate k 122 ++ 97 :: t) := by
      rw [← hlen, set_append_right _ _ (Nat.le_refl _), Nat.sub_self]
      simp
    rw [hbuf, ← Nat.add_assoc, countUpOctets, hget, Option.bind_eq_bind, Option.bind_some, if_pos rfl, hset, ih]
    rw [replicate_succ']
    simp

theorem nextOctets_spec {v : List UInt8} (h : (IndexValue.octets v).CountsUp) :
    ∃ w, nextOctets v = some w ∧ PartsBefore v w := by
  obtain ⟨hlen, s, c, k, rfl, hc, hc', hs⟩ := h
  have hsize : (s ++ c :: replicate k 122).length = s.length + k + 1 := by simp; omega
  have hlt : c < c + 1 := by
    have hne : c.toNat ≠ 255 := fun h => hc' (UInt8.toNat_inj.mp h)
    have := c.toNat_lt
    rw [UInt8.lt_iff_toNat_lt, UInt8.toNat_add]
    show c.toNat < (c.toNat + 1) % 256
    omega
  have hne : c + 1 ≠ 0 := by
    rintro h
    rw [h] at hlt
    exact UInt8.not_lt_zero hlt
  have hbuf : (s ++ c :: replicate k 122) ++ replicate (bufferSize - (s.length + k + 1)) 0 =
      s ++ c :: (replicate k 122 ++ replicate (bufferSize - (s.length + k + 1)) 0) := by simp
  obtain ⟨r, hr⟩ : ∃ r, bufferSize - (s.length + k + 1) = r + 1 := ⟨bufferSize - (s.length + k + 1) - 1, by omega⟩
  have hmem : (0 : UInt8) ∈ s ++ (c + 1) :: (replicate k 97 ++ replicate (r + 1) 0) := by simp
  have hstrlen : (s ++ (c + 1) :: (replicate k 97 ++ replicate (r + 1) 0)).takeWhile (· ≠ 0) =
      s ++ (c + 1) :: replicate k 97 := by
    have hall : ∀ x ∈ s ++ (c + 1) :: replicate k 97, decide (x ≠ 0) = true := by
      intro x hx
      rw [decide_eq_true_iff]
      rcases mem_append.mp hx with hx | hx
      · exact fun h => hs (h ▸ hx)
      · rcases mem_cons.mp hx with rfl | hx
        · exact hne
        · rw [eq_of_mem_replicate hx]
          decide
    have := @List.takeWhile_append_of_pos _ _ _ (replicate (r + 1) 0) hall
    rw [replicate_succ, takeWhile_cons_of_neg (by simp), append_nil] at this
    rw [replicate_succ]
    simpa using this
  refine ⟨s ++ (c + 1) :: replicate k 97, ?_, Lib.partsBefore_append hlt s⟩
  rw [nextOctets, hsize, if_neg (by omega), hbuf, hr]
  show countUpOctets _ (s.length + k) _ >>= _ = _
  rw [countUpOctets_spec _ s hc k, Option.bind_eq_bind, Option.bind_some, if_pos hmem, hstrlen]

theorem countUpObjectId_spec (len : Nat) (s : ObjId) {c : Oid} (hc : c ≠ 255) (k : Nat) (t : ObjId)
    (hwrap : ¬ (s = [] ∧ c = 2 ∧ k ≠ 0)) : countUpObjectId len (s.length + k) (s ++ c :: (List.replicate k 255 ++ t)) =
      some (s ++ (c + 1) :: (List.replicate k 1 ++ t)) := by
  induction k generalizing t with
  | zero =>
    have hget : (s ++ c :: t)[s.length]? = some c := by simp
    have hset : (s ++ c :: t).set s.length (c + 1) = s ++ (c + 1) :: t := by simp
    show countUpObjectId len s.length (s ++ c :: t) = some (s ++ (c + 1) :: t)
    cases hs : s.length with
    | zero =>
      rw [hs] at hget hset
      rw [countUpObjectId, hget, Option.bind_eq_bind, Option.bind_some, if_neg hc, hset]
    | succ n =>
      rw [hs] at hget hset
      rw [countUpObjectId, hget, Option.bind_eq_bind, Option.bind_some, if_neg hc, hset]
  | succ k ih =>
    have hbuf : s ++ c :: (replicate (k + 1) 255 ++ t) = (s ++ c :: replicate k 255) ++ 255 :: t := by
      rw [replicate_succ']
      simp
    have hlen : (s ++ c :: replicate k 255).length = s.length + k + 1 := by simp; omega
    have hget : ((s ++ c :: replicate k 255) ++ 255 :: t)[s.length + k + 1]? = some 255 := by
      rw [← hlen, getElem?_append_right (Nat.le_refl _), Nat.sub_self]
      rfl
    have hset : ((s ++ c :: replicate k 255) ++ 255 :: t).set (s.length + k + 1) 1 =
        s ++ c :: (replicate k 255 ++ 1 :: t) := by
      rw [← hlen, set_append_right _ _ (Nat.le_refl _), Nat.sub_self]
      simp
    have hfirst : ¬ (s.length + k = 0 ∧ (s ++ c :: (replicate k 255 ++ 1 :: t))[0]? = some 2) := by
      rintro ⟨h0, h2⟩
      obtain rfl := length_eq_zero_iff.mp (Nat.eq_zero_of_add_eq_zero_right h0)
      exact hwrap ⟨rfl, by simpa using h2, Nat.succ_ne_zero k⟩
    rw [hbuf, ← Nat.add_assoc, countUpObjectId, hget, Option.bind_eq_bind, Option.bind_some, if_pos rfl, hset,
      if_neg hfirst, ih _ fun h => hwrap ⟨h.1, h.2.1, Nat.succ_ne_zero k⟩]
    rw [replicate_succ']
    simp

theorem nextObjectId_spec {v : ObjId} (h : (IndexValue.objectId v).CountsUp) :
    ∃ w, nextObjectId v = some w ∧ v < w := by
  obtain ⟨s, c, k, rfl, hc, hc', hwrap⟩ := h
  have hsize : (s ++ c :: replicate k 255).length = s.length + k + 1 := by simp; omega
  have hlt : c < c + 1 := (Registry.lt_succ_iff hc').mpr (UInt32.le_refl c)
  refine ⟨s ++ (c + 1) :: replicate k 1, ?_, ?_⟩
  · have hcount := countUpObjectId_spec (s.length + k + 1) s hc k [] hwrap
    rw [append_nil, append_nil] at hcount
    rw [nextObjectId, hsize, if_neg (by omega)]
    exact hcount
  · exact append_left_lt (cons_lt_cons_iff.mpr (.inl hlt))

theorem nextValue_spec (h : v.CountsUp) (hr : v.InRange) : ∃ w, nextValue v = some w ∧ v.Below w ∧ w.InRange := by
  cases v with
  | integer v =>
    have hlt : v < 2 ^ 31 := h
    obtain ⟨h₁, h₂⟩ := hr
    have hmod : (v + 1).bmod (2 ^ 64) = v + 1 := Int.bmod_eq_of_le (by omega) (by omega)
    refine ⟨integer (v + 1), ?_, Int.lt_succ v, by omega, by omega⟩
    rw [nextValue, hmod]
  | octets v =>
    obtain ⟨w, e, hlt⟩ := nextOctets_spec h
    exact ⟨octets w, by rw [nextValue, e]; rfl, hlt, trivial⟩
  | objectId v =>
    obtain ⟨w, e, hlt⟩ := nextObjectId_spec h
    exact ⟨objectId w, by rw [nextValue, e]; rfl, hlt, trivial⟩

theorem firstValue_inRange (name : ObjId) (v : IndexValue) : (firstValue name v).InRange := by
  cases v with
  | integer v => exact ⟨by decide, by decide⟩
  | octets v => trivial
  | objectId v => trivial

/-- The integers of a request, which are no greater than the last one but one of the type. -/
def IndexValue.Requested : IndexValue → Prop
  | .integer v => 0 ≤ v ∧ v ≤ 2 ^ 31 - 2
  | _ => True

theorem requested_inRange (h : v.Requested) : v.InRange := by
  cases v with
  | integer v => exact ⟨h.1, by have := h.2; omega⟩
  | octets v => trivial
  | objectId v => trivial

theorem requested_near (h : v.Requested) (hw : w.InRange) : v.Near w := by
  cases v with
  | integer v =>
    cases w with
    | integer w =>
      obtain ⟨h₁, h₂⟩ := h
      obtain ⟨h₃, h₄⟩ := hw
      exact ⟨by omega, by omega⟩
    | octets w => trivial
    | objectId w => trivial
  | octets v => trivial
  | objectId v => trivial

theorem setVarValue_requested (h : v.Requested) : setVarValue v = v := by
  cases v with
  | integer v =>
    obtain ⟨h₁, h₂⟩ := h
    rw [setVarValue, if_neg (by omega)]
  | octets v => rfl
  | objectId v => rfl

end Priot.AgentIndex
