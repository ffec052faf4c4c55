/-
# How numbers are stored

A varbind keeps a 32-bit integer as a `long`, and a 64-bit one as two halves, the upper one first. Read as a `long`, the
halves of a 64-bit integer are swapped.
-/
import Priot.MteTrigger.Integers

namespace Priot.MteTrigger

open List

variable {N : List VarBind} {u : VarBind} {v : Int} {type : Nat}

/-! ## octets -/

/-- The octets of a `long`, the lowest one first. -/
def longOctets (w : BitVec 64) : List (BitVec 8) :=
  [w.extractLsb' 0 8, w.extractLsb' 8 8, w.extractLsb' 16 8, w.extractLsb' 24 8, w.extractLsb' 32 8, w.extractLsb' 40 8,
    w.extractLsb' 48 8, w.extractLsb' 56 8]

/-- The octets of an `int`. -/
def intOctets (w : BitVec 32) : List (BitVec 8) :=
  [w.extractLsb' 0 8, w.extractLsb' 8 8, w.extractLsb' 16 8, w.extractLsb' 24 8]

structure Counter64 where
  high : BitVec 32
  low : BitVec 32
  deriving DecidableEq

def Counter64.octets (c : Counter64) : List (BitVec 8) := intOctets c.high ++ intOctets c.low

theorem readLong_longOctets (w : BitVec 64) : readLong (longOctets w) = some w := by
  refine congrArg some (BitVec.eq_of_getLsbD_eq fun i _ => ?_)
  simp only [BitVec.getLsbD_append, BitVec.getLsbD_extractLsb']
  grind

theorem readLong_counter64 (c : Counter64) : readLong c.octets = some (c.low ++ c.high) := by
  refine congrArg some (BitVec.eq_of_getLsbD_eq fun i _ => ?_)
  simp only [BitVec.getLsbD_append, BitVec.getLsbD_extractLsb']
  grind

/-- An unsigned number of any size, as its octets are read. -/
def readNat (octets : List (BitVec 8)) : Nat := octets.foldr (fun b n => b.toNat + 256 * n) 0

theorem readNat_longOctets (w : BitVec 64) : readNat (longOctets w) = w.toNat := by
  have hw := w.isLt
  simp only [readNat, longOctets, foldr_cons, foldr_nil, BitVec.extractLsb'_toNat, Nat.shiftRight_eq_div_pow]
  omega

theorem readNat_intOctets (w : BitVec 32) : readNat (intOctets w) = w.toNat := by
  have hw := w.isLt
  simp only [readNat, intOctets, foldr_cons, foldr_nil, BitVec.extractLsb'_toNat, Nat.shiftRight_eq_div_pow]
  omega

/-! ## what is stored -/

/-- The types whose values are kept as a `long`. -/
def isLong (type : Nat) : Bool := type ∈ [asnINTEGER, asnGAUGE, asnTIMETICKS, asnCOUNTER, asnUINTEGER]

/-- `Client_setVarValue` for a value of one of the integer types: the octets that are kept of it, unless its size is
bad. -/
def setVarValue (type : Nat) (value : List (BitVec 8)) : Option (List (BitVec 8)) :=
  if value = [] then some []
  else if isLong type then
    if value.length = 8 then
      let w := BitVec.ofNat 64 (readNat value)
      some (longOctets (if w.toInt > 0xffffffff then w &&& 0xffffffff else w))
    else if value.length = 4 ∨ value.length = 2 ∨ value.length = 1 then
      let w := BitVec.ofNat (8 * value.length) (readNat value)
      some (longOctets (if type = asnINTEGER then w.signExtend 64 else w.setWidth 64))
    else none
  else if type = asnOPAQUE_U64 ∨ type = asnOPAQUE_I64 ∨ type = asnCOUNTER64 then
    if value.length > 40 then none else some (value.take 8)
  else none

/-- The numbers of a type, below 2^63. -/
def InRange (type : Nat) (v : Int) : Prop :=
  if type = asnINTEGER then -2 ^ 31 ≤ v ∧ v < 2 ^ 31
  else if isLong type then 0 ≤ v ∧ v < 2 ^ 32
  else if type = asnOPAQUE_I64 then -2 ^ 63 ≤ v ∧ v < 2 ^ 63
  else 0 ≤ v ∧ v < 2 ^ 63

/-- A number as a pair of halves. -/
def counter64 (v : Int) : Counter64 := ⟨(BitVec.ofInt 64 v).extractLsb' 32 32, (BitVec.ofInt 64 v).extractLsb' 0 32⟩

/-- How a number of a type is stored: by `setVarValue`, or by the parser of responses, which alone knows an opaque
`Counter64`. -/
def storage (type : Nat) (v : Int) : List (BitVec 8) :=
  if isLong type then longOctets (BitVec.ofInt 64 v) else (counter64 v).octets

theorem InRange.bounds (h : InRange type v) : -2 ^ 63 ≤ v ∧ v < 2 ^ 63 := by
  unfold InRange at h
  split at h
  · omega
  · split at h
    · omega
    · split at h
      · exact h
      · omega

theorem InRange.long_bounds (h : InRange type v) (hlong : isLong type = true) : -2 ^ 31 ≤ v ∧ v < 2 ^ 32 := by
  unfold InRange at h
  rw [if_pos hlong] at h
  split at h
  · omega
  · omega

theorem toInt_ofInt_64 (hlow : -2 ^ 63 ≤ v) (hhigh : v < 2 ^ 63) : (BitVec.ofInt 64 v).toInt = v := by
  rw [BitVec.toInt_ofInt]
  exact Int.bmod_eq_of_le (by omega) (by omega)

theorem setVarValue_long (hlong : isLong type = true) (h : InRange type v) :
    setVarValue type (longOctets (BitVec.ofInt 64 v)) = some (storage type v) := by
  have hbounds := h.bounds
  have hlongBounds := h.long_bounds hlong
  have hnot : ¬ (BitVec.ofInt 64 v).toInt > 0xffffffff := by
    rw [toInt_ofInt_64 hbounds.1 hbounds.2]
    omega
  have hne : longOctets (BitVec.ofInt 64 v) ≠ [] := cons_ne_nil _ _
  have hlen : (longOctets (BitVec.ofInt 64 v)).length = 8 := rfl
  unfold setVarValue storage
  rw [if_neg hne, if_pos hlong, if_pos hlen, if_pos hlong, readNat_longOctets, BitVec.ofNat_toNat, BitVec.setWidth_eq]
  dsimp only
  rw [if_neg hnot]

theorem signExtend_ofInt (hlow : -2 ^ 31 ≤ v) (hhigh : v < 2 ^ 31) :
    (BitVec.ofInt 32 v).signExtend 64 = BitVec.ofInt 64 v := by
  apply BitVec.eq_of_toInt_eq
  rw [BitVec.toInt_signExtend_of_le (by decide), toInt_ofInt_64 (by omega) (by omega), BitVec.toInt_ofInt]
  exact Int.bmod_eq_of_le (by omega) (by omega)

theorem setWidth_ofInt (hlow : 0 ≤ v) (hhigh : v < 2 ^ 32) : (BitVec.ofInt 32 v).setWidth 64 = BitVec.ofInt 64 v := by
  apply BitVec.eq_of_toNat_eq
  rw [BitVec.toNat_setWidth, BitVec.toNat_ofInt, BitVec.toNat_ofInt]
  omega

theorem setVarValue_int (hlong : isLong type = true) (h : InRange type v) :
    setVarValue type (intOctets (BitVec.ofInt 32 v)) = some (storage type v) := by
  have hne : intOctets (BitVec.ofInt 32 v) ≠ [] := cons_ne_nil _ _
  have hlen : (intOctets (BitVec.ofInt 32 v)).length = 4 := rfl
  have hnot : ¬ (intOctets (BitVec.ofInt 32 v)).length = 8 := by
    rw [hlen]
    decide
  unfold setVarValue storage
  rw [if_neg hne, if_pos hlong, if_neg hnot, if_pos (.inl hlen), if_pos hlong, readNat_intOctets]
  change some (longOctets (if type = asnINTEGER then (BitVec.ofNat 32 (BitVec.ofInt 32 v).toNat).signExtend 64
    else (BitVec.ofNat 32 (BitVec.ofInt 32 v).toNat).setWidth 64)) = _
  rw [BitVec.ofNat_toNat, BitVec.setWidth_eq]
  unfold InRange at h
  split
  case isTrue hinteger =>
    rw [if_pos hinteger] at h
    rw [signExtend_ofInt h.1 h.2]
  case isFalse hinteger =>
    rw [if_neg hinteger, if_pos hlong] at h
    rw [setWidth_ofInt h.1 h.2]

theorem setVarValue_counter64 (htype : type = asnOPAQUE_U64 ∨ type = asnOPAQUE_I64 ∨ type = asnCOUNTER64) (v : Int) :
    setVarValue type (counter64 v).octets = some (storage type v) := by
  have hnot : isLong type = false := by
    rcases htype with rfl | rfl | rfl
    all_goals decide
  have hne : (counter64 v).octets ≠ [] := cons_ne_nil _ _
  have hlen : ¬ (counter64 v).octets.length > 40 := by
    change ¬ 8 > 40
    decide
  have hlong : ¬ isLong type = true := by
    rw [hnot]
    exact Bool.false_ne_true
  unfold setVarValue storage
  rw [if_neg hne, if_neg hlong, if_pos htype, if_neg hlen, if_neg hlong]
  rfl

/-! ## what is read -/

/-- An entry that holds a number, as a query stores it. -/
structure Stored (u : VarBind) (v : Int) : Prop where
  accepted : accepted u.type = true
  range : InRange u.type v
  value : u.value = some (storage u.type v)

/-- The number with its halves swapped. -/
def swapped (v : Int) : Int := ((counter64 v).low ++ (counter64 v).high).toInt

/-- What a number is read as. -/
def readAs (type : Nat) (v : Int) : Int := if isLong type then v else swapped v

theorem Stored.integer (h : Stored u v) : ∃ w, u.integer = some w ∧ w.toInt = readAs u.type v := by
  have hbounds := h.range.bounds
  unfold VarBind.integer readAs
  rw [h.value]
  unfold storage
  split
  · exact ⟨_, readLong_longOctets _, toInt_ofInt_64 hbounds.1 hbounds.2⟩
  · exact ⟨_, readLong_counter64 _, rfl⟩

theorem Stored.readable (h : Stored u v) : ∃ w, u.integer = some w := by
  obtain ⟨w, hw, -⟩ := h.integer
  exact ⟨w, hw⟩

theorem Stored.number_eq (h : Stored u v) : number u = readAs u.type v := by
  obtain ⟨w, hw, hread⟩ := h.integer
  rw [MteTrigger.number_eq hw, hread]

/-- Swapping changes nothing only if the halves are equal. -/
theorem swapped_eq_iff (hlow : -2 ^ 63 ≤ v) (hhigh : v < 2 ^ 63) :
    swapped v = v ↔ (counter64 v).high = (counter64 v).low := by
  have hwhole : (counter64 v).high ++ (counter64 v).low = BitVec.ofInt 64 v :=
    (BitVec.extractLsb'_append_extractLsb'_eq_extractLsb' (by rfl)).trans BitVec.extractLsb'_eq_self
  constructor
  · intro h
    have hsame : (counter64 v).low ++ (counter64 v).high = (counter64 v).high ++ (counter64 v).low := by
      apply BitVec.eq_of_toInt_eq
      rw [hwhole, toInt_ofInt_64 hlow hhigh]
      exact h
    have hright := congrArg (fun w => BitVec.extractLsb' 0 32 w) hsame
    rw [BitVec.extractLsb'_append_eq_right, BitVec.extractLsb'_append_eq_right] at hright
    exact hright
  · intro h
    unfold swapped
    rw [h]
    rw [h] at hwhole
    rw [hwhole, toInt_ofInt_64 hlow hhigh]

theorem readAs_eq_iff (h : InRange type v) :
    readAs type v = v ↔ isLong type = true ∨ (counter64 v).high = (counter64 v).low := by
  have hbounds := h.bounds
  unfold readAs
  split
  case isTrue hlong => exact iff_of_true rfl (.inl hlong)
  case isFalse hlong => rw [swapped_eq_iff hbounds.1 hbounds.2, or_iff_right hlong]

theorem Stored.ordinary (h : Stored u v) : Ordinary u := by
  have haccepted : u.type ∈ _ := of_decide_eq_true h.accepted
  simp only [mem_cons, not_mem_nil, or_false] at haccepted
  have hreal : u.type ≠ asnNULL ∧ ¬ (u.type = noSuchInstance ∨ u.type = noSuchObject ∨ u.type = asnPRIV_RETRY) := by
    rcases haccepted with h | h | h | h | h | h | h | h | h
    all_goals
      rw [h]
      decide
  refine ⟨?_, hreal.1, ?_⟩
  · unfold flatten
    rw [if_neg hreal.2]
  · rw [h.value]
    exact Option.some_ne_none _

theorem Stored.integer32 (h : Stored u v) (hlong : isLong u.type = true) : Integer32 u ∧ number u = v := by
  have hnumber : number u = v := by
    rw [h.number_eq]
    unfold readAs
    rw [if_pos hlong]
  have htype : u.type ∈ _ := of_decide_eq_true hlong
  have hrange := h.range
  unfold InRange at hrange
  refine ⟨⟨?_, ⟨_, h.value, ?_⟩, ?_, ?_⟩, hnumber⟩
  · simp only [mem_cons, not_mem_nil, or_false] at htype ⊢
    tauto
  · unfold storage
    rw [if_pos hlong]
    rfl
  · intro hinteger
    rw [if_pos hinteger] at hrange
    rw [hnumber]
    exact hrange
  · intro hinteger
    rw [if_neg hinteger, if_pos hlong] at hrange
    rw [hnumber]
    exact hrange

/-- What a query answers: some integers by increasing names. -/
structure Sampled (N : List VarBind) : Prop where
  nonempty : N ≠ []
  increasing : Increasing N
  stored : ∀ u ∈ N, ∃ v, Stored u v

theorem Sampled.result (h : Sampled N) : Result N where
  nonempty := h.nonempty
  increasing := h.increasing
  ordinary u hu := by
    obtain ⟨v, hv⟩ := h.stored u hu
    exact hv.ordinary

end Priot.MteTrigger
