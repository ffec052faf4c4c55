/-
# Counters in two halves

What has been counted since the last reading is added to a running total; where the lower half has gone back, the
upper one tells whether the source has 32 bits or 64.
-/
import Mathlib.Tactic.Ring
import Mathlib.Data.Nat.ModEq

namespace Priot.Numerics

inductive Fault
  | assertion
  deriving DecidableEq

/-- `Integer64_s`. -/
structure Integer64 where
  high : UInt32
  low : UInt32
  deriving DecidableEq

namespace Integer64

/-! ## the functions -/

def addUInt32 (number : Integer64) (amount : UInt32) : Integer64 :=
  let low := number.low + amount
  { low, high := if low < number.low then number.high + 1 else number.high }

def subtract (number1 number2 : Integer64) : Integer64 :=
  let carry : UInt32 := if number1.low < number2.low then 1 else 0
  { low := number1.low - number2.low, high := number1.high - number2.high - carry }

def addInt64 (number amount : Integer64) : Integer64 :=
  addUInt32 { number with high := number.high + amount.high } amount.low

def diffAddInt64 (result number1 number2 : Integer64) : Integer64 := addInt64 result (subtract number1 number2)

/-- `_Integer64_checkFor32bitWrap`, with `adjust`, for pointers that are not `NULL`: the new value, and what is
returned. -/
def checkFor32bitWrap (oldValue newValue : Integer64) : Integer64 × Int :=
  if newValue.low ≥ oldValue.low ∧ newValue.high = oldValue.high then (newValue, 0)
  else if newValue.high = oldValue.high then ({ newValue with high := newValue.high + 1 }, 32)
  else if newValue.high = oldValue.high + 1 then (newValue, 64)
  else (newValue, -2)

/-- What `Integer64_check32AndUpdate` leaves in its arguments, and what it returns. -/
structure Update where
  prevVal : Integer64
  newVal : Integer64
  needWrapCheck : Option Int
  rc : Int

/-- `Integer64_check32AndUpdate`. `needWrapCheck` may be `NULL`. -/
def check32AndUpdate (prevVal newVal oldPrevVal : Integer64) (needWrapCheck : Option Int) : Except Fault Update :=
  let (newVal, rc) := if needWrapCheck ≠ some 0 then checkFor32bitWrap oldPrevVal newVal else (newVal, 0)
  if rc < 0 then .ok ⟨prevVal, newVal, needWrapCheck, -1⟩
  else
    let prevVal := diffAddInt64 prevVal newVal oldPrevVal
    if rc = 32 then
      if newVal.high = 1 then .ok ⟨prevVal, { newVal with high := 0 }, needWrapCheck, 0⟩ else .error .assertion
    else if rc = 64 then
      if prevVal ≠ newVal then .ok ⟨prevVal, newVal, needWrapCheck, -2⟩
      else .ok ⟨prevVal, newVal, needWrapCheck.map fun _ => 0, 0⟩
    else .ok ⟨prevVal, newVal, needWrapCheck, 0⟩

/-! ## what the halves stand for -/

def value (n : Integer64) : Nat := n.high.toNat * 4294967296 + n.low.toNat

variable {n a b : Integer64}

theorem value_lt (n : Integer64) : n.value < 18446744073709551616 := by
  have := n.high.toNat_lt
  have := n.low.toNat_lt
  unfold value
  omega

theorem value_inj : a.value = b.value ↔ a = b := by
  constructor
  · intro h
    have := a.low.toNat_lt
    have := b.low.toNat_lt
    unfold value at h
    obtain ⟨ah, al⟩ := a
    obtain ⟨bh, bl⟩ := b
    rw [mk.injEq, ← UInt32.toNat_inj, ← UInt32.toNat_inj]
    constructor <;> grind
  · rintro rfl
    rfl

theorem addUInt32_value (n : Integer64) (k : UInt32) :
    (addUInt32 n k).value = (n.value + k.toNat) % 18446744073709551616 := by
  have := n.high.toNat_lt
  have := n.low.toNat_lt
  have := k.toNat_lt
  have hlow : (n.low + k).toNat = (n.low.toNat + k.toNat) % 4294967296 := UInt32.toNat_add ..
  have hhigh : (n.high + 1).toNat = (n.high.toNat + 1) % 4294967296 := UInt32.toNat_add ..
  unfold addUInt32 value
  simp only [UInt32.lt_iff_toNat_lt]
  split <;> omega

theorem addInt64_value (a b : Integer64) : (addInt64 a b).value = (a.value + b.value) % 18446744073709551616 := by
  have hhigh : (a.high + b.high).toNat = (a.high.toNat + b.high.toNat) % 4294967296 := UInt32.toNat_add ..
  unfold addInt64
  rw [addUInt32_value]
  unfold value
  simp only [hhigh]
  omega

theorem subtract_value (a b : Integer64) :
    (subtract a b).value = (a.value + (18446744073709551616 - b.value)) % 18446744073709551616 := by
  have := a.high.toNat_lt
  have := b.high.toNat_lt
  have := a.low.toNat_lt
  have := b.low.toNat_lt
  have hlow : (a.low - b.low).toNat = (4294967296 - b.low.toNat + a.low.toNat) % 4294967296 := UInt32.toNat_sub ..
  have hhigh (c : UInt32) : (a.high - b.high - c).toNat =
      (4294967296 - c.toNat + (4294967296 - b.high.toNat + a.high.toNat) % 4294967296) % 4294967296 := by
    rw [UInt32.toNat_sub, UInt32.toNat_sub]
  unfold subtract value
  simp only [UInt32.lt_iff_toNat_lt, hlow, hhigh]
  split
  · rw [show (1 : UInt32).toNat = 1 from rfl]
    omega
  · rw [show (0 : UInt32).toNat = 0 from rfl]
    omega

theorem diffAddInt64_value (r a b : Integer64) : (diffAddInt64 r a b).value =
    (r.value + (a.value + (18446744073709551616 - b.value))) % 18446744073709551616 := by
  unfold diffAddInt64
  rw [addInt64_value, subtract_value, Nat.add_mod_mod]

end Integer64

/-! ## readings -/

/-- The kinds of sources: counters of 32 bits, and of 64. -/
inductive Source
  | narrow
  | wide
  deriving DecidableEq

/-- What is read of a counter. -/
def reading : Source → Nat → Integer64
  | .narrow, c => ⟨0, UInt32.ofNat c⟩
  | .wide, c => ⟨UInt32.ofNat (c / 4294967296), UInt32.ofNat c⟩

theorem ofNat_toNat (c : Nat) : (UInt32.ofNat c).toNat = c % 4294967296 := UInt32.toNat_ofNat'

theorem reading_narrow_value (c : Nat) : (reading .narrow c).value = c % 4294967296 := by
  show 0 * 4294967296 + (UInt32.ofNat c).toNat = _
  rw [ofNat_toNat]
  omega

theorem reading_wide_value (c : Nat) : (reading .wide c).value = c % 18446744073709551616 := by
  show (UInt32.ofNat (c / 4294967296)).toNat * 4294967296 + (UInt32.ofNat c).toNat = _
  rw [ofNat_toNat, ofNat_toNat]
  omega

/-- The state of the use that the header suggests: the running total, the old value, and whether to check. -/
structure Usage where
  current : Integer64
  prevVal : Integer64
  needWrapCheck : Int

/-- A new reading, with what the call returned, if there was one. -/
def Usage.take (u : Usage) (newVal : Integer64) : Except Fault (Usage × Int) :=
  if u.needWrapCheck = 0 then .ok ({ u with current := newVal }, 0)
  else do
    let r ← Integer64.check32AndUpdate u.current newVal u.prevVal (some u.needWrapCheck)
    .ok (⟨r.prevVal, r.newVal, r.needWrapCheck.getD u.needWrapCheck⟩, r.rc)

/-- The readings up to `i`, with all that was returned. -/
def Usage.run (src : Source) (c : Nat → Nat) : Nat → Except Fault (Usage × List Int)
  | 0 => .ok (⟨reading src (c 0), reading src (c 0), 1⟩, [])
  | i + 1 => do
    let (u, rcs) ← Usage.run src c i
    let (u, rc) ← u.take (reading src (c (i + 1)))
    .ok (u, rcs ++ [rc])

/-! ## runs -/

/-- Between two readings a counter does not go back, nor on by as much as a lower half holds. -/
def Paced (c : Nat → Nat) : Prop := ∀ i, c i ≤ c (i + 1) ∧ c (i + 1) < c i + 4294967296

/-- The total after a number of readings that started with `c₀` and are now at `c₁`. -/
structure Totals (src : Source) (c₀ c₁ : Nat) (u : Usage) : Prop where
  current : u.current.value = ((reading src c₀).value + (c₁ - c₀)) % 18446744073709551616
  prevVal : u.needWrapCheck ≠ 0 → u.prevVal = reading src c₁
  wide : u.needWrapCheck = 0 → src = .wide

variable {src : Source} {c : Nat → Nat} {c₀ c₁ c₂ : Nat} {u : Usage}

theorem total_add (h₀ : c₀ ≤ c₁) (h : c₁ ≤ c₂) {r v d : Nat} (hv : v = (r + (c₁ - c₀)) % 18446744073709551616)
    (hd : d % 18446744073709551616 = (c₂ - c₁) % 18446744073709551616) :
    (v + d) % 18446744073709551616 = (r + (c₂ - c₀)) % 18446744073709551616 := by
  omega

open Integer64

theorem check_narrow (c₁ c₂ : Nat) : checkFor32bitWrap (reading .narrow c₁) (reading .narrow c₂) =
    if c₁ % 4294967296 ≤ c₂ % 4294967296 then (reading .narrow c₂, 0) else (⟨1, UInt32.ofNat c₂⟩, 32) := by
  unfold checkFor32bitWrap reading
  simp only [ge_iff_le, UInt32.le_iff_toNat_le, ofNat_toNat, and_true]
  split
  · rfl
  · rw [if_pos trivial]
    rfl

/-- The upper half tells a wrap of the lower one, since it is never more than one that is missed. -/
theorem check_wide (h : c₁ ≤ c₂) (h' : c₂ < c₁ + 4294967296) : checkFor32bitWrap (reading .wide c₁) (reading .wide c₂) =
      if c₁ / 4294967296 = c₂ / 4294967296 then (reading .wide c₂, 0) else (reading .wide c₂, 64) := by
  have hhigh : UInt32.ofNat (c₂ / 4294967296) = UInt32.ofNat (c₁ / 4294967296) ↔
      c₁ / 4294967296 = c₂ / 4294967296 := by
    rw [← UInt32.toNat_inj, ofNat_toNat, ofNat_toNat]
    omega
  unfold checkFor32bitWrap
  show (if UInt32.ofNat c₂ ≥ UInt32.ofNat c₁ ∧ UInt32.ofNat (c₂ / 4294967296) = UInt32.ofNat (c₁ / 4294967296) then _
    else if UInt32.ofNat (c₂ / 4294967296) = UInt32.ofNat (c₁ / 4294967296) then _
    else if UInt32.ofNat (c₂ / 4294967296) = UInt32.ofNat (c₁ / 4294967296) + 1 then _ else _) = _
  simp only [hhigh, ge_iff_le, UInt32.le_iff_toNat_le, ofNat_toNat]
  by_cases heq : c₁ / 4294967296 = c₂ / 4294967296
  · rw [if_pos ⟨by omega, heq⟩, if_pos heq]
  · have hnext : UInt32.ofNat (c₂ / 4294967296) = UInt32.ofNat (c₁ / 4294967296) + 1 := by
      rw [← UInt32.toNat_inj, UInt32.toNat_add, ofNat_toNat, ofNat_toNat]
      show _ = (_ + 1) % 4294967296
      omega
    rw [if_neg heq, if_neg fun h => heq h.2, if_neg heq, if_pos hnext]

theorem take_spec (ht : Totals src c₀ c₁ u) (h₀ : c₀ ≤ c₁) (h : c₁ ≤ c₂) (h' : c₂ < c₁ + 4294967296) :
    ∃ u', u.take (reading src c₂) = .ok (u', 0) ∧ Totals src c₀ c₂ u' := by
  unfold Usage.take
  by_cases hn : u.needWrapCheck = 0
  · rw [if_pos hn]
    obtain rfl := ht.wide hn
    refine ⟨_, rfl, ?_, fun hne => absurd hn hne, fun _ => rfl⟩
    show (reading .wide c₂).value = _
    rw [reading_wide_value, reading_wide_value]
    omega
  · rw [if_neg hn, ht.prevVal hn]
    have hsome : (some u.needWrapCheck ≠ some 0) := fun h => hn (Option.some.inj h)
    have htotal {n : Integer64} (hd : (n.value + (18446744073709551616 - (reading src c₁).value)) %
        18446744073709551616 = (c₂ - c₁) % 18446744073709551616) :
        (diffAddInt64 u.current n (reading src c₁)).value =
          ((reading src c₀).value + (c₂ - c₀)) % 18446744073709551616 := by
      rw [diffAddInt64_value]
      exact total_add h₀ h ht.current hd
    unfold check32AndUpdate
    rw [if_pos hsome]
    cases src with
    | narrow =>
      rw [check_narrow]
      by_cases hle : c₁ % 4294967296 ≤ c₂ % 4294967296
      · rw [if_pos hle]
        refine ⟨⟨diffAddInt64 u.current (reading .narrow c₂) (reading .narrow c₁), reading .narrow c₂, u.needWrapCheck⟩,
          rfl, htotal ?_, fun _ => rfl, fun h => absurd h hn⟩
        rw [reading_narrow_value, reading_narrow_value]
        omega
      · -- the lower half has wrapped: the upper one is 1 for the sum, and 0 again in the reading that is kept
        rw [if_neg hle]
        refine ⟨⟨diffAddInt64 u.current ⟨1, UInt32.ofNat c₂⟩ (reading .narrow c₁), reading .narrow c₂, u.needWrapCheck⟩,
          rfl, htotal ?_, fun _ => rfl, fun h => absurd h hn⟩
        have : value ⟨1, UInt32.ofNat c₂⟩ = 4294967296 + c₂ % 4294967296 := by
          show (1 : UInt32).toNat * 4294967296 + (UInt32.ofNat c₂).toNat = _
          rw [ofNat_toNat]
          rfl
        rw [this, reading_narrow_value]
        omega
    | wide =>
      have hsum := htotal (n := reading .wide c₂) (by rw [reading_wide_value, reading_wide_value]; omega)
      rw [check_wide h h']
      by_cases heq : c₁ / 4294967296 = c₂ / 4294967296
      · rw [if_pos heq]
        exact ⟨⟨diffAddInt64 u.current (reading .wide c₂) (reading .wide c₁), reading .wide c₂, u.needWrapCheck⟩, rfl,
          hsum, fun _ => rfl, fun _ => rfl⟩
      · -- the upper half has moved on, so the source has 64 bits, and the total is what is read
        have hcur : diffAddInt64 u.current (reading .wide c₂) (reading .wide c₁) = reading .wide c₂ := by
          rw [← value_inj, hsum, reading_wide_value, reading_wide_value]
          omega
        rw [if_neg heq]
        simp only [hcur, ne_eq, not_true_eq_false, if_false]
        refine ⟨⟨reading .wide c₂, reading .wide c₂, 0⟩, rfl, ?_, fun _ => rfl, fun _ => rfl⟩
        show (reading .wide c₂).value = _
        rw [← hsum, hcur]

/-- The running total is exact after every reading, no call fails and the assertion holds. -/
theorem run_exact (src : Source) (c : Nat → Nat) (hc : Paced c) (i : Nat) :
    ∃ u rcs, Usage.run src c i = .ok (u, rcs) ∧ (∀ rc ∈ rcs, rc = 0) ∧
      u.current.value = ((reading src (c 0)).value + (c i - c 0)) % 18446744073709551616 := by
  have hmono : ∀ i, c 0 ≤ c i := by
    intro i
    induction i with
    | zero => exact le_rfl
    | succ i ih => exact ih.trans (hc i).1
  have hrun : ∃ u rcs, Usage.run src c i = .ok (u, rcs) ∧ (∀ rc ∈ rcs, rc = 0) ∧ Totals src (c 0) (c i) u := by
    induction i with
    | zero =>
      refine ⟨_, [], rfl, nofun, ?_, fun _ => rfl, fun h => absurd (show (1 : Int) = 0 from h) (by decide)⟩
      have := (reading src (c 0)).value_lt
      show (reading src (c 0)).value = _
      omega
    | succ i ih =>
      obtain ⟨u, rcs, hu, hrcs, ht⟩ := ih
      obtain ⟨u', hu', ht'⟩ := take_spec ht (hmono i) (hc i).1 (hc i).2
      refine ⟨u', rcs ++ [0], ?_, fun rc hrc => ?_, ht'⟩
      · unfold Usage.run
        rw [hu]
        show (u.take _ >>= _) = _
        rw [hu']
        rfl
      · rcases List.mem_append.mp hrc with hrc | hrc
        · exact hrcs rc hrc
        · exact List.mem_singleton.mp hrc
  obtain ⟨u, rcs, hu, hrcs, ht⟩ := hrun
  exact ⟨u, rcs, hu, hrcs, ht.current⟩

/-- Steps that wrap the lower half again and again. -/
theorem run_exact_wrapping : ∃ u rcs, Usage.run .narrow (· * 4000000000) 3 = .ok (u, rcs) ∧ (∀ rc ∈ rcs, rc = 0) ∧
    u.current.value = ((reading .narrow 0).value + 12000000000) % 18446744073709551616 := by
  have hc : Paced (· * 4000000000) := by
    intro i
    show i * 4000000000 ≤ (i + 1) * 4000000000 ∧ (i + 1) * 4000000000 < i * 4000000000 + 4294967296
    omega
  exact run_exact .narrow _ hc 3

end Priot.Numerics
