/-
# `Base128` — numerals in groups of seven bits, most significant group first

Every octet but the last of a numeral has its top bit set. A reader that shifts seven bits in at a
time inverts a writer that shifts seven bits out at a time.
-/
import Priot.Lib.Octets

namespace Base128

open Octets List

/-- The value of a list of groups: the low seven bits of each octet. -/
def value (bs : List UInt8) : Nat := bs.foldl (fun v b => v * 128 + b.toNat % 128) 0

theorem foldl_value (bs : List UInt8) (v : Nat) :
    bs.foldl (fun v b => v * 128 + b.toNat % 128) v = v * 128 ^ bs.length + value bs := by
  induction bs generalizing v with
  | nil => simp [value]
  | cons b bs ih =>
    simp only [value, foldl_cons, length_cons] at ih ⊢
    rw [ih, ih (0 * 128 + b.toNat % 128)]
    ring

@[simp] theorem value_nil : value [] = 0 := rfl

theorem value_append (as bs : List UInt8) : value (as ++ bs) = value as * 128 ^ bs.length + value bs := by
  rw [value, foldl_append, foldl_value]
  rfl

@[simp] theorem value_singleton (b : UInt8) : value [b] = b.toNat % 128 := by simp [value]

/-- `bs` is one whole numeral: leading octets with the top bit set, a last one without it. -/
structure IsNumeral (bs : List UInt8) (v : Nat) : Prop where
  split : ∃ init last, bs = init ++ [last] ∧ (∀ b ∈ init, 128 ≤ b.toNat) ∧ last.toNat < 128
  value_eq : value bs = v

theorem IsNumeral.ne_nil {bs : List UInt8} {v : Nat} (h : IsNumeral bs v) : bs ≠ [] := by
  obtain ⟨init, last, rfl, -, -⟩ := h.split
  simp

/-- One numeral behind the other. -/
inductive Numerals : List Nat → List UInt8 → Prop
  | nil : Numerals [] []
  | cons {v : Nat} {values : List Nat} {bs content : List UInt8} :
    IsNumeral bs v → Numerals values content → Numerals (v :: values) (bs ++ content)

/-- An octet in front is worth as much as the groups behind it. -/
theorem value_cons (b : UInt8) (bs : List UInt8) : value (b :: bs) = b.toNat % 128 * 128 ^ bs.length + value bs := by
  rw [value, foldl_cons, foldl_value]
  simp

/-- A value has no more bits than its groups. -/
theorem value_lt (bs : List UInt8) : value bs < 128 ^ bs.length := by
  induction bs with
  | nil => decide
  | cons b bs ih =>
    rw [value_cons, length_cons, pow_succ']
    have hgroup : b.toNat % 128 + 1 ≤ 128 := Nat.mod_lt _ (by decide)
    calc b.toNat % 128 * 128 ^ bs.length + value bs < (b.toNat % 128 + 1) * 128 ^ bs.length := by
          rw [Nat.add_mul, Nat.one_mul]
          exact Nat.add_lt_add_left ih _
      _ ≤ 128 * 128 ^ bs.length := Nat.mul_le_mul_right _ hgroup

theorem Numerals.lt {values : List Nat} {content : List UInt8} (h : Numerals values content) {v : Nat} (hv : v ∈ values) :
    v < 128 ^ content.length := by
  induction h with
  | nil => exact absurd hv not_mem_nil
  | @cons w values bs content hnumeral _ ih =>
    rw [length_append]
    rcases mem_cons.mp hv with rfl | hv
    · rw [← hnumeral.value_eq]
      exact Nat.lt_of_lt_of_le (value_lt bs) (Nat.pow_le_pow_right (by decide) (Nat.le_add_right _ _))
    · exact Nat.lt_of_lt_of_le (ih hv) (Nat.pow_le_pow_right (by decide) (Nat.le_add_left _ _))

/-! ## The writer -/

/-- The continuation octets of a numeral: what is left of the value after its last group. -/
def leading : Nat → Nat → List UInt8
  | 0, _ => []
  | fuel + 1, v =>
    if v = 0 then [] else leading fuel (v / 128) ++ [UInt8.ofNat (v % 128 + 128)]

theorem leading_length_le (fuel v : Nat) : (leading fuel v).length ≤ fuel := by
  induction fuel generalizing v with
  | zero => simp [leading]
  | succ n ih =>
    simp only [leading]
    split
    · simp
    · have := ih (v / 128)
      simp only [length_append, length_singleton]
      omega

theorem leading_hi (fuel v : Nat) : ∀ b ∈ leading fuel v, 128 ≤ b.toNat := by
  induction fuel generalizing v with
  | zero => simp [leading]
  | succ n ih =>
    intro b hb
    simp only [leading] at hb
    split at hb
    · simp at hb
    · rcases mem_append.mp hb with hb | hb
      · exact ih _ b hb
      · rw [mem_singleton.mp hb, toNat_ofNat_of_lt (by omega)]
        omega

theorem leading_value {fuel v : Nat} (h : v < 128 ^ fuel) : value (leading fuel v) = v := by
  induction fuel generalizing v with
  | zero => simp [leading]; omega
  | succ n ih =>
    simp only [leading]
    split
    · next h0 => simp [h0]
    · have hdiv : v / 128 < 128 ^ n := by
        rw [Nat.div_lt_iff_lt_mul (by norm_num)]
        rwa [pow_succ] at h
      rw [value_append, ih hdiv, value_singleton, toNat_ofNat_of_lt (by omega)]
      simp only [length_singleton, pow_one]
      omega

/-- A whole numeral: the continuation octets and the last group. -/
def write (fuel v : Nat) : List UInt8 := leading fuel (v / 128) ++ [UInt8.ofNat (v % 128)]

theorem write_isNumeral {fuel v : Nat} (h : v < 128 ^ (fuel + 1)) : IsNumeral (write fuel v) v where
  split := ⟨leading fuel (v / 128), UInt8.ofNat (v % 128), rfl, leading_hi fuel _, by
    rw [toNat_ofNat_of_lt (by omega)]; omega⟩
  value_eq := by
    have hdiv : v / 128 < 128 ^ fuel := by
      rw [Nat.div_lt_iff_lt_mul (by norm_num)]
      rwa [pow_succ] at h
    rw [write, value_append, leading_value hdiv, value_singleton, toNat_ofNat_of_lt (by omega)]
    simp only [length_singleton, pow_one]
    omega

theorem write_length_le (fuel v : Nat) : (write fuel v).length ≤ fuel + 1 := by
  have := leading_length_le fuel (v / 128)
  simp only [write, length_append, length_singleton]
  omega

end Base128
