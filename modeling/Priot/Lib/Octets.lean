/-
# `Octets` — base-256 numerals, most significant octet first

Octet strings read as unsigned and as two's-complement integers, the octets that a loop shifts out eight bits at a
time, and the law that reading undoes shifting out; and words in memory with the least significant octet first.
-/
import Mathlib.Data.Stream.Init
import Mathlib.Tactic.Ring
import Mathlib.Tactic.Linarith
import Mathlib.Data.Int.ModEq

namespace Octets

open List

/-! ## the top bit of an octet -/

/-- Bit 8 of an octet: the sign of a two's-complement numeral that starts with it. -/
def hiBit (b : UInt8) : Bool := b &&& 0x80 != 0

theorem and_128_eq (x : Nat) (hx : x < 256) : x &&& 128 = x / 128 * 128 :=
  (by decide +kernel : ∀ i : Fin 256, i.val &&& 128 = i.val / 128 * 128) ⟨x, hx⟩

theorem hiBit_iff (b : UInt8) : hiBit b = true ↔ 128 ≤ b.toNat := by
  have hand : (b &&& 0x80).toNat = b.toNat / 128 * 128 := by
    rw [UInt8.toNat_and]
    exact and_128_eq _ b.toNat_lt
  have hlt := b.toNat_lt
  simp only [hiBit, bne_iff_ne, ne_eq, ← UInt8.toNat_inj, hand]
  simp

theorem hiBit_false_iff (b : UInt8) : hiBit b = false ↔ b.toNat < 128 := by
  rw [← Bool.not_eq_true, hiBit_iff]
  omega

theorem toNat_ofNat_of_lt {n : Nat} (h : n < 256) : (UInt8.ofNat n).toNat = n := by
  rw [UInt8.toNat_ofNat']
  exact Nat.mod_eq_of_lt h

/-! ## unsigned numerals -/

/-- The unsigned value of an octet string. -/
def beNat (bs : List UInt8) : Nat := bs.foldl (fun v b => v * 256 + b.toNat) 0

/-- Reading on from a start value shifts it past the octets read. -/
theorem foldl_nat (bs : List UInt8) (v : Nat) :
    bs.foldl (fun v b => v * 256 + b.toNat) v = v * 256 ^ bs.length + beNat bs := by
  induction bs generalizing v with
  | nil => simp [beNat]
  | cons b bs ih =>
    simp only [beNat, foldl_cons, length_cons] at ih ⊢
    rw [ih, ih (0 * 256 + b.toNat)]
    ring

@[simp] theorem beNat_nil : beNat [] = 0 := rfl

@[simp] theorem beNat_singleton (b : UInt8) : beNat [b] = b.toNat := by simp [beNat]

theorem beNat_cons (b : UInt8) (bs : List UInt8) : beNat (b :: bs) = b.toNat * 256 ^ bs.length + beNat bs := by
  rw [beNat, foldl_cons, foldl_nat]
  simp

theorem foldl_int (bs : List UInt8) (v : Int) :
    bs.foldl (fun v b => v * 256 + (b.toNat : Int)) v = v * 256 ^ bs.length + beNat bs := by
  induction bs generalizing v with
  | nil => simp [beNat]
  | cons b bs ih =>
    simp only [foldl_cons, length_cons]
    rw [ih, beNat_cons]
    push_cast
    ring

theorem beNat_append (as bs : List UInt8) : beNat (as ++ bs) = beNat as * 256 ^ bs.length + beNat bs := by
  rw [beNat, foldl_append, foldl_nat]
  rfl

theorem beNat_lt (bs : List UInt8) : beNat bs < 256 ^ bs.length := by
  induction bs with
  | nil => simp
  | cons b bs ih =>
    rw [beNat_cons, length_cons, pow_succ]
    have hb : b.toNat ≤ 255 := by have := b.toNat_lt; omega
    have hmul : b.toNat * 256 ^ bs.length ≤ 255 * 256 ^ bs.length := Nat.mul_le_mul_right _ hb
    omega

variable {bs : List UInt8}

theorem beNat_lt_of_length {n k : Nat} (h : bs.length ≤ n) (hk : 256 ^ n ≤ k) : beNat bs < k :=
  lt_of_lt_of_le (beNat_lt bs) (le_trans (Nat.pow_le_pow_right (by norm_num) h) hk)

/-! ## two's-complement numerals -/

/-- The sign word a two's-complement reader starts from: all ones when the first octet's top bit is
set. -/
def signWord : List UInt8 → Int
  | [] => 0
  | b :: _ => if hiBit b then -1 else 0

/-- The two's-complement value of an octet string. -/
def signed (bs : List UInt8) : Int :=
  bs.foldl (fun v b => v * 256 + (b.toNat : Int)) (signWord bs)

theorem signed_eq (bs : List UInt8) : signed bs = signWord bs * 256 ^ bs.length + beNat bs :=
  foldl_int bs _

variable {t x : Int}

theorem signed_of_signWord (ht : signWord bs = t) (hx : x = t * 256 ^ bs.length + beNat bs) : signed bs = x := by
  rw [signed_eq, ht, hx]

/-! ## shifting a value out, least significant octet first -/

/-- The octet a cast to an unsigned 8-bit integer keeps. -/
def lowOctet (x : Int) : UInt8 := UInt8.ofNat (x % 256).toNat

theorem lowOctet_toNat (x : Int) : ((lowOctet x).toNat : Int) = x % 256 := by
  rw [lowOctet, toNat_ofNat_of_lt (by omega)]
  omega

/-- What a loop `while x ≠ t { emit the low octet; x >>= 8 }` puts in front of what is already
there, `fuel` bounding the number of rounds. -/
def shiftOut (t : Int) : Nat → Int → List UInt8
  | 0, _ => []
  | fuel + 1, x => if x = t then [] else shiftOut t fuel (x / 256) ++ [lowOctet x]

theorem shiftOut_length_le (t : Int) (fuel : Nat) (x : Int) : (shiftOut t fuel x).length ≤ fuel := by
  induction fuel generalizing x with
  | zero => simp [shiftOut]
  | succ n ih =>
    simp only [shiftOut]
    split
    · simp
    · have := ih (x / 256)
      simp only [length_append, length_singleton]
      omega

/-- Shifting out loses nothing: the sign word and the octets emitted give the value back. -/
theorem shiftOut_value {fuel : Nat} (hlo : t * 256 ^ fuel ≤ x) (hhi : x < (t + 1) * 256 ^ fuel) :
    x = t * 256 ^ (shiftOut t fuel x).length + beNat (shiftOut t fuel x) := by
  induction fuel generalizing x with
  | zero =>
    simp only [shiftOut, length_nil, pow_zero, mul_one, beNat_nil] at hlo hhi ⊢
    push_cast
    omega
  | succ n ih =>
    simp only [shiftOut]
    split
    · next h => simp [h]
    · have hpow : (0 : Int) < 256 ^ n := by positivity
      have hlo' : t * 256 ^ n ≤ x / 256 := by
        rw [Int.le_ediv_iff_mul_le (by norm_num)]
        rw [pow_succ] at hlo
        linarith
      have hhi' : x / 256 < (t + 1) * 256 ^ n := by
        rw [Int.ediv_lt_iff_lt_mul (by norm_num)]
        rw [pow_succ] at hhi
        linarith
      have hrec := ih hlo' hhi'
      rw [length_append, beNat_append]
      simp only [length_singleton, beNat_singleton, pow_succ, pow_zero, one_mul]
      have hmod := lowOctet_toNat x
      have hdiv := Int.emod_add_mul_ediv x 256
      push_cast
      rw [hmod]
      calc x = x % 256 + 256 * (x / 256) := hdiv.symm
        _ = x % 256 + 256 * (t * 256 ^ (shiftOut t n (x / 256)).length
              + (beNat (shiftOut t n (x / 256)) : Int)) := by rw [← hrec]
        _ = _ := by ring

theorem shiftOut_length_le_of_bounds {k : Nat} (fuel : Nat)
    (hlo : t * 256 ^ k ≤ x) (hhi : x < (t + 1) * 256 ^ k) : (shiftOut t fuel x).length ≤ k := by
  induction fuel generalizing x k with
  | zero => simp [shiftOut]
  | succ n ih =>
    simp only [shiftOut]
    split
    · simp
    · next hne =>
      cases k with
      | zero =>
        rw [pow_zero, mul_one] at hlo hhi
        omega
      | succ k =>
        have hlo' : t * 256 ^ k ≤ x / 256 := by
          rw [Int.le_ediv_iff_mul_le (by norm_num)]
          rw [pow_succ] at hlo
          linarith
        have hhi' : x / 256 < (t + 1) * 256 ^ k := by
          rw [Int.ediv_lt_iff_lt_mul (by norm_num)]
          rw [pow_succ] at hhi
          linarith
        have := ih hlo' hhi'
        simp only [length_append, length_singleton]
        omega

/-- Cut off after `fuel` octets, the value is kept as far as these reach. -/
theorem shiftOut_emod (t : Int) (fuel : Nat) (x : Int) :
    x ≡ t * 256 ^ (shiftOut t fuel x).length + beNat (shiftOut t fuel x) [ZMOD 256 ^ fuel] := by
  induction fuel generalizing x with
  | zero =>
    rw [pow_zero]
    exact Int.modEq_one
  | succ n ih =>
    simp only [shiftOut]
    split
    · next h => simp [h]
    · have hrec := (ih (x / 256)).mul_left' (c := 256)
      have hmod := lowOctet_toNat x
      have hdiv := Int.emod_add_mul_ediv x 256
      rw [length_append, beNat_append]
      simp only [length_singleton, beNat_singleton, pow_succ, pow_zero, one_mul]
      push_cast
      rw [hmod, mul_comm ((256 : Int) ^ n)]
      calc x = x % 256 + 256 * (x / 256) := hdiv.symm
        _ ≡ x % 256 + 256 * (t * 256 ^ (shiftOut t n (x / 256)).length
              + (beNat (shiftOut t n (x / 256)) : Int)) [ZMOD 256 * 256 ^ n] := hrec.add_left _
        _ = _ := by ring

/-- One more octet of sign in front changes nothing. -/
theorem signPad_value (ht : t = 0 ∨ t = -1) (hx : x = t * 256 ^ bs.length + beNat bs) :
    x = t * 256 ^ (lowOctet t :: bs).length + beNat (lowOctet t :: bs) := by
  have hmod := lowOctet_toNat t
  rw [beNat_cons, length_cons, pow_succ]
  push_cast
  rw [hmod, hx]
  rcases ht with rfl | rfl
  · simp
  · norm_num
    ring

theorem signFill_value (ht : t = 0 ∨ t = -1) (n : Nat) (bs : List UInt8) : t * 256 ^ bs.length + beNat bs
      = t * 256 ^ (List.replicate n (lowOctet t) ++ bs).length + beNat (List.replicate n (lowOctet t) ++ bs) := by
  induction n with
  | zero => rfl
  | succ n ih =>
    rw [replicate_succ, cons_append]
    exact signPad_value ht ih

theorem hiBit_lowOctet_sign (ht : t = 0 ∨ t = -1) : hiBit (lowOctet t) = decide (t = -1) := by
  rcases ht with rfl | rfl <;> decide

/-! ## a minimal two's-complement writer -/

/-- The octet of sign that is needed in front of `bs` when its top bit does not show the sign. -/
def signOctets (t : Int) : List UInt8 → List UInt8
  | [] => []
  | b :: _ => if hiBit b ≠ decide (t = -1) then [lowOctet t] else []

def signPad (t : Int) (bs : List UInt8) : List UInt8 := signOctets t bs ++ bs

/-- The low octet always, the others while they differ from the sign `t`, then the sign. -/
def writeSigned (t : Int) (fuel : Nat) (x : Int) : List UInt8 :=
  signPad t (shiftOut t fuel (x / 256) ++ [lowOctet x])

theorem signPad_length_le (t : Int) (bs : List UInt8) : (signPad t bs).length ≤ bs.length + 1 := by
  cases bs with
  | nil => simp [signPad, signOctets]
  | cons b bs =>
    simp only [signPad, signOctets]
    split <;> simp

theorem signPad_ne_nil (h : bs ≠ []) : signPad t bs ≠ [] := by
  simp [signPad, h]

theorem writeSigned_ne_nil (t : Int) (fuel : Nat) (x : Int) : writeSigned t fuel x ≠ [] :=
  signPad_ne_nil (by simp)

theorem signPad_signWord (ht : t = 0 ∨ t = -1) (h : bs ≠ []) : signWord (signPad t bs) = t := by
  cases bs with
  | nil => contradiction
  | cons b bs =>
    simp only [signPad, signOctets]
    split
    · rw [singleton_append, signWord, hiBit_lowOctet_sign ht]
      rcases ht with rfl | rfl <;> simp
    · next hb =>
      rw [ne_eq, not_not] at hb
      rw [nil_append, signWord, hb]
      rcases ht with rfl | rfl <;> simp

theorem signPad_value' (ht : t = 0 ∨ t = -1) (hx : x = t * 256 ^ bs.length + beNat bs) :
    x = t * 256 ^ (signPad t bs).length + beNat (signPad t bs) := by
  cases bs with
  | nil => exact hx
  | cons b bs =>
    simp only [signPad, signOctets]
    split
    · exact signPad_value ht hx
    · exact hx

/-- The digits written and the sign word give the value back. -/
theorem writeSigned_value (ht : t = 0 ∨ t = -1) {fuel : Nat}
    (hlo : t * 256 ^ (fuel + 1) ≤ x) (hhi : x < (t + 1) * 256 ^ (fuel + 1)) :
    x = t * 256 ^ (writeSigned t fuel x).length + beNat (writeSigned t fuel x) := by
  have hlo' : t * 256 ^ fuel ≤ x / 256 := by
    rw [Int.le_ediv_iff_mul_le (by norm_num)]
    rw [pow_succ] at hlo
    linarith
  have hhi' : x / 256 < (t + 1) * 256 ^ fuel := by
    rw [Int.ediv_lt_iff_lt_mul (by norm_num)]
    rw [pow_succ] at hhi
    linarith
  have hout := shiftOut_value hlo' hhi'
  refine signPad_value' ht ?_
  rw [length_append, beNat_append]
  simp only [length_singleton, beNat_singleton, pow_succ, pow_zero, one_mul]
  have hmod := lowOctet_toNat x
  have hdiv := Int.emod_add_mul_ediv x 256
  push_cast
  rw [hmod]
  calc x = x % 256 + 256 * (x / 256) := hdiv.symm
    _ = x % 256 + 256 * (t * 256 ^ (shiftOut t fuel (x / 256)).length
          + (beNat (shiftOut t fuel (x / 256)) : Int)) := by rw [← hout]
    _ = _ := by ring

/-- Reading undoes writing. -/
theorem signed_writeSigned (ht : t = 0 ∨ t = -1) {fuel : Nat}
    (hlo : t * 256 ^ (fuel + 1) ≤ x) (hhi : x < (t + 1) * 256 ^ (fuel + 1)) : signed (writeSigned t fuel x) = x :=
  signed_of_signWord (signPad_signWord ht (by simp)) (writeSigned_value ht hlo hhi)

/-! ## the least significant octet first -/

def leNat : List UInt8 → Nat
  | [] => 0
  | b :: bs => b.toNat + 256 * leNat bs

/-- The low `k` octets of a number. -/
def leOctets : Nat → Nat → List UInt8
  | 0, _ => []
  | k + 1, n => UInt8.ofNat n :: leOctets k (n / 256)

@[simp] theorem length_leOctets (k n : Nat) : (leOctets k n).length = k := by
  induction k generalizing n with
  | zero => rfl
  | succ k ih => rw [leOctets, length_cons, ih]

theorem leNat_leOctets (k n : Nat) : leNat (leOctets k n) = n % 256 ^ k := by
  induction k generalizing n with
  | zero => rw [leOctets, leNat, pow_zero, Nat.mod_one]
  | succ k ih =>
    have hlow : (UInt8.ofNat n).toNat = n % 256 := UInt8.toNat_ofNat'
    rw [leOctets, leNat, ih, hlow, pow_succ, Nat.mul_comm (256 ^ k), Nat.mod_mul]

/-- A number below the bound is read as it was written. -/
theorem leNat_leOctets_of_lt {k n : Nat} (h : n < 256 ^ k) : leNat (leOctets k n) = n := by
  rw [leNat_leOctets, Nat.mod_eq_of_lt h]

/-- The words of four octets, as far as they are complete. -/
def leWords : List UInt8 → List UInt32
  | a :: b :: c :: d :: rest => UInt32.ofNat (leNat [a, b, c, d]) :: leWords rest
  | _ => []

def wordOctets (ws : List UInt32) : List UInt8 := ws.flatMap fun w => leOctets 4 w.toNat

theorem leWords_wordOctets (ws : List UInt32) : leWords (wordOctets ws) = ws := by
  induction ws with
  | nil => rfl
  | cons w ws ih =>
    have hword : leNat (leOctets 4 w.toNat) = w.toNat := by
      apply leNat_leOctets_of_lt
      have hlt := w.toNat_lt
      omega
    have hcons : leWords (wordOctets (w :: ws)) =
        UInt32.ofNat (leNat (leOctets 4 w.toNat)) :: leWords (wordOctets ws) := rfl
    rw [hcons, hword, ih, UInt32.ofNat_toNat]

end Octets
