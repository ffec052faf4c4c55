/-
# Numerals in any base

`Convert_int64ToStringBase` divides a signed number down to its digits, and `Convert_stringBaseToInt64` reads a numeral
with `strtoll`. Division truncates, and the loop ends as soon as the quotient is not positive.
-/
import Priot.Lib.CText
import Mathlib.Data.List.TakeWhile

namespace Priot.Convert

open Lib List

/-! ## `strtoll` -/

/-- The value of a digit in the bases up to 36. -/
def alnumVal (c : UInt8) : Option Nat :=
  if isdigit c then some (c.toNat - 48)
  else if 97 ≤ c && c ≤ 122 then some (c.toNat - 87)
  else if 65 ≤ c && c ≤ 90 then some (c.toNat - 55)
  else none

/-- The number whose digits a text begins with, behind those read already. -/
def readAlnum (base : Nat) : Nat → Text → Nat
  | n, [] => n
  | n, c :: t =>
    match alnumVal c with
    | none => n
    | some d => if d < base then readAlnum base (n * base + d) t else n

/-- `strtoll`, without the end pointer. A number out of range gives the nearest one. -/
def strtoll (base : Nat) (t : Text) : Int :=
  let (negative, s) := skipSign t
  let n := readAlnum base 0 (skipMark base s).2
  if negative then max (-(n : Int)) (-2 ^ 63) else min (n : Int) (2 ^ 63 - 1)

def stringBaseToInt64 (s : Text) (base : UInt8) : Int64 := Int64.ofInt (strtoll base.toNat s)

/-! ## digits -/

def BUF_SIZE : Nat := 512

/-- `( char )`. -/
def toChar (v : Int) : UInt8 := UInt8.ofNat (v % 256).toNat

/-- `( r < 10 ) ? ( '0' + r ) : ( 'A' + r - 10 )`. -/
def digit (r : Int) : UInt8 := toChar (if r < 10 then 48 + r else 65 + r - 10)

/-- The loop. The digits go into the buffer from its end, which has room for so many more. -/
def digitLoop (base : Int) : Nat → Int → Text → Option Text
  | 0, _, _ => none
  | room + 1, i, digits =>
    let q := i.tdiv base
    let digits := digit (i.tmod base) :: digits
    if q > 0 then digitLoop base room q digits else some digits

/-- `Convert_int64ToStringBase`. There is no result if the buffer is left, and no text for the base 0. -/
def int64ToStringBase (i : Int64) (base : UInt8) : Option (Option Text) :=
  if base < 1 then some none
  else (digitLoop base.toNat BUF_SIZE i.toInt []).map fun digits => some (digits.takeWhile (· ≠ 0))

/-- A base that `strtoll` has digits for. -/
structure Base where
  val : UInt8
  two_le : 2 ≤ val.toNat
  le : val.toNat ≤ 36

/-- The numeral fits into the buffer, has no leading zeros and is read as the number. -/
def RoundTrips (i : Int64) (base : Base) : Prop :=
  ∃ s, int64ToStringBase i base.val = some (some s) ∧ s.length ≤ BUF_SIZE ∧ (s.head? = some 48 → s = [48]) ∧
    stringBaseToInt64 s base.val = i

/-! ## numbers that are not negative -/

theorem digit_facts : ∀ d, d < 36 → alnumVal (digit (d : Nat)) = some d ∧ isspace (digit (d : Nat)) = false ∧
    digit (d : Nat) ≠ 45 ∧ digit (d : Nat) ≠ 43 ∧ digit (d : Nat) ≠ 0 ∧ (digit (d : Nat) = 48 → d = 0) ∧
    (d < 16 → digit (d : Nat) ≠ 120 ∧ digit (d : Nat) ≠ 88) := by decide

/-- The number of some digits, behind those that are read already. -/
def valueFrom (base n : Nat) (ds : List Nat) : Nat := ds.foldl (fun n d => n * base + d) n

variable {base n : Nat} {ds : List Nat}

theorem readAlnum_digits (hbase : base ≤ 36) (n : Nat) (h : ∀ d ∈ ds, d < base) :
    readAlnum base n (ds.map fun d => digit (d : Nat)) = valueFrom base n ds := by
  induction ds generalizing n with
  | nil => rfl
  | cons d ds ih =>
    have hd := h d mem_cons_self
    have hval := (digit_facts d (by omega)).1
    rw [map_cons, readAlnum, hval]
    simp only [if_pos hd]
    exact ih _ fun x hx => h x (mem_cons_of_mem d hx)

/-- Digits of a number, the first of which is 0 only if it is the number. -/
structure Digits (base n : Nat) (ds : List Nat) : Prop where
  value : valueFrom base 0 ds = n
  lt : ∀ d ∈ ds, d < base
  nonempty : ds ≠ []
  leading : ds.head? = some 0 → ds = [0]

theorem Digits.single (h : n < base) : Digits base n [n] where
  value := by
    show 0 * base + n = n
    omega
  lt d hd := by
    rw [mem_singleton.1 hd]
    exact h
  nonempty := cons_ne_nil _ _
  leading hzero := by rw [Option.some.inj hzero]

theorem Digits.concat (hbase : 2 ≤ base) (hge : base ≤ n) (h : Digits base (n / base) ds) :
    Digits base n (ds ++ [n % base]) where
  value := by
    have hvalue := h.value
    rw [valueFrom] at hvalue ⊢
    rw [foldl_append, hvalue]
    exact Nat.div_add_mod' n base
  lt d hd := by
    rw [mem_append, mem_singleton] at hd
    cases hd with
    | inl hd => exact h.lt d hd
    | inr hd =>
      rw [hd]
      exact Nat.mod_lt _ (by omega)
  nonempty := append_ne_nil_of_right_ne_nil _ (cons_ne_nil _ _)
  leading hzero := by
    rw [head?_append_of_ne_nil _ h.nonempty] at hzero
    have hds := h.leading hzero
    have hvalue := h.value
    have hpos : 0 < n / base := Nat.div_pos hge (by omega)
    subst hds
    rw [valueFrom, foldl_cons, foldl_nil] at hvalue
    omega

theorem digitLoop_spec (hbase : 2 ≤ base) {room : Nat} (hroom : n < base ^ (room + 1)) (acc : Text) :
    ∃ ds, digitLoop base (room + 1) n acc = some (ds.map (fun d => digit (d : Nat)) ++ acc) ∧ Digits base n ds ∧
      ds.length ≤ room + 1 := by
  induction room generalizing n acc with
  | zero =>
    rw [Nat.zero_add, Nat.pow_one] at hroom
    rw [digitLoop, ← Int.ofNat_tdiv, ← Int.ofNat_tmod, Nat.div_eq_of_lt hroom, Nat.mod_eq_of_lt hroom]
    exact ⟨[n], rfl, Digits.single hroom, Nat.le_refl 1⟩
  | succ room ih =>
    rw [digitLoop, ← Int.ofNat_tdiv, ← Int.ofNat_tmod]
    by_cases hlt : n < base
    · rw [Nat.div_eq_of_lt hlt, Nat.mod_eq_of_lt hlt]
      exact ⟨[n], rfl, Digits.single hlt, Nat.le_add_left 1 _⟩
    · have hpos : 0 < n / base := Nat.div_pos (Nat.not_lt.1 hlt) (by omega)
      have hless : n / base < base ^ (room + 1) := Nat.div_lt_of_lt_mul (by rwa [← Nat.pow_succ'])
      obtain ⟨ds, hloop, hdigits, hlength⟩ := ih hless (digit (n % base : Nat) :: acc)
      refine ⟨ds ++ [n % base], ?_, hdigits.concat hbase (Nat.not_lt.1 hlt), ?_⟩
      · simp only [if_pos (Int.natCast_pos.2 hpos), hloop, map_append, append_assoc, map_cons,
          map_nil, cons_append, nil_append]
      · rw [length_append, length_singleton]
        omega

theorem strtoll_digits (hbase : base ≤ 36) (hzero : 0 < base) (h : Digits base n ds) :
    strtoll base (ds.map fun d => digit (d : Nat)) = min (n : Int) (2 ^ 63 - 1) := by
  obtain ⟨d, t, rfl⟩ := exists_cons_of_ne_nil h.nonempty
  obtain ⟨-, hspace, hminus, hplus, -⟩ := digit_facts d (by have := h.lt d mem_cons_self; omega)
  have hsign : skipSign ((d :: t).map fun d => digit (d : Nat)) = (false, (d :: t).map fun d => digit (d : Nat)) := by
    rw [skipSign, map_cons, dropWhile_cons_of_neg (by rw [hspace]; simp)]
    simp [hminus, hplus]
  have hmark : (skipMark base ((d :: t).map fun d => digit (d : Nat))).2 = (d :: t).map fun d => digit (d : Nat) := by
    rw [skipMark, if_neg, if_neg (by omega)]
    rintro ⟨hsixteen, -, hx, -⟩
    cases t with
    | nil => rcases hx with hx | hx <;> cases hx
    | cons e t =>
      have he := h.lt e (mem_cons_of_mem d mem_cons_self)
      obtain ⟨hx', hX⟩ := (digit_facts e (by omega)).2.2.2.2.2.2 (by omega)
      rw [map_cons, map_cons, drop_one, tail_cons, head?_cons, Option.some.injEq,
        Option.some.injEq] at hx
      exact hx.elim hx' hX
  rw [strtoll, hsign]
  simp only [hmark, readAlnum_digits hbase 0 h.lt, h.value, Bool.false_eq_true, if_false]

theorem lt_pow (hbase : 2 ≤ base) (hn : n < 2 ^ 63) {k : Nat} (hk : 63 ≤ k) : n < base ^ k := by
  calc n < 2 ^ 63 := hn
    _ ≤ base ^ 63 := Nat.pow_le_pow_left hbase 63
    _ ≤ base ^ k := Nat.pow_le_pow_right (by omega) hk

theorem roundTrips_of_nonneg (i : Int64) (base : Base) (h : 0 ≤ i.toInt) : RoundTrips i base := by
  have htwo := base.two_le
  have hlt := i.toInt_lt
  obtain ⟨n, hn⟩ := Int.eq_ofNat_of_zero_le h
  have hsmall : n < 2 ^ 63 := by omega
  have hrooms : 63 ≤ 511 + 1 := by decide
  obtain ⟨ds, hloop, hdigits, hlength⟩ := digitLoop_spec htwo (lt_pow htwo hsmall hrooms) []
  have hnul : ∀ c ∈ ds.map (fun d => digit (d : Nat)), decide (c ≠ 0) = true := by
    intro c hc
    obtain ⟨d, hd, rfl⟩ := mem_map.1 hc
    have hlt := hdigits.lt d hd
    exact decide_eq_true (digit_facts d (by have := base.le; omega)).2.2.2.2.1
  have hbase : ¬ base.val < 1 := by
    rw [UInt8.lt_iff_toNat_lt]
    have hone : (1 : UInt8).toNat = 1 := rfl
    omega
  refine ⟨ds.map fun d => digit (d : Nat), ?_, by rw [length_map]; exact hlength, ?_, ?_⟩
  · rw [int64ToStringBase, if_neg hbase, hn]
    show (digitLoop base.val.toNat (511 + 1) (n : Int) []).map _ = _
    rw [hloop, Option.map_some, append_nil, takeWhile_eq_self_iff.2 hnul]
  · intro hhead
    rw [head?_map, Option.map_eq_some_iff] at hhead
    obtain ⟨d, hd, hzero⟩ := hhead
    have hlt := hdigits.lt d (mem_of_mem_head? hd)
    rw [(digit_facts d (by have := base.le; omega)).2.2.2.2.2.1 hzero] at hd
    rw [hdigits.leading hd]
    rfl
  · rw [stringBaseToInt64, strtoll_digits base.le (by omega) hdigits, min_eq_left (by omega), ← hn, Int64.ofInt_toInt]

/-! ## negative numbers -/

theorem negative_digit_facts : ∀ r, r < 36 → digit (-(r : Nat)) ≠ 0 ∧
    ((skipSign [digit (-(r : Nat))]).2 = [] ∨ skipSign [digit (-(r : Nat))] = (false, [digit (-(r : Nat))]) ∧
      (alnumVal (digit (-(r : Nat))) = none ∨ alnumVal (digit (-(r : Nat))) = some 0)) := by decide

theorem strtoll_negative {r : Nat} (hr : r < 36) (hbase : 0 < base) : strtoll base [digit (-(r : Nat))] = 0 := by
  have hmark : (skipMark base (skipSign [digit (-(r : Nat))]).2).2 = (skipSign [digit (-(r : Nat))]).2 := by
    rw [skipMark, if_neg, if_neg (by omega)]
    rintro ⟨-, -, hx, -⟩
    have hnil : (skipSign [digit (-(r : Nat))]).2.drop 1 = [] := by
      rcases (negative_digit_facts r hr).2 with hskip | ⟨hskip, -⟩
      · rw [hskip]
        rfl
      · rw [hskip]
        rfl
    rw [hnil] at hx
    rcases hx with hx | hx <;> cases hx
  have hzero : readAlnum base 0 (skipSign [digit (-(r : Nat))]).2 = 0 := by
    rcases (negative_digit_facts r hr).2 with hskip | ⟨hskip, hval | hval⟩
    · rw [hskip, readAlnum]
    · rw [hskip, readAlnum, hval]
    · rw [hskip, readAlnum, hval]
      simp only [if_pos hbase, readAlnum, Nat.zero_mul, Nat.add_zero]
  rw [strtoll]
  simp only [hmark, hzero]
  split <;> rfl

theorem not_roundTrips_of_neg {i : Int64} (base : Base) (h : i.toInt < 0) : ¬ RoundTrips i base := by
  have htwo := base.two_le
  have hle := base.le
  obtain ⟨m, hm⟩ : ∃ m : Nat, i.toInt = -(m : Int) := ⟨i.toInt.natAbs, by omega⟩
  have hlt : m % base.val.toNat < 36 := Nat.lt_of_lt_of_le (Nat.mod_lt _ (by omega)) hle
  have hbase : ¬ base.val < 1 := by
    rw [UInt8.lt_iff_toNat_lt]
    have hone : (1 : UInt8).toNat = 1 := rfl
    omega
  have hquotient : ¬ (-(m : Int)).tdiv base.val.toNat > 0 := by
    have hnonneg := Int.natCast_nonneg (m / base.val.toNat)
    rw [Int.neg_tdiv, ← Int.ofNat_tdiv]
    omega
  have htext : int64ToStringBase i base.val = some (some [digit (-((m % base.val.toNat : Nat) : Int))]) := by
    have hnul : decide (digit (-((m % base.val.toNat : Nat) : Int)) ≠ 0) = true :=
      decide_eq_true (negative_digit_facts _ hlt).1
    rw [int64ToStringBase, if_neg hbase, hm, BUF_SIZE, digitLoop, Int.neg_tmod, ← Int.ofNat_tmod]
    simp only [if_neg hquotient, Option.map_some, takeWhile_cons, hnul, if_true, takeWhile_nil]
  rintro ⟨s, hs, -, -, hread⟩
  rw [htext, Option.some.injEq, Option.some.injEq] at hs
  subst hs
  rw [stringBaseToInt64, strtoll_negative hlt (by omega)] at hread
  rw [← hread] at h
  exact absurd h (by decide)

/-- For every number and every base that `strtoll` has digits for: the numeral is read back if and only if the number is
not negative. -/
theorem int64ToStringBase_iff (i : Int64) (base : Base) : RoundTrips i base ↔ 0 ≤ i.toInt := by
  constructor
  · intro h
    by_contra hneg
    exact not_roundTrips_of_neg base (Int.not_le.1 hneg) h
  · exact roundTrips_of_nonneg i base

/-- -5 is written as a single `+`. -/
theorem not_int64ToStringBase : ¬ ∀ (i : Int64) (base : Base), RoundTrips i base := by
  intro h
  exact not_roundTrips_of_neg ⟨10, by decide, by decide⟩ (by decide : (-5 : Int64).toInt < 0) (h (-5) _)

example : int64ToStringBase (-5) 10 = some (some [43]) := by decide

end Priot.Convert
