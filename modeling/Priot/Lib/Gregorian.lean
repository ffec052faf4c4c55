/-
# The Gregorian calendar

Days are counted from the first of January of the year 1, and years without end in both directions. A date is found
from its number by the start of its year and the start of its month.
-/
import Mathlib.Data.Nat.Find

namespace Priot.Lib.Gregorian

/-! ## Years and months -/

def IsLeap (y : Int) : Prop := y % 4 = 0 ∧ (y % 100 ≠ 0 ∨ y % 400 = 0)

instance : DecidablePred IsLeap := fun y => inferInstanceAs (Decidable (y % 4 = 0 ∧ (y % 100 ≠ 0 ∨ y % 400 = 0)))

/-- The days before a year: of the years before it, each fourth is longer, but not each hundredth, but each four
hundredth. -/
def yearStart (y : Int) : Int := 365 * (y - 1) + (y - 1) / 4 - (y - 1) / 100 + (y - 1) / 400

def yearLength (y : Int) : Int := if IsLeap y then 366 else 365

theorem yearStart_succ (y : Int) : yearStart (y + 1) = yearStart y + yearLength y := by
  unfold yearStart yearLength
  by_cases h : IsLeap y
  · rw [if_pos h]
    unfold IsLeap at h
    omega
  · rw [if_neg h]
    unfold IsLeap at h
    omega

/-- The calendar comes again after 400 years. -/
theorem yearStart_add_400 (y : Int) : yearStart (y + 400) = yearStart y + 146097 := by
  unfold yearStart
  omega

theorem isLeap_add_400 (y : Int) : IsLeap (y + 400) ↔ IsLeap y := by
  unfold IsLeap
  omega

/-- The days of a year before a month, in months from 0 on. -/
def monthStart (leap : Bool) (m : Nat) : Nat :=
  ([0, 31, 59, 90, 120, 151, 181, 212, 243, 273, 304, 334, 365].getD m 365) + if leap = true ∧ 2 ≤ m then 1 else 0

def daysInMonth (leap : Bool) (m : Nat) : Nat := monthStart leap (m + 1) - monthStart leap m

/-! ## The number of a day -/

/-- The number of a day of a month. The months of a year may be counted on, and the days of a month too. -/
def dayNumber (y m d : Int) : Int :=
  yearStart (y + m / 12) + monthStart (decide (IsLeap (y + m / 12))) (m % 12).toNat + (d - 1)

/-- The day of the week, from Sunday on. -/
def weekday (n : Int) : Int := (n + 1) % 7

theorem dayNumber_add_400 (y m d : Int) : dayNumber (y + 400) m d = dayNumber y m d + 146097 := by
  have hyear : y + 400 + m / 12 = y + m / 12 + 400 := by omega
  have hleap : decide (IsLeap (y + m / 12 + 400)) = decide (IsLeap (y + m / 12)) :=
    decide_eq_decide.2 (isLeap_add_400 _)
  rw [dayNumber, hyear, yearStart_add_400, hleap, dayNumber]
  omega

theorem weekday_add_400 (n : Int) : weekday (n + 146097) = weekday n := by
  unfold weekday
  omega

/-! ## The date of a day -/

/-- A date of the calendar, with the months from 0 and the days from 1 on. -/
structure Date where
  year : Int
  month : Nat
  day : Nat
  month_lt : month < 12
  pos : 0 < day
  day_le : day ≤ daysInMonth (decide (IsLeap year)) month

/-- The last of the 400 years of a round that starts no later than a day of it. -/
def yearOf (n : Int) : Int :=
  400 * (n / 146097) + 1 + Nat.findGreatest (fun k => yearStart (k + 1) ≤ n % 146097) 399

/-- The last month that starts no later than a day of the year. -/
def monthOf (leap : Bool) (n : Nat) : Nat := Nat.findGreatest (fun m => monthStart leap m ≤ n) 11

theorem yearStart_round (k : Int) (y : Int) : yearStart (400 * k + y) = yearStart y + 146097 * k := by
  unfold yearStart
  omega

theorem yearOf_spec (n : Int) : yearStart (yearOf n) ≤ n ∧ n < yearStart (yearOf n + 1) := by
  -- within a round of 400 years the search is bounded
  have hround : n = n % 146097 + 146097 * (n / 146097) := by omega
  have hlt : n % 146097 < 146097 := Int.emod_lt_of_pos n (by decide)
  have hnonneg : 0 ≤ n % 146097 := Int.emod_nonneg n (by decide)
  have hfirst : yearStart ((0 : Nat) + 1) ≤ n % 146097 := hnonneg
  have hspec := Nat.findGreatest_spec (P := fun k => yearStart (k + 1) ≤ n % 146097) (Nat.zero_le 399) hfirst
  have hlast := Nat.findGreatest_le (P := fun k : Nat => yearStart (k + 1) ≤ n % 146097) 399
  have hnext : n % 146097 < yearStart (Nat.findGreatest (fun k => yearStart (k + 1) ≤ n % 146097) 399 + 1 + 1) := by
    rcases Nat.lt_or_eq_of_le hlast with hless | heq
    · have hnot := Nat.findGreatest_is_greatest (P := fun k : Nat => yearStart (k + 1) ≤ n % 146097)
        (Nat.lt_succ_self _) hless
      push_cast at hnot
      exact Int.not_le.1 hnot
    · -- the year behind the last one starts the next round
      rw [heq]
      exact hlt
  constructor
  · rw [yearOf, Int.add_assoc, yearStart_round, Int.add_comm 1]
    omega
  · rw [yearOf, Int.add_assoc, Int.add_assoc, yearStart_round, Int.add_comm 1, Int.add_assoc]
    rw [Int.add_assoc] at hnext
    omega

theorem monthOf_lt (leap : Bool) (n : Nat) : monthOf leap n < 12 := Nat.lt_succ_of_le (Nat.findGreatest_le 11)

theorem monthOf_spec {leap : Bool} {n : Nat} (hn : n < monthStart leap 12) :
    monthStart leap (monthOf leap n) ≤ n ∧ n < monthStart leap (monthOf leap n + 1) := by
  have hfirst : monthStart leap 0 ≤ n := by cases leap <;> exact Nat.zero_le n
  refine ⟨Nat.findGreatest_spec (P := fun m => monthStart leap m ≤ n) (Nat.zero_le 11) hfirst, ?_⟩
  rcases Nat.lt_or_eq_of_le (Nat.findGreatest_le (P := fun m => monthStart leap m ≤ n) 11) with hless | heq
  · exact Nat.not_le.1 (Nat.findGreatest_is_greatest (P := fun m => monthStart leap m ≤ n) (Nat.lt_succ_self _) hless)
  · rw [monthOf, heq]
    exact hn

/-- The days of a year from its start on. -/
def dayOfYear (n : Int) : Nat := (n - yearStart (yearOf n)).toNat

theorem dayOfYear_lt (n : Int) : dayOfYear n < monthStart (decide (IsLeap (yearOf n))) 12 := by
  obtain ⟨hle, hlt⟩ := yearOf_spec n
  rw [yearStart_succ, yearLength] at hlt
  unfold dayOfYear
  by_cases hleap : IsLeap (yearOf n)
  · have hlength : monthStart true 12 = 366 := rfl
    rw [if_pos hleap] at hlt
    rw [decide_eq_true hleap, hlength]
    omega
  · have hlength : monthStart false 12 = 365 := rfl
    rw [if_neg hleap] at hlt
    rw [decide_eq_false hleap, hlength]
    omega

def dateOf (n : Int) : Date where
  year := yearOf n
  month := monthOf (decide (IsLeap (yearOf n))) (dayOfYear n)
  day := dayOfYear n - monthStart (decide (IsLeap (yearOf n))) (monthOf (decide (IsLeap (yearOf n))) (dayOfYear n)) + 1
  month_lt := monthOf_lt _ _
  pos := Nat.succ_pos _
  day_le := by
    have h := monthOf_spec (dayOfYear_lt n)
    unfold daysInMonth
    omega

end Priot.Lib.Gregorian
