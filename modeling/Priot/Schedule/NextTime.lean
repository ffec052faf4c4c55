/-
# The next run of a schedule

`sched_nextTime` and the functions on bit patterns that it calls. The zone has no daylight saving, and the years have
no end. The bits of a pattern go up from the high-order bit of its first octet.
-/
import Priot.Lib.Gregorian
import Priot.Lib.Octets
import Mathlib.Order.Bounds.Basic

namespace Priot.Schedule

open Octets Lib.Gregorian

/-! ## bit patterns -/

def masks : List UInt8 := [0x7f, 0x3f, 0x1f, 0x0f, 0x07, 0x03, 0x01, 0x00]

def bits : List UInt8 := [0x80, 0x40, 0x20, 0x10, 0x08, 0x04, 0x02, 0x01]

def bitAllClear (pattern : List UInt8) : Bool := pattern.all (· = 0)

def bitSet (pattern : List UInt8) (bit : Nat) : Bool := pattern.getD (bit / 8) 0 &&& bits.getD (bit % 8) 0 ≠ 0

/-- The working copy of `_bit_next`, without the bits up to the current one. -/
def laterBits (buf : List UInt8) (current : Int) : List UInt8 :=
  if current > -1 then
    let major := current.toNat / 8
    let minor := current.toNat % 8
    buf.mapIdx fun i b => if i < major then 0 else if i = major then b &&& masks.getD minor 0 else b
  else buf

/-- The first bit that is set, in a pattern whose octets are counted from `i` on. -/
def firstBit : List UInt8 → Nat → Int
  | [], _ => -1
  | b :: rest, i =>
    if b ≠ 0 then
      match (List.range 8).find? fun j => b &&& bits.getD j 0 ≠ 0 with
      | some j => i * 8 + j
      | none => firstBit rest (i + 1)
    else firstBit rest (i + 1)

def bitNext (pattern : List UInt8) (current : Int) (len : Nat) : Int :=
  firstBit (laterBits (pattern.take len) current) 0

theorem masks_and_bits : ∀ minor < 8, ∀ j < 8,
    masks.getD minor 0 &&& bits.getD j 0 = if minor < j then bits.getD j 0 else 0 := by decide

theorem exists_bit : ∀ n < 256, UInt8.ofNat n ≠ 0 → ∃ j < 8, UInt8.ofNat n &&& bits.getD j 0 ≠ 0 := by
  decide +kernel

theorem bitSet_eq_false_of_le {pattern : List UInt8} {bit : Nat} (h : pattern.length * 8 ≤ bit) :
    bitSet pattern bit = false := by
  have hout : pattern.length ≤ bit / 8 := by omega
  rw [bitSet, List.getD_eq_getElem?_getD, List.getElem?_eq_none hout, Option.getD_none, UInt8.zero_and]
  rfl

theorem bitSet_cons_of_lt {b : UInt8} {rest : List UInt8} {bit : Nat} (h : bit < 8) :
    bitSet (b :: rest) bit = decide (b &&& bits.getD bit 0 ≠ 0) := by
  rw [bitSet, Nat.div_eq_of_lt h, Nat.mod_eq_of_lt h, List.getD_cons_zero]

theorem bitSet_cons_add (b : UInt8) (rest : List UInt8) (bit : Nat) :
    bitSet (b :: rest) (bit + 8) = bitSet rest bit := by
  have hdiv : (bit + 8) / 8 = bit / 8 + 1 := by omega
  have hmod : (bit + 8) % 8 = bit % 8 := by omega
  rw [bitSet, hdiv, hmod, List.getD_cons_succ, bitSet]

/-- What comes out of a search for the first bit of `P`. -/
inductive First (P : Nat → Prop) : Int → Prop
  | none (h : ∀ j, ¬ P j) : First P (-1)
  | some (j : Nat) (h : P j) (least : ∀ k < j, ¬ P k) : First P j

theorem First.congr {P Q : Nat → Prop} {r : Int} (h : First P r) (hPQ : ∀ j, P j ↔ Q j) : First Q r := by
  cases h with
  | none h => exact .none fun j hj => h j ((hPQ j).2 hj)
  | some j h least => exact .some j ((hPQ j).1 h) fun k hk hQ => least k hk ((hPQ k).2 hQ)

theorem First.ne_neg_one_iff {P : Nat → Prop} {r : Int} (h : First P r) : r ≠ -1 ↔ ∃ j, P j := by
  cases h with
  | none h => exact iff_of_false (fun hne => hne rfl) fun hex => hex.elim h
  | some j h _ => exact iff_of_true (by omega) ⟨j, h⟩

theorem bitSet_skip {b : UInt8} (hclear : ∀ j < 8, ¬ b &&& bits.getD j 0 ≠ 0) (rest : List UInt8) (i bit : Nat) :
    ((i + 1) * 8 ≤ bit ∧ bitSet rest (bit - (i + 1) * 8) = true) ↔
      (i * 8 ≤ bit ∧ bitSet (b :: rest) (bit - i * 8) = true) := by
  constructor
  · rintro ⟨hle, hset⟩
    have hshift : bit - i * 8 = bit - (i + 1) * 8 + 8 := by omega
    refine ⟨by omega, ?_⟩
    rw [hshift, bitSet_cons_add]
    exact hset
  · rintro ⟨hle, hset⟩
    -- a bit below 8 would be one of the octet itself
    rcases Nat.lt_or_ge (bit - i * 8) 8 with hlt | hge
    · rw [bitSet_cons_of_lt hlt, decide_eq_true_iff] at hset
      exact absurd hset (hclear _ hlt)
    · have hshift : bit - i * 8 = bit - (i + 1) * 8 + 8 := by omega
      rw [hshift, bitSet_cons_add] at hset
      exact ⟨by omega, hset⟩

theorem First.eq_neg_one {P : Nat → Prop} {r : Int} (h : First P r) (hr : r < 0) : r = -1 := by
  cases h with
  | none _ => rfl
  | some j _ _ => omega

theorem First.exists_nat {P : Nat → Prop} {r : Int} (h : First P r) (hr : ¬ r < 0) :
    ∃ j : Nat, r = j ∧ P j ∧ ∀ k < j, ¬ P k := by
  cases h with
  | none _ => exact absurd (by decide) hr
  | some j hj hleast => exact ⟨j, rfl, hj, hleast⟩

theorem firstBit_spec (buf : List UInt8) (i : Nat) :
    First (fun bit => i * 8 ≤ bit ∧ bitSet buf (bit - i * 8) = true) (firstBit buf i) := by
  induction buf generalizing i with
  | nil =>
    refine .none ?_
    intro j hj
    rw [bitSet_eq_false_of_le (Nat.zero_le _)] at hj
    exact absurd hj.2 Bool.false_ne_true
  | cons b rest ih =>
    by_cases hb : b ≠ 0
    · rw [firstBit, if_pos hb]
      split
      · next j hfind =>
        rw [List.find?_range_eq_some, decide_eq_true_iff, List.mem_range] at hfind
        obtain ⟨hset, hlt, hleast⟩ := hfind
        have hfirst : ((i * 8 + j : Nat) : Int) = (i : Int) * 8 + j := by push_cast; rfl
        rw [← hfirst]
        refine .some (i * 8 + j) ⟨Nat.le_add_right _ _, ?_⟩ ?_
        · rw [Nat.add_sub_cancel_left, bitSet_cons_of_lt hlt]
          exact decide_eq_true hset
        · rintro k hk ⟨hle, hbit⟩
          have hsmall : k - i * 8 < j := by omega
          have hclear := hleast _ hsmall
          rw [bitSet_cons_of_lt (Nat.lt_trans hsmall hlt)] at hbit
          rw [hbit] at hclear
          exact absurd hclear (by decide)
      · next hfind =>
        rw [List.find?_range_eq_none] at hfind
        refine (ih (i + 1)).congr fun bit => bitSet_skip ?_ rest i bit
        intro j hj hset
        have hclear := hfind j hj
        rw [decide_eq_true hset] at hclear
        exact absurd hclear (by decide)
    · rw [firstBit, if_neg hb]
      refine (ih (i + 1)).congr fun bit => bitSet_skip ?_ rest i bit
      intro j _
      rw [not_not.1 hb, UInt8.zero_and]
      exact fun hne => hne rfl

theorem bitSet_laterBits (buf : List UInt8) (current : Int) (bit : Nat) :
    bitSet (laterBits buf current) bit = true ↔ current < bit ∧ bitSet buf bit = true := by
  by_cases hcurrent : current > -1
  · rw [laterBits, if_pos hcurrent]
    simp only [bitSet, List.getD_eq_getElem?_getD, List.getElem?_mapIdx]
    cases hb : buf[bit / 8]? with
    | none =>
      simp only [Option.map_none, Option.getD_none, UInt8.zero_and]
      exact iff_of_false (by decide) fun h => absurd h.2 (by decide)
    | some b =>
      simp only [Option.map_some, Option.getD_some, ← List.getD_eq_getElem?_getD]
      -- the octets before the current one are cleared, and in its own the bits up to the current one
      by_cases hbefore : bit / 8 < current.toNat / 8
      · rw [if_pos hbefore, UInt8.zero_and]
        exact iff_of_false (by decide) fun h => absurd h.1 (by omega)
      · rw [if_neg hbefore]
        by_cases hsame : bit / 8 = current.toNat / 8
        · rw [if_pos hsame, UInt8.and_assoc, masks_and_bits _ (Nat.mod_lt _ (by decide)) _ (Nat.mod_lt _ (by decide))]
          by_cases hlater : current.toNat % 8 < bit % 8
          · rw [if_pos hlater]
            exact ⟨fun h => ⟨by omega, h⟩, fun h => h.2⟩
          · rw [if_neg hlater, UInt8.and_zero]
            exact iff_of_false (by decide) fun h => absurd h.1 (by omega)
        · rw [if_neg hsame]
          exact ⟨fun h => ⟨by omega, h⟩, fun h => h.2⟩
  · rw [laterBits, if_neg hcurrent]
    exact ⟨fun h => ⟨by omega, h⟩, fun h => h.2⟩

theorem bitNext_spec (pattern : List UInt8) (current : Int) (len : Nat) :
    First (fun bit => current < bit ∧ bitSet (pattern.take len) bit = true) (bitNext pattern current len) := by
  refine (firstBit_spec _ 0).congr fun bit => ?_
  rw [Nat.zero_mul, Nat.sub_zero, bitSet_laterBits]
  exact and_iff_right (Nat.zero_le bit)

theorem lt_of_bitSet {pattern : List UInt8} {bit : Nat} (h : bitSet pattern bit = true) : bit < pattern.length * 8 := by
  by_contra hle
  rw [bitSet_eq_false_of_le (Nat.le_of_not_lt hle)] at h
  exact Bool.false_ne_true h

theorem bitNext_bounds (pattern : List UInt8) (current : Int) (len : Nat) (h : ¬ bitNext pattern current len < 0) :
    current < bitNext pattern current len ∧ bitNext pattern current len < len * 8 := by
  have hspec := bitNext_spec pattern current len
  generalize bitNext pattern current len = r at h hspec
  cases hspec with
  | none _ => exact absurd (by decide) h
  | some j hj _ =>
    have hlt := lt_of_bitSet hj.2
    have hlength := List.length_take_le len pattern
    exact ⟨hj.1, by omega⟩

/-! ## the time -/

/-- `struct tm`. -/
structure Tm where
  sec : Int
  min : Int
  hour : Int
  mday : Int
  mon : Int
  year : Int
  wday : Int
  deriving DecidableEq

/-- The number of the first of January of 1970. -/
def epoch : Int := 719162

/-- `localtime_r`, in a zone that is `gmtoff` seconds ahead. -/
def localtime (gmtoff t : Int) : Tm :=
  let day := (t + gmtoff) / 86400 + epoch
  let second := (t + gmtoff) % 86400
  { sec := second % 60
    min := second / 60 % 60
    hour := second / 3600
    mday := (dateOf day).day
    mon := (dateOf day).month
    year := (dateOf day).year - 1900
    wday := weekday day }

/-- `mktime`, the time and the fields that it comes to. -/
def mktime (gmtoff : Int) (tm : Tm) : Int × Tm :=
  let t := (dayNumber (tm.year + 1900) tm.mon tm.mday - epoch) * 86400 + tm.hour * 3600 + tm.min * 60 + tm.sec - gmtoff
  (t, localtime gmtoff t)

/-! ## days -/

def daysPerMonth : List Int := [31, 28, 31, 30, 31, 30, 31, 31, 30, 31, 30, 31, 29]

def truncateTable : List UInt8 :=
  [0xfe, 0xf0, 0xfe, 0xfc, 0xfe, 0xfc, 0xfe, 0xfe, 0xfc, 0xfe, 0xfc, 0xfe, 0xf8]

/-- The scheduler on a host: how far its zone is ahead, and the octets that stand behind the table `_truncate`. -/
structure Host where
  gmtoff : Int
  behind : Nat → UInt8

/-- `rev.int_val >>= n`. -/
def shiftRight (rev : List UInt8) (n : Nat) : List UInt8 :=
  leOctets 4 (Int.bmod (leNat rev) (2 ^ 32) / 2 ^ n % 2 ^ 32).toNat

/-- The bits of `buf[ 3 - i ]` for those of `rev.buf2[ i ]`. -/
def mirror (b : UInt8) : UInt8 :=
  (if b &&& 0x80 ≠ 0 then 0x01 else 0) ||| (if b &&& 0x40 ≠ 0 then 0x02 else 0) |||
  (if b &&& 0x20 ≠ 0 then 0x04 else 0) ||| (if b &&& 0x10 ≠ 0 then 0x08 else 0) |||
  (if b &&& 0x08 ≠ 0 then 0x10 else 0) ||| (if b &&& 0x04 ≠ 0 then 0x20 else 0) |||
  (if b &&& 0x02 ≠ 0 then 0x40 else 0) ||| (if b &&& 0x01 ≠ 0 then 0x80 else 0)

/-- The reverse day bits, shifted to the length of the month. A month 12 stands for February in a leap year. -/
def reverseDays (dayPattern : List UInt8) (month : Int) : List UInt8 :=
  let rev := shiftRight (dayPattern.drop 4) 2
  let rev := if dayPattern.getD 3 0 &&& 0x01 ≠ 0 then rev.modifyHead (· ||| 0x40) else rev
  let rev := if month = 3 ∨ month = 5 ∨ month = 8 ∨ month = 10 then shiftRight rev 1 else rev
  let rev := if month = 1 then shiftRight rev 3 else rev
  if month = 12 then shiftRight rev 2 else rev

/-- The pattern into which `_bit_next_day` merges the forward and the reverse day bits. -/
def mergedDays (host : Host) (dayPattern : List UInt8) (month : Int) : List UInt8 :=
  let buf := List.zipWith (· ||| mirror ·) (dayPattern.take 4) (reverseDays dayPattern month).reverse
  buf.modify 3 (· &&& (truncateTable[month.toNat]?).getD (host.behind (month.toNat - 13)))

/-- The weekday that `mktime` finds for a day. -/
def weekdayOf (host : Host) (day month year : Int) : Nat :=
  (mktime host.gmtoff ⟨0, 0, 0, day, month, year, 0⟩).2.wday.toNat

/-- The loop of `_bit_next_day`. -/
def nextDayLoop (host : Host) (buf : List UInt8) (weekdayPattern : UInt8) (month year nextDay : Int) : Int :=
  if bitNext buf nextDay 4 < 0 then -1
  else if bitSet [weekdayPattern] (weekdayOf host (bitNext buf nextDay 4 + 1) month year) = true then
    bitNext buf nextDay 4 + 1
  else nextDayLoop host buf weekdayPattern month year (bitNext buf nextDay 4)
termination_by (32 - nextDay).toNat
decreasing_by
  have h := bitNext_bounds buf nextDay 4 (by assumption)
  omega

def bitNextDay (host : Host) (dayPattern : List UInt8) (weekdayPattern : UInt8) (day month year : Int) : Int :=
  nextDayLoop host (mergedDays host dayPattern month) weekdayPattern month year (day - 1)

/-- A day, counted from 0 on, that `_bit_next_day` takes. -/
def TakesDay (host : Host) (dayPattern : List UInt8) (weekdayPattern : UInt8) (month year : Int) (d : Nat) : Prop :=
  bitSet (mergedDays host dayPattern month) d = true ∧
    bitSet [weekdayPattern] (weekdayOf host (d + 1) month year) = true

theorem length_mergedDays (host : Host) (dayPattern : List UInt8) (month : Int) :
    (mergedDays host dayPattern month).length ≤ 4 := by
  rw [mergedDays, List.length_modify, List.length_zipWith]
  exact Nat.le_trans (Nat.min_le_left _ _) (List.length_take_le 4 dayPattern)

theorem nextDayLoop_spec (host : Host) {buf : List UInt8} (hlength : buf.length ≤ 4) (weekdayPattern : UInt8)
    (month year nextDay : Int) : nextDayLoop host buf weekdayPattern month year nextDay ≠ -1 ↔
      ∃ d : Nat, nextDay < d ∧ bitSet buf d = true ∧
        bitSet [weekdayPattern] (weekdayOf host (d + 1) month year) = true := by
  have hspec (current : Int) := bitNext_spec buf current 4
  simp only [List.take_of_length_le hlength] at hspec
  induction nextDay using nextDayLoop.induct host buf weekdayPattern month year with
  | case1 nextDay hnone =>
    have hno : ¬ ∃ d : Nat, nextDay < d ∧ bitSet buf d = true := by
      rw [← (hspec nextDay).ne_neg_one_iff]
      exact fun hne => hne ((hspec nextDay).eq_neg_one hnone)
    rw [nextDayLoop, if_pos hnone]
    refine iff_of_false (fun h => h rfl) ?_
    rintro ⟨d, hlater, hset, -⟩
    exact hno ⟨d, hlater, hset⟩
  | case2 nextDay hsome hweekday =>
    obtain ⟨d, hd, hlater, -⟩ := (hspec nextDay).exists_nat hsome
    rw [nextDayLoop, if_neg hsome, if_pos hweekday]
    rw [hd] at hweekday ⊢
    exact iff_of_true (by omega) ⟨d, hlater.1, hlater.2, hweekday⟩
  | case3 nextDay hsome hweekday ih =>
    obtain ⟨d, hd, hlater, hleast⟩ := (hspec nextDay).exists_nat hsome
    rw [nextDayLoop, if_neg hsome, if_neg hweekday]
    refine ih.trans ?_
    rw [hd] at hweekday ⊢
    constructor
    · rintro ⟨e, he, hset, hday⟩
      exact ⟨e, Int.lt_trans hlater.1 he, hset, hday⟩
    · rintro ⟨e, he, hset, hday⟩
      -- a bit before this one is not set, and its own weekday is not
      have hle : ¬ e < d := fun hlt => hleast e hlt ⟨he, hset⟩
      have hne : e ≠ d := by
        rintro rfl
        exact hweekday hday
      exact ⟨e, by omega, hset, hday⟩

theorem bitNextDay_spec (host : Host) (dayPattern : List UInt8) (weekdayPattern : UInt8) (day month year : Int) :
    bitNextDay host dayPattern weekdayPattern day month year ≠ -1 ↔
      ∃ d : Nat, day - 1 < d ∧ TakesDay host dayPattern weekdayPattern month year d :=
  nextDayLoop_spec host (length_mergedDays host dayPattern month) weekdayPattern month year (day - 1)

/-! ## the next run -/

def SCHED_TYPE_PERIODIC : Int := 1

def SCHED_TYPE_CALENDAR : Int := 2

def SCHED_TYPE_ONESHOT : Int := 3

def SCHEDULE_FLAG_ENABLED : UInt32 := 0x01

def SCHEDULE_FLAG_ACTIVE : UInt32 := 0x02

/-- The columns of `struct schedTable_entry` that say when a schedule runs. -/
structure Entry where
  schedInterval : Nat
  schedWeekDay : UInt8
  schedMonth : Vector UInt8 2
  schedDay : Vector UInt8 8
  schedHour : Vector UInt8 3
  schedMinute : Vector UInt8 8
  schedType : Int
  flags : UInt32
  schedLastRun : Int
  schedNextRun : Int
  schedCallbackID : UInt32

/-- What `sched_nextTime` leaves: the entry, the alarm that it unregisters, and the seconds after which the alarm fires
that it registers. -/
structure Outcome where
  entry : Entry
  unregistered : Option UInt32
  registered : Option UInt32

namespace Entry

variable (entry : Entry)

/-- Some of the five fields has no bits set. -/
def incomplete : Bool :=
  bitAllClear entry.schedMinute.toList || bitAllClear entry.schedHour.toList || bitAllClear entry.schedDay.toList ||
    bitAllClear entry.schedMonth.toList || bitAllClear [entry.schedWeekDay]

/-- The bits of the current day are set. -/
def todaySet (now_tm : Tm) : Bool :=
  let rev_day := daysPerMonth.getD now_tm.mon.toNat 0 - now_tm.mday
  bitSet [entry.schedWeekDay] now_tm.wday.toNat &&
    (bitSet entry.schedDay.toList (now_tm.mday - 1).toNat || bitSet entry.schedDay.toList (31 + rev_day).toNat)

/-- The next specified minute of the current day. -/
def laterToday (now_tm next_tm : Tm) : Tm :=
  let next_tm := { next_tm with mday := now_tm.mday }
  let next_tm :=
    if bitSet entry.schedHour.toList now_tm.hour.toNat = true then
      { next_tm with hour := now_tm.hour, min := bitNext entry.schedMinute.toList now_tm.min 8 }
    else { next_tm with min := -1 }
  if next_tm.min = -1 then
    { next_tm with
      min := bitNext entry.schedMinute.toList (-1) 8
      hour := bitNext entry.schedHour.toList now_tm.hour 3 }
  else next_tm

/-- A February of a leap year is month 12. -/
def leapMonth (mon year : Int) : Int := if mon = 1 ∧ year.tmod 4 = 0 then 12 else mon

/-- The next specified minute of the current month. -/
def laterThisMonth (host : Host) (now_tm next_tm : Tm) : Tm :=
  let next_tm := { next_tm with mon := now_tm.mon }
  let next_tm := if entry.todaySet now_tm = true then entry.laterToday now_tm next_tm else { next_tm with hour := -1 }
  if next_tm.hour = -1 then
    { next_tm with
      min := bitNext entry.schedMinute.toList (-1) 8
      hour := bitNext entry.schedHour.toList (-1) 3
      mday := bitNextDay host entry.schedDay.toList entry.schedWeekDay now_tm.mday (leapMonth now_tm.mon now_tm.year)
        now_tm.year }
  else next_tm

/-- The time with which the loop of `sched_nextTime` starts. -/
def firstTry (host : Host) (now_tm : Tm) : Tm :=
  let next_tm := { now_tm with mon := -1, mday := -1, hour := -1, min := -1, sec := 0 }
  if bitSet entry.schedMonth.toList now_tm.mon.toNat = true then entry.laterThisMonth host now_tm next_tm
  else
    { next_tm with
      min := bitNext entry.schedMinute.toList (-1) 2
      hour := bitNext entry.schedHour.toList (-1) 3
      mday := -1
      mon := now_tm.mon }

/-- The next specified month, with the first specified day in it. -/
def nextMonth (host : Host) (next_tm : Tm) : Tm :=
  let next_tm := { next_tm with mon := bitNext entry.schedMonth.toList next_tm.mon 2 }
  let next_tm :=
    if next_tm.mon = -1 then
      { next_tm with year := next_tm.year + 1, mon := bitNext entry.schedMonth.toList (-1) 2 }
    else next_tm
  { next_tm with
    mday := bitNextDay host entry.schedDay.toList entry.schedWeekDay (-1) (leapMonth next_tm.mon next_tm.year)
      next_tm.year }

/-- The loop, for so many months. -/
def search (host : Host) : Nat → Tm → Option Tm
  | fuel, next_tm =>
    if next_tm.mday = -1 then
      match fuel with
      | 0 => none
      | fuel + 1 => search host fuel (entry.nextMonth host next_tm)
    else some next_tm

/-- The alarm of the last call. -/
def unregistered : Option UInt32 := if entry.schedCallbackID ≠ 0 then some entry.schedCallbackID else none

/-- The calendar branch. It returns before the alarm is registered. -/
def calendar (host : Host) (fuel : Nat) (now : Int) : Option Outcome :=
  if entry.incomplete = true then some ⟨entry, entry.unregistered, none⟩
  else
    let now_tm := localtime host.gmtoff now
    (entry.search host fuel (entry.firstTry host now_tm)).map fun next_tm =>
      ⟨{ entry with schedNextRun := (mktime host.gmtoff next_tm).1 }, entry.unregistered, none⟩

def nextTime (host : Host) (fuel : Nat) (now : Int) : Option Outcome :=
  if entry.flags &&& SCHEDULE_FLAG_ENABLED = 0 ∨ entry.flags &&& SCHEDULE_FLAG_ACTIVE = 0 then
    some ⟨entry, entry.unregistered, none⟩
  else if entry.schedType = SCHED_TYPE_PERIODIC then
    if entry.schedInterval = 0 then some ⟨entry, entry.unregistered, none⟩
    else
      let next := (if entry.schedLastRun ≠ 0 then entry.schedLastRun else now) + entry.schedInterval
      some ⟨{ entry with schedNextRun := next }, entry.unregistered, some (UInt32.ofInt (next - now))⟩
  else if entry.schedType = SCHED_TYPE_ONESHOT then
    if entry.schedLastRun ≠ 0 then some ⟨entry, entry.unregistered, none⟩ else entry.calendar host fuel now
  else if entry.schedType = SCHED_TYPE_CALENDAR then entry.calendar host fuel now
  else some ⟨entry, entry.unregistered, none⟩

end Entry

/-! ## what is asked of a calendar schedule -/

/-- An enabled and active entry of type calendar, or one-shot and not yet run. -/
structure Scheduled where
  entry : Entry
  enabled : ¬ (entry.flags &&& SCHEDULE_FLAG_ENABLED = 0 ∨ entry.flags &&& SCHEDULE_FLAG_ACTIVE = 0)
  type : entry.schedType = SCHED_TYPE_CALENDAR ∨ entry.schedType = SCHED_TYPE_ONESHOT ∧ entry.schedLastRun = 0

namespace Entry

variable (entry : Entry) (host : Host) (now : Int)

/-- All five patterns have a bit of the time, that of the day forward or in reverse. -/
def Specifies (tm : Tm) : Prop :=
  let last : Int := daysInMonth (decide (IsLeap (tm.year + 1900))) tm.mon.toNat
  bitSet entry.schedMinute.toList tm.min.toNat = true ∧ bitSet entry.schedHour.toList tm.hour.toNat = true ∧
    bitSet entry.schedMonth.toList tm.mon.toNat = true ∧ bitSet [entry.schedWeekDay] tm.wday.toNat = true ∧
    (bitSet entry.schedDay.toList (tm.mday - 1).toNat = true ∨
      bitSet entry.schedDay.toList (31 + (last - tm.mday)).toNat = true)

/-- The minutes that are later than the current one and match, each by its second 0. -/
def laterMinutes : Set Int :=
  {t | now < t ∧ (localtime host.gmtoff t).sec = 0 ∧ entry.Specifies (localtime host.gmtoff t)}

/-- `sched_nextTime` terminates. The next run is then the earliest of the later minutes, and an alarm fires then. If
there is none, then none is registered. -/
def FindsNextRun : Prop :=
  ∃ fuel r, entry.nextTime host fuel now = some r ∧
    ((entry.laterMinutes host now).Nonempty →
      ∃ t, IsLeast (entry.laterMinutes host now) t ∧ r.entry.schedNextRun = t ∧
        ∃ seconds, r.registered = some seconds ∧ now + seconds.toNat = t) ∧
    (entry.laterMinutes host now = ∅ → r.registered = none)

/-- A specified hour or minute is still to come on the current day, whose own bits are set. -/
def RunsToday (now_tm : Tm) : Prop :=
  bitSet entry.schedMonth.toList now_tm.mon.toNat = true ∧ entry.todaySet now_tm = true ∧
    (bitSet entry.schedHour.toList now_tm.hour.toNat = true ∧
        (∃ min : Nat, now_tm.min < min ∧ bitSet entry.schedMinute.toList min = true) ∨
      ∃ hour : Nat, now_tm.hour < hour ∧ bitSet entry.schedHour.toList hour = true)

/-- In some month of a year `_bit_next_day` takes a day. -/
def HasDay : Prop :=
  ∃ (mon : Nat) (year : Int) (d : Nat), bitSet entry.schedMonth.toList mon = true ∧
    TakesDay host entry.schedDay.toList entry.schedWeekDay (leapMonth mon year) year d

/-- The search comes to its end. -/
def SearchEnds : Prop :=
  entry.incomplete = true ∨ entry.RunsToday (localtime host.gmtoff now) ∨ entry.HasDay host

/-! ## the search -/

variable {entry} {host} {now}

theorem exists_bit_of_not_allClear {pattern : List UInt8} (h : bitAllClear pattern = false) :
    ∃ bit, bitSet pattern bit = true := by
  induction pattern with
  | nil => exact absurd h (by decide)
  | cons b rest ih =>
    by_cases hb : b = 0
    · have hrest : bitAllClear rest = false := by
        rw [bitAllClear, List.all_cons, decide_eq_true hb, Bool.true_and] at h
        exact h
      obtain ⟨bit, hbit⟩ := ih hrest
      exact ⟨bit + 8, by rw [bitSet_cons_add, hbit]⟩
    · have hoctet : UInt8.ofNat b.toNat = b := UInt8.ofNat_toNat
      obtain ⟨j, hj, hset⟩ := exists_bit b.toNat b.toNat_lt (by rw [hoctet]; exact hb)
      rw [hoctet] at hset
      exact ⟨j, by rw [bitSet_cons_of_lt hj, decide_eq_true hset]⟩

theorem month_spec (entry : Entry) (current : Int) :
    First (fun bit => current < bit ∧ bitSet entry.schedMonth.toList bit = true)
      (bitNext entry.schedMonth.toList current 2) := by
  have h := bitNext_spec entry.schedMonth.toList current 2
  rw [List.take_of_length_le (by rw [Vector.length_toList])] at h
  exact h

theorem lt_of_month {mon : Nat} (h : bitSet entry.schedMonth.toList mon = true) : mon < 16 := by
  have hlt := lt_of_bitSet h
  rw [Vector.length_toList] at hlt
  exact hlt

theorem leapMonth_add_400 (mon year : Int) : leapMonth mon (year + 400) = leapMonth mon year := by
  have h : (year + 400).tmod 4 = 0 ↔ year.tmod 4 = 0 := by
    rw [← Int.dvd_iff_tmod_eq_zero, ← Int.dvd_iff_tmod_eq_zero]
    omega
  simp only [leapMonth, h]

theorem weekdayOf_eq (day month year : Int) :
    weekdayOf host day month year = (weekday (dayNumber (year + 1900) month day)).toNat := by
  have h : ((dayNumber (year + 1900) month day - epoch) * 86400 + 0 * 3600 + 0 * 60 + 0 - host.gmtoff + host.gmtoff) /
      86400 + epoch = dayNumber (year + 1900) month day := by omega
  simp only [weekdayOf, mktime, localtime, h]

theorem takesDay_add_400 {dayPattern : List UInt8} {weekdayPattern : UInt8} {month year : Int} {d : Nat} :
    TakesDay host dayPattern weekdayPattern month (year + 400) d ↔
      TakesDay host dayPattern weekdayPattern month year d := by
  have hyear : year + 400 + 1900 = year + 1900 + 400 := by omega
  rw [TakesDay, weekdayOf_eq, hyear, dayNumber_add_400, weekday_add_400, ← weekdayOf_eq, TakesDay]

/-- The calendar comes again, so that the day that is taken comes after any year. -/
theorem HasDay.after (h : entry.HasDay host) (y : Int) :
    ∃ (mon : Nat) (year : Int) (d : Nat), y < year ∧ bitSet entry.schedMonth.toList mon = true ∧
      TakesDay host entry.schedDay.toList entry.schedWeekDay (leapMonth mon year) year d := by
  obtain ⟨mon, year, d, hmon, hday⟩ := h
  -- 400 years are a whole number of weeks
  have hrounds (k : Nat) : TakesDay host entry.schedDay.toList entry.schedWeekDay (leapMonth mon (year + 400 * k))
      (year + 400 * k) d := by
    induction k with
    | zero => simpa using hday
    | succ k ih =>
      have hstep : year + 400 * ((k + 1 : Nat) : Int) = year + 400 * k + 400 := by omega
      rw [hstep, leapMonth_add_400, takesDay_add_400]
      exact ih
  exact ⟨mon, year + 400 * ((y - year).toNat + 1 : Nat), d, by omega, hmon, hrounds _⟩

theorem nextMonth_mday (tm : Tm) :
    (entry.nextMonth host tm).mday = bitNextDay host entry.schedDay.toList entry.schedWeekDay (-1)
      (leapMonth (entry.nextMonth host tm).mon (entry.nextMonth host tm).year) (entry.nextMonth host tm).year := rfl

theorem nextMonth_spec (host : Host) (tm : Tm) {bit : Nat} (hbit : bitSet entry.schedMonth.toList bit = true) :
    ∃ mon : Nat, (entry.nextMonth host tm).mon = mon ∧ bitSet entry.schedMonth.toList mon = true ∧
      (tm.mon < mon ∧ (entry.nextMonth host tm).year = tm.year ∨ (entry.nextMonth host tm).year = tm.year + 1) ∧
      ∀ year : Int, tm.year < year ∨ tm.year = year ∧ tm.mon < bit →
        16 * (entry.nextMonth host tm).year + mon ≤ 16 * year + bit := by
  by_cases hnone : bitNext entry.schedMonth.toList tm.mon 2 < 0
  · -- no month is left in this year
    have hnot := (month_spec entry tm.mon).eq_neg_one hnone
    have hno : ¬ ∃ j : Nat, tm.mon < j ∧ bitSet entry.schedMonth.toList j = true := by
      rw [← (month_spec entry tm.mon).ne_neg_one_iff]
      exact fun hne => hne hnot
    have hfirst : ¬ bitNext entry.schedMonth.toList (-1) 2 < 0 := fun hlt =>
      (month_spec entry (-1)).ne_neg_one_iff.2 ⟨bit, by omega, hbit⟩ ((month_spec entry (-1)).eq_neg_one hlt)
    obtain ⟨j, hj, hset, hleast⟩ := (month_spec entry (-1)).exists_nat hfirst
    have hle : j ≤ bit := by
      by_contra hlt
      exact hleast bit (by omega) ⟨by omega, hbit⟩
    simp only [nextMonth, hnot, if_true]
    refine ⟨j, hj, hset.2, .inr trivial, ?_⟩
    rintro year (hyear | ⟨rfl, hmon⟩)
    · omega
    · exact absurd ⟨bit, hmon, hbit⟩ hno
  · obtain ⟨j, hj, hset, hleast⟩ := (month_spec entry tm.mon).exists_nat hnone
    have hlt := lt_of_month hset.2
    have hne : (j : Int) ≠ -1 := by omega
    simp only [nextMonth, hj, if_neg hne]
    refine ⟨j, rfl, hset.2, .inl ⟨hset.1, trivial⟩, ?_⟩
    rintro year (hyear | ⟨rfl, hmon⟩)
    · omega
    · have hle : j ≤ bit := by
        by_contra hgt
        exact hleast bit (by omega) ⟨hmon, hbit⟩
      omega

theorem hasDay_of_nextMonth (hcomplete : entry.incomplete = false) {tm : Tm}
    (h : (entry.nextMonth host tm).mday ≠ -1) : entry.HasDay host := by
  have hmonths : bitAllClear entry.schedMonth.toList = false := by
    simp only [incomplete, Bool.or_eq_false_iff] at hcomplete
    exact hcomplete.1.2
  obtain ⟨bit, hbit⟩ := exists_bit_of_not_allClear hmonths
  obtain ⟨mon, hmon, hset, -, -⟩ := nextMonth_spec host tm hbit
  rw [nextMonth_mday, bitNextDay_spec, hmon] at h
  obtain ⟨d, -, hday⟩ := h
  exact ⟨mon, _, d, hset, hday⟩

theorem hasDay_of_search (hcomplete : entry.incomplete = false) {fuel : Nat} {tm r : Tm}
    (h : entry.search host fuel tm = some r) : tm.mday ≠ -1 ∨ entry.HasDay host := by
  induction fuel generalizing tm with
  | zero =>
    refine .inl fun hday => ?_
    rw [search, if_pos hday] at h
    exact Option.some_ne_none r h.symm
  | succ fuel ih =>
    by_cases hday : tm.mday = -1
    · rw [search, if_pos hday] at h
      rcases ih h with hnext | hhas
      · exact .inr (hasDay_of_nextMonth hcomplete hnext)
      · exact .inr hhas
    · exact .inl hday

theorem search_reaches {mon : Nat} {year : Int} {d : Nat} (hmon : bitSet entry.schedMonth.toList mon = true)
    (hday : TakesDay host entry.schedDay.toList entry.schedWeekDay (leapMonth mon year) year d) (k : Nat) (tm : Tm)
    (hk : 16 * year + mon - (16 * tm.year + tm.mon) ≤ k) (hbefore : tm.year < year ∨ tm.year = year ∧ tm.mon < mon)
    (hrange : 0 ≤ tm.mon ∧ tm.mon < 16) : ∃ fuel r, entry.search host fuel tm = some r := by
  have hmonth := lt_of_month hmon
  induction k generalizing tm with
  | zero => omega
  | succ k ih =>
    by_cases hstop : tm.mday = -1
    · obtain ⟨m, hm, hset, hstep, hle⟩ := nextMonth_spec host tm hmon
      -- 16 times the year and the month grow, and do not pass over the month that is set
      have hlt := lt_of_month hset
      have hle := hle year hbefore
      by_cases heq : (entry.nextMonth host tm).year = year ∧ m = mon
      · -- this is the month
        refine ⟨1, entry.nextMonth host tm, ?_⟩
        have hfound : (entry.nextMonth host tm).mday ≠ -1 := by
          rw [nextMonth_mday, bitNextDay_spec, hm, heq.1, heq.2]
          exact ⟨d, by omega, hday⟩
        rw [search, if_pos hstop]
        exact if_neg hfound
      · obtain ⟨fuel, r, hsearch⟩ := ih (entry.nextMonth host tm) (by omega) (by omega) (by omega)
        refine ⟨fuel + 1, r, ?_⟩
        rw [search, if_pos hstop]
        exact hsearch
    · exact ⟨0, tm, if_neg hstop⟩

/-! ## the first try -/

theorem minute_spec (entry : Entry) (current : Int) :
    First (fun bit => current < bit ∧ bitSet entry.schedMinute.toList bit = true)
      (bitNext entry.schedMinute.toList current 8) := by
  have h := bitNext_spec entry.schedMinute.toList current 8
  rw [List.take_of_length_le (by rw [Vector.length_toList])] at h
  exact h

theorem hour_spec (entry : Entry) (current : Int) :
    First (fun bit => current < bit ∧ bitSet entry.schedHour.toList bit = true)
      (bitNext entry.schedHour.toList current 3) := by
  have h := bitNext_spec entry.schedHour.toList current 3
  rw [List.take_of_length_le (by rw [Vector.length_toList])] at h
  exact h

theorem localtime_bounds (gmtoff t : Int) :
    0 < (localtime gmtoff t).mday ∧ 0 ≤ (localtime gmtoff t).hour ∧ 0 ≤ (localtime gmtoff t).mon ∧
      (localtime gmtoff t).mon < 12 := by
  have hpos := (dateOf ((t + gmtoff) / 86400 + epoch)).pos
  have hmonth := (dateOf ((t + gmtoff) / 86400 + epoch)).month_lt
  simp only [localtime]
  omega

theorem laterToday_hour {now_tm : Tm} (hhour : 0 ≤ now_tm.hour) (next_tm : Tm) :
    (entry.laterToday now_tm next_tm).hour ≠ -1 ↔ (bitSet entry.schedHour.toList now_tm.hour.toNat = true ∧
          (∃ min : Nat, now_tm.min < min ∧ bitSet entry.schedMinute.toList min = true) ∨
        ∃ hour : Nat, now_tm.hour < hour ∧ bitSet entry.schedHour.toList hour = true) := by
  rw [← (minute_spec entry now_tm.min).ne_neg_one_iff, ← (hour_spec entry now_tm.hour).ne_neg_one_iff]
  by_cases hset : bitSet entry.schedHour.toList now_tm.hour.toNat = true
  · by_cases hmin : bitNext entry.schedMinute.toList now_tm.min 8 = -1
    · simp only [laterToday, if_pos hset, if_pos hmin]
      exact ⟨.inr, fun h => h.elim (fun h => absurd hmin h.2) id⟩
    · simp only [laterToday, if_pos hset, if_neg hmin]
      exact iff_of_true (by omega) (.inl ⟨hset, hmin⟩)
  · simp only [laterToday, if_neg hset, if_true]
    exact ⟨.inr, fun h => h.elim (fun h => absurd h.1 hset) id⟩

theorem laterToday_mday (now_tm next_tm : Tm) : (entry.laterToday now_tm next_tm).mday = now_tm.mday := by
  dsimp only [laterToday]
  split <;> split <;> rfl

theorem firstTry_mday (entry : Entry) (host : Host) {now_tm : Tm} (hmday : 0 < now_tm.mday)
    (hhour : 0 ≤ now_tm.hour) (hmon : 0 ≤ now_tm.mon) :
    ((entry.firstTry host now_tm).mday ≠ -1 → entry.RunsToday now_tm ∨ entry.HasDay host) ∧
      (entry.RunsToday now_tm → (entry.firstTry host now_tm).mday ≠ -1) := by
  by_cases hmonth : bitSet entry.schedMonth.toList now_tm.mon.toNat = true
  · have hlater : bitNextDay host entry.schedDay.toList entry.schedWeekDay now_tm.mday
        (leapMonth now_tm.mon now_tm.year) now_tm.year ≠ -1 → entry.HasDay host := by
      intro h
      obtain ⟨d, -, hday⟩ := (bitNextDay_spec _ _ _ _ _ _).1 h
      have hnat : ((now_tm.mon.toNat : Nat) : Int) = now_tm.mon := Int.toNat_of_nonneg hmon
      exact ⟨now_tm.mon.toNat, now_tm.year, d, hmonth, by rw [hnat]; exact hday⟩
    simp only [firstTry, if_pos hmonth, laterThisMonth]
    by_cases htoday : entry.todaySet now_tm = true
    · rw [if_pos htoday]
      by_cases hruns : entry.RunsToday now_tm
      · have hhour' (next_tm : Tm) : (entry.laterToday now_tm next_tm).hour ≠ -1 :=
          (laterToday_hour hhour next_tm).2 hruns.2.2
        rw [if_neg (hhour' _), laterToday_mday]
        exact ⟨fun _ => .inl hruns, fun _ => by omega⟩
      · have hhour' (next_tm : Tm) : (entry.laterToday now_tm next_tm).hour = -1 := by
          by_contra h
          exact hruns ⟨hmonth, htoday, (laterToday_hour hhour next_tm).1 h⟩
        rw [if_pos (hhour' _)]
        exact ⟨fun h => .inr (hlater h), fun h => absurd h hruns⟩
    · rw [if_neg htoday, if_pos rfl]
      exact ⟨fun h => .inr (hlater h), fun h => absurd h.2.1 htoday⟩
  · simp only [firstTry, if_neg hmonth]
    exact ⟨fun h => absurd rfl h, fun h => absurd h.1 hmonth⟩

theorem firstTry_month (entry : Entry) (host : Host) (now_tm : Tm) :
    (entry.firstTry host now_tm).mon = now_tm.mon ∧ (entry.firstTry host now_tm).year = now_tm.year := by
  -- a later day of this month counts as one at all
  have hlater (next_tm : Tm) : (entry.laterToday now_tm next_tm).mon = next_tm.mon ∧
      (entry.laterToday now_tm next_tm).year = next_tm.year := by
    dsimp only [laterToday]
    split <;> split <;> exact ⟨rfl, rfl⟩
  by_cases hmonth : bitSet entry.schedMonth.toList now_tm.mon.toNat = true
  · simp only [firstTry, if_pos hmonth, laterThisMonth]
    by_cases htoday : entry.todaySet now_tm = true
    · rw [if_pos htoday]
      split <;> exact hlater _
    · rw [if_neg htoday, if_pos rfl]
      exact ⟨rfl, rfl⟩
  · simp only [firstTry, if_neg hmonth]
    exact ⟨trivial, trivial⟩

theorem search_ends_iff (host : Host) (now : Int) (hcomplete : entry.incomplete = false) :
    (∃ fuel r, entry.search host fuel (entry.firstTry host (localtime host.gmtoff now)) = some r) ↔
      entry.RunsToday (localtime host.gmtoff now) ∨ entry.HasDay host := by
  obtain ⟨hmday, hhour, hmon, hmon'⟩ := localtime_bounds host.gmtoff now
  have hfirst := firstTry_mday entry host hmday hhour hmon
  constructor
  · rintro ⟨fuel, r, hsearch⟩
    rcases hasDay_of_search hcomplete hsearch with hday | hday
    · exact hfirst.1 hday
    · exact .inr hday
  · rintro (hruns | hday)
    · exact ⟨0, _, if_neg (hfirst.2 hruns)⟩
    · obtain ⟨mon, year, d, hyear, hset, htakes⟩ := hday.after (localtime host.gmtoff now).year
      -- a year that has not begun is before the search for certain
      obtain ⟨hsameMonth, hsameYear⟩ := firstTry_month entry host (localtime host.gmtoff now)
      refine search_reaches hset htakes _ _ (Int.self_le_toNat _) ?_ ?_
      · rw [hsameYear]
        exact .inl hyear
      · rw [hsameMonth]
        omega

/-! ## the result -/

theorem calendar_registered {fuel : Nat} {r : Outcome} (h : entry.calendar host fuel now = some r) :
    r.registered = none := by
  rw [calendar] at h
  by_cases hincomplete : entry.incomplete = true
  · rw [if_pos hincomplete] at h
    rw [← Option.some.inj h]
  · rw [if_neg hincomplete] at h
    obtain ⟨tm, -, htm⟩ := Option.map_eq_some_iff.1 h
    rw [← htm]

theorem calendar_ends_iff : (∃ fuel r, entry.calendar host fuel now = some r) ↔ entry.SearchEnds host now := by
  by_cases hincomplete : entry.incomplete = true
  · exact iff_of_true ⟨0, _, if_pos hincomplete⟩ (.inl hincomplete)
  · have hends := search_ends_iff host now (Bool.not_eq_true _ ▸ hincomplete)
    rw [SearchEnds, or_iff_right hincomplete, ← hends]
    simp only [calendar, if_neg hincomplete, Option.map_eq_some_iff]
    constructor
    · rintro ⟨fuel, r, tm, htm, -⟩
      exact ⟨fuel, tm, htm⟩
    · rintro ⟨fuel, tm, htm⟩
      exact ⟨fuel, _, tm, htm, rfl⟩

end Entry

namespace Scheduled

open Entry

theorem nextTime_eq (scheduled : Scheduled) (host : Host) (fuel : Nat) (now : Int) :
    scheduled.entry.nextTime host fuel now = scheduled.entry.calendar host fuel now := by
  rw [nextTime, if_neg scheduled.enabled]
  rcases scheduled.type with htype | ⟨htype, hlast⟩
  · have hperiodic : scheduled.entry.schedType ≠ SCHED_TYPE_PERIODIC := by rw [htype]; decide
    have honeshot : scheduled.entry.schedType ≠ SCHED_TYPE_ONESHOT := by rw [htype]; decide
    rw [if_neg hperiodic, if_neg honeshot, if_pos htype]
  · have hperiodic : scheduled.entry.schedType ≠ SCHED_TYPE_PERIODIC := by rw [htype]; decide
    rw [if_neg hperiodic, if_pos htype, if_neg (not_not.2 hlast)]

/-- The next run is found if there is none, and the search for it ends. -/
theorem findsNextRun_iff (scheduled : Scheduled) (host : Host) (now : Int) :
    scheduled.entry.FindsNextRun host now ↔
      scheduled.entry.laterMinutes host now = ∅ ∧ scheduled.entry.SearchEnds host now := by
  constructor
  · rintro ⟨fuel, r, hr, hrun, -⟩
    rw [nextTime_eq] at hr
    refine ⟨?_, calendar_ends_iff.1 ⟨fuel, r, hr⟩⟩
    rw [← Set.not_nonempty_iff_eq_empty]
    intro hlater
    obtain ⟨t, -, -, seconds, hregistered, -⟩ := hrun hlater
    rw [calendar_registered hr] at hregistered
    exact Option.some_ne_none seconds hregistered.symm
  · rintro ⟨hnone, hends⟩
    obtain ⟨fuel, r, hr⟩ := calendar_ends_iff.2 hends
    refine ⟨fuel, r, (nextTime_eq scheduled host fuel now).trans hr, ?_, fun _ => calendar_registered hr⟩
    intro hlater
    exact absurd hnone hlater.ne_empty

/-- An entry with all bits set. -/
def always : Scheduled where
  entry :=
    { schedInterval := 0
      schedWeekDay := 0xff
      schedMonth := Vector.replicate 2 0xff
      schedDay := Vector.replicate 8 0xff
      schedHour := Vector.replicate 3 0xff
      schedMinute := Vector.replicate 8 0xff
      schedType := SCHED_TYPE_CALENDAR
      flags := SCHEDULE_FLAG_ENABLED ||| SCHEDULE_FLAG_ACTIVE
      schedLastRun := 0
      schedNextRun := 0
      schedCallbackID := 0 }
  enabled := by decide
  type := .inl rfl

/-- Such an entry does not run at the second minute of 1970. -/
theorem not_findsNextRun : ¬ ∀ (scheduled : Scheduled) (host : Host) (now : Int),
    scheduled.entry.FindsNextRun host now := by
  intro h
  obtain ⟨fuel, r, hr, hrun, -⟩ := h always ⟨0, fun _ => 0⟩ 0
  have hlater : (60 : Int) ∈ always.entry.laterMinutes ⟨0, fun _ => 0⟩ 0 := by
    have htm : localtime 0 60 = ⟨0, 1, 0, 1, 0, 70, 4⟩ := by decide +kernel
    refine ⟨by decide, ?_, ?_⟩
    · exact congrArg Tm.sec htm
    · rw [htm]
      exact ⟨by decide, by decide, by decide, by decide, .inl (by decide)⟩
  rw [nextTime_eq] at hr
  obtain ⟨t, -, -, seconds, hregistered, -⟩ := hrun ⟨60, hlater⟩
  rw [calendar_registered hr] at hregistered
  exact Option.some_ne_none seconds hregistered.symm

end Scheduled

end Priot.Schedule
