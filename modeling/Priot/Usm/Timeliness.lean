/-
# The time window

`Usm_checkAndUpdateTimeliness` decides whether an authentic message is recent. A message of another engine is compared
with what is known of the clock of that engine, and what it says moves that clock forward.
-/
import Priot.Usm.Engine

namespace Priot.Usm

/-! ## `Usm_checkAndUpdateTimeliness` -/

def TIME_WINDOW : Nat := 150

def MAX_ID_LENGTH : Nat := 1024

def timeDifference (a b : Nat) : Nat := if a > b then a - b else b - a

section

variable (scapiHash : List UInt8 → Option (List UInt8))

/-- What `Usm_checkAndUpdateTimeliness` makes of the clock of another engine, as `Engine_getEx` returns it. -/
def judge (clock : Nat) (secEngineID : List UInt8) (boots time : Nat) :
    Option (Nat × Nat × Nat) × Clocks → ErrorCode × Clocks
  | (none, s) => (.usmGenericError, s)
  | (some (theirBoots, theirTime, theirLastTime), s) =>
    if theirBoots = ENGINEBOOT_MAX ∨ theirBoots > boots then (.usmNotInTimeWindow, s)
    else if theirBoots = boots ∧ time < theirLastTime then
      if timeDifference theirTime time > TIME_WINDOW then (.usmNotInTimeWindow, s)
      else (.success, s)
    else match set scapiHash clock s secEngineID boots time true with
    | (.success, s) => (.success, s)
    | (_, s) => (.usmGenericError, s)

/-- `Usm_checkAndUpdateTimeliness`, without the statistics. -/
def checkAndUpdateTimeliness (clock : Nat) (s : Clocks) (secEngineID : List UInt8) (boots time : Nat) :
    ErrorCode × Clocks :=
  let myID := s.v3.getEngineID MAX_ID_LENGTH
  if myID.length > MAX_ID_LENGTH ∨ myID.length = 0 then (.usmGenericError, s)
  else
    let myBoots := s.v3.engineBoots % 2 ^ 32
    let (myTime, v3) := s.v3.localEngineTime clock
    let s := { s with v3 := v3 }
    if secEngineID = myID then
      if boots = ENGINEBOOT_MAX ∨ boots ≠ myBoots ∨ timeDifference myTime time > TIME_WINDOW then
        (.usmNotInTimeWindow, s)
      else (.success, s)
    else judge scapiHash clock secEngineID boots time (getEx scapiHash clock s secEngineID true)

end

variable {scapiHash : List UInt8 → Option (List UInt8)} {s : Clocks} {clock : Nat} {id : List UInt8}
  {boots time : Nat} {e : Engine}

/-! ## another engine -/

/-- What is known of the clock of the engine `e`, now. -/
def Engine.estimate (clock : Nat) (e : Engine) : Nat × Nat :=
  extrapolate e.engineBoot e.engineTime (Int.bmod ((clock % 2 ^ 31 : Nat) - e.lastReceivedEngineTime) (2 ^ 32))

/-- A message that moves the clock of the engine. -/
def Engine.Moves (clock : Nat) (e : Engine) (boots time : Nat) : Prop :=
  (e.estimate clock).1 ≠ ENGINEBOOT_MAX ∧
    ((e.estimate clock).1 < boots ∨ (e.estimate clock).1 = boots ∧ e.engineTime ≤ time)

/-- A message that is old, but not too old. -/
def Engine.Tolerates (clock : Nat) (e : Engine) (boots time : Nat) : Prop :=
  (e.estimate clock).1 ≠ ENGINEBOOT_MAX ∧ (e.estimate clock).1 = boots ∧ time < e.engineTime ∧
    timeDifference (e.estimate clock).2 time ≤ TIME_WINDOW

/-- The local engine has got an engine ID, and it is not `id`. -/
structure Remote (s : Clocks) (id : List UInt8) : Prop where
  known : s.v3.engineID ≠ []
  length_le : s.v3.engineID.length ≤ MAX_ID_LENGTH
  ne : id ≠ s.v3.engineID

theorem checkAndUpdateTimeliness_of_remote (hr : Remote s id) :
    checkAndUpdateTimeliness scapiHash clock s id boots time = judge scapiHash clock id boots time
      (getEx scapiHash clock ⟨(s.v3.localEngineTime clock).2, s.engines⟩ id true) := by
  have hid : s.v3.getEngineID MAX_ID_LENGTH = s.v3.engineID := if_neg (Nat.not_lt.mpr hr.length_le)
  unfold checkAndUpdateTimeliness
  simp only [hid]
  rw [if_neg, if_neg hr.ne]
  rintro (hlong | hzero)
  · exact Nat.not_lt.mpr hr.length_le hlong
  · exact hr.known (List.length_eq_zero_iff.mp hzero)

theorem checkAndUpdateTimeliness_remote (hr : Remote s id) (hfind : searchInList scapiHash s.engines id = some e)
    (hauth : e.authenticatedFlag = true) (clock boots time : Nat) : ∃ v3 : V3, v3.engineID = s.v3.engineID ∧
      (e.Moves clock boots time → checkAndUpdateTimeliness scapiHash clock s id boots time =
        (.success, (set scapiHash clock ⟨v3, s.engines⟩ id boots time true).2)) ∧
      (e.Tolerates clock boots time → checkAndUpdateTimeliness scapiHash clock s id boots time =
        (.success, ⟨v3, s.engines⟩)) ∧ (¬ e.Moves clock boots time → ¬ e.Tolerates clock boots time →
        checkAndUpdateTimeliness scapiHash clock s id boots time = (.usmNotInTimeWindow, ⟨v3, s.engines⟩)) := by
  have hset : ∀ v3 : V3, (set scapiHash clock ⟨v3, s.engines⟩ id boots time true).1 = .success :=
    fun v3 => (set_of_found (s := ⟨v3, s.engines⟩) hfind (.inl rfl)).1
  have hbody : checkAndUpdateTimeliness scapiHash clock s id boots time =
      let v3 := ((s.v3.localEngineTime clock).2.localEngineTime clock).2
      if (e.estimate clock).1 = ENGINEBOOT_MAX ∨ (e.estimate clock).1 > boots then
        (.usmNotInTimeWindow, ⟨v3, s.engines⟩)
      else if (e.estimate clock).1 = boots ∧ time < e.engineTime then
        if timeDifference (e.estimate clock).2 time > TIME_WINDOW then (.usmNotInTimeWindow, ⟨v3, s.engines⟩)
        else (.success, ⟨v3, s.engines⟩)
      else (.success, (set scapiHash clock ⟨v3, s.engines⟩ id boots time true).2) := by
    rw [checkAndUpdateTimeliness_of_remote hr]
    unfold getEx judge
    simp only [hfind]
    rw [if_pos (.inr hauth)]
    have hset' := hset ((s.v3.localEngineTime clock).2.localEngineTime clock).2
    simp only []
    generalize set scapiHash clock ⟨((s.v3.localEngineTime clock).2.localEngineTime clock).2, s.engines⟩ id boots time
      true = r at hset' ⊢
    obtain ⟨code, s'⟩ := r
    obtain rfl : code = .success := hset'
    rfl
  refine ⟨((s.v3.localEngineTime clock).2.localEngineTime clock).2, rfl, ?_, ?_, ?_⟩
  · rintro ⟨hmax, hle⟩
    rw [hbody, if_neg (by omega), if_neg (by omega)]
  · rintro ⟨hmax, heq, hlt, hdiff⟩
    rw [hbody, if_neg (by omega), if_pos ⟨heq, hlt⟩, if_neg (by omega)]
  · intro hmoves htolerates
    rw [hbody]
    by_cases hbad : (e.estimate clock).1 = ENGINEBOOT_MAX ∨ (e.estimate clock).1 > boots
    · rw [if_pos hbad]
    · unfold Engine.Moves at hmoves
      unfold Engine.Tolerates at htolerates
      rw [if_neg hbad, if_pos (by omega), if_pos (by omega)]

/-! ## the window -/

/-- The local clock has started again from 0 since it showed `received`. -/
def Wrapped (received clock : Nat) : Prop := clock % 2 ^ 31 < received % 2 ^ 31

theorem estimate_eq {received : Nat} (hreceived : e.lastReceivedEngineTime = received % 2 ^ 31)
    (hlater : received ≤ clock) (htime : e.engineTime ≤ ENGINETIME_MAX)
    (helapsed : clock - received < ENGINETIME_MAX - e.engineTime) :
    (¬ Wrapped received clock → e.estimate clock = (e.engineBoot, e.engineTime + (clock - received))) ∧
      (Wrapped received clock → e.estimate clock = (e.engineBoot, e.engineTime + (clock - received) + 2 ^ 31)) := by
  unfold ENGINETIME_MAX at *
  have hroom : Int.bmod (ENGINETIME_MAX - e.engineTime) (2 ^ 32) = ENGINETIME_MAX - e.engineTime := by
    unfold ENGINETIME_MAX
    exact Int.bmod_eq_of_le_mul_two (by omega) (by omega)
  have hdiff : Int.bmod ((clock % 2 ^ 31 : Nat) - e.lastReceivedEngineTime) (2 ^ 32) =
      (clock % 2 ^ 31 : Nat) - (received % 2 ^ 31 : Nat) := by
    rw [hreceived]
    exact Int.bmod_eq_of_le_mul_two (by omega) (by omega)
  unfold Engine.estimate extrapolate
  rw [hroom, hdiff]
  unfold ENGINETIME_MAX Wrapped
  constructor
  · intro hwrapped
    rw [if_neg (by omega), Prod.mk.injEq]
    exact ⟨rfl, by omega⟩
  · intro hwrapped
    rw [if_neg (by omega), Prod.mk.injEq]
    exact ⟨rfl, by omega⟩

/-- An authentic message of another engine whose clock is known, and the time of the local clock when that clock was
received. -/
structure Delivery (scapiHash : List UInt8 → Option (List UInt8)) where
  s : Clocks
  id : List UInt8
  e : Engine
  received : Nat
  clock : Nat
  boots : Nat
  time : Nat
  remote : Remote s id
  found : searchInList scapiHash s.engines id = some e
  authenticated : e.authenticatedFlag = true
  boot_le : e.engineBoot ≤ ENGINEBOOT_MAX
  time_le : e.engineTime ≤ ENGINETIME_MAX
  received_eq : e.lastReceivedEngineTime = received % 2 ^ 31
  later : received ≤ clock
  elapsed_lt : clock - received < ENGINETIME_MAX - e.engineTime
  boots_le : boots ≤ ENGINEBOOT_MAX
  message_time_le : time ≤ ENGINETIME_MAX

namespace Delivery

variable (x : Delivery scapiHash)

/-- The seconds that have passed since the clock was received. -/
def elapsed : Nat := x.clock - x.received

def result : ErrorCode × Clocks := checkAndUpdateTimeliness scapiHash x.clock x.s x.id x.boots x.time

/-- The message is newer than all that is known of the engine. -/
def Newer : Prop :=
  x.e.engineBoot ≠ ENGINEBOOT_MAX ∧
    (x.e.engineBoot < x.boots ∨ x.e.engineBoot = x.boots ∧ x.e.engineTime < x.time)

/-- The message is not older than the time window. -/
def InWindow : Prop :=
  x.e.engineBoot ≠ ENGINEBOOT_MAX ∧ x.boots = x.e.engineBoot ∧ x.e.engineTime + x.elapsed ≤ x.time + TIME_WINDOW

/-- A message is accepted if it is newer or in the window, and it moves the clock only if it is newer. -/
structure Exact : Prop where
  accepted : x.result.1 = .success ↔ x.Newer ∨ x.InWindow
  moved : x.Newer → searchInList scapiHash x.result.2.engines x.id =
    some ⟨x.id, x.boots, x.time, x.clock % 2 ^ 31, true⟩
  kept : ¬ x.Newer → x.result.2.engines = x.s.engines

/-- The message does not repeat a clock that was received before, and if the local clock has started again then it is
not one that is in the window only. -/
def Plain : Prop :=
  x.e.engineBoot ≠ ENGINEBOOT_MAX → x.boots = x.e.engineBoot →
    (x.time = x.e.engineTime → x.elapsed = 0) ∧
    (Wrapped x.received x.clock → x.time < x.e.engineTime → x.time + TIME_WINDOW < x.e.engineTime + x.elapsed)

theorem estimate_fst : (x.e.estimate x.clock).1 = x.e.engineBoot := by
  obtain ⟨hright, hwrong⟩ := estimate_eq x.received_eq x.later x.time_le x.elapsed_lt
  by_cases hwrapped : Wrapped x.received x.clock
  · rw [hwrong hwrapped]
  · rw [hright hwrapped]

theorem moves_iff : x.e.Moves x.clock x.boots x.time ↔ x.e.engineBoot ≠ ENGINEBOOT_MAX ∧
    (x.e.engineBoot < x.boots ∨ x.e.engineBoot = x.boots ∧ x.e.engineTime ≤ x.time) := by
  unfold Engine.Moves
  rw [x.estimate_fst]

theorem tolerates_iff : x.e.Tolerates x.clock x.boots x.time ↔
    ¬ Wrapped x.received x.clock ∧ x.InWindow ∧ x.time < x.e.engineTime := by
  have hrange := x.time_le
  have helapsed := x.elapsed_lt
  obtain ⟨hright, hwrong⟩ := estimate_eq x.received_eq x.later x.time_le x.elapsed_lt
  unfold Engine.Tolerates timeDifference InWindow elapsed TIME_WINDOW
  by_cases hwrapped : Wrapped x.received x.clock
  · rw [hwrong hwrapped]
    refine iff_of_false ?_ fun h => h.1 hwrapped
    rintro ⟨-, -, hlt, hdiff⟩
    simp only [] at hdiff
    split at hdiff <;> omega
  · rw [hright hwrapped]
    simp only []
    constructor
    · rintro ⟨hmax, heq, hlt, hdiff⟩
      rw [if_pos (by omega)] at hdiff
      exact ⟨hwrapped, ⟨hmax, heq.symm, by omega⟩, hlt⟩
    · rintro ⟨-, ⟨hmax, heq, hwindow⟩, hlt⟩
      refine ⟨hmax, heq.symm, hlt, ?_⟩
      rw [if_pos (by omega)]
      omega

theorem result_cases : (x.e.Moves x.clock x.boots x.time ∧ x.result.1 = .success ∧
      ∃ v3, x.result.2 = (set scapiHash x.clock ⟨v3, x.s.engines⟩ x.id x.boots x.time true).2) ∨
    (¬ x.e.Moves x.clock x.boots x.time ∧
      (x.result.1 = .success ↔ x.e.Tolerates x.clock x.boots x.time) ∧ x.result.2.engines = x.s.engines) := by
  obtain ⟨v3, -, hmoves, htolerates, hnone⟩ := checkAndUpdateTimeliness_remote x.remote x.found x.authenticated
    x.clock x.boots x.time
  unfold result
  by_cases h : x.e.Moves x.clock x.boots x.time
  · rw [hmoves h]
    exact .inl ⟨h, rfl, v3, rfl⟩
  · right
    by_cases h' : x.e.Tolerates x.clock x.boots x.time
    · rw [htolerates h']
      exact ⟨h, iff_of_true rfl h', rfl⟩
    · rw [hnone h h']
      exact ⟨h, iff_of_false (fun hcode => nomatch hcode) h', rfl⟩

theorem Newer.moves (h : x.Newer) : x.e.Moves x.clock x.boots x.time := by
  obtain ⟨hmax, hlt⟩ := h
  exact x.moves_iff.mpr ⟨hmax, by omega⟩

theorem same_of_moves (h : x.e.Moves x.clock x.boots x.time) (hnew : ¬ x.Newer) :
    x.e.engineBoot ≠ ENGINEBOOT_MAX ∧ x.boots = x.e.engineBoot ∧ x.time = x.e.engineTime := by
  obtain ⟨hmax, hle⟩ := x.moves_iff.mp h
  have hboots : x.boots = x.e.engineBoot := by
    by_contra hne
    exact hnew ⟨hmax, .inl (by omega)⟩
  refine ⟨hmax, hboots, ?_⟩
  by_contra hne
  exact hnew ⟨hmax, .inr ⟨hboots.symm, by omega⟩⟩

theorem found_of_moves (h : x.e.Moves x.clock x.boots x.time) : searchInList scapiHash x.result.2.engines x.id =
    some ⟨x.id, x.boots, x.time, x.clock % 2 ^ 31, true⟩ := by
  rcases x.result_cases with ⟨-, -, v3, hresult⟩ | ⟨hnot, -, -⟩
  · rw [hresult]
    exact (set_of_found (s := ⟨v3, x.s.engines⟩) x.found (.inl rfl)).2
  · exact absurd h hnot

theorem kept_of_same (h : x.time = x.e.engineTime) (hboots : x.boots = x.e.engineBoot) (helapsed : x.elapsed = 0) :
    x.result.2.engines = x.s.engines := by
  rcases x.result_cases with ⟨-, -, v3, hresult⟩ | ⟨-, -, hkept⟩
  · have hclock : x.clock = x.received := Nat.le_antisymm (Nat.sub_eq_zero_iff_le.mp helapsed) x.later
    rw [hresult]
    refine set_same (s := ⟨v3, x.s.engines⟩) x.found ?_
    rw [h, hboots, hclock, ← x.received_eq, ← x.authenticated]
  · exact hkept

/-- The window is kept exactly if and only if the message is plain. -/
theorem exact_iff : x.Exact ↔ x.Plain := by
  have helapsedLt := x.elapsed_lt
  constructor
  · intro hexact hmax hboots
    constructor
    · intro htime
      have hmoves := x.moves_iff.mpr ⟨hmax, .inr ⟨hboots.symm, by omega⟩⟩
      have hnew : ¬ x.Newer := fun hnewer => by
        have := hnewer.2
        omega
      have hfound := x.found_of_moves hmoves
      rw [hexact.kept hnew, x.found, Option.some.injEq] at hfound
      have hlast := congrArg Engine.lastReceivedEngineTime hfound
      have heq := x.received_eq
      have hlater := x.later
      simp only [] at hlast
      unfold elapsed
      unfold ENGINETIME_MAX at helapsedLt
      omega
    · intro hwrapped htime
      by_contra hwindow
      have hsuccess := hexact.accepted.mpr (.inr ⟨hmax, hboots, by omega⟩)
      rcases x.result_cases with ⟨hmoves, -, -⟩ | ⟨-, hiff, -⟩
      · have := (x.moves_iff.mp hmoves).2
        omega
      · exact (x.tolerates_iff.mp (hiff.mp hsuccess)).1 hwrapped
  · intro hplain
    refine ⟨?_, fun hnewer => x.found_of_moves (Newer.moves x hnewer), fun hnew => ?_⟩
    · rcases x.result_cases with ⟨hmoves, hsuccess, -⟩ | ⟨hmoves, hiff, -⟩
      · refine iff_of_true hsuccess ?_
        by_cases hnew : x.Newer
        · exact .inl hnew
        -- the clock that was received before, at the same time
        · right
          obtain ⟨hmax, hboots, htime⟩ := x.same_of_moves hmoves hnew
          have hzero := (hplain hmax hboots).1 htime
          exact ⟨hmax, hboots, by omega⟩
      · rw [hiff, x.tolerates_iff]
        constructor
        · exact fun h => .inr h.2.1
        · rintro (hnew | hwindow)
          · exact absurd (Newer.moves x hnew) hmoves
          · obtain ⟨hmax, hboots, hle⟩ := hwindow
            have htime : x.time < x.e.engineTime := by
              by_contra hge
              exact hmoves (x.moves_iff.mpr ⟨hmax, .inr ⟨hboots.symm, by omega⟩⟩)
            refine ⟨fun hwrapped => ?_, ⟨hmax, hboots, hle⟩, htime⟩
            have := (hplain hmax hboots).2 hwrapped htime
            omega
    · rcases x.result_cases with ⟨hmoves, -, -⟩ | ⟨-, -, hkept⟩
      · obtain ⟨hmax, hboots, htime⟩ := x.same_of_moves hmoves hnew
        exact x.kept_of_same htime hboots ((hplain hmax hboots).1 htime)
      · exact hkept

end Delivery

end Priot.Usm
