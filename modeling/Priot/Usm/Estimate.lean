/-
# The estimate and the clock itself

The estimate says the same as the clock itself until this one starts again from 0: the estimate takes 2^31 - 1 seconds
for a whole turn, the engine 2^31.
-/
import Priot.Usm.EngineMap
import Priot.Usm.LocalClock

namespace Priot.Usm

/-- `Engine_get`: the boots and the estimated time. -/
def get (scapiHash : List UInt8 → Option (List UInt8)) (clock : Nat) (s : Clocks) (engineId : List UInt8)
    (authenticated : Bool) : Option (Nat × Nat) × Clocks :=
  match searchInList scapiHash s.engines engineId with
  | none => (none, s)
  | some e =>
    if ¬ authenticated ∨ e.authenticatedFlag then
      let (now, v3) := s.v3.localEngineTime clock
      let timediff := Int.bmod (now - e.lastReceivedEngineTime) (2 ^ 32)
      (some (extrapolate e.engineBoot e.engineTime timediff), { s with v3 := v3 })
    else (some (extrapolate 0 0 0), s)

variable {scapiHash : List UInt8 → Option (List UInt8)} {s s' : Clocks} {clock clock' : Nat} {id : List UInt8}
  {boots time d : Nat} {stored authenticated : Bool} {e : Engine}

theorem extrapolate_eq (htime : time ≤ ENGINETIME_MAX) (hd : d < 2 ^ 31) : extrapolate boots time d =
      if time + d ≤ ENGINETIME_MAX then (boots, time + d)
      else (if boots < ENGINEBOOT_MAX then boots + 1 else boots, time + d - ENGINETIME_MAX) := by
  unfold ENGINETIME_MAX at htime
  have hroom : Int.bmod (ENGINETIME_MAX - time) (2 ^ 32) = ENGINETIME_MAX - time := by
    unfold ENGINETIME_MAX
    exact Int.bmod_eq_of_le_mul_two (by omega) (by omega)
  unfold extrapolate
  rw [hroom]
  unfold ENGINETIME_MAX
  by_cases hfits : time + d ≤ 2147483647
  · rw [if_neg (by omega), if_pos hfits, Prod.mk.injEq]
    exact ⟨rfl, by omega⟩
  · rw [if_pos (by omega), if_neg hfits, Prod.mk.injEq]
    exact ⟨rfl, by omega⟩

theorem get_of_found (hfind : searchInList scapiHash s.engines id = some e)
    (hflag : authenticated = true → e.authenticatedFlag = true)
    (hdiff : clock % 2 ^ 31 = e.lastReceivedEngineTime + d) (hd : d < 2 ^ 31) :
    (get scapiHash clock s id authenticated).1 = some (extrapolate e.engineBoot e.engineTime d) ∧
      (getEx scapiHash clock s id authenticated).1 =
        some ((extrapolate e.engineBoot e.engineTime d).1, (extrapolate e.engineBoot e.engineTime d).2, e.engineTime) := by
  have hadmissible : ¬ authenticated = true ∨ e.authenticatedFlag = true := by
    by_cases hauth : authenticated = true
    · exact .inr (hflag hauth)
    · exact .inl hauth
  have htimediff : Int.bmod ((clock % 2 ^ 31 : Nat) - e.lastReceivedEngineTime) (2 ^ 32) = d := by
    rw [hdiff, Int.bmod_eq_of_le_mul_two (by omega) (by omega)]
    omega
  unfold get getEx
  simp only [hfind]
  rw [if_pos hadmissible, if_pos hadmissible]
  show some (extrapolate e.engineBoot e.engineTime (Int.bmod ((clock % 2 ^ 31 : Nat) - e.lastReceivedEngineTime) _)) = _ ∧
    some ((extrapolate e.engineBoot e.engineTime (Int.bmod ((clock % 2 ^ 31 : Nat) - e.lastReceivedEngineTime) _)).1,
      (extrapolate e.engineBoot e.engineTime (Int.bmod ((clock % 2 ^ 31 : Nat) - e.lastReceivedEngineTime) _)).2, _) = _
  rw [htimediff]
  exact ⟨rfl, rfl⟩

/-- The update of a record is accepted: its engine ID has a hash, and it is not one that needs authentication. -/
def Stored (scapiHash : List UInt8 → Option (List UInt8)) (s : Clocks) (id : List UInt8) (stored : Bool) : Prop :=
  (hashEngineId scapiHash id).isSome ∧ admits stored (searchInList scapiHash s.engines id) = true

/-- What an engine `own` showed at `k` is stored here, and asked for `d` seconds later. It is what the engine shows then,
however often its clock was read meanwhile, if and only if its time has not started again. -/
theorem get_eq_shown_iff {own : V3} {k : Nat} {between : List Nat} (hstored : Stored scapiHash s id stored)
    (hshown : (own.read k).shown = (boots, time))
    (hkept : searchInList scapiHash s'.engines id =
      searchInList scapiHash (set scapiHash clock s id boots time stored).2.engines id)
    (hflag : authenticated = true → stored = true) (hd : d < 2 ^ 31) (hlocal : clock' % 2 ^ 31 = clock % 2 ^ 31 + d)
    (hsteady : Steady k (between ++ [k + d])) :
    ((get scapiHash clock' s' id authenticated).1 = some ((own.read k).reads (between ++ [k + d])).shown ∧
        (getEx scapiHash clock' s' id authenticated).1 =
          some (((own.read k).reads (between ++ [k + d])).shown.1, ((own.read k).reads (between ++ [k + d])).shown.2,
            time)) ↔
      time + d ≤ ENGINETIME_MAX := by
  have hfind : searchInList scapiHash s'.engines id = some ⟨id, boots, time, clock % 2 ^ 31, stored⟩ := by
    rw [hkept]
    have hset : searchInList scapiHash (Call.step scapiHash s (.set clock id boots time stored)).engines id = _ :=
      searchInList_set id
    have hadmitted : (hashEngineId scapiHash id).isSome ∧ admits stored (searchInList scapiHash s.engines id) := hstored
    rw [Call.onMap, if_pos hadmitted, Function.update_self] at hset
    exact hset
  obtain ⟨hown, htime⟩ := Prod.mk.inj hshown
  have htime_lt : time < 2 ^ 31 := by
    rw [← htime, V3.lastEngineTime_read]
    exact Nat.mod_lt _ (by decide)
  -- What the engine shows in the end.
  obtain ⟨hlast, hseconds⟩ := V3.seconds_reads (own.lastEngineTime_read k) hsteady
  rw [lastClock_concat] at hlast hseconds
  have hlast_lt : ((own.read k).reads (between ++ [k + d])).lastEngineTime < 2 ^ 31 := by
    rw [hlast]
    exact Nat.mod_lt _ (by decide)
  have hcounted : ((own.read k).reads (between ++ [k + d])).seconds = boots * 2 ^ 31 + (time + d) := by
    rw [hseconds, V3.seconds, hown, htime]
    omega
  have hget := get_of_found hfind hflag hlocal hd
  rw [hget.1, hget.2, extrapolate_eq (Nat.le_of_lt_succ htime_lt) hd]
  unfold ENGINETIME_MAX
  by_cases hfits : time + d ≤ 2147483647
  · have hreport := V3.shown_of_seconds hlast_lt (show time + d < 2 ^ 31 by omega) hcounted
    rw [if_pos hfits, hreport]
    exact ⟨fun _ => hfits, fun _ => ⟨rfl, rfl⟩⟩
  · have hturn : boots * 2 ^ 31 + (time + d) = (boots + 1) * 2 ^ 31 + (time + d - 2 ^ 31) := by omega
    have hreport := V3.shown_of_seconds hlast_lt (show time + d - 2 ^ 31 < 2 ^ 31 by omega) (hcounted.trans hturn)
    rw [if_neg hfits, hreport]
    constructor
    · rintro ⟨hsame, -⟩
      have hsecond := (Prod.mk.inj (Option.some.inj hsame)).2
      omega
    · intro hle
      exact absurd hle hfits

theorem get_eq_shown_iff_ten :
    ((get some 13 (set some 3 ⟨⟨[1], 1, 0⟩, fun _ => []⟩ [2] 1 5 true).2 [2] true).1 =
          some ((V3.read ⟨[2], 1, 0⟩ 5).reads ([6] ++ [5 + 10])).shown ∧
        (getEx some 13 (set some 3 ⟨⟨[1], 1, 0⟩, fun _ => []⟩ [2] 1 5 true).2 [2] true).1 =
          some (((V3.read ⟨[2], 1, 0⟩ 5).reads ([6] ++ [5 + 10])).shown.1,
            ((V3.read ⟨[2], 1, 0⟩ 5).reads ([6] ++ [5 + 10])).shown.2, 5)) ↔
      5 + 10 ≤ ENGINETIME_MAX := by
  have hstored : Stored some ⟨⟨[1], 1, 0⟩, fun _ => []⟩ [2] true := ⟨rfl, rfl⟩
  have hsteady : Steady 5 ([6] ++ [5 + 10]) := ⟨by decide, by decide, by decide, by decide, trivial⟩
  exact get_eq_shown_iff hstored rfl rfl id (by decide) (by decide) hsteady

/-- One second after the last of its time an engine shows 0, and its estimate 1. -/
theorem get_ne_shown :
    (V3.read ⟨[2], 1, 0⟩ 2147483647).shown = (1, 2147483647) ∧
      ((V3.read ⟨[2], 1, 0⟩ 2147483647).read 2147483648).shown = (2, 0) ∧
      (get some 1 (set some 0 ⟨⟨[1], 1, 0⟩, fun _ => []⟩ [2] 1 2147483647 true).2 [2] true).1 = some (2, 1) ∧
      (getEx some 1 (set some 0 ⟨⟨[1], 1, 0⟩, fun _ => []⟩ [2] 1 2147483647 true).2 [2] true).1 =
        some (2, 1, 2147483647) := by
  refine ⟨?_, ?_, ?_, ?_⟩
  · decide
  · decide
  · decide
  · decide

end Priot.Usm
