/-
# The clock of the local engine

An engine shows how often it has started and a time of 31 bits. What it counts in all is seconds, which go on evenly
as long as the clock is read often enough.
-/
import Priot.Usm.Engine

namespace Priot.Usm

/-- The engine after `V3_localEngineTime`, `clock` seconds after `V3_initV3`. -/
def V3.read (v : V3) (clock : Nat) : V3 := (v.localEngineTime clock).2

/-- `V3_localEngineTime` again and again. -/
def V3.reads (v : V3) (clocks : List Nat) : V3 := clocks.foldl V3.read v

/-- `V3_localEngineBoots` and the time that was last returned. -/
def V3.shown (v : V3) : Nat × Nat := (v.engineBoots, v.lastEngineTime)

/-- All that the engine has counted, in seconds. -/
def V3.seconds (v : V3) : Nat := v.engineBoots * 2 ^ 31 + v.lastEngineTime

/-- From `clock` on the clock is read in this order, with less than 2^31 seconds in between. -/
def Steady : Nat → List Nat → Prop
  | _, [] => True
  | clock, next :: rest => clock ≤ next ∧ next < clock + 2 ^ 31 ∧ Steady next rest

/-- When the clock was read last. -/
def lastClock : Nat → List Nat → Nat
  | clock, [] => clock
  | _, next :: rest => lastClock next rest

variable {v : V3} {clock next : Nat} {clocks : List Nat}

@[simp] theorem V3.lastEngineTime_read (v : V3) (clock : Nat) : (v.read clock).lastEngineTime = clock % 2 ^ 31 := rfl

theorem V3.engineBoots_read (v : V3) (clock : Nat) :
    (v.read clock).engineBoots = if clock % 2 ^ 31 < v.lastEngineTime then v.engineBoots + 1 else v.engineBoots := rfl

/-- One reading counts the seconds since the one before. -/
theorem V3.seconds_read (hlast : v.lastEngineTime = clock % 2 ^ 31) (hle : clock ≤ next)
    (hgap : next < clock + 2 ^ 31) : (v.read next).seconds = v.seconds + (next - clock) := by
  unfold V3.seconds
  rw [V3.engineBoots_read, V3.lastEngineTime_read, hlast]
  split <;> omega

@[simp] theorem V3.reads_nil (v : V3) : v.reads [] = v := rfl

@[simp] theorem V3.reads_cons (v : V3) (clock : Nat) (clocks : List Nat) :
    v.reads (clock :: clocks) = (v.read clock).reads clocks := rfl

theorem lastClock_concat (first : Nat) (clocks : List Nat) (clock : Nat) :
    lastClock first (clocks ++ [clock]) = clock := by
  induction clocks generalizing first with
  | nil => rfl
  | cons next rest ih => exact ih next

theorem Steady.le_lastClock (h : Steady clock clocks) : clock ≤ lastClock clock clocks := by
  induction clocks generalizing clock with
  | nil => exact Nat.le_refl clock
  | cons next rest ih => exact Nat.le_trans h.1 (ih h.2.2)

theorem V3.seconds_reads (hlast : v.lastEngineTime = clock % 2 ^ 31) (h : Steady clock clocks) :
    (v.reads clocks).lastEngineTime = lastClock clock clocks % 2 ^ 31 ∧
      (v.reads clocks).seconds = v.seconds + (lastClock clock clocks - clock) := by
  induction clocks generalizing v clock with
  | nil =>
    refine ⟨hlast, ?_⟩
    rw [V3.reads_nil, lastClock, Nat.sub_self, Nat.add_zero]
  | cons next rest ih =>
    obtain ⟨hle, hgap, hrest⟩ := h
    obtain ⟨htime, hseconds⟩ := ih (v.lastEngineTime_read next) hrest
    refine ⟨htime, ?_⟩
    have hlater := hrest.le_lastClock
    rw [V3.reads_cons, hseconds, V3.seconds_read hlast hle hgap, lastClock]
    omega

theorem V3.shown_of_seconds (hlast : v.lastEngineTime < 2 ^ 31) {boots time : Nat} (htime : time < 2 ^ 31)
    (h : v.seconds = boots * 2 ^ 31 + time) : v.shown = (boots, time) := by
  unfold V3.seconds at h
  have hboots : v.engineBoots = boots := by omega
  have hshown : v.lastEngineTime = time := by omega
  rw [V3.shown, hboots, hshown]

end Priot.Usm
