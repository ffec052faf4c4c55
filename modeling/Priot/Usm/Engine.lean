/-
# The engines and their clocks

What is known of the clock of each engine: its boots and its time when they were last received, and what the local
clock of `V3.c` showed then. An `int` and a `u_int` have 32 bits, and they wrap.
-/
import Mathlib.Data.List.Basic
import Mathlib.Tactic.Ring

namespace Priot.Usm

open List

/-- The errors that the functions of the user-based security model return. -/
inductive ErrorCode
  | success
  | genErr
  | usmGenericError
  | usmUnknownSecurityName
  | usmUnsupportedSecurityLevel
  | usmAuthenticationFailure
  | usmNotInTimeWindow
  | usmUnknownEngineId
  | usmParseError
  | usmDecryptionError
  deriving DecidableEq, Repr

def ENGINETIME_MAX : Nat := 2147483647

def ENGINEBOOT_MAX : Nat := 2147483647

abbrev LIST_SIZE : Nat := 23

/-! ## the local engine (`V3.c`) -/

/-- The variables of `V3.c`. An `engineID` that is not set is empty. -/
structure V3 where
  engineID : List UInt8
  engineBoots : Nat
  lastEngineTime : Nat

/-- `V3_getEngineID`: what is copied into a buffer of length `buflen`, nothing when it returns 0. -/
def V3.getEngineID (v : V3) (buflen : Nat) : List UInt8 :=
  if buflen < v.engineID.length then [] else v.engineID

/-- `V3_localEngineTime`, `clock` seconds after `V3_initV3`. -/
def V3.localEngineTime (v : V3) (clock : Nat) : Nat × V3 :=
  let engineTime := clock % 2 ^ 31
  (engineTime, { v with
    engineBoots := if engineTime < v.lastEngineTime then v.engineBoots + 1 else v.engineBoots
    lastEngineTime := engineTime })

/-! ## the records -/

/-- `Engine_t`. -/
structure Engine where
  engineId : List UInt8
  engineBoot : Nat
  engineTime : Nat
  lastReceivedEngineTime : Nat
  authenticatedFlag : Bool
  deriving DecidableEq

abbrev EngineList : Type := Fin LIST_SIZE → List Engine

/-- The local engine and what is known of the others. -/
structure Clocks where
  v3 : V3
  engines : EngineList

/-- Every fourth octet is added up. -/
def additive : List UInt8 → Nat
  | b :: _ :: _ :: _ :: rest => b.toNat + additive rest
  | b :: _ => b.toNat
  | [] => 0

/-- `Engine_hashEngineId`, with what `Scapi_hash` makes of an engine ID. -/
def hashEngineId (scapiHash : List UInt8 → Option (List UInt8)) (engineId : List UInt8) : Option (Fin LIST_SIZE) :=
  if engineId = [] then none
  else (scapiHash engineId).map fun buf => Fin.ofNat LIST_SIZE (additive buf)

section

variable (scapiHash : List UInt8 → Option (List UInt8))

def searchInList (engines : EngineList) (engineId : List UInt8) : Option Engine :=
  (hashEngineId scapiHash engineId).bind fun i => (engines i).find? fun e => e.engineId = engineId

/-- The estimate of an engine's clock, `timediff` seconds after it showed `engineTime`. -/
def extrapolate (engineBoot engineTime : Nat) (timediff : Int) : Nat × Nat :=
  if timediff > Int.bmod (ENGINETIME_MAX - engineTime) (2 ^ 32) then
    (if engineBoot < ENGINEBOOT_MAX then engineBoot + 1 else engineBoot,
      ((timediff - (ENGINETIME_MAX - engineTime)) % 2 ^ 32).toNat)
  else (engineBoot, ((engineTime + timediff) % 2 ^ 32).toNat)

/-- `Engine_getEx`: the boots, the estimated time and the time last received. -/
def getEx (clock : Nat) (s : Clocks) (engineId : List UInt8) (authenticated : Bool) :
    Option (Nat × Nat × Nat) × Clocks :=
  match searchInList scapiHash s.engines engineId with
  | none => (none, s)
  | some e =>
    if ¬ authenticated ∨ e.authenticatedFlag then
      let (now, v3) := s.v3.localEngineTime clock
      let timediff := Int.bmod (now - e.lastReceivedEngineTime) (2 ^ 32)
      let estimate := extrapolate e.engineBoot e.engineTime timediff
      (some (estimate.1, estimate.2, e.engineTime), { s with v3 := v3 })
    else
      let estimate := extrapolate 0 0 0
      (some (estimate.1, estimate.2, 0), s)

/-- Change the first record with an engine ID. -/
def modifyFirst (engineId : List UInt8) (f : Engine → Engine) : List Engine → List Engine
  | [] => []
  | e :: rest => if e.engineId = engineId then f e :: rest else e :: modifyFirst engineId f rest

/-- A record that is not there is created in front of the others. -/
def created (engineId : List UInt8) : Option Engine → List Engine → List Engine
  | none, es => ⟨engineId, 0, 0, 0, false⟩ :: es
  | some _, es => es

/-- A record that has just been received. -/
def Engine.stamp (engineBoot engineTime now : Nat) (authenticated : Bool) (e : Engine) : Engine :=
  ⟨e.engineId, engineBoot, engineTime, now, authenticated⟩

def set (clock : Nat) (s : Clocks) (engineId : List UInt8) (engineBoot engineTime : Nat) (authenticated : Bool) :
    ErrorCode × Clocks :=
  if engineId = [] then (.success, s)
  else match hashEngineId scapiHash engineId with
  | none => (.genErr, s)
  | some i =>
    let es := created engineId (searchInList scapiHash s.engines engineId) (s.engines i)
    let old : Engine := (searchInList scapiHash s.engines engineId).getD ⟨engineId, 0, 0, 0, false⟩
    if authenticated ∨ ¬ old.authenticatedFlag then
      let (now, v3) := s.v3.localEngineTime clock
      (.success, ⟨v3, Function.update s.engines i
        (modifyFirst engineId (Engine.stamp engineBoot engineTime now authenticated) es)⟩)
    else (.success, { s with engines := Function.update s.engines i es })

end

/-! ## what is found behind a change -/

variable {scapiHash : List UInt8 → Option (List UInt8)} {engines : EngineList} {s : Clocks} {clock : Nat}
  {id other : List UInt8} {boots time : Nat} {authenticated : Bool} {e : Engine}

@[simp] theorem Engine.stamp_engineId (engineBoot engineTime now : Nat) (authenticated : Bool) (e : Engine) :
    (e.stamp engineBoot engineTime now authenticated).engineId = e.engineId := rfl

theorem find_modifyFirst_self {f : Engine → Engine} (hf : ∀ e, (f e).engineId = e.engineId) (es : List Engine) :
    (modifyFirst id f es).find? (fun e => e.engineId = id) = (es.find? fun e => e.engineId = id).map f := by
  induction es with
  | nil => rfl
  | cons e rest ih =>
    rw [modifyFirst]
    by_cases h : e.engineId = id
    · rw [if_pos h, find?_cons_of_pos (by simpa [hf] using h), find?_cons_of_pos (by simpa using h)]
      rfl
    · rw [if_neg h, find?_cons_of_neg (by simpa using h), find?_cons_of_neg (by simpa using h), ih]

theorem find_modifyFirst_of_ne {f : Engine → Engine} (hf : ∀ e, (f e).engineId = e.engineId) (hne : other ≠ id)
    (es : List Engine) :
    (modifyFirst id f es).find? (fun e => e.engineId = other) = es.find? fun e => e.engineId = other := by
  induction es with
  | nil => rfl
  | cons e rest ih =>
    rw [modifyFirst]
    by_cases h : e.engineId = id
    · have hother : e.engineId ≠ other := fun heq => hne (heq.symm.trans h)
      rw [if_pos h, find?_cons_of_neg (by simpa [hf] using hother),
        find?_cons_of_neg (by simpa using hother)]
    · rw [if_neg h]
      by_cases hother : e.engineId = other
      · rw [find?_cons_of_pos (by simpa using hother), find?_cons_of_pos (by simpa using hother)]
      · rw [find?_cons_of_neg (by simpa using hother), find?_cons_of_neg (by simpa using hother), ih]

theorem modifyFirst_self {f : Engine → Engine} {es : List Engine}
    (h : ∀ e, es.find? (fun e => e.engineId = id) = some e → f e = e) : modifyFirst id f es = es := by
  induction es with
  | nil => rfl
  | cons e rest ih =>
    rw [modifyFirst]
    by_cases hid : e.engineId = id
    · rw [if_pos hid, h e (find?_cons_of_pos (by simpa using hid))]
    · rw [if_neg hid, ih fun e' he' => h e' (by rwa [find?_cons_of_neg (by simpa using hid)])]

theorem find_created_of_ne (hne : other ≠ id) (o : Option Engine) (es : List Engine) :
    (created id o es).find? (fun e => e.engineId = other) = es.find? fun e => e.engineId = other := by
  cases o with
  | none => exact find?_cons_of_neg (by simpa using hne.symm)
  | some _ => rfl

theorem searchInList_eq_some (h : searchInList scapiHash engines id = some e) :
    id ≠ [] ∧ e.engineId = id ∧ ∃ i, hashEngineId scapiHash id = some i ∧
      (engines i).find? (fun e => e.engineId = id) = some e := by
  obtain ⟨i, hi, hfind⟩ := Option.bind_eq_some_iff.mp h
  refine ⟨fun hnil => ?_, by simpa using find?_some hfind, i, hi, hfind⟩
  rw [hashEngineId, if_pos hnil] at hi
  exact nomatch hi

theorem searchInList_update_ne {i : Fin LIST_SIZE} {es : List Engine}
    (h : es.find? (fun e => e.engineId = other) = (engines i).find? fun e => e.engineId = other) :
    searchInList scapiHash (Function.update engines i es) other = searchInList scapiHash engines other := by
  unfold searchInList
  congr 1
  funext j
  by_cases hij : j = i
  · subst hij
    rw [Function.update_self, h]
  · rw [Function.update_of_ne hij]

theorem searchInList_update_self {i : Fin LIST_SIZE} {es : List Engine} (hi : hashEngineId scapiHash id = some i) :
    searchInList scapiHash (Function.update engines i es) id = es.find? fun e => e.engineId = id := by
  unfold searchInList
  rw [hi, Option.bind_some, Function.update_self]

theorem set_of_found (h : searchInList scapiHash s.engines id = some e)
    (hauth : authenticated = true ∨ e.authenticatedFlag = false) :
    (set scapiHash clock s id boots time authenticated).1 = .success ∧
      searchInList scapiHash (set scapiHash clock s id boots time authenticated).2.engines id =
        some ⟨id, boots, time, clock % 2 ^ 31, authenticated⟩ := by
  obtain ⟨hne, hid, i, hi, hfind⟩ := searchInList_eq_some h
  have hold : authenticated = true ∨ ¬ e.authenticatedFlag = true := by
    rcases hauth with hauth | hauth
    · exact .inl hauth
    · exact .inr (by rw [hauth]; exact Bool.false_ne_true)
  unfold set
  rw [if_neg hne, hi]
  simp only [h, Option.getD_some, created]
  rw [if_pos hold]
  refine ⟨rfl, ?_⟩
  show searchInList scapiHash (Function.update s.engines i _) id = _
  rw [searchInList_update_self hi, find_modifyFirst_self (Engine.stamp_engineId _ _ _ _), hfind, Option.map_some,
    Engine.stamp, hid]
  rfl

theorem set_of_ne (hne : other ≠ id) :
    searchInList scapiHash (set scapiHash clock s id boots time authenticated).2.engines other =
      searchInList scapiHash s.engines other := by
  unfold set
  by_cases hnil : id = []
  · rw [if_pos hnil]
  rw [if_neg hnil]
  cases hi : hashEngineId scapiHash id with
  | none => rfl
  | some i =>
    simp only []
    split
    · refine searchInList_update_ne ?_
      rw [find_modifyFirst_of_ne (Engine.stamp_engineId _ _ _ _) hne]
      exact find_created_of_ne hne _ _
    · exact searchInList_update_ne (find_created_of_ne hne _ _)

theorem set_same (h : searchInList scapiHash s.engines id = some e)
    (hsame : e = ⟨e.engineId, boots, time, clock % 2 ^ 31, true⟩) :
    (set scapiHash clock s id boots time true).2.engines = s.engines := by
  obtain ⟨hne, hid, i, hi, hfind⟩ := searchInList_eq_some h
  unfold set
  rw [if_neg hne, hi]
  simp only [h, Option.getD_some, created]
  rw [if_pos (.inl trivial)]
  show Function.update s.engines i _ = _
  rw [modifyFirst_self, Function.update_eq_self]
  intro e' he'
  rw [hfind] at he'
  cases he'
  exact hsame.symm

theorem set_unauthenticated (h : searchInList scapiHash s.engines id = some e) (hauth : e.authenticatedFlag = true) :
    searchInList scapiHash (set scapiHash clock s other boots time false).2.engines id = some e := by
  by_cases hne : id = other
  · subst hne
    obtain ⟨hne, -, i, hi, -⟩ := searchInList_eq_some h
    have hold : ¬ (false = true ∨ ¬ e.authenticatedFlag = true) := by
      rintro (hfalse | hnot)
      · exact nomatch hfalse
      · exact hnot hauth
    unfold set
    rw [if_neg hne, hi]
    simp only [h, Option.getD_some, created]
    rw [if_neg hold]
    show searchInList scapiHash (Function.update s.engines i (s.engines i)) id = some e
    rw [Function.update_eq_self, h]
  · rw [set_of_ne hne, h]

end Priot.Usm
