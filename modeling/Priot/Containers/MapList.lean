/-
# Enumeration maps

A map of strings is a list of keys and values in the order of their insertion. `MapList` holds named maps in which the
key of a label is the decimal numeral of its value, written by `sprintf` into a buffer of eight characters.
-/
import Priot.Lib.CText

namespace Priot.Containers

open Lib List

/-! ## maps -/

/-- A map from its head on; `NULL` is the empty one. -/
abbrev Map (α : Type) := List (Text × α)

def mapAt {α : Type} : Map α → Text → Option α
  | [], _ => none
  | (key, value) :: next, k => if key = k then some value else mapAt next k

/-- `Map_insert`. A key that is there already is only logged. -/
def mapInsert {α : Type} : Map α → Text × α → Map α
  | [], element => [element]
  | ptr :: next, element => ptr :: mapInsert next element

def mapEmplace {α : Type} (mapHead : Map α) (key : Text) (value : α) : Map α := mapInsert mapHead (key, value)

theorem mapInsert_eq {α : Type} (head : Map α) (element : Text × α) : mapInsert head element = head ++ [element] := by
  induction head with
  | nil => rfl
  | cons ptr next ih => rw [mapInsert, ih, cons_append]

/-! ## named maps -/

namespace MapList

def SUCCESS : Int32 := 0
def ALREADY_EXIST : Int32 := 2
def NULL : Int32 := -2

/-- `struct MapList_s`. -/
structure Named where
  name : Text
  map : Map Text

abbrev Storage := List Named

/-- `char key[ 8 ]; sprintf( key, "%d", value )`, unless that leaves the buffer. -/
def sprintfKey (value : Int32) : Option Text :=
  let text := signedDecimal value.toInt
  if text.length < 8 then some text else none

def find : Storage → Text → Map Text
  | [], _ => []
  | sptr :: next, mapName => if sptr.name = mapName then sptr.map else find next mapName

/-- The nodes that are found under a name are now these. -/
def update : Storage → Text → Map Text → Storage
  | [], _, _ => []
  | sptr :: next, mapName, map =>
    if sptr.name = mapName then { sptr with map := map } :: next else sptr :: update next mapName map

/-- `_MapList_findLabel`. -/
def mapFindLabel (map : Map Text) (value : Int32) : Option (Option Text) :=
  if map = [] then some none else (sprintfKey value).map fun key => mapAt map key

/-- `_MapList_findValue`. -/
def mapFindValue : Map Text → Text → Int32
  | [], _ => NULL
  | (key, value) :: next, label => if value = label then atoi key else mapFindValue next label

/-- `_MapList_addPair`. -/
def mapAddPair (map : Map Text) (label : Text) (value : Int32) : Option (Int32 × Map Text) :=
  (sprintfKey value).map fun key =>
    if mapAt map key ≠ none then (ALREADY_EXIST, map) else (SUCCESS, mapEmplace map key label)

/-- `MapList_addPair`. Elements go to the end, so that the head of a map that was there stays the same. -/
def addPair (storage : Storage) (mapName label : Text) (value : Int32) : Option (Int32 × Storage) :=
  let map := find storage mapName
  (mapAddPair map label value).map fun r =>
    (r.1, if map = [] then ⟨mapName, r.2⟩ :: storage else update storage mapName r.2)

inductive Op where
  | addPair (mapName label : Text) (value : Int32)
  | findLabel (mapName : Text) (value : Int32)
  | findValue (mapName label : Text)
  | clear

/-- What an operation returns. -/
inductive Reply where
  | code (ret : Int32)
  | label (label : Option Text)
  | value (value : Int32)
  | void

/-- One operation; there is no result if it leaves the buffer of the key. -/
def step (storage : Storage) : Op → Option (Reply × Storage)
  | .addPair mapName label value => (addPair storage mapName label value).map fun r => (.code r.1, r.2)
  | .findLabel mapName value => (mapFindLabel (find storage mapName) value).map fun r => (.label r, storage)
  | .findValue mapName label => some (.value (mapFindValue (find storage mapName) label), storage)
  | .clear => some (.void, [])

/-- The replies to some operations. -/
def run : Storage → List Op → Option (List Reply)
  | _, [] => some []
  | storage, op :: ops => (step storage op).bind fun r => (run r.2 ops).map fun replies => r.1 :: replies

/-! ## two-way maps -/

/-- For every name the pairs of a value and its label, in the order in which they were added. -/
abbrev Enums := Text → List (Int32 × Text)

/-- The label of a value. -/
def Enums.label (enums : Enums) (mapName : Text) (value : Int32) : Option Text :=
  ((enums mapName).find? (·.1 = value)).map (·.2)

/-- The value of the first pair that has a label. -/
def Enums.value (enums : Enums) (mapName label : Text) : Int32 :=
  (((enums mapName).find? (·.2 = label)).map (·.1)).getD NULL

def Enums.step (enums : Enums) : Op → Reply × Enums
  | .addPair mapName label value =>
    if enums.label mapName value = none then
      (.code SUCCESS, Function.update enums mapName (enums mapName ++ [(value, label)]))
    else (.code ALREADY_EXIST, enums)
  | .findLabel mapName value => (.label (enums.label mapName value), enums)
  | .findValue mapName label => (.value (enums.value mapName label), enums)
  | .clear => (.void, fun _ => [])

def Enums.run : Enums → List Op → List Reply
  | _, [] => []
  | enums, op :: ops => (enums.step op).1 :: Enums.run (enums.step op).2 ops

/-- A value whose numeral has at most seven characters. -/
def Fits (value : Int32) : Prop := -999999 ≤ value.toInt ∧ value.toInt ≤ 9999999

/-- Values are written only for pairs to be added and for lookups in maps that are there. -/
def Enums.OpFits (enums : Enums) : Op → Prop
  | .addPair _ _ value => Fits value
  | .findLabel mapName value => enums mapName = [] ∨ Fits value
  | .findValue _ _ => True
  | .clear => True

/-- Every value that is written by one of the operations fits. -/
def Enums.AllFit : Enums → List Op → Prop
  | _, [] => True
  | enums, op :: ops => enums.OpFits op ∧ Enums.AllFit (enums.step op).2 ops

/-! ## keys -/

theorem signedDecimal_inj {v w : Int32} (h : signedDecimal v.toInt = signedDecimal w.toInt) : v = w := by
  have hstop : Lib.Stops [] := fun _ hc => nomatch hc
  have hv := atoi_signedDecimal v hstop
  have hw := atoi_signedDecimal w hstop
  rw [h, hw] at hv
  exact hv.symm

theorem length_decimal_le_iff {n k : Nat} : (decimal n).length ≤ k + 1 ↔ n < 10 ^ (k + 1) := by
  constructor
  · intro h
    have hlt : n < 10 ^ (decimal n).length := Lib.lt_pow_length_numeral (by omega) (Nat.le_refl n)
    exact Nat.lt_of_lt_of_le hlt (Nat.pow_le_pow_right (by omega) h)
  · exact Lib.length_numeral_le k

theorem length_signedDecimal_lt (v : Int32) : (signedDecimal v.toInt).length < 8 ↔ Fits v := by
  unfold signedDecimal Fits
  split
  · have h := @length_decimal_le_iff v.toInt.natAbs 5
    rw [length_cons]
    omega
  · have h := @length_decimal_le_iff v.toInt.natAbs 6
    omega

theorem sprintfKey_eq {value : Int32} (h : Fits value) : sprintfKey value = some (signedDecimal value.toInt) :=
  if_pos ((length_signedDecimal_lt value).2 h)

theorem sprintfKey_eq_none {value : Int32} (h : ¬ Fits value) : sprintfKey value = none :=
  if_neg fun hlt => h ((length_signedDecimal_lt value).1 hlt)

/-- The element of a pair. -/
def element (p : Int32 × Text) : Text × Text := (signedDecimal p.1.toInt, p.2)

theorem mapAt_elements (ps : List (Int32 × Text)) (v : Int32) :
    mapAt (ps.map element) (signedDecimal v.toInt) = (ps.find? (·.1 = v)).map (·.2) := by
  induction ps with
  | nil => rfl
  | cons p ps ih =>
    rw [map_cons, element, mapAt, find?_cons]
    by_cases hp : p.1 = v
    · rw [if_pos (congrArg (fun v : Int32 => signedDecimal v.toInt) hp), decide_eq_true hp]
      rfl
    · rw [if_neg fun h => hp (signedDecimal_inj h), decide_eq_false hp]
      exact ih

theorem mapFindValue_elements (ps : List (Int32 × Text)) (label : Text) :
    mapFindValue (ps.map element) label = ((ps.find? (·.2 = label)).map (·.1)).getD NULL := by
  induction ps with
  | nil => rfl
  | cons p ps ih =>
    rw [map_cons, element, mapFindValue, find?_cons]
    by_cases hp : p.2 = label
    · have hread := atoi_signedDecimal p.1 (t := []) fun _ hc => nomatch hc
      rw [append_nil] at hread
      rw [if_pos hp, decide_eq_true hp, hread]
      rfl
    · rw [if_neg hp, decide_eq_false hp]
      exact ih

/-! ## operations -/

variable {storage : Storage} {enums : Enums}

theorem find_update {mapName : Text} (h : find storage mapName ≠ []) (map : Map Text) (k : Text) :
    find (update storage mapName map) k = if k = mapName then map else find storage k := by
  induction storage with
  | nil => exact absurd rfl h
  | cons sptr next ih =>
    rw [find] at h
    rw [update]
    by_cases hname : sptr.name = mapName
    · rw [if_pos hname, find, find]
      by_cases hk : k = mapName
      · rw [if_pos (hname.trans hk.symm), if_pos hk]
      · rw [if_neg fun heq => hk (heq.symm.trans hname), if_neg hk, if_neg fun heq => hk (heq.symm.trans hname)]
    · rw [if_neg hname] at h
      rw [if_neg hname, find, find, ih h]
      by_cases hk : sptr.name = k
      · rw [if_pos hk, if_pos hk, if_neg fun heq => hname (hk.trans heq)]
      · rw [if_neg hk, if_neg hk]

/-- The maps hold the pairs of every name, in their order. -/
def Holds (storage : Storage) (enums : Enums) : Prop := ∀ mapName, find storage mapName = (enums mapName).map element

theorem Holds.mapAt (h : Holds storage enums) (mapName : Text) (value : Int32) :
    mapAt (find storage mapName) (signedDecimal value.toInt) = enums.label mapName value := by
  rw [h, mapAt_elements]
  rfl

theorem Holds.add (h : Holds storage enums) (mapName label : Text) (value : Int32) : Holds
      (if find storage mapName = [] then
        ⟨mapName, mapEmplace (find storage mapName) (signedDecimal value.toInt) label⟩ :: storage
      else update storage mapName (mapEmplace (find storage mapName) (signedDecimal value.toInt) label))
      (Function.update enums mapName (enums mapName ++ [(value, label)])) := by
  intro k
  have hnew : mapEmplace (find storage mapName) (signedDecimal value.toInt) label =
      (enums mapName ++ [(value, label)]).map element := by
    rw [mapEmplace, mapInsert_eq, h mapName, map_append]
    rfl
  rw [hnew, Function.update_apply]
  by_cases hcreated : find storage mapName = []
  · rw [if_pos hcreated, find]
    by_cases hk : k = mapName
    · rw [if_pos hk.symm, if_pos hk]
    · rw [if_neg fun heq => hk heq.symm, if_neg hk]
      exact h k
  · rw [if_neg hcreated, find_update hcreated]
    by_cases hk : k = mapName
    · rw [if_pos hk, if_pos hk]
    · rw [if_neg hk, if_neg hk]
      exact h k

theorem update_self (mapName : Text) : update storage mapName (find storage mapName) = storage := by
  induction storage with
  | nil => rfl
  | cons sptr next ih =>
    rw [update, find]
    by_cases hname : sptr.name = mapName
    · rw [if_pos hname, if_pos hname]
    · rw [if_neg hname, if_neg hname, ih]

theorem addPair_spec (h : Holds storage enums) (mapName label : Text) {value : Int32} (hfits : Fits value) :
    ∃ storage', step storage (.addPair mapName label value) =
        some ((enums.step (.addPair mapName label value)).1, storage') ∧
      Holds storage' (enums.step (.addPair mapName label value)).2 := by
  have hat := h.mapAt mapName value
  simp only [step, addPair, mapAddPair, sprintfKey_eq hfits, Option.map_some, hat, Enums.step]
  by_cases hlabel : enums.label mapName value = none
  · rw [if_neg fun hne => hne hlabel, if_pos hlabel]
    exact ⟨_, rfl, h.add mapName label value⟩
  · have hcreated : find storage mapName ≠ [] := by
      intro hnil
      rw [hnil, Containers.mapAt] at hat
      exact hlabel hat.symm
    rw [if_pos hlabel, if_neg hlabel]
    refine ⟨storage, ?_, h⟩
    rw [if_neg hcreated, update_self]

theorem step_spec (h : Holds storage enums) {op : Op} (hfits : enums.OpFits op) :
    ∃ storage', step storage op = some ((enums.step op).1, storage') ∧ Holds storage' (enums.step op).2 := by
  cases op with
  | addPair mapName label value => exact addPair_spec h mapName label hfits
  | findLabel mapName value =>
    refine ⟨storage, ?_, h⟩
    rw [step, mapFindLabel]
    by_cases hmap : find storage mapName = []
    · have hat := h.mapAt mapName value
      rw [hmap, Containers.mapAt] at hat
      rw [if_pos hmap, Option.map_some, hat]
      rfl
    · have hvalue : Fits value := by
        refine hfits.resolve_left fun hnil => hmap ?_
        rw [h mapName, hnil]
        rfl
      rw [if_neg hmap, sprintfKey_eq hvalue, Option.map_some, Option.map_some, h.mapAt mapName value]
      rfl
  | findValue mapName label =>
    refine ⟨storage, ?_, h⟩
    rw [step, h mapName, mapFindValue_elements]
    rfl
  | clear => exact ⟨[], rfl, fun _ => rfl⟩

theorem step_eq_none (h : Holds storage enums) {op : Op} (hfits : ¬ enums.OpFits op) : step storage op = none := by
  cases op with
  | addPair mapName label value =>
    rw [step, addPair]
    simp only [mapAddPair, sprintfKey_eq_none hfits, Option.map_none]
  | findLabel mapName value =>
    have hmap : find storage mapName ≠ [] := by
      intro hnil
      rw [h mapName] at hnil
      exact hfits (.inl (map_eq_nil_iff.1 hnil))
    rw [step, mapFindLabel, if_neg hmap, sprintfKey_eq_none fun hvalue => hfits (.inr hvalue)]
    rfl
  | findValue _ _ => exact absurd trivial hfits
  | clear => exact absurd trivial hfits

theorem run_eq_iff (h : Holds storage enums) (ops : List Op) :
    run storage ops = some (enums.run ops) ↔ enums.AllFit ops := by
  induction ops generalizing storage enums with
  | nil => exact ⟨fun _ => trivial, fun _ => rfl⟩
  | cons op ops ih =>
    rw [run, Enums.run, Enums.AllFit]
    by_cases hfits : enums.OpFits op
    · obtain ⟨storage', hstep, hholds⟩ := step_spec h hfits
      have hrest := ih hholds
      rw [hstep, Option.bind_some, Option.map_eq_some_iff]
      constructor
      · rintro ⟨replies, hreplies, heq⟩
        rw [(List.cons.inj heq).2] at hreplies
        exact ⟨hfits, hrest.1 hreplies⟩
      · rintro ⟨-, hall⟩
        exact ⟨_, hrest.2 hall, rfl⟩
    · rw [step_eq_none h hfits, Option.bind_none]
      exact ⟨fun heq => (nomatch heq), fun hall => absurd hall.1 hfits⟩

/-- For every sequence of operations: they reply as two-way maps do and stay within the buffers of the keys if and only
if every value that is written has a numeral of at most seven characters. -/
theorem mapList_run_iff (ops : List Op) :
    run [] ops = some (Enums.run (fun _ => []) ops) ↔ Enums.AllFit (fun _ => []) ops :=
  run_eq_iff (fun _ => rfl) ops

/-- `INT_MIN` has a numeral of eleven characters. -/
theorem not_mapList_run : ¬ ∀ ops, run [] ops = some (Enums.run (fun _ => []) ops) := by
  intro h
  have hrun := h [.addPair [109] [108] (-2147483648)]
  have hnone : run [] [.addPair [109] [108] (-2147483648)] = none := by decide
  rw [hnone] at hrun
  cases hrun

end MapList

end Priot.Containers
