/-
# The engines as a map

The 23 lists of records are a map from engine IDs. `Engine_free` takes a whole list away, so the map is what it should
be as long as the list holds no record of another engine.
-/
import Priot.Usm.Engine
import Mathlib.Data.List.Induction
import Mathlib.Data.List.Infix

namespace Priot.Usm

open List

/-! ## `Engine_free` and `Engine_clear` -/

/-- Take the first record away until there is none. -/
def freeRecords : List Engine → List Engine
  | [] => []
  | _ :: next => freeRecords next

def free (scapiHash : List UInt8 → Option (List UInt8)) (s : Clocks) (engineId : List UInt8) : Clocks :=
  match hashEngineId scapiHash engineId with
  | none => s
  | some i => { s with engines := Function.update s.engines i (freeRecords (s.engines i)) }

def clear (s : Clocks) : Clocks := { s with engines := fun i => freeRecords (s.engines i) }

/-- A call that changes the lists, `clock` seconds after `V3_initV3` where it matters. -/
inductive Call
  | set (clock : Nat) (engineId : List UInt8) (engineBoot engineTime : Nat) (authenticated : Bool)
  | free (engineId : List UInt8)
  | clear

def Call.step (scapiHash : List UInt8 → Option (List UInt8)) (s : Clocks) : Call → Clocks
  | .set clock engineId engineBoot engineTime authenticated =>
    (Usm.set scapiHash clock s engineId engineBoot engineTime authenticated).2
  | .free engineId => Usm.free scapiHash s engineId
  | .clear => Usm.clear s

/-- What the calls make of lists that are empty. -/
def Call.run (scapiHash : List UInt8 → Option (List UInt8)) (v3 : V3) (calls : List Call) : Clocks :=
  calls.foldl (Call.step scapiHash) ⟨v3, fun _ => []⟩

/-! ## what it is meant to be -/

/-- The record of each engine. -/
abbrev EngineMap : Type := List UInt8 → Option Engine

/-- A record that is authenticated is changed only by what is authenticated. -/
def admits (authenticated : Bool) (o : Option Engine) : Bool := o.all fun e => authenticated || !e.authenticatedFlag

/-- One call on the map. An engine ID without a hash is not set. -/
def Call.onMap (scapiHash : List UInt8 → Option (List UInt8)) (m : EngineMap) : Call → EngineMap
  | .set clock engineId engineBoot engineTime authenticated =>
    if (hashEngineId scapiHash engineId).isSome ∧ admits authenticated (m engineId) then
      Function.update m engineId (some ⟨engineId, engineBoot, engineTime, clock % 2 ^ 31, authenticated⟩)
    else m
  | .free engineId => Function.update m engineId none
  | .clear => fun _ => none

/-- The records last set and not freed or cleared since. -/
def Call.runMap (scapiHash : List UInt8 → Option (List UInt8)) (calls : List Call) : EngineMap :=
  calls.foldl (Call.onMap scapiHash) fun _ => none

/-- The list of an engine holds no record of another. -/
def Alone (scapiHash : List UInt8 → Option (List UInt8)) (engines : EngineList) (engineId : List UInt8) : Prop :=
  ∀ i, hashEngineId scapiHash engineId = some i → ∀ e ∈ engines i, e.engineId = engineId

/-! ## every record is in its list -/

/-- A record is in the list that the hash of its engine ID names. -/
def Bucketed (scapiHash : List UInt8 → Option (List UInt8)) (engines : EngineList) : Prop :=
  ∀ i, ∀ e ∈ engines i, hashEngineId scapiHash e.engineId = some i

variable {scapiHash : List UInt8 → Option (List UInt8)} {engines : EngineList} {s : Clocks} {clock : Nat}
  {id other : List UInt8} {boots time : Nat} {authenticated : Bool}

@[simp] theorem freeRecords_eq_nil (es : List Engine) : freeRecords es = [] := by
  induction es with
  | nil => rfl
  | cons e next ih => exact ih

theorem Bucketed.update (h : Bucketed scapiHash engines) {i : Fin LIST_SIZE} {es : List Engine}
    (hes : ∀ e ∈ es, hashEngineId scapiHash e.engineId = some i) :
    Bucketed scapiHash (Function.update engines i es) := by
  intro j e he
  by_cases hij : j = i
  · subst hij
    rw [Function.update_self] at he
    exact hes e he
  · rw [Function.update_of_ne hij] at he
    exact h j e he

theorem mem_modifyFirst {f : Engine → Engine} {e : Engine} {es : List Engine} (h : e ∈ modifyFirst id f es) :
    e ∈ es ∨ ∃ e' ∈ es, e = f e' := by
  induction es with
  | nil => exact .inl h
  | cons a rest ih =>
    rw [modifyFirst] at h
    split at h
    · rcases mem_cons.mp h with rfl | h
      · exact .inr ⟨a, mem_cons_self, rfl⟩
      · exact .inl (mem_cons_of_mem a h)
    · rcases mem_cons.mp h with rfl | h
      · exact .inl mem_cons_self
      · rcases ih h with h | ⟨e', he', rfl⟩
        · exact .inl (mem_cons_of_mem a h)
        · exact .inr ⟨e', mem_cons_of_mem a he', rfl⟩

theorem mem_created {o : Option Engine} {e : Engine} {es : List Engine} (h : e ∈ created id o es) :
    e ∈ es ∨ e.engineId = id := by
  cases o with
  | none =>
    rcases mem_cons.mp h with rfl | h
    · exact .inr rfl
    · exact .inl h
  | some _ => exact .inl h

theorem Bucketed.set (h : Bucketed scapiHash s.engines) :
    Bucketed scapiHash (set scapiHash clock s id boots time authenticated).2.engines := by
  unfold Usm.set
  by_cases hnil : id = []
  · rw [if_pos hnil]
    exact h
  rw [if_neg hnil]
  cases hi : hashEngineId scapiHash id with
  | none => exact h
  | some i =>
    have hcreated : ∀ o, ∀ e ∈ created id o (s.engines i), hashEngineId scapiHash e.engineId = some i := by
      intro o e he
      rcases mem_created he with he | hid
      · exact h i e he
      · rw [hid, hi]
    simp only []
    split
    · refine h.update fun e he => ?_
      rcases mem_modifyFirst he with he | ⟨e', he', rfl⟩
      · exact hcreated _ e he
      · exact hcreated _ e' he'
    · exact h.update (hcreated _)

theorem Bucketed.step (h : Bucketed scapiHash s.engines) (call : Call) :
    Bucketed scapiHash (call.step scapiHash s).engines := by
  cases call with
  | set clock id boots time authenticated => exact h.set
  | free id =>
    show Bucketed scapiHash (free scapiHash s id).engines
    unfold free
    split
    · exact h
    · refine h.update fun e he => ?_
      rw [freeRecords_eq_nil] at he
      exact absurd he not_mem_nil
  | clear =>
    intro i e he
    rw [show (Call.clear.step scapiHash s).engines i = [] from freeRecords_eq_nil _] at he
    exact absurd he not_mem_nil

/-! ## one call -/

theorem set_of_notFound (hsome : (hashEngineId scapiHash id).isSome) (h : searchInList scapiHash s.engines id = none) :
    searchInList scapiHash (set scapiHash clock s id boots time authenticated).2.engines id =
      some ⟨id, boots, time, clock % 2 ^ 31, authenticated⟩ := by
  obtain ⟨i, hi⟩ := Option.isSome_iff_exists.mp hsome
  have hnil : id ≠ [] := by
    rintro rfl
    cases hi
  have hnew : authenticated = true ∨ ¬ (⟨id, 0, 0, 0, false⟩ : Engine).authenticatedFlag = true :=
    .inr Bool.false_ne_true
  unfold set
  rw [if_neg hnil, hi]
  simp only [h, Option.getD_none, created]
  rw [if_pos hnew]
  show searchInList scapiHash (Function.update s.engines i _) id = _
  rw [searchInList_update_self hi, find_modifyFirst_self (Engine.stamp_engineId _ _ _ _),
    find?_cons_of_pos (by simp)]
  rfl

theorem set_of_not_admits (h : ¬ ((hashEngineId scapiHash id).isSome ∧
      admits authenticated (searchInList scapiHash s.engines id))) :
    searchInList scapiHash (set scapiHash clock s id boots time authenticated).2.engines id =
      searchInList scapiHash s.engines id := by
  cases hi : hashEngineId scapiHash id with
  | none =>
    unfold set
    rw [hi]
    split <;> rfl
  | some i =>
    rw [hi] at h
    cases hfind : searchInList scapiHash s.engines id with
    | none =>
      rw [hfind] at h
      exact absurd ⟨rfl, rfl⟩ h
    | some e =>
      have hflag : authenticated = false ∧ e.authenticatedFlag = true := by
        rw [hfind] at h
        simpa [admits] using h
      rw [hflag.1]
      exact set_unauthenticated hfind hflag.2

theorem searchInList_set (other : List UInt8) :
    searchInList scapiHash (Call.step scapiHash s (.set clock id boots time authenticated)).engines other =
      Call.onMap scapiHash (searchInList scapiHash s.engines) (.set clock id boots time authenticated) other := by
  show searchInList scapiHash (set scapiHash clock s id boots time authenticated).2.engines other = _
  rw [Call.onMap]
  by_cases hne : other = id
  · subst hne
    by_cases hadmits : (hashEngineId scapiHash other).isSome ∧
        admits authenticated (searchInList scapiHash s.engines other)
    · rw [if_pos hadmits, Function.update_self]
      cases hfind : searchInList scapiHash s.engines other with
      | none => exact set_of_notFound hadmits.1 hfind
      | some e =>
        refine (set_of_found hfind ?_).2
        rw [hfind] at hadmits
        simpa [admits] using hadmits.2
    · rw [if_neg hadmits]
      exact set_of_not_admits hadmits
  · rw [set_of_ne hne]
    split
    · rw [Function.update_of_ne hne]
    · rfl

theorem searchInList_clear (id : List UInt8) :
    searchInList scapiHash (Call.step scapiHash s .clear).engines id = none := by
  have hnil : (clear s).engines = fun _ => [] := funext fun i => freeRecords_eq_nil _
  show searchInList scapiHash (clear s).engines id = none
  rw [hnil]
  unfold searchInList
  cases hashEngineId scapiHash id <;> rfl

theorem searchInList_free (other : List UInt8) : (hashEngineId scapiHash other = hashEngineId scapiHash id →
        searchInList scapiHash (free scapiHash s id).engines other = none) ∧
      (hashEngineId scapiHash other ≠ hashEngineId scapiHash id →
        searchInList scapiHash (free scapiHash s id).engines other = searchInList scapiHash s.engines other) := by
  unfold free searchInList
  cases hid : hashEngineId scapiHash id with
  | none =>
    refine ⟨fun heq => ?_, fun _ => rfl⟩
    rw [heq]
    rfl
  | some i =>
    refine ⟨fun heq => ?_, fun hne => ?_⟩
    · rw [heq, Option.bind_some]
      show (Function.update s.engines i (freeRecords (s.engines i)) i).find? _ = none
      rw [Function.update_self, freeRecords_eq_nil]
      rfl
    · cases hother : hashEngineId scapiHash other with
      | none => rfl
      | some j =>
        have hij : j ≠ i := by
          rintro rfl
          exact hne hother
        rw [Option.bind_some, Option.bind_some]
        show (Function.update s.engines i (freeRecords (s.engines i)) j).find? _ = _
        rw [Function.update_of_ne hij]

/-- To free a record is to free it in the map if and only if its list holds no record of another engine. -/
theorem searchInList_free_iff (hb : Bucketed scapiHash s.engines) :
    (∀ other, searchInList scapiHash (Call.step scapiHash s (.free id)).engines other =
        Call.onMap scapiHash (searchInList scapiHash s.engines) (.free id) other) ↔ Alone scapiHash s.engines id := by
  constructor
  · intro h i hi e he
    by_contra hne
    have hhash : hashEngineId scapiHash e.engineId = hashEngineId scapiHash id := by rw [hb i e he, hi]
    have hgone := (searchInList_free (s := s) e.engineId).1 hhash
    have hkept : searchInList scapiHash s.engines e.engineId = none := by
      have heq := h e.engineId
      rw [show Call.onMap scapiHash (searchInList scapiHash s.engines) (.free id) e.engineId =
        searchInList scapiHash s.engines e.engineId from Function.update_of_ne hne _ _] at heq
      rw [← heq]
      exact hgone
    -- But the record is in the list that is searched.
    rw [searchInList, hb i e he, Option.bind_some, find?_eq_none] at hkept
    exact hkept e he (by simp)
  · intro h other
    show searchInList scapiHash (free scapiHash s id).engines other =
      Function.update (searchInList scapiHash s.engines) id none other
    by_cases hne : other = id
    · subst hne
      rw [Function.update_self]
      exact (searchInList_free other).1 rfl
    · rw [Function.update_of_ne hne]
      by_cases hhash : hashEngineId scapiHash other = hashEngineId scapiHash id
      · rw [(searchInList_free other).1 hhash]
        -- A list with records of `id` alone has none of `other`.
        unfold searchInList
        cases hother : hashEngineId scapiHash other with
        | none => rfl
        | some i =>
          rw [Option.bind_some, eq_comm, find?_eq_none]
          intro e he hid
          refine hne ?_
          rw [← h i (by rw [← hhash, hother]) e he]
          exact (of_decide_eq_true hid).symm
      · exact (searchInList_free other).2 hhash

/-! ## all calls -/

theorem Bucketed.run (v3 : V3) (calls : List Call) : Bucketed scapiHash (Call.run scapiHash v3 calls).engines := by
  induction calls using reverseRecOn with
  | nil => exact fun i e he => absurd he not_mem_nil
  | append_singleton prior call ih =>
    rw [Call.run, foldl_concat]
    exact ih.step call

/-- What is found is what was last set for exactly this engine ID, in every state that calls lead to, if and only if
no call frees a list with a record of another engine. -/
theorem searchInList_run_iff (v3 : V3) (calls : List Call) :
    (∀ prior, prior <+: calls → ∀ id,
        searchInList scapiHash (Call.run scapiHash v3 prior).engines id = Call.runMap scapiHash prior id) ↔
      ∀ prior id, prior ++ [.free id] <+: calls → Alone scapiHash (Call.run scapiHash v3 prior).engines id := by
  induction calls using reverseRecOn with
  | nil =>
    refine ⟨fun _ prior id h => ?_, fun _ prior h id => ?_⟩
    · exact absurd (prefix_nil.mp h) (append_ne_nil_of_right_ne_nil _ (cons_ne_nil _ _))
    · obtain rfl := prefix_nil.mp h
      unfold searchInList
      cases hashEngineId scapiHash id <;> rfl
  | append_singleton calls call ih =>
    have hrun : Call.run scapiHash v3 (calls ++ [call]) = call.step scapiHash (Call.run scapiHash v3 calls) :=
      foldl_concat _ _ _ _
    have hmap : Call.runMap scapiHash (calls ++ [call]) = call.onMap scapiHash (Call.runMap scapiHash calls) :=
      foldl_concat _ _ _ _
    constructor
    · intro h prior id hprior
      rcases prefix_concat_iff.mp hprior with heq | hprior
      · obtain ⟨rfl, hcall⟩ := append_inj' heq rfl
        obtain rfl : Call.free id = call := head_eq_of_cons_eq hcall
        have hbefore := funext (h prior (prefix_append _ _))
        refine (searchInList_free_iff (.run v3 prior)).mp fun other => ?_
        rw [← hrun, hbefore, ← hmap]
        exact h _ (prefix_refl _) other
      · refine ih.mp (fun prior hprior => h prior ?_) prior id hprior
        exact hprior.trans (prefix_append _ _)
    · intro h prior hprior
      have hbefore := ih.mpr fun prior id hprior => h prior id (hprior.trans (prefix_append _ _))
      rcases prefix_concat_iff.mp hprior with rfl | hprior
      · have hsearch := funext (hbefore calls (prefix_refl _))
        intro id
        rw [hrun, hmap, ← hsearch]
        cases call with
        | set clock engineId boots time authenticated => exact searchInList_set id
        | free engineId => exact (searchInList_free_iff (.run v3 calls)).mpr (h calls engineId (prefix_refl _)) id
        | clear => exact searchInList_clear id
      · exact hbefore prior hprior

/-- The MD5 digests of two engine IDs whose records are in one list. -/
def digests (engineId : List UInt8) : Option (List UInt8) :=
  if engineId = [0x80, 0, 0, 0, 1, 2] then
    some [238, 208, 217, 109, 189, 18, 49, 15, 86, 236, 144, 82, 235, 18, 238, 49]
  else if engineId = [0x80, 0, 0, 0, 1, 3] then
    some [69, 63, 160, 231, 83, 10, 20, 191, 7, 134, 44, 112, 221, 48, 237, 196]
  else none

/-- The record of one engine is lost when the other is freed. -/
theorem searchInList_run_two :
    searchInList digests (Call.run digests ⟨[1], 0, 0⟩ [.set 3 [0x80, 0, 0, 0, 1, 2] 1 5 true,
        .set 4 [0x80, 0, 0, 0, 1, 3] 2 7 true, .free [0x80, 0, 0, 0, 1, 2]]).engines [0x80, 0, 0, 0, 1, 3] = none ∧
      Call.runMap digests [.set 3 [0x80, 0, 0, 0, 1, 2] 1 5 true, .set 4 [0x80, 0, 0, 0, 1, 3] 2 7 true,
        .free [0x80, 0, 0, 0, 1, 2]] [0x80, 0, 0, 0, 1, 3] = some ⟨[0x80, 0, 0, 0, 1, 3], 2, 7, 4, true⟩ := by
  refine ⟨?_, ?_⟩
  · decide
  · decide

end Priot.Usm
