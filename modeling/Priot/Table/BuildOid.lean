/-
# Names of table instances, and the arrays they are built in

A name is put together in an array of 128 subidentifiers: the root of the table, `1`, the column, and the index. The
functions are followed to the first subidentifier that would be written behind the array. `Mib_buildOidNoalloc` is
told the length in octets.
-/
import Priot.Agent.Session
import Priot.Mib.Index

namespace Priot.Table

open Agent Mib List

/-! ## the functions -/

/-- How a function that builds a name ends. -/
inductive Built
  | name (o : ObjId)
  | genErr
  | overrun
  deriving DecidableEq, Repr

/-- The end of a function that writes a name at once, which may not have room. -/
def Built.ofName : Option ObjId → Built
  | none => .overrun
  | some o => .name o

/-- The loop of `Mib_buildOidNoalloc`, writing to an array of so much space. -/
def buildLoop (space inLen : Nat) : ObjId → List IndexVar → Built
  | out, [] => .name out
  | out, var :: indexes =>
    match buildOidSegment var with
    | none => .genErr
    | some name =>
      if name.length + out.length ≤ inLen then
        if name.length + out.length ≤ space then buildLoop space inLen (out ++ name) indexes else .overrun
      else .genErr

def buildOidNoalloc (space inLen : Nat) (pre : Option ObjId) (indexes : List IndexVar) : Built :=
  match pre with
  | some pre =>
    if inLen < pre.length then .genErr
    else if space < pre.length then .overrun
    else buildLoop space inLen pre indexes
  | none => buildLoop space inLen [] indexes

/-- `sizeof` of an array of `TYPES_MAX_OID_LEN` subidentifiers. -/
def sizeofOids : Nat := TYPES_MAX_OID_LEN * SIZEOF_OID

def mibBuildOid (pre : Option ObjId) (indexes : List IndexVar) : Built :=
  buildOidNoalloc TYPES_MAX_OID_LEN sizeofOids pre indexes

def generateIndexOid (indexes : List IndexVar) : Built := mibBuildOid none indexes

def updateIndexesFromVariableList (indexes : List IndexVar) : Built :=
  buildOidNoalloc TYPES_MAX_OID_LEN sizeofOids none indexes

/-- The root, the entry, the column and more, written one after the other to an array of `asnMAX_OID_LEN`. -/
def fillName (rootoid : ObjId) (column : Oid) (rest : ObjId) : Option ObjId :=
  let name := rootoid ++ 1 :: column :: rest
  if name.length ≤ TYPES_MAX_OID_LEN then some name else none

def buildOid (rootoid : ObjId) (colnum : Oid) (indexes : List IndexVar) : Built :=
  match fillName rootoid colnum [] with
  | none => .overrun
  | some tmpoid => mibBuildOid (some tmpoid) indexes

def buildOidFromIndex (rootoid : ObjId) (colnum : Oid) (indexOid : ObjId) : Built :=
  .ofName (fillName rootoid colnum indexOid)

/-- `TableData_buildResult`: the name of the request's varbind, which is set for `GETNEXT` and `GETBULK`. -/
def buildResult (mode : Mode) (name rootoid : ObjId) (column : Oid) (indexOid : ObjId) : Built :=
  if mode = .getNext ∨ mode = .getBulk then .ofName (fillName rootoid column indexOid) else .name name

/-- A call of one of the functions. -/
inductive Call
  | generateIndexOid (indexes : List IndexVar)
  | updateIndexesFromVariableList (indexes : List IndexVar)
  | buildOid (rootoid : ObjId) (colnum : Oid) (indexes : List IndexVar)
  | buildOidFromIndex (rootoid : ObjId) (colnum : Oid) (indexOid : ObjId)
  | buildResult (mode : Mode) (name rootoid : ObjId) (column : Oid) (indexOid : ObjId)

def Call.run : Call → Built
  | .generateIndexOid indexes => Table.generateIndexOid indexes
  | .updateIndexesFromVariableList indexes => Table.updateIndexesFromVariableList indexes
  | .buildOid rootoid colnum indexes => Table.buildOid rootoid colnum indexes
  | .buildOidFromIndex rootoid colnum indexOid => Table.buildOidFromIndex rootoid colnum indexOid
  | .buildResult mode name rootoid column indexOid => Table.buildResult mode name rootoid column indexOid

/-! ## what fits -/

/-- The subidentifiers of the indexes, up to the first one that has none. -/
def segments : List IndexVar → ObjId
  | [] => []
  | var :: indexes =>
    match buildOidSegment var with
    | none => []
    | some name => name ++ segments indexes

/-- The root of a registered table leaves room for the entry and the column; the name of a request is one. -/
def Call.Registered : Call → Prop
  | .generateIndexOid _ | .updateIndexesFromVariableList _ => True
  | .buildOid rootoid _ _ | .buildOidFromIndex rootoid _ _ => rootoid.length ≤ 126
  | .buildResult _ name rootoid _ _ => name.length ≤ TYPES_MAX_OID_LEN ∧ rootoid.length ≤ 126

/-- What is written has room in the array. -/
def Call.Fits : Call → Prop
  | .generateIndexOid indexes | .updateIndexesFromVariableList indexes =>
    (segments indexes).length ≤ TYPES_MAX_OID_LEN
  | .buildOid rootoid _ indexes => rootoid.length + 2 + (segments indexes).length ≤ TYPES_MAX_OID_LEN
  | .buildOidFromIndex rootoid _ indexOid => rootoid.length + 2 + indexOid.length ≤ TYPES_MAX_OID_LEN
  | .buildResult mode _ rootoid _ indexOid =>
    (mode = .getNext ∨ mode = .getBulk) → rootoid.length + 2 + indexOid.length ≤ TYPES_MAX_OID_LEN

/-- Nothing is written behind the array, and a name that comes out has room in one. -/
def Built.Bounded (b : Built) : Prop := b ≠ .overrun ∧ ∀ o, b = .name o → o.length ≤ TYPES_MAX_OID_LEN

variable {var : IndexVar} {indexes : List IndexVar} {out name rootoid rest : ObjId} {column : Oid}

theorem length_le_of_buildOidSegment (h : buildOidSegment var = some name) : name.length ≤ TYPES_MAX_OID_LEN := by
  rw [buildOidSegment, Option.bind_eq_some_iff] at h
  obtain ⟨long, -, h⟩ := h
  rw [Option.ite_none_left_eq_some] at h
  obtain ⟨hle, h⟩ := h
  obtain rfl := Option.some.inj h
  exact not_lt.mp hle

/-- The name that a function returns, unless it fails. -/
def Built.result : Built → Option ObjId
  | .name o => some o
  | .genErr | .overrun => none

theorem buildLoop_result {space inLen : Nat} (h : buildLoop space inLen out indexes ≠ .overrun) :
    (buildLoop space inLen out indexes).result = Mib.buildLoop inLen out indexes := by
  induction indexes generalizing out with
  | nil => rfl
  | cons var indexes ih =>
    rw [buildLoop] at h ⊢
    rw [Mib.buildLoop]
    cases hsegment : buildOidSegment var with
    | none => rfl
    | some name =>
      simp only [hsegment] at h ⊢
      by_cases hin : name.length + out.length ≤ inLen
      · rw [if_pos hin] at h ⊢
        rw [if_pos hin]
        by_cases hspace : name.length + out.length ≤ space
        · rw [if_pos hspace] at h ⊢
          exact ih h
        · rw [if_neg hspace] at h
          exact absurd rfl h
      · rw [if_neg hin, if_neg hin]
        rfl

theorem buildLoop_bounded (hout : out.length ≤ TYPES_MAX_OID_LEN) :
    (buildLoop TYPES_MAX_OID_LEN sizeofOids out indexes).Bounded ↔
      out.length + (segments indexes).length ≤ TYPES_MAX_OID_LEN := by
  induction indexes generalizing out with
  | nil =>
    refine iff_of_true ⟨by rw [buildLoop]; exact Built.noConfusion, fun o ho => ?_⟩ hout
    rw [buildLoop, Built.name.injEq] at ho
    exact ho ▸ hout
  | cons var indexes ih =>
    rw [buildLoop, segments]
    cases hsegment : buildOidSegment var with
    | none => exact iff_of_true ⟨Built.noConfusion, fun o ho => Built.noConfusion ho⟩ hout
    | some name =>
      have hname := length_le_of_buildOidSegment hsegment
      have hin : name.length + out.length ≤ sizeofOids := by
        simp only [sizeofOids, TYPES_MAX_OID_LEN, SIZEOF_OID] at *
        omega
      simp only [if_pos hin, length_append]
      by_cases hspace : name.length + out.length ≤ TYPES_MAX_OID_LEN
      · rw [if_pos hspace, ih (by rw [length_append]; omega), length_append, Nat.add_assoc]
      · rw [if_neg hspace]
        exact iff_of_false (fun h => h.1 rfl) (by omega)

theorem fillName_eq (rootoid : ObjId) (column : Oid) (rest : ObjId) : fillName rootoid column rest =
    if rootoid.length + 2 + rest.length ≤ TYPES_MAX_OID_LEN then some (rootoid ++ 1 :: column :: rest) else none := by
  have hlen : (rootoid ++ 1 :: column :: rest).length = rootoid.length + 2 + rest.length := by
    rw [length_append, length_cons, length_cons]
    omega
  rw [fillName, hlen]

theorem fillName_bounded : (Built.ofName (fillName rootoid column rest)).Bounded ↔
    rootoid.length + 2 + rest.length ≤ TYPES_MAX_OID_LEN := by
  rw [fillName_eq]
  by_cases h : rootoid.length + 2 + rest.length ≤ TYPES_MAX_OID_LEN
  · rw [if_pos h, Built.ofName]
    refine iff_of_true ⟨Built.noConfusion, fun o ho => ?_⟩ h
    obtain rfl := Built.name.inj ho
    rw [length_append, length_cons, length_cons]
    omega
  · rw [if_neg h, Built.ofName]
    exact iff_of_false (fun hb => hb.1 rfl) h

/-- Each function stays within its array if and only if the whole name has room there. -/
theorem call_bounded_iff (call : Call) (h : call.Registered) : call.run.Bounded ↔ call.Fits := by
  cases call with
  | generateIndexOid indexes | updateIndexesFromVariableList indexes =>
    refine (buildLoop_bounded (Nat.zero_le _)).trans ?_
    rw [length_nil, Nat.zero_add]
    rfl
  | buildOid rootoid colnum indexes =>
    have hroot : rootoid.length ≤ 126 := h
    have hroom : rootoid.length + 2 + ([] : ObjId).length ≤ TYPES_MAX_OID_LEN := by
      show rootoid.length + 2 ≤ 128
      omega
    have hlen : (rootoid ++ [1, colnum]).length = rootoid.length + 2 := length_append
    have hout : (rootoid ++ [1, colnum]).length ≤ TYPES_MAX_OID_LEN := hlen ▸ hroom
    have hin : ¬ sizeofOids < (rootoid ++ [1, colnum]).length := by
      rw [hlen]
      show ¬ 128 * 4 < rootoid.length + 2
      omega
    show (Table.buildOid rootoid colnum indexes).Bounded ↔ _
    rw [Table.buildOid, fillName_eq, if_pos hroom]
    show (mibBuildOid (some (rootoid ++ [1, colnum])) indexes).Bounded ↔ _
    rw [mibBuildOid, buildOidNoalloc, if_neg hin, if_neg (not_lt.mpr hout), buildLoop_bounded hout, hlen]
    rfl
  | buildOidFromIndex rootoid colnum indexOid => exact fillName_bounded
  | buildResult mode name rootoid column indexOid =>
    show (Table.buildResult mode name rootoid column indexOid).Bounded ↔ (_ → _)
    rw [Table.buildResult]
    by_cases hmode : mode = .getNext ∨ mode = .getBulk
    · rw [if_pos hmode, forall_prop_of_true hmode]
      exact fillName_bounded
    · rw [if_neg hmode]
      refine iff_of_true ⟨Built.noConfusion, fun o ho => ?_⟩ fun hm => absurd hm hmode
      obtain rfl := Built.name.inj ho
      exact h.1

/-- A string of so many octets as an index. -/
def stringIndex (n : Nat) : IndexVar := ⟨.octetStr, some (.string (List.replicate n 97)), n⟩

/-- An instance of the second column of a table, with a short name for an index. -/
theorem call_bounded_iff_column :
    (Call.buildOid [1, 3, 6, 1, 2, 1, 2, 2] 2 [stringIndex 3]).run.Bounded ↔
      (Call.buildOid [1, 3, 6, 1, 2, 1, 2, 2] 2 [stringIndex 3]).Fits :=
  call_bounded_iff _ (show 8 ≤ 126 by decide)

/-- Two strings of a hundred octets are an index of 202 subidentifiers. -/
theorem not_call_bounded : (Call.generateIndexOid [stringIndex 100, stringIndex 100]).run = .overrun := by
  decide +kernel

end Priot.Table
