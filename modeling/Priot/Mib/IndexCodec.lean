/-
# Index OIDs and index values

The two directions for whole lists of indexes. Both hold exactly where no address is changed by turning its
octets around and no subidentifier is changed by storing it in an octet.
-/
import Priot.Mib.IndexSpec

namespace Priot.Mib

open List

/-! ## from values to an OID and back -/

/-- The indexes of a row: only the last may be implied, and their OID fits `TYPES_MAX_OID_LEN`
subidentifiers. -/
structure Row where
  indexes : List IndexValue
  implied_last : ∀ v ∈ indexes.dropLast, ¬ v.type.Implied
  fits : (indexes.map fun v => v.value.width v.type).sum ≤ TYPES_MAX_OID_LEN

/-- The varbinds `Mib_buildOidNoalloc` is given. -/
def Row.vars (row : Row) : List IndexVar := row.indexes.map fun v => .ofValue v.type v.value

/-- Fresh varbinds of the same types. -/
def Row.freshVars (row : Row) : List IndexVar := row.indexes.map fun v => .fresh v.type

/-- The OID of the values is accepted, and read as these values. -/
def ReadsBack (row : Row) : Prop :=
  ∃ oid, buildOidNoalloc TYPES_MAX_OID_LEN none row.vars = some oid ∧
    ∃ vars, parseOidIndexes oid row.freshVars = some vars ∧
      vars.map IndexVar.content = row.vars.map IndexVar.content

theorem parse_value (v : IndexValue) {rest : ObjId} (hrest : rest.length + 4 < 2 ^ 31)
    (himp : v.type.Implied → rest = []) :
    ∃ name var, segmentName (.ofValue v.type v.value) = some name ∧ name.length = v.value.width v.type ∧
      name ≠ [] ∧ parseOneOidIndex (name ++ rest) (.fresh v.type) false = .ok (rest, var) ∧
      var.content = (IndexVar.ofValue v.type (readBack v.type v.value)).content := by
  obtain ⟨t, value, hvalid⟩ := v
  cases value with
  | integer n =>
    obtain ⟨hname, hparse⟩ := parse_integer hvalid rest
    exact ⟨_, _, hname, rfl, by simp, hparse, rfl⟩
  | objectId o =>
    obtain ⟨name, hname, hlen, hne, hparse⟩ := parse_objectId hvalid himp
    exact ⟨name, _, hname, hlen, hne, hparse, rfl⟩
  | string s =>
    by_cases hip : t = .ipaddress
    · subst hip
      match s, (hvalid : s.length = 4) with
      | [a, b, c, d], _ =>
        obtain ⟨hname, hparse⟩ := parse_ipaddress a b c d hrest
        exact ⟨_, _, hname, rfl, by simp, hparse, rfl⟩
    · obtain ⟨name, var, hname, hlen, hne, hparse, hcontent⟩ := parse_string hvalid hip himp
      refine ⟨name, var, hname, hlen, hne, hparse, ?_⟩
      simp only [readBack, if_neg hip]
      exact hcontent

theorem parse_values {vs : List IndexValue} (himp : ∀ v ∈ vs.dropLast, ¬ v.type.Implied)
    (hfits : (vs.map fun v => v.value.width v.type).sum ≤ TYPES_MAX_OID_LEN) :
    ∃ oid vars, oid.length = (vs.map fun v => v.value.width v.type).sum ∧
      (∀ inLen out, oid.length + out.length ≤ inLen →
        buildLoop inLen out (vs.map fun v => .ofValue v.type v.value) = some (out ++ oid)) ∧
      parseOidIndexes oid (vs.map fun v => .fresh v.type) = some vars ∧ vars.map IndexVar.content =
        vs.map fun v => (IndexVar.ofValue v.type (readBack v.type v.value)).content := by
  induction vs with
  | nil =>
    refine ⟨[], [], rfl, fun inLen out _ => ?_, rfl, rfl⟩
    rw [append_nil]
    rfl
  | cons v vs ih =>
    rw [map_cons, sum_cons] at hfits
    have himp' : ∀ w ∈ vs.dropLast, ¬ w.type.Implied := by
      intro w hw
      apply himp
      cases vs with
      | nil => cases hw
      | cons u vs => exact mem_cons_of_mem v hw
    obtain ⟨oid, vars, hlen, hbuild, hparse, hcontent⟩ := ih himp' (by omega)
    have hlast : v.type.Implied → oid = [] := by
      intro h
      cases vs with
      | nil =>
        simp only [map_nil, sum_nil] at hlen
        exact length_eq_zero_iff.mp hlen
      | cons u vs => exact absurd h (himp v (by simp))
    have hmax : TYPES_MAX_OID_LEN = 128 := rfl
    obtain ⟨name, var, hname, hwidth, hne, hone, hvar⟩ := parse_value v (show oid.length + 4 < 2 ^ 31 by omega) hlast
    refine ⟨name ++ oid, var :: vars, ?_, fun inLen out hfit => ?_, ?_, ?_⟩
    · rw [length_append, map_cons, sum_cons, hwidth, hlen]
    · rw [length_append] at hfit
      have hseg := buildOidSegment_of_le hname (by omega)
      rw [map_cons, buildLoop_cons hseg (by omega), hbuild inLen (out ++ name) (by
        rw [length_append]
        omega), append_assoc]
    · rw [map_cons, parseOidIndexes, if_neg (by
        rw [length_append]
        have := length_pos_iff.mpr hne
        omega), hone]
      show (parseOidIndexes oid _).map (var :: ·) = _
      rw [hparse, Option.map_some]
    · rw [map_cons, map_cons, hvar, hcontent]

theorem content_ofValue_inj {t : IndexType} {v w : Value} (hlen : v.length = w.length)
    (h : (IndexVar.ofValue t v).content = (IndexVar.ofValue t w).content) : v.length = 0 ∨ v = w := by
  by_cases h0 : v.length = 0
  · exact .inl h0
  · refine .inr ?_
    have hvalue : (if v.length = 0 then none else some v) = (if w.length = 0 then none else some w) :=
      congrArg (·.2.2) h
    rw [← hlen, if_neg h0, if_neg h0] at hvalue
    exact Option.some.inj hvalue

/-- An address is the same from both ends. -/
def Palindrome : Value → Prop
  | .string s => s.reverse = s
  | _ => True

theorem readBack_content_iff (v : IndexValue) :
    (IndexVar.ofValue v.type (readBack v.type v.value)).content = (IndexVar.ofValue v.type v.value).content ↔
      (v.type = .ipaddress → Palindrome v.value) := by
  obtain ⟨t, value, hvalid⟩ := v
  cases value with
  | integer n => simp [readBack, Palindrome]
  | objectId o => simp [readBack, Palindrome]
  | string s =>
    simp only [readBack, Palindrome]
    by_cases hip : t = .ipaddress
    · subst hip
      rw [if_pos rfl]
      refine ⟨fun h _ => ?_, fun h => by rw [h rfl]⟩
      rcases content_ofValue_inj (by simp [Value.length]) h with h0 | heq
      · have hlen : s.length = 4 := hvalid
        simp [Value.length, hlen] at h0
      · exact Value.string.inj heq
    · simp [hip]

/-- The values of a row are read back exactly when no address is turned around. -/
theorem row_readsBack_iff (row : Row) :
    ReadsBack row ↔ ∀ v ∈ row.indexes, v.type = .ipaddress → Palindrome v.value := by
  obtain ⟨oid, vars, hlen, hbuild, hparse, hcontent⟩ := parse_values row.implied_last row.fits
  have hfits := row.fits
  have hoid : buildOidNoalloc TYPES_MAX_OID_LEN none row.vars = some oid :=
    hbuild TYPES_MAX_OID_LEN [] (by rw [hlen]; exact hfits)
  have hsame : ReadsBack row ↔ vars.map IndexVar.content = row.vars.map IndexVar.content := by
    unfold ReadsBack
    constructor
    · rintro ⟨oid', hoid', vars', hvars', h⟩
      rw [hoid, Option.some.injEq] at hoid'
      subst hoid'
      have := hparse.symm.trans hvars'
      rw [Option.some.injEq] at this
      rw [this]
      exact h
    · exact fun h => ⟨oid, hoid, vars, hparse, h⟩
  rw [hsame, hcontent, Row.vars, map_map, map_inj_left]
  exact forall₂_congr fun v _ => readBack_content_iff v

/-! ## from an OID to values and back -/

/-- The number of subidentifiers an index of a type takes from the front of an index OID. -/
def width (t : IndexType) (oidIndex : ObjId) : Nat :=
  match t with
  | .integer | .counter | .gauge | .timeticks => 1
  | .ipaddress => 4
  | .impliedObjectId | .impliedOctetStr => oidIndex.length % 2 ^ 32
  | .objectId | .opaqueStr | .octetStr => (oidIndex.headD 0).toNat + 1
  | .other => 0

/-- The subidentifiers of an index are those its value is written with. -/
def Plain (t : IndexType) (name : ObjId) : Prop :=
  match t with
  | .ipaddress => name.reverse = name
  | .objectId => name.length ≤ TYPES_MAX_OID_LEN
  | .opaqueStr | .octetStr => name.length ≤ TYPES_MAX_OID_LEN ∧ ∀ v ∈ name.tail, v ≤ 255
  | .impliedOctetStr => ∀ v ∈ name, v ≤ 255
  | _ => True

/-- Every index in an index OID is plain, and an address does not come in front of so many subidentifiers
that `( int )` makes their number small. -/
def Canonical : List IndexType → ObjId → Prop
  | [], _ => True
  | t :: types, oidIndex =>
    Plain t (oidIndex.take (width t oidIndex)) ∧ (t = .ipaddress → 4 ≤ intOfSize oidIndex.length) ∧
      Canonical types (oidIndex.drop (width t oidIndex))

/-- What the varbind of an index is built to, after it has been read from the front of `oidIndex`. -/
structure Rebuilt (t : IndexType) (oidIndex rest : ObjId) (var : IndexVar) : Prop where
  rest_eq : rest = oidIndex.drop (width t oidIndex)
  same : Plain t (oidIndex.take (width t oidIndex)) → buildOidSegment var = some (oidIndex.take (width t oidIndex))
  other : ¬ Plain t (oidIndex.take (width t oidIndex)) → ∀ name, buildOidSegment var = some name →
    name.length = (oidIndex.take (width t oidIndex)).length ∧ name ≠ oidIndex.take (width t oidIndex)

theorem rebuilt_integer {t : IndexType} (ht : t = .integer ∨ t = .counter ∨ t = .gauge ∨ t = .timeticks)
    (v : Oid) (rest : ObjId) : Rebuilt t (v :: rest) rest (setVarValue (.fresh t) (.oid v)) := by
  have hseg : segmentName (setVarValue (.fresh t) (.oid v)) = some [v] := by
    rcases ht with rfl | rfl | rfl | rfl
    · show some [oidOfLong (longOfInt v)] = _
      rw [oidOfLong_longOfInt]
    all_goals
      show some [oidOfLong (v.toNat : Int)] = _
      rw [oidOfLong_toNat]
  have hplain : ∀ name, Plain t name := by
    intro name
    rcases ht with rfl | rfl | rfl | rfl <;> trivial
  have hwidth : width t (v :: rest) = 1 := by
    rcases ht with rfl | rfl | rfl | rfl <;> rfl
  constructor
  · rw [hwidth]
    rfl
  · intro _
    rw [hwidth]
    exact buildOidSegment_of_le hseg (by simp [TYPES_MAX_OID_LEN])
  · exact fun h => absurd (hplain _) h

theorem rebuilt_ipaddress (a b c d : UInt8) (rest : ObjId) :
    Rebuilt .ipaddress (a.toUInt32 :: b.toUInt32 :: c.toUInt32 :: d.toUInt32 :: rest) rest
      (setVarValue (.fresh .ipaddress) (.octets [a, b, c, d])) := by
  have hseg := buildOidSegment_of_le (parse_ipaddress a b c d (show ([] : ObjId).length + 4 < 2 ^ 31 by simp)).1 (by simp [TYPES_MAX_OID_LEN])
  refine ⟨rfl, fun h => ?_, fun h name hname => ?_⟩
  · show _ = some [_, _, _, _]
    have hrev : [d.toUInt32, c.toUInt32, b.toUInt32, a.toUInt32] =
        [a.toUInt32, b.toUInt32, c.toUInt32, d.toUInt32] := h
    rw [← hrev]
    exact hseg
  · have heq := hseg.symm.trans hname
    rw [Option.some.injEq] at heq
    subst heq
    exact ⟨rfl, h⟩

theorem takePadded_of_le {n : Nat} {o : ObjId} (h : n ≤ o.length) : takePadded n o = o.take n := by
  unfold takePadded
  rw [show n - o.length = 0 by omega, replicate_zero, append_nil]

theorem take_oids (var : IndexVar) (o : ObjId) :
    (setVarValue var (.oids o)).objectId.take ((setVarValue var (.oids o)).valueLength / SIZEOF_OID) = o := by
  show o.take (SIZEOF_OID * o.length / SIZEOF_OID) = o
  rw [Nat.mul_div_cancel_left _ (by decide), take_length]

theorem rebuilt_objectId {t : IndexType} (ht : t = .objectId ∨ t = .impliedObjectId) {oidIndex rest : ObjId}
    {n : Nat} (hil : indexLength oidIndex (.fresh t) false = .ok (n, rest)) (hne : oidIndex ≠ [])
    (hn : n ≤ TYPES_MAX_OID_LEN) :
    Rebuilt t oidIndex (rest.drop n) (setVarValue (.fresh t) (.oids (takePadded n rest))) := by
  have hmax : TYPES_MAX_OID_LEN = 128 := rfl
  rcases ht with rfl | rfl
  · cases oidIndex with
    | nil => exact absurd rfl hne
    | cons v tail =>
      rw [indexLength_cons (by simp [IndexType.Implied, IndexVar.fresh])] at hil
      by_cases hlt : v.toNat > tail.length
      · rw [if_pos hlt] at hil
        cases hil
      · rw [if_neg hlt, Except.ok.injEq, Prod.mk.injEq] at hil
        obtain ⟨hn', hrest⟩ := hil
        subst hn' hrest
        have hle : v.toNat ≤ tail.length := by omega
        have hseg : segmentName (setVarValue (.fresh .objectId) (.oids (takePadded v.toNat tail))) =
            some (v :: tail.take v.toNat) := by
          have hnum : SIZEOF_OID * (tail.take v.toNat).length / SIZEOF_OID = v.toNat := by
            rw [Nat.mul_div_cancel_left _ (by decide), length_take, Nat.min_eq_left hle]
          rw [takePadded_of_le hle]
          refine Eq.trans ?_ (congrArg (fun o : ObjId => some (v :: o)) (take_oids (.fresh .objectId) (tail.take v.toNat)))
          show some (UInt32.ofNat (SIZEOF_OID * (tail.take v.toNat).length / SIZEOF_OID) :: _) = _
          rw [hnum, UInt32.ofNat_toNat]
        have hlen : (v :: tail.take v.toNat).length = v.toNat + 1 := by
          rw [length_cons, length_take, Nat.min_eq_left hle]
        refine ⟨rfl, fun h => buildOidSegment_of_le hseg h, fun h name hname => ?_⟩
        rw [buildOidSegment_of_gt hseg (Nat.lt_of_not_le h)] at hname
        cases hname
  · rw [indexLength_implied (.inl rfl) rfl] at hil
    cases hil
    have hle : oidIndex.length % 2 ^ 32 ≤ oidIndex.length := Nat.mod_le _ _
    have hseg : segmentName (setVarValue (.fresh .impliedObjectId)
        (.oids (takePadded (oidIndex.length % 2 ^ 32) oidIndex))) =
        some (oidIndex.take (oidIndex.length % 2 ^ 32)) := by
      rw [takePadded_of_le hle]
      exact congrArg some (take_oids (.fresh .impliedObjectId) _)
    refine ⟨rfl, fun _ => buildOidSegment_of_le hseg ?_, fun h => absurd trivial h⟩
    show (oidIndex.take (oidIndex.length % 2 ^ 32)).length ≤ _
    rw [length_take, Nat.min_eq_left hle]
    exact hn

/-- The varbind a string of `n` octets is read into. -/
def stringVar (t : IndexType) (n : Nat) (rest : ObjId) : IndexVar :=
  if n = 0 then .fresh t
  else { IndexVar.fresh t with value := some (.string ((takePadded n rest).map (·.toUInt8))), valueLength := n }

theorem stringVar_string {t : IndexType} {n : Nat} {rest : ObjId} (hn : n ≤ rest.length) :
    (stringVar t n rest).string.take (stringVar t n rest).valueLength = (rest.take n).map (·.toUInt8) ∧
      (stringVar t n rest).valueLength = n := by
  unfold stringVar
  by_cases h0 : n = 0
  · subst h0
    rw [if_pos rfl]
    exact ⟨rfl, rfl⟩
  · rw [if_neg h0]
    refine ⟨?_, rfl⟩
    simp only [IndexVar.string, takePadded_of_le hn]
    rw [take_of_length_le]
    rw [length_map, length_take]
    omega

theorem rebuilt_string {t : IndexType} (ht : t = .opaqueStr ∨ t = .octetStr ∨ t = .impliedOctetStr)
    {oidIndex rest : ObjId} {n : Nat} (hil : indexLength oidIndex (.fresh t) false = .ok (n, rest))
    (hne : oidIndex ≠ []) (hn : n ≤ TYPES_MAX_OID_LEN) : Rebuilt t oidIndex (rest.drop n) (stringVar t n rest) := by
  have hmax : TYPES_MAX_OID_LEN = 128 := rfl
  have htype : (stringVar t n rest).type = t := by
    unfold stringVar
    split <;> rfl
  by_cases himp : t = .impliedOctetStr
  · subst himp
    rw [indexLength_implied (.inr rfl) rfl] at hil
    cases hil
    have hle : oidIndex.length % 2 ^ 32 ≤ oidIndex.length := Nat.mod_le _ _
    obtain ⟨hs, -⟩ := stringVar_string (t := .impliedOctetStr) hle
    have hseg : segmentName (stringVar .impliedOctetStr (oidIndex.length % 2 ^ 32) oidIndex) =
        some (((oidIndex.take (oidIndex.length % 2 ^ 32)).map (·.toUInt8)).map (·.toUInt32)) := by
      unfold segmentName
      rw [htype]
      exact congrArg (fun s : List UInt8 => some (s.map (·.toUInt32))) hs
    have hbuild := buildOidSegment_of_le hseg (by
      rw [length_map, length_map, length_take]
      omega)
    refine ⟨rfl, fun h => ?_, fun h name hname => ?_⟩
    · rw [(map_toUInt32_toUInt8_iff (oidIndex.take (oidIndex.length % 2 ^ 32))).mpr h] at hbuild
      exact hbuild
    · have heq := hbuild.symm.trans hname
      rw [Option.some.injEq] at heq
      subst heq
      refine ⟨by rw [length_map, length_map]; rfl, fun h' => h ?_⟩
      exact (map_toUInt32_toUInt8_iff _).mp h'
  · have ht' : t = .opaqueStr ∨ t = .octetStr := by
      rcases ht with h | h | h
      · exact .inl h
      · exact .inr h
      · exact absurd h himp
    cases oidIndex with
    | nil => exact absurd rfl hne
    | cons v tail =>
      rw [indexLength_cons (by rcases ht' with rfl | rfl <;> simp [IndexType.Implied, IndexVar.fresh])] at hil
      by_cases hlt : v.toNat > tail.length
      · rw [if_pos hlt] at hil
        cases hil
      · rw [if_neg hlt, Except.ok.injEq, Prod.mk.injEq] at hil
        obtain ⟨hn', hrest⟩ := hil
        subst hn' hrest
        have hle : v.toNat ≤ tail.length := by omega
        obtain ⟨hs, hlen⟩ := stringVar_string (t := t) hle
        have hseg : segmentName (stringVar t v.toNat tail) =
            some (v :: ((tail.take v.toNat).map (·.toUInt8)).map (·.toUInt32)) := by
          have hcase : segmentName (stringVar t v.toNat tail) =
              some (UInt32.ofNat (stringVar t v.toNat tail).valueLength ::
                ((stringVar t v.toNat tail).string.take (stringVar t v.toNat tail).valueLength).map
                  (·.toUInt32)) := by
            unfold segmentName
            rw [htype]
            rcases ht' with rfl | rfl <;> rfl
          rw [hcase, hs, hlen, UInt32.ofNat_toNat]
        have hwidth : width t (v :: tail) = v.toNat + 1 := by
          rcases ht' with rfl | rfl <;> rfl
        have hplain : ∀ name, Plain t name ↔ name.length ≤ TYPES_MAX_OID_LEN ∧ ∀ o ∈ name.tail, o ≤ 255 := by
          intro name
          rcases ht' with rfl | rfl <;> exact Iff.rfl
        have hnamelen : (v :: ((tail.take v.toNat).map (·.toUInt8)).map (·.toUInt32)).length =
            (v :: tail.take v.toNat).length := by
          rw [length_cons, length_cons, length_map, length_map]
        refine ⟨by rw [hwidth]; rfl, fun h => ?_, fun h name hname => ?_⟩
        · rw [hwidth, take_succ_cons] at h ⊢
          obtain ⟨hlen, hoctets⟩ := (hplain _).mp h
          rw [(map_toUInt32_toUInt8_iff (tail.take v.toNat)).mpr hoctets] at hseg
          exact buildOidSegment_of_le hseg hlen
        · rw [hwidth, take_succ_cons] at h ⊢
          by_cases hlen : (v :: tail.take v.toNat).length ≤ TYPES_MAX_OID_LEN
          · rw [buildOidSegment_of_le hseg (by omega), Option.some.injEq] at hname
            subst hname
            refine ⟨hnamelen, fun h' => h ((hplain _).mpr ⟨hlen, ?_⟩)⟩
            exact (map_toUInt32_toUInt8_iff _).mp (List.cons.inj h').2
          · rw [buildOidSegment_of_gt hseg (by omega)] at hname
            cases hname

theorem exists_four {o : ObjId} (h : 4 ≤ o.length) : ∃ a b c d tail, o = a :: b :: c :: d :: tail := by
  match o, h with
  | a :: b :: c :: d :: tail, _ => exact ⟨a, b, c, d, tail, rfl⟩

theorem rebuilt_of_parse {t : IndexType} {oidIndex rest : ObjId} {var : IndexVar}
    (h : parseOneOidIndex oidIndex (.fresh t) false = .ok (rest, var)) :
    oidIndex ≠ [] ∧ ((t = .ipaddress → 4 ≤ intOfSize oidIndex.length) → Rebuilt t oidIndex rest var) ∧
      (t = .ipaddress → ¬ 4 ≤ intOfSize oidIndex.length →
        rest = [] ∧ ∀ name, buildOidSegment var = some name → name.length < oidIndex.length) := by
  unfold parseOneOidIndex at h
  by_cases hnil : oidIndex.length = 0 ∧ false = false
  · rw [if_pos hnil] at h
    cases h
  · have hne : oidIndex ≠ [] := fun h' => hnil ⟨by rw [h']; rfl, rfl⟩
    rw [if_neg hnil] at h
    refine ⟨hne, ?_⟩
    cases t with
    | integer | counter | gauge | timeticks =>
      cases oidIndex with
      | nil => exact absurd rfl hne
      | cons v tail =>
        cases h
        exact ⟨fun _ => rebuilt_integer (by simp) v _, fun h => by cases h⟩
    | other => cases h
    | objectId | impliedObjectId =>
      refine ⟨fun _ => ?_, fun h => by cases h⟩
      simp only [IndexVar.fresh] at h
      split at h
      · cases h
      · next n left hil =>
        split at h
        · cases h
        · next hn =>
          cases h
          exact rebuilt_objectId (by simp) hil hne (Nat.le_of_not_lt hn)
    | opaqueStr | octetStr | impliedOctetStr =>
      refine ⟨fun _ => ?_, fun h => by cases h⟩
      simp only [IndexVar.fresh] at h
      split at h
      · cases h
      · next n left hil =>
        split at h
        · next h0 =>
          cases h
          have hreb := rebuilt_string (by simp) hil hne (by rw [h0]; exact Nat.zero_le _)
          unfold stringVar at hreb
          rw [if_pos h0, h0, drop_zero] at hreb
          exact hreb
        · next h0 =>
          split at h
          · cases h
          · next hn =>
            cases h
            have hreb := rebuilt_string (by simp) hil hne (Nat.le_of_not_lt hn)
            unfold stringVar at hreb
            rw [if_neg h0] at hreb
            exact hreb
    | ipaddress =>
      simp only [IndexVar.fresh] at h
      by_cases hshort : 4 > oidIndex.length ∧ True
      · rw [if_pos hshort] at h
        cases h
      · rw [if_neg hshort] at h
        by_cases hbig : (oidIndex.take 4).any (· > 255) = true
        · rw [if_pos hbig] at h
          cases h
        · rw [if_neg hbig, Except.ok.injEq, Prod.mk.injEq] at h
          obtain ⟨hrest, hvar⟩ := h
          obtain ⟨a, b, c, d, tail, rfl⟩ := exists_four (Nat.le_of_not_lt fun h => hshort ⟨h, trivial⟩)
          simp only [take_succ_cons, take_zero, any_cons, any_nil, Bool.or_false,
            Bool.or_eq_true, decide_eq_true_eq, not_or, UInt32.not_lt, gt_iff_lt] at hbig
          obtain ⟨ha, hb, hc, hd⟩ := hbig
          have hval := htonl_ipaddrOfOid a.toUInt8 b.toUInt8 c.toUInt8 d.toUInt8 tail
          have hreb := rebuilt_ipaddress a.toUInt8 b.toUInt8 c.toUInt8 d.toUInt8 tail
          rw [toUInt32_toUInt8 ha, toUInt32_toUInt8 hb, toUInt32_toUInt8 hc, toUInt32_toUInt8 hd] at hval hreb
          rw [hval] at hvar
          subst hvar
          refine ⟨fun hint => ?_, fun _ hint => ⟨?_, fun name hname => ?_⟩⟩
          · rw [if_neg (by have := hint rfl; omega)] at hrest
            subst hrest
            exact hreb
          · rw [if_pos (by omega)] at hrest
            exact hrest.symm
          · have hname4 : name.length = 4 := by
              by_cases hpl : Plain .ipaddress ((a :: b :: c :: d :: tail).take 4)
              · have heq := (hreb.same hpl).symm.trans hname
                rw [Option.some.injEq] at heq
                rw [← heq]
                rfl
              · exact (hreb.other hpl name hname).1
            rw [hname4]
            cases tail with
            | nil => exact absurd (show (4 : Int) ≤ intOfSize 4 by decide) hint
            | cons v tail =>
              simp only [length_cons]
              omega

/-- An accepted index OID is built again exactly when it is canonical. -/
theorem buildLoop_iff {types : List IndexType} {oidIndex : ObjId} {vars : List IndexVar}
    (h : parseOidIndexes oidIndex (types.map .fresh) = some vars) :
    (Canonical types oidIndex → ∀ inLen out, oidIndex.length + out.length ≤ inLen →
      buildLoop inLen out vars = some (out ++ oidIndex)) ∧
    (¬ Canonical types oidIndex → ∀ inLen out, buildLoop inLen out vars ≠ some (out ++ oidIndex)) := by
  induction types generalizing oidIndex vars with
  | nil =>
    rw [map_nil, parseOidIndexes] at h
    split at h
    · next h0 =>
      cases h
      refine ⟨fun _ inLen out _ => ?_, fun hc => absurd trivial hc⟩
      rw [length_eq_zero_iff.mp h0, append_nil]
      rfl
    · cases h
  | cons t types ih =>
    rw [map_cons, parseOidIndexes] at h
    split at h
    · cases h
    · cases hone : parseOneOidIndex oidIndex (.fresh t) false with
      | error left =>
        rw [hone] at h
        cases h
      | ok r =>
        obtain ⟨rest, var⟩ := r
        rw [hone] at h
        simp only [Option.map_eq_some_iff] at h
        obtain ⟨vars, hvars, rfl⟩ := h
        obtain ⟨ihc, ihn⟩ := ih hvars
        obtain ⟨hne, hreb, hover⟩ := rebuilt_of_parse hone
        -- the rest of the loop, after a name has been written
        have hcons : ∀ inLen out, buildLoop inLen out (var :: vars) = some (out ++ oidIndex) →
            ∃ name, buildOidSegment var = some name ∧ ∃ z, oidIndex = name ++ z ∧
              buildLoop inLen (out ++ name) vars = some (out ++ oidIndex) := by
          intro inLen out hloop
          have hloop' := hloop
          rw [buildLoop] at hloop
          cases hname : buildOidSegment var with
          | none =>
            rw [hname] at hloop
            cases hloop
          | some name =>
            rw [hname] at hloop
            by_cases hfit : name.length + out.length ≤ inLen
            · simp only [if_pos hfit] at hloop
              obtain ⟨z, hz⟩ := buildLoop_extends hloop
              rw [append_assoc] at hz
              exact ⟨name, rfl, z, append_cancel_left hz, hloop⟩
            · simp only [if_neg hfit] at hloop
              cases hloop
        by_cases hint : t = .ipaddress → 4 ≤ intOfSize oidIndex.length
        · obtain ⟨hrest, hsame, hother⟩ := hreb hint
          subst hrest
          have hsplit := take_append_drop (width t oidIndex) oidIndex
          constructor
          · rintro ⟨hplain, -, hcanon⟩ inLen out hfit
            have hlen := congrArg List.length hsplit
            rw [length_append] at hlen
            rw [buildLoop_cons (hsame hplain) (by omega), ihc hcanon inLen _ (by
              rw [length_append]
              omega), append_assoc, hsplit]
          · intro hnot inLen out hloop
            obtain ⟨name, hname, z, hz, hloop⟩ := hcons inLen out hloop
            by_cases hplain : Plain t (oidIndex.take (width t oidIndex))
            · have heq := (hsame hplain).symm.trans hname
              rw [Option.some.injEq] at heq
              subst heq
              refine ihn (fun hc => hnot ⟨hplain, hint, hc⟩) inLen (out ++ oidIndex.take (width t oidIndex)) ?_
              rw [hloop, append_assoc, hsplit]
            · obtain ⟨hlen, hdiff⟩ := hother hplain name hname
              refine hdiff ?_
              have happ : oidIndex.take (width t oidIndex) ++ oidIndex.drop (width t oidIndex) = name ++ z := by
                rw [hsplit, hz]
              exact (append_inj_left happ hlen.symm).symm
        · refine ⟨fun hc => absurd hc.2.1 hint, fun _ inLen out hloop => ?_⟩
          -- all that is left of the OID has been dropped
          rw [Classical.not_imp] at hint
          obtain ⟨hrest, hshort⟩ := hover hint.1 hint.2
          subst hrest
          obtain ⟨name, hname, z, hz, hloop⟩ := hcons inLen out hloop
          have hvars' : vars = [] := by
            cases types with
            | nil =>
              rw [map_nil, parseOidIndexes, if_pos length_nil] at hvars
              exact (Option.some.inj hvars).symm
            | cons u types =>
              rw [map_cons, parseOidIndexes, if_pos length_nil] at hvars
              cases hvars
          subst hvars'
          have hlt := hshort name hname
          have heq := congrArg List.length (Option.some.inj hloop)
          rw [length_append, length_append] at heq
          omega

/-- An index OID that is accepted is built again from the values it has been read as, into any buffer that is
large enough. -/
def RebuildsExactly (types : List IndexType) (oidIndex : ObjId) : Prop :=
  ∀ vars, parseOidIndexes oidIndex (types.map .fresh) = some vars →
    ∀ inLen, oidIndex.length ≤ inLen → buildOidNoalloc inLen none vars = some oidIndex

/-- Values are read back exactly when no address is turned around; an accepted index OID is rebuilt exactly when
it is canonical. -/
theorem indexes_inverse_iff (row : Row) (types : List IndexType) (oidIndex : ObjId)
    (haccepted : ∃ vars, parseOidIndexes oidIndex (types.map .fresh) = some vars) :
    (ReadsBack row ↔ ∀ v ∈ row.indexes, v.type = .ipaddress → Palindrome v.value) ∧
    (RebuildsExactly types oidIndex ↔ Canonical types oidIndex) := by
  refine ⟨row_readsBack_iff row, fun h => ?_, fun hcanon vars hvars inLen hlen => ?_⟩
  · obtain ⟨vars, hvars⟩ := haccepted
    by_contra hnot
    exact (buildLoop_iff hvars).2 hnot oidIndex.length [] (h vars hvars oidIndex.length (Nat.le_refl _))
  · exact (buildLoop_iff hvars).1 hcanon inLen [] (by rw [length_nil]; omega)

/-- The row with the address `1.2.3.4`. -/
def addressRow : Row where
  indexes := [⟨.ipaddress, .string [1, 2, 3, 4], rfl⟩]
  implied_last := by simp
  fits := by decide

theorem indexes_inverse_iff_address :
    (∃ vars, parseOidIndexes [2, 4, 5] [.fresh .octetStr] = some vars) ∧
    (ReadsBack addressRow ↔ ∀ v ∈ addressRow.indexes, v.type = .ipaddress → Palindrome v.value) ∧
    (RebuildsExactly [.octetStr] [2, 4, 5] ↔ Canonical [.octetStr] [2, 4, 5]) :=
  have haccepted : ∃ vars, parseOidIndexes [2, 4, 5] [.fresh .octetStr] = some vars := ⟨_, rfl⟩
  ⟨haccepted, indexes_inverse_iff addressRow [.octetStr] [2, 4, 5] haccepted⟩

/-- `1.2.3.4` is read back as `4.3.2.1`, and a string with the subidentifier 300 is built again with 44. -/
theorem indexes_not_inverse : ¬ ReadsBack addressRow ∧ ¬ RebuildsExactly [.octetStr] [1, 300] := by
  constructor
  · rintro ⟨oid, hoid, vars, hvars, h⟩
    have hbuilt : buildOidNoalloc TYPES_MAX_OID_LEN none addressRow.vars = some [4, 3, 2, 1] := by decide
    rw [hbuilt, Option.some.injEq] at hoid
    subst hoid
    have hread : parseOidIndexes [4, 3, 2, 1] addressRow.freshVars =
        some [.ofValue .ipaddress (.string [4, 3, 2, 1])] := by decide
    rw [hread, Option.some.injEq] at hvars
    subst hvars
    revert h
    decide
  · intro h
    have hread : parseOidIndexes [1, 300] [.fresh .octetStr] = some [.ofValue .octetStr (.string [44])] := by decide
    have hbuilt := h _ hread 2 (Nat.le_refl 2)
    revert hbuilt
    decide

end Priot.Mib
