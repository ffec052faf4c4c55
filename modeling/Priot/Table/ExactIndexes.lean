/-
# Indexes that are read with zeros behind their end

Indexes are read as if the name went on with zeros. What is taken is therefore more than the complete encodings of
index values.
-/
import Priot.Mib.IndexCodec
import Priot.Table.HelperHandler

namespace Priot.Table

open Mib

/-! ## what is meant -/

/-- The complete encoding of one value. -/
def Segment : IndexType → ObjId → Prop
  | .integer, name | .counter, name | .gauge, name | .timeticks, name => name.length = 1
  | .ipaddress, name => ∃ s : List UInt8, s.length = 4 ∧ name = s.map (·.toUInt32)
  | .objectId, name => ∃ o : ObjId, name = UInt32.ofNat o.length :: o
  | .octetStr, name | .opaqueStr, name =>
    ∃ s : List UInt8, name = UInt32.ofNat s.length :: s.map (·.toUInt32)
  | .impliedObjectId, _ => True
  | .impliedOctetStr, name => ∃ s : List UInt8, name = s.map (·.toUInt32)
  | .other, _ => False

/-- The complete encoding of a value of each type. -/
inductive Encodes : List IndexType → ObjId → Prop
  | nil : Encodes [] []
  | cons {t : IndexType} {types : List IndexType} {name rest : ObjId} (segment : Segment t name)
      (others : Encodes types rest) : Encodes (t :: types) (name ++ rest)

/-! ## what is read -/

/-- An index of the type can be read from the front, with zeros where the OID ends. -/
def Acceptable : IndexType → ObjId → Prop
  | .ipaddress, oidIndex => ∀ v ∈ oidIndex.take 4, v ≤ 255
  | .objectId, oidIndex | .opaqueStr, oidIndex | .octetStr, oidIndex => (oidIndex.headD 0).toNat ≤ TYPES_MAX_OID_LEN
  | .other, _ => False
  | _, _ => True

/-- Something is left for each index, it can be read, and nothing is left behind the last one. -/
def Taken : List IndexType → ObjId → Prop
  | [], oidIndex => oidIndex = []
  | t :: types, oidIndex => oidIndex ≠ [] ∧ Acceptable t oidIndex ∧ Taken types (oidIndex.drop (width t oidIndex))

/-- No index is cut off, and each is written with the subidentifiers that its value is written with. -/
def Whole : List IndexType → ObjId → Prop
  | [], _ => True
  | t :: types, oidIndex =>
    width t oidIndex ≤ oidIndex.length ∧ Plain t (oidIndex.take (width t oidIndex)) ∧
      Whole types (oidIndex.drop (width t oidIndex))

variable {t : IndexType} {types : List IndexType} {oidIndex rest name : ObjId} {var : IndexVar} {vars : List IndexVar}

theorem Taken.encodes (htaken : Taken types oidIndex) (hwhole : Whole types oidIndex) : Encodes types oidIndex := by
  induction types generalizing oidIndex with
  | nil =>
    obtain rfl : oidIndex = [] := htaken
    exact .nil
  | cons t types ih =>
    obtain ⟨hne, hacceptable, htaken⟩ := htaken
    obtain ⟨hwidth, hplain, hwhole⟩ := hwhole
    have hsegment : Segment t (oidIndex.take (width t oidIndex)) := by
      cases t with
      | integer | counter | gauge | timeticks =>
        show (oidIndex.take 1).length = 1
        rw [List.length_take]
        exact Nat.min_eq_left hwidth
      | ipaddress =>
        refine ⟨(oidIndex.take 4).map (fun v => v.toUInt8), ?_, ?_⟩
        · rw [List.length_map, List.length_take]
          exact Nat.min_eq_left hwidth
        · show oidIndex.take 4 = _
          exact ((map_toUInt32_toUInt8_iff _).mpr hacceptable).symm
      | objectId =>
        obtain ⟨v, tail, rfl⟩ := List.exists_cons_of_ne_nil hne
        have hlen : v.toNat ≤ tail.length := Nat.le_of_succ_le_succ hwidth
        refine ⟨tail.take v.toNat, ?_⟩
        show v :: tail.take v.toNat = _
        rw [List.length_take, Nat.min_eq_left hlen, UInt32.ofNat_toNat]
      | octetStr | opaqueStr =>
        obtain ⟨v, tail, rfl⟩ := List.exists_cons_of_ne_nil hne
        have hlen : v.toNat ≤ tail.length := Nat.le_of_succ_le_succ hwidth
        have hoctets : ∀ o ∈ tail.take v.toNat, o ≤ 255 := hplain.2
        refine ⟨(tail.take v.toNat).map (·.toUInt8), ?_⟩
        rw [(map_toUInt32_toUInt8_iff _).mpr hoctets, List.length_map, List.length_take, Nat.min_eq_left hlen,
          UInt32.ofNat_toNat]
        rfl
      | impliedObjectId => trivial
      | impliedOctetStr => exact ⟨_, ((map_toUInt32_toUInt8_iff _).mpr hplain).symm⟩
      | other => exact hacceptable.elim
    have h := Encodes.cons hsegment (ih htaken hwhole)
    rwa [List.take_append_drop] at h

/-! ## one index -/

theorem intOfSize_of_le {n : Nat} (hn : n ≤ TYPES_MAX_OID_LEN) : intOfSize n = n := by
  have hmax : TYPES_MAX_OID_LEN = 128 := rfl
  unfold intOfSize longOfInt
  rw [UInt32.toNat_ofNat', Nat.mod_eq_of_lt (by omega), if_pos (by omega)]

theorem parseOneOidIndex_whole (hne : oidIndex ≠ []) (hwidth : width t oidIndex ≤ oidIndex.length) :
    parseOneOidIndex oidIndex (.fresh t) true = parseOneOidIndex oidIndex (.fresh t) false := by
  obtain ⟨v, tail, rfl⟩ := List.exists_cons_of_ne_nil hne
  cases t with
  | integer | counter | gauge | timeticks | other => rfl
  | ipaddress =>
    have hfour : ¬ 4 > (v :: tail).length := Nat.not_lt.mpr hwidth
    unfold parseOneOidIndex
    simp only [IndexVar.fresh, hfour, false_and, if_false]
    rfl
  | impliedObjectId | impliedOctetStr => rfl
  | objectId | octetStr | opaqueStr =>
    have hlen : ¬ v.toNat > tail.length := Nat.not_lt.mpr (Nat.le_of_succ_le_succ hwidth)
    unfold parseOneOidIndex indexLength
    simp only [IndexVar.fresh, hlen, false_and, if_false]
    rfl

theorem parseOneOidIndex_ok_iff (hne : oidIndex ≠ []) (hlen : oidIndex.length ≤ TYPES_MAX_OID_LEN) :
    (∃ left, parseOneOidIndex oidIndex (.fresh t) true = .ok left) ↔ Acceptable t oidIndex := by
  have hmax : TYPES_MAX_OID_LEN = 128 := rfl
  have hno {rest : ObjId} {left : ObjId × IndexVar} : ¬ Except.error rest = Except.ok left := by
    intro h
    cases h
  obtain ⟨v, tail, rfl⟩ := List.exists_cons_of_ne_nil hne
  unfold parseOneOidIndex
  simp only [List.length_cons, Nat.succ_ne_zero, false_and, if_false]
  cases t with
  | integer | counter | gauge | timeticks => exact iff_of_true ⟨_, rfl⟩ trivial
  | other => exact iff_of_false (fun h => hno h.choose_spec) id
  | ipaddress =>
    simp only [IndexVar.fresh, Bool.true_eq_false, and_false, if_false]
    by_cases hbig : ((v :: tail).take 4).any (· > 255) = true
    · rw [if_pos hbig]
      refine iff_of_false (fun h => hno h.choose_spec) fun h => ?_
      obtain ⟨o, ho, hgt⟩ := List.any_eq_true.mp hbig
      exact UInt32.not_lt.mpr (h o ho) (of_decide_eq_true hgt)
    · rw [if_neg hbig]
      refine iff_of_true ⟨_, rfl⟩ fun o ho => UInt32.not_lt.mp fun hgt => hbig ?_
      exact List.any_eq_true.mpr ⟨o, ho, decide_eq_true hgt⟩
  | objectId =>
    simp only [IndexVar.fresh, indexLength, reduceCtorEq, or_self, if_false, Bool.true_eq_false, and_false]
    by_cases hbig : v.toNat > TYPES_MAX_OID_LEN
    · rw [if_pos hbig]
      exact iff_of_false (fun h => hno h.choose_spec) (Nat.not_le.mpr hbig)
    · rw [if_neg hbig]
      exact iff_of_true ⟨_, rfl⟩ (Nat.not_lt.mp hbig)
  | octetStr | opaqueStr =>
    simp only [IndexVar.fresh, indexLength, reduceCtorEq, or_self, if_false, Bool.true_eq_false, and_false]
    by_cases hzero : v.toNat = 0
    · rw [if_pos hzero]
      exact iff_of_true ⟨_, rfl⟩ (hzero ▸ Nat.zero_le _ : v.toNat ≤ _)
    · rw [if_neg hzero]
      by_cases hbig : v.toNat > TYPES_MAX_OID_LEN
      · rw [if_pos hbig]
        exact iff_of_false (fun h => hno h.choose_spec) (Nat.not_le.mpr hbig)
      · rw [if_neg hbig]
        exact iff_of_true ⟨_, rfl⟩ (Nat.not_lt.mp hbig)
  | impliedObjectId =>
    have hsmall : ¬ (v :: tail).length % 2 ^ 32 > TYPES_MAX_OID_LEN :=
      Nat.not_lt.mpr (Nat.le_trans (Nat.mod_le _ _) hlen)
    simp only [IndexVar.fresh, indexLength, true_or, if_true, if_neg hsmall]
    exact iff_of_true ⟨_, rfl⟩ trivial
  | impliedOctetStr =>
    have hsmall : ¬ (v :: tail).length % 2 ^ 32 > TYPES_MAX_OID_LEN :=
      Nat.not_lt.mpr (Nat.le_trans (Nat.mod_le _ _) hlen)
    simp only [IndexVar.fresh, indexLength, or_true, if_true, if_neg hsmall]
    refine iff_of_true ?_ trivial
    split
    · exact ⟨_, rfl⟩
    · exact ⟨_, rfl⟩

theorem segmentName_of_build (h : buildOidSegment var = some name) : segmentName var = some name := by
  rw [buildOidSegment, Option.bind_eq_some_iff] at h
  obtain ⟨long, hlong, h⟩ := h
  rw [Option.ite_none_left_eq_some] at h
  rw [hlong, h.2]

theorem takePadded_length (n : Nat) (o : ObjId) : (takePadded n o).length = n := by
  unfold takePadded
  rw [List.length_append, List.length_take, List.length_replicate]
  omega

/-- An index that is cut off is filled up with zeros, so that its value is written with more than there was. -/
theorem parseOneOidIndex_cut (hne : oidIndex ≠ []) (hlen : oidIndex.length ≤ TYPES_MAX_OID_LEN)
    (hwidth : oidIndex.length < width t oidIndex) (h : parseOneOidIndex oidIndex (.fresh t) true = .ok (rest, var)) :
    rest = [] ∧ ∀ name, buildOidSegment var = some name → oidIndex.length < name.length := by
  obtain ⟨v, tail, rfl⟩ := List.exists_cons_of_ne_nil hne
  unfold parseOneOidIndex at h
  simp only [List.length_cons, Nat.succ_ne_zero, false_and, if_false] at h
  cases t with
  | integer | counter | gauge | timeticks =>
    have : (v :: tail).length < 1 := hwidth
    rw [List.length_cons] at this
    omega
  | other => cases h
  | impliedObjectId | impliedOctetStr => exact absurd hwidth (Nat.not_lt.mpr (Nat.mod_le _ _))
  | ipaddress =>
    have hwidth : (v :: tail).length < 4 := hwidth
    have hint : (4 : Int) > intOfSize (tail.length + 1) := by
      rw [intOfSize_of_le (by rw [List.length_cons] at hlen; exact hlen)]
      rw [List.length_cons] at hwidth
      omega
    simp only [IndexVar.fresh, Bool.true_eq_false, and_false, if_false, if_pos hint] at h
    split at h
    · cases h
    · cases h
      refine ⟨rfl, fun name hname => ?_⟩
      have hname := Option.some.inj (segmentName_of_build hname)
      rw [← hname]
      exact hwidth
  | objectId =>
    have hwidth : (v :: tail).length < v.toNat + 1 := hwidth
    rw [List.length_cons] at hwidth
    simp only [IndexVar.fresh, indexLength, reduceCtorEq, or_self, if_false, Bool.true_eq_false, and_false] at h
    split at h
    · cases h
    · cases h
      refine ⟨List.drop_eq_nil_of_le (by omega), fun name hname => ?_⟩
      have hname := Option.some.inj (segmentName_of_build hname)
      have hnum : SIZEOF_OID * (takePadded v.toNat tail).length / SIZEOF_OID = (takePadded v.toNat tail).length :=
        Nat.mul_div_cancel_left _ (by decide)
      rw [← hname]
      show (v :: tail).length < (UInt32.ofNat (SIZEOF_OID * (takePadded v.toNat tail).length / SIZEOF_OID) ::
        (takePadded v.toNat tail).take (SIZEOF_OID * (takePadded v.toNat tail).length / SIZEOF_OID)).length
      rw [hnum, List.take_length, List.length_cons, List.length_cons, takePadded_length]
      omega
  | octetStr | opaqueStr =>
    have hwidth : (v :: tail).length < v.toNat + 1 := hwidth
    rw [List.length_cons] at hwidth
    simp only [IndexVar.fresh, indexLength, reduceCtorEq, or_self, if_false, Bool.true_eq_false, and_false] at h
    split at h
    · omega
    · split at h
      · cases h
      · cases h
        refine ⟨List.drop_eq_nil_of_le (by omega), fun name hname => ?_⟩
        have hname := Option.some.inj (segmentName_of_build hname)
        rw [← hname]
        show (v :: tail).length < (UInt32.ofNat v.toNat ::
          (((takePadded v.toNat tail).map (·.toUInt8)).take v.toNat).map (·.toUInt32)).length
        rw [List.length_cons, List.length_cons, List.length_map, List.length_take, List.length_map, takePadded_length]
        omega

theorem parseOneOidIndex_taken (hne : oidIndex ≠ []) (hlen : oidIndex.length ≤ TYPES_MAX_OID_LEN)
    (hacceptable : Acceptable t oidIndex) :
    ∃ var, parseOneOidIndex oidIndex (.fresh t) true = .ok (oidIndex.drop (width t oidIndex), var) ∧
      (width t oidIndex ≤ oidIndex.length → Rebuilt t oidIndex (oidIndex.drop (width t oidIndex)) var) ∧
      (oidIndex.length < width t oidIndex → ∀ name, buildOidSegment var = some name →
        oidIndex.length < name.length) := by
  obtain ⟨⟨rest, var⟩, h⟩ := (parseOneOidIndex_ok_iff hne hlen).mpr hacceptable
  by_cases hwidth : width t oidIndex ≤ oidIndex.length
  · have hwhole := h
    rw [parseOneOidIndex_whole hne hwidth] at hwhole
    obtain ⟨-, hrebuilt, -⟩ := rebuilt_of_parse hwhole
    have hrebuilt := hrebuilt fun ht => by
      rw [intOfSize_of_le hlen]
      subst ht
      exact_mod_cast hwidth
    obtain rfl := hrebuilt.rest_eq
    exact ⟨var, h, fun _ => hrebuilt, fun hlt => absurd hlt (Nat.not_lt.mpr hwidth)⟩
  · rw [Nat.not_le] at hwidth
    obtain ⟨rfl, hlong⟩ := parseOneOidIndex_cut hne hlen hwidth h
    refine ⟨var, ?_, fun hle => absurd hwidth (Nat.not_lt.mpr hle), fun _ => hlong⟩
    rw [h, List.drop_eq_nil_of_le (Nat.le_of_lt hwidth)]

/-! ## all indexes -/

/-- The values that have been read are built to the same OID just when it is whole. -/
def Rebuilds (types : List IndexType) (oidIndex : ObjId) (vars : List IndexVar) : Prop :=
  ∀ out : ObjId, out.length + oidIndex.length ≤ TYPES_MAX_OID_LEN →
    (buildLoop TYPES_MAX_OID_LEN sizeofOids out vars = .name (out ++ oidIndex) ↔ Whole types oidIndex)

theorem Rebuilds.nil : Rebuilds [] [] [] := by
  intro out _
  rw [List.append_nil]
  exact iff_of_true rfl trivial

theorem buildLoop_cons_iff {out r : ObjId} (hout : out.length ≤ TYPES_MAX_OID_LEN) :
    buildLoop TYPES_MAX_OID_LEN sizeofOids out (var :: vars) = .name r ↔
      ∃ name, buildOidSegment var = some name ∧ name.length + out.length ≤ TYPES_MAX_OID_LEN ∧
        buildLoop TYPES_MAX_OID_LEN sizeofOids (out ++ name) vars = .name r := by
  rw [buildLoop]
  cases hname : buildOidSegment var with
  | none =>
    refine iff_of_false Built.noConfusion fun h => ?_
    obtain ⟨name, h, -⟩ := h
    cases h
  | some name =>
    have hin : name.length + out.length ≤ sizeofOids := by
      have hle := length_le_of_buildOidSegment hname
      simp only [sizeofOids, TYPES_MAX_OID_LEN, SIZEOF_OID] at *
      omega
    simp only [if_pos hin]
    by_cases hspace : name.length + out.length ≤ TYPES_MAX_OID_LEN
    · rw [if_pos hspace]
      constructor
      · exact fun h => ⟨name, rfl, hspace, h⟩
      · rintro ⟨name', h, -, hloop⟩
        obtain rfl := Option.some.inj h
        exact hloop
    · rw [if_neg hspace]
      refine iff_of_false Built.noConfusion ?_
      rintro ⟨name', h, hspace', -⟩
      obtain rfl := Option.some.inj h
      exact hspace hspace'

theorem buildLoop_starts {out r : ObjId}
    (h : buildLoop TYPES_MAX_OID_LEN sizeofOids out vars = .name r) : ∃ z, r = out ++ z := by
  have hresult := @buildLoop_result vars out TYPES_MAX_OID_LEN sizeofOids
    (by rw [h]; exact Built.noConfusion)
  rw [h] at hresult
  exact Mib.buildLoop_extends hresult.symm

theorem Rebuilds.cons
    (hrebuilt : width t oidIndex ≤ oidIndex.length → Rebuilt t oidIndex (oidIndex.drop (width t oidIndex)) var)
    (hcut : oidIndex.length < width t oidIndex → ∀ name, buildOidSegment var = some name →
      oidIndex.length < name.length)
    (h : Rebuilds types (oidIndex.drop (width t oidIndex)) vars) : Rebuilds (t :: types) oidIndex (var :: vars) := by
  intro out hlen
  have hsplit := List.take_append_drop (width t oidIndex) oidIndex
  have hlens := congrArg List.length hsplit
  rw [List.length_append] at hlens
  rw [buildLoop_cons_iff (by omega)]
  constructor
  · rintro ⟨name, hname, -, hloop⟩
    obtain ⟨z, hz⟩ := buildLoop_starts hloop
    rw [List.append_assoc, List.append_cancel_left_eq] at hz
    have hwidth : width t oidIndex ≤ oidIndex.length := by
      by_contra hlt
      have hlong := hcut (Nat.lt_of_not_le hlt) name hname
      have hlen := congrArg List.length hz
      rw [List.length_append] at hlen
      omega
    obtain ⟨-, hsame, hother⟩ := hrebuilt hwidth
    by_cases hplain : Plain t (oidIndex.take (width t oidIndex))
    · have heq := (hsame hplain).symm.trans hname
      obtain rfl := Option.some.inj heq
      refine ⟨hwidth, hplain, (h (out ++ oidIndex.take (width t oidIndex)) ?_).mp ?_⟩
      · rw [List.length_append]
        omega
      · rw [hloop, List.append_assoc, hsplit]
    · obtain ⟨hlen, hdiff⟩ := hother hplain name hname
      exact absurd (List.append_inj_left (hsplit.trans hz) hlen.symm).symm hdiff
  · rintro ⟨hwidth, hplain, hwhole⟩
    refine ⟨_, (hrebuilt hwidth).same hplain, by omega, ?_⟩
    rw [(h (out ++ oidIndex.take (width t oidIndex)) (by rw [List.length_append]; omega)).mpr hwhole,
      List.append_assoc, hsplit]

theorem indexLoop_incomplete (n : Nat) (tmpName : ObjId) (vbs : List IndexVar) :
    indexLoop n true (-1) tmpName vbs = if vbs = [] then ⟨[], n, -1⟩ else ⟨vbs, n, 0⟩ := by
  cases vbs with
  | nil => rfl
  | cons vb vbs =>
    rw [indexLoop, if_pos ⟨rfl, by decide⟩, if_neg (List.cons_ne_nil _ _)]

theorem indexLoop_taken (n : Nat) (hne : oidIndex ≠ []) (hlen : oidIndex.length ≤ TYPES_MAX_OID_LEN)
    (htaken : Taken types oidIndex) :
    ∃ vars, indexLoop n false oidIndex.length oidIndex (types.map .fresh) = ⟨vars, n + types.length, -1⟩ ∧
      Rebuilds types oidIndex vars := by
  induction types generalizing n oidIndex with
  | nil => exact absurd htaken hne
  | cons t types ih =>
    obtain ⟨-, hacceptable, htaken⟩ := htaken
    obtain ⟨var, hparse, hrebuilt, hcut⟩ := parseOneOidIndex_taken hne hlen hacceptable
    rw [List.map_cons, indexLoop, if_neg (fun h => Bool.false_ne_true h.1), hparse]
    by_cases hleft : oidIndex.drop (width t oidIndex) = []
    · -- nothing is left, so that this is the last index
      rw [hleft] at htaken
      cases types with
      | nil =>
        refine ⟨[var], ?_, Rebuilds.cons hrebuilt hcut ?_⟩
        · rw [hleft]
          rfl
        · rw [hleft]
          exact Rebuilds.nil
      | cons u types => exact absurd rfl htaken.1
    · have hle : (oidIndex.drop (width t oidIndex)).length ≤ TYPES_MAX_OID_LEN := by
        rw [List.length_drop]
        omega
      obtain ⟨vars, hloop, hrebuilds⟩ := ih (n + 1) hleft hle htaken
      refine ⟨var :: vars, ?_, Rebuilds.cons hrebuilt hcut hrebuilds⟩
      have hpos : ¬ (oidIndex.drop (width t oidIndex)).length = 0 := fun h => hleft (List.length_eq_zero_iff.mp h)
      simp only [Bool.false_eq_true, if_false, if_neg hpos, hloop, List.length_cons]
      rw [Nat.add_assoc, Nat.add_comm 1]

theorem indexLoop_refused (n : Nat) (hne : oidIndex ≠ []) (hlen : oidIndex.length ≤ TYPES_MAX_OID_LEN)
    (htaken : ¬ Taken types oidIndex) :
    (indexLoop n false oidIndex.length oidIndex (types.map .fresh)).numberIndexes ≠ n + types.length ∨
      (indexLoop n false oidIndex.length oidIndex (types.map .fresh)).tmpLen ≠ -1 := by
  induction types generalizing n oidIndex with
  | nil =>
    refine Or.inr ?_
    show (oidIndex.length : Int) ≠ -1
    omega
  | cons t types ih =>
    rw [List.map_cons, indexLoop, if_neg (fun h => Bool.false_ne_true h.1)]
    by_cases hacceptable : Acceptable t oidIndex
    · obtain ⟨var, hparse, -, -⟩ := parseOneOidIndex_taken hne hlen hacceptable
      rw [hparse]
      by_cases hleft : oidIndex.drop (width t oidIndex) = []
      · rw [hleft]
        simp only [Bool.false_eq_true, if_false, List.length_nil, if_true, indexLoop_incomplete]
        cases types with
        | nil => exact absurd ⟨hne, hacceptable, hleft⟩ htaken
        | cons u types =>
          refine Or.inr ?_
          simp
      · have hle : (oidIndex.drop (width t oidIndex)).length ≤ TYPES_MAX_OID_LEN := by
          rw [List.length_drop]
          omega
        have hrest := ih (n + 1) hleft hle fun h => htaken ⟨hne, hacceptable, h⟩
        have hpos : ¬ (oidIndex.drop (width t oidIndex)).length = 0 := fun h => hleft (List.length_eq_zero_iff.mp h)
        simp only [Bool.false_eq_true, if_false, if_neg hpos, List.length_cons]
        rw [Nat.add_assoc, Nat.add_comm 1] at hrest
        exact hrest
    · cases hparse : parseOneOidIndex oidIndex (.fresh t) true with
      | ok left => exact absurd ((parseOneOidIndex_ok_iff hne hlen).mp ⟨left, hparse⟩) hacceptable
      | error left =>
        simp only [indexLoop_incomplete]
        cases types with
        | nil =>
          refine Or.inl ?_
          simp
        | cons u types =>
          refine Or.inr ?_
          simp

end Priot.Table
