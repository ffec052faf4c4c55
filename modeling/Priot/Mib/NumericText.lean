/-
# Numeric text that is read back

What `Mib_sprintReallocObjid` prints in the numeric format is read by `Mib_readObjid` under any MIB: below a table the
values of the indexes must be ones that the indexes allow. Allocations succeed.
-/
import Priot.Mib.ReadObjid

namespace Priot.Mib

open Lib List

/-! ## printing -/

/-- `_Mib_oidFinishPrinting`, behind the text that is in the buffer. -/
def oidFinishPrinting (objid : ObjId) (buf : Text) : Text :=
  let buf := if buf.getLast? = some 46 then buf else buf ++ [46]
  (objid.foldl (fun buf subid => buf ++ (decimal subid.toNat ++ [46])) buf).dropLast

/-- `Mib_sprintReallocObjid` in the numeric format, behind the text that is in the buffer. -/
def sprintReallocObjid (buf : Text) (objid : ObjId) : Text := buf ++ oidFinishPrinting objid [46]

theorem foldl_dotted (o : ObjId) (buf : Text) :
    o.foldl (fun buf subid => buf ++ (decimal subid.toNat ++ [46])) (buf ++ [46]) = buf ++ dotted o ++ [46] := by
  induction o generalizing buf with
  | nil => rw [show dotted [] = [] from rfl, append_nil, foldl_nil]
  | cons subid o ih =>
    have happend : buf ++ [46] ++ (decimal subid.toNat ++ [46]) = buf ++ (46 :: decimal subid.toNat) ++ [46] := by simp
    rw [foldl_cons, happend, ih, append_assoc buf]
    rfl

theorem sprintReallocObjid_eq (o : ObjId) : sprintReallocObjid [] o = dotted o := by
  have hprint : o.foldl (fun buf subid => buf ++ (decimal subid.toNat ++ [46])) [46] = dotted o ++ [46] :=
    foldl_dotted o []
  have hdot : ([46] : Text).getLast? = some 46 := rfl
  unfold sprintReallocObjid oidFinishPrinting
  rw [nil_append]
  dsimp only
  rw [if_pos hdot, hprint, dropLast_concat]

/-! ## index values -/

/-- The indexes that the reader checks below a leaf, and the subidentifiers from there on. -/
def tableOf : Option Tree → Tree → ObjId → List TableIndex × ObjId
  | _, _, [] => ([], [])
  | parent, tp, subid :: o =>
    if tp.children.isEmpty then ((parent.map Tree.indexes).getD [], subid :: o)
    else
      match Tree.findPeer (·.subid == subid) tp.children with
      | none => ([], o)
      | some tp2 => tableOf (some tp) tp2 o

/-- The types of which a value is one subidentifier. -/
def isNumber : ParseType → Bool
  | .integer | .integer32 | .uinteger | .unsigned32 | .timeticks => true
  | _ => false

def IsOctets (o : ObjId) : Prop := ∀ subid ∈ o, subid ≤ 255

/-- Whole values that the indexes allow. Behind an index that is not known, an OID, a network address of another kind or
a type that is not expected anything may follow. -/
inductive Legal : List TableIndex → ObjId → Prop
  | nil {o : ObjId} : Legal [] o
  | done {is : List TableIndex} : Legal is []
  | unknown {i : TableIndex} {is : List TableIndex} {o : ObjId} : i.node = none → Legal (i :: is) o
  | number {i : TableIndex} {is : List TableIndex} {node : IndexNode} {subid : Oid} {o : ObjId} : i.node = some node →
      isNumber node.type = true → node.ranges = [] ∨ inRanges node subid = true → Legal is o →
      Legal (i :: is) (subid :: o)
  | ipAddress {i : TableIndex} {is : List TableIndex} {node : IndexNode} {p o : ObjId} : i.node = some node →
      node.type = .ipaddr → p.length = 4 → IsOctets p → Legal is o → Legal (i :: is) (p ++ o)
  | string {i : TableIndex} {is : List TableIndex} {node : IndexNode} {len : Oid} {p o : ObjId} : i.node = some node →
      node.type = .octetstr → i.isimplied = false → fixedLength node = -1 → len.toNat = p.length → IsOctets p →
      Legal is o → Legal (i :: is) (len :: (p ++ o))
  | fixed {i : TableIndex} {is : List TableIndex} {node : IndexNode} {p o : ObjId} : i.node = some node →
      node.type = .octetstr → 0 ≤ fixedLength node → p.length = fixedLength node → IsOctets p → Legal is o →
      Legal (i :: is) (p ++ o)
  | implied {i : TableIndex} {is : List TableIndex} {node : IndexNode} {p : ObjId} : i.node = some node →
      node.type = .octetstr → i.isimplied = true → fixedLength node = -1 → IsOctets p → Legal (i :: is) p
  | netAddress {i : TableIndex} {is : List TableIndex} {node : IndexNode} {p o : ObjId} : i.node = some node →
      node.type = .netaddr → p.length = 4 → IsOctets p → Legal is o → Legal (i :: is) (1 :: (p ++ o))
  | otherAddress {i : TableIndex} {is : List TableIndex} {node : IndexNode} {subid : Oid} {o : ObjId} :
      i.node = some node → node.type = .netaddr → subid ≠ 1 → Legal (i :: is) (subid :: o)
  | other {i : TableIndex} {is : List TableIndex} {node : IndexNode} {o : ObjId} : i.node = some node →
      node.type = .objid ∨ node.type = .other → Legal (i :: is) o

variable {check : Bool} {maxlen n : Nat} {o p objid : ObjId}

theorem IsOctets.not_above {subid : Oid} (hp : IsOctets (subid :: p)) (check : Bool) :
    ¬ (check && subid > 255) = true := by
  rw [Bool.and_eq_true, decide_eq_true_eq, not_and]
  exact fun _ => UInt32.not_lt.mpr (hp subid mem_cons_self)

theorem pushOctets_numerals (check : Bool) (o objid : ObjId) (hp : IsOctets p) (hn : p.length = n) :
    pushOctets check n (numerals (p ++ o)) objid = some (numerals o, objid ++ p) := by
  induction p generalizing n objid with
  | nil =>
    obtain rfl : n = 0 := hn.symm
    rw [append_nil, nil_append, pushOctets]
  | cons subid p ih =>
    obtain ⟨m, rfl⟩ : ∃ m, n = m + 1 := ⟨p.length, hn.symm⟩
    have hsubid := hp.not_above check
    rw [cons_append, numerals, map_cons, pushOctets, subidOf_decimal]
    dsimp only
    rw [if_neg hsubid]
    refine (ih _ (fun s hs => hp s (mem_cons_of_mem _ hs)) (Nat.succ.inj hn)).trans ?_
    rw [append_assoc, singleton_append]

theorem pushNetOctets_numerals (check : Bool) (o objid : ObjId) (hp : IsOctets p) (hn : p.length = n)
    (hroom : objid.length + p.length < maxlen) :
    pushNetOctets check maxlen n (numerals (p ++ o)) objid = some (numerals o, objid ++ p) := by
  induction p generalizing n objid with
  | nil =>
    obtain rfl : n = 0 := hn.symm
    rw [append_nil, nil_append, pushNetOctets]
  | cons subid p ih =>
    obtain ⟨m, rfl⟩ : ∃ m, n = m + 1 := ⟨p.length, hn.symm⟩
    rw [length_cons] at hroom
    have hsubid := hp.not_above check
    rw [cons_append, numerals, map_cons, pushNetOctets, subidOf_decimal]
    dsimp only
    rw [if_neg (by omega), if_neg hsubid]
    refine (ih _ (fun s hs => hp s (mem_cons_of_mem _ hs)) (Nat.succ.inj hn) ?_).trans ?_
    · rw [length_append, length_singleton]
      omega
    · rw [append_assoc, singleton_append]

theorem intOfSubid_of_lt {subid : Oid} (h : subid.toNat < 2 ^ 31) : intOfSubid subid = subid.toNat :=
  BitVec.toInt_eq_toNat_of_lt (by show 2 * subid.toNat < 2 ^ 32; omega)

theorem Legal.indexLoop_isSome {is : List TableIndex} (h : Legal is o)
    (hroom : objid.length + o.length < TYPES_MAX_OID_LEN) :
    (indexLoop check TYPES_MAX_OID_LEN is (numerals o) objid).isSome = true := by
  have hmax : TYPES_MAX_OID_LEN = 128 := rfl
  -- one round that keeps the list of indexes
  have hround {i : TableIndex} {is : List TableIndex} {node : IndexNode} {subid : Oid} {p o objid q : ObjId}
      (hnode : i.node = some node)
      (hpush : pushIndex check TYPES_MAX_OID_LEN i.isimplied node (decimal subid.toNat) (numerals p) objid =
        some (numerals o, true, q))
      (hrest : (indexLoop check TYPES_MAX_OID_LEN is (numerals o) q).isSome = true) :
      (indexLoop check TYPES_MAX_OID_LEN (i :: is) (numerals (subid :: p)) objid).isSome = true := by
    show (indexLoop check TYPES_MAX_OID_LEN (i :: is) (decimal subid.toNat :: numerals p) objid).isSome = true
    rw [indexLoop, hnode]
    dsimp only
    rw [hpush]
    exact hrest
  -- one that does not
  have hlast {i : TableIndex} {is : List TableIndex} {node : IndexNode} {subid : Oid} {p objid : ObjId}
      {r : List Text × ObjId} (hnode : i.node = some node)
      (hpush : pushIndex check TYPES_MAX_OID_LEN i.isimplied node (decimal subid.toNat) (numerals p) objid =
        some (r.1, false, r.2)) :
      (indexLoop check TYPES_MAX_OID_LEN (i :: is) (numerals (subid :: p)) objid).isSome = true := by
    show (indexLoop check TYPES_MAX_OID_LEN (i :: is) (decimal subid.toNat :: numerals p) objid).isSome = true
    rw [indexLoop, hnode]
    dsimp only
    rw [hpush]
    rfl
  induction h generalizing objid with
  | nil => rfl
  | @done is => cases is <;> rfl
  | @unknown i is o hnode =>
    cases o with
    | nil => rfl
    | cons subid o =>
      rw [numerals, map_cons, indexLoop, hnode]
      rfl
  | @number i is node subid o hnode htype hrange hrest ih =>
    rw [length_cons] at hroom
    have hrefuse : ¬ (check && !node.ranges.isEmpty && !inRanges node subid) = true := by
      rcases hrange with hnone | hin
      · simp [hnone]
      · simp [hin]
    have hsubid : integerSubid node (decimal subid.toNat) = some subid := by
      unfold integerSubid
      rw [if_pos (numeric_decimal subid), subidOf_decimal]
    refine hround (q := objid ++ [subid]) hnode ?_ (ih ?_)
    · unfold pushIndex
      cases ht : node.type with
      | integer | integer32 | uinteger | unsigned32 | timeticks =>
        dsimp only
        rw [hsubid]
        dsimp only
        rw [if_neg hrefuse, if_neg (by omega)]
      | _ =>
        rw [ht] at htype
        cases htype
    · rw [length_append, length_singleton]
      omega
  | @ipAddress i is node p o hnode htype hlen hp hrest ih =>
    rw [length_append] at hroom
    have hpush := pushOctets_numerals check o objid hp hlen
    cases hq : p ++ o with
    | nil => rfl
    | cons subid q =>
      rw [hq] at hpush
      refine hround (q := objid ++ p) hnode ?_ (ih (by rw [length_append]; omega))
      unfold pushIndex
      rw [htype]
      dsimp only
      rw [if_neg (by omega)]
      exact congrArg (Option.map _) hpush
  | @string i is node len p o hnode htype himplied hfixed hlen hp hrest ih =>
    rw [length_cons, length_append] at hroom
    have hpush := pushOctets_numerals check o (objid ++ [len]) hp rfl
    have hint : intOfSubid len = p.length := by rw [intOfSubid_of_lt (by omega), hlen]
    have hvariable : (!false && (-1 : Int) == -1) = true := rfl
    have hrounds : rounds (intOfSubid len) (numerals (p ++ o)) = p.length := by
      unfold rounds
      rw [hint, if_neg (by omega), Int.toNat_natCast]
    refine hround (q := objid ++ [len] ++ p) hnode ?_
      (ih (by rw [length_append, length_append, length_singleton]; omega))
    unfold pushIndex
    rw [htype, himplied, hfixed, subidOf_decimal]
    dsimp only
    rw [if_pos hvariable, hrounds, hpush, hint, if_neg (by omega)]
    rfl
  | @fixed i is node p o hnode htype hfixed hlen hp hrest ih =>
    rw [length_append] at hroom
    have hpush := pushOctets_numerals check o objid hp rfl
    have hvariable : ¬ (!i.isimplied && fixedLength node == -1) = true := by
      rw [Bool.and_eq_true, beq_iff_eq]
      omega
    cases hq : p ++ o with
    | nil => rfl
    | cons subid q =>
      rw [hq] at hpush
      refine hround (q := objid ++ p) hnode ?_ (ih (by rw [length_append]; omega))
      unfold pushIndex rounds
      rw [htype]
      dsimp only
      rw [if_neg hvariable, if_neg (by omega), ← hlen, Int.toNat_natCast]
      exact congrArg (Option.map _) hpush
  | @implied i is node p hnode htype himplied hfixed hp =>
    have hpush := pushOctets_numerals check [] objid hp rfl
    rw [append_nil] at hpush
    have hvariable : ¬ (!i.isimplied && fixedLength node == -1) = true := by
      rw [himplied]
      exact Bool.false_ne_true
    cases p with
    | nil => rfl
    | cons subid q =>
      have hlen : (decimal subid.toNat :: numerals q).length = (subid :: q).length := by
        rw [length_cons, numerals, length_map, length_cons]
      refine hround (q := objid ++ subid :: q) (o := []) hnode ?_ (by cases is <;> rfl)
      unfold pushIndex rounds
      rw [htype]
      dsimp only
      rw [if_neg hvariable, hfixed, if_pos (by decide), hlen]
      exact congrArg (Option.map _) hpush
  | @netAddress i is node p o hnode htype hlen hp hrest ih =>
    rw [length_cons, length_append] at hroom
    have hpush := pushNetOctets_numerals check o (objid ++ [1]) hp hlen
      (show _ < TYPES_MAX_OID_LEN by rw [length_append, length_singleton]; omega)
    refine hround (q := objid ++ [1] ++ p) hnode ?_
      (ih (by rw [length_append, length_append, length_singleton]; omega))
    unfold pushIndex
    rw [htype, subidOf_decimal]
    dsimp only
    rw [if_neg (by omega), if_pos rfl, hpush]
    rfl
  | @otherAddress i is node subid o hnode htype hne =>
    rw [length_cons] at hroom
    refine hlast (r := (numerals o, objid ++ [subid])) hnode ?_
    unfold pushIndex
    rw [htype, subidOf_decimal]
    dsimp only
    rw [if_neg (by omega), if_neg hne]
  | @other i is node o hnode htype =>
    cases o with
    | nil => rfl
    | cons subid o =>
      refine hlast (r := (numerals (subid :: o), objid)) hnode ?_
      unfold pushIndex
      rcases htype with htype | htype
      all_goals
        rw [htype]
        rfl

/-! ## reading back -/

theorem walk_numerals (parent : Option Tree) (tp : Tree) (objid : ObjId) (hroom : objid.length + o.length ≤ maxlen) :
    ∃ p, o = p ++ (tableOf parent tp o).2 ∧ walk maxlen parent tp (numerals o) objid =
      some (numerals (tableOf parent tp o).2, (tableOf parent tp o).1, objid ++ p) := by
  induction o generalizing parent tp objid with
  | nil =>
    refine ⟨[], rfl, ?_⟩
    rw [append_nil]
    rfl
  | cons subid o ih =>
    rw [length_cons] at hroom
    rw [numerals, map_cons, walk, tableOf]
    by_cases hleaf : tp.children.isEmpty = true
    · rw [if_pos hleaf, if_pos hleaf]
      refine ⟨[], rfl, ?_⟩
      rw [append_nil]
      rfl
    · rw [if_neg hleaf, if_neg hleaf]
      unfold nextChild
      rw [if_pos (numeric_decimal subid), subidOf_decimal, Option.map_some]
      dsimp only
      rw [if_neg (by omega)]
      cases hfind : Tree.findPeer (·.subid == subid) tp.children with
      | none => exact ⟨[subid], rfl, rfl⟩
      | some tp2 =>
        obtain ⟨p, ho, hwalk⟩ := ih (some tp) tp2 (objid ++ [subid])
          (by rw [length_append, length_singleton]; omega)
        refine ⟨subid :: p, congrArg (subid :: ·) ho, ?_⟩
        rw [append_assoc] at hwalk
        exact hwalk

theorem accepts_of_legal {mib : MibState} {root : Tree} (hroot : mib.root = some root)
    (hlen : o.length ≤ TYPES_MAX_OID_LEN) (hlegal : Legal (tableOf none root o).1 (tableOf none root o).2)
    (hroom : o.length < TYPES_MAX_OID_LEN ∨ (tableOf none root o).1 = []) : Accepts mib o := by
  refine ⟨root, hroot, ?_⟩
  obtain ⟨p, ho, hwalk⟩ := walk_numerals none root [] (show [].length + o.length ≤ TYPES_MAX_OID_LEN by simpa using hlen)
  have hsum := congrArg List.length ho
  rw [length_append] at hsum
  have hindexes : (indexLoop mib.checkRange TYPES_MAX_OID_LEN (tableOf none root o).1
      (numerals (tableOf none root o).2) ([] ++ p)).isSome = true := by
    rcases hroom with hroom | hnone
    · refine hlegal.indexLoop_isSome ?_
      rw [nil_append]
      omega
    · rw [hnone]
      rfl
  obtain ⟨⟨cps, objid⟩, hloop⟩ := Option.isSome_iff_exists.mp hindexes
  obtain ⟨q, r, hrest, rfl, rfl⟩ := indexLoop_copies hloop
  rw [hrest, length_append] at hsum
  unfold addStringsToOid
  simp only [hwalk, hloop]
  rw [tailLoop_numerals (by simp only [nil_append, length_append]; omega)]
  rfl

/-- The OIDs that can be printed and read. -/
structure FullOid where
  oid : ObjId
  nonempty : oid ≠ []
  short : oid.length ≤ TYPES_MAX_OID_LEN

/-- What is printed is read as the same OID or not at all, and it is read if the values below a table are legal; at full
length, if no table is reached. -/
theorem readObjid_printed (mib : MibState) (root : Tree) (o : FullOid) :
    (∀ r, readObjid { mib with root := some root } (sprintReallocObjid [] o.oid) TYPES_MAX_OID_LEN = some r →
      r = o.oid) ∧
    (Legal (tableOf none root o.oid).1 (tableOf none root o.oid).2 →
      o.oid.length < TYPES_MAX_OID_LEN ∨ (tableOf none root o.oid).1 = [] →
      readObjid { mib with root := some root } (sprintReallocObjid [] o.oid) TYPES_MAX_OID_LEN = some o.oid) := by
  obtain ⟨hread, hrefuse⟩ := readObjid_dotted { mib with root := some root } o.nonempty
  rw [sprintReallocObjid_eq]
  refine ⟨fun r hr => ?_, fun hlegal hroom => hread (accepts_of_legal rfl o.short hlegal hroom)⟩
  by_cases haccepts : Accepts { mib with root := some root } o.oid
  · rw [hread haccepts] at hr
    exact (Option.some.inj hr).symm
  · rw [hrefuse haccepts] at hr
    cases hr

/-- A table with an index from 1 to 10. -/
def smallTable : Tree :=
  .mk [] 0 [.mk [] 1 [.mk [] 2 [] []] [⟨some ⟨.integer, [], [(1, 10)]⟩, false⟩]] []

/-- The value 11 is printed and refused. -/
theorem not_readObjid_printed : ¬ ∀ (mib : MibState) (root : Tree) (o : FullOid), mib.checkRange = true →
    readObjid { mib with root := some root } (sprintReallocObjid [] o.oid) TYPES_MAX_OID_LEN = some o.oid := by
  intro h
  have hread := h ⟨none, true, none, fun _ => none, fun _ => none⟩ smallTable ⟨[1, 2, 11], by decide, by decide⟩ rfl
  rw [sprintReallocObjid_eq] at hread
  have hnot : ¬ Accepts ⟨some smallTable, true, none, fun _ => none, fun _ => none⟩ [1, 2, 11] := by
    rintro ⟨root, hroot, hsome⟩
    cases hroot
    revert hsome
    decide +kernel
  rw [(readObjid_dotted _ (by decide)).2 hnot] at hread
  cases hread

end Priot.Mib
