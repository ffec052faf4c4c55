/-
# `Mib_readObjid` on numeric text

An OID is read by walking down the tree of the loaded MIBs. Behind a leaf of a table its indexes say how the next
subidentifiers are checked, and what is left is taken as it stands. Text in quotes and names with a module go to
parameters.
-/
import Priot.Asn01.Types
import Priot.Lib.CText

namespace Priot.Mib

open Lib List

/-- `tp->type`, as far as the switch over the type of an index tells types apart. -/
inductive ParseType
  | integer | integer32 | uinteger | unsigned32 | timeticks | ipaddr | octetstr | objid | netaddr | other
  deriving DecidableEq, Repr

/-- The node that an index is named after. -/
structure IndexNode where
  type : ParseType
  enums : List (Text × Int)
  ranges : List (Int × Int)

/-- `struct Parse_IndexList_s`, with what `Parse_findTreeNode` finds for its label. -/
structure TableIndex where
  node : Option IndexNode
  isimplied : Bool

/-- `struct Parse_Tree_s` with its children in the order of the list; `indexes` are those of the node, or
of the node it augments. -/
inductive Tree
  | mk (label : Text) (subid : Oid) (children : List Tree) (indexes : List TableIndex)

namespace Tree

def label : Tree → Text
  | mk label _ _ _ => label

def subid : Tree → Oid
  | mk _ subid _ _ => subid

def children : Tree → List Tree
  | mk _ _ children _ => children

def indexes : Tree → List TableIndex
  | mk _ _ _ indexes => indexes

/-- The last of the peers that follow with one subidentifier. -/
def lastPeer (tp : Tree) : List Tree → Tree
  | [] => tp
  | peer :: peers => if peer.subid = tp.subid then lastPeer peer peers else tp

/-- The first of the peers for which a test holds, and from there the last with its subidentifier. -/
def findPeer (p : Tree → Bool) : List Tree → Option Tree
  | [] => none
  | tp :: peers => if p tp then some (lastPeer tp peers) else findPeer p peers

end Tree

/-- What the reader of OIDs depends on: `_mib_treeTop` or else `parse_treeHead`, the options for ranges and
for OIDs without a leading dot (with the prefix they get), and the parts that numeric text does not reach. -/
structure MibState where
  root : Option Tree
  checkRange : Bool
  ucdPrefix : Option Text
  getNode : Text → Option ObjId
  quoted : Text → Option ObjId

/-- `strtoul( cp, &ecp, 0 )` assigned to an `oid`, where `*ecp` is the end. -/
def subidOf (cp : Text) : Option Oid :=
  if (strtoul 0 cp).2 = [] then some (UInt32.ofNat (strtoul 0 cp).1) else none

/-- `isdigit( *cp )`. -/
def numeric (cp : Text) : Bool := cp.head?.any isdigit

/-- The subidentifier that a part of the text stands for below a node, and the child with it. -/
def nextChild (tp : Tree) (cp : Text) : Option (Oid × Option Tree) :=
  if numeric cp then
    (subidOf cp).map fun subid => (subid, Tree.findPeer (·.subid == subid) tp.children)
  else
    (Tree.findPeer (·.label == cp) tp.children).map fun tp2 => (tp2.subid, some tp2)

/-- The first loop: what is left of the text, and the indexes it belongs to. -/
def walk (maxlen : Nat) : Option Tree → Tree → List Text → ObjId → Option (List Text × List TableIndex × ObjId)
  | _, _, [], objid => some ([], [], objid)
  | parent, tp, cp :: cps, objid =>
    if tp.children.isEmpty then some (cp :: cps, (parent.map Tree.indexes).getD [], objid)
    else
      match nextChild tp cp with
      | none => none
      | some (subid, tp2) =>
        if objid.length ≥ maxlen then none
        else
          match tp2 with
          | none => some (cps, [], objid ++ [subid])
          | some tp2 => walk maxlen (some tp) tp2 cps (objid ++ [subid])

/-- Up to `n` subidentifiers that must fit an octet, if ranges are checked. -/
def pushOctets (check : Bool) : Nat → List Text → ObjId → Option (List Text × ObjId)
  | 0, cps, objid => some (cps, objid)
  | _ + 1, [], objid => some ([], objid)
  | n + 1, cp :: cps, objid =>
    match subidOf cp with
    | none => none
    | some subid => if check && subid > 255 then none else pushOctets check n cps (objid ++ [subid])

/-- `pushOctets` with a test for room before each, as the branch for a `NETADDR` has it. -/
def pushNetOctets (check : Bool) (maxlen : Nat) : Nat → List Text → ObjId → Option (List Text × ObjId)
  | 0, cps, objid => some (cps, objid)
  | _ + 1, [], objid => some ([], objid)
  | n + 1, cp :: cps, objid =>
    match subidOf cp with
    | none => none
    | some subid =>
      if objid.length + 1 ≥ maxlen then none
      else if check && subid > 255 then none
      else pushNetOctets check maxlen n cps (objid ++ [subid])

/-- `( int ) subid`. -/
def intOfSubid (subid : Oid) : Int := subid.toInt32.toInt

/-- The subidentifier is in one of the ranges, if there are any. -/
def inRanges (node : IndexNode) (subid : Oid) : Bool :=
  if node.type = .integer ∨ node.type = .integer32 then
    node.ranges.any fun (low, high) => low ≤ intOfSubid subid && intOfSubid subid ≤ high
  else
    node.ranges.any fun (low, high) =>
      (low % 2 ^ 32).toNat ≤ subid.toNat && subid.toNat ≤ (high % 2 ^ 32).toNat

/-- The subidentifier an index of an integer type is given as. -/
def integerSubid (node : IndexNode) (cp : Text) : Option Oid :=
  if numeric cp then subidOf cp
  else (node.enums.find? (·.1 == cp)).map fun ep => UInt32.ofNat (ep.2 % 2 ^ 32).toNat

/-- The length all strings of an index have, or -1. -/
def fixedLength (node : IndexNode) : Int :=
  match node.ranges with
  | [(low, high)] => if low = high then low else -1
  | _ => -1

/-- How often the loop over the octets of a string runs; below zero it runs to the end of the text. -/
def rounds (len : Int) (cps : List Text) : Nat := if len < 0 then cps.length else len.toNat

/-- One index: the text that is left, whether the list of indexes is kept, and the OID. -/
def pushIndex (check : Bool) (maxlen : Nat) (isimplied : Bool) (node : IndexNode) (cp : Text)
    (cps : List Text) (objid : ObjId) : Option (List Text × Bool × ObjId) :=
  match node.type with
  | .integer | .integer32 | .uinteger | .unsigned32 | .timeticks =>
    match integerSubid node cp with
    | none => none
    | some subid =>
      if check && !node.ranges.isEmpty && !inRanges node subid then none
      else if objid.length ≥ maxlen then none
      else some (cps, true, objid ++ [subid])
  | .ipaddr =>
    if objid.length + 4 > maxlen then none
    else (pushOctets check 4 (cp :: cps) objid).map fun (cps, objid) => (cps, true, objid)
  | .octetstr =>
    if !isimplied && fixedLength node == -1 then
      match subidOf cp with
      | none => none
      | some len =>
        -- `*objidlen + len + 1` in the arithmetic of `size_t`
        if ((objid.length : Int) + intOfSubid len + 1) % 2 ^ 64 ≥ maxlen then none
        else (pushOctets check (rounds (intOfSubid len) cps) cps (objid ++ [len])).map
          fun (cps, objid) => (cps, true, objid)
    else
      (pushOctets check (rounds (fixedLength node) (cp :: cps)) (cp :: cps) objid).map
        fun (cps, objid) => (cps, true, objid)
  | .objid => some (cp :: cps, false, objid)
  | .netaddr =>
    match subidOf cp with
    | none => none
    | some subid =>
      if objid.length + 1 ≥ maxlen then none
      else if subid = 1 then
        (pushNetOctets check maxlen 4 cps (objid ++ [subid])).map fun (cps, objid) => (cps, true, objid)
      else some (cps, false, objid ++ [subid])
  | .other => some (cp :: cps, false, objid)

/-- The second loop. -/
def indexLoop (check : Bool) (maxlen : Nat) : List TableIndex → List Text → ObjId → Option (List Text × ObjId)
  | [], cps, objid => some (cps, objid)
  | _, [], objid => some ([], objid)
  | i :: indexes, cp :: cps, objid =>
    match i.node with
    | none => some (cp :: cps, objid)
    | some node =>
      match pushIndex check maxlen i.isimplied node cp cps objid with
      | none => none
      | some (cps, true, objid) => indexLoop check maxlen indexes cps objid
      | some (cps, false, objid) => some (cps, objid)

/-- The third loop. -/
def tailLoop (maxlen : Nat) : List Text → ObjId → Option ObjId
  | [], objid => some objid
  | cp :: cps, objid =>
    if numeric cp then
      match subidOf cp with
      | none => none
      | some subid => if objid.length ≥ maxlen then none else tailLoop maxlen cps (objid ++ [subid])
    else none

/-- `_Mib_addStringsToOid`, on a text that has been split at its dots. -/
def addStringsToOid (check : Bool) (root : Tree) (cps : List Text) (maxlen : Nat) : Option ObjId :=
  match walk maxlen none root cps [] with
  | none => none
  | some (cps, indexes, objid) =>
    match indexLoop check maxlen indexes cps objid with
    | none => none
    | some (cps, objid) => tailLoop maxlen cps objid

/-- The parts between the dots. -/
def splitDots : Text → List Text
  | [] => [[]]
  | c :: t =>
    if c = 46 then [] :: splitDots t
    else
      match splitDots t with
      | [] => [[c]]
      | cp :: cps => (c :: cp) :: cps

/-- `[0-9a-zA-Z-]`. -/
def isNameChar (c : UInt8) : Bool := isdigit c || isalpha c || c == 45

/-- `Mib_readObjid` into a buffer for `outLen` subidentifiers. -/
def readObjid (mib : MibState) (input : Text) (outLen : Nat) : Option ObjId :=
  if (input.dropWhile isNameChar).head? = some 58 then mib.getNode input
  else
    let name :=
      if input.head? = some 46 then input.drop 1
      else
        match mib.ucdPrefix with
        | none => input
        | some pre => (if pre.head? = some 46 then pre.drop 1 else pre) ++ 46 :: input
    match mib.root with
    | none => none
    | some root =>
      if name.any fun c => c == 34 || c == 39 then mib.quoted name
      else addStringsToOid mib.checkRange root (splitDots name) outLen

/-! ## an OID that is read is the one that was written -/

/-- The numerals of some subidentifiers. -/
def numerals (o : ObjId) : List Text := o.map fun subid => decimal subid.toNat

theorem stops_nil : Stops [] := by
  intro c hc
  cases hc

theorem subidOf_decimal (subid : Oid) : subidOf (decimal subid.toNat) = some subid := by
  have h := strtoul_decimal subid.toNat_lt stops_nil
  rw [append_nil] at h
  unfold subidOf
  rw [h, if_pos rfl, UInt32.ofNat_toNat]

theorem numeric_decimal (subid : Oid) : numeric (decimal subid.toNat) = true := by
  obtain ⟨d, t, h, hd, -⟩ := decimal_cons subid.toNat
  unfold numeric
  rw [h]
  exact (digit_facts d hd).2.1

/-- Some subidentifiers have been moved from the text to the OID. -/
def Copies (o objid : ObjId) (cps : List Text) (objid' : ObjId) : Prop :=
  ∃ p q, o = p ++ q ∧ cps = numerals q ∧ objid' = objid ++ p

theorem Copies.refl (o objid : ObjId) : Copies o objid (numerals o) objid :=
  ⟨[], o, rfl, rfl, (append_nil objid).symm⟩

variable {o objid objid' : ObjId} {cps : List Text}

theorem Copies.cons {subid : Oid}
    (h : Copies o (objid ++ [subid]) cps objid') : Copies (subid :: o) objid cps objid' := by
  obtain ⟨p, q, rfl, hcps, rfl⟩ := h
  refine ⟨subid :: p, q, rfl, hcps, ?_⟩
  rw [append_assoc]
  rfl

variable {maxlen : Nat}

theorem walk_copies {parent : Option Tree} {tp : Tree}
    {indexes : List TableIndex} (h : walk maxlen parent tp (numerals o) objid = some (cps, indexes, objid')) :
    Copies o objid cps objid' := by
  induction o generalizing parent tp objid with
  | nil =>
    cases h
    exact .refl _ _
  | cons subid o ih =>
    show Copies _ _ _ _
    rw [numerals, map_cons, walk] at h
    by_cases hleaf : tp.children.isEmpty = true
    · rw [if_pos hleaf] at h
      cases h
      exact .refl _ _
    · rw [if_neg hleaf] at h
      unfold nextChild at h
      rw [if_pos (numeric_decimal subid), subidOf_decimal, Option.map_some] at h
      simp only at h
      split at h
      · cases h
      · split at h
        · cases h
          exact .cons (.refl o _)
        · exact .cons (ih h)

variable {check : Bool}

theorem pushOctets_copies {n : Nat}
    (h : pushOctets check n (numerals o) objid = some (cps, objid')) : Copies o objid cps objid' := by
  induction o generalizing n objid with
  | nil =>
    cases n <;> cases h <;> exact .refl _ _
  | cons subid o ih =>
    cases n with
    | zero =>
      cases h
      exact .refl _ _
    | succ n =>
      rw [numerals, map_cons, pushOctets, subidOf_decimal] at h
      simp only at h
      split at h
      · cases h
      · exact .cons (ih h)

theorem pushNetOctets_copies {n : Nat}
    (h : pushNetOctets check maxlen n (numerals o) objid = some (cps, objid')) : Copies o objid cps objid' := by
  induction o generalizing n objid with
  | nil =>
    cases n <;> cases h <;> exact .refl _ _
  | cons subid o ih =>
    cases n with
    | zero =>
      cases h
      exact .refl _ _
    | succ n =>
      rw [numerals, map_cons, pushNetOctets, subidOf_decimal] at h
      simp only at h
      split at h
      · cases h
      · split at h
        · cases h
        · exact .cons (ih h)

theorem pushIndex_copies {isimplied : Bool} {node : IndexNode} {subid : Oid} {keep : Bool}
    (h : pushIndex check maxlen isimplied node (decimal subid.toNat) (numerals o) objid =
      some (cps, keep, objid')) : Copies (subid :: o) objid cps objid' := by
  have hcons : decimal subid.toNat :: numerals o = numerals (subid :: o) := rfl
  have hrefl := Copies.refl (subid :: o) objid
  unfold pushIndex at h
  cases htype : node.type with
  | integer | integer32 | uinteger | unsigned32 | timeticks =>
    simp only [htype] at h
    unfold integerSubid at h
    rw [if_pos (numeric_decimal subid), subidOf_decimal] at h
    simp only at h
    split at h
    · cases h
    · split at h
      · cases h
      · cases h
        exact .cons (.refl o _)
  | ipaddr =>
    simp only [htype] at h
    rw [hcons] at h
    split at h
    · cases h
    · obtain ⟨⟨cps', objid''⟩, hpush, heq⟩ := Option.map_eq_some_iff.mp h
      cases heq
      exact pushOctets_copies hpush
  | octetstr =>
    simp only [htype] at h
    split at h
    · rw [subidOf_decimal] at h
      simp only at h
      split at h
      · cases h
      · obtain ⟨⟨cps', objid''⟩, hpush, heq⟩ := Option.map_eq_some_iff.mp h
        cases heq
        exact .cons (pushOctets_copies hpush)
    · rw [hcons] at h
      obtain ⟨⟨cps', objid''⟩, hpush, heq⟩ := Option.map_eq_some_iff.mp h
      cases heq
      exact pushOctets_copies hpush
  | netaddr =>
    simp only [htype] at h
    rw [subidOf_decimal] at h
    simp only at h
    split at h
    · cases h
    · split at h
      · obtain ⟨⟨cps', objid''⟩, hpush, heq⟩ := Option.map_eq_some_iff.mp h
        cases heq
        exact .cons (pushNetOctets_copies hpush)
      · cases h
        exact .cons (.refl o _)
  | objid | other =>
    simp only [htype] at h
    cases h
    exact hrefl

theorem indexLoop_copies {indexes : List TableIndex} (h : indexLoop check maxlen indexes (numerals o) objid = some (cps, objid')) :
    Copies o objid cps objid' := by
  induction indexes generalizing o objid with
  | nil =>
    cases h
    exact .refl _ _
  | cons i indexes ih =>
    cases o with
    | nil =>
      cases h
      exact .refl _ _
    | cons subid o =>
      rw [numerals, map_cons, indexLoop] at h
      split at h
      · cases h
        exact .refl _ _
      · split at h
        · cases h
        · next hpush =>
          obtain ⟨p, q, ho, rfl, rfl⟩ := pushIndex_copies hpush
          obtain ⟨p', q', rfl, hcps, rfl⟩ := ih h
          exact ⟨p ++ p', q', by rw [ho, append_assoc], hcps, by rw [append_assoc]⟩
        · next hpush =>
          cases h
          exact pushIndex_copies hpush

theorem tailLoop_copies {r : ObjId} (h : tailLoop maxlen (numerals o) objid = some r) : r = objid ++ o := by
  induction o generalizing objid with
  | nil =>
    cases h
    rw [append_nil]
  | cons subid o ih =>
    rw [numerals, map_cons, tailLoop, if_pos (numeric_decimal subid), subidOf_decimal] at h
    simp only at h
    split at h
    · cases h
    · rw [ih h, append_assoc]
      rfl

theorem addStringsToOid_numerals {root : Tree} {r : ObjId}
    (h : addStringsToOid check root (numerals o) maxlen = some r) : r = o := by
  unfold addStringsToOid at h
  split at h
  · cases h
  · next cps indexes objid hwalk =>
    obtain ⟨p, q, rfl, rfl, rfl⟩ := walk_copies hwalk
    split at h
    · cases h
    · next cps' objid' hloop =>
      obtain ⟨p', q', rfl, rfl, rfl⟩ := indexLoop_copies hloop
      rw [tailLoop_copies h, append_assoc]

/-! ## numeric text -/

/-- The numerals of an OID, each with a dot in front. -/
def dotted (o : ObjId) : Text := o.flatMap fun subid => 46 :: decimal subid.toNat

theorem splitDots_of_no_dot {w : Text} (hw : ∀ c ∈ w, c ≠ 46) : splitDots w = [w] := by
  induction w with
  | nil => rfl
  | cons c w ih =>
    rw [splitDots, if_neg (hw c (by simp)), ih fun c hc => hw c (by simp [hc])]

theorem splitDots_append {w : Text} (hw : ∀ c ∈ w, c ≠ 46) (t : Text) :
    splitDots (w ++ 46 :: t) = w :: splitDots t := by
  induction w with
  | nil =>
    show splitDots (46 :: t) = _
    rw [splitDots, if_pos rfl]
  | cons c w ih =>
    rw [cons_append, splitDots, if_neg (hw c (by simp)), ih fun c hc => hw c (by simp [hc])]

theorem splitDots_dotted (subid : Oid) (o : ObjId) :
    splitDots (decimal subid.toNat ++ dotted o) = numerals (subid :: o) := by
  have hdot : ∀ subid : Oid, ∀ c ∈ decimal subid.toNat, c ≠ 46 := fun subid c hc =>
    (decimal_facts hc).2.2.2.2.2.1
  induction o generalizing subid with
  | nil =>
    show splitDots (decimal subid.toNat ++ []) = [decimal subid.toNat]
    rw [append_nil, splitDots_of_no_dot (hdot subid)]
  | cons next o ih =>
    show splitDots (decimal subid.toNat ++ 46 :: (decimal next.toNat ++ dotted o)) = _
    rw [splitDots_append (hdot subid), ih next]
    rfl

theorem dotted_facts {c : UInt8} (h : c ∈ dotted o) : isspace c = false ∧ c ≠ 34 ∧ c ≠ 39 ∧ c ≠ 92 ∧ c ≠ 0 := by
  obtain ⟨subid, -, hc⟩ := mem_flatMap.mp h
  rcases mem_cons.mp hc with rfl | hc
  · decide
  · obtain ⟨h₁, -, -, -, -, -, h₂, h₃, h₄, -, -, -, h₅⟩ := decimal_facts hc
    exact ⟨h₁, h₂, h₃, h₄, h₅⟩

/-- The reader accepts an OID: the loaded MIBs have a root, and no index refuses a subidentifier. -/
def Accepts (mib : MibState) (o : ObjId) : Prop :=
  ∃ root, mib.root = some root ∧ (addStringsToOid mib.checkRange root (numerals o) TYPES_MAX_OID_LEN).isSome = true

theorem readObjid_dotted (mib : MibState) (hne : o ≠ []) :
    (Accepts mib o → readObjid mib (dotted o) TYPES_MAX_OID_LEN = some o) ∧
    (¬ Accepts mib o → readObjid mib (dotted o) TYPES_MAX_OID_LEN = none) := by
  cases o with
  | nil => exact absurd rfl hne
  | cons subid o =>
    have hname : (decimal subid.toNat ++ dotted o).any (fun c => c == 34 || c == 39) = false := by
      rw [any_eq_false]
      intro c hc
      have hc' : c ∈ dotted (subid :: o) := mem_cons_of_mem 46 hc
      obtain ⟨-, h₁, h₂, -⟩ := dotted_facts hc'
      simp [h₁, h₂]
    have hread : readObjid mib (dotted (subid :: o)) TYPES_MAX_OID_LEN =
        mib.root.bind fun root =>
          addStringsToOid mib.checkRange root (numerals (subid :: o)) TYPES_MAX_OID_LEN := by
      show readObjid mib (46 :: (decimal subid.toNat ++ dotted o)) TYPES_MAX_OID_LEN = _
      unfold readObjid
      rw [if_neg (by rw [dropWhile_cons_of_neg (by decide)]; simp)]
      simp only [head?_cons, if_true, drop_succ_cons, drop_zero, hname, Bool.false_eq_true,
        if_false, splitDots_dotted]
      cases mib.root <;> rfl
    constructor
    · rintro ⟨root, hroot, hsome⟩
      obtain ⟨r, hr⟩ := Option.isSome_iff_exists.mp hsome
      rw [hread, hroot, Option.bind_some, hr, addStringsToOid_numerals hr]
    · intro hnot
      rw [hread]
      cases hroot : mib.root with
      | none => rfl
      | some root =>
        rw [Option.bind_some, ← Option.not_isSome_iff_eq_none]
        exact fun hsome => hnot ⟨root, hroot, hsome⟩

theorem tailLoop_numerals (hlen : objid.length + o.length ≤ maxlen) :
    tailLoop maxlen (numerals o) objid = some (objid ++ o) := by
  induction o generalizing objid with
  | nil =>
    rw [append_nil]
    rfl
  | cons subid o ih =>
    rw [length_cons] at hlen
    rw [numerals, map_cons, tailLoop, if_pos (numeric_decimal subid), subidOf_decimal]
    simp only
    rw [if_neg (by omega)]
    refine (ih (by rw [length_append, length_singleton]; omega)).trans ?_
    rw [append_assoc]
    rfl

end Priot.Mib
