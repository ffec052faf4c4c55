/-
# The store of `header_complex.c`

Entries are kept in a doubly linked list in the order of their OIDs, a new one behind those with the same OID. Nodes
live in memory here as in the source. To follow a pointer to a node that is not there is a fault, as is a loop that
takes more rounds than there are nodes and a name of more than 128 subidentifiers.
-/
import Priot.Lib.DoublyLinked
import Priot.Lib.Least
import Priot.Registry.Oid
import Mathlib.Data.List.TakeWhile

namespace Priot.HeaderComplex

open Lib Registry List

/-! ## the functions -/

/-- What `header_complex_index` holds besides its links. -/
structure Entry where
  name : ObjId
  data : Ptr
  deriving DecidableEq

/-- The nodes in use, the address of the next one to be allocated, and `*thedata`. -/
structure State where
  nodes : Nodes Entry
  brk : Ptr
  top : Option Ptr

/-- The loop of `header_complex_maybe_add_data_by_oid`: `hciptrp` and `hciptrn`, or the end of the function. -/
def searchLoop (nodes : Nodes Entry) (newoid : ObjId) (dontAllowDuplicates : Bool) :
    Nat → Option Ptr → Option Ptr → Option (Option (Option Ptr × Option Ptr))
  | _, hciptrp, none => some (some (hciptrp, none))
  | 0, _, some _ => none
  | n + 1, hciptrp, some hciptrn => (nodes hciptrn).bind fun node =>
    match oidCompare node.data.name newoid with
    | .gt => some (some (hciptrp, some hciptrn))
    | .eq => if dontAllowDuplicates then some none
      else searchLoop nodes newoid dontAllowDuplicates n (some hciptrn) node.next
    | .lt => searchLoop nodes newoid dontAllowDuplicates n (some hciptrn) node.next

def addBetween (s : State) (hciptrp hciptrn : Option Ptr) (newoid : ObjId) (data : Ptr) : Option (Ptr × State) :=
  let ourself := s.brk
  let nodes := Function.update s.nodes ourself (some ⟨hciptrp, hciptrn, ⟨newoid, data⟩⟩)
  (setPrev nodes hciptrn (some ourself)).bind fun nodes =>
    (setNext nodes hciptrp (some ourself)).bind fun nodes =>
      (rewind nodes (s.brk + 1) ourself).map fun head => (head, ⟨nodes, s.brk + 1, some head⟩)

def maybeAddDataByOid (s : State) (newoid : ObjId) (data : Option Ptr) (dontAllowDuplicates : Bool) :
    Option (Option Ptr × State) :=
  match data with
  | none => some (none, s)
  | some data => (searchLoop s.nodes newoid dontAllowDuplicates s.brk none s.top).bind fun place =>
    match place with
    | none => some (none, s)
    | some (hciptrp, hciptrn) =>
      (addBetween s hciptrp hciptrn newoid data).map fun (head, s) => (some head, s)

def addDataByOid (s : State) (newoid : ObjId) (data : Option Ptr) : Option (Option Ptr × State) :=
  maybeAddDataByOid s newoid data false

/-- `header_complex_extract_entry`, with the head of the list. -/
def extractEntry (s : State) (thespot : Option Ptr) : Option (Option Ptr × State) :=
  match thespot with
  | none => some (none, s)
  | some p => (s.nodes p).bind fun node =>
    (setNext s.nodes node.prev node.next).bind fun nodes =>
      (setPrev nodes node.next node.prev).map fun nodes =>
        (some node.data.data, ⟨Function.update nodes p none, s.brk, if node.prev = none then node.next else s.top⟩)

/-- The name of an entry below a prefix, if it has room. -/
def nameBelow (vp : Option ObjId) (e : Entry) : Option ObjId :=
  if (vp.getD []).length + e.name.length ≤ TYPES_MAX_OID_LEN then some (vp.getD [] ++ e.name) else none

/-- The loop of `header_complex`. -/
def findLoop (nodes : Nodes Entry) (vp : Option ObjId) (name : ObjId) (exact : Bool) :
    Nat → Option Ptr → Option (Option Ptr)
  | _, none => some none
  | 0, some _ => none
  | n + 1, some p => (nodes p).bind fun nptr => (nameBelow vp nptr.data).bind fun indexOid =>
    match oidCompare name indexOid with
    | .eq =>
      if exact then some (some p)
      else if nptr.next.isSome then some nptr.next
      else findLoop nodes vp name exact n nptr.next
    | .lt => if exact then findLoop nodes vp name exact n nptr.next else some (some p)
    | .gt => findLoop nodes vp name exact n nptr.next

/-- `header_complex`: the name and the data of the entry it finds. -/
def headerComplex (s : State) (vp : Option ObjId) (name : ObjId) (exact : Bool) : Option (Option (ObjId × Ptr)) :=
  (findLoop s.nodes vp name exact s.brk s.top).bind fun found =>
    match found with
    | none => some none
    | some p => (s.nodes p).bind fun node => (nameBelow vp node.data).map fun name => some (name, node.data.data)

/-! ## runs -/

/-- An empty store. -/
def State.init : State := ⟨fun _ => none, 0, none⟩

inductive Call
  | add (newoid : ObjId) (data : Option Ptr)
  | maybeAdd (newoid : ObjId) (data : Option Ptr) (dontAllowDuplicates : Bool)
  | extract (thespot : Option Ptr)

def State.call (s : State) : Call → Option (Option Ptr × State)
  | .add newoid data => addDataByOid s newoid data
  | .maybeAdd newoid data dontAllowDuplicates => maybeAddDataByOid s newoid data dontAllowDuplicates
  | .extract thespot => extractEntry s thespot

/-- An entry that is extracted is in the store. -/
def Call.Proper (s : State) : Call → Prop
  | .extract (some p) => (s.nodes p).isSome
  | _ => True

/-- The states that calls lead to. -/
inductive Reached : State → Prop
  | init : Reached .init
  | step {s s' : State} {call : Call} {r : Option Ptr} (hs : Reached s) (hproper : call.Proper s)
      (hcall : s.call call = some (r, s')) : Reached s'

/-- The entries of the store, in order. -/
structure Holds (s : State) (l : List (Ptr × Entry)) : Prop where
  linked : Doubly s.nodes none l none
  top : s.top = front l none
  sorted : l.Pairwise fun x y => x.2.name ≤ y.2.name
  nodup : (l.map Prod.fst).Nodup
  below : ∀ p ∈ l.map Prod.fst, p < s.brk
  only : ∀ p, p ∉ l.map Prod.fst → s.nodes p = none

variable {s s' : State} {l pre post : List (Ptr × Entry)} {x : Ptr × Entry} {newoid name o : ObjId} {p : Ptr}
  {vp : Option ObjId} {dontAllowDuplicates : Bool} {n : Nat} {back : Option Ptr}

theorem Holds.length_le (h : Holds s l) : l.length ≤ s.brk := by
  have hle := Lib.length_le_of_below h.nodup h.below
  rwa [length_map] at hle

/-- A new entry goes behind those that are not greater. -/
def notGreater (newoid : ObjId) (l : List (Ptr × Entry)) : List (Ptr × Entry) :=
  l.takeWhile fun x => oidCompare x.2.name newoid ≠ .gt

def greater (newoid : ObjId) (l : List (Ptr × Entry)) : List (Ptr × Entry) :=
  l.dropWhile fun x => oidCompare x.2.name newoid ≠ .gt

theorem searchLoop_spec {nodes : Nodes Entry} (newoid : ObjId) (dontAllowDuplicates : Bool)
    (hl : Doubly nodes back l none) (hn : l.length ≤ n) :
    searchLoop nodes newoid dontAllowDuplicates n back (front l none) =
      if dontAllowDuplicates = true ∧ ∃ x ∈ notGreater newoid l, x.2.name = newoid then some none
      else some (some (rear back (notGreater newoid l), front (greater newoid l) none)) := by
  have hno : ¬ (dontAllowDuplicates = true ∧ ∃ x ∈ ([] : List (Ptr × Entry)), x.2.name = newoid) := by
    simp
  induction l generalizing back n with
  | nil =>
    unfold notGreater greater
    rw [takeWhile_nil, if_neg hno]
    cases n <;> rfl
  | cons x l ih =>
    obtain ⟨n, rfl, hn'⟩ := Lib.exists_round hn
    have hrec := ih hl.2 hn'
    rw [front, searchLoop, hl.1, Option.bind_some]
    unfold notGreater greater at hrec ⊢
    cases hcompare : oidCompare x.2.name newoid with
    | gt =>
      rw [takeWhile_cons_of_neg (by simp [hcompare]), dropWhile_cons_of_neg (by simp [hcompare])]
      rw [if_neg hno]
      rfl
    | eq =>
      rw [takeWhile_cons_of_pos (by simp [hcompare]), dropWhile_cons_of_pos (by simp [hcompare])]
      -- a node of the same name is passed over, unless duplicates are refused
      have heq := oidCompare_eq.mp hcompare
      show (if dontAllowDuplicates = true then some none
        else searchLoop nodes newoid dontAllowDuplicates n (some x.1) (front l none)) = _
      by_cases hdont : dontAllowDuplicates = true
      · rw [if_pos hdont, if_pos ⟨hdont, x, mem_cons_self, heq⟩]
      · have hfalse : ∀ q : Prop, ¬ (dontAllowDuplicates = true ∧ q) := fun q h => hdont h.1
        rw [if_neg hdont, hrec, if_neg (hfalse _), if_neg (hfalse _)]
        rfl
    | lt =>
      rw [takeWhile_cons_of_pos (by simp [hcompare]), dropWhile_cons_of_pos (by simp [hcompare])]
      have hne : x.2.name ≠ newoid := fun h => by rw [oidCompare_eq.mpr h] at hcompare; cases hcompare
      have hiff : (∃ y ∈ x :: l.takeWhile fun x => oidCompare x.2.name newoid ≠ .gt, y.2.name = newoid) ↔
          ∃ y ∈ l.takeWhile fun x => oidCompare x.2.name newoid ≠ .gt, y.2.name = newoid := by
        simp only [mem_cons, or_and_right, exists_or, exists_eq_left, hne, false_or]
      simp only [hiff]
      exact hrec

/-! ## what the calls leave -/

theorem parts_eq (newoid : ObjId) (l : List (Ptr × Entry)) : notGreater newoid l ++ greater newoid l = l :=
  takeWhile_append_dropWhile

theorem le_of_mem_notGreater (hx : x ∈ notGreater newoid l) : x.2.name ≤ newoid := by
  have hcompare := mem_takeWhile_imp hx
  rw [decide_eq_true_eq, ne_eq, oidCompare_gt] at hcompare
  exact hcompare

theorem lt_of_mem_greater (hsorted : l.Pairwise fun x y => x.2.name ≤ y.2.name) (hx : x ∈ greater newoid l) :
    newoid < x.2.name := by
  unfold greater at hx
  induction l with
  | nil => exact absurd hx not_mem_nil
  | cons y l ih =>
    obtain ⟨hy, hl⟩ := pairwise_cons.mp hsorted
    by_cases hcompare : oidCompare y.2.name newoid = .gt
    · rw [dropWhile_cons_of_neg (by simp [hcompare])] at hx
      have hlt := oidCompare_gt.mp hcompare
      rcases mem_cons.mp hx with rfl | hx
      · exact hlt
      · rcases List.le_iff_lt_or_eq.mp (hy x hx) with h | h
        · exact List.lt_trans hlt h
        · rwa [← h]
    · rw [dropWhile_cons_of_pos (by simp [hcompare])] at hx
      exact ih hl hx

theorem mem_notGreater (hsorted : l.Pairwise fun x y => x.2.name ≤ y.2.name) :
    (∃ x ∈ notGreater newoid l, x.2.name = newoid) ↔ ∃ x ∈ l, x.2.name = newoid := by
  constructor
  · rintro ⟨x, hx, hname⟩
    exact ⟨x, parts_eq newoid l ▸ mem_append_left _ hx, hname⟩
  · rintro ⟨x, hx, hname⟩
    rw [← parts_eq newoid l] at hx
    rcases mem_append.mp hx with hx | hx
    · exact ⟨x, hx, hname⟩
    · have hlt := lt_of_mem_greater hsorted hx
      rw [hname] at hlt
      exact absurd hlt (List.lt_irrefl newoid)

theorem init_holds : Holds .init [] :=
  ⟨trivial, rfl, .nil, nodup_nil, fun _ h => absurd h not_mem_nil, fun _ _ => rfl⟩

theorem maybeAdd_refused (h : Holds s l) (hex : ∃ x ∈ l, x.2.name = newoid) (data : Option Ptr) :
    maybeAddDataByOid s newoid data true = some (none, s) := by
  cases data with
  | none => rfl
  | some data =>
    have hsearch := searchLoop_spec newoid true h.linked h.length_le
    rw [if_pos ⟨rfl, (mem_notGreater h.sorted).mpr hex⟩, ← h.top] at hsearch
    rw [maybeAddDataByOid, hsearch]
    rfl

theorem addBetween_spec (h : Holds s l) (newoid : ObjId) (data : Ptr) :
    ∃ head s', addBetween s (rear none (notGreater newoid l)) (front (greater newoid l) none) newoid data =
        some (head, s') ∧ Holds s' (notGreater newoid l ++ (s.brk, ⟨newoid, data⟩) :: greater newoid l) := by
  -- a new node has an address that is none of the list's
  have hfresh : s.brk ∉ l.map Prod.fst := fun hmem => lt_irrefl _ (h.below _ hmem)
  have hlinked : Doubly (Function.update s.nodes s.brk
      (some ⟨rear none (notGreater newoid l), front (greater newoid l) none, ⟨newoid, data⟩⟩)) none
      (notGreater newoid l ++ greater newoid l) none := by
    rw [parts_eq]
    exact h.linked.update hfresh _
  have hnodup := h.nodup
  have hlen := h.length_le
  rw [← parts_eq newoid l] at hnodup hfresh hlen
  rw [length_append] at hlen
  obtain ⟨hpre, hpost⟩ := doubly_append.mp hlinked
  obtain ⟨h₁, h₂, hprev, hnext, hall, hframe⟩ := hpre.insert hpost hnodup hfresh (Function.update_self ..)
  -- the list is rewound from its new node to its head
  have hrewind := hall.rewind_eq (Nat.lt_succ_of_le (le_trans (Nat.le_add_right _ _) hlen))
  have hhead : ∃ head, front (notGreater newoid l ++ (s.brk, ⟨newoid, data⟩) :: greater newoid l) none = some head := by
    cases notGreater newoid l with
    | nil => exact ⟨_, rfl⟩
    | cons y pre => exact ⟨_, rfl⟩
  obtain ⟨head, hhead⟩ := hhead
  rw [hhead] at hrewind
  refine ⟨head, ⟨h₂, s.brk + 1, some head⟩, ?_, ⟨hall, hhead.symm, ?_, ?_, ?_, ?_⟩⟩
  · simp only [addBetween, hprev, Option.bind_some, hnext, hrewind, Option.map_some]
  · have hsorted := h.sorted
    rw [← parts_eq newoid l, pairwise_append] at hsorted
    rw [pairwise_append, pairwise_cons]
    refine ⟨hsorted.1, ⟨fun y hy => List.le_of_lt (lt_of_mem_greater h.sorted hy), hsorted.2.1⟩, fun y hy z hz => ?_⟩
    rcases mem_cons.mp hz with rfl | hz
    · exact le_of_mem_notGreater hy
    · exact hsorted.2.2 y hy z hz
  · rw [map_append, map_cons, List.nodup_middle, ← map_append, nodup_cons]
    exact ⟨hfresh, hnodup⟩
  · intro p hp
    rw [map_append, map_cons, mem_append, mem_cons] at hp
    have hold : p = s.brk ∨ p ∈ (notGreater newoid l ++ greater newoid l).map Prod.fst := by
      rw [map_append, mem_append]
      tauto
    rcases hold with rfl | hold
    · exact Nat.lt_succ_self _
    · rw [parts_eq] at hold
      exact Nat.lt_succ_of_lt (h.below p hold)
  · intro p hp
    rw [map_append, map_cons, mem_append, mem_cons, not_or, not_or] at hp
    have hold : p ∉ (notGreater newoid l ++ greater newoid l).map Prod.fst := by
      rw [map_append, mem_append, not_or]
      exact ⟨hp.1, hp.2.2⟩
    show h₂ p = none
    rw [hframe p hold, Function.update_of_ne hp.2.1]
    rw [parts_eq] at hold
    exact h.only p hold

theorem addDataByOid_eq (h : Holds s l) {head : Ptr} {data : Ptr}
    (hadd : addBetween s (rear none (notGreater newoid l)) (front (greater newoid l) none) newoid data =
      some (head, s')) : s.call (.add newoid (some data)) = some (some head, s') := by
  have hsearch := searchLoop_spec newoid false h.linked h.length_le
  rw [if_neg (fun h => Bool.false_ne_true h.1), ← h.top] at hsearch
  show maybeAddDataByOid s newoid (some data) false = _
  simp only [maybeAddDataByOid, hsearch, Option.bind_some, hadd, Option.map_some]

theorem maybeAdd_spec (h : Holds s l) (newoid : ObjId) (data : Option Ptr) (dontAllowDuplicates : Bool) :
    ∃ r s', maybeAddDataByOid s newoid data dontAllowDuplicates = some (r, s') ∧ ∃ l', Holds s' l' := by
  cases data with
  | none => exact ⟨none, s, rfl, l, h⟩
  | some data =>
    by_cases hdup : dontAllowDuplicates = true ∧ ∃ x ∈ l, x.2.name = newoid
    · obtain ⟨rfl, hex⟩ := hdup
      exact ⟨none, s, maybeAdd_refused h hex _, l, h⟩
    · have hsearch := searchLoop_spec newoid dontAllowDuplicates h.linked h.length_le
      rw [if_neg (by rwa [mem_notGreater h.sorted]), ← h.top] at hsearch
      obtain ⟨head, s', hadd, hholds⟩ := addBetween_spec h newoid data
      refine ⟨some head, s', ?_, _, hholds⟩
      simp only [maybeAddDataByOid, hsearch, Option.bind_some, hadd, Option.map_some]

theorem extractEntry_spec (h : Holds s (pre ++ x :: post)) :
    ∃ s', extractEntry s (some x.1) = some (some x.2.data, s') ∧ Holds s' (pre ++ post) := by
  have hnode := h.linked.node (p := x.1) (d := x.2)
  obtain ⟨h₁, h₂, hnext, hprev, hall, hframe⟩ := Doubly.unlink (p := x.1) (d := x.2) h.linked h.nodup
  have hnodup := h.nodup
  rw [map_append, map_cons, List.nodup_middle, ← map_append, nodup_cons] at hnodup
  -- what is left is part of what was there
  have hmem : ∀ q, q ∈ (pre ++ post).map Prod.fst → q ∈ (pre ++ x :: post).map Prod.fst := by
    intro q hq
    rw [map_append, mem_append] at hq
    rw [map_append, map_cons, mem_append, mem_cons]
    tauto
  refine ⟨⟨Function.update h₂ x.1 none, s.brk, if rear none pre = none then front post none else s.top⟩, ?_,
    ⟨hall.update hnodup.1 none, ?_, ?_, hnodup.2, fun q hq => h.below q (hmem q hq), ?_⟩⟩
  · rw [extractEntry, hnode, Option.bind_some]
    simp only [hnext, Option.bind_some, hprev, Option.map_some]
  · rcases eq_nil_or_concat pre with rfl | ⟨pre, y, rfl⟩
    · rfl
    · rw [concat_eq_append, rear_concat, if_neg (Option.some_ne_none _), h.top, concat_eq_append,
        append_assoc, append_assoc]
      cases pre <;> rfl
  · exact h.sorted.sublist ((sublist_cons_self x post).append_left pre)
  · intro q hq
    by_cases hqx : q = x.1
    · rw [hqx]
      exact Function.update_self ..
    · refine (Function.update_of_ne hqx _ _).trans ((hframe q hq).trans (h.only q ?_))
      rw [map_append, mem_append, not_or] at hq
      rw [map_append, map_cons, mem_append, mem_cons, not_or, not_or]
      exact ⟨hq.1, hqx, hq.2⟩

theorem Holds.call (h : Holds s l) (call : Call) (hproper : call.Proper s) :
    ∃ r s', s.call call = some (r, s') ∧ ∃ l', Holds s' l' := by
  cases call with
  | add newoid data => exact maybeAdd_spec h newoid data false
  | maybeAdd newoid data dontAllowDuplicates => exact maybeAdd_spec h newoid data dontAllowDuplicates
  | extract thespot =>
    cases thespot with
    | none => exact ⟨none, s, rfl, l, h⟩
    | some p =>
      have hmem : p ∈ l.map Prod.fst := by
        by_contra hno
        have hsome : (s.nodes p).isSome := hproper
        rw [h.only p hno] at hsome
        exact absurd hsome Bool.false_ne_true
      obtain ⟨x, hx, rfl⟩ := mem_map.mp hmem
      obtain ⟨pre, post, rfl⟩ := append_of_mem hx
      obtain ⟨s', hcall, hholds⟩ := extractEntry_spec h
      exact ⟨_, s', hcall, _, hholds⟩

theorem Reached.holds (h : Reached s) : ∃ l, Holds s l := by
  induction h with
  | init => exact ⟨[], init_holds⟩
  | @step s s' call r _ hproper hcall ih =>
    obtain ⟨l, hl⟩ := ih
    obtain ⟨r', s'', hcall', l', hl'⟩ := hl.call call hproper
    rw [hcall, Option.some.injEq, Prod.mk.injEq] at hcall'
    rw [hcall'.2]
    exact ⟨l', hl'⟩

theorem Holds.inverse (h : Holds s l) {p q : Ptr} :
    (∃ node, s.nodes p = some node ∧ node.next = some q) ↔ ∃ node, s.nodes q = some node ∧ node.prev = some p := by
  constructor
  · rintro ⟨node, hnode, hnext⟩
    have hmem : p ∈ l.map Prod.fst := by
      by_contra hno
      rw [h.only p hno] at hnode
      cases hnode
    obtain ⟨x, hx, rfl⟩ := mem_map.mp hmem
    obtain ⟨pre, post, rfl⟩ := append_of_mem hx
    -- both links are read off where the list is cut in two
    have hlinked := h.linked
    rw [hlinked.node (p := x.1) (d := x.2), Option.some.injEq] at hnode
    subst hnode
    cases post with
    | nil => cases hnext
    | cons y post =>
      obtain rfl := Option.some.inj hnext
      exact ⟨_, (doubly_append.mp hlinked).2.2.1, rfl⟩
  · rintro ⟨node, hnode, hprev⟩
    have hmem : q ∈ l.map Prod.fst := by
      by_contra hno
      rw [h.only q hno] at hnode
      cases hnode
    obtain ⟨x, hx, rfl⟩ := mem_map.mp hmem
    obtain ⟨pre, post, rfl⟩ := append_of_mem hx
    have hlinked := h.linked
    rw [hlinked.node (p := x.1) (d := x.2), Option.some.injEq] at hnode
    subst hnode
    rcases eq_nil_or_concat pre with rfl | ⟨pre, y, rfl⟩
    · cases hprev
    · rw [concat_eq_append] at hprev hlinked
      rw [rear_concat] at hprev
      obtain rfl := Option.some.inj hprev
      rw [append_assoc] at hlinked
      exact ⟨_, hlinked.node (p := y.1) (d := y.2), rfl⟩

/-! ## lookups -/

/-- The full name of an entry. -/
def full (vp : Option ObjId) (x : Ptr × Entry) : ObjId := vp.getD [] ++ x.2.name

/-- The prefix and every index have room together. -/
def Fits (vp : Option ObjId) (l : List (Ptr × Entry)) : Prop :=
  ∀ x ∈ l, (vp.getD []).length + x.2.name.length ≤ TYPES_MAX_OID_LEN

theorem nameBelow_eq (hfits : Fits vp l) (hx : x ∈ l) : nameBelow vp x.2 = some (full vp x) := by
  rw [nameBelow, if_pos (hfits x hx)]
  rfl

theorem append_le_append {a b c : ObjId} (h : a ≤ b) : c ++ a ≤ c ++ b := by
  induction c with
  | nil => exact h
  | cons v c ih => exact cons_le_cons_iff.mpr (.inr ⟨rfl, ih⟩)

theorem Holds.full_sorted (h : Holds s l) (vp : Option ObjId) : l.Pairwise fun x y => full vp x ≤ full vp y :=
  h.sorted.imp fun hxy => append_le_append hxy

theorem findLoop_exact {nodes : Nodes Entry} (hl : Doubly nodes back l none) (hfits : Fits vp l) (hn : l.length ≤ n) :
    findLoop nodes vp name true n (front l none) = some ((l.find? fun x => full vp x = name).map Prod.fst) := by
  induction l generalizing back n with
  | nil => cases n <;> rfl
  | cons x l ih =>
    obtain ⟨n, rfl, hn'⟩ := Lib.exists_round hn
    -- a node of another name is passed over
    have hrec := ih hl.2 (fun y hy => hfits y (mem_cons_of_mem _ hy)) hn'
    rw [front, findLoop, hl.1, Option.bind_some, nameBelow_eq hfits mem_cons_self, Option.bind_some]
    cases hcompare : oidCompare name (full vp x) with
    | eq =>
      rw [find?_cons_of_pos (by simp [oidCompare_eq.mp hcompare])]
      rfl
    | lt =>
      rw [find?_cons_of_neg]
      · exact hrec
      · rw [decide_eq_true_eq]
        intro heq
        rw [oidCompare_eq.mpr heq.symm] at hcompare
        cases hcompare
    | gt =>
      rw [find?_cons_of_neg]
      · exact hrec
      · rw [decide_eq_true_eq]
        intro heq
        rw [oidCompare_eq.mpr heq.symm] at hcompare
        cases hcompare

/-- What the other lookup stops at: the first greater entry, or the one behind the first of the name. -/
def successor (vp : Option ObjId) (name : ObjId) : List (Ptr × Entry) → Option (Ptr × Entry)
  | [] => none
  | x :: l =>
    if full vp x = name then l.head?
    else if name < full vp x then some x
    else successor vp name l

theorem findLoop_next {nodes : Nodes Entry} (hl : Doubly nodes back l none) (hfits : Fits vp l) (hn : l.length ≤ n) :
    findLoop nodes vp name false n (front l none) = some ((successor vp name l).map Prod.fst) := by
  induction l generalizing back n with
  | nil => cases n <;> rfl
  | cons x l ih =>
    obtain ⟨n, rfl, hn'⟩ := Lib.exists_round hn
    have hrec := ih hl.2 (fun y hy => hfits y (mem_cons_of_mem _ hy)) hn'
    rw [front, findLoop, hl.1, Option.bind_some, nameBelow_eq hfits mem_cons_self, Option.bind_some, successor]
    cases hcompare : oidCompare name (full vp x) with
    | eq =>
      rw [if_pos (oidCompare_eq.mp hcompare).symm]
      cases l with
      | nil => cases n <;> rfl
      | cons y l => rfl
    | lt =>
      have hlt := oidCompare_lt.mp hcompare
      have hne : full vp x ≠ name := fun heq => List.lt_irrefl name (heq ▸ hlt)
      rw [if_neg hne, if_pos hlt]
      rfl
    | gt =>
      have hgt := oidCompare_gt.mp hcompare
      have hne : full vp x ≠ name := fun heq => List.lt_irrefl name (heq ▸ hgt)
      rw [if_neg hne, if_neg fun hlt => List.lt_irrefl name (List.lt_trans hlt hgt)]
      exact hrec

theorem found_eq (h : Holds s l) (hfits : Fits vp l) {r : Option (Ptr × Entry)} {exact : Bool}
    (hr : ∀ x, r = some x → x ∈ l) (hfind : findLoop s.nodes vp name exact s.brk s.top = some (r.map Prod.fst)) :
    headerComplex s vp name exact = some (r.map fun x => (full vp x, x.2.data)) := by
  rw [headerComplex, hfind, Option.bind_some]
  cases r with
  | none => rfl
  | some x =>
    have hx := hr x rfl
    obtain ⟨pre, post, rfl⟩ := append_of_mem hx
    have hnode := h.linked.node (p := x.1) (d := x.2)
    simp only [Option.map_some, hnode, Option.bind_some, nameBelow_eq hfits hx]

theorem headerComplex_exact (h : Holds s l) (hfits : Fits vp l) (name : ObjId) : headerComplex s vp name true =
    some ((l.find? fun x => full vp x = name).map fun x => (full vp x, x.2.data)) := by
  refine found_eq h hfits (fun x hx => mem_of_find?_eq_some hx) ?_
  rw [h.top]
  exact findLoop_exact h.linked hfits h.length_le

theorem mem_of_successor (hx : successor vp name l = some x) : x ∈ l := by
  induction l with
  | nil => cases hx
  | cons y l ih =>
    rw [successor] at hx
    split at hx
    · exact mem_cons_of_mem _ (mem_of_mem_head? hx)
    · split at hx
      · obtain rfl := Option.some.inj hx
        exact mem_cons_self
      · exact mem_cons_of_mem _ (ih hx)

theorem headerComplex_next (h : Holds s l) (hfits : Fits vp l) (name : ObjId) : headerComplex s vp name false =
    some ((successor vp name l).map fun x => (full vp x, x.2.data)) := by
  refine found_eq h hfits (fun x hx => mem_of_successor hx) ?_
  rw [h.top]
  exact findLoop_next h.linked hfits h.length_le

/-! ## the next entry -/

/-- The names behind a request. -/
def Behind (vp : Option ObjId) (name : ObjId) (l : List (Ptr × Entry)) (o : ObjId) : Prop :=
  name < o ∧ ∃ x ∈ l, full vp x = o

/-- Two entries have the name. -/
def Duplicated (l : List (Ptr × Entry)) (vp : Option ObjId) (name : ObjId) : Prop :=
  1 < l.countP fun x => full vp x = name

theorem countP_greater (h : ∀ x ∈ l, name < full vp x) : (l.countP fun x => full vp x = name) = 0 := by
  rw [countP_eq_zero]
  intro x hx hname
  rw [decide_eq_true_eq] at hname
  exact List.lt_irrefl name (hname ▸ h x hx)

theorem leastOf_head (hsorted : (x :: l).Pairwise fun x y => full vp x ≤ full vp y) (hx : name < full vp x) :
    LeastOf (Behind vp name (x :: l)) (some (full vp x)) := by
  refine ⟨⟨hx, x, mem_cons_self, rfl⟩, ?_⟩
  rintro o ⟨-, y, hy, rfl⟩
  rcases mem_cons.mp hy with rfl | hy
  · exact List.lt_irrefl _
  · exact List.not_lt.mpr ((pairwise_cons.mp hsorted).1 y hy)

theorem behind_cons (hx : ¬ name < full vp x) (o : ObjId) : Behind vp name l o ↔ Behind vp name (x :: l) o := by
  constructor
  · rintro ⟨hlt, y, hy, rfl⟩
    exact ⟨hlt, y, mem_cons_of_mem _ hy, rfl⟩
  · rintro ⟨hlt, y, hy, rfl⟩
    rcases mem_cons.mp hy with rfl | hy
    · exact absurd hlt hx
    · exact ⟨hlt, y, hy, rfl⟩

theorem successor_spec (hsorted : l.Pairwise fun x y => full vp x ≤ full vp y) :
    LeastOf (Behind vp name l) ((successor vp name l).map (full vp)) ↔ ¬ Duplicated l vp name := by
  unfold Duplicated
  induction l with
  | nil =>
    refine iff_of_true ?_ (Nat.not_lt_zero 1)
    rintro o ⟨-, x, hx, -⟩
    exact not_mem_nil hx
  | cons x l ih =>
    obtain ⟨hx, hl⟩ := pairwise_cons.mp hsorted
    rw [successor]
    by_cases hname : full vp x = name
    · have hself : ¬ name < full vp x := hname ▸ List.lt_irrefl _
      rw [if_pos hname, countP_cons_of_pos (by simp [hname])]
      cases l with
      | nil =>
        refine iff_of_true ?_ (Nat.lt_irrefl 1)
        exact LeastOf.congr (S := Behind vp name []) (fun o ho => ho.2.elim fun y hy => not_mem_nil hy.1)
          (behind_cons hself)
      | cons y l =>
        by_cases hy : full vp y = name
        · rw [countP_cons_of_pos (by simp [hy])]
          refine iff_of_false (fun h => ?_) (by omega)
          have hlt := h.1.1
          rw [hy] at hlt
          exact List.lt_irrefl _ hlt
        · have hlt : name < full vp y := by
            have hle := hx y mem_cons_self
            rw [hname] at hle
            exact (List.le_iff_lt_or_eq.mp hle).resolve_right (Ne.symm hy)
          -- none of those behind has the name again
          have hnone : ((y :: l).countP fun x => full vp x = name) = 0 := by
            refine countP_greater fun z hz => ?_
            rcases mem_cons.mp hz with rfl | hz
            · exact hlt
            · have hle := (pairwise_cons.mp hl).1 z hz
              rcases List.le_iff_lt_or_eq.mp hle with h | h
              · exact List.lt_trans hlt h
              · rwa [← h]
          rw [hnone]
          exact iff_of_true ((leastOf_head hl hlt).congr (behind_cons hself)) (by decide)
    · rw [if_neg hname, countP_cons_of_neg (by simp [hname])]
      by_cases hlt : name < full vp x
      · rw [if_pos hlt]
        refine iff_of_true (leastOf_head hsorted hlt) ?_
        rw [countP_greater fun y hy => ?_]
        · decide
        · rcases List.le_iff_lt_or_eq.mp (hx y hy) with h | h
          · exact List.lt_trans hlt h
          · rwa [← h]
      · rw [if_neg hlt, ← ih hl]
        exact ⟨fun h => h.congr fun o => (behind_cons hlt o).symm, fun h => h.congr (behind_cons hlt)⟩

/-- A lookup for the next entry finds the least greater name, and the data of an entry of that name. -/
def NextExact (s : State) (l : List (Ptr × Entry)) (vp : Option ObjId) (name : ObjId) : Prop :=
  ∃ r, headerComplex s vp name false = some r ∧ LeastOf (Behind vp name l) (r.map Prod.fst) ∧
    ∀ o d, r = some (o, d) → ∃ x ∈ l, full vp x = o ∧ x.2.data = d

theorem nextExact_iff (h : Holds s l) (hfits : Fits vp l) (name : ObjId) :
    NextExact s l vp name ↔ ¬ Duplicated l vp name := by
  rw [← successor_spec (h.full_sorted vp)]
  have hnext := headerComplex_next h hfits name
  have hmap : ((successor vp name l).map fun x => (full vp x, x.2.data)).map Prod.fst =
      (successor vp name l).map (full vp) := by
    cases successor vp name l <;> rfl
  constructor
  · rintro ⟨r, hr, hleast, -⟩
    rw [hnext, Option.some.injEq] at hr
    rwa [← hr, hmap] at hleast
  · intro hleast
    refine ⟨_, hnext, hmap ▸ hleast, fun o d hod => ?_⟩
    obtain ⟨x, hx, hxod⟩ := Option.map_eq_some_iff.mp hod
    obtain ⟨rfl, rfl⟩ := Prod.mk.inj hxod
    exact ⟨x, mem_of_successor hx, rfl, rfl⟩

/-- Going on from the name that came back ends. -/
inductive WalkEnds (s : State) (vp : Option ObjId) : ObjId → Prop
  | last {name : ObjId} (h : headerComplex s vp name false = some none) : WalkEnds s vp name
  | next {name o : ObjId} {d : Ptr} (h : headerComplex s vp name false = some (some (o, d))) (hrest : WalkEnds s vp o) :
      WalkEnds s vp name

theorem exists_of_duplicated (h : Duplicated l vp name) : ∃ x ∈ l, full vp x = name := by
  have hpos : 0 < l.countP fun x => full vp x = name := by
    unfold Duplicated at h
    omega
  obtain ⟨x, hx, hname⟩ := countP_pos_iff.mp hpos
  exact ⟨x, hx, of_decide_eq_true hname⟩

theorem successor_duplicated (hsorted : l.Pairwise fun x y => full vp x ≤ full vp y) (h : Duplicated l vp name) :
    ∃ x, successor vp name l = some x ∧ full vp x = name := by
  unfold Duplicated at h
  induction l with
  | nil => exact absurd h (Nat.not_lt_zero 1)
  | cons x l ih =>
    obtain ⟨hx, hl⟩ := pairwise_cons.mp hsorted
    rw [successor]
    by_cases hname : full vp x = name
    · rw [countP_cons_of_pos (by simp [hname])] at h
      obtain ⟨z, hz, hzname⟩ := countP_pos_iff.mp (by omega : 0 < l.countP fun x => full vp x = name)
      rw [if_pos hname]
      cases l with
      | nil => exact absurd hz not_mem_nil
      | cons y l =>
        refine ⟨y, rfl, ?_⟩
        -- the list is in order, so that the two entries of one name stand next to each other
        have hle : full vp y ≤ full vp z := by
          rcases mem_cons.mp hz with rfl | hz
          · exact List.le_refl _
          · exact (pairwise_cons.mp hl).1 z hz
        have hge := hx y mem_cons_self
        rw [hname] at hge
        rw [of_decide_eq_true hzname] at hle
        exact List.le_antisymm hle hge
    · rw [countP_cons_of_neg (by simp [hname])] at h
      have hlt : ¬ name < full vp x := by
        intro hlt
        obtain ⟨z, hz, hzname⟩ := countP_pos_iff.mp (by omega : 0 < l.countP fun x => full vp x = name)
        have hle := hx z hz
        rw [of_decide_eq_true hzname] at hle
        exact List.not_lt.mpr hle hlt
      rw [if_neg hname, if_neg hlt]
      exact ih hl h

theorem countP_lt {p q : Ptr × Entry → Bool} (hpq : ∀ y ∈ l, p y = true → q y = true) (hx : x ∈ l)
    (hp : ¬ p x = true) (hq : q x = true) : l.countP p < l.countP q := by
  obtain ⟨pre, post, rfl⟩ := append_of_mem hx
  have hpre := countP_mono_left fun y hy => hpq y (mem_append_left (x :: post) hy)
  have hpost := countP_mono_left fun y hy => hpq y (mem_append_right pre (mem_cons_of_mem x hy))
  rw [countP_append, countP_append, countP_cons_of_neg hp, countP_cons_of_pos hq]
  omega

theorem walkEnds_iff (h : Holds s l) (hfits : Fits vp l) (name : ObjId) :
    WalkEnds s vp name ↔ ∀ o, name ≤ o → ¬ Duplicated l vp o := by
  have hsorted := h.full_sorted vp
  constructor
  · intro hwalk
    induction hwalk with
    | @last name hlast =>
      intro o ho hdup
      rw [headerComplex_next h hfits, Option.some.injEq, Option.map_eq_none_iff] at hlast
      by_cases hname : Duplicated l vp name
      · obtain ⟨x, hx, -⟩ := successor_duplicated hsorted hname
        rw [hx] at hlast
        cases hlast
      · have hleast := (successor_spec hsorted).mpr hname
        rw [hlast] at hleast
        rcases List.le_iff_lt_or_eq.mp ho with hlt | rfl
        · exact hleast o ⟨hlt, exists_of_duplicated hdup⟩
        · exact hname hdup
    | @next name o' d hnext _ ih =>
      intro o ho hdup
      rw [headerComplex_next h hfits, Option.some.injEq] at hnext
      obtain ⟨x, hx, hxod⟩ := Option.map_eq_some_iff.mp hnext
      obtain ⟨rfl, -⟩ := Prod.mk.inj hxod
      by_cases hname : Duplicated l vp name
      · obtain ⟨y, hy, hyname⟩ := successor_duplicated hsorted hname
        rw [hx] at hy
        obtain rfl := Option.some.inj hy
        exact ih o (hyname ▸ ho) hdup
      · have hleast := (successor_spec hsorted).mpr hname
        rw [hx] at hleast
        have hne : name ≠ o := fun heq => hname (heq ▸ hdup)
        have hlt := (List.le_iff_lt_or_eq.mp ho).resolve_right hne
        exact ih o (List.not_lt.mp (hleast.2 o ⟨hlt, exists_of_duplicated hdup⟩)) hdup
  · -- the names behind the request become fewer
    generalize hn : (l.countP fun x => name < full vp x) = n
    induction n using Nat.strong_induction_on generalizing name with
    | _ n ih =>
      intro hdup
      have hleast := (successor_spec hsorted).mpr (hdup name (List.le_refl _))
      have hnext := headerComplex_next h hfits name
      cases hx : successor vp name l with
      | none =>
        rw [hx] at hnext
        exact .last hnext
      | some x =>
        rw [hx] at hnext hleast
        have hlt : name < full vp x := hleast.1.1
        refine .next hnext (ih _ ?_ (full vp x) rfl ?_)
        · rw [← hn]
          refine countP_lt (fun y hy hlt' => ?_) (mem_of_successor hx) ?_ ?_
          · rw [decide_eq_true_eq] at hlt' ⊢
            exact List.lt_trans hlt hlt'
          · rw [decide_eq_true_eq]
            exact List.lt_irrefl _
          · exact decide_eq_true hlt
        · exact fun o ho => hdup o (List.le_trans (List.le_of_lt hlt) ho)

/-- In every state that is reached the store is a list in order, with the head at its first entry, in which a refused
duplicate leaves everything as it is. The lookup of an entry is exact. That of the next one is so if and only if no two
entries have the requested name, and going on from name to name ends if and only if no two have the same name from
there on. -/
theorem headerComplex_exact_iff (s : { s : State // Reached s }) :
    ∃ l, Holds s.1 l ∧
      (∀ p q : Ptr, (∃ node, s.1.nodes p = some node ∧ node.next = some q) ↔
        ∃ node, s.1.nodes q = some node ∧ node.prev = some p) ∧
      (∀ call : Call, call.Proper s.1 → ∃ r s', s.1.call call = some (r, s')) ∧
      (∀ newoid data, (∃ x ∈ l, x.2.name = newoid) → s.1.call (.maybeAdd newoid data true) = some (none, s.1)) ∧
      ∀ vp, Fits vp l → ∀ name,
        (∃ r, headerComplex s.1 vp name true = some r ∧ (r.isSome = true ↔ ∃ x ∈ l, full vp x = name) ∧
          ∀ o d, r = some (o, d) → o = name ∧ ∃ x ∈ l, full vp x = name ∧ x.2.data = d) ∧
        (NextExact s.1 l vp name ↔ ¬ Duplicated l vp name) ∧
        (WalkEnds s.1 vp name ↔ ∀ o, name ≤ o → ¬ Duplicated l vp o) := by
  obtain ⟨l, h⟩ := s.2.holds
  refine ⟨l, h, fun p q => h.inverse, ?_, fun newoid data hex => maybeAdd_refused h hex data, ?_⟩
  · intro call hproper
    obtain ⟨r, s', hcall, -⟩ := h.call call hproper
    exact ⟨r, s', hcall⟩
  · intro vp hfits name
    refine ⟨⟨_, headerComplex_exact h hfits name, ?_, ?_⟩, nextExact_iff h hfits name, walkEnds_iff h hfits name⟩
    · rw [Option.isSome_map, find?_isSome]
      simp only [decide_eq_true_eq]
    · intro o d hod
      obtain ⟨x, hx, hxod⟩ := Option.map_eq_some_iff.mp hod
      obtain ⟨rfl, rfl⟩ := Prod.mk.inj hxod
      -- what is found has the name
      have hname : full vp x = name := by simpa using find?_some hx
      exact ⟨hname, x, mem_of_find?_eq_some hx, hname, rfl⟩

/-- An OID is added twice; the second time it is said that it is a duplicate. -/
theorem not_headerComplex_exact :
    ¬ ∀ (s : { s : State // Reached s }) (l : List (Ptr × Entry)), Holds s.1 l → ∀ vp, Fits vp l → ∀ name,
      NextExact s.1 l vp name ∧ WalkEnds s.1 vp name := by
  intro hall
  obtain ⟨head₁, s₁, hadd₁, hs₁⟩ := addBetween_spec init_holds [1] 0
  have hproper₁ : Call.Proper .init (.add [1] (some 0)) := trivial
  have hreached₁ : Reached s₁ := .step .init hproper₁ (addDataByOid_eq init_holds hadd₁)
  obtain ⟨head₂, s₂, hadd₂, hs₂⟩ := addBetween_spec hs₁ [1] 1
  have hproper₂ : Call.Proper s₁ (.add [1] (some 1)) := trivial
  have hreached : Reached s₂ := .step hreached₁ hproper₂ (addDataByOid_eq hs₁ hadd₂)
  have hentries : Holds s₂ [(0, ⟨[1], 0⟩), (s₁.brk, ⟨[1], 1⟩)] := hs₂
  have hfits : Fits none [(0, (⟨[1], 0⟩ : Entry)), (s₁.brk, ⟨[1], 1⟩)] := by
    intro x hx
    rcases mem_cons.mp hx with rfl | hx
    · exact (by decide : 1 ≤ TYPES_MAX_OID_LEN)
    · rw [mem_singleton.mp hx]
      exact (by decide : 1 ≤ TYPES_MAX_OID_LEN)
  have hnext := (hall ⟨s₂, hreached⟩ _ hentries none hfits [1]).1
  rw [nextExact_iff hentries hfits] at hnext
  exact hnext (by decide : 1 < 2)

end Priot.HeaderComplex
