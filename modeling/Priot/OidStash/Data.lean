/-
# What an OID stash holds

A stash is a map from OIDs to data: adding data under an OID changes what is found there and nowhere
else, and data that is there is not replaced.
-/
import Priot.OidStash.Tree
import Mathlib.Data.List.Nodup

namespace Priot.OidStash

open List

variable {D : Type}

namespace Node

@[simp] theorem value_mk (v : Oid) (d : Option D) (cs : List (List (Node D))) : (mk v d cs).value = v := rfl

@[simp] theorem data_mk (v : Oid) (d : Option D) (cs : List (List (Node D))) : (mk v d cs).data = d := rfl

/-! ## children -/

@[simp] theorem children_mk (v : Oid) (d : Option D) (cs : List (List (Node D))) : (mk v d cs).children = cs := rfl

/-- The list of children that begins at a place. -/
def list (n : Node D) (j : Nat) : List (Node D) := n.children.getD j []

theorem bucket_eq_list (n : Node D) (v : Oid) : n.bucket v = n.list (v.toNat % n.childrenSize) := rfl

theorem value_of_child {n c : Node D} {v : Oid} (h : n.child v = some c) : c.value = v := by
  unfold child at h
  have := find?_some h
  simpa using this

theorem mem_of_child {n c : Node D} {v : Oid} (h : n.child v = some c) :
    c ∈ n.list (v.toNat % n.childrenSize) := mem_of_find?_eq_some h

@[simp] theorem childrenSize_setChild (n c : Node D) : (n.setChild c).childrenSize = n.childrenSize := by
  unfold setChild childrenSize
  rw [children_mk, length_set]

theorem list_setChild {n : Node D} (hn : 0 < n.childrenSize) (c : Node D) (j : Nat) : (n.setChild c).list j =
      if j = c.value.toNat % n.childrenSize then
        if (n.child c.value).isSome then replaceFirst c (n.list j) else c :: n.list j else n.list j := by
  have hlt := Nat.mod_lt c.value.toNat hn
  unfold list setChild
  simp only [children_mk, getD_eq_getElem?_getD]
  by_cases hj : j = c.value.toNat % n.childrenSize
  · rw [if_pos hj, hj, getElem?_set_self hlt, Option.getD_some, bucket_eq_list, list,
      getD_eq_getElem?_getD]
  · rw [if_neg hj, getElem?_set_ne (Ne.symm hj)]

theorem find_replaceFirst {c : Node D} {l : List (Node D)} {v : Oid} : (replaceFirst c l).find? (·.value == v) =
      if v = c.value then (if (l.find? (·.value == v)).isSome then some c else none) else l.find? (·.value == v) := by
  induction l with
  | nil => simp [replaceFirst]
  | cons s l ih =>
    unfold replaceFirst
    by_cases hs : s.value = c.value
    · rw [if_pos hs]
      by_cases hv : v = c.value
      · simp [hv, hs]
      · simp [hv, hs, Ne.symm hv]
    · rw [if_neg hs]
      by_cases hsv : s.value = v
      · have hv : v ≠ c.value := fun h => hs (hsv.trans h)
        simp [hsv, hv]
      · rw [find?_cons_of_neg (by simp [hsv]), find?_cons_of_neg (by simp [hsv]), ih]

theorem child_setChild {n : Node D} (hn : 0 < n.childrenSize) (c : Node D) (v : Oid) :
    (n.setChild c).child v = if v = c.value then some c else n.child v := by
  unfold child
  rw [bucket_eq_list, childrenSize_setChild, list_setChild hn]
  by_cases hv : v = c.value
  · subst hv
    rw [if_pos rfl, if_pos rfl]
    cases hchild : (n.child c.value).isSome with
    | true =>
      rw [if_pos rfl, find_replaceFirst, if_pos rfl, if_pos]
      exact hchild
    | false => simp
  · rw [if_neg hv]
    by_cases hj : v.toNat % n.childrenSize = c.value.toNat % n.childrenSize
    · rw [if_pos hj]
      cases hchild : (n.child c.value).isSome with
      | true =>
        rw [if_pos rfl, find_replaceFirst, if_neg hv]
        rfl
      | false =>
        simp only [Bool.false_eq_true, if_false, find?_cons]
        rw [show (c.value == v) = false by simp [Ne.symm hv]]
        rfl
    · rw [if_neg hj]
      rfl

theorem replaceFirst_self {c : Node D} {l : List (Node D)} (h : l.find? (·.value == c.value) = some c) :
    replaceFirst c l = l := by
  induction l with
  | nil => rfl
  | cons s l ih =>
    unfold replaceFirst
    by_cases hs : s.value = c.value
    · rw [find?_cons, hs] at h
      simp only [beq_self_eq_true, Option.some.injEq] at h
      rw [if_pos hs, h]
    · rw [find?_cons, show (s.value == c.value) = false by simp [hs]] at h
      rw [if_neg hs, ih h]

theorem setChild_self {n c : Node D} (h : n.child c.value = some c) : n.setChild c = n := by
  unfold setChild
  rw [h, if_pos Option.isSome_some, replaceFirst_self h]
  obtain ⟨v, d, cs⟩ := n
  unfold bucket
  simp only [value_mk, data_mk, children_mk, mk.injEq, true_and]
  by_cases hlt : c.value.toNat % (mk v d cs).childrenSize < cs.length
  · rw [getD_eq_getElem?_getD, getElem?_eq_getElem hlt, Option.getD_some, set_getElem_self]
  · rw [set_eq_of_length_le (by omega)]

end Node

open Node

/-! ## data -/

/-- The data below a node. -/
def dataAt (n : Node D) (q : List Oid) : Option D := (descend q n).bind Node.data

@[simp] theorem dataAt_nil (n : Node D) : dataAt n [] = n.data := rfl

@[simp] theorem dataAt_cons (n : Node D) (v : Oid) (q : List Oid) :
    dataAt n (v :: q) = (n.child v).bind (dataAt · q) := by
  unfold dataAt
  rw [descend, Option.bind_assoc]

theorem child_create (v w : Oid) : (create v : Node D).child w = none := by
  unfold child bucket create childrenSize
  rw [children_mk, length_replicate, getD_eq_getElem?_getD,
    getElem?_replicate_of_lt (Nat.mod_lt _ (by decide))]
  rfl

theorem dataAt_create (v : Oid) (q : List Oid) : dataAt (create v : Node D) q = none := by
  cases q with
  | nil => rfl
  | cons w q => rw [dataAt_cons, child_create, Option.bind_none]

/-- What holds of every node of a stash: the children stand in the lists they belong to, no two have one
value, and below each child there is data. -/
inductive WF : Node D → Prop
  | mk {n : Node D} : n.childrenSize = CHILDREN_SIZE →
    (∀ j, ((n.list j).map Node.value).Nodup) →
    (∀ j c, c ∈ n.list j → c.value.toNat % CHILDREN_SIZE = j) →
    (∀ j c, c ∈ n.list j → ∃ q, dataAt c q ≠ none) →
    (∀ j c, c ∈ n.list j → WF c) → WF n

variable {n : Node D}

theorem WF.size (h : WF n) : n.childrenSize = CHILDREN_SIZE := by
  cases h
  assumption

theorem WF.size_pos (h : WF n) : 0 < n.childrenSize := by
  rw [h.size]
  decide

theorem wf_create (v : Oid) : WF (create v : Node D) := by
  have hlist : ∀ j, (create v : Node D).list j = [] := by
    intro j
    unfold list create
    rw [children_mk, getD_eq_getElem?_getD, getElem?_replicate]
    split <;> rfl
  refine .mk (by simp [childrenSize, create]) ?_ ?_ ?_ ?_
  · intro j
    rw [hlist]
    simp
  all_goals
    intro j c hc
    rw [hlist] at hc
    cases hc

theorem WF.child_of_mem {c : Node D} {j : Nat} (h : WF n) (hc : c ∈ n.list j) : n.child c.value = some c := by
  cases h with
  | mk hsize hnodup hplace _ _ =>
    have hj := hplace j c hc
    unfold child
    rw [bucket_eq_list, hsize, hj]
    have hnodup := hnodup j
    generalize n.list j = l at *
    induction l with
    | nil => cases hc
    | cons s l ih =>
      rw [map_cons, nodup_cons] at hnodup
      rcases hc with _ | ⟨_, hc⟩
      · simp
      · have hne : s.value ≠ c.value := fun heq => hnodup.1 (heq ▸ mem_map_of_mem hc)
        rw [find?_cons, show (s.value == c.value) = false by simp [hne]]
        exact ih hc hnodup.2

theorem WF.child {c : Node D} {v : Oid} (h : WF n) (hc : n.child v = some c) : WF c ∧ ∃ q, dataAt c q ≠ none := by
  cases h with
  | mk _ _ _ hlive hwf => exact ⟨hwf _ c (mem_of_child hc), hlive _ c (mem_of_child hc)⟩

theorem addPath_value (p : List Oid) (n : Node D) (d : D) : (addPath p n d).2.value = n.value := by
  cases p with
  | nil =>
    unfold addPath
    split <;> rfl
  | cons v p => rfl

theorem WF.step (h : WF n) (v : Oid) : WF ((n.child v).getD (create v)) ∧ ((n.child v).getD (create v)).value = v := by
  cases hc : n.child v with
  | none => exact ⟨wf_create v, rfl⟩
  | some c => exact ⟨(h.child hc).1, value_of_child hc⟩

theorem dataAt_step (n : Node D) (v : Oid) (q : List Oid) :
    dataAt ((n.child v).getD (create v)) q = dataAt n (v :: q) := by
  rw [dataAt_cons]
  cases hc : n.child v with
  | none => exact dataAt_create v q
  | some c => rfl

theorem dataAt_addPath {p : List Oid} (h : WF n) (d : D) (q : List Oid) :
    dataAt (addPath p n d).2 q = if q = p ∧ dataAt n p = none then some d else dataAt n q := by
  induction p generalizing n q with
  | nil =>
    unfold addPath
    cases hd : n.data with
    | some d' => simp [hd]
    | none =>
      cases q with
      | nil => simp [hd, setData]
      | cons v q =>
        simp only [Option.isSome_none, Bool.false_eq_true, if_false, reduceCtorEq, false_and]
        rfl
  | cons v p ih =>
    obtain ⟨hwf, hvalue⟩ := h.step v
    simp only [addPath]
    cases q with
    | nil => simp [setChild]
    | cons w q =>
      have hvalue' := addPath_value p ((n.child v).getD (create v)) d
      rw [hvalue] at hvalue'
      rw [dataAt_cons, child_setChild h.size_pos, hvalue']
      by_cases hw : w = v
      · subst hw
        rw [if_pos rfl, Option.bind_some, ih hwf, dataAt_step, dataAt_step]
        simp
      · rw [if_neg hw, if_neg (by simp [hw]), dataAt_cons]

theorem addPath_success_iff {p : List Oid} (h : WF n) (d : D) : (addPath p n d).1 = .success ↔ dataAt n p = none := by
  induction p generalizing n with
  | nil =>
    unfold addPath
    cases hd : n.data with
    | some d' => simp [hd]
    | none => simp [hd]
  | cons v p ih =>
    simp only [addPath]
    rw [ih (h.step v).1, dataAt_step]

theorem addPath_of_data {p : List Oid} (d : D) (hd : dataAt n p ≠ none) : (addPath p n d).2 = n := by
  induction p generalizing n with
  | nil =>
    unfold addPath
    rw [dataAt_nil] at hd
    rw [if_pos (Option.isSome_iff_ne_none.mpr hd)]
  | cons v p ih =>
    rw [dataAt_cons] at hd
    cases hc : n.child v with
    | none =>
      rw [hc] at hd
      exact absurd rfl hd
    | some c =>
      rw [hc, Option.bind_some] at hd
      simp only [addPath, hc, Option.getD_some]
      rw [ih hd]
      refine setChild_self ?_
      rw [value_of_child hc]
      exact hc

theorem mem_replaceFirst {c x : Node D} {l : List (Node D)} (hnodup : (l.map Node.value).Nodup)
    (h : x ∈ replaceFirst c l) : x = c ∨ x ∈ l ∧ x.value ≠ c.value := by
  induction l with
  | nil => cases h
  | cons s l ih =>
    rw [map_cons, nodup_cons] at hnodup
    unfold replaceFirst at h
    by_cases hs : s.value = c.value
    · rw [if_pos hs] at h
      rcases h with _ | ⟨_, h⟩
      · exact .inl rfl
      · refine .inr ⟨mem_cons_of_mem s h, fun heq => hnodup.1 ?_⟩
        rw [hs, ← heq]
        exact mem_map_of_mem h
    · rw [if_neg hs] at h
      rcases h with _ | ⟨_, h⟩
      · exact .inr ⟨by simp, hs⟩
      · rcases ih hnodup.2 h with heq | ⟨hmem, hne⟩
        · exact .inl heq
        · exact .inr ⟨by simp [hmem], hne⟩

theorem map_value_replaceFirst (c : Node D) (l : List (Node D)) :
    (replaceFirst c l).map Node.value = l.map Node.value := by
  induction l with
  | nil => rfl
  | cons s l ih =>
    unfold replaceFirst
    by_cases hs : s.value = c.value
    · rw [if_pos hs, map_cons, map_cons, hs]
    · rw [if_neg hs, map_cons, map_cons, ih]

theorem WF.setChild {c : Node D} (h : WF n) (hc : WF c) (hlive : ∃ q, dataAt c q ≠ none) : WF (n.setChild c) := by
  have hpos := h.size_pos
  have hcases : ∀ j x, x ∈ (n.setChild c).list j →
      (x = c ∧ j = c.value.toNat % n.childrenSize) ∨ x ∈ n.list j := by
    intro j x hx
    rw [list_setChild hpos] at hx
    split at hx
    · next hj =>
      split at hx
      · cases h with
        | mk _ hnodup _ _ _ =>
          rcases mem_replaceFirst (hnodup j) hx with rfl | ⟨hmem, -⟩
          · exact .inl ⟨rfl, hj⟩
          · exact .inr hmem
      · rcases hx with _ | ⟨_, hx⟩
        · exact .inl ⟨rfl, hj⟩
        · exact .inr hx
    · exact .inr hx
  have hnone := fun j x => h.child_of_mem (c := x) (j := j)
  cases h with
  | mk hsize hnodup hplace hlive' hwf =>
    refine .mk (by rw [childrenSize_setChild, hsize]) (fun j => ?_) (fun j x hx => ?_) (fun j x hx => ?_)
      (fun j x hx => ?_)
    · rw [list_setChild hpos]
      split
      · next hj =>
        split
        · rw [map_value_replaceFirst]
          exact hnodup j
        · next hchild =>
          rw [map_cons, nodup_cons]
          refine ⟨fun hmem => ?_, hnodup j⟩
          obtain ⟨x, hx, hvalue⟩ := mem_map.mp hmem
          rw [← hvalue, hnone j x hx] at hchild
          exact hchild rfl
      · exact hnodup j
    · rcases hcases j x hx with ⟨rfl, hj⟩ | hmem
      · rw [hj, hsize]
      · exact hplace j x hmem
    · rcases hcases j x hx with ⟨rfl, -⟩ | hmem
      · exact hlive
      · exact hlive' j x hmem
    · rcases hcases j x hx with ⟨rfl, -⟩ | hmem
      · exact hc
      · exact hwf j x hmem

theorem WF.addPath {p : List Oid} (h : WF n) (d : D) : WF (addPath p n d).2 := by
  induction p generalizing n with
  | nil =>
    unfold OidStash.addPath
    split
    · exact h
    · cases h with
      | mk hsize hnodup hplace hlive hwf => exact .mk hsize hnodup hplace hlive hwf
  | cons v p ih =>
    have hstep := (h.step v).1
    refine h.setChild (ih hstep) ⟨p, ?_⟩
    rw [dataAt_addPath hstep]
    split
    · simp
    · next hd => exact fun hnone => hd ⟨rfl, hnone⟩

end Priot.OidStash
