/-
# The stash as an ordered map

Adding and finding data is right for every sequence of additions. The next node is right exactly when the bound taken
from one subidentifier behind the place where the OID leaves the tree separates the same children.
-/
import Priot.OidStash.Next
import Mathlib.Data.List.Induction

namespace Priot.OidStash

open Lib Node List

variable {D : Type}

/-! ## where an OID leaves the tree -/

theorem closest_spec {root n : Node D} {ancestors : List (Node D)} {o : List Oid} (lookup : List Oid)
    (h : Path root (n :: ancestors) o) : ∃ p left, lookup = p ++ left ∧ (closest lookup n ancestors).2 = left ∧
      Path root (closest lookup n ancestors).1 (o ++ p) ∧
      ∀ v q, left = v :: q → ∀ q', dataAt root (o ++ p ++ v :: q') = none := by
  induction lookup generalizing n ancestors o with
  | nil =>
    refine ⟨[], [], rfl, rfl, ?_, fun v q hleft => by cases hleft⟩
    rw [append_nil]
    exact h
  | cons v lookup ih =>
    unfold closest
    cases hc : n.child v with
    | none =>
      refine ⟨[], v :: lookup, rfl, rfl, ?_, fun w q hleft q' => ?_⟩
      · rw [append_nil]
        exact h
      · obtain ⟨rfl, rfl⟩ := List.cons.inj hleft
        rw [append_nil, h.dataAt_append, dataAt_cons, hc, Option.bind_none]
    | some c =>
      obtain ⟨p, left, rfl, hleft, hpath, hno⟩ := ih (h.child hc)
      rw [append_assoc] at hpath hno
      exact ⟨v :: p, left, rfl, hleft, hpath, hno⟩

theorem Path.live {root : Node D} (hroot : WF root) {chain : List (Node D)} {o : List Oid}
    (h : Path root chain o) : o = [] ∨ ∃ q, dataAt root (o ++ q) ≠ none := by
  cases h with
  | root => exact .inl rfl
  | child h hc =>
    obtain ⟨-, q, hq⟩ := (h.wf hroot).child hc
    refine .inr ⟨q, ?_⟩
    rwa [(h.child hc).dataAt_append]

/-! ## sequences of additions -/

/-- What one call of `OidStash_addData` is given. -/
structure Add (D : Type) where
  lookup : List Oid
  data : D
  lookup_ne_nil : lookup ≠ []

/-- The root after the calls, from `NULL` on. -/
def stash (adds : List (Add D)) : Option (Node D) :=
  adds.foldl (fun root a => (addData root a.lookup a.data).2) none

/-- The data first added under an OID. -/
def stored (adds : List (Add D)) (o : List Oid) : Option D :=
  (adds.find? (·.lookup = o)).map Add.data

theorem stash_snoc (adds : List (Add D)) (a : Add D) :
    stash (adds ++ [a]) = (addData (stash adds) a.lookup a.data).2 := by
  unfold stash
  rw [foldl_append]
  rfl

theorem stored_snoc (adds : List (Add D)) (a : Add D) (o : List Oid) :
    stored (adds ++ [a]) o = if o = a.lookup ∧ stored adds a.lookup = none then some a.data else stored adds o := by
  unfold stored
  rw [find?_append]
  cases hfind : adds.find? (·.lookup = o) with
  | some b =>
    rw [if_neg]
    · rfl
    · rintro ⟨rfl, h⟩
      rw [hfind] at h
      cases h
  | none =>
    by_cases ho : a.lookup = o
    · subst ho
      rw [if_pos ⟨rfl, by rw [hfind]; rfl⟩]
      simp
    · rw [if_neg fun h => ho h.1.symm]
      simp [ho]

theorem stored_nil_oid (adds : List (Add D)) : stored adds [] = none := by
  unfold stored
  rw [find?_eq_none.mpr]
  · rfl
  · intro a _
    simpa using a.lookup_ne_nil

/-- The root, or what it is made to be by the first addition. -/
def rootNode (root : Option (Node D)) : Node D := root.getD (create 0)

theorem addData_of_ne_nil {lookup : List Oid} (h : lookup ≠ []) (root : Option (Node D)) (data : D) :
    addData root lookup data =
      ((addPath lookup (rootNode root) data).1, some (addPath lookup (rootNode root) data).2) := by
  unfold addData
  rw [if_neg h]
  rfl

theorem stash_spec (adds : List (Add D)) :
    WF (rootNode (stash adds)) ∧ ∀ o, dataAt (rootNode (stash adds)) o = stored adds o := by
  induction adds using reverseRecOn with
  | nil => exact ⟨wf_create 0, fun o => dataAt_create 0 o⟩
  | append_singleton adds a ih =>
    obtain ⟨hwf, hdata⟩ := ih
    rw [stash_snoc, addData_of_ne_nil a.lookup_ne_nil]
    refine ⟨hwf.addPath a.data, fun o => ?_⟩
    rw [stored_snoc, ← hdata a.lookup, ← hdata o]
    exact dataAt_addPath hwf a.data o

theorem getNode_of_ne_nil {o : List Oid} (h : o ≠ []) (root : Option (Node D)) :
    getNode root o = root.bind (descend o) := by
  unfold getNode
  rw [if_neg h]

theorem getData_stash (adds : List (Add D)) (o : List Oid) : getData (stash adds) o = stored adds o := by
  by_cases ho : o = []
  · rw [ho, stored_nil_oid]
    rfl
  · rw [← (stash_spec adds).2 o]
    unfold getData
    rw [getNode_of_ne_nil ho]
    cases stash adds with
    | none => exact (dataAt_create 0 o).symm
    | some root => rfl

/-! ## the next OID -/

/-- From some round on the search returns the node under `y`. -/
def Returns (root : Option (Node D)) (lookup : List Oid) (y : Option (List Oid)) : Prop :=
  ∃ N, ∀ fuel, N ≤ fuel → ∃ r, getNextNode fuel root lookup = some r ∧ r.map chainOid = y ∧
    r.bind List.head? = y.bind (getNode root)

theorem Returns.unique {root : Option (Node D)} {lookup : List Oid} {y y' : Option (List Oid)}
    (h : Returns root lookup y) (h' : Returns root lookup y') : y = y' := by
  obtain ⟨N, hN⟩ := h
  obtain ⟨N', hN'⟩ := h'
  obtain ⟨r, hr, hy, -⟩ := hN (max N N') (by omega)
  obtain ⟨r', hr', hy', -⟩ := hN' (max N N') (by omega)
  rw [hr] at hr'
  cases hr'
  rw [← hy, hy']

theorem returns_after {root : Node D} (hroot : WF root) (lookup : List Oid) :
    ∃ p left, lookup = p ++ left ∧ (p = [] ∨ ∃ q, dataAt root (p ++ q) ≠ none) ∧
      (∀ v q, left = v :: q → ∀ q', dataAt root (p ++ v :: q') = none) ∧
      ∃ y, LeastOf (After root p (left.drop 1).head?) y ∧ Returns (some root) lookup y := by
  obtain ⟨p, left, hlookup, hleft, hpath, hno⟩ := closest_spec lookup (Path.root : Path root [root] [])
  rw [nil_append] at hpath
  obtain ⟨y, hy, hyields⟩ := nextLoop_spec hroot hpath (left.drop 1).head?
  refine ⟨p, left, hlookup, hpath.live hroot, hno, y, hy, ?_⟩
  have hcall : ∀ fuel, getNextNode fuel (some root) lookup =
      nextLoop fuel (closest lookup root []).1 (left.drop 1).head? := by
    intro fuel
    rw [← hleft]
    rfl
  cases y with
  | none =>
    obtain ⟨N, hN⟩ := hyields
    exact ⟨N, fun fuel hfuel => ⟨none, by rw [hcall, hN fuel hfuel], rfl, rfl⟩⟩
  | some y =>
    obtain ⟨hne, N, hN⟩ := hyields
    refine ⟨N, fun fuel hfuel => ?_⟩
    obtain ⟨r, hr, hrpath⟩ := hN fuel hfuel
    refine ⟨some r, by rw [hcall, hr], by rw [Option.map_some, hrpath.chainOid_eq], ?_⟩
    rw [Option.bind_some, Option.bind_some, getNode_of_ne_nil hne, Option.bind_some, hrpath.descend_eq]

/-- The OIDs with data that are greater than `x`. -/
def Greater (adds : List (Add D)) (x : List Oid) (y : List Oid) : Prop := stored adds y ≠ none ∧ x < y

/-- The stash does what an ordered map does: an addition, a lookup and the search for what comes next. -/
structure OrderedMap (adds : List (Add D)) (x : List Oid) : Prop where
  add_iff : ∀ a : Add D,
    (addData (stash adds) a.lookup a.data).1 = .success ↔ stored adds a.lookup = none
  refused : ∀ a : Add D, (addData (stash adds) a.lookup a.data).1 ≠ .success →
    (addData (stash adds) a.lookup a.data).2 = stash adds
  get : ∀ o, getData (stash adds) o = stored adds o
  next : ∃ y, LeastOf (Greater adds x) y ∧ Returns (stash adds) x y

/-- Where `x` leaves the stored OIDs, with `c`, a stored OID goes on with more than `c` exactly when it goes on
with more than what follows `c` in `x`. -/
def NextFine (adds : List (Add D)) (x : List Oid) : Prop :=
  ∀ o c r, x = o ++ c :: r → (o = [] ∨ ∃ q, stored adds (o ++ q) ≠ none) →
    (∀ q, stored adds (o ++ c :: q) = none) →
    ∀ v q, stored adds (o ++ v :: q) ≠ none → (c < v ↔ ∀ b ∈ r.head?, b < v)

theorem above_iff {bound : Option Oid} {v : Oid} : above bound v = true ↔ ∀ b ∈ bound, b < v := by
  cases bound with
  | none => simp [above]
  | some b => simp [above]

theorem addData_stash (adds : List (Add D)) (a : Add D) :
    ((addData (stash adds) a.lookup a.data).1 = .success ↔ stored adds a.lookup = none) ∧
    ((addData (stash adds) a.lookup a.data).1 ≠ .success → (addData (stash adds) a.lookup a.data).2 = stash adds) := by
  obtain ⟨hwf, hdata⟩ := stash_spec adds
  rw [addData_of_ne_nil a.lookup_ne_nil]
  have hiff := addPath_success_iff (p := a.lookup) hwf a.data
  rw [hdata] at hiff
  refine ⟨hiff, fun hfail => ?_⟩
  have hstored : stored adds a.lookup ≠ none := fun h => hfail (hiff.mpr h)
  have hsame := addPath_of_data (p := a.lookup) (n := rootNode (stash adds)) a.data (by rwa [hdata])
  rw [hsame]
  cases hroot : stash adds with
  | some root => rfl
  | none =>
    have := hdata a.lookup
    rw [hroot] at this
    exact absurd ((this.symm.trans (dataAt_create 0 _))) hstored

theorem stash_returns (adds : List (Add D)) (x : List Oid) :
    ∃ p left, x = p ++ left ∧ (p = [] ∨ ∃ q, stored adds (p ++ q) ≠ none) ∧
      (∀ v q, left = v :: q → ∀ q', stored adds (p ++ v :: q') = none) ∧
      ∃ y, LeastOf (fun z => stored adds z ≠ none ∧ ((∃ v q, z = p ++ v :: q ∧
        ∀ b ∈ (left.drop 1).head?, b < v) ∨ Beyond p z)) y ∧ Returns (stash adds) x y := by
  obtain ⟨hwf, hdata⟩ := stash_spec adds
  cases hroot : stash adds with
  | none =>
    rw [hroot] at hdata
    have hempty : ∀ o, stored adds o = none := fun o => (hdata o).symm.trans (dataAt_create 0 o)
    exact ⟨[], x, rfl, .inl rfl, fun v q _ q' => hempty _, none, fun z hz => hz.1 (hempty z), 0,
      fun fuel _ => ⟨none, rfl, rfl, rfl⟩⟩
  | some root =>
    rw [hroot] at hwf hdata
    obtain ⟨p, left, hx, hlive, hno, y, hy, hret⟩ := returns_after hwf x
    simp only [rootNode, Option.getD_some] at hdata
    refine ⟨p, left, hx, ?_, ?_, y, hy.congr fun z => ?_, hret⟩
    · rcases hlive with hp | ⟨q, hq⟩
      · exact .inl hp
      · exact .inr ⟨q, by rwa [← hdata]⟩
    · intro v q hleft q'
      rw [← hdata]
      exact hno v q hleft q'
    · unfold After Below
      simp only [rootNode, Option.getD_some, above_iff, hdata]
      exact and_or_left.symm

theorem leaves_not_before {adds : List (Add D)} {p o z : List Oid} {c : Oid}
    (ho : o = p ++ c :: z) (hlive : o = [] ∨ ∃ q, stored adds (o ++ q) ≠ none)
    (hnone : ∀ q, stored adds (p ++ c :: q) = none) : False := by
  rcases hlive with h | ⟨q, hq⟩
  · rw [ho] at h
    simp at h
  · rw [ho, append_assoc] at hq
    exact hq (hnone _)

theorem leaves_unique {adds : List (Add D)} {p o : List Oid} {c c' : Oid} {r r' : List Oid}
    (hx : p ++ c :: r = o ++ c' :: r')
    (hlive : p = [] ∨ ∃ q, stored adds (p ++ q) ≠ none) (hnone : ∀ q, stored adds (p ++ c :: q) = none)
    (hlive' : o = [] ∨ ∃ q, stored adds (o ++ q) ≠ none) (hnone' : ∀ q, stored adds (o ++ c' :: q) = none) :
    p = o ∧ c = c' ∧ r = r' := by
  rcases append_eq_append_iff.mp hx with ⟨z, ho, hz⟩ | ⟨z, hp, hz⟩
  · cases z with
    | nil =>
      rw [append_nil] at ho
      rw [nil_append] at hz
      exact ⟨ho.symm, List.cons.inj hz⟩
    | cons w z =>
      obtain ⟨rfl, -⟩ := List.cons.inj hz
      exact (leaves_not_before ho hlive' hnone).elim
  · cases z with
    | nil =>
      rw [append_nil] at hp
      rw [nil_append] at hz
      exact ⟨hp, (List.cons.inj hz).1.symm, (List.cons.inj hz).2.symm⟩
    | cons w z =>
      obtain ⟨rfl, -⟩ := List.cons.inj hz
      exact (leaves_not_before hp hlive hnone').elim

theorem branch_le {p q z : List Oid} {v : Oid} {P : Oid → Prop} (hle : ¬ p ++ v :: q < z)
    (hz : (∃ w q', z = p ++ w :: q' ∧ P w) ∨ Beyond p z) : ∃ w, P w ∧ w ≤ v := by
  rcases hz with ⟨w, q', rfl, hw⟩ | hbeyond
  · rw [append_lt_append, cons_lt_cons_iff] at hle
    exact ⟨w, hw, UInt32.not_lt.mp fun hlt => hle (.inl hlt)⟩
  · exact absurd (hbeyond.append_lt (v :: q)) hle

/-- A call is right on everything but the next OID, and on that one exactly under `NextFine`. -/
theorem orderedMap_iff (adds : List (Add D)) (x : List Oid) : OrderedMap adds x ↔ NextFine adds x := by
  obtain ⟨p, left, rfl, hlive, hno, y, hy, hret⟩ := stash_returns adds x
  cases left with
  | nil =>
    -- the OID is a node of the tree
    refine ⟨fun _ => ?_, fun _ => ?_⟩
    · intro o c r hx _ hnone v q _
      rcases hlive with rfl | ⟨q', hq'⟩
      · cases o <;> cases hx
      · rw [append_nil] at hx
        subst hx
        rw [append_assoc] at hq'
        exact absurd (hnone _) hq'
    · refine ⟨fun a => (addData_stash adds a).1, fun a => (addData_stash adds a).2, getData_stash adds, y,
        hy.congr fun z => ?_, hret⟩
      unfold Greater
      rw [append_lt_iff]
      refine and_congr_right fun _ => or_congr_left ⟨?_, ?_⟩
      · rintro ⟨v, q, rfl, -⟩
        exact ⟨v :: q, rfl, nil_lt_cons v q⟩
      · rintro ⟨z', rfl, hlt⟩
        cases z' with
        | nil => exact absurd hlt (List.not_lt_nil [])
        | cons v q => exact ⟨v, q, rfl, by simp⟩
  | cons c r =>
    rw [drop_one, tail_cons] at hy
    have hsibling : ∀ v q, stored adds (p ++ v :: q) ≠ none → v ≠ c := by
      rintro v q hd rfl
      exact hd (hno v r rfl q)
    have hgreater : ∀ z, stored adds z ≠ none →
        (p ++ c :: r < z ↔ (∃ v q, z = p ++ v :: q ∧ c < v) ∨ Beyond p z) := by
      intro z hz
      rw [append_lt_iff]
      refine or_congr_left ⟨?_, ?_⟩
      · rintro ⟨z', rfl, hlt⟩
        cases z' with
        | nil => exact absurd hlt (List.not_lt_nil _)
        | cons v q =>
          rcases cons_lt_cons_iff.mp hlt with hlt | ⟨rfl, -⟩
          · exact ⟨v, q, rfl, hlt⟩
          · exact absurd rfl (hsibling c q hz)
      · rintro ⟨v, q, rfl, hlt⟩
        exact ⟨v :: q, rfl, cons_lt_cons_iff.mpr (.inl hlt)⟩
    constructor
    · rintro ⟨-, -, -, y', hy', hret'⟩
      obtain rfl := hret.unique hret'
      intro o c' r' hx hlive' hno' v q hd
      obtain ⟨rfl, rfl, rfl⟩ := leaves_unique hx hlive (hno c r rfl) hlive' hno'
      -- both searches find the same, and the stored OID below `v` is in the range of one of them
      constructor
      · intro hlt b hb
        obtain ⟨z, rfl, hle⟩ := hy'.exists_le ⟨hd, (hgreater _ hd).mpr (.inl ⟨v, q, rfl, hlt⟩)⟩
        obtain ⟨w, hw, hwv⟩ := branch_le hle hy.mem.2
        exact UInt32.lt_of_lt_of_le (hw b hb) hwv
      · intro hb
        obtain ⟨z, rfl, hle⟩ := hy.exists_le ⟨hd, .inl ⟨v, q, rfl, hb⟩⟩
        obtain ⟨w, hw, hwv⟩ := branch_le hle ((hgreater z hy'.mem.1).mp hy'.mem.2)
        exact UInt32.lt_of_lt_of_le hw hwv
    · intro hfine
      refine ⟨fun a => (addData_stash adds a).1, fun a => (addData_stash adds a).2, getData_stash adds, y,
        hy.congr fun z => ?_, hret⟩
      unfold Greater
      refine and_congr_right fun hz => ?_
      rw [hgreater z hz]
      refine or_congr_left ⟨?_, ?_⟩
      · rintro ⟨v, q, rfl, hb⟩
        exact ⟨v, q, rfl, (hfine p c r rfl hlive (hno c r rfl) v q hz).mpr hb⟩
      · rintro ⟨v, q, rfl, hlt⟩
        exact ⟨v, q, rfl, (hfine p c r rfl hlive (hno c r rfl) v q hz).mp hlt⟩

/-- With data under `1` alone, the search from `5` comes back with `1`. -/
theorem not_orderedMap : ¬ OrderedMap [(⟨[1], (), by simp⟩ : Add Unit)] [5] := by
  rintro ⟨-, -, -, y, hy, N, hN⟩
  obtain ⟨r, hr, hry, -⟩ := hN (N + 1) (by omega)
  have hcode : (getNextNode (N + 1) (stash [(⟨[1], (), by simp⟩ : Add Unit)]) [5]).map (·.map chainOid) =
      some (some [1]) := rfl
  rw [hr, Option.map_some, hry, Option.some.injEq] at hcode
  subst hcode
  have hlt : ([5] : List Oid) < [1] := hy.mem.2
  exact absurd hlt (by decide)

end Priot.OidStash
