/-
# `OidStash_getNextNode`

The search goes up from the closest node until some child lies above the bound, takes the least of these and goes down
to the first node with data.
-/
import Priot.Lib.Least
import Priot.OidStash.Data

namespace Priot.OidStash

open Lib Node List

variable {D : Type}

/-! ## the order of OIDs -/

/-- `y` is greater than `x` without continuing it. -/
def Beyond (x y : List Oid) : Prop := x < y ∧ ¬ x <+: y

theorem not_beyond_nil (y : List Oid) : ¬ Beyond [] y := fun h => h.2 nil_prefix

theorem beyond_cons {v : Oid} {x y : List Oid} :
    Beyond (v :: x) y ↔ (∃ w q, y = w :: q ∧ v < w) ∨ ∃ q, y = v :: q ∧ Beyond x q := by
  unfold Beyond
  cases y with
  | nil => simp
  | cons w q =>
    rw [cons_lt_cons_iff, cons_prefix_cons]
    constructor
    · rintro ⟨hlt | ⟨rfl, hlt⟩, hpre⟩
      · exact .inl ⟨w, q, rfl, hlt⟩
      · exact .inr ⟨q, rfl, hlt, fun h => hpre ⟨rfl, h⟩⟩
    · rintro (⟨w', q', heq, hlt⟩ | ⟨q', heq, hlt, hpre⟩)
      · obtain ⟨rfl, rfl⟩ := List.cons.inj heq
        exact ⟨.inl hlt, fun h => UInt32.lt_irrefl w (h.1 ▸ hlt)⟩
      · obtain ⟨rfl, rfl⟩ := List.cons.inj heq
        exact ⟨.inr ⟨rfl, hlt⟩, fun h => hpre h.2⟩

theorem beyond_snoc {x : List Oid} {v : Oid} {y : List Oid} :
    Beyond (x ++ [v]) y ↔ (∃ w q, y = x ++ w :: q ∧ v < w) ∨ Beyond x y := by
  induction x generalizing y with
  | nil =>
    rw [nil_append, beyond_cons]
    constructor
    · rintro (h | ⟨q, -, h⟩)
      · exact .inl h
      · exact absurd h (not_beyond_nil q)
    · rintro (h | h)
      · exact .inl h
      · exact absurd h (not_beyond_nil y)
  | cons u x ih =>
    rw [cons_append, beyond_cons, beyond_cons]
    constructor
    · rintro (h | ⟨q, rfl, h⟩)
      · exact .inr (.inl h)
      · rcases ih.mp h with ⟨w, q', rfl, hlt⟩ | h
        · exact .inl ⟨w, q', rfl, hlt⟩
        · exact .inr (.inr ⟨q, rfl, h⟩)
    · rintro (⟨w, q, rfl, hlt⟩ | h | ⟨q, rfl, h⟩)
      · exact .inr ⟨x ++ w :: q, rfl, ih.mpr (.inl ⟨w, q, rfl, hlt⟩)⟩
      · exact .inl h
      · exact .inr ⟨q, rfl, ih.mpr (.inr h)⟩

theorem append_lt_append {x y z : List Oid} : x ++ y < x ++ z ↔ y < z := by
  induction x with
  | nil => rfl
  | cons v x ih => rw [cons_append, cons_append, cons_lt_cons_iff, ih]; simp

theorem lt_append_cons (x : List Oid) (v : Oid) (q : List Oid) : x < x ++ v :: q := by
  have h := append_lt_append (x := x) (y := []) (z := v :: q)
  rw [append_nil] at h
  exact h.mpr (nil_lt_cons v q)

theorem Beyond.append_lt {x y : List Oid} (h : Beyond x y) (q : List Oid) : x ++ q < y := by
  induction x generalizing y with
  | nil => exact absurd h (not_beyond_nil y)
  | cons v x ih =>
    rcases beyond_cons.mp h with ⟨w, q', rfl, hlt⟩ | ⟨q', rfl, h'⟩
    · exact cons_lt_cons_iff.mpr (.inl hlt)
    · exact cons_lt_cons_iff.mpr (.inr ⟨rfl, ih h'⟩)

theorem append_lt_iff {x z y : List Oid} : x ++ z < y ↔ (∃ z', y = x ++ z' ∧ z < z') ∨ Beyond x y := by
  constructor
  · intro h
    by_cases hpre : x <+: y
    · obtain ⟨z', rfl⟩ := hpre
      exact .inl ⟨z', rfl, append_lt_append.mp h⟩
    · refine .inr ⟨?_, hpre⟩
      cases z with
      | nil => rwa [append_nil] at h
      | cons v q => exact List.lt_trans (lt_append_cons x v q) h
  · rintro (⟨z', rfl, hlt⟩ | h)
    · exact append_lt_append.mpr hlt
    · exact h.append_lt z

/-! ## the least child -/

/-- `r` is the least of the nodes of `l` above the bound and of `tmpp`. -/
def Picks (bound : Option Oid) (tmpp : Option (Node D)) (l : List (Node D)) (r : Option (Node D)) : Prop :=
  (∀ t ∈ r, t ∈ tmpp ∨ t ∈ l ∧ above bound t.value = true) ∧
  ∀ s, s ∈ tmpp ∨ s ∈ l ∧ above bound s.value = true → ∃ t ∈ r, t.value ≤ s.value

theorem Picks.nil (bound : Option Oid) (tmpp : Option (Node D)) : Picks bound tmpp [] tmpp := by
  refine ⟨fun t ht => .inl ht, fun s hs => ⟨s, ?_, UInt32.le_refl _⟩⟩
  rcases hs with hs | ⟨hs, -⟩
  · exact hs
  · cases hs

theorem Picks.append {bound : Option Oid} {tmpp r r' : Option (Node D)} {l l' : List (Node D)}
    (h : Picks bound tmpp l r) (h' : Picks bound r l' r') : Picks bound tmpp (l ++ l') r' := by
  constructor
  · intro t ht
    rcases h'.1 t ht with ht | ⟨hmem, hab⟩
    · rcases h.1 t ht with ht | ⟨hmem, hab⟩
      · exact .inl ht
      · exact .inr ⟨mem_append_left l' hmem, hab⟩
    · exact .inr ⟨mem_append_right l hmem, hab⟩
  · intro s hs
    have hcases : (s ∈ tmpp ∨ s ∈ l ∧ above bound s.value = true) ∨ s ∈ l' ∧ above bound s.value = true := by
      rcases hs with hs | ⟨hmem, hab⟩
      · exact .inl (.inl hs)
      · rcases mem_append.mp hmem with hmem | hmem
        · exact .inl (.inr ⟨hmem, hab⟩)
        · exact .inr ⟨hmem, hab⟩
    rcases hcases with hs | hs
    · obtain ⟨t, ht, hle⟩ := h.2 s hs
      obtain ⟨t', ht', hle'⟩ := h'.2 t (.inl ht)
      exact ⟨t', ht', UInt32.le_trans hle' hle⟩
    · exact h'.2 s (.inr hs)

theorem scanBucket_spec (size : Nat) (bound : Option Oid) (tmpp : Option (Node D)) (l : List (Node D))
    (htmpp : ∀ t ∈ tmpp, size - 1 < t.value.toNat) :
    ((scanBucket size bound tmpp l).2 = false ∧ Picks bound tmpp l (scanBucket size bound tmpp l).1 ∧
      ∀ t ∈ (scanBucket size bound tmpp l).1, size - 1 < t.value.toNat) ∨
    ((scanBucket size bound tmpp l).2 = true ∧ ∃ t, (scanBucket size bound tmpp l).1 = some t ∧
      t ∈ l ∧ above bound t.value = true ∧ t.value.toNat ≤ size - 1) := by
  induction l generalizing tmpp with
  | nil => exact .inl ⟨rfl, Picks.nil bound tmpp, htmpp⟩
  | cons loopp l ih =>
    unfold scanBucket
    split
    · next hbetter =>
      rw [Bool.and_eq_true] at hbetter
      obtain ⟨hab, hall⟩ := hbetter
      split
      · next hle => exact .inr ⟨rfl, loopp, rfl, by simp, hab, hle⟩
      · next hgt =>
        -- the node becomes the best so far
        have hone : Picks bound tmpp [loopp] (some loopp) := by
          refine ⟨fun t ht => .inr ?_, fun s hs => ⟨loopp, rfl, ?_⟩⟩
          · cases ht
            exact ⟨by simp, hab⟩
          · rcases hs with hs | ⟨hs, -⟩
            · cases hs
              simp only [Option.all_some, decide_eq_true_eq] at hall
              exact UInt32.le_of_lt hall
            · rw [mem_singleton.mp hs]
              exact UInt32.le_refl _
        rcases ih (some loopp) (fun t ht => by cases ht; omega) with ⟨hf, hpicks, hbig⟩ | ⟨ht, t, hr, hmem, h⟩
        · exact .inl ⟨hf, hone.append hpicks, hbig⟩
        · exact .inr ⟨ht, t, hr, mem_cons_of_mem loopp hmem, h⟩
    · next hworse =>
      have hone : Picks bound tmpp [loopp] tmpp := by
        refine ⟨fun t ht => .inl ht, fun s hs => ?_⟩
        rcases hs with hs | ⟨hs, hab⟩
        · exact ⟨s, hs, UInt32.le_refl _⟩
        · rw [mem_singleton.mp hs] at hab ⊢
          cases tmpp with
          | none => simp [hab] at hworse
          | some t =>
            simp only [hab, Bool.true_and, Option.all_some, decide_eq_true_eq] at hworse
            exact ⟨t, rfl, UInt32.not_lt.mp hworse⟩
      rcases ih tmpp htmpp with ⟨hf, hpicks, hbig⟩ | ⟨ht, t, hr, hmem, h⟩
      · exact .inl ⟨hf, hone.append hpicks, hbig⟩
      · exact .inr ⟨ht, t, hr, mem_cons_of_mem loopp hmem, h⟩

theorem scanChildren_spec {size : Nat} (hsize : 0 < size) (bound : Option Oid) (j : Nat) (tmpp : Option (Node D))
    (buckets : List (List (Node D))) (hj : j + buckets.length = size)
    (hplace : ∀ i c, c ∈ buckets.getD i [] → c.value.toNat % size = j + i)
    (htmpp : ∀ t ∈ tmpp, size - 1 < t.value.toNat) :
    Picks bound tmpp buckets.flatten (scanChildren size bound tmpp buckets) := by
  induction buckets generalizing j tmpp with
  | nil => exact Picks.nil bound tmpp
  | cons bucket buckets ih =>
    rw [length_cons] at hj
    have hbucket : ∀ c ∈ bucket, c.value.toNat % size = j := fun c hc => hplace 0 c hc
    have hrest : ∀ i c, c ∈ buckets.getD i [] → c.value.toNat % size = j + 1 + i := by
      intro i c hc
      have := hplace (i + 1) c hc
      omega
    unfold scanChildren
    rcases scanBucket_spec size bound tmpp bucket htmpp with ⟨hf, hpicks, hbig⟩ | ⟨ht, t, hr, hmem, hab, hle⟩
    · rw [show scanBucket size bound tmpp bucket = ((scanBucket size bound tmpp bucket).1, false) from
        Prod.ext rfl hf]
      exact hpicks.append (ih (j + 1) _ (by omega) hrest hbig)
    · rw [show scanBucket size bound tmpp bucket = (some t, true) from Prod.ext hr ht]
      have htj : t.value.toNat = j := by
        have := hbucket t hmem
        rwa [Nat.mod_eq_of_lt (by omega)] at this
      refine ⟨fun s hs => ?_, fun s hs => ⟨t, rfl, ?_⟩⟩
      · cases hs
        exact .inr ⟨mem_flatten.mpr ⟨bucket, by simp, hmem⟩, hab⟩
      · rw [UInt32.le_iff_toNat_le, htj]
        have hmod := Nat.mod_le s.value.toNat size
        rcases hs with hs | ⟨hs, -⟩
        · have := htmpp s hs
          omega
        · obtain ⟨l, hl, hsl⟩ := mem_flatten.mp hs
          rcases mem_cons.mp hl with rfl | hl
          · have := hbucket s hsl
            omega
          · obtain ⟨i, hi, rfl⟩ := mem_iff_getElem.mp hl
            have := hrest i s (by rwa [getD_eq_getElem?_getD, getElem?_eq_getElem hi])
            omega

theorem mem_flatten_children {n c : Node D} : c ∈ n.children.flatten ↔ ∃ j, c ∈ n.list j := by
  unfold list
  constructor
  · intro h
    obtain ⟨l, hl, hc⟩ := mem_flatten.mp h
    obtain ⟨j, hj, rfl⟩ := mem_iff_getElem.mp hl
    exact ⟨j, by rwa [getD_eq_getElem?_getD, getElem?_eq_getElem hj]⟩
  · rintro ⟨j, hc⟩
    rw [getD_eq_getElem?_getD] at hc
    cases hget : n.children[j]? with
    | none =>
      rw [hget] at hc
      cases hc
    | some l =>
      rw [hget] at hc
      exact mem_flatten.mpr ⟨l, mem_of_getElem? hget, hc⟩

theorem WF.scanChildren {n : Node D} (h : WF n) (bound : Option Oid) :
    (OidStash.scanChildren n.childrenSize bound none n.children = none ∧
      ∀ v c, n.child v = some c → ¬ above bound v = true) ∨
    ∃ t, OidStash.scanChildren n.childrenSize bound none n.children = some t ∧ n.child t.value = some t ∧
      above bound t.value = true ∧ ∀ v c, n.child v = some c → above bound v = true → t.value ≤ v := by
  have hchild := fun j c => h.child_of_mem (c := c) (j := j)
  have hpicks : Picks bound none n.children.flatten
      (OidStash.scanChildren n.childrenSize bound none n.children) := by
    refine scanChildren_spec h.size_pos bound 0 none n.children (Nat.zero_add _) ?_ (by simp)
    intro i c hc
    cases h with
    | mk hsize _ hplace _ _ => rw [hsize, hplace i c hc, Nat.zero_add]
  have hmem : ∀ v c, n.child v = some c → c ∈ n.children.flatten := fun v c hc =>
    mem_flatten_children.mpr ⟨_, mem_of_child hc⟩
  cases hr : OidStash.scanChildren n.childrenSize bound none n.children with
  | none =>
    rw [hr] at hpicks
    refine .inl ⟨rfl, fun v c hc hab => ?_⟩
    rw [← value_of_child hc] at hab
    obtain ⟨t, ht, -⟩ := hpicks.2 c (.inr ⟨hmem v c hc, hab⟩)
    cases ht
  | some t =>
    rw [hr] at hpicks
    rcases hpicks.1 t rfl with ht | ⟨ht, hab⟩
    · cases ht
    · obtain ⟨j, hj⟩ := mem_flatten_children.mp ht
      refine .inr ⟨t, rfl, hchild j t hj, hab, fun v c hc habv => ?_⟩
      rw [← value_of_child hc] at habv ⊢
      obtain ⟨t', ht', hle⟩ := hpicks.2 c (.inr ⟨hmem v c hc, habv⟩)
      cases ht'
      exact hle

/-! ## the search -/

/-- A node with its ancestors behind it, and the OID that leads there. -/
inductive Path (root : Node D) : List (Node D) → List Oid → Prop
  | root : Path root [root] []
  | child {n c : Node D} {ancestors : List (Node D)} {o : List Oid} {v : Oid} :
    Path root (n :: ancestors) o → n.child v = some c → Path root (c :: n :: ancestors) (o ++ [v])

variable {root : Node D} {chain : List (Node D)} {o : List Oid}

theorem Path.chainOid_eq (h : Path root chain o) : chainOid chain = o := by
  induction h with
  | root => rfl
  | child h hc ih =>
    unfold chainOid at ih ⊢
    rw [dropLast_cons_cons, map_cons, reverse_cons, ih, value_of_child hc]

theorem descend_append (p q : List Oid) (n : Node D) : descend (p ++ q) n = (descend p n).bind (descend q) := by
  induction p generalizing n with
  | nil => rfl
  | cons v p ih =>
    rw [cons_append, descend, descend, Option.bind_assoc]
    exact congrArg _ (funext ih)

theorem Path.descend_eq (h : Path root chain o) : descend o root = chain.head? := by
  induction h with
  | root => rfl
  | child h hc ih =>
    rw [descend_append, ih, head?_cons, Option.bind_some, descend, hc, Option.bind_some]
    rfl

variable {ancestors : List (Node D)}

theorem Path.dataAt_append {n : Node D}
    (h : Path root (n :: ancestors) o) (q : List Oid) : dataAt root (o ++ q) = dataAt n q := by
  unfold dataAt
  rw [descend_append, h.descend_eq, head?_cons, Option.bind_some]

theorem Path.wf (hroot : WF root) {n : Node D} (h : Path root (n :: ancestors) o) : WF n := by
  generalize hchain : n :: ancestors = chain at h
  induction h generalizing n ancestors with
  | root =>
    cases hchain
    exact hroot
  | child h hc ih =>
    cases hchain
    exact ((ih rfl).child hc).1

/-- The data below a node, at the children above a bound. -/
def Below (root : Node D) (o : List Oid) (bound : Option Oid) (y : List Oid) : Prop :=
  dataAt root y ≠ none ∧ ∃ v q, y = o ++ v :: q ∧ above bound v = true

/-- The data that comes after a node and a bound on its children. -/
def After (root : Node D) (o : List Oid) (bound : Option Oid) (y : List Oid) : Prop :=
  Below root o bound y ∨ dataAt root y ≠ none ∧ Beyond o y

/-- From some round on, the loop returns the node that an OID leads to. -/
def Yields (root : Node D) (chain : List (Node D)) (bound : Option Oid) : Option (List Oid) → Prop
  | none => ∃ N, ∀ fuel, N ≤ fuel → nextLoop fuel chain bound = some none
  | some y => y ≠ [] ∧ ∃ N, ∀ fuel, N ≤ fuel →
      ∃ r, nextLoop fuel chain bound = some (some r) ∧ Path root r y

theorem Yields.round {chain' : List (Node D)} {bound bound' : Option Oid}
    {y : Option (List Oid)} (hround : ∀ fuel, nextLoop (fuel + 1) chain bound = nextLoop fuel chain' bound')
    (h : Yields root chain' bound' y) : Yields root chain bound y := by
  cases y with
  | none =>
    obtain ⟨N, hN⟩ := h
    refine ⟨N + 1, fun fuel hfuel => ?_⟩
    obtain ⟨fuel, rfl⟩ : ∃ f, fuel = f + 1 := ⟨fuel - 1, by omega⟩
    rw [hround]
    exact hN fuel (by omega)
  | some y =>
    obtain ⟨hne, N, hN⟩ := h
    refine ⟨hne, N + 1, fun fuel hfuel => ?_⟩
    obtain ⟨fuel, rfl⟩ : ∃ f, fuel = f + 1 := ⟨fuel - 1, by omega⟩
    rw [hround]
    exact hN fuel (by omega)

theorem take_child {n t : Node D} {bound : Option Oid} (hpath : Path root (n :: ancestors) o)
    (hscan : scanChildren n.childrenSize bound none n.children = some t) (hchild : n.child t.value = some t)
    (hab : above bound t.value = true) (hleast : ∀ v c, n.child v = some c → above bound v = true → t.value ≤ v)
    (hdown : t.data = none → ∃ x, LeastOf (Below root (o ++ [t.value]) none) (some x) ∧
      Yields root (t :: n :: ancestors) none (some x)) :
    ∃ x, LeastOf (Below root o bound) (some x) ∧ Yields root (n :: ancestors) bound (some x) := by
  have htpath := hpath.child hchild
  -- the data below a child that is not `t` comes later
  have hcases : ∀ y, Below root o bound y →
      (∃ q, y = o ++ t.value :: q ∧ dataAt t q ≠ none) ∨ ∃ v q, y = o ++ v :: q ∧ t.value < v := by
    rintro y ⟨hd, v, q, rfl, habv⟩
    rw [hpath.dataAt_append, dataAt_cons] at hd
    cases hc : n.child v with
    | none => simp [hc] at hd
    | some c =>
      rcases UInt32.lt_or_eq_of_le (hleast v c hc habv) with hlt | rfl
      · exact .inr ⟨v, q, rfl, hlt⟩
      · rw [hchild, Option.bind_some] at hd
        exact .inl ⟨q, rfl, hd⟩
  cases hd : t.data with
  | some d =>
    refine ⟨o ++ [t.value], ⟨⟨?_, t.value, [], rfl, hab⟩, fun y hy hlt => ?_⟩, by simp, 1, fun fuel hfuel => ?_⟩
    · rw [hpath.dataAt_append, dataAt_cons, hchild, Option.bind_some, dataAt_nil, hd]
      simp
    · rcases hcases y hy with ⟨q, rfl, -⟩ | ⟨v, q, rfl, hgt⟩
      · rw [append_lt_append, cons_lt_cons_self] at hlt
        exact List.not_lt_nil q hlt
      · rw [append_lt_append, cons_lt_cons_iff] at hlt
        rcases hlt with hlt | ⟨rfl, hlt⟩
        · exact UInt32.lt_asymm hgt hlt
        · exact List.not_lt_nil q hlt
    · obtain ⟨fuel, rfl⟩ : ∃ f, fuel = f + 1 := ⟨fuel - 1, by omega⟩
      refine ⟨t :: n :: ancestors, ?_, htpath⟩
      rw [nextLoop, hscan]
      simp [hd]
  | none =>
    obtain ⟨x, hx, hyields⟩ := hdown hd
    refine ⟨x, ?_, hyields.round fun fuel => ?_⟩
    · have hbefore : ∀ y, (Below root o bound y ∧ ∃ v q, y = o ++ v :: q ∧ t.value < v) → x < y := by
        rintro y ⟨-, v, q, rfl, hlt⟩
        obtain ⟨-, w, q', rfl, -⟩ := hx.mem
        rw [append_assoc, append_lt_append]
        exact cons_lt_cons_iff.mpr (.inl hlt)
      refine (hx.or_of_before hbefore).congr fun y => ⟨?_, fun hy => ?_⟩
      · rintro (⟨hdata, w, q, rfl, -⟩ | ⟨hy, -⟩)
        · refine ⟨hdata, t.value, w :: q, ?_, hab⟩
          rw [append_assoc]
          rfl
        · exact hy
      · rcases hcases y hy with ⟨q, rfl, hq⟩ | hgt
        · cases q with
          | nil => exact absurd hd hq
          | cons w q =>
            refine .inl ⟨hy.1, w, q, ?_, rfl⟩
            rw [append_assoc]
            rfl
        · exact .inr ⟨hy, hgt⟩
    · rw [nextLoop, hscan]
      simp [hd]

theorem down {n : Node D} (hwf : WF n)
    (hpath : Path root (n :: ancestors) o) (hlive : ∃ v q, dataAt n (v :: q) ≠ none) :
    ∃ x, LeastOf (Below root o none) (some x) ∧ Yields root (n :: ancestors) none (some x) := by
  induction hwf generalizing ancestors o with
  | @mk n hsize hnodup hplace hlive' hwf ih =>
    rcases (WF.mk hsize hnodup hplace hlive' hwf).scanChildren none with ⟨-, hno⟩ | ⟨t, hscan, hchild, hab, hleast⟩
    · obtain ⟨v, q, hq⟩ := hlive
      rw [dataAt_cons] at hq
      cases hc : n.child v with
      | none => simp [hc] at hq
      | some c => exact absurd rfl (hno v c hc)
    · refine take_child hpath hscan hchild hab hleast fun hd => ?_
      have hmem := mem_of_child hchild
      refine ih _ t hmem (hpath.child hchild) ?_
      obtain ⟨q, hq⟩ := hlive' _ t hmem
      cases q with
      | nil => exact absurd hd hq
      | cons v q => exact ⟨v, q, hq⟩

theorem nextLoop_spec (hroot : WF root) (hpath : Path root chain o) (bound : Option Oid) :
    ∃ y, LeastOf (After root o bound) y ∧ Yields root chain bound y := by
  have hfound : ∀ {n t : Node D} {ancestors : List (Node D)} {o : List Oid} {bound : Option Oid},
      Path root (n :: ancestors) o → scanChildren n.childrenSize bound none n.children = some t →
      n.child t.value = some t → above bound t.value = true →
      (∀ v c, n.child v = some c → above bound v = true → t.value ≤ v) →
      ∃ y, LeastOf (After root o bound) y ∧ Yields root (n :: ancestors) bound y := by
    intro n t ancestors o bound hpath hscan hchild hab hleast
    have htpath := hpath.child hchild
    obtain ⟨x, hx, hyields⟩ := take_child hpath hscan hchild hab hleast fun hd => by
      obtain ⟨hwf, q, hq⟩ := (hpath.wf hroot).child hchild
      refine down hwf htpath ?_
      cases q with
      | nil => exact absurd hd hq
      | cons v q => exact ⟨v, q, hq⟩
    refine ⟨some x, hx.or_of_before ?_, hyields⟩
    rintro y ⟨-, hy⟩
    obtain ⟨-, v, q, rfl, -⟩ := hx.mem
    exact hy.append_lt _
  have hnone : ∀ {n : Node D} {ancestors : List (Node D)} {o : List Oid} {bound : Option Oid},
      Path root (n :: ancestors) o → (∀ v c, n.child v = some c → ¬ above bound v = true) →
      ∀ y, ¬ Below root o bound y := by
    rintro n ancestors o bound hpath hno y ⟨hd, v, q, rfl, hab⟩
    rw [hpath.dataAt_append, dataAt_cons] at hd
    cases hc : n.child v with
    | none => simp [hc] at hd
    | some c => exact hno v c hc hab
  induction hpath generalizing bound with
  | root =>
    rcases hroot.scanChildren bound with ⟨hscan, hno⟩ | ⟨t, hscan, hchild, hab, hleast⟩
    · refine ⟨none, ?_, 2, fun fuel hfuel => ?_⟩
      · rintro y (hy | ⟨-, hy⟩)
        · exact hnone .root hno y hy
        · exact not_beyond_nil y hy
      · obtain ⟨fuel, rfl⟩ : ∃ f, fuel = f + 2 := ⟨fuel - 2, by omega⟩
        rw [nextLoop, hscan]
        rfl
    · exact hfound .root hscan hchild hab hleast
  | @child n c ancestors o v hpath hc ih =>
    have hcpath := hpath.child hc
    rcases (hcpath.wf hroot).scanChildren bound with ⟨hscan, hno⟩ | ⟨t, hscan, hchild, hab, hleast⟩
    · -- no child above the bound: up, and to the greater siblings
      obtain ⟨y, hy, hyields⟩ := ih (some v)
      refine ⟨y, hy.congr fun z => ?_, hyields.round fun fuel => ?_⟩
      · unfold After
        rw [beyond_snoc, or_iff_right (hnone hcpath hno z)]
        unfold Below above
        simp only [decide_eq_true_eq]
        constructor
        · rintro (⟨hd, w, q, rfl, hlt⟩ | ⟨hd, hz⟩)
          · exact ⟨hd, .inl ⟨w, q, rfl, hlt⟩⟩
          · exact ⟨hd, .inr hz⟩
        · rintro ⟨hd, ⟨w, q, rfl, hlt⟩ | hz⟩
          · exact .inl ⟨hd, w, q, rfl, hlt⟩
          · exact .inr ⟨hd, hz⟩
      · rw [nextLoop, hscan, value_of_child hc]
    · exact hfound hcpath hscan hchild hab hleast

end Priot.OidStash
