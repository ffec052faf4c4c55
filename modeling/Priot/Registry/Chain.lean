/-
# Chains in memory

What the memory holds is stated against a list of slices with the addresses and registrations of their nodes. The
loops that relink a chain are each said once, as what they do to the list on their side.
-/
import Priot.Lib.Outcome
import Priot.Lib.Slices
import Priot.Registry.Register

namespace Priot.Registry

open Lib List

variable {H : Type}

/-- A slice as it is in memory. -/
abbrev Chain (H : Type) := Slice ObjId (Ptr × Registration H)

abbrev Items (H : Type) := List (Ptr × Registration H)

def addrs (T : List (Chain H)) : List Ptr := T.flatMap fun sl => sl.items.map Prod.fst

/-- The children from `a` on, all with `P`. -/
def Nodes (c : Ptr → Option (Subtree H)) (P : Subtree H → Prop) : Option Ptr → Items H → Prop
  | a, [] => a = none
  | a, (p, r) :: l =>
    a = some p ∧ ∃ nd, c p = some nd ∧ nd.reg = r ∧ nd.reginfo = some p ∧ P nd ∧ Nodes c P nd.children l

variable {c c' : Ptr → Option (Subtree H)} {P Q : Subtree H → Prop} {a : Option Ptr} {l l' : Items H} {p q : Ptr}
  {r : Registration H} {m m' : Memory H} {nd : Subtree H} {T A B : List (Chain H)} {sl : Chain H}

/-! ## chains -/

theorem Nodes.change (hl : Nodes c P a l) (h : ∀ p ∈ l.map Prod.fst, ∀ nd, c p = some nd → P nd →
      ∃ nd', c' p = some nd' ∧ nd'.reg = nd.reg ∧ nd'.reginfo = nd.reginfo ∧ nd'.children = nd.children ∧ Q nd') :
    Nodes c' Q a l := by
  induction l generalizing a with
  | nil => exact hl
  | cons x l ih =>
    obtain ⟨p, r⟩ := x
    obtain ⟨ha, nd, hp, hr, hg, hP, hl⟩ := hl
    obtain ⟨nd', hp', hr', hg', hc', hQ⟩ := h p mem_cons_self nd hp hP
    refine ⟨ha, nd', hp', hr'.trans hr, hg'.trans hg, hQ, ?_⟩
    rw [hc']
    exact ih hl fun q hq => h q (mem_cons_of_mem _ hq)

theorem Nodes.frame (hl : Nodes c P a l) (h : ∀ p ∈ l.map Prod.fst, c' p = c p) : Nodes c' P a l :=
  hl.change fun p hp nd hnd hP => ⟨nd, (h p hp).trans hnd, rfl, rfl, rfl, hP⟩

theorem Nodes.mono (hl : Nodes c P a l) (h : ∀ nd, P nd → Q nd) : Nodes c Q a l :=
  hl.change fun _ _ nd hnd hP => ⟨nd, hnd, rfl, rfl, rfl, h nd hP⟩

theorem Nodes.start (hl : Nodes c P a l) : a = l.head?.map Prod.fst := by
  cases l with
  | nil => exact hl
  | cons x l => exact hl.1

theorem Nodes.mem (hl : Nodes c P a l) (hp : p ∈ l.map Prod.fst) :
    ∃ nd, c p = some nd ∧ nd.reginfo = some p ∧ P nd := by
  induction l generalizing a with
  | nil => cases hp
  | cons x l ih =>
    obtain ⟨q, r⟩ := x
    obtain ⟨-, nd, hq, -, hg, hP, hl⟩ := hl
    rcases mem_cons.mp hp with rfl | hp
    · exact ⟨nd, hq, hg, hP⟩
    · exact ih hl hp

/-! ## the loops over a chain -/

/-- `x`, as the offset to a node that starts at `y`, and `next`. -/
def setNext (t : Option Ptr) (nd : Subtree H) : Subtree H := { nd with next := t }

def setOff (x : ObjId) (nd : Subtree H) : Subtree H := { nd with oidOff := common x nd.start + 1 }

/-- The predecessor: its head and where it starts. -/
abbrev Pred := Option (Ptr × ObjId)

def setPrev (v : Pred) (nd : Subtree H) : Subtree H :=
  { nd with
    prev := v.map Prod.fst
    oidOff := (v.map fun x => common x.2 nd.start + 1).getD nd.oidOff }

namespace Memory

theorem get_eq (h : m.cells p = some nd) : m.get p = .ok nd := by
  unfold get
  rw [h]

theorem set_eq (h : m.cells p = some nd) (f : Subtree H → Subtree H) :
    m.set p f = .ok { m with cells := Function.update m.cells p (some (f nd)) } := by
  unfold set
  rw [h]

theorem set_spec (h : m.cells p = some nd) (f : Subtree H → Subtree H) :
    ∃ m', m.set p f = .ok m' ∧ m'.brk = m.brk ∧ ∀ q, m'.cells q = if q = p then some (f nd) else m.cells q :=
  ⟨_, set_eq h f, rfl, fun _ => Function.update_apply _ _ _ _⟩

theorem alloc_spec (m : Memory H) (nd : Subtree H) : ∃ m', m.alloc nd = (m', m.brk) ∧ m'.brk = m.brk + 1 ∧
      ∀ q, m'.cells q = if q = m.brk then some nd else m.cells q :=
  ⟨_, rfl, rfl, fun _ => Function.update_apply _ _ _ _⟩

theorem free_eq (h : m.cells p = some nd) : m.free p = .ok { m with cells := Function.update m.cells p none } := by
  unfold free
  rw [h]

theorem subtreeChangeNext_spec {t : Option Ptr} (hp : m.cells p = some nd)
    (ht : ∀ q ∈ t, q ≠ p ∧ ∃ nd', m.cells q = some nd') :
    ∃ m', m.subtreeChangeNext p t = .ok m' ∧ m'.brk = m.brk ∧ ∀ q, m'.cells q =
      if q = p then (m.cells q).map (setNext t)
      else if t = some q then (m.cells q).map (setOff nd.start) else m.cells q := by
  unfold subtreeChangeNext
  rw [set_eq hp]
  cases t with
  | none =>
    refine ⟨_, rfl, rfl, fun q => ?_⟩
    show Function.update m.cells p _ q = _
    by_cases hq : q = p
    · subst hq
      rw [Function.update_self, if_pos rfl, hp]
      rfl
    · rw [Function.update_of_ne hq, if_neg hq, if_neg (by simp)]
  | some t =>
    obtain ⟨htp, nd', hnd'⟩ := ht t rfl
    simp only [ok_bind]
    rw [get_eq (Function.update_self ..), ok_bind, set_eq ((Function.update_of_ne htp _ _).trans hnd')]
    refine ⟨_, rfl, rfl, fun q => ?_⟩
    show Function.update (Function.update m.cells p _) t _ q = _
    by_cases hq : q = t
    · subst hq
      rw [Function.update_self, if_neg htp, if_pos rfl, hnd', oidCompareLl_eq]
      rfl
    · rw [Function.update_of_ne hq]
      by_cases hqp : q = p
      · subst hqp
        rw [Function.update_self, if_pos rfl, hp]
        rfl
      · rw [Function.update_of_ne hqp, if_neg hqp, if_neg (by simpa using Ne.symm hq)]

theorem subtreeChangePrev_spec {v : Pred} (hp : m.cells p = some nd)
    (hpv : ∀ x ∈ v, x.1 ≠ p ∧ ∃ nd', m.cells x.1 = some nd' ∧ nd'.start = x.2) :
    ∃ m', m.subtreeChangePrev p (v.map Prod.fst) = .ok m' ∧ m'.brk = m.brk ∧ ∀ q, m'.cells q =
      if q = p then (m.cells q).map (setPrev v) else m.cells q := by
  unfold subtreeChangePrev
  rw [set_eq hp]
  cases v with
  | none =>
    refine ⟨_, rfl, rfl, fun q => ?_⟩
    show Function.update m.cells p _ q = _
    by_cases hq : q = p
    · subst hq
      rw [Function.update_self, if_pos rfl, hp]
      rfl
    · rw [Function.update_of_ne hq, if_neg hq]
  | some x =>
    obtain ⟨hxp, nd', hnd', hx⟩ := hpv x rfl
    simp only [ok_bind, Option.map_some]
    rw [get_eq ((Function.update_of_ne hxp _ _).trans hnd'), ok_bind, set_eq (Function.update_self ..)]
    refine ⟨_, rfl, rfl, fun q => ?_⟩
    show Function.update (Function.update m.cells p _) p _ q = _
    by_cases hq : q = p
    · subst hq
      rw [Function.update_self, if_pos rfl, hp, oidCompareLl_eq, hx]
      rfl
    · rw [Function.update_of_ne hq, Function.update_of_ne hq, if_neg hq]

theorem changeNext_childLoop {t : Option Ptr} {x : ObjId} {n : Nat} (hl : Nodes m.cells P a l)
    (hnodup : (l.map Prod.fst).Nodup) (hx : ∀ nd, P nd → nd.start = x)
    (ht : ∀ q ∈ t, q ∉ l.map Prod.fst ∧ ∃ nd', m.cells q = some nd') (hn : l.length ≤ n) :
    ∃ m', childLoop (fun m ptr => m.subtreeChangeNext ptr t) n m a = .ok m' ∧ m'.brk = m.brk ∧ ∀ q, m'.cells q =
      if q ∈ l.map Prod.fst then (m.cells q).map (setNext t)
      else if t = some q ∧ l ≠ [] then (m.cells q).map (setOff x) else m.cells q := by
  induction l generalizing m a n with
  | nil =>
    obtain rfl : a = none := hl
    refine ⟨m, by unfold childLoop; rfl, rfl, fun q => ?_⟩
    simp
  | cons y l ih =>
    obtain ⟨p, r⟩ := y
    obtain ⟨rfl, nd, hp, hr, hg, hP, hl⟩ := hl
    obtain ⟨hpl, hnodup⟩ := nodup_cons.mp hnodup
    obtain ⟨n, rfl, hn'⟩ := Lib.exists_round hn
    have htp : ∀ q ∈ t, q ≠ p := fun q hq h => (ht q hq).1 (by simp [h])
    obtain ⟨m₁, hm₁, hb₁, hc₁⟩ := subtreeChangeNext_spec hp fun q hq => ⟨htp q hq, (ht q hq).2⟩
    have hne : ∀ q ∈ l.map Prod.fst, q ≠ p := fun q hq h => hpl (h ▸ hq)
    have hnt : ∀ q ∈ l.map Prod.fst, t ≠ some q := fun q hq h => (ht q h).1 (mem_cons_of_mem _ hq)
    have hl₁ : Nodes m₁.cells P nd.children l :=
      hl.frame fun q hq => by rw [hc₁, if_neg (hne q hq), if_neg (hnt q hq)]
    have ht₁ : ∀ q ∈ t, q ∉ l.map Prod.fst ∧ ∃ nd', m₁.cells q = some nd' := by
      intro q hq
      obtain ⟨hql, nd', hnd'⟩ := ht q hq
      refine ⟨fun h => hql (mem_cons_of_mem _ h), setOff nd.start nd', ?_⟩
      rw [hc₁, if_neg (htp q hq), if_pos (Option.mem_def.mp hq), hnd']
      rfl
    obtain ⟨m', hm', hb', hc'⟩ := ih hl₁ hnodup ht₁ hn'
    refine ⟨m', ?_, hb'.trans hb₁, fun q => ?_⟩
    · unfold childLoop
      have hp₁ : m₁.cells p = some (setNext t nd) := by
        rw [hc₁, if_pos rfl, hp]
        rfl
      rw [hm₁, ok_bind, get_eq hp₁]
      exact hm'
    · rw [hc', hc₁, map_cons]
      by_cases hq : q = p
      · subst hq
        rw [if_neg hpl, if_pos rfl, if_pos mem_cons_self, if_neg fun h => htp q h.1 rfl]
      · rw [if_neg hq]
        by_cases hql : q ∈ l.map Prod.fst
        · rw [if_pos hql, if_neg (hnt q hql), if_pos (mem_cons_of_mem _ hql)]
        · rw [if_neg hql, if_neg (c := q ∈ p :: _) (by simp [hq] at hql ⊢; exact hql)]
          by_cases hqt : t = some q
          · rw [if_pos hqt, hx nd hP]
            split
            · rw [if_pos ⟨hqt, cons_ne_nil _ _⟩, Option.map_map]
              rfl
            · rw [if_pos ⟨hqt, cons_ne_nil _ _⟩]
          · rw [if_neg hqt, if_neg fun h => hqt h.1, if_neg fun h => hqt h.1]

theorem changePrev_childLoop {v : Pred} {n : Nat} (hl : Nodes m.cells P a l) (hnodup : (l.map Prod.fst).Nodup)
    (hpv : ∀ x ∈ v, x.1 ∉ l.map Prod.fst ∧ ∃ nd', m.cells x.1 = some nd' ∧ nd'.start = x.2) (hn : l.length ≤ n) :
    ∃ m', childLoop (fun m ptr => m.subtreeChangePrev ptr (v.map Prod.fst)) n m a = .ok m' ∧ m'.brk = m.brk ∧
      ∀ q, m'.cells q = if q ∈ l.map Prod.fst then (m.cells q).map (setPrev v) else m.cells q := by
  induction l generalizing m a n with
  | nil =>
    obtain rfl : a = none := hl
    refine ⟨m, by unfold childLoop; rfl, rfl, fun q => ?_⟩
    simp
  | cons y l ih =>
    obtain ⟨p, r⟩ := y
    obtain ⟨rfl, nd, hp, hr, hg, hP, hl⟩ := hl
    obtain ⟨hpl, hnodup⟩ := nodup_cons.mp hnodup
    obtain ⟨n, rfl, hn'⟩ := Lib.exists_round hn
    have hxp : ∀ x ∈ v, x.1 ≠ p := fun x hx h => (hpv x hx).1 (by simp [h])
    obtain ⟨m₁, hm₁, hb₁, hc₁⟩ := subtreeChangePrev_spec hp fun x hx => ⟨hxp x hx, (hpv x hx).2⟩
    have hl₁ : Nodes m₁.cells P nd.children l :=
      hl.frame fun q hq => by rw [hc₁, if_neg fun h : q = p => hpl (h ▸ hq)]
    have hpv₁ : ∀ x ∈ v, x.1 ∉ l.map Prod.fst ∧ ∃ nd', m₁.cells x.1 = some nd' ∧ nd'.start = x.2 := by
      intro x hx
      rw [hc₁, if_neg (hxp x hx)]
      exact ⟨fun h => (hpv x hx).1 (mem_cons_of_mem _ h), (hpv x hx).2⟩
    obtain ⟨m', hm', hb', hc'⟩ := ih hl₁ hnodup hpv₁ hn'
    refine ⟨m', ?_, hb'.trans hb₁, fun q => ?_⟩
    · unfold childLoop
      have hp₁ : m₁.cells p = some (setPrev v nd) := by
        rw [hc₁, if_pos rfl, hp]
        rfl
      rw [hm₁, ok_bind, get_eq hp₁]
      exact hm'
    · rw [hc', hc₁, map_cons]
      by_cases hq : q = p
      · subst hq
        rw [if_neg hpl, if_pos rfl, if_pos mem_cons_self]
      · have hmem : q ∈ p :: l.map Prod.fst ↔ q ∈ l.map Prod.fst := by
          rw [mem_cons, or_iff_right hq]
        rw [if_neg hq]
        simp only [hmem]

end Memory

/-! ## lists of chains -/

/-- Where a list of slices starts, and where what follows it starts. -/
def leads (T : List (Chain H)) (next : Option Ptr) : Option Ptr :=
  match T with
  | [] => next
  | sl :: _ => some sl.top.1

/-- A node of the slice, with `next` behind. -/
structure Sits (sl : Chain H) (next : Option Ptr) (nd : Subtree H) : Prop where
  start : nd.start = sl.start
  stop : nd.stop = sl.stop
  next : nd.next = next

/-- What is known of the links of a node to what lies before it: nothing, or its predecessor. -/
structure Knows (k : Option Pred) (nd : Subtree H) : Prop where
  prev : ∀ v ∈ k, nd.prev = v.map Prod.fst
  off : ∀ v ∈ k, ∀ x ∈ v, nd.oidOff = common x.2 nd.start + 1

/-- The head of a slice as a predecessor. -/
def pred (sl : Chain H) : Option Pred := some (some (sl.top.1, sl.start))

/-- The memory holds the slices, one after the other, the first one behind what `k` says. -/
def Listed (c : Ptr → Option (Subtree H)) : Option Pred → List (Chain H) → Option Ptr → Prop
  | _, [], _ => True
  | k, sl :: T, next =>
    Nodes c (fun nd => Sits sl (leads T next) nd ∧ Knows k nd) (some sl.top.1) sl.items ∧ Listed c (pred sl) T next

/-- What is known behind a list of slices. -/
def behind (k : Option Pred) : List (Chain H) → Option Pred
  | [] => k
  | sl :: T => behind (pred sl) T

variable {k : Option Pred} {next t : Option Ptr}

@[simp] theorem addrs_nil : addrs ([] : List (Chain H)) = [] := rfl

@[simp] theorem addrs_cons : addrs (sl :: T) = sl.items.map Prod.fst ++ addrs T := flatMap_cons

@[simp] theorem addrs_append : addrs (A ++ T) = addrs A ++ addrs T := flatMap_append

theorem behind_concat : behind k (A ++ [sl]) = pred sl := by
  induction A generalizing k with
  | nil => rfl
  | cons sl' A ih => exact ih

theorem leads_append : leads (A ++ B) next = leads A (leads B next) := by
  cases A <;> rfl

theorem listed_append : Listed c k (A ++ B) next ↔ Listed c k A (leads B next) ∧ Listed c (behind k A) B next := by
  induction A generalizing k with
  | nil => exact ⟨fun h => ⟨trivial, h⟩, And.right⟩
  | cons sl A ih =>
    show Nodes c (fun nd => Sits sl (leads (A ++ B) next) nd ∧ _) _ _ ∧ Listed c _ (A ++ B) next ↔ (_ ∧ _) ∧ _
    rw [ih, leads_append, and_assoc]
    rfl

theorem Listed.frame (hT : Listed c k T next) (h : ∀ p ∈ addrs T, c' p = c p) : Listed c' k T next := by
  induction T generalizing k with
  | nil => trivial
  | cons sl T ih =>
    rw [addrs_cons] at h
    exact ⟨hT.1.frame fun p hp => h p (mem_append_left _ hp),
      ih hT.2 fun p hp => h p (mem_append_right _ hp)⟩

theorem Listed.forget (hT : Listed c k T next) : Listed c none T next := by
  cases T with
  | nil => trivial
  | cons sl T => exact ⟨hT.1.mono fun nd hnd => ⟨hnd.1, nofun, nofun⟩, hT.2⟩

theorem Knows.congr {nd' : Subtree H} (h : Knows k nd) (hprev : nd'.prev = nd.prev) (hstart : nd'.start = nd.start)
    (hoff : nd'.oidOff = nd.oidOff) : Knows k nd' := by
  refine ⟨fun v hpv => hprev.trans (h.prev v hpv), fun v hpv x hx => ?_⟩
  rw [hoff, hstart]
  exact h.off v hpv x hx

theorem items_length_le {l : Items H} {b : Ptr} (hnodup : (l.map Prod.fst).Nodup) (hb : ∀ p ∈ l.map Prod.fst, p < b) :
    l.length ≤ b := by
  have := Lib.length_le_of_below hnodup hb
  rwa [length_map] at this

def lastHead (A : List (Chain H)) : Option Ptr := A.getLast?.map fun sl => sl.top.1

/-- The offset behind the last slice. -/
def offBehind (A : List (Chain H)) (nd : Subtree H) : Subtree H :=
  match A.getLast? with
  | none => nd
  | some sl => setOff sl.start nd

theorem childLoop_none (f : Memory H → Ptr → Except Fault (Memory H)) (n : Nat) (m : Memory H) :
    Memory.childLoop f n m none = .ok m := by
  unfold Memory.childLoop
  rfl

theorem Listed.changeNext (hA : Listed m.cells k A next) (hnodup : (addrs A).Nodup) (hb : ∀ p ∈ addrs A, p < m.brk)
    (ht : ∀ q ∈ t, q ∉ addrs A ∧ ∃ nd, m.cells q = some nd) :
    ∃ m', m.changeNextLoop (lastHead A) t = .ok m' ∧ m'.brk = m.brk ∧ Listed m'.cells k A t ∧
      ∀ q, q ∉ addrs A → m'.cells q = if t = some q then (m.cells q).map (offBehind A) else m.cells q := by
  rcases eq_nil_or_concat A with rfl | ⟨A, sl, rfl⟩
  · refine ⟨m, childLoop_none _ _ _, rfl, trivial, fun q _ => ?_⟩
    have : offBehind ([] : List (Chain H)) = id := rfl
    rw [this, Option.map_id_fun, id, ite_self]
  · rw [concat_eq_append] at *
    rw [addrs_append, nodup_append] at hnodup
    obtain ⟨hnA, hnsl, hdisj⟩ := hnodup
    obtain ⟨hA, hsl, -⟩ := listed_append.mp hA
    simp only [addrs_append, addrs_cons, addrs_nil, append_nil] at hnsl hb ht hdisj ⊢
    obtain ⟨m', hm', hbrk, hc⟩ := Memory.changeNext_childLoop (x := sl.start) hsl hnsl (fun nd h => h.1.start)
      (fun q hq => ⟨fun h => (ht q hq).1 (mem_append_right _ h), (ht q hq).2⟩)
      (items_length_le hnsl fun p hp => hb p (mem_append_right _ hp))
    refine ⟨m', ?_, hbrk, listed_append.mpr ⟨hA.frame fun q hq => ?_, ?_, trivial⟩, fun q hq => ?_⟩
    · rw [← hm']
      simp [lastHead, Memory.changeNextLoop]
    · rw [hc, if_neg fun h => hdisj q hq q h rfl, if_neg fun h => (ht q h.1).1 (mem_append_left _ hq)]
    · refine hsl.change fun q hq nd hnd h => ⟨setNext t nd, ?_, rfl, rfl, rfl, ⟨h.1.start, h.1.stop, rfl⟩, h.2.congr rfl rfl rfl⟩
      rw [hc, if_pos hq, hnd]
      rfl
    · have hoff : (offBehind (A ++ [sl]) : Subtree H → Subtree H) = setOff sl.start := by
        funext nd
        simp [offBehind]
      rw [hc, if_neg fun h => hq (mem_append_right _ h), hoff]
      simp [Slice.items]

theorem Listed.changePrev {v : Pred} (hT : Listed m.cells k T none) (hnodup : (addrs T).Nodup)
    (hb : ∀ p ∈ addrs T, p < m.brk) (hpv : ∀ x ∈ v, x.1 ∉ addrs T ∧ ∃ nd, m.cells x.1 = some nd ∧ nd.start = x.2) :
    ∃ m', m.changePrevLoop (leads T none) (v.map Prod.fst) = .ok m' ∧ m'.brk = m.brk ∧
      Listed m'.cells (some v) T none ∧ ∀ q, q ∉ addrs T → m'.cells q = m.cells q := by
  cases T with
  | nil => exact ⟨m, childLoop_none _ _ _, rfl, trivial, fun _ _ => rfl⟩
  | cons sl T =>
    obtain ⟨hsl, hT⟩ := hT
    simp only [addrs_cons] at hnodup hb hpv ⊢
    obtain ⟨hnsl, -, hdisj⟩ := nodup_append.mp hnodup
    obtain ⟨m', hm', hbrk, hc⟩ := Memory.changePrev_childLoop hsl hnsl
      (fun x hx => ⟨fun h => (hpv x hx).1 (mem_append_left _ h), (hpv x hx).2⟩)
      (items_length_le hnsl fun p hp => hb p (mem_append_left _ hp))
    refine ⟨m', hm', hbrk, ⟨?_, hT.frame fun q hq => ?_⟩, fun q hq => ?_⟩
    · refine hsl.change fun q hq nd hnd h => ⟨setPrev v nd, ?_, rfl, rfl, rfl, ⟨h.1.start, h.1.stop, h.1.next⟩, ?_, ?_⟩
      · rw [hc, if_pos hq, hnd]
        rfl
      · rintro _ ⟨⟩
        rfl
      · rintro _ ⟨⟩ x hx
        obtain rfl : v = some x := hx
        rfl
    · rw [hc, if_neg fun h => hdisj q h q hq rfl]
    · rw [hc, if_neg fun h => hq (mem_append_left _ h)]

/-- The memory holds a list of slices, in nodes of their own. -/
structure Holds (m : Memory H) (k : Option Pred) (T : List (Chain H)) : Prop where
  listed : Listed m.cells k T none
  nodup : (addrs T).Nodup
  below : ∀ p ∈ addrs T, p < m.brk

end Priot.Registry
