/-
# The list of users as a map

On a list that is in order the loops find where a user goes. Seen from outside the list is a map from engine IDs and
names to users.
-/
import Priot.Usm.UserOrder

namespace Priot.Usm

open Lib List

variable {nodes : Nodes User} {back : Option Ptr} {l pre mid post : List (Ptr × User)} {rounds : Nat} {user p : Ptr}
  {u : User}

/-! ## the loops -/

theorem addLoop_eq (hl : Doubly nodes back l none) (hr : l.length < rounds) :
    addLoop nodes u rounds (front l none) back = some (front (l.dropWhile fun x => x.2.place u = .behind) none,
        rear back (l.takeWhile fun x => x.2.place u = .behind),
        (l.dropWhile fun x => x.2.place u = .behind).head?.any fun x => x.2.place u = .same) := by
  induction l generalizing back rounds with
  | nil =>
    obtain ⟨k, rfl⟩ := Nat.exists_eq_succ_of_ne_zero (Nat.ne_of_gt hr)
    rfl
  | cons x l ih =>
    obtain ⟨k, rfl⟩ := Nat.exists_eq_succ_of_ne_zero (Nat.ne_of_gt (Nat.lt_of_le_of_lt (Nat.zero_le _) hr))
    rw [front, addLoop, hl.1, Option.bind_some]
    cases hplace : x.2.place u with
    | behind =>
      rw [dropWhile_cons_of_pos (by simpa using hplace), takeWhile_cons_of_pos (by simpa using hplace)]
      exact ih hl.2 (Nat.lt_of_succ_lt_succ hr)
    | here =>
      rw [dropWhile_cons_of_neg (by simp [hplace]), takeWhile_cons_of_neg (by simp [hplace])]
      simp only [hplace, head?_cons, Option.any_some]
      rfl
    | same =>
      rw [dropWhile_cons_of_neg (by simp [hplace]), takeWhile_cons_of_neg (by simp [hplace])]
      simp only [hplace, head?_cons, Option.any_some]
      rfl

theorem removeLoop_mem (hl : Doubly nodes back (pre ++ (p, u) :: post) none) (hp : p ∉ pre.map Prod.fst)
    (hr : pre.length < rounds) :
    removeLoop nodes (some p) rounds (front (pre ++ (p, u) :: post) none) back = some (some (p, rear back pre)) := by
  induction pre generalizing back rounds with
  | nil =>
    obtain ⟨k, rfl⟩ := Nat.exists_eq_succ_of_ne_zero (Nat.ne_of_gt hr)
    rw [nil_append, front, removeLoop, if_pos rfl]
    rfl
  | cons x pre ih =>
    obtain ⟨k, rfl⟩ := Nat.exists_eq_succ_of_ne_zero (Nat.ne_of_gt (Nat.lt_of_le_of_lt (Nat.zero_le _) hr))
    rw [map_cons, mem_cons, not_or] at hp
    have hne : some x.1 ≠ some p := fun heq => hp.1 (Option.some.inj heq).symm
    rw [cons_append, front, removeLoop, if_neg hne, hl.1, Option.bind_some]
    exact ih hl.2 hp.2 (Nat.lt_of_succ_lt_succ hr)

theorem removeLoop_not_mem {user : Option Ptr} (hl : Doubly nodes back l none) (huser : ∀ x ∈ l, some x.1 ≠ user)
    (hr : l.length < rounds) : removeLoop nodes user rounds (front l none) back = some none := by
  induction l generalizing back rounds with
  | nil =>
    obtain ⟨k, rfl⟩ := Nat.exists_eq_succ_of_ne_zero (Nat.ne_of_gt hr)
    rfl
  | cons x l ih =>
    obtain ⟨k, rfl⟩ := Nat.exists_eq_succ_of_ne_zero (Nat.ne_of_gt (Nat.lt_of_le_of_lt (Nat.zero_le _) hr))
    rw [front, removeLoop, if_neg (huser x mem_cons_self), hl.1, Option.bind_some]
    exact ih hl.2 (fun y hy => huser y (mem_cons_of_mem x hy)) (Nat.lt_of_succ_lt_succ hr)

theorem getLoop_eq {engineID : Option (List UInt8)} {name : CString} (hl : Doubly nodes back l none)
    (hr : l.length < rounds) : getLoop nodes engineID name rounds (front l none) =
      some ((l.find? fun x => x.2.matches engineID name).map Prod.fst) := by
  induction l generalizing back rounds with
  | nil =>
    obtain ⟨k, rfl⟩ := Nat.exists_eq_succ_of_ne_zero (Nat.ne_of_gt hr)
    rfl
  | cons x l ih =>
    obtain ⟨k, rfl⟩ := Nat.exists_eq_succ_of_ne_zero (Nat.ne_of_gt (Nat.lt_of_le_of_lt (Nat.zero_le _) hr))
    rw [front, getLoop, hl.1, Option.bind_some]
    rw [find?_cons]
    cases hmatches : x.2.matches engineID name with
    | true => rfl
    | false => exact ih hl.2 (Nat.lt_of_succ_lt_succ hr)

/-! ## lists in order -/

/-- The users of the list are in order, and no two are known by the same. -/
def InOrder (l : List (Ptr × User)) : Prop := l.Pairwise fun x y => x.2.order < y.2.order

/-- The place of a user: behind `pre`, in the place of `mid`, in front of `post`. -/
structure Splits (u : User) (l pre mid post : List (Ptr × User)) : Prop where
  eq : l = pre ++ (mid ++ post)
  before : ∀ x ∈ pre, x.2.order < u.order
  same : mid = [] ∨ ∃ o, mid = [o] ∧ o.2.order = u.order
  behind : ∀ x ∈ post, u.order < x.2.order

theorem exists_splits (hs : InOrder l) (u : User) : ∃ pre mid post, Splits u l pre mid post ∧
    (l.takeWhile fun x => x.2.place u = .behind) = pre ∧ (l.dropWhile fun x => x.2.place u = .behind) = mid ++ post := by
  induction l with
  | nil =>
    refine ⟨[], [], [], ⟨rfl, ?_, .inl rfl, ?_⟩, rfl, rfl⟩
    · exact fun x hx => absurd hx not_mem_nil
    · exact fun x hx => absurd hx not_mem_nil
  | cons x l ih =>
    obtain ⟨hx, hl⟩ := pairwise_cons.mp hs
    by_cases hbefore : x.2.order < u.order
    · obtain ⟨pre, mid, post, h, htake, hdrop⟩ := ih hl
      have hplace : decide (x.2.place u = .behind) = true := decide_eq_true (place_eq_behind_iff.mpr hbefore)
      refine ⟨x :: pre, mid, post, ⟨by rw [h.eq]; rfl, fun y hy => ?_, h.same, h.behind⟩, ?_, ?_⟩
      · rcases mem_cons.mp hy with rfl | hy
        · exact hbefore
        · exact h.before y hy
      · rw [takeWhile_cons, hplace, if_pos rfl, htake]
      · rw [dropWhile_cons, hplace, if_pos rfl, hdrop]
    · have hplace : decide (x.2.place u = .behind) = false :=
        decide_eq_false fun h => hbefore (place_eq_behind_iff.mp h)
      have htake : ((x :: l).takeWhile fun x => x.2.place u = .behind) = [] := by
        rw [takeWhile_cons, hplace, if_neg Bool.false_ne_true]
      have hdrop : ((x :: l).dropWhile fun x => x.2.place u = .behind) = x :: l := by
        rw [dropWhile_cons, hplace, if_neg Bool.false_ne_true]
      have hnone : ∀ y ∈ ([] : List (Ptr × User)), y.2.order < u.order := fun y hy => absurd hy not_mem_nil
      rcases lt_or_eq_of_le (not_lt.mp hbefore) with hbehind | heq
      · refine ⟨[], [], x :: l, ⟨rfl, hnone, .inl rfl, fun y hy => ?_⟩, htake, hdrop⟩
        rcases mem_cons.mp hy with rfl | hy
        · exact hbehind
        · exact hbehind.trans (hx y hy)
      · refine ⟨[], [x], l, ⟨rfl, hnone, .inr ⟨x, rfl, heq.symm⟩, fun y hy => ?_⟩, htake, hdrop⟩
        rw [heq]
        exact hx y hy

theorem Splits.inOrder (h : Splits u l pre mid post) (hs : InOrder l) (p : Ptr) : InOrder (pre ++ (p, u) :: post) := by
  unfold InOrder at hs ⊢
  rw [h.eq, pairwise_append, pairwise_append] at hs
  rw [pairwise_append, pairwise_cons]
  refine ⟨hs.1, ⟨h.behind, hs.2.1.2.1⟩, fun x hx y hy => ?_⟩
  rcases mem_cons.mp hy with rfl | hy
  · exact h.before x hx
  · exact (h.before x hx).trans (h.behind y hy)

/-! ## the functions on a list in order -/

/-- A list in memory. -/
structure Listed (nodes : Nodes User) (head : Option Ptr) (l : List (Ptr × User)) : Prop where
  doubly : Doubly nodes none l none
  nodup : (l.map Prod.fst).Nodup
  head_eq : head = front l none

theorem nodup_middle : ((pre ++ (p, u) :: post).map Prod.fst).Nodup ↔
    p ∉ (pre ++ post).map Prod.fst ∧ ((pre ++ post).map Prod.fst).Nodup := by
  have hperm : ((pre ++ (p, u) :: post).map Prod.fst).Perm (p :: (pre ++ post).map Prod.fst) :=
    perm_middle.map Prod.fst
  rw [hperm.nodup_iff, nodup_cons]

theorem linked (hl : Doubly nodes none (pre ++ post) none) (hnodup : ((pre ++ post).map Prod.fst).Nodup)
    (hp : p ∉ (pre ++ post).map Prod.fst) (hr : pre.length < rounds) : ∃ nodes' head,
      ((setPrev (Function.update nodes p (some ⟨rear none pre, front post none, u⟩)) (front post none) (some p)).bind
        fun nodes => (setNext nodes (rear none pre) (some p)).bind fun nodes =>
          (rewind nodes rounds p).map fun head => (nodes, some head)) = some (nodes', head) ∧
        Listed nodes' head (pre ++ (p, u) :: post) := by
  have hstored := hl.update hp (some ⟨rear none pre, front post none, u⟩)
  obtain ⟨hpre, hpost⟩ := doubly_append.mp hstored
  obtain ⟨nodes₁, nodes₂, hprev, hnext, hlinked, -⟩ := hpre.insert hpost hnodup hp (Function.update_self ..)
  have hrewind := hlinked.rewind_eq hr
  have hfront : front (pre ++ (p, u) :: post) none = some ((pre ++ (p, u) :: post).head (by simp)).1 := by
    cases pre <;> rfl
  refine ⟨nodes₂, front (pre ++ (p, u) :: post) none, ?_, hlinked, nodup_middle.mpr ⟨hp, hnodup⟩, rfl⟩
  rw [hprev, Option.bind_some, hnext, Option.bind_some, hrewind, hfront]
  rfl

theorem addUserToList_spec {head : Option Ptr} {prev next : Option Ptr} (hl : Listed nodes head l) (hs : InOrder l)
    (hp : p ∉ l.map Prod.fst) (hnode : nodes p = some ⟨prev, next, u⟩) (hr : l.length < rounds) :
    ∃ pre mid post nodes' head', Splits u l pre mid post ∧
      addUserToList nodes rounds p head = some (nodes', head') ∧ Listed nodes' head' (pre ++ (p, u) :: post) := by
  obtain ⟨pre, mid, post, hsplits, htake, hdrop⟩ := exists_splits hs u
  have hloop := addLoop_eq (u := u) hl.doubly hr
  rw [htake, hdrop, ← hl.head_eq] at hloop
  have hpre : pre.length < rounds := by
    rw [hsplits.eq, length_append] at hr
    omega
  unfold addUserToList
  rw [hnode, Option.bind_some, hloop, Option.bind_some]
  have hlist := hl.doubly
  have hnodup := hl.nodup
  rw [hsplits.eq] at hlist hnodup hp
  rcases hsplits.same with rfl | ⟨⟨o, e⟩, rfl, ho⟩
  · -- There is no user with this engine ID and name.
    have hnew : ((([] : List (Ptr × User)) ++ post).head?.any fun x => decide (x.2.place u = .same)) = false := by
      cases post with
      | nil => rfl
      | cons x post =>
        refine decide_eq_false fun hsame => ?_
        have hlt := hsplits.behind x mem_cons_self
        rw [place_eq_same_iff.mp hsame] at hlt
        exact lt_irrefl _ hlt
    obtain ⟨nodes', head', hrun, hlisted⟩ := linked (u := u) hlist hnodup hp hpre
    refine ⟨pre, [], post, nodes', head', hsplits, ?_, hlisted⟩
    simp only [hnew, Bool.false_eq_true, if_false, Option.bind_some]
    exact hrun
  · -- The node `o` is taken out and freed.
    have hold : (([(o, e)] ++ post).head?.any fun x => decide (x.2.place u = .same)) = true :=
      decide_eq_true (place_eq_same_iff.mpr ho)
    have hmiddle : Doubly nodes none (pre ++ (o, e) :: post) none := hlist
    obtain ⟨nodes₁, nodes₂, hnext, hprev, hunlinked, -⟩ := hmiddle.unlink hnodup
    have hrest : o ∉ (pre ++ post).map Prod.fst ∧ ((pre ++ post).map Prod.fst).Nodup := nodup_middle.mp hnodup
    have hfreed := hunlinked.update hrest.1 none
    have hp' : p ∉ (pre ++ post).map Prod.fst := by
      intro hmem
      refine hp ?_
      rw [map_append, mem_append] at hmem ⊢
      exact hmem.imp_right (mem_cons_of_mem _)
    obtain ⟨nodes', head', hrun, hlisted⟩ := linked (u := u) hfreed hrest.2 hp' hpre
    have hdropped : dropOld nodes (rear none pre) (some o) =
        some (Function.update nodes₂ o none, front post none) := by
      rw [dropOld, Option.bind_some, hmiddle.node, Option.bind_some]
      simp only [hnext, Option.bind_some, hprev, Option.map_some]
    refine ⟨pre, [(o, e)], post, nodes', head', hsplits, ?_, hlisted⟩
    simp only [hold, if_true]
    rw [show front ([(o, e)] ++ post) none = some o from rfl, hdropped, Option.bind_some]
    exact hrun

theorem removeUserFromList_mem {head : Option Ptr} (hl : Listed nodes head (pre ++ (p, u) :: post))
    (hr : (pre ++ (p, u) :: post).length < rounds) :
    ∃ nodes' head' result, removeUserFromList nodes rounds (some p) head = some (nodes', head', result) ∧
      Listed nodes' head' (pre ++ post) := by
  obtain ⟨nodes₁, nodes₂, hnext, hprev, hunlinked, -⟩ := hl.doubly.unlink hl.nodup
  obtain ⟨hp, hnodup⟩ := nodup_middle.mp hl.nodup
  have hfresh : p ∉ pre.map Prod.fst := by
    intro hmem
    refine hp ?_
    rw [map_append, mem_append]
    exact .inl hmem
  have hpre : pre.length < rounds := by
    rw [length_append] at hr
    omega
  have hloop := removeLoop_mem hl.doubly hfresh hpre
  rw [← hl.head_eq] at hloop
  have hbody : ∀ q, head = some q →
      removeUserFromList nodes rounds (some p) head =
        some (if p = q then (nodes₂, front post none, front post none) else (nodes₂, some q, some q)) := by
    rintro q rfl
    unfold removeUserFromList
    simp only [hloop, Option.bind_some, hl.doubly.node, hnext, hprev, Option.map_some]
  cases pre with
  | nil =>
    refine ⟨nodes₂, front post none, front post none, ?_, hunlinked, hnodup, rfl⟩
    rw [hbody p hl.head_eq, if_pos rfl]
  | cons x pre =>
    have hne : p ≠ x.1 := by
      rintro rfl
      exact hfresh mem_cons_self
    refine ⟨nodes₂, some x.1, some x.1, ?_, hunlinked, hnodup, rfl⟩
    rw [hbody x.1 hl.head_eq, if_neg hne]

theorem removeUserFromList_not_mem {user head : Option Ptr} (hl : Listed nodes head l)
    (huser : ∀ x ∈ l, some x.1 ≠ user) (hr : l.length < rounds) :
    removeUserFromList nodes rounds user head = some (nodes, head, none) := by
  have hloop := removeLoop_not_mem hl.doubly huser hr
  rw [← hl.head_eq] at hloop
  unfold removeUserFromList
  cases head with
  | none => rfl
  | some q =>
    simp only [hloop, Option.bind_some]

/-! ## all calls -/

/-- The memory, of which the first `size` addresses have been used, and `_usm_userList`. -/
structure Users where
  nodes : Nodes User
  size : Nat
  head : Option Ptr

/-- A call. A user that is added is an object of the caller with anything in its links. -/
inductive UserCall
  | add (user : Ptr) (prev next : Option Ptr) (data : User)
  | remove (user : Option Ptr)

/-- One call, with as many rounds for its loops as there is memory. -/
def Users.step (s : Users) : UserCall → Option Users
  | .add user prev next data =>
    let size := max s.size (user + 1)
    (addUserToList (Function.update s.nodes user (some ⟨prev, next, data⟩)) (size + 1) user s.head).map
      fun (nodes, head) => ⟨nodes, size, head⟩
  | .remove user => (removeUserFromList s.nodes (s.size + 1) user s.head).map fun (nodes, head, _) => ⟨nodes, s.size, head⟩

def Users.run (calls : List UserCall) : Option Users := calls.foldlM Users.step ⟨fun _ => none, 0, none⟩

/-- The user with an engine ID and a name, and the object it is. -/
abbrev UserMap : Type := UserKey → Option (Ptr × User)

def UserCall.onMap (m : UserMap) : UserCall → UserMap
  | .add user _ _ data => Function.update m data.key (some (user, data))
  | .remove user => fun k => (m k).filter fun x => some x.1 ≠ user

/-- The users last added and not removed since. -/
def UserCall.runMap (calls : List UserCall) : UserMap := calls.foldl UserCall.onMap fun _ => none

/-- An object that is added is not in the list. -/
def UserCall.Fresh (m : UserMap) : UserCall → Prop
  | .add user _ _ _ => ∀ k x, m k = some x → x.1 ≠ user
  | .remove _ => True

/-- The list is in order, its links fit together, and its users are those of the map. -/
structure Users.Holds (s : Users) (m : UserMap) (l : List (Ptr × User)) : Prop where
  listed : Listed s.nodes s.head l
  inOrder : InOrder l
  below : ∀ q ∈ l.map Prod.fst, q < s.size
  users : ∀ k x, m k = some x ↔ x ∈ l ∧ x.2.key = k

theorem Users.Holds.length_lt {s : Users} {m : UserMap} (h : s.Holds m l) : l.length < s.size + 1 := by
  have hle := Lib.length_le_of_below h.listed.nodup h.below
  rw [length_map] at hle
  exact Nat.lt_succ_of_le hle

theorem Users.Holds.add {s : Users} {m : UserMap} {prev next : Option Ptr} (h : s.Holds m l)
    (hfresh : (UserCall.add p prev next u).Fresh m) :
    ∃ s' l', s.step (.add p prev next u) = some s' ∧ s'.Holds (UserCall.onMap m (.add p prev next u)) l' := by
  have hp : p ∉ l.map Prod.fst := by
    intro hmem
    obtain ⟨x, hx, rfl⟩ := mem_map.mp hmem
    exact hfresh x.2.key x ((h.users _ x).mpr ⟨hx, rfl⟩) rfl
  have hlisted : Listed (Function.update s.nodes p (some ⟨prev, next, u⟩)) s.head l :=
    ⟨h.listed.doubly.update hp _, h.listed.nodup, h.listed.head_eq⟩
  have hr : l.length < max s.size (p + 1) + 1 :=
    Nat.lt_of_lt_of_le h.length_lt (Nat.add_le_add_right (Nat.le_max_left _ _) 1)
  obtain ⟨pre, mid, post, nodes', head', hsplits, hrun, hlisted'⟩ :=
    addUserToList_spec hlisted h.inOrder hp (Function.update_self ..) hr
  have hmem : ∀ x, x ∈ pre ++ (p, u) :: post ↔ x = (p, u) ∨ x ∈ l ∧ x.2.order ≠ u.order := by
    intro x
    rw [hsplits.eq, mem_append, mem_cons, mem_append, mem_append]
    constructor
    · rintro (hx | rfl | hx)
      · exact .inr ⟨.inl hx, (hsplits.before x hx).ne⟩
      · exact .inl rfl
      · exact .inr ⟨.inr (.inr hx), (hsplits.behind x hx).ne'⟩
    · rintro (rfl | ⟨hx | hx | hx, hne⟩)
      · exact .inr (.inl rfl)
      · exact .inl hx
      · rcases hsplits.same with rfl | ⟨o, rfl, ho⟩
        · exact absurd hx not_mem_nil
        · rw [mem_singleton.mp hx] at hne
          exact absurd ho hne
      · exact .inr (.inr hx)
  refine ⟨⟨nodes', max s.size (p + 1), head'⟩, pre ++ (p, u) :: post, ?_, hlisted', hsplits.inOrder h.inOrder p, ?_, ?_⟩
  · rw [Users.step]
    simp only [hrun, Option.map_some]
  · intro q hq
    obtain ⟨x, hx, rfl⟩ := mem_map.mp hq
    show x.1 < max s.size (p + 1)
    rcases (hmem x).mp hx with rfl | ⟨hx, -⟩
    · exact Nat.lt_of_lt_of_le (Nat.lt_succ_self _) (Nat.le_max_right _ _)
    · exact Nat.lt_of_lt_of_le (h.below _ (mem_map_of_mem hx)) (Nat.le_max_left _ _)
  · intro k x
    rw [UserCall.onMap, hmem]
    by_cases hk : k = u.key
    · subst hk
      rw [Function.update_self, Option.some.injEq]
      constructor
      · rintro rfl
        exact ⟨.inl rfl, rfl⟩
      · rintro ⟨rfl | ⟨-, hne⟩, hkey⟩
        · rfl
        · exact absurd (order_eq_iff.mpr hkey) hne
    · rw [Function.update_of_ne hk, h.users]
      constructor
      · rintro ⟨hx, rfl⟩
        exact ⟨.inr ⟨hx, fun heq => hk (order_eq_iff.mp heq)⟩, rfl⟩
      · rintro ⟨rfl | ⟨hx, -⟩, hkey⟩
        · exact absurd hkey.symm hk
        · exact ⟨hx, hkey⟩

theorem Users.Holds.remove {s : Users} {m : UserMap} {user : Option Ptr} (h : s.Holds m l) :
    ∃ s' l', s.step (.remove user) = some s' ∧ s'.Holds (UserCall.onMap m (.remove user)) l' := by
  by_cases hmem : ∃ x ∈ l, some x.1 = user
  · obtain ⟨⟨p, u⟩, hx, rfl⟩ := hmem
    obtain ⟨pre, post, rfl⟩ := append_of_mem hx
    obtain ⟨nodes', head', result, hrun, hlisted⟩ := removeUserFromList_mem h.listed h.length_lt
    have hsublist : (pre ++ post).Sublist (pre ++ (p, u) :: post) :=
      (List.Sublist.refl pre).append (sublist_cons_self _ _)
    have hgone := (nodup_middle.mp h.listed.nodup).1
    refine ⟨⟨nodes', s.size, head'⟩, pre ++ post, ?_, hlisted, h.inOrder.sublist hsublist, ?_, ?_⟩
    · rw [Users.step, hrun]
      rfl
    · exact fun q hq => h.below q ((hsublist.map Prod.fst).subset hq)
    · intro k x
      rw [UserCall.onMap, Option.filter_eq_some_iff, h.users, decide_eq_true_eq]
      constructor
      · rintro ⟨⟨hx, hkey⟩, hne⟩
        refine ⟨?_, hkey⟩
        rw [mem_append, mem_cons] at hx
        rw [mem_append]
        rcases hx with hx | rfl | hx
        · exact .inl hx
        · exact absurd rfl hne
        · exact .inr hx
      · rintro ⟨hleft, hkey⟩
        refine ⟨⟨hsublist.subset hleft, hkey⟩, fun heq => hgone ?_⟩
        obtain rfl : x.1 = p := Option.some.inj heq
        exact mem_map_of_mem hleft
  · have huser : ∀ x ∈ l, some x.1 ≠ user := fun x hx heq => hmem ⟨x, hx, heq⟩
    have hrun := removeUserFromList_not_mem h.listed huser h.length_lt
    refine ⟨s, l, ?_, h.listed, h.inOrder, h.below, ?_⟩
    · rw [Users.step, hrun]
      rfl
    · intro k x
      rw [UserCall.onMap, Option.filter_eq_some_iff, h.users, decide_eq_true_eq]
      exact ⟨And.left, fun hx => ⟨hx, huser x hx.1⟩⟩

theorem Users.Holds.getUserFromList {s : Users} {m : UserMap} (h : s.Holds m l) (noNameUser : Option Ptr)
    (engineID : Option (List UInt8)) (name : Option CString) :
    getUserFromList s.nodes (s.size + 1) noNameUser engineID name s.head false =
      some ((m (engineID, nameOf name)).map Prod.fst) := by
  unfold Usm.getUserFromList
  rw [h.listed.head_eq, getLoop_eq h.listed.doubly h.length_lt, Option.map_some]
  cases hfind : l.find? fun x => x.2.matches engineID (nameOf name) with
  | none =>
    have hnone : m (engineID, nameOf name) = none := by
      rw [Option.eq_none_iff_forall_ne_some]
      intro x hx
      obtain ⟨hmem, hkey⟩ := (h.users _ x).mp hx
      exact find?_eq_none.mp hfind x hmem (matches_iff.mpr hkey)
    rw [hnone]
    rfl
  | some x =>
    have hmatches : x.2.matches engineID (nameOf name) = true :=
      find?_some (p := fun x : Ptr × User => x.2.matches engineID (nameOf name)) hfind
    have hsome : m (engineID, nameOf name) = some x :=
      (h.users _ x).mpr ⟨mem_of_find?_eq_some hfind, matches_iff.mp hmatches⟩
    rw [hsome]
    rfl

/-- Every object that is added is not in the list at that time. -/
def AllFresh (m : UserMap) : List UserCall → Prop
  | [] => True
  | call :: calls => call.Fresh m ∧ AllFresh (call.onMap m) calls

theorem Users.Holds.calls {s : Users} {m : UserMap} {calls : List UserCall} (h : s.Holds m l) (hfresh : AllFresh m calls) :
    ∃ s' l', calls.foldlM Users.step s = some s' ∧ s'.Holds (calls.foldl UserCall.onMap m) l' := by
  induction calls generalizing s m l with
  | nil => exact ⟨s, l, rfl, h⟩
  | cons call calls ih =>
    have hstep : ∃ s' l', s.step call = some s' ∧ s'.Holds (call.onMap m) l' := by
      cases call with
      | add user prev next data => exact h.add hfresh.1
      | remove user => exact h.remove
    obtain ⟨s', l', hcall, hholds⟩ := hstep
    obtain ⟨s'', l'', hcalls, hrest⟩ := ih hholds hfresh.2
    refine ⟨s'', l'', ?_, hrest⟩
    rw [foldlM_cons, hcall]
    exact hcalls

/-- However users are added and removed, nothing goes wrong: the list is a map that is kept in order. -/
theorem run_holds (calls : List UserCall) (hfresh : AllFresh (fun _ => none) calls) :
    ∃ s l, Users.run calls = some s ∧ s.Holds (UserCall.runMap calls) l ∧ ∀ noNameUser engineID name,
      getUserFromList s.nodes (s.size + 1) noNameUser engineID name s.head false =
        some ((UserCall.runMap calls (engineID, nameOf name)).map Prod.fst) := by
  have hempty : (⟨fun _ => none, 0, none⟩ : Users).Holds (fun _ => none) [] := by
    refine ⟨⟨trivial, nodup_nil, rfl⟩, List.Pairwise.nil, ?_, fun k x => ⟨fun hx => ?_, fun hx => ?_⟩⟩
    · exact fun q hq => absurd hq not_mem_nil
    · cases hx
    · exact absurd hx.1 not_mem_nil
  obtain ⟨s, l, hrun, hholds⟩ := hempty.calls hfresh
  exact ⟨s, l, hrun, hholds, hholds.getUserFromList⟩

/-- The users without a name, of an engine that is not known and of one that is. -/
def nobody : User := ⟨none, nameOf none⟩

def somebody : User := ⟨some [128, 0, 0, 0, 1], nameOf none⟩

theorem run_holds_two : ∃ s l, Users.run [.add 3 none none somebody, .add 5 none (some 3) nobody, .remove none] = some s ∧
    s.Holds (UserCall.runMap [.add 3 none none somebody, .add 5 none (some 3) nobody, .remove none]) l ∧
    ∀ noNameUser engineID name, getUserFromList s.nodes (s.size + 1) noNameUser engineID name s.head false =
      some ((UserCall.runMap [.add 3 none none somebody, .add 5 none (some 3) nobody, .remove none]
        (engineID, nameOf name)).map Prod.fst) := by
  refine run_holds _ ⟨fun k x hx => ?_, fun k x hx => ?_, trivial, trivial⟩
  · cases hx
  · by_cases hk : k = somebody.key
    · rw [UserCall.onMap, hk, Function.update_self] at hx
      rw [← Option.some.inj hx]
      decide
    · rw [UserCall.onMap, Function.update_of_ne hk] at hx
      cases hx

end Priot.Usm
