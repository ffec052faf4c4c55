/-
# What the table of capabilities keeps

A loop around the ring may take entries out. It ends at the entry that `_sysORTable_table` points to, and that is the
next one as soon as the oldest is taken out.
-/
import Priot.SysORTable.Table

namespace Priot.SysORTable

open Lib Registry List

variable {s s' : State} {l pre post kept rest : List (Ptr × Entry)} {x y : Ptr × Entry} {p : Ptr} {e data : Entry}
  {β : Type} {c : β} {n : Nat} {uptime : Nat → Nat}

/-- The ring of `l`, in memory that holds nothing else. -/
structure Holds (s : State) (l : List (Ptr × Entry)) : Prop where
  ring : Ring s.nodes l
  table : s.table = front l none
  nodup : (l.map Prod.fst).Nodup
  below : ∀ p ∈ l.map Prod.fst, p < s.brk
  unused : ∀ p, p ∉ l.map Prod.fst → s.nodes p = none

namespace Holds

theorem start : Holds State.start [] := ⟨trivial, rfl, nodup_nil, by simp, fun _ _ => rfl⟩

theorem length_le (h : Holds s l) : l.length ≤ s.brk := by
  have := Lib.length_le_of_below h.nodup h.below
  rwa [length_map] at this

theorem get (h : Holds s (pre ++ (p, e) :: post)) :
    ∃ prev, s.get (some p) = .ok ⟨prev, front (post ++ pre) (some p), e⟩ := by
  obtain ⟨prev, hp⟩ := h.ring.node
  refine ⟨prev, ?_⟩
  unfold State.get
  rw [Option.bind_some, hp]

theorem mem_iff (h : Holds s l) : p ∈ l.map Prod.fst ↔ s.nodes p ≠ none := by
  constructor
  · intro hp
    obtain ⟨⟨p, e⟩, hmem, rfl⟩ := mem_map.mp hp
    obtain ⟨pre, post, rfl⟩ := append_of_mem hmem
    obtain ⟨prev, hnode⟩ := h.ring.node
    rw [hnode]
    simp
  · intro hp
    by_contra hnot
    exact hp (h.unused p hnot)

end Holds

/-! ## single entries -/

theorem State.get_some {nd : Node Entry} (hp : s.nodes p = some nd) : s.get (some p) = .ok nd := by
  unfold State.get
  rw [Option.bind_some, hp]

theorem State.set_some {nd : Node Entry} {f : Node Entry → Node Entry} (hp : s.nodes p = some nd) :
    s.set (some p) f = .ok (s.put p (f nd)) := by
  unfold State.set
  rw [State.get_some hp]
  rfl

theorem State.free_some {nd : Node Entry} (hp : s.nodes p = some nd) :
    s.free p = .ok { s with nodes := Function.update s.nodes p none } := by
  unfold State.free
  rw [State.get_some hp]
  rfl

theorem State.put_used {nd : Node Entry} {q : Ptr} (p : Ptr) (nd' : Node Entry) (hq : s.nodes q = some nd) :
    ∃ nd, (s.put p nd').nodes q = some nd := by
  by_cases hqp : q = p
  · exact ⟨nd', hqp ▸ Function.update_self ..⟩
  · exact ⟨nd, (Function.update_of_ne hqp ..).trans hq⟩

theorem State.put_unused {nd nd' : Node Entry} {q : Ptr} (hp : s.nodes p = some nd) (hq : s.nodes q = none) :
    (s.put p nd').nodes q = none := by
  have hne : q ≠ p := by
    rintro rfl
    rw [hp] at hq
    cases hq
  exact (Function.update_of_ne hne ..).trans hq

theorem link_spec (h : Holds s l) (data : Entry) :
    ∃ s', s.link data = .ok s' ∧ Holds s' (l ++ [(s.brk, data)]) ∧ s'.asked = s.asked ∧ s'.log = s.log := by
  have hfresh : s.brk ∉ l.map Prod.fst := fun hmem => Nat.lt_irrefl _ (h.below _ hmem)
  have hnodup : ((l ++ [(s.brk, data)]).map Prod.fst).Nodup := by
    rw [map_append, nodup_append]
    refine ⟨h.nodup, by simp, fun a ha b hb => ?_⟩
    rw [map_singleton, mem_singleton] at hb
    subst hb
    exact ne_of_mem_of_not_mem ha hfresh
  have hbelow : ∀ p ∈ (l ++ [(s.brk, data)]).map Prod.fst, p < s.brk + 1 := by
    intro p hp
    rw [map_append, mem_append, map_singleton, mem_singleton] at hp
    rcases hp with hp | rfl
    · exact Nat.lt_succ_of_lt (h.below p hp)
    · exact Nat.lt_succ_self _
  cases hl : l with
  | nil =>
    -- the first entry is a ring of its own
    subst hl
    refine ⟨{ s.put s.brk ⟨some s.brk, some s.brk, data⟩ with brk := s.brk + 1, table := some s.brk }, ?_, ?_, rfl, rfl⟩
    · unfold State.link
      rw [h.table]
      rfl
    · refine ⟨⟨Function.update_self .., trivial⟩, rfl, hnodup, hbelow, fun q hq => ?_⟩
      rw [nil_append, map_singleton, mem_singleton] at hq
      exact (Function.update_of_ne hq ..).trans (h.unused q not_mem_nil)
  | cons x rest =>
    have hne : l ≠ [] := hl ▸ cons_ne_nil x rest
    have hfirst : s.nodes x.1 = some ⟨rear none l, front rest (some x.1), x.2⟩ := by
      subst hl
      exact h.ring.1
    have hfront : front l none = some x.1 := by rw [hl]; rfl
    have hgot : Ring (s.put s.brk ⟨rear none l, some x.1, data⟩).nodes l := h.ring.update hfresh _
    have hput : (s.put s.brk ⟨rear none l, some x.1, data⟩).nodes s.brk = some ⟨rear none l, front l none, data⟩ := by
      rw [hfront]
      exact Function.update_self ..
    obtain ⟨a, b, node, node', ha, hb, hbnode, hanode, hring⟩ := hgot.push h.nodup hne hfresh hput
    obtain rfl : x.1 = a := Option.some.inj (hfront.symm.trans ha)
    let s₀ : State := ({ s with brk := s.brk + 1, table := some x.1 } : State).put s.brk ⟨rear none l, some x.1, data⟩
    have hprev : s₀.set (some b) (fun nd => { nd with next := some s.brk }) =
        .ok (s₀.put b { node with next := some s.brk }) := State.set_some hbnode
    have hnext : (s₀.put b { node with next := some s.brk }).set (some x.1) (fun nd => { nd with prev := some s.brk }) =
        .ok ((s₀.put b { node with next := some s.brk }).put x.1 { node' with prev := some s.brk }) :=
      State.set_some hanode
    rw [← hl]
    refine ⟨(s₀.put b { node with next := some s.brk }).put x.1 { node' with prev := some s.brk }, ?_,
      ⟨hring, ?_, hnodup, hbelow, ?_⟩, rfl, rfl⟩
    · unfold State.link
      rw [h.table, hfront]
      show (State.get { s with brk := s.brk + 1, table := some x.1 } (some x.1) >>= _) = _
      rw [State.get_some (s := { s with brk := s.brk + 1, table := some x.1 }) hfirst]
      show (s₀.set (rear none l) _ >>= _) = _
      rw [hb, hprev]
      exact hnext
    · show some x.1 = _
      rw [Lib.front_append, Lib.front_of_ne hne _ none, hfront]
    · intro q hq
      rw [map_append, mem_append, not_or, map_singleton, mem_singleton] at hq
      have hq₀ : s₀.nodes q = none := (Function.update_of_ne hq.2 ..).trans (h.unused q hq.1)
      have hq₁ : (s₀.put b { node with next := some s.brk }).nodes q = none := State.put_unused hbnode hq₀
      exact State.put_unused hanode hq₁

/-- An entry is told to have gone. -/
def State.told (s : State) (uptime : Nat → Nat) (e : Entry) : State :=
  { s with asked := s.asked + 1, log := s.log ++ [.unregSysOR { e with uptime := uptime s.asked }] }

theorem erase_only {prev : Option Ptr} (hnode : s.nodes p = some ⟨prev, some p, e⟩) :
    s.erase uptime p = .ok { s.told uptime e with table := none, nodes := Function.update s.nodes p none } := by
  unfold State.erase
  rw [State.get_some hnode, Lib.ok_bind]
  dsimp only
  rw [if_pos rfl]
  exact State.free_some hnode

theorem erase_linked {a b : Ptr} {node node' nd : Node Entry} (hnode : s.nodes p = some ⟨some b, some a, e⟩)
    (hap : a ≠ p) (ha : s.nodes a = some node)
    (hb : (s.put a { node with prev := some b }).nodes b = some node')
    (hp : ((s.put a { node with prev := some b }).put b { node' with next := some a }).nodes p = some nd) :
    s.erase uptime p = .ok { s.told uptime e with
      table := if s.table = some p then some a else s.table
      nodes := Function.update ((s.put a { node with prev := some b }).put b { node' with next := some a }).nodes p
        none } := by
  unfold State.erase
  rw [State.get_some hnode, Lib.ok_bind]
  dsimp only
  rw [if_neg (by simpa using hap)]
  have hprev : (s.told uptime e).set (some a) (fun nd => { nd with prev := some b }) =
      .ok ((s.told uptime e).put a { node with prev := some b }) := State.set_some ha
  have hnext : ((s.told uptime e).put a { node with prev := some b }).set (some b)
      (fun nd => { nd with next := some a }) = .ok (((s.told uptime e).put a { node with prev := some b }).put b { node' with next := some a }) :=
    State.set_some hb
  show ((s.told uptime e).set (some a) _ >>= _) = _
  rw [hprev, Lib.ok_bind, hnext, Lib.ok_bind]
  by_cases htable : s.table = some p
  · rw [if_pos htable]
    refine (congrArg (fun s : State => s.free p) (if_pos htable)).trans ?_
    exact State.free_some hp
  · rw [if_neg htable]
    refine (congrArg (fun s : State => s.free p) (if_neg htable)).trans ?_
    exact State.free_some hp

theorem erase_spec (uptime : Nat → Nat) (h : Holds s (pre ++ (p, e) :: post)) :
    ∃ s', s.erase uptime p = .ok s' ∧ Holds s' (pre ++ post) ∧ s'.brk = s.brk ∧ s'.asked = s.asked + 1 ∧
      s'.log = s.log ++ [.unregSysOR { e with uptime := uptime s.asked }] := by
  have hmem : ∀ q, q ∈ (pre ++ (p, e) :: post).map Prod.fst ↔ q = p ∨ q ∈ (pre ++ post).map Prod.fst := by
    intro q
    simp only [map_append, map_cons, mem_append, mem_cons]
    tauto
  have hsub : List.Sublist ((pre ++ post).map Prod.fst) ((pre ++ (p, e) :: post).map Prod.fst) :=
    List.Sublist.map _ (List.Sublist.append_left (sublist_cons_self _ _) pre)
  have hnodup : ((pre ++ post).map Prod.fst).Nodup := h.nodup.sublist hsub
  have hbelow : ∀ q ∈ (pre ++ post).map Prod.fst, q < s.brk := fun q hq => h.below q (hsub.subset hq)
  have hfresh : p ∉ (pre ++ post).map Prod.fst := by
    have hn := h.nodup
    rw [map_append, map_cons, List.nodup_middle, ← map_append] at hn
    exact (nodup_cons.mp hn).1
  have hrotated : Ring s.nodes ((p, e) :: (post ++ pre)) := h.ring.rotate
  have hperm : (((p, e) :: (post ++ pre)).map Prod.fst).Nodup := by
    rw [map_cons, nodup_cons]
    have hswap : ((post ++ pre).map Prod.fst).Perm ((pre ++ post).map Prod.fst) := perm_append_comm.map _
    exact ⟨fun hp => hfresh (hswap.mem_iff.mp hp), hswap.nodup_iff.mpr hnodup⟩
  by_cases hne : post ++ pre = []
  · -- the only entry leaves an empty ring
    obtain ⟨rfl, rfl⟩ := append_eq_nil_iff.mp hne
    refine ⟨_, erase_only hrotated.1, ⟨trivial, rfl, hnodup, hbelow, ?_⟩, rfl, rfl, rfl⟩
    intro q _
    by_cases hq : q = p
    · rw [hq]
      exact Function.update_self ..
    · refine (Function.update_of_ne hq ..).trans (h.unused q ?_)
      simpa using hq
  · obtain ⟨a, b, node, node', hnode, hap, hanode, hbnode, hring⟩ := hrotated.unlink hperm hne
    have hfront : front (post ++ pre) none = some a := by
      have hp := hrotated.1
      rw [hnode, Option.some.injEq, Node.mk.injEq] at hp
      exact (Lib.front_of_ne hne _ _).trans hp.2.1.symm
    obtain ⟨nd₁, hput⟩ := State.put_used a { node with prev := some b } hnode
    obtain ⟨nd, hthere⟩ := State.put_used b { node' with next := some a } hput
    refine ⟨_, erase_linked hnode hap hanode hbnode hthere, ⟨?_, ?_, hnodup, hbelow, ?_⟩, rfl, rfl, rfl⟩
    · have hback : Ring ((s.put a { node with prev := some b }).put b { node' with next := some a }).nodes
          (pre ++ post) := hring.rotate
      exact hback.update hfresh none
    · show (if s.table = some p then some a else s.table) = front (pre ++ post) none
      rw [h.table]
      cases pre with
      | nil =>
        rw [append_nil] at hfront
        exact (if_pos rfl).trans hfront.symm
      | cons x pre =>
        have hx : x.1 ≠ p := fun hxp => hfresh (hxp ▸ mem_cons_self)
        exact if_neg fun hsome => hx (Option.some.inj hsome)
    · intro q hq
      by_cases hqp : q = p
      · rw [hqp]
        exact Function.update_self ..
      · have hnone : s.nodes q = none := h.unused q fun hin => ((hmem q).mp hin).elim hqp hq
        refine (Function.update_of_ne hqp ..).trans ?_
        exact State.put_unused hbnode (State.put_unused hanode hnone)

/-! ## loops -/

/-- What a body does with an entry: something is computed with it, and it is taken out unless `keep` says otherwise. -/
def Handles (body : β → State → Ptr → Except Fault (β × State)) (f : β → Entry → β) (keep : Entry → Bool) : Prop :=
  ∀ s pre p e post c, Holds s (pre ++ (p, e) :: post) →
    ∃ s', body c s p = .ok (f c e, s') ∧ s'.brk = s.brk ∧ Holds s' (pre ++ ([(p, e)].filter (keep ·.2) ++ post))

variable {body : β → State → Ptr → Except Fault (β × State)} {f : β → Entry → β} {keep : Entry → Bool}

theorem walk_round (hbody : Handles body f keep) (h : Holds s (pre ++ y :: post)) :
    ∃ s', s'.brk = s.brk ∧ Holds s' (pre ++ ([y].filter (keep ·.2) ++ post)) ∧
      State.walk body (n + 1) c s y.1 =
        (if s'.table = none ∨ front (post ++ pre) (some y.1) = s'.table then .ok (f c y.2, s')
        else
          match front (post ++ pre) (some y.1) with
          | none => .error .address
          | some run => State.walk body n (f c y.2) s' run) := by
  obtain ⟨prev, hget⟩ := h.get
  obtain ⟨s', hrun, hbrk, hleft⟩ := hbody s pre y.1 y.2 post c h
  refine ⟨s', hbrk, hleft, ?_⟩
  rw [State.walk, hget]
  show (body c s y.1 >>= _) = _
  rw [hrun]
  rfl

theorem walk_spec (hbody : Handles body f keep) (h : Holds s (x :: kept ++ y :: rest)) (hn : rest.length < n) :
    ∃ s', State.walk body n c s y.1 = .ok ((y :: rest).foldl (fun c z => f c z.2) c, s') ∧ s'.brk = s.brk ∧
      Holds s' (x :: kept ++ (y :: rest).filter (keep ·.2)) := by
  induction rest generalizing s c y kept n with
  | nil =>
    obtain ⟨n, rfl⟩ : ∃ i, n = i + 1 := ⟨n - 1, by simp at hn; omega⟩
    obtain ⟨s', hbrk, hleft, hround⟩ := walk_round (n := n) (c := c) hbody h
    refine ⟨s', ?_, hbrk, ?_⟩
    · rw [hround, if_pos (.inr hleft.table.symm)]
      rfl
    · rw [append_nil] at hleft
      exact hleft
  | cons z rest ih =>
    obtain ⟨n, rfl⟩ : ∃ i, n = i + 1 := ⟨n - 1, by simp at hn; omega⟩
    obtain ⟨s₁, hbrk₁, hleft₁, hround⟩ := walk_round (n := n) (c := c) hbody h
    have hassoc : x :: kept ++ ([y].filter (keep ·.2) ++ z :: rest) =
        x :: (kept ++ [y].filter (keep ·.2)) ++ z :: rest := by simp
    rw [hassoc] at hleft₁
    have hne : x.1 ≠ z.1 := by
      have hx := (nodup_cons.mp hleft₁.nodup).1
      rintro heq
      rw [heq] at hx
      exact hx (by simp)
    obtain ⟨s', hrun, hbrk, hleft⟩ := ih hleft₁ (c := f c y.2) (n := n) (Nat.lt_of_succ_lt_succ hn)
    refine ⟨s', ?_, hbrk.trans hbrk₁, ?_⟩
    · have hgoes : ¬ (s₁.table = none ∨ front (z :: rest ++ x :: kept) (some y.1) = s₁.table) := by
        rw [hleft₁.table]
        rintro (hnone | hsame)
        · cases hnone
        · exact hne (Option.some.inj hsame).symm
      rw [hround, if_neg hgoes]
      exact hrun
    · have hfilter : (y :: z :: rest).filter (keep ·.2) = [y].filter (keep ·.2) ++ (z :: rest).filter (keep ·.2) :=
        filter_append (p := (keep ·.2)) [y] (z :: rest)
      rw [hfilter, ← append_assoc]
      exact hleft

/-- What is left when a loop has gone around: if the oldest entry is taken out, nothing else is. -/
def left (keep : Entry → Bool) : List (Ptr × Entry) → List (Ptr × Entry)
  | [] => []
  | x :: l => if keep x.2 then x :: l.filter (keep ·.2) else l

/-- What a loop computes: if the oldest entry is taken out, it is the only one seen. -/
def seen (f : β → Entry → β) (keep : Entry → Bool) (c : β) : List (Ptr × Entry) → β
  | [] => c
  | x :: l => if keep x.2 then l.foldl (fun c z => f c z.2) (f c x.2) else f c x.2

theorem around_spec (hbody : Handles body f keep) (h : Holds s l) :
    ∃ s', State.around body c s = .ok (seen f keep c l, s') ∧ s'.brk = s.brk ∧ Holds s' (left keep l) := by
  cases l with
  | nil =>
    refine ⟨s, ?_, rfl, h⟩
    unfold State.around
    rw [h.table]
    rfl
  | cons x l =>
    have hlt : l.length < s.brk := h.length_le
    obtain ⟨n, hn⟩ := Nat.exists_eq_succ_of_ne_zero (Nat.ne_zero_of_lt hlt)
    have hlen : l.length ≤ n := by omega
    have haround : State.around body c s = State.walk body (n + 1) c s x.1 := by
      unfold State.around
      rw [h.table, hn]
      rfl
    have hfirst : Holds s ([] ++ x :: l) := h
    obtain ⟨s₁, hbrk₁, hleft₁, hround⟩ := walk_round (n := n) (c := c) hbody hfirst
    rw [haround, hround]
    by_cases hkeep : keep x.2 = true
    · have hseen : seen f keep c (x :: l) = l.foldl (fun c z => f c z.2) (f c x.2) := if_pos hkeep
      have hall : left keep (x :: l) = x :: l.filter (keep ·.2) := if_pos hkeep
      rw [hseen, hall]
      rw [filter_cons_of_pos (by exact hkeep)] at hleft₁
      have hleft₁ : Holds s₁ ([x] ++ l) := hleft₁
      cases l with
      | nil =>
        -- the oldest entry is the only one
        exact ⟨s₁, if_pos (.inr hleft₁.table.symm), hbrk₁, hleft₁⟩
      | cons y l =>
        have hne : x.1 ≠ y.1 := by
          have hx := (nodup_cons.mp hleft₁.nodup).1
          rintro heq
          rw [heq] at hx
          exact hx (by simp)
        have hgoes : ¬ (s₁.table = none ∨ front (y :: l ++ []) (some x.1) = s₁.table) := by
          rw [hleft₁.table]
          rintro (hnone | hsame)
          · cases hnone
          · exact hne (Option.some.inj hsame).symm
        obtain ⟨s', hrun, hbrk, hleft⟩ := walk_spec (c := f c x.2) hbody hleft₁ hlen
        refine ⟨s', ?_, hbrk.trans hbrk₁, hleft⟩
        rw [if_neg hgoes]
        exact hrun
    · -- the next entry is now the oldest
      have hseen : seen f keep c (x :: l) = f c x.2 := if_neg hkeep
      have hrest : left keep (x :: l) = l := if_neg hkeep
      rw [hseen, hrest]
      rw [filter_cons_of_neg (by exact hkeep)] at hleft₁
      refine ⟨s₁, if_pos ?_, hbrk₁, hleft₁⟩
      rw [hleft₁.table]
      cases l with
      | nil => exact .inl rfl
      | cons y l => exact .inr rfl

theorem handles_foreach (f : β → Entry → β) :
    Handles (fun c s tmp => do
      let nd ← s.get (some tmp)
      .ok (f c nd.data, s)) f fun _ => true := by
  intro s pre p e post c h
  obtain ⟨prev, hget⟩ := h.get
  refine ⟨s, ?_, rfl, h⟩
  show (s.get (some p) >>= _) = _
  rw [hget]
  rfl

theorem handles_eraseIf (uptime : Nat → Nat) (q : Entry → Bool) :
    Handles (State.eraseIf uptime q) (fun any e => any || q e) fun e => !q e := by
  intro s pre p e post c h
  obtain ⟨prev, hget⟩ := h.get
  unfold State.eraseIf
  rw [hget, Lib.ok_bind]
  by_cases hq : q e = true
  · obtain ⟨s', herase, hleft, hbrk, -⟩ := erase_spec uptime h
    refine ⟨s', ?_, hbrk, ?_⟩
    · rw [if_pos hq, herase]
      show _ = Except.ok (c || q e, s')
      rw [hq, Bool.or_true]
      rfl
    · rw [filter_cons_of_neg (by simp [hq])]
      exact hleft
  · refine ⟨s, ?_, rfl, ?_⟩
    · rw [if_neg hq]
      show _ = Except.ok (c || q e, s)
      rw [Bool.eq_false_of_not_eq_true hq, Bool.or_false]
    · rw [filter_cons_of_pos (by simp [hq])]
      exact h

theorem foreach_spec (h : Holds s l) (f : β → Entry → β) (c : β) :
    s.foreach f c = .ok ((l.map Prod.snd).foldl f c) := by
  obtain ⟨s', haround, -, -⟩ := around_spec (c := c) (handles_foreach f) h
  unfold State.foreach
  rw [haround, foldl_map]
  cases l <;> rfl

/-! ## what is taken out -/

/-- Every entry with `Q` has been taken out, and no other. -/
def Rid (Q : Entry → Prop) (l : List (Ptr × Entry)) (s' : State) : Prop :=
  ∃ l', l'.Sublist l ∧ Holds s' l' ∧ ∀ x ∈ l, x ∈ l' ↔ ¬ Q x.2

/-- The oldest entry stays, or no other has to go. -/
def OldestAlone (Q : Entry → Prop) : List Entry → Prop
  | [] => True
  | e :: l => Q e → ∀ e' ∈ l, ¬ Q e'

theorem rid_iff {Q : Entry → Prop} {q : Entry → Bool} (hq : ∀ e, q e = true ↔ Q e) (hnodup : (l.map Prod.fst).Nodup)
    (h : Holds s' (left (fun e => !q e) l)) : Rid Q l s' ↔ OldestAlone Q (l.map Prod.snd) := by
  cases l with
  | nil => exact ⟨fun _ => trivial, fun _ => ⟨[], .slnil, h, by simp⟩⟩
  | cons x l =>
    by_cases hx : q x.2 = true
    · have hleft : left (fun e => !q e) (x :: l) = l := if_neg (by simp [hx])
      rw [hleft] at h
      have hxl : x ∉ l := fun hmem => (nodup_cons.mp hnodup).1 (mem_map.mpr ⟨x, hmem, rfl⟩)
      constructor
      · rintro ⟨l', hsub, hl', hkept⟩ - e he hQ
        obtain ⟨y, hy, rfl⟩ := mem_map.mp he
        have hused : y.1 ∈ l'.map Prod.fst := hl'.mem_iff.mpr (h.mem_iff.mp (mem_map.mpr ⟨y, hy, rfl⟩))
        obtain ⟨z, hz, hfst⟩ := mem_map.mp hused
        have hyl : y ∈ x :: l := mem_cons_of_mem x hy
        obtain rfl : z = y := inj_on_of_nodup_map hnodup (hsub.subset hz) hyl hfst
        exact (hkept z hyl).mp hz hQ
      · intro halone
        refine ⟨l, sublist_cons_self x l, h, fun y hy => ?_⟩
        rcases mem_cons.mp hy with rfl | hy
        · exact ⟨fun hmem => absurd hmem hxl, fun hnot => absurd ((hq y.2).mp hx) hnot⟩
        · exact ⟨fun _ => halone ((hq x.2).mp hx) y.2 (mem_map.mpr ⟨y, hy, rfl⟩), fun _ => hy⟩
    · have hleft : left (fun e => !q e) (x :: l) = (x :: l).filter fun y => !q y.2 := by
        rw [filter_cons_of_pos (by simp [hx])]
        exact if_pos (by simp [hx])
      rw [hleft] at h
      constructor
      · intro _ hQ
        exact absurd ((hq x.2).mpr hQ) hx
      · intro _
        refine ⟨_, filter_sublist, h, fun y hy => ?_⟩
        rw [mem_filter, ← hq y.2]
        simp [hy]

theorem seen_any (q : Entry → Bool) : seen (fun any e => any || q e) (fun e => !q e) false l = l.any (q ·.2) := by
  have hfold : ∀ (l : List (Ptr × Entry)) (b : Bool), l.foldl (fun any y => any || q y.2) b = (b || l.any (q ·.2)) := by
    intro l
    induction l with
    | nil => simp
    | cons y l ih =>
      intro b
      rw [foldl_cons, ih, any_cons, Bool.or_assoc]
  cases l with
  | nil => rfl
  | cons x l =>
    unfold seen
    by_cases hx : q x.2 = true
    · simp [hx]
    · simp [hx, hfold]

theorem erasing_spec (uptime : Nat → Nat) (q : Entry → Bool) (h : Holds s l) :
    ∃ s', State.around (State.eraseIf uptime q) false s = .ok (l.any (q ·.2), s') ∧
      Holds s' (left (fun e => !q e) l) := by
  obtain ⟨s', haround, -, hleft⟩ := around_spec (c := false) (handles_eraseIf uptime q) h
  rw [seen_any] at haround
  exact ⟨s', haround, hleft⟩

theorem byName_iff (oid : ObjId) (ss : Option Ptr) (e : Entry) :
    State.byName oid ss e = true ↔ e.oid = oid ∧ e.sess = ss := by
  unfold State.byName
  rw [Bool.and_eq_true, decide_eq_true_iff, decide_eq_true_iff, Registry.oidCompare_eq, eq_comm (a := oid), and_comm]

theorem unregisterSysORTableSess_spec (uptime : Nat → Nat) (h : Holds s l) (oid : ObjId) (ss : Option Ptr) :
    ∃ s' rc, s.unregisterSysORTableSess uptime oid ss = .ok (s', rc) ∧
      (rc = unregisteredOk ↔ ∃ e ∈ l.map Prod.snd, e.oid = oid ∧ e.sess = ss) ∧
      (Rid (fun e => e.oid = oid ∧ e.sess = ss) l s' ↔
        OldestAlone (fun e => e.oid = oid ∧ e.sess = ss) (l.map Prod.snd)) := by
  obtain ⟨s', haround, hleft⟩ := erasing_spec uptime (State.byName oid ss) h
  refine ⟨s', if l.any (State.byName oid ss ·.2) then unregisteredOk else noSuchRegistration, ?_, ?_, ?_⟩
  · unfold State.unregisterSysORTableSess
    rw [haround]
    rfl
  · have hany : l.any (State.byName oid ss ·.2) = true ↔ ∃ e ∈ l.map Prod.snd, e.oid = oid ∧ e.sess = ss := by
      simp only [any_eq_true, mem_map, byName_iff]
      constructor
      · rintro ⟨x, hx, hmatch⟩
        exact ⟨x.2, ⟨x, hx, rfl⟩, hmatch⟩
      · rintro ⟨-, ⟨x, hx, rfl⟩, hmatch⟩
        exact ⟨x, hx, hmatch⟩
    rw [← hany]
    split
    · next hsome => exact ⟨fun _ => hsome, fun _ => rfl⟩
    · next hnone => exact ⟨fun heq => absurd heq (by decide), fun hsome => absurd hsome hnone⟩
  · exact rid_iff (byName_iff oid ss) h.nodup hleft

/-- Whose entry it is: a subsession has its own, and a connection those of its subsessions. -/
def Owned (σ : Sessions) (ss : Ptr) (c : Option Ptr) : Prop :=
  if (σ.of ss).isSubsession then c = some ss
  else ∃ p, c = some p ∧ (σ.of p).isSubsession ∧ (σ.of p).subsession = some ss

theorem bySession_iff (σ : Sessions) (ss : Ptr) (e : Entry) : State.bySession σ.of ss e = true ↔ Owned σ ss e.sess := by
  -- the registry has the same test for its registrations
  refine Iff.trans ?_ (σ.bySession_iff ss (⟨[], 0, e.sess, ()⟩ : Registry.Registration Unit))
  unfold State.bySession Registry.Context.bySession
  rw [Option.all_some]
  cases (σ.of ss).isSubsession <;> simp

theorem unregisterSysORTableBySession_spec (uptime : Nat → Nat) (h : Holds s l) (σ : Sessions) (ss : Ptr) :
    ∃ s', s.unregisterSysORTableBySession uptime σ.of ss = .ok s' ∧
      (Rid (fun e => Owned σ ss e.sess) l s' ↔ OldestAlone (fun e => Owned σ ss e.sess) (l.map Prod.snd)) := by
  obtain ⟨s', haround, hleft⟩ := erasing_spec uptime (State.bySession σ.of ss) h
  refine ⟨s', ?_, rid_iff (bySession_iff σ ss) h.nodup hleft⟩
  unfold State.unregisterSysORTableBySession
  rw [haround]
  rfl

/-! ## tables that have been filled -/

/-- What `SysORTable_registerSysORTableSess` is called with, and how much there is room for. -/
structure Registration where
  oid : ObjId
  descr : String
  sess : Option Ptr
  room : Nat

def registerAll (uptime : Nat → Nat) (calls : List Registration) (s : State) : Except Fault State :=
  calls.foldlM (fun s r => do
    let (s, _) ← s.registerSysORTableSess uptime r.oid r.descr r.sess r.room
    .ok s) s

/-- The registrations that there was room for. -/
def granted (calls : List Registration) : List Registration := calls.filter fun r => 3 ≤ r.room

def entries (uptime : Nat → Nat) (calls : List Registration) : List Entry :=
  (granted calls).zipIdx.map fun r => ⟨r.1.descr, r.1.oid, r.1.sess, uptime r.2⟩

theorem registerSysORTableSess_spec (uptime : Nat → Nat) (h : Holds s l) (r : Registration) :
    ∃ s' l', s.registerSysORTableSess uptime r.oid r.descr r.sess r.room =
        .ok (s', if r.room < 3 then registrationFailed else registeredOk) ∧ Holds s' (l ++ l') ∧
      s'.asked = s.asked + (granted [r]).length ∧
      l'.map Prod.snd = (granted [r]).map fun r => ⟨r.descr, r.oid, r.sess, uptime s.asked⟩ := by
  unfold State.registerSysORTableSess granted
  by_cases hroom : r.room < 3
  · refine ⟨s, [], ?_, ?_, ?_, ?_⟩
    · rw [if_pos hroom, if_pos hroom]
    · rw [append_nil]
      exact h
    · rw [filter_cons_of_neg (by simpa using hroom)]
      rfl
    · rw [filter_cons_of_neg (by simpa using hroom)]
      rfl
  · obtain ⟨s', hlink, hholds, hasked, -⟩ := link_spec h ⟨r.descr, r.oid, r.sess, uptime s.asked⟩
    refine ⟨{ s' with
      asked := s'.asked + 1
      log := s'.log ++ [.regSysOR ⟨r.descr, r.oid, r.sess, uptime s.asked⟩] }, _, ?_,
      ⟨hholds.ring, hholds.table, hholds.nodup, hholds.below, hholds.unused⟩, ?_, ?_⟩
    · rw [if_neg hroom, if_neg hroom]
      dsimp only
      rw [hlink]
      rfl
    · rw [filter_cons_of_pos (by simpa using hroom)]
      show s'.asked + 1 = s.asked + 1
      rw [hasked]
    · rw [filter_cons_of_pos (by simpa using hroom)]
      rfl

theorem registerAll_spec (uptime : Nat → Nat) (calls : List Registration) :
    ∃ s l, registerAll uptime calls State.start = .ok s ∧ Holds s l ∧ l.map Prod.snd = entries uptime calls := by
  have hrun : ∃ s l, registerAll uptime calls State.start = .ok s ∧ Holds s l ∧ l.map Prod.snd = entries uptime calls ∧
      s.asked = (granted calls).length := by
    induction calls using reverseRecOn with
    | nil => exact ⟨State.start, [], rfl, .start, rfl, rfl⟩
    | append_singleton calls r ih =>
      obtain ⟨s, l, hrun, hholds, hentries, hasked⟩ := ih
      obtain ⟨s', l', hcall, hholds', hasked', hnew⟩ := registerSysORTableSess_spec uptime hholds r
      have hgranted : granted (calls ++ [r]) = granted calls ++ granted [r] := filter_append ..
      refine ⟨s', l ++ l', ?_, hholds', ?_, ?_⟩
      · unfold registerAll at hrun ⊢
        rw [foldlM_append, hrun]
        show (State.registerSysORTableSess uptime s r.oid r.descr r.sess r.room >>= _) >>= _ = _
        rw [hcall]
        rfl
      · rw [map_append, hentries, hnew, hasked]
        unfold entries
        rw [hgranted, zipIdx_append, map_append, Nat.zero_add]
        congr 1
        unfold granted
        by_cases hroom : 3 ≤ r.room
        · simp [hroom]
        · simp [hroom]
      · rw [hasked', hasked, hgranted, length_append]
  obtain ⟨s, l, hrun, hholds, hentries, -⟩ := hrun
  exact ⟨s, l, hrun, hholds, hentries⟩

/-- After any registrations the ring has their entries in order, and every loop sees them. A loop that erases takes out
what it should exactly if the oldest entry stays or no other has to go. -/
theorem unregister_exact_iff (uptime : Nat → Nat) (calls : List Registration) (σ : Sessions) :
    ∃ s l, registerAll uptime calls State.start = .ok s ∧ Holds s l ∧ l.map Prod.snd = entries uptime calls ∧
      (∀ (β : Type) (f : β → Entry → β) (c : β), s.foreach f c = .ok ((entries uptime calls).foldl f c)) ∧
      (∀ oid ss, ∃ s' rc, s.unregisterSysORTableSess uptime oid ss = .ok (s', rc) ∧
        (rc = unregisteredOk ↔ ∃ e ∈ entries uptime calls, e.oid = oid ∧ e.sess = ss) ∧
        (Rid (fun e => e.oid = oid ∧ e.sess = ss) l s' ↔
          OldestAlone (fun e => e.oid = oid ∧ e.sess = ss) (entries uptime calls))) ∧
      (∀ ss, ∃ s', s.unregisterSysORTableBySession uptime σ.of ss = .ok s' ∧
        (Rid (fun e => Owned σ ss e.sess) l s' ↔ OldestAlone (fun e => Owned σ ss e.sess) (entries uptime calls))) := by
  obtain ⟨s, l, hrun, hholds, hentries⟩ := registerAll_spec uptime calls
  refine ⟨s, l, hrun, hholds, hentries, ?_, ?_, ?_⟩
  · intro β f c
    rw [← hentries]
    exact foreach_spec hholds f c
  · intro oid ss
    rw [← hentries]
    exact unregisterSysORTableSess_spec uptime hholds oid ss
  · intro ss
    rw [← hentries]
    exact unregisterSysORTableBySession_spec uptime hholds σ ss

/-- Of two entries with one name the younger stays, and it is reported as taken out. -/
theorem unregister_leaves_second :
    ∃ s l s', registerAll (fun _ => 0) [⟨[1, 3], "a", none, 3⟩, ⟨[1, 3], "b", none, 3⟩] State.start = .ok s ∧
      Holds s l ∧ s.unregisterSysORTableSess (fun _ => 0) [1, 3] none = .ok (s', unregisteredOk) ∧
      ¬ Rid (fun e => e.oid = [1, 3] ∧ e.sess = none) l s' := by
  obtain ⟨s, l, hrun, hholds, hentries⟩ :=
    registerAll_spec (fun _ => 0) [⟨[1, 3], "a", none, 3⟩, ⟨[1, 3], "b", none, 3⟩]
  obtain ⟨s', rc, hcall, hrc, hrid⟩ := unregisterSysORTableSess_spec (fun _ => 0) hholds [1, 3] none
  rw [hentries] at hrc hrid
  obtain rfl : rc = unregisteredOk := hrc.mpr ⟨⟨"a", [1, 3], none, 0⟩, mem_cons_self, rfl, rfl⟩
  refine ⟨s, l, s', hrun, hholds, hcall, fun h => ?_⟩
  exact hrid.mp h ⟨rfl, rfl⟩ ⟨"b", [1, 3], none, 0⟩ mem_cons_self ⟨rfl, rfl⟩

end Priot.SysORTable
