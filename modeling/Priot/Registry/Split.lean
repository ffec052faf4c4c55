/-
# Splitting a chain

A chain is split from its head down through its children, and each call relinks what it has of the two parts. Both are
chains as they should be, next to each other.
-/
import Priot.Registry.Chain

namespace Priot.Registry

open Lib List

variable {H : Type} {m m' : Memory H} {T A B : List (Chain H)} {sl : Chain H} {k j : Option Pred} {l : Items H}
  {x : ObjId} {n : Nat} {c p q : Ptr}

/-- The nodes that are allocated for the copy of a chain, from `b` on. -/
def copies (b : Ptr) : Items H → Items H
  | [] => []
  | (_, r) :: l => (b, r) :: copies (b + 1) l

@[simp] theorem copies_regs (b : Ptr) (l : Items H) : (copies b l).map Prod.snd = l.map Prod.snd := by
  induction l generalizing b with
  | nil => rfl
  | cons y l ih =>
    obtain ⟨p, r⟩ := y
    show r :: (copies (b + 1) l).map Prod.snd = r :: _
    rw [ih]

@[simp] theorem copies_addrs (b : Ptr) (l : Items H) : (copies b l).map Prod.fst = List.range' b l.length := by
  induction l generalizing b with
  | nil => rfl
  | cons y l ih =>
    obtain ⟨p, r⟩ := y
    show b :: (copies (b + 1) l).map Prod.fst = _
    rw [ih, length_cons, range'_succ]

theorem copies_length (b : Ptr) (l : Items H) : (copies b l).length = l.length := by
  have := congrArg List.length (copies_regs b l)
  rwa [length_map, length_map] at this

/-- A node over a range, however it is linked. -/
def Spans (a b : ObjId) (nd : Subtree H) : Prop := nd.start = a ∧ nd.stop = b

namespace Memory

/-- What the call for the children leaves, whether there are any or not. -/
structure Descends (m m' : Memory H) (k : Option Pred) (sl : Chain H) (T : List (Chain H)) (x : ObjId) (l : Items H)
    (a a' : Option Ptr) : Prop where
  brk : m'.brk = m.brk + l.length
  first : Nodes m'.cells (fun nd => Spans sl.start x nd ∧ Knows k nd) a l
  second : Nodes m'.cells (fun nd => Spans x sl.stop nd ∧ nd.next = leads T none) a' (copies m.brk l)
  rest : Listed m'.cells none T none
  frame : ∀ q < m.brk, q ∉ l.map Prod.fst → q ∉ addrs T → m'.cells q = m.cells q

/-- What the whole call leaves. -/
structure Divides (m m' : Memory H) (k : Option Pred) (sl : Chain H) (T : List (Chain H)) (x : ObjId) (l : Items H)
    (c : Ptr) : Prop where
  brk : m'.brk = m.brk + l.length
  first : Nodes m'.cells (fun nd => Sits { sl with stop := x } (some m.brk) nd ∧ Knows k nd) (some c) l
  second : Nodes m'.cells (fun nd => Sits { sl with start := x } (leads T none) nd ∧
    Knows (some (some (c, sl.start))) nd) (some m.brk) (copies m.brk l)
  rest : Listed m'.cells (some (some (m.brk, x))) T none
  frame : ∀ q < m.brk, q ∉ l.map Prod.fst → q ∉ addrs T → m'.cells q = m.cells q

theorem Divides.descends (h : Divides m m' k sl T x l c) : Descends m m' k sl T x l (some c) (some m.brk) :=
  ⟨h.brk, h.first.mono fun _ hnd => ⟨⟨hnd.1.start, hnd.1.stop⟩, hnd.2⟩,
    h.second.mono fun _ hnd => ⟨⟨hnd.1.start, hnd.1.stop⟩, hnd.1.next⟩, h.rest.forget, h.frame⟩

theorem relink {r : Registration H}
    (hfirst : Nodes m.cells (fun nd => Spans sl.start x nd ∧ Knows k nd) (some p) ((p, r) :: l))
    (hsecond : Nodes m.cells (fun nd => Spans x sl.stop nd ∧ nd.next = leads T none) (some c)
      (copies c ((p, r) :: l)))
    (hT : Listed m.cells j T none) (hnodup : (((p, r) :: l).map Prod.fst ++ addrs T).Nodup)
    (hc : ∀ q ∈ ((p, r) :: l).map Prod.fst ++ addrs T, q < c) (hb : c + ((p, r) :: l).length ≤ m.brk) :
    ∃ m', (do
        let m ← m.changeNextLoop (some p) (some c)
        let m ← m.changePrevLoop (some c) (some p)
        let new ← m.get c
        let m ← m.changePrevLoop new.next (some c)
        .ok (m, some c)) = Except.ok (m', some c) ∧ m'.brk = m.brk ∧
      Nodes m'.cells (fun nd => Sits { sl with stop := x } (some c) nd ∧ Knows k nd) (some p) ((p, r) :: l) ∧
      Nodes m'.cells (fun nd => Sits { sl with start := x } (leads T none) nd ∧
        Knows (some (some (p, sl.start))) nd) (some c) (copies c ((p, r) :: l)) ∧
      Listed m'.cells (some (some (c, x))) T none ∧
      ∀ q < c, q ∉ ((p, r) :: l).map Prod.fst → q ∉ addrs T → m'.cells q = m.cells q := by
  obtain ⟨hnL, hnT, hdisj⟩ := nodup_append.mp hnodup
  have hcL : ∀ q ∈ ((p, r) :: l).map Prod.fst, q < c := fun q hq => hc q (mem_append_left _ hq)
  have hcT : ∀ q ∈ addrs T, q < c := fun q hq => hc q (mem_append_right _ hq)
  have haddr : (copies c ((p, r) :: l)).map Prod.fst = range' c ((p, r) :: l).length := copies_addrs _ _
  have hge : ∀ q ∈ (copies c ((p, r) :: l)).map Prod.fst, c ≤ q := fun q hq => by
    rw [haddr, mem_range'_1] at hq
    exact hq.1
  have hcc : c ∈ (copies c ((p, r) :: l)).map Prod.fst := mem_cons_self
  have hpL : p ∈ ((p, r) :: l).map Prod.fst := mem_cons_self
  have hlen : ((p, r) :: l).length ≤ m.brk := le_trans (Nat.le_add_left _ _) hb
  -- the first part leads to the second
  obtain ⟨m₁, hm₁, hb₁, hc₁⟩ := changeNext_childLoop (t := some c) (x := sl.start) hfirst hnL (fun nd h => h.1.1)
    (fun q hq => by
      obtain rfl : c = q := Option.some.inj hq
      obtain ⟨nd, hnd, -⟩ := hsecond.mem hcc
      exact ⟨fun h => (hcL c h).false, nd, hnd⟩) hlen
  have hfirst₁ : Nodes m₁.cells (fun nd => Sits { sl with stop := x } (some c) nd ∧ Knows k nd) (some p)
      ((p, r) :: l) := by
    refine hfirst.change fun q hq nd hnd h => ⟨setNext (some c) nd, ?_, rfl, rfl, rfl, ⟨h.1.1, h.1.2, rfl⟩,
      h.2.congr rfl rfl rfl⟩
    rw [hc₁, if_pos hq, hnd]
    rfl
  have hsecond₁ : Nodes m₁.cells (fun nd => Spans x sl.stop nd ∧ nd.next = leads T none) (some c)
      (copies c ((p, r) :: l)) := by
    refine hsecond.change fun q hq nd hnd h => ?_
    rw [hc₁, if_neg fun hqL => (hge q hq).not_gt (hcL q hqL), hnd]
    split
    · exact ⟨setOff sl.start nd, rfl, rfl, rfl, rfl, h⟩
    · exact ⟨nd, rfl, rfl, rfl, rfl, h⟩
  have hframe₁ : ∀ q < c, q ∉ ((p, r) :: l).map Prod.fst → m₁.cells q = m.cells q := by
    intro q hq hqL
    rw [hc₁, if_neg hqL, if_neg fun h => hq.ne (Option.some.inj h.1).symm]
  -- and the second back to the first
  obtain ⟨m₂, hm₂, hb₂, hc₂⟩ := changePrev_childLoop (v := some (p, sl.start)) (n := m₁.brk) hsecond₁
    (by rw [haddr]; exact nodup_range')
    (fun y hy => by
      obtain rfl : (p, sl.start) = y := Option.some.inj hy
      obtain ⟨nd, hnd, -, h⟩ := hfirst₁.mem hpL
      exact ⟨fun h => (hge p h).not_gt (hcL p hpL), nd, hnd, h.1.start⟩)
    (by rw [copies_length, hb₁]; exact hlen)
  have hsecond₂ : Nodes m₂.cells (fun nd => Sits { sl with start := x } (leads T none) nd ∧
      Knows (some (some (p, sl.start))) nd) (some c) (copies c ((p, r) :: l)) := by
    refine hsecond₁.change fun q hq nd hnd h => ⟨setPrev (some (p, sl.start)) nd, ?_, rfl, rfl, rfl,
      ⟨h.1.1, h.1.2, h.2⟩, ?_, ?_⟩
    · rw [hc₂, if_pos hq, hnd]
      rfl
    · rintro _ ⟨⟩
      rfl
    · rintro _ ⟨⟩ _ ⟨⟩
      rfl
  have hframe₂ : ∀ q < c, m₂.cells q = m₁.cells q := by
    intro q hq
    rw [hc₂, if_neg fun h => (hge q h).not_gt hq]
  -- what follows points back to the second part
  obtain ⟨nd, hnd, -, hsits, -⟩ := hsecond₂.mem hcc
  obtain ⟨m₃, hm₃, hb₃, hT₃, hc₃⟩ := Listed.changePrev (v := some (c, x))
    ((hT.frame fun q hq => hframe₁ q (hcT q hq) fun h => hdisj q h q hq rfl).frame fun q hq => hframe₂ q (hcT q hq))
    hnT (fun q hq => by rw [hb₂, hb₁]; exact lt_of_lt_of_le (hcT q hq) (le_trans (Nat.le_add_right _ _) hb))
    (fun y hy => by
      obtain rfl : (c, x) = y := Option.some.inj hy
      exact ⟨fun h => (hcT c h).false, nd, hnd, hsits.start⟩)
  refine ⟨m₃, ?_, hb₃.trans (hb₂.trans hb₁), ?_, ?_, hT₃, ?_⟩
  · rw [show m.changeNextLoop (some p) (some c) = .ok m₁ from hm₁, ok_bind,
      show m₁.changePrevLoop (some c) (some p) = .ok m₂ from hm₂, ok_bind, get_eq hnd, ok_bind, hsits.next,
      show m₂.changePrevLoop (leads T none) (some c) = .ok m₃ from hm₃]
    rfl
  · refine hfirst₁.frame fun q hq => ?_
    rw [hc₃ q fun h => hdisj q hq q h rfl, hframe₂ q (hcL q hq)]
  · refine hsecond₂.frame fun q hq => hc₃ q fun h => (hge q hq).not_gt (hcT q h)
  · intro q hq hqL hqT
    rw [hc₃ q hqT, hframe₂ q hq, hframe₁ q hq hqL]

theorem subtreeSplitLoop_spec (hl : Nodes m.cells (fun nd => Sits sl (leads T none) nd ∧ Knows k nd) (some c) l)
    (hn : l.length ≤ n) (hT : Listed m.cells j T none) (hnodup : (l.map Prod.fst ++ addrs T).Nodup)
    (hb : ∀ q ∈ l.map Prod.fst ++ addrs T, q < m.brk) (hx : x ≤ sl.stop) :
    ∃ m', subtreeSplitLoop n m c x = .ok (m', some m.brk) ∧ Divides m m' k sl T x l c := by
  induction l generalizing m c n j with
  | nil => cases hl
  | cons y l ih =>
    obtain ⟨p, r⟩ := y
    obtain ⟨hcp, nd, hp, hr, hg, hP, hl⟩ := hl
    obtain rfl : c = p := Option.some.inj hcp
    obtain ⟨n, rfl, hn'⟩ := Lib.exists_round hn
    obtain ⟨hcl, hnodup'⟩ := nodup_cons.mp hnodup
    have hlt : ∀ q ∈ l.map Prod.fst ++ addrs T, q < m.brk := fun q hq => hb q (mem_cons_of_mem _ hq)
    have hcb : c < m.brk := hb c mem_cons_self
    unfold subtreeSplitLoop
    rw [get_eq hp, ok_bind, if_neg]
    rotate_left
    · rw [oidCompare_gt, hP.1.stop]
      exact fun h => absurd hx (Std.not_le.mpr h)
    obtain ⟨m₁, hm₁, hb₁, hc₁⟩ := alloc_spec m { nd with reginfo := some m.brk }
    have hcopy : m.subtreeDeepcopy nd = (m₁, m.brk) := by
      unfold subtreeDeepcopy
      rw [hg]
      exact hm₁
    rw [hcopy]
    generalize hv : nd.vars.map (splitVariables (x.drop nd.reg.name.length)) = parts
    simp only []
    obtain ⟨m₂, hm₂, hb₂, hc₂⟩ := set_spec (show m₁.cells c = some nd by rw [hc₁, if_neg hcb.ne, hp])
      fun nd => { nd with stop := x, vars := parts.map Prod.fst }
    obtain ⟨m₃, hm₃, hb₃, hc₃⟩ := set_spec (show m₂.cells m.brk = some { nd with reginfo := some m.brk } by
      rw [hc₂, if_neg hcb.ne', hc₁, if_pos rfl]) fun nd => { nd with start := x, vars := parts.map Prod.snd }
    rw [hm₂, ok_bind, hm₃, ok_bind]
    have hb' : m₃.brk = m.brk + 1 := hb₃.trans (hb₂.trans hb₁)
    have hframe : ∀ q < m.brk, q ≠ c → m₃.cells q = m.cells q := by
      intro q hq hqc
      rw [hc₃, if_neg hq.ne, hc₂, if_neg hqc, hc₁, if_neg hq.ne]
    have hnl : (l.map Prod.fst ++ addrs T).Nodup := hnodup'
    have hne : ∀ q ∈ l.map Prod.fst ++ addrs T, q ≠ c := fun q hq h => hcl (h ▸ hq)
    have hT₃ : Listed m₃.cells j T none :=
      hT.frame fun q hq => hframe q (hlt q (mem_append_right _ hq)) (hne q (mem_append_right _ hq))
    have hl₃ : Nodes m₃.cells (fun nd => Sits sl (leads T none) nd ∧ Knows k nd) nd.children l :=
      hl.frame fun q hq => hframe q (hlt q (mem_append_left _ hq)) (hne q (mem_append_left _ hq))
    -- the children are split, if there are any
    obtain ⟨m₄, ch, hnone, hsome, hd⟩ : ∃ m₄ ch, (nd.children = none → m₃ = m₄ ∧ none = ch) ∧
        (∀ child, nd.children = some child → subtreeSplitLoop n m₃ child x = .ok (m₄, ch)) ∧
        Descends m₃ m₄ k sl T x l nd.children ch := by
      cases l with
      | nil =>
        have hch : nd.children = none := hl
        rw [hch]
        exact ⟨m₃, none, fun _ => ⟨rfl, rfl⟩, nofun, rfl, rfl, rfl, hT₃.forget, fun _ _ _ _ => rfl⟩
      | cons z l =>
        have hch : nd.children = some z.1 := hl.1
        rw [hch] at hl₃ ⊢
        obtain ⟨m₄, hm₄, hdiv⟩ := ih hl₃ hn' hT₃ hnl fun q hq => by
          rw [hb']
          exact (hlt q hq).trans (Nat.lt_succ_self _)
        exact ⟨m₄, some m₃.brk, nofun, fun _ h => by rwa [← Option.some.inj h], hdiv.descends⟩
    have hcell : ∀ q, q = c ∨ q = m.brk → m₄.cells q = m₃.cells q := by
      rintro q (rfl | rfl)
      · exact hd.frame q (by rw [hb']; exact hcb.trans (Nat.lt_succ_self _))
          (fun h => hne q (mem_append_left _ h) rfl) fun h => hne q (mem_append_right _ h) rfl
      · exact hd.frame m.brk (by rw [hb']; exact Nat.lt_succ_self _)
          (fun h => (hlt _ (mem_append_left _ h)).false) fun h => (hlt _ (mem_append_right _ h)).false
    obtain ⟨m₅, hm₅, hb₅, hc₅⟩ := set_spec (m := m₄) (p := m.brk)
      (by rw [hcell m.brk (.inr rfl), hc₃, if_pos rfl]) fun nd => { nd with children := ch }
    have hframe₅ : ∀ q, q ≠ m.brk → m₅.cells q = m₄.cells q := fun q hq => by rw [hc₅, if_neg hq]
    have hbrk₅ : m₅.brk = m.brk + (l.length + 1) := by
      rw [hb₅, hd.brk, hb', Nat.add_assoc, Nat.add_comm 1]
    obtain ⟨new, hnew, hnr, hng, hspans, hnext, hchildren⟩ : ∃ new, m₅.cells m.brk = some new ∧ new.reg = r ∧
        new.reginfo = some m.brk ∧ Spans x sl.stop new ∧ new.next = leads T none ∧ new.children = ch :=
      ⟨_, (hc₅ _).trans (if_pos rfl), hr, rfl, ⟨rfl, hP.1.stop⟩, hP.1.next, rfl⟩
    obtain ⟨m', hm', hbrk, hfirst, hsecond, hrest, hframe'⟩ := relink (m := m₅) (p := c) (c := m.brk) (r := r) (l := l)
      (k := k) (x := x) (T := T) (j := none)
      ⟨rfl, { nd with stop := x, vars := parts.map Prod.fst },
        by rw [hframe₅ c hcb.ne, hcell c (.inl rfl), hc₃, if_neg hcb.ne, hc₂, if_pos rfl], hr, hg,
        ⟨⟨hP.1.start, rfl⟩, hP.2.congr rfl rfl rfl⟩,
        hd.first.frame fun q hq => hframe₅ q (hlt q (mem_append_left _ hq)).ne⟩
      ⟨rfl, new, hnew, hnr, hng, ⟨hspans, hnext⟩, by
        rw [← hb', hchildren]
        exact hd.second.frame fun q hq => hframe₅ q fun h => by
          rw [copies_addrs, mem_range'_1, h, hb'] at hq
          exact Nat.lt_irrefl _ hq.1⟩
      (hd.rest.frame fun q hq => hframe₅ q (hlt q (mem_append_right _ hq)).ne)
      hnodup hb hbrk₅.ge
    refine ⟨m', ?_, hbrk.trans hbrk₅, hfirst, hsecond, hrest, fun q hq hql hqT => ?_⟩
    · cases hch : nd.children with
      | none =>
        obtain ⟨rfl, rfl⟩ := hnone hch
        simp only [ok_bind]
        rw [hm₅]
        exact hm'
      | some child =>
        simp only []
        rw [hsome child hch]
        simp only [ok_bind]
        rw [hm₅]
        exact hm'
    · rw [map_cons, mem_cons, not_or] at hql
      rw [hframe' q hq (by rw [map_cons, mem_cons, not_or]; exact hql) hqT, hframe₅ q hq.ne,
        hd.frame q (by rw [hb']; exact hq.trans (Nat.lt_succ_self _)) hql.2 hqT, hframe q hq hql.1]

end Memory

/-- The two parts of a slice. The nodes of the second one are allocated from `b` on. -/
def lower (sl : Chain H) (x : ObjId) : Chain H := { sl with stop := x }

def upper (b : Ptr) (sl : Chain H) (x : ObjId) : Chain H := ⟨x, sl.stop, (b, sl.top.2), copies (b + 1) sl.under⟩

theorem upper_items (b : Ptr) (sl : Chain H) (x : ObjId) : (upper b sl x).items = copies b sl.items := rfl

theorem insert_perm {α : Type} (A I R C : List α) : (A ++ (I ++ (R ++ C))).Perm (R ++ (A ++ (I ++ C))) :=
  (perm_append_comm_assoc I R C).append_left A |>.trans (perm_append_comm_assoc A R (I ++ C))

theorem Holds.split (h : Holds m k (A ++ sl :: B)) (hx : x ≤ sl.stop) :
    ∃ m', m.subtreeSplit sl.top.1 x = .ok (m', some m.brk) ∧ m.brk ≤ m'.brk ∧
      Holds m' k (A ++ lower sl x :: upper m.brk sl x :: B) ∧
      ∀ q < m.brk, q ∉ addrs (A ++ sl :: B) → m'.cells q = m.cells q := by
  obtain ⟨hA, hsl, hB⟩ := listed_append.mp h.listed
  have hnodup := h.nodup
  have hb := h.below
  simp only [addrs_append, addrs_cons] at hnodup hb ⊢
  obtain ⟨hnA, hnslB, hdisj⟩ := nodup_append.mp hnodup
  have hlt : ∀ q ∈ sl.items.map Prod.fst ++ addrs B, q < m.brk := fun q hq => hb q (mem_append_right _ hq)
  have hlen : sl.items.length ≤ m.brk :=
    items_length_le (nodup_append.mp hnslB).1 fun q hq => hlt q (mem_append_left _ hq)
  obtain ⟨m', hm', hd⟩ := Memory.subtreeSplitLoop_spec hsl hlen hB hnslB hlt hx
  have hle : m.brk ≤ m'.brk := by
    rw [hd.brk]
    exact Nat.le_add_right _ _
  refine ⟨m', hm', hle, ⟨listed_append.mpr ⟨?_, hd.first, ?_, hd.rest⟩, ?_, ?_⟩, ?_⟩
  · refine hA.frame fun q hq => hd.frame q (hb q (mem_append_left _ hq)) ?_ ?_
    · exact fun hmem => hdisj q hq q (mem_append_left _ hmem) rfl
    · exact fun hmem => hdisj q hq q (mem_append_right _ hmem) rfl
  · exact hd.second.mono fun nd hnd => ⟨⟨hnd.1.start, hnd.1.stop, hnd.1.next⟩, hnd.2⟩
  · rw [addrs_append, addrs_cons, addrs_cons, upper_items, copies_addrs, (insert_perm _ _ _ _).nodup_iff]
    refine nodup_append.mpr ⟨nodup_range', hnodup, ?_⟩
    rintro p hp q hq rfl
    exact (hb p hq).not_ge (mem_range'_1.mp hp).1
  · intro q hq
    rw [addrs_append, addrs_cons, addrs_cons, upper_items, copies_addrs, (insert_perm _ _ _ _).mem_iff] at hq
    rcases mem_append.mp hq with hq | hq
    · rw [hd.brk]
      exact (mem_range'_1.mp hq).2
    · exact (hb q hq).trans_le hle
  · intro q hq hmem
    simp only [mem_append, not_or] at hmem
    exact hd.frame q hq hmem.2.1 hmem.2.2

end Priot.Registry
