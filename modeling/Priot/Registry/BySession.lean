/-
# The registrations of a session

When a subagent goes, its registrations are taken out of the tree, one chain after the other. Every node has a
registration of its own, and so there is nothing to join afterwards.
-/
import Priot.Registry.Runs

namespace Priot.Registry

open Lib Lib.Slice Relation List

variable {H : Type} {s s' s₁ : Context H} {m : Memory H} {T T₁ A B : List (Chain H)} {sl : Chain H}
  {pre post items : Items H} {p : Ptr} {r : Registration H} {R : Set (Registration H)} {n : Nat}
  {sess : Ptr → Context.Session} {ss : Option Ptr}

/-! ## one chain -/

/-- Whether a registration is left where it is. -/
def spared (sess : Ptr → Context.Session) (ss : Option Ptr) (r : Registration H) : Bool :=
  !Context.bySession sess ss r.session

/-- What stands when nodes have been unloaded and freed. Either nothing was unloaded, or the lookup cache is empty. -/
structure Left (s s' : Context H) (T : List (Chain H)) : Prop where
  stands : Stands s' T
  brk : s'.mem.brk = s.mem.brk
  size : s'.lookupCacheSize = s.lookupCacheSize
  invalidated : s' = s ∨ (s'.lookup.thecachecount = 0 ∧ s'.lookup.currentpos = 0)

theorem Left.refl (h : Stands s T) : Left s s T := ⟨h, rfl, rfl, .inl rfl⟩

theorem Left.trans (h : Left s s₁ T₁) (h' : Left s₁ s' T) : Left s s' T := by
  refine ⟨h'.stands, h'.brk.trans h.brk, h'.size.trans h.size, ?_⟩
  rcases h'.invalidated with rfl | hempty
  · exact h.invalidated
  · exact .inr hempty

theorem exists_withOnly (sl : Chain H) (hne : items ≠ []) :
    ∃ t, withOnly sl items = [t] ∧ t.items = items ∧ ∀ items', withOnly t items' = withOnly sl items' := by
  cases items with
  | nil => exact absurd rfl hne
  | cons y items =>
    refine ⟨⟨sl.start, sl.stop, y, items⟩, rfl, rfl, fun items' => ?_⟩
    cases items' <;> rfl

theorem Stands.child (h : Stands s (A ++ sl :: B)) (hl : sl.items = pre ++ (p, r) :: post) :
    ∃ nd, s.mem.cells p = some nd ∧ nd.reg = r ∧ nd.children = post.head?.map Prod.fst := by
  obtain ⟨-, hsl, -⟩ := listed_append.mp h.holds.listed
  rw [hl] at hsl
  obtain ⟨-, nd, hp, hr, -, -, hch⟩ := hsl.drop
  exact ⟨nd, hp, hr, hch.start⟩

theorem unload_free (h : Stands s (A ++ sl :: B)) (hl : sl.items = pre ++ (p, r) :: post) :
    ∃ s₁ mem, s.subtreeUnload p (pre.getLast?.map Prod.fst) = .ok s₁ ∧ s₁.mem.free p = .ok mem ∧
      Left s { s₁ with mem } (A ++ (withOnly sl (pre ++ post) ++ B)) := by
  obtain ⟨s₁, hs₁, hunloaded⟩ := subtreeUnload_spec h hl
  obtain ⟨pd, hpd, -⟩ := hunloaded.taken.cell
  refine ⟨s₁, _, hs₁, Memory.free_eq hpd, hunloaded.stands.freed (h.holds.apart hl), hunloaded.taken.brk,
    hunloaded.size, .inr ⟨hunloaded.count, hunloaded.pos⟩⟩

theorem unloadChildren_spec {kept rest : Items H} (h : Stands s (A ++ (withOnly sl (kept ++ rest) ++ B)))
    (hn : rest.length ≤ n) :
    ∃ s', Context.unloadChildren sess ss n s (kept.getLast?.map Prod.fst) (rest.head?.map Prod.fst) = .ok s' ∧
      Left s s' (A ++ (withOnly sl (kept ++ rest.filter fun y => spared sess ss y.2) ++ B)) := by
  induction rest generalizing s n kept with
  | nil =>
    refine ⟨s, ?_, .refl h⟩
    unfold Context.unloadChildren
    rfl
  | cons y rest ih =>
    obtain ⟨p, r⟩ := y
    obtain ⟨n, rfl, hn'⟩ := Lib.exists_round hn
    have hne : kept ++ (p, r) :: rest ≠ [] := by simp
    obtain ⟨t, ht, hitems, honly⟩ := exists_withOnly sl hne
    rw [ht] at h
    have h : Stands s (A ++ t :: B) := h
    obtain ⟨nd, hnd, hreg, hch⟩ := h.child hitems
    unfold Context.unloadChildren
    show ∃ s', (s.mem.get p >>= _) = _ ∧ _
    rw [Memory.get_eq hnd, ok_bind, hreg, hch]
    by_cases hby : Context.bySession sess ss r.session = true
    · -- the node goes, and the one before it stays the same
      obtain ⟨s₁, mem, hunload, hfree, hleft⟩ := unload_free h hitems
      rw [honly] at hleft
      obtain ⟨s', hrun, hleft'⟩ := ih hleft.stands hn'
      refine ⟨s', ?_, ?_⟩
      · rw [if_pos hby, hunload, ok_bind, hfree]
        exact hrun
      · rw [filter_cons_of_neg (by simp [spared, hby])]
        exact hleft.trans hleft'
    · have hnext : kept ++ (p, r) :: rest = (kept ++ [(p, r)]) ++ rest := by simp
      have h : Stands s (A ++ (withOnly sl ((kept ++ [(p, r)]) ++ rest) ++ B)) := by
        rw [← hnext, ht]
        exact h
      obtain ⟨s', hrun, hleft⟩ := ih h hn'
      refine ⟨s', ?_, ?_⟩
      · rw [if_neg hby]
        rw [getLast?_concat] at hrun
        exact hrun
      · rw [filter_cons_of_pos (by simp [spared, hby])]
        rw [append_assoc] at hleft
        exact hleft

/-! ## the list -/

theorem unloadList_spec (h : Stands s (A ++ B)) (hn : B.length ≤ n) :
    ∃ s', Context.unloadList sess ss n s (leads B none) = .ok s' ∧
      Left s s' (A ++ B.flatMap (keeping (spared sess ss))) := by
  induction B generalizing s A n with
  | nil =>
    refine ⟨s, ?_, .refl h⟩
    unfold leads Context.unloadList
    rfl
  | cons t B ih =>
    obtain ⟨n, rfl, hn'⟩ := Lib.exists_round hn
    obtain ⟨td, htd, -, -, hsits, -⟩ := h.holds.head
    have h₀ : Stands s (A ++ (withOnly t ([] ++ t.items) ++ B)) := h
    have hchain : ∃ s₁, Context.unloadChildren sess ss s.mem.brk s none (some t.top.1) = .ok s₁ ∧
        Left s s₁ (A ++ (keeping (spared sess ss) t ++ B)) :=
      unloadChildren_spec h₀ h.holds.items_length
    obtain ⟨s₁, hchildren, hleft₁⟩ := hchain
    have hassoc : A ++ (keeping (spared sess ss) t ++ B) = (A ++ keeping (spared sess ss) t) ++ B :=
      (append_assoc ..).symm
    have h₁ : Stands s₁ ((A ++ keeping (spared sess ss) t) ++ B) := hassoc ▸ hleft₁.stands
    obtain ⟨s', hrun, hleft⟩ := ih h₁ hn'
    refine ⟨s', ?_, ?_⟩
    · unfold leads Context.unloadList
      rw [Memory.get_eq htd, ok_bind, hsits.next]
      rw [hchildren]
      exact hrun
    · rw [flatMap_cons, ← append_assoc]
      exact hleft₁.trans hleft

theorem joinLoop_spec {k : Option Pred} {nd : Subtree H} (hT : Listed m.cells k T none)
    (hb : ∀ q ∈ addrs T, q < m.brk) (hp : m.cells p = some nd) (hinfo : nd.reginfo = some p) (hnot : p ∉ addrs T) :
    Context.joinLoop p m.brk m (leads T none) = .ok m := by
  cases T with
  | nil =>
    unfold leads Context.joinLoop
    rfl
  | cons t T =>
    obtain ⟨td, htd, htinfo, -⟩ := hT.1.mem (p := t.top.1) mem_cons_self
    have htop : t.top.1 ∈ addrs (t :: T) := mem_append_left _ mem_cons_self
    obtain ⟨b, hbrk⟩ := Nat.exists_eq_succ_of_ne_zero (Nat.ne_zero_of_lt (hb _ htop))
    have hne : nd.reginfo ≠ td.reginfo := by
      rw [hinfo, htinfo]
      intro heq
      exact hnot (Option.some.inj heq ▸ htop)
    unfold leads
    rw [hbrk]
    unfold Context.joinLoop
    rw [Memory.get_eq hp, ok_bind, Memory.get_eq htd, ok_bind, if_neg hne]

theorem subtreeJoin_spec {k : Option Pred} (hT : Listed m.cells k T none) (hnodup : (addrs T).Nodup)
    (hb : ∀ q ∈ addrs T, q < m.brk) (hn : T.length ≤ n) : Context.subtreeJoin n m (leads T none) = .ok m := by
  induction T generalizing k n with
  | nil =>
    unfold leads Context.subtreeJoin
    rfl
  | cons t T ih =>
    obtain ⟨n, rfl, hn'⟩ := Lib.exists_round hn
    obtain ⟨hsl, hT⟩ := hT
    obtain ⟨nd, hnd, hinfo, hsits, -⟩ := hsl.mem (p := t.top.1) mem_cons_self
    rw [addrs_cons] at hnodup hb
    obtain ⟨-, hnodup, hapart⟩ := nodup_append.mp hnodup
    have hb : ∀ q ∈ addrs T, q < m.brk := fun q hq => hb q (mem_append_right _ hq)
    have hnot : t.top.1 ∉ addrs T := fun hmem => hapart t.top.1 mem_cons_self t.top.1 hmem rfl
    unfold leads Context.subtreeJoin
    rw [Memory.get_eq hnd, ok_bind, hsits.next, joinLoop_spec hT hb hnd hinfo hnot, ok_bind, Memory.get_eq hnd, ok_bind,
      hsits.next]
    exact ih hT hnodup hb hn'

theorem Serves.unregisterMibsBySession (h : Serves s T R) (sess : Ptr → Context.Session) (ss : Option Ptr) :
    ∃ s' T', Context.unregisterMibsBySession sess s ss = .ok s' ∧
      Serves s' T' {r ∈ R | ¬ Context.bySession sess ss r.session} := by
  have h₀ : Stands s ([] ++ T) := h.stands
  have hlist : ∃ s', Context.unloadList sess ss s.mem.brk s (leads T none) = .ok s' ∧
      Left s s' (T.flatMap (keeping (spared sess ss))) :=
    unloadList_spec h₀ h.stands.holds.length_le
  obtain ⟨s', hrun, hleft⟩ := hlist
  have hstands : Stands s' (T.flatMap (keeping (spared sess ss))) := hleft.stands
  have hjoin := subtreeJoin_spec hstands.holds.listed hstands.holds.nodup hstands.holds.below hstands.holds.length_le
  rw [← hstands.first] at hjoin
  rw [← h.stands.first] at hrun
  refine ⟨s', _, ?_, hstands, h.ordered.keeping, ?_, fun x r => ?_⟩
  · unfold Context.unregisterMibsBySession
    rw [hrun, ok_bind, hjoin]
    rfl
  · rcases hleft.invalidated with rfl | ⟨hcount, hpos⟩
    · -- the tree is the one that stood before
      rw [← h.stands.unique hstands]
      exact h.cached
    · exact Cached.empty _ _ hcount hpos
  · rw [carries_keeping, h.carries]
    show _ ↔ (r ∈ R ∧ ¬ _) ∧ _
    unfold spared
    rw [Bool.not_eq_true', Bool.not_eq_true]
    exact and_right_comm

/-! ## whose registrations they are -/

/-- The sessions there are. A connection has a `subsession` to start a list with, and that is one of its subsessions. -/
structure Sessions where
  of : Ptr → Context.Session
  heads : ∀ p q, (of p).isSubsession = false → (of p).subsession = some q → (of q).isSubsession = true

/-- What goes with a session: what it registered itself if it is a subsession, and what its subsessions registered if it
is a connection. -/
def Sessions.Owns (σ : Sessions) (ss : Ptr) (r : Registration H) : Prop :=
  if (σ.of ss).isSubsession then r.session = some ss
  else ∃ p, r.session = some p ∧ (σ.of p).isSubsession ∧ (σ.of p).subsession = some ss

theorem Sessions.bySession_iff (σ : Sessions) (ss : Ptr) (r : Registration H) :
    Context.bySession σ.of (some ss) r.session = true ↔ σ.Owns ss r := by
  unfold Context.bySession Sessions.Owns
  rw [Option.all_some]
  split
  · exact decide_eq_true_iff
  · next hconnection =>
    rw [Option.any_eq_true]
    constructor
    · rintro ⟨p, hp, hback⟩
      have hback : (σ.of p).subsession = some ss := of_decide_eq_true hback
      refine ⟨p, hp, ?_, hback⟩
      -- a connection does not lead to another one
      by_contra hnot
      rw [Bool.not_eq_true] at hnot
      exact hconnection (σ.heads p ss hnot hback)
    · rintro ⟨p, hp, -, hback⟩
      exact ⟨p, hp, decide_eq_true hback⟩

theorem Sessions.not_owns_root {null : H} (σ : Sessions) (ss : Ptr) (hr : r ∈ roots null) : ¬ σ.Owns ss r := by
  obtain ⟨v, rfl⟩ := exists_root hr
  unfold Sessions.Owns
  split
  · nofun
  · rintro ⟨p, hp, -⟩
    cases hp

/-! ## a tree built anew -/

/-- The registration of a name of two or more subidentifiers. -/
def Op.Registers (op : Op H) : Prop := op.Proper ∧ ∃ a, op = .register a

/-- What registrations alone have come to, from a new context or one that has been given its roots. -/
def Built (null : H) (l : Ledger H) : Prop := ∃ l₀, Starts null l₀ ∧ Reaches null (fun _ op => op.Registers) l₀ l

/-- A registration that has been asked for. -/
def Recorded (null : H) (e : Registration H) : Prop :=
  e ∈ roots null ∨ ∃ a : Context.Registering H, (Op.register a).Proper ∧ a.reg = e

variable {null : H} {l l₀ l' : Ledger H} {op : Op H} {e : Registration H}

theorem Built.kept (h : Built null l) : l.Kept ∧ (l.entries = [] ∨ roots null ⊆ l.entries) := by
  obtain ⟨l₀, h₀, hrun⟩ := h
  refine reaches_kept h₀ (hrun.lift id ?_)
  rintro l l' ⟨op, hop, hstep⟩
  exact ⟨op, hop.1, hstep⟩

theorem mem_withRoots {E : List (Registration H)} (he : e ∈ withRoots null E) : e ∈ E ∨ e ∈ roots null := by
  unfold withRoots at he
  split at he
  · exact .inr he
  · exact .inl he

theorem Ledger.step_recorded (h : l.step null op = .ok l') (hop : op.Proper) (hl : ∀ e ∈ l.entries, Recorded null e) :
    ∀ e ∈ l'.entries, Recorded null e := by
  intro e he
  cases op with
  | register a =>
    obtain ⟨⟨s, res⟩, -, h⟩ := Lib.exists_of_bind_ok h
    cases h
    have hwith : ∀ e ∈ withRoots null l.entries, Recorded null e := fun e he => by
      rcases mem_withRoots he with he | he
      · exact hl e he
      · exact .inl he
    simp only [] at he
    split at he
    · rcases mem_cons.mp he with rfl | he
      · exact .inr ⟨a, hop, rfl⟩
      · exact hwith e he
    · exact hwith e he
  | unregister r =>
    obtain ⟨⟨s, res, name⟩, -, h⟩ := Lib.exists_of_bind_ok h
    cases h
    simp only [] at he
    split at he
    · exact hl e (mem_filter.mp he).1
    · exact hl e he
  | find x =>
    obtain ⟨⟨s, found⟩, -, h⟩ := Lib.exists_of_bind_ok h
    cases h
    exact hl e he

theorem reaches_recorded (h₀ : Starts null l₀) (h : Reaches null (fun _ op => op.Proper) l₀ l) :
    ∀ e ∈ l.entries, Recorded null e := by
  induction h with
  | refl =>
    cases h₀ with
    | fresh n => nofun
    | setup h => exact fun e he => .inl he
  | tail _ hstep ih =>
    obtain ⟨op, hop, hstep⟩ := hstep
    exact Ledger.step_recorded hstep hop ih

theorem Built.add {a : Context.Registering H} (h : Built null l) (hroots : roots null ⊆ l.entries)
    (ha : (Op.register a).Proper) (hnew : ¬ ∃ e ∈ l.entries, e.name = a.name ∧ e.priority = a.reg.priority) :
    ∃ s, Built null ⟨s, a.reg :: l.entries⟩ := by
  obtain ⟨⟨T, hT⟩, -⟩ := h.kept
  have hne : l.entries ≠ [] := fun hnil => by
    rw [hnil] at hroots
    cases hroots mem_cons_self
  have hwith : withRoots null l.entries = l.entries := if_neg (by simpa using hne)
  have hregisters := Ledger.registers hT null ha.1 (.inr (.inl (below_roots null ha.1.arc fun _ hr => hroots hr)))
  rw [hwith] at hregisters
  rcases hregisters with ⟨hlike, -⟩ | ⟨-, s, T', hrun, -⟩
  · exact absurd hlike hnew
  · obtain ⟨l₀, h₀, hreach⟩ := h
    refine ⟨s, l₀, h₀, hreach.tail ⟨.register a, ⟨ha, a, rfl⟩, ?_⟩⟩
    show (Context.registerMib2 null l.context a >>= _) = _
    rw [show Context.registerMib2 null l.context a = _ from hrun, ok_bind]
    rw [hwith]
    rfl

theorem exists_built (null : H) {E : List (Registration H)} (hE : ∀ e ∈ E, Recorded null e)
    (hkey : ∀ e ∈ E, ∀ e' ∈ E, e.name = e'.name → e.priority = e'.priority → e = e') :
    ∃ l, Built null l ∧ ∀ e, e ∈ l.entries ↔ e ∈ E ∨ e ∈ roots null := by
  induction E with
  | nil =>
    obtain ⟨s, T, hs, -⟩ := setupTree_spec 0 null
    exact ⟨⟨s, roots null⟩, ⟨_, .setup hs, .refl⟩, fun e => by simp⟩
  | cons e E ih =>
    obtain ⟨l, hbuilt, hmem⟩ := ih (fun e' he' => hE e' (mem_cons_of_mem e he'))
      fun e₁ he₁ e₂ he₂ => hkey e₁ (mem_cons_of_mem e he₁) e₂ (mem_cons_of_mem e he₂)
    by_cases he : e ∈ l.entries
    · refine ⟨l, hbuilt, fun e' => ?_⟩
      rw [hmem, mem_cons]
      constructor
      · exact Or.imp_left .inr
      · rintro ((rfl | he') | he')
        · exact (hmem e').mp he
        · exact .inl he'
        · exact .inr he'
    · have hnot := mt (hmem e).mpr he
      obtain ⟨a, ha, rfl⟩ := (hE e mem_cons_self).resolve_left fun hroot => hnot (.inr hroot)
      have hname : a.reg.name = a.name := counted_of_lt ha.1.plain.length
      -- its like would be itself, or a root with a longer name
      have hnew : ¬ ∃ e ∈ l.entries, e.name = a.name ∧ e.priority = a.reg.priority := by
        rintro ⟨e', he', hname', hpriority⟩
        rcases (hmem e').mp he' with hE' | hroot
        · have := hkey e' (mem_cons_of_mem _ hE') a.reg mem_cons_self (hname'.trans hname.symm) hpriority
          exact he (this ▸ he')
        · obtain ⟨v, rfl⟩ := exists_root hroot
          have hlen := ha.2
          rw [← hname'] at hlen
          exact absurd hlen (Nat.not_succ_le_self 1)
      obtain ⟨s, hs⟩ := hbuilt.add (fun e' he' => (hmem e').mpr (.inr he')) ha hnew
      refine ⟨_, hs, fun e' => ?_⟩
      show e' ∈ a.reg :: l.entries ↔ _
      rw [mem_cons, mem_cons, hmem, or_assoc]

/-- What a session has registered is taken away, and the tree that is left sends every request where one does that has
been built of the other registrations alone. -/
theorem unregisterMibsBySession_exact (σ : Sessions) (h₀ : Starts null l₀)
    (h : Reaches null (fun _ op => op.Proper) l₀ l) (ss : Ptr) :
    ∃ s', Context.unregisterMibsBySession σ.of l.context (some ss) = .ok s' ∧
      (∃ T, Serves s' T {e ∈ setOf l.entries | ¬ σ.Owns ss e}) ∧
      (∃ l', Built null l' ∧ setOf l'.entries = {e ∈ setOf l.entries | ¬ σ.Owns ss e}) ∧
      ∀ l', Built null l' → setOf l'.entries = {e ∈ setOf l.entries | ¬ σ.Owns ss e} →
        ∀ x, s'.dispatch x = l'.context.dispatch x := by
  obtain ⟨⟨T, hT⟩, hroots⟩ := reaches_kept h₀ h
  obtain ⟨s', T', hrun, hs'⟩ := hT.unregisterMibsBySession σ.of (some ss)
  have hset : {e ∈ setOf l.entries | ¬ Context.bySession σ.of (some ss) e.session = true} =
      {e ∈ setOf l.entries | ¬ σ.Owns ss e} := by
    ext e
    exact and_congr_right fun _ => not_congr (σ.bySession_iff ss e)
  rw [hset] at hs'
  refine ⟨s', hrun, ⟨T', hs'⟩, ?_, fun l' hl' hentries x => ?_⟩
  · rcases hroots with hnil | hroots
    · refine ⟨⟨Context.fresh 0, []⟩, ⟨_, .fresh 0, .refl⟩, ?_⟩
      rw [hnil, setOf_nil]
      exact (Set.empty_inter _).symm
    · -- the registrations that are left, in the order in which they were recorded
      have hleft : ∀ e ∈ l.entries.filter (spared σ.of (some ss)), e ∈ l.entries :=
        fun e he => (mem_filter.mp he).1
      obtain ⟨l', hbuilt, hmem⟩ := exists_built null (fun e he => reaches_recorded h₀ h e (hleft e he))
        fun e he e' he' => hT.unique (hleft e he) (hleft e' he')
      refine ⟨l', hbuilt, ?_⟩
      ext e
      show e ∈ l'.entries ↔ e ∈ l.entries ∧ ¬ σ.Owns ss e
      have hspared : spared σ.of (some ss) e = true ↔ ¬ σ.Owns ss e := by
        unfold spared
        rw [Bool.not_eq_true', ← Bool.not_eq_true, σ.bySession_iff]
      rw [hmem, mem_filter, hspared]
      constructor
      · rintro (he | hroot)
        · exact he
        · exact ⟨hroots hroot, σ.not_owns_root ss hroot⟩
      · exact .inl
  · obtain ⟨⟨T₁, hT₁⟩, -⟩ := hl'.kept
    rw [hentries] at hT₁
    exact hs'.dispatch_congr hT₁ x

/-- The connection 4 goes, for whose subsession 5 the name [1, 3] was registered. -/
theorem unregisterMibsBySession_exact_connection :
    ∃ (σ : Sessions) (l : Ledger Nat) (s' : Context Nat), σ.Owns 4 (⟨[1, 3], 127, some 5, 7⟩ : Registration Nat) ∧
      (⟨Context.fresh 8, []⟩ : Ledger Nat).step 0 (.register ⟨⟨[1, 3], 127, 0, 0⟩, none, some 5, 7⟩) = .ok l ∧
      Context.unregisterMibsBySession σ.of l.context (some 4) = .ok s' ∧
      ∃ T, Serves s' T {e ∈ setOf l.entries | ¬ σ.Owns 4 e} := by
  let σ : Sessions := ⟨fun p => if p = 4 then ⟨false, some 5⟩ else ⟨true, some 4⟩, by
    intro p q hconnection hq
    split at hconnection
    · next hp =>
      rw [if_pos hp] at hq
      obtain rfl : 5 = q := Option.some.inj hq
      rfl
    · cases hconnection⟩
  have howns : σ.Owns 4 (⟨[1, 3], 127, some 5, 7⟩ : Registration Nat) := ⟨5, rfl, rfl, rfl⟩
  have hop : (Op.register ⟨⟨[1, 3], 127, 0, 0⟩, none, some 5, 7⟩ : Op Nat).Proper := by
    refine ⟨⟨rfl, ?_, ⟨1, rfl, by decide⟩, ⟨3, rfl, by decide⟩⟩, ?_⟩
    · decide
    · decide
  have hstart : Starts 0 (⟨Context.fresh 8, []⟩ : Ledger Nat) := .fresh 8
  obtain ⟨l, hstep, -⟩ := Ledger.step_proper hstart.kept.1 hstart.kept.2 hop
  obtain ⟨s', hrun, hserves, -⟩ := unregisterMibsBySession_exact σ hstart (.single ⟨_, hop, hstep⟩) 4
  exact ⟨σ, l, s', howns, hstep, hrun, hserves⟩

end Priot.Registry
