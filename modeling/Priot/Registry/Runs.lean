/-
# Runs of the registry

Registrations, unregistrations and searches in any order, beside a list of what is registered. The roots stay in a run
with names of two or more subidentifiers. Where roots are unregistered as well the tree comes apart, unless every name
finds a place.
-/
import Priot.Registry.Roots
import Mathlib.Logic.Relation

namespace Priot.Registry

open Lib Lib.Slice Relation List

variable {H : Type} {s s' : Context H} {T T' C D : List (Chain H)} {m : Memory H} {null : H} {x : ObjId} {n : Nat}
  {w : Option Ptr} {a : Context.Registering H} {r : Context.Range}

/-! ## steps -/

inductive Op (H : Type)
  | register (a : Context.Registering H)
  | unregister (r : Context.Range)
  | find (x : ObjId)

/-- A context, and what is registered in it by the results of the calls. -/
structure Ledger (H : Type) where
  context : Context H
  entries : List (Registration H)

variable {l l' : Ledger H} {op : Op H}

/-- What is registered once a tree that is empty has been given its roots. -/
def withRoots (null : H) (entries : List (Registration H)) : List (Registration H) :=
  if entries.isEmpty then roots null else entries

def Ledger.step (null : H) (l : Ledger H) : Op H → Except Fault (Ledger H)
  | .register a => do
    let (s, res) ← Context.registerMib2 null l.context a
    .ok ⟨s, if res = .registeredOk then a.reg :: withRoots null l.entries else withRoots null l.entries⟩
  | .unregister r => do
    let (s, res, _) ← l.context.unregisterMibContext r
    .ok ⟨s, if res = .unregisteredOk then l.entries.filter fun e => ¬ Named r.name r.priority e else l.entries⟩
  | .find x => do
    let (s, _) ← l.context.subtreeFindPrev x none
    .ok ⟨s, l.entries⟩

/-- The tree serves what is registered. -/
def Ledger.Kept (l : Ledger H) : Prop := ∃ T, Serves l.context T (setOf l.entries)

theorem Ledger.step_find (h : l.Kept) (null : H) (x : ObjId) :
    ∃ l', l.step null (.find x) = .ok l' ∧ l'.Kept ∧ l'.entries = l.entries := by
  obtain ⟨T, h⟩ := h
  obtain ⟨C, D, s', -, hrun, hsame, hc⟩ := subtreeFindPrev_spec h.stands h.cached x (.inl rfl)
  refine ⟨⟨s', l.entries⟩, ?_, ⟨T, h.same hsame hc⟩, rfl⟩
  show (l.context.subtreeFindPrev x none >>= _) = _
  rw [hrun]
  rfl

theorem Ledger.step_unregister (h : l.Kept) (null : H) (hr : r.rangeSubid = 0) :
    ∃ l', l.step null (.unregister r) = .ok l' ∧ l'.Kept ∧
      (∀ e ∈ l.entries, ¬ Named r.name r.priority e → e ∈ l'.entries) ∧ l'.entries ⊆ l.entries := by
  obtain ⟨T, h⟩ := h
  rcases h.unregister (Context.Range.orig_eq_none hr) with ⟨-, s', T', hrun, hs'⟩ | ⟨-, hrun, hs'⟩
  · have hset : setOf (l.entries.filter fun e => ¬ Named r.name r.priority e) =
        {e ∈ setOf l.entries | ¬ Named r.name r.priority e} := by
      ext e
      exact mem_filter.trans (and_congr_right fun _ => decide_eq_true_iff)
    refine ⟨⟨s', l.entries.filter fun e => ¬ Named r.name r.priority e⟩, ?_, ⟨T', hset ▸ hs'⟩, fun e he hnot => ?_,
      filter_subset_self _⟩
    · show (l.context.unregisterMibContext r >>= _) = _
      rw [hrun]
      rfl
    · exact mem_filter.mpr ⟨he, decide_eq_true hnot⟩
  · refine ⟨⟨l.context.setLookupCacheSize 0, l.entries⟩, ?_, ⟨T, hs'⟩, fun e he _ => he,
      List.Subset.refl _⟩
    show (l.context.unregisterMibContext r >>= _) = _
    rw [hrun]
    rfl

theorem Ledger.registers (h : Serves l.context T (setOf l.entries)) (null : H) (ha : a.toRange.Proper)
    (hplace : l.entries = [] ∨ Place T (setOf l.entries) a) :
    Registers (Context.subtreeLoad null) l.context (setOf (withRoots null l.entries)) a := by
  unfold withRoots
  split
  · next hnil =>
    rw [List.isEmpty_iff] at hnil
    rw [hnil, setOf_nil] at h
    exact h.registers_empty ha.plain (below_roots null ha.arc fun _ hr => hr)
  · next hne =>
    rw [List.isEmpty_iff] at hne
    exact h.registers ha.plain (hplace.resolve_left hne)
      (h.loadsHere null (exists_mem_of_ne_nil _ hne) a)

theorem Ledger.step_register (h : Serves l.context T (setOf l.entries)) (null : H) (ha : a.toRange.Proper)
    (hplace : l.entries = [] ∨ Place T (setOf l.entries) a) :
    ∃ l', l.step null (.register a) = .ok l' ∧ l'.Kept ∧ ∀ e ∈ withRoots null l.entries, e ∈ l'.entries := by
  rcases Ledger.registers h null ha hplace with ⟨-, s', T', hrun, hs'⟩ | ⟨-, s', T', hrun, hs'⟩
  · refine ⟨⟨s', withRoots null l.entries⟩, ?_, ⟨T', hs'⟩, fun e he => he⟩
    show (l.context.registerMib2With (Context.subtreeLoad null) a >>= _) = _
    rw [hrun]
    rfl
  · refine ⟨⟨s', a.reg :: withRoots null l.entries⟩, ?_, ⟨T', ?_⟩, fun e he => mem_cons_of_mem _ he⟩
    · show (l.context.registerMib2With (Context.subtreeLoad null) a >>= _) = _
      rw [hrun]
      rfl
    · rw [setOf_cons]
      exact hs'

/-! ## the plain scan -/

/-- The last node of a list that does not start behind the name. -/
def Context.scanLoop (m : Memory H) (name : ObjId) : Nat → Option Ptr → Option Ptr → Except Fault (Option Ptr)
  | _, last, none => .ok last
  | 0, _, some _ => .error .rounds
  | n + 1, last, some myptr => do
    let nd ← m.get myptr
    scanLoop m name n (if name < nd.start then last else some myptr) nd.next

def Context.scan (s : Context H) (name : ObjId) : Except Fault (Option Ptr) := scanLoop s.mem name s.mem.brk none s.first

theorem scanLoop_spec {k : Option Pred} (hT : Listed m.cells k T none) (hcut : CutAt T x C D) (hn : T.length ≤ n) :
    Context.scanLoop m x n w (leads T none) = .ok ((lastHead C).or w) := by
  induction T generalizing k C D w n with
  | nil =>
    obtain ⟨rfl, -⟩ := append_eq_nil_iff.mp hcut.eq.symm
    unfold leads Context.scanLoop
    rfl
  | cons sl T ih =>
    obtain ⟨heq, hbefore, hbehind⟩ := hcut
    obtain ⟨hsl, hT⟩ := hT
    obtain ⟨nd, hnd, -, hsits, -⟩ := hsl.mem (p := sl.top.1) mem_cons_self
    obtain ⟨n, rfl, hn'⟩ := Lib.exists_round hn
    unfold leads Context.scanLoop
    rw [Memory.get_eq hnd, ok_bind, hsits.start, hsits.next]
    cases C with
    | nil =>
      -- everything from here on starts behind the name
      obtain rfl : sl :: T = D := heq
      rw [if_pos (hbehind sl mem_cons_self)]
      exact ih (C := []) hT ⟨rfl, nofun, fun t ht => hbehind t (mem_cons_of_mem _ ht)⟩ hn'
    | cons t C =>
      obtain ⟨rfl, rfl⟩ := List.cons.inj heq
      rw [if_neg (Std.not_lt.mpr (hbefore sl mem_cons_self)),
        ih (C := C) hT ⟨rfl, fun t ht => hbefore t (mem_cons_of_mem _ ht), hbehind⟩ hn', lastHead_cons]
      cases lastHead C <;> rfl

theorem Serves.find_eq_scan {R : Set (Registration H)} (h : Serves s T R) (x : ObjId) :
    ∃ s' p, s.subtreeFindPrev x none = .ok (s', p) ∧ s.scan x = .ok p := by
  obtain ⟨C, D, s', hcut, hrun, -, -⟩ := subtreeFindPrev_spec h.stands h.cached x (.inl rfl)
  refine ⟨s', lastHead C, hrun, ?_⟩
  unfold Context.scan
  rw [show s.first = _ from h.stands.first, scanLoop_spec h.stands.holds.listed hcut h.stands.holds.length_le]
  rw [Option.or_none]

/-- A name of two or more subidentifiers. -/
def Op.Proper : Op H → Prop
  | .register a => a.toRange.Proper ∧ 2 ≤ a.name.length
  | .unregister r => r.Proper ∧ 2 ≤ r.name.length
  | .find _ => True

/-- One step after another, each of which is allowed. -/
abbrev Reaches (null : H) (allowed : Ledger H → Op H → Prop) : Ledger H → Ledger H → Prop :=
  ReflTransGen fun l l' => ∃ op, allowed l op ∧ l.step null op = .ok l'

/-- A new context, or one that has been given its roots. -/
inductive Starts (null : H) : Ledger H → Prop
  | fresh (n : Nat) : Starts null ⟨Context.fresh n, []⟩
  | setup {n : Nat} {s : Context H} (h : Context.setupTree null (Context.fresh n) = .ok s) : Starts null ⟨s, roots null⟩

theorem Starts.kept {l : Ledger H} (h : Starts null l) : l.Kept ∧ (l.entries = [] ∨ roots null ⊆ l.entries) := by
  cases h with
  | fresh n => exact ⟨⟨[], setOf_nil (H := H) ▸ serves_fresh n⟩, .inl rfl⟩
  | @setup n s h =>
    obtain ⟨s', T, hrun, hs'⟩ := setupTree_spec n null
    obtain rfl : s' = s := Except.ok.inj (hrun.symm.trans h)
    exact ⟨⟨T, hs'⟩, .inr fun _ h => h⟩

theorem not_named_root {e : Registration H} (he : e ∈ roots null) (hlen : 2 ≤ r.name.length) :
    ¬ Named r.name r.priority e := by
  rintro ⟨hname, -⟩
  obtain ⟨v, rfl⟩ := exists_root he
  rw [← hname] at hlen
  exact absurd hlen (Nat.not_succ_le_self 1)

theorem Ledger.step_proper (h : l.Kept) (hroots : l.entries = [] ∨ roots null ⊆ l.entries) (hop : op.Proper) :
    ∃ l', l.step null op = .ok l' ∧ l'.Kept ∧ (l'.entries = [] ∨ roots null ⊆ l'.entries) := by
  cases op with
  | register a =>
    obtain ⟨T, h⟩ := h
    have hplace : l.entries = [] ∨ Place T (setOf l.entries) a :=
      hroots.imp_right fun hsub => .inl (below_roots null hop.1.arc fun _ hr => hsub hr)
    obtain ⟨l', hstep, hkept, hmem⟩ := Ledger.step_register h null hop.1 hplace
    refine ⟨l', hstep, hkept, .inr fun e he => hmem e ?_⟩
    unfold withRoots
    split
    · exact he
    · next hne => exact hroots.resolve_left (fun hnil => hne (List.isEmpty_iff.mpr hnil)) he
  | unregister r =>
    obtain ⟨l', hstep, hkept, hmem, hsub⟩ := Ledger.step_unregister h null hop.1.one
    refine ⟨l', hstep, hkept, ?_⟩
    rcases hroots with hnil | hroots
    · exact .inl (eq_nil_of_subset_nil (hnil ▸ hsub))
    · exact .inr fun e he => hmem e (hroots he) (not_named_root he hop.2)
  | find x =>
    obtain ⟨l', hstep, hkept, hentries⟩ := Ledger.step_find h null x
    exact ⟨l', hstep, hkept, hentries ▸ hroots⟩

theorem reaches_kept {l₀ : Ledger H} (h₀ : Starts null l₀) (h : Reaches null (fun _ op => op.Proper) l₀ l) :
    l.Kept ∧ (l.entries = [] ∨ roots null ⊆ l.entries) := by
  induction h with
  | refl => exact h₀.kept
  | tail _ hstep ih =>
    obtain ⟨op, hop, hstep⟩ := hstep
    obtain ⟨l', hstep', hkept⟩ := Ledger.step_proper ih.1 ih.2 hop
    obtain rfl := Except.ok.inj (hstep.symm.trans hstep')
    exact hkept

/-- Whatever the cache holds, a search finds the last node that does not start behind the name. -/
theorem subtreeFindPrev_eq_scan {l₀ : Ledger H} (h₀ : Starts null l₀)
    (h : Reaches null (fun _ op => op.Proper) l₀ l) (x : ObjId) :
    ∃ s' p, l.context.subtreeFindPrev x none = .ok (s', p) ∧ l.context.scan x = .ok p := by
  obtain ⟨⟨T, hT⟩, -⟩ := reaches_kept h₀ h
  exact hT.find_eq_scan x

theorem subtreeFindPrev_eq_scan_example :
    ∃ l : Ledger Nat,
      (⟨Context.fresh 8, []⟩ : Ledger Nat).step 0 (.register ⟨⟨[1, 3], 127, 0, 0⟩, none, none, 7⟩) = .ok l ∧
      ∃ s' p, l.context.subtreeFindPrev [1, 5] none = .ok (s', p) ∧ l.context.scan [1, 5] = .ok p := by
  have hop : (Op.register ⟨⟨[1, 3], 127, 0, 0⟩, none, none, 7⟩ : Op Nat).Proper := by
    refine ⟨⟨rfl, ?_, ⟨1, rfl, by decide⟩, ⟨3, rfl, by decide⟩⟩, ?_⟩
    · decide
    · decide
  have hstart : Starts 0 (⟨Context.fresh 8, []⟩ : Ledger Nat) := .fresh 8
  obtain ⟨l, hstep, -⟩ := Ledger.step_proper hstart.kept.1 hstart.kept.2 hop
  exact ⟨l, hstep, subtreeFindPrev_eq_scan hstart (.single ⟨_, hop, hstep⟩) [1, 5]⟩

/-! ## the order of the steps -/

/-- Two runs that leave the same registrations send every request to the same one, whatever else they have done. -/
theorem dispatch_of_entries (h₀ : Starts null l₀) (h : Reaches null (fun _ op => op.Proper) l₀ l)
    (h₀' : Starts null l₀') (h' : Reaches null (fun _ op => op.Proper) l₀' l')
    (hsame : ∀ e, e ∈ l.entries ↔ e ∈ l'.entries) (x : ObjId) : l.context.dispatch x = l'.context.dispatch x := by
  obtain ⟨⟨T, hT⟩, -⟩ := reaches_kept h₀ h
  obtain ⟨⟨T', hT'⟩, -⟩ := reaches_kept h₀' h'
  have hset : setOf l.entries = setOf l'.entries := Set.ext hsame
  exact hT.dispatch_congr (hset ▸ hT') x

theorem dispatch_of_entries_find : ∃ (s : Context Nat) (l : Ledger Nat), Context.setupTree 0 (Context.fresh 8) = .ok s ∧
    (⟨s, roots 0⟩ : Ledger Nat).step 0 (.find [1, 3]) = .ok l ∧ ∀ x, l.context.dispatch x = s.dispatch x := by
  obtain ⟨s, T, hs, -⟩ := setupTree_spec 8 0
  have hstart : Starts 0 ⟨s, roots 0⟩ := .setup hs
  obtain ⟨l, hstep, -, hentries⟩ := Ledger.step_find hstart.kept.1 0 [1, 3]
  exact ⟨s, l, hs, hstep, dispatch_of_entries hstart (.single ⟨.find [1, 3], trivial, hstep⟩) hstart .refl fun e => hentries ▸ .rfl⟩

/-- A registration that is taken back leaves no trace. -/
theorem unregister_undoes (h₀ : Starts null l₀) (h : Reaches null (fun _ op => op.Proper) l₀ l)
    (hentries : l.entries ≠ []) (ha : (Op.register a).Proper) (hpriority : 0 ≤ a.priority ∧ a.priority ≤ 255)
    (hok : Context.registerMib2 null l.context a = .ok (s, .registeredOk)) :
    ∃ s', s.unregisterMibContext a.toRange = .ok (s', .unregisteredOk, a.name) ∧
      ∀ x, s'.dispatch x = l.context.dispatch x := by
  obtain ⟨⟨T, hT⟩, hroots⟩ := reaches_kept h₀ h
  have hsub := hroots.resolve_left hentries
  have hwith : withRoots null l.entries = l.entries := if_neg fun hempty => hentries (List.isEmpty_iff.mp hempty)
  have hnamed : Named a.name a.priority a.reg := by
    refine ⟨counted_of_lt (ha.1.length.trans_lt (by decide)), ?_⟩
    show ((a.priority % 256).toNat : Int) = a.priority
    omega
  rcases Ledger.registers hT null ha.1 (.inr (.inl (below_roots null ha.1.arc fun _ hr => hsub hr))) with
    ⟨-, s₁, T₁, hrun, -⟩ | ⟨hnew, s₁, T₁, hrun, hs₁⟩
  · cases hok.symm.trans hrun
  · obtain rfl : s = s₁ := congrArg Prod.fst (Except.ok.inj (hok.symm.trans hrun))
    rw [hwith] at hnew hs₁
    rcases hs₁.unregister (Context.Range.orig_eq_none ha.1.one) with ⟨-, s', T', hgone, hs'⟩ | ⟨hno, -, -⟩
    · have hback : {r ∈ insert a.reg (setOf l.entries) | ¬ Named a.name a.priority r} = setOf l.entries := by
        ext r
        constructor
        · rintro ⟨rfl | hr, hnot⟩
          · exact absurd hnamed hnot
          · exact hr
        · refine fun hr => ⟨.inr hr, fun hlike => hnew ⟨r, hr, hlike.1, ?_⟩⟩
          exact_mod_cast hlike.2.trans hnamed.2.symm
      exact ⟨s', hgone, fun x => Serves.dispatch_congr hs' (hback ▸ hT) x⟩
    · exact absurd ⟨a.reg, .inl rfl, hnamed⟩ hno

theorem unregister_undoes_example :
    ∃ s₀ s s' : Context Nat, Context.setupTree 0 (Context.fresh 8) = .ok s₀ ∧
      Context.registerMib2 0 s₀ ⟨⟨[1, 3], 127, 0, 0⟩, none, none, 7⟩ = .ok (s, .registeredOk) ∧
      s.unregisterMibContext ⟨[1, 3], 127, 0, 0⟩ = .ok (s', .unregisteredOk, [1, 3]) ∧
      ∀ x, s'.dispatch x = s₀.dispatch x := by
  obtain ⟨s₀, T, hs₀, hserves⟩ := setupTree_spec 8 0
  have hop : (Op.register ⟨⟨[1, 3], 127, 0, 0⟩, none, none, 7⟩ : Op Nat).Proper :=
    ⟨⟨rfl, by decide, ⟨1, rfl, by decide⟩, ⟨3, rfl, by decide⟩⟩, by decide⟩
  have hplace := below_roots 0 hop.1.arc fun _ (hr : _ ∈ roots 0) => hr
  rcases @Ledger.registers Nat _ ⟨⟨[1, 3], 127, 0, 0⟩, none, none, 7⟩ ⟨s₀, roots 0⟩ hserves 0 hop.1
    (.inr (.inl hplace)) with ⟨⟨r, hr, hname, -⟩, -⟩ | ⟨-, s, -, hrun, -⟩
  · obtain ⟨v, rfl⟩ := exists_root hr
    cases hname
  · obtain ⟨s', hgone, hsame⟩ := unregister_undoes (.setup hs₀) .refl (cons_ne_nil _ _) hop (by decide) hrun
    exact ⟨s₀, s, s', hs₀, hrun, hgone, hsame⟩

/-! ## with the roots -/

theorem Nodes.unique {c : Ptr → Option (Subtree H)} {P Q : Subtree H → Prop} {i : Option Ptr} {items items' : Items H}
    (h : Nodes c P i items) (h' : Nodes c Q i items') : items = items' := by
  induction items generalizing i items' with
  | nil =>
    cases items' with
    | nil => rfl
    | cons y items' =>
      obtain rfl : i = none := h
      cases h'.1
  | cons y items ih =>
    obtain ⟨rfl, nd, hnd, hr, -, -, hrest⟩ := h
    cases items' with
    | nil => cases h'
    | cons y' items' =>
      obtain ⟨p, e⟩ := y
      obtain ⟨p', e'⟩ := y'
      obtain ⟨hp, nd', hnd', hr', -, -, hrest'⟩ := h'
      obtain rfl : p = p' := Option.some.inj hp
      obtain rfl : nd = nd' := Option.some.inj (hnd.symm.trans hnd')
      obtain rfl : e = e' := hr.symm.trans hr'
      rw [ih hrest hrest']

theorem Listed.unique {c : Ptr → Option (Subtree H)} {k k' : Option Pred} (h : Listed c k T none)
    (h' : Listed c k' T' none) (hleads : leads T none = leads T' none) : T = T' := by
  induction T generalizing k k' T' with
  | nil =>
    cases T' with
    | nil => rfl
    | cons sl T' => cases hleads
  | cons sl T ih =>
    cases T' with
    | nil => cases hleads
    | cons sl' T' =>
      have hsl := h'.1
      rw [show sl'.top.1 = sl.top.1 from (Option.some.inj hleads).symm] at hsl
      have hitems : sl.items = sl'.items := Nodes.unique h.1 hsl
      obtain ⟨nd, hnd, -, hsits, -⟩ := h.1.mem (p := sl.top.1) mem_cons_self
      obtain ⟨nd', hnd', -, hsits', -⟩ := h'.1.mem (p := sl'.top.1) mem_cons_self
      obtain ⟨htop, hunder⟩ := List.cons.inj (show sl.top :: sl.under = sl'.top :: sl'.under from hitems)
      rw [← htop, hnd, Option.some.injEq] at hnd'
      subst hnd'
      obtain rfl := ih h.2 h'.2 (hsits.next.symm.trans hsits'.next)
      obtain ⟨start, stop, top, under⟩ := sl
      obtain ⟨start', stop', top', under'⟩ := sl'
      obtain rfl : start = start' := hsits.start.symm.trans hsits'.start
      obtain rfl : stop = stop' := hsits.stop.symm.trans hsits'.stop
      obtain rfl : top = top' := htop
      obtain rfl : under = under' := hunder
      rfl

theorem Stands.unique (h : Stands s T) (h' : Stands s T') : T = T' :=
  h.holds.listed.unique h'.holds.listed (h.first.symm.trans h'.first)

/-- A registration of one name below the roots, or the unregistration of one that is registered. -/
def Ledger.Asked (l : Ledger H) : Op H → Prop
  | .register a => a.toRange.Proper ∧ 2 ≤ a.name.length ∧ 1 ≤ a.priority ∧ a.priority ≤ 255
  | .unregister r => r.rangeSubid = 0 ∧ ∃ e ∈ l.entries, Named r.name r.priority e
  | .find _ => True

/-- A name that is registered has a place in the tree. -/
def Ledger.HasPlace (l : Ledger H) : Op H → Prop
  | .register a => ∃ T, Stands l.context T ∧ Place T (setOf l.entries) a
  | _ => True

/-- The tree is in order, and requests go to whom they should. -/
structure Ledger.InOrder (l : Ledger H) : Prop where
  tree : ∃ T, Stands l.context T ∧ AllOrdered T
  dispatch : ∀ x, (∃ e, l.context.dispatch x = .ok (some e) ∧ Served (setOf l.entries) x e) ∨
    (l.context.dispatch x = .ok none ∧ ∀ e ∈ l.entries, ¬ e.name <+: x)

theorem Ledger.Kept.inOrder (h : l.Kept) : l.InOrder := by
  obtain ⟨T, hT⟩ := h
  exact ⟨⟨T, hT.stands, hT.ordered⟩, hT.dispatch_spec⟩

theorem Ledger.step_place (null : H) (h : l.Kept) (hop : l.Asked op) (hplace : l.HasPlace op) :
    ∃ l', l.step null op = .ok l' ∧ l'.Kept := by
  cases op with
  | register a =>
    obtain ⟨T, h⟩ := h
    obtain ⟨T', hT', hplace⟩ := hplace
    obtain rfl := h.stands.unique hT'
    obtain ⟨l', hstep, hkept, -⟩ := Ledger.step_register h null hop.1 (.inr hplace)
    exact ⟨l', hstep, hkept⟩
  | unregister r =>
    obtain ⟨l', hstep, hkept, -⟩ := Ledger.step_unregister h null hop.1
    exact ⟨l', hstep, hkept⟩
  | find x =>
    obtain ⟨l', hstep, hkept, -⟩ := Ledger.step_find h null x
    exact ⟨l', hstep, hkept⟩

/-- In a run in which every name has a place the tree stays in order. -/
theorem registry_inOrder {s : Context H} (h₀ : Context.setupTree null (Context.fresh n) = .ok s)
    (h : Reaches null (fun l op => l.Asked op ∧ l.HasPlace op) ⟨s, roots null⟩ l) : l.InOrder := by
  have hkept : l.Kept := by
    induction h with
    | refl => exact (Starts.setup h₀).kept.1
    | tail _ hstep ih =>
      obtain ⟨op, ⟨hop, hplace⟩, hstep⟩ := hstep
      obtain ⟨l', hstep', hkept⟩ := Ledger.step_place null ih hop hplace
      obtain rfl := Except.ok.inj (hstep.symm.trans hstep')
      exact hkept
  exact hkept.inOrder

theorem registry_inOrder_example :
    ∃ (s : Context Nat) (l : Ledger Nat), Context.setupTree 0 (Context.fresh 8) = .ok s ∧
      (⟨s, roots 0⟩ : Ledger Nat).step 0 (.register ⟨⟨[1, 3], 127, 0, 0⟩, none, none, 7⟩) = .ok l ∧ l.InOrder := by
  obtain ⟨s, T, hs, hserves⟩ := setupTree_spec 8 0
  have hproper : (⟨[1, 3], 127, 0, 0⟩ : Context.Range).Proper := ⟨rfl, by decide, ⟨1, rfl, by decide⟩, ⟨3, rfl, by decide⟩⟩
  have hplace : (⟨s, roots 0⟩ : Ledger Nat).HasPlace (.register ⟨⟨[1, 3], 127, 0, 0⟩, none, none, 7⟩) :=
    ⟨T, hserves.stands, .inl (below_roots 0 hproper.arc fun _ hr => hr)⟩
  have hasked : (⟨s, roots 0⟩ : Ledger Nat).Asked (.register ⟨⟨[1, 3], 127, 0, 0⟩, none, none, 7⟩) :=
    ⟨hproper, by decide, by decide, by decide⟩
  obtain ⟨l, hstep, -⟩ := Ledger.step_place 0 (Starts.setup hs).kept.1 hasked hplace
  exact ⟨s, l, hs, hstep, registry_inOrder hs (.single ⟨_, ⟨hasked, hplace⟩, hstep⟩)⟩

/-- The root 1 is unregistered, and [1, 3] is registered where it was: the root 2 is lost. -/
theorem not_registry_inOrder :
    ¬ ∀ (s : Context Nat) (l : Ledger Nat), Context.setupTree 0 (Context.fresh 8) = .ok s →
      Reaches 0 Ledger.Asked ⟨s, roots 0⟩ l → l.InOrder := by
  intro hall
  have hrun : (Context.setupTree 0 (Context.fresh 8) >>= fun s =>
      (⟨s, roots 0⟩ : Ledger Nat).step 0 (.unregister ⟨[1], 0, 0, 0⟩) >>= fun l₁ =>
      l₁.step 0 (.register ⟨⟨[1, 3], 127, 0, 0⟩, none, none, 7⟩) >>= fun l₂ =>
      l₂.context.dispatch [2] >>= fun found => .ok (decide (root 0 2 ∈ l₂.entries), found.map (·.handler))) =
        .ok (true, none) := by
    decide +kernel
  obtain ⟨s, hs, hrun⟩ := Lib.exists_of_bind_ok hrun
  obtain ⟨l₁, hl₁, hrun⟩ := Lib.exists_of_bind_ok hrun
  obtain ⟨l₂, hl₂, hrun⟩ := Lib.exists_of_bind_ok hrun
  obtain ⟨found, hfound, hrun⟩ := Lib.exists_of_bind_ok hrun
  obtain ⟨hmem, hnone⟩ := Prod.mk.inj (Except.ok.inj hrun)
  rw [decide_eq_true_eq] at hmem
  obtain rfl : found = none := Option.map_eq_none_iff.mp hnone
  have hunregister : (⟨s, roots 0⟩ : Ledger Nat).Asked (.unregister ⟨[1], 0, 0, 0⟩) :=
    ⟨rfl, root 0 1, root_mem 0 (by decide), rfl, rfl⟩
  have hregister : l₁.Asked (.register ⟨⟨[1, 3], 127, 0, 0⟩, none, none, 7⟩) :=
    ⟨⟨rfl, by decide, ⟨1, rfl, by decide⟩, ⟨3, rfl, by decide⟩⟩, by decide, by decide, by decide⟩
  have hreaches : Reaches 0 Ledger.Asked ⟨s, roots 0⟩ l₂ :=
    .tail (.single ⟨_, hunregister, hl₁⟩) ⟨_, hregister, hl₂⟩
  rcases (hall s l₂ hs hreaches).dispatch [2] with ⟨e, he, -⟩ | ⟨-, hno⟩
  · rw [hfound] at he
    cases he
  · exact hno _ hmem prefix_rfl

end Priot.Registry
