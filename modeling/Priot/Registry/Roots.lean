/-
# The three roots

An empty tree is given the names 0, 1 and 2 with the null handler, and `AgentRegistry_setupTree` asks for them once
more. From then on every name of two or more subidentifiers that starts with one of them is below a registered one.
-/
import Priot.Registry.Dispatch

namespace Priot.Registry

open Lib Lib.Slice List

variable {H : Type} {s s' : Context H} {T : List (Chain H)} {R : Set (Registration H)} {null : H} {r : Registration H}
  {x : ObjId} {a : Context.Registering H} {v : Oid}

/-! ## what they are -/

/-- What is registered for a root. -/
def root (null : H) (v : Oid) : Registration H := ⟨[v], 0, none, null⟩

def roots (null : H) : List (Registration H) := [root null 2, root null 1, root null 0]

def setOf (l : List (Registration H)) : Set (Registration H) := {r | r ∈ l}

/-- What `Null_registerNull` asks for. -/
def rootRegistering (null : H) (v : Oid) : Context.Registering H :=
  { name := [v], priority := 0, rangeSubid := 0, rangeUbound := 0, vars := none, session := none, handler := null }

theorem plain_root (null : H) (h : v ≠ 4294967295) : (rootRegistering null v).Plain := by
  refine ⟨?_, ⟨v, rfl, h⟩, rfl⟩
  show 1 < 256
  decide

theorem root_mem (null : H) (hv : v ≤ 2) : root null v ∈ roots null := by
  have hv : v = 0 ∨ v = 1 ∨ v = 2 := by
    rw [UInt32.le_iff_toNat_le] at hv
    simp only [← UInt32.toNat_inj]
    simp only [UInt32.reduceToNat] at hv ⊢
    omega
  rcases hv with rfl | rfl | rfl
  · exact .tail _ (.tail _ (.head _))
  · exact .tail _ (.head _)
  · exact .head _

theorem setOf_cons (r : Registration H) (l : List (Registration H)) : setOf (r :: l) = insert r (setOf l) := by
  ext r'
  exact mem_cons

theorem setOf_nil : setOf ([] : List (Registration H)) = ∅ := by
  ext r
  exact mem_nil_iff r

/-! ## how they get there -/

theorem Serves.nil (h : Serves s T ∅) : T = [] := by
  cases T with
  | nil => rfl
  | cons t T =>
    have hover : t.Over t.start := ⟨Std.le_refl _, h.stands.sliced.proper t mem_cons_self⟩
    obtain ⟨hr, -⟩ := (h.carries t.start t.top.2).mp
      (carries_regsOf.mpr ⟨t, mem_cons_self, hover, mem_cons_self⟩)
    exact absurd hr (Set.notMem_empty _)

theorem serves_fresh (n : Nat) : Serves (Context.fresh n : Context H) [] ∅ := by
  refine ⟨⟨⟨trivial, nodup_nil, nofun⟩, rfl, Sliced.nil⟩, nofun, Cached.empty _ _ rfl rfl, fun x r => ?_⟩
  constructor
  · rintro ⟨_, hr, -⟩
    cases hr
  · exact fun hr => absurd hr.1 (Set.notMem_empty _)

theorem Serves.plant (h : Serves s T R) (h0 : s.lookupCacheSize = 0) (null : H) (hv : v ≠ 4294967295)
    (hR : ∀ r ∈ R, ∃ w < v, r = root null w) (halone : ∀ t ∈ T.getLast?, t.under = []) :
    ∃ s' t, s.registerNullContext null [v] = .ok (s', .registeredOk) ∧ Serves s' (T ++ [t]) (insert (root null v) R) ∧
      s'.lookupCacheSize = 0 ∧ s'.mem.brk = s.mem.brk + 1 ∧ t.under = [] ∧ addrs [t] = [s.mem.brk] ∧
      ∀ q, q ∉ addrs T → q ≠ s.mem.brk → s'.mem.cells q = s.mem.cells q := by
  have hbehind : Behind T R (rootRegistering null v) := by
    refine ⟨fun r hr => ?_, halone⟩
    obtain ⟨w, hw, rfl⟩ := hR r hr
    exact cons_lt_cons_iff.mpr (.inl hw)
  have hfree : ∀ r ∈ R, ¬ r.name <+: (rootRegistering null v).name := by
    intro r hr habove
    obtain ⟨w, hw, rfl⟩ := hR r hr
    obtain rfl : w = v := (cons_prefix_cons.mp habove).1
    exact UInt32.lt_irrefl _ hw
  have hload : LoadsHere (fun s p => Context.subtreeLoadLoop (s.mem.brk + 1) s p) s (rootRegistering null v) := rfl
  obtain ⟨s', hrun, hs', h0', hb, hc⟩ := h.append (plain_root null hv) hbehind hfree hload
  exact ⟨s', _, hrun, hs', h0' h0, hb, rfl, rfl, hc⟩

/-- What `AgentRegistry_subtreeLoad` does in an empty tree before it loads a node. -/
def plantRoots (null : H) (s : Context H) : Except Fault (Context H) := do
  let (s, _) ← s.registerNullContext null [0]
  let (s, _) ← s.registerNullContext null [1]
  let (s, _) ← s.registerNullContext null [2]
  .ok s

theorem Serves.plantRoots (h : Serves s T ∅) (null : H) (a : Context.Registering H) :
    ∃ s' T', plantRoots null (s.withNode a) = .ok s' ∧ Loading s' T' (setOf (roots null)) a s.mem.brk := by
  obtain rfl := h.nil
  have hl := h.loading a
  have hserves : Serves (s.withNode a) [] ∅ := ⟨hl.stands, hl.ordered, Cached.zero _ _, hl.carries⟩
  obtain ⟨s₀, t₀, hrun₀, hs₀, h0₀, hb₀, hu₀, ha₀, hc₀⟩ := hserves.plant rfl null (v := 0) (by decide)
    (fun r hr => absurd hr (Set.notMem_empty _)) nofun
  obtain ⟨s₁, t₁, hrun₁, hs₁, h0₁, hb₁, hu₁, ha₁, hc₁⟩ := hs₀.plant h0₀ null (v := 1) (by decide)
    (fun r hr => ⟨0, by decide, by simpa using hr⟩) (by simpa using hu₀)
  obtain ⟨s₂, t₂, hrun₂, hs₂, h0₂, hb₂, hu₂, ha₂, hc₂⟩ := hs₁.plant h0₁ null (v := 2) (by decide)
    (fun r hr => (Set.mem_insert_iff.mp hr).elim (fun h => ⟨1, by decide, h⟩) fun h => ⟨0, by decide, by simpa using h⟩)
    (by simpa using hu₁)
  -- the node to be loaded was allocated before theirs
  have hlt₀ : s.mem.brk < (s.withNode a).mem.brk := Nat.lt_succ_self _
  have hlt₁ : s.mem.brk < s₀.mem.brk := by
    rw [hb₀]
    exact Nat.lt_succ_of_lt hlt₀
  have hlt₂ : s.mem.brk < s₁.mem.brk := by
    rw [hb₁]
    exact Nat.lt_succ_of_lt hlt₁
  have hapart (A : List (Chain H)) (hA : ∀ q ∈ addrs A, s.mem.brk < q) : s.mem.brk ∉ addrs A :=
    fun hmem => (hA _ hmem).false
  have haddrs₀ : addrs ([] ++ [t₀]) = [(s.withNode a).mem.brk] := ha₀
  have haddrs₁ : addrs ([] ++ [t₀] ++ [t₁]) = [(s.withNode a).mem.brk, s₀.mem.brk] := by
    rw [addrs_append, haddrs₀, ha₁]
    rfl
  have hset : insert (root null 2) (insert (root null 1) (insert (root null 0) ∅)) = setOf (roots null) := by
    rw [roots, setOf_cons, setOf_cons, setOf_cons, setOf_nil]
  refine ⟨s₂, _, ?_, hs₂.stands, h0₂, hs₂.ordered, fun x r => hset ▸ hs₂.carries x r, ?_, ?_, ?_⟩
  · unfold Registry.plantRoots
    rw [hrun₀, ok_bind]
    simp only []
    rw [hrun₁, ok_bind]
    simp only []
    rw [hrun₂]
    rfl
  · rw [hc₂ _ (hapart _ ?_) hlt₂.ne, hc₁ _ (hapart _ ?_) hlt₁.ne, hc₀ _ not_mem_nil hlt₀.ne]
    · exact hl.cell
    · rw [haddrs₀]
      exact forall_mem_singleton.mpr hlt₀
    · rw [haddrs₁]
      exact forall_mem_cons.mpr ⟨hlt₀, forall_mem_singleton.mpr hlt₁⟩
  · refine hapart _ ?_
    rw [addrs_append, haddrs₁, ha₂]
    exact forall_mem_cons.mpr ⟨hlt₀, forall_mem_cons.mpr ⟨hlt₁, forall_mem_singleton.mpr hlt₂⟩⟩
  · rw [hb₂]
    exact Nat.lt_succ_of_lt hlt₂

theorem Serves.registers_empty (h : Serves s T ∅) (ha : a.Plain) (hbelow : Below (setOf (roots null)) a) :
    Registers (Context.subtreeLoad null) s (setOf (roots null)) a := by
  obtain ⟨s₁, T₁, hplant, hloading⟩ := h.plantRoots null a
  refine hloading.registers ha hbelow ?_
  have hfirst : (s.withNode a).first = none := by
    show s.first = none
    rw [show s.first = _ from h.stands.first, h.nil]
    rfl
  unfold Context.subtreeLoad
  rw [if_pos hfirst]
  obtain ⟨x₀, h₀, hplant⟩ := Lib.exists_of_bind_ok hplant
  obtain ⟨x₁, h₁, hplant⟩ := Lib.exists_of_bind_ok hplant
  obtain ⟨x₂, h₂, hplant⟩ := Lib.exists_of_bind_ok hplant
  obtain rfl : x₂.1 = s₁ := Except.ok.inj hplant
  rw [h₀, ok_bind]
  show (x₀.1.registerNullContext null [1] >>= _) = _
  rw [h₁, ok_bind]
  show (x₁.1.registerNullContext null [2] >>= _) = _
  rw [h₂]
  rfl

/-! ## names below the roots -/

theorem below_roots (null : H) (hv : ∃ v ∈ a.name.head?, v ≤ 2) (hR : setOf (roots null) ⊆ R) : Below R a := by
  obtain ⟨v, hv, hle⟩ := hv
  have hmem : root null v ∈ R := hR (root_mem null hle)
  obtain ⟨name, hname⟩ : ∃ name, a.name = v :: name := by
    cases h : a.name with
    | nil =>
      rw [h] at hv
      cases hv
    | cons w name =>
      rw [h] at hv
      cases hv
      exact ⟨name, rfl⟩
  refine ⟨⟨root null v, hmem, ?_⟩, root null v, hmem, ?_⟩
  · rw [hname]
    exact ⟨name, rfl⟩
  · rw [hname]
    cases name with
    | nil => exact .inr ⟨rfl, Nat.zero_le _⟩
    | cons w name => exact .inl (cons_lt_cons_iff.mpr (.inr ⟨rfl, nil_lt_cons _ _⟩))

theorem refused_root (hv : v ≤ 2)
    (h : Registers (Context.subtreeLoad null) s (setOf (roots null)) (rootRegistering null v)) :
    ∃ s' T', Context.registerNull null s [v] = .ok (s', .duplicateRegistration) ∧ Serves s' T' (setOf (roots null)) := by
  rcases h with ⟨-, s', T', hrun, hserves⟩ | ⟨hnew, -⟩
  · exact ⟨s', T', hrun, hserves⟩
  · exact absurd ⟨root null v, root_mem null hv, rfl, rfl⟩ hnew

theorem roots_nonempty (null : H) : (setOf (roots null)).Nonempty := ⟨root null 0, root_mem null (by decide)⟩

theorem setupTree_spec (n : Nat) (null : H) :
    ∃ s' T', Context.setupTree null (Context.fresh n) = .ok s' ∧ Serves s' T' (setOf (roots null)) := by
  have hbelow (v : Oid) (hv : v ≤ 2) : Below (setOf (roots null)) (rootRegistering null v) :=
    below_roots null ⟨v, rfl, hv⟩ fun _ h => h
  obtain ⟨s₀, T₀, h₀, hserves₀⟩ := refused_root (v := 0) (by decide)
    ((serves_fresh n).registers_empty (plain_root null (by decide)) (hbelow 0 (by decide)))
  obtain ⟨s₁, T₁, h₁, hserves₁⟩ := refused_root (v := 1) (by decide)
    (hserves₀.registers (plain_root null (by decide)) (.inl (hbelow 1 (by decide)))
      (hserves₀.loadsHere null (roots_nonempty null) _))
  obtain ⟨s₂, T₂, h₂, hserves₂⟩ := refused_root (v := 2) (by decide)
    (hserves₁.registers (plain_root null (by decide)) (.inl (hbelow 2 (by decide)))
      (hserves₁.loadsHere null (roots_nonempty null) _))
  refine ⟨s₂, T₂, ?_, hserves₂⟩
  unfold Context.setupTree
  rw [h₀, ok_bind]
  simp only []
  rw [h₁, ok_bind]
  simp only []
  rw [h₂]
  rfl

/-! ## one registration more -/

/-- One name below the roots, with a last subidentifier that has a next one. -/
structure Context.Range.Proper (r : Context.Range) : Prop where
  one : r.rangeSubid = 0
  length : r.name.length ≤ 128
  arc : ∃ v ∈ r.name.head?, v ≤ 2
  bumps : Bumps r.name

theorem Context.Range.orig_eq_none {r : Context.Range} (h : r.rangeSubid = 0) : r.orig = none := by
  unfold Context.Range.orig Context.Range.subid
  rw [if_neg fun hpos => absurd hpos.1 (h ▸ Int.lt_irrefl 0)]
  rfl

theorem Context.Range.Proper.plain (h : a.toRange.Proper) : a.Plain :=
  ⟨h.length.trans_lt (by decide), h.bumps, h.one⟩

/-- Whom requests below a name go to that was registered next to the roots. -/
def newlyServed (null : H) (a : Context.Registering H) : Registration H :=
  match a.name with
  | [v] => root null v
  | _ => a.reg

theorem exists_root (hr : r ∈ setOf (roots null)) : ∃ v, r = root null v := by
  rcases mem_cons.mp hr with rfl | hr
  · exact ⟨2, rfl⟩
  rcases mem_cons.mp hr with rfl | hr
  · exact ⟨1, rfl⟩
  · exact ⟨0, mem_singleton.mp hr⟩

theorem root_unique {name : ObjId} (hr : r ∈ setOf (roots null)) (habove : r.name <+: x) (hx : v :: name <+: x) :
    r = root null v := by
  obtain ⟨w, rfl⟩ := exists_root hr
  obtain ⟨y, rfl⟩ := habove
  rw [(cons_prefix_cons.mp hx).1]

theorem served_newly (h : a.toRange.Proper) (hp : 1 ≤ a.priority ∧ a.priority ≤ 255) (hx : a.name <+: x) :
    Served (insert a.reg (setOf (roots null))) x (newlyServed null a) := by
  obtain ⟨v, hv, hle⟩ := h.arc
  have hname : a.reg.name = a.name := counted_of_lt h.plain.length
  unfold newlyServed
  split
  · next u hu =>
    obtain rfl : u = v := by
      rw [hu] at hv
      exact Option.some.inj hv
    rw [hu] at hx hname
    refine ⟨.inr (root_mem null hle), hx, ?_⟩
    rintro r (rfl | hr) habove
    · refine .inr (.inr ⟨?_, ?_⟩)
      · rw [hname]
        rfl
      · show 0 < (a.priority % 256).toNat
        omega
    · exact .inl (root_unique hr habove hx)
  · next hne =>
    refine ⟨.inl rfl, hname ▸ hx, ?_⟩
    rintro r (rfl | hr) habove
    · exact .inl rfl
    · refine .inr (.inl ?_)
      obtain ⟨w, rfl⟩ := exists_root hr
      rw [hname]
      show 1 < a.name.length
      cases hn : a.name with
      | nil =>
        rw [hn] at hv
        cases hv
      | cons u name =>
        cases name with
        | nil => exact absurd hn (hne u)
        | cons w name => exact Nat.succ_lt_succ (Nat.succ_pos _)

/-- A registration takes effect for every name below it, and nowhere else. -/
theorem registered_dispatch (n : Nat) (null : H) (a : Context.Registering H) (h : a.toRange.Proper)
    (hp : 1 ≤ a.priority ∧ a.priority ≤ 255) :
    ∃ s s', Context.setupTree null (Context.fresh n) = .ok s ∧
      Context.registerMib2 null s a = .ok (s', .registeredOk) ∧
      ∀ x, (a.name <+: x → s'.dispatch x = .ok (some (newlyServed null a))) ∧
        (¬ a.name <+: x → s'.dispatch x = s.dispatch x) := by
  obtain ⟨s, T, hsetup, hs⟩ := setupTree_spec n null
  have hname : a.reg.name = a.name := counted_of_lt h.plain.length
  rcases hs.registers h.plain (.inl (below_roots null h.arc fun _ hr => hr)) (hs.loadsHere null (roots_nonempty null) a) with
    ⟨⟨r, hr, -, hpriority⟩, -⟩ | ⟨-, s', T', hrun, hs'⟩
  · -- the roots have priority 0
    obtain ⟨v, rfl⟩ := exists_root hr
    have hzero : 0 = (a.priority % 256).toNat := hpriority
    omega
  · refine ⟨s, s', hsetup, hrun, fun x => ⟨fun hx => ?_, fun hx => ?_⟩⟩
    · exact hs'.dispatch_eq (served_newly h hp hx)
    · exact hs.dispatch_insert hs' (hname ▸ hx)

theorem registered_dispatch_example :
    ∃ s s' : Context Nat, Context.setupTree 0 (Context.fresh 8) = .ok s ∧
      Context.registerMib2 0 s ⟨⟨[1, 3], 127, 0, 0⟩, none, none, 7⟩ = .ok (s', .registeredOk) ∧
      s'.dispatch [1, 3, 6] = .ok (some ⟨[1, 3], 127, none, 7⟩) ∧ s'.dispatch [1, 4] = s.dispatch [1, 4] := by
  obtain ⟨s, s', hs, hs', hx⟩ := registered_dispatch 8 0 ⟨⟨[1, 3], 127, 0, 0⟩, none, none, 7⟩
    ⟨rfl, by decide, ⟨1, rfl, by decide⟩, ⟨3, rfl, by decide⟩⟩ (by decide)
  exact ⟨s, s', hs, hs', (hx [1, 3, 6]).1 (by decide), (hx [1, 4]).2 (by decide)⟩

/-- A root does not have the default priority: what is registered for its name with less comes behind it. -/
theorem not_registered_dispatch :
    ¬ ∀ (a : Context.Registering Nat) (s s' : Context Nat),
      a.rangeSubid = 0 → 1 ≤ a.name.length ∧ a.name.length ≤ 128 → (∃ v ∈ a.name.head?, v ≤ 2) →
      1 ≤ a.priority ∧ a.priority ≤ 255 → Context.setupTree 0 (Context.fresh 8) = .ok s →
      Context.registerMib2 0 s a = .ok (s', .registeredOk) → ∀ x, a.name <+: x →
        s'.dispatch x = .ok (some (if a.name.length = 1 ∧ 127 < a.priority then newlyServed 0 a else a.reg)) := by
  intro hall
  have hrun : (Context.setupTree 0 (Context.fresh 8) >>= fun s =>
      Context.registerMib2 0 s ⟨⟨[1], 100, 0, 0⟩, none, none, 7⟩ >>= fun x => x.1.dispatch [1] >>= fun found =>
      .ok (x.2, found.map (·.handler))) = .ok (.registeredOk, some 0) := by
    decide +kernel
  obtain ⟨s, hs, hrun⟩ := Lib.exists_of_bind_ok hrun
  obtain ⟨⟨s', res⟩, hs', hrun⟩ := Lib.exists_of_bind_ok hrun
  obtain ⟨found, hfound, hrun⟩ := Lib.exists_of_bind_ok hrun
  obtain ⟨rfl, hnull⟩ := Prod.mk.inj (Except.ok.inj hrun)
  have hnew := hall ⟨⟨[1], 100, 0, 0⟩, none, none, 7⟩ s s' rfl (by decide) ⟨1, rfl, by decide⟩ (by decide) hs hs' [1]
    (by decide)
  rw [hfound, Except.ok.injEq] at hnew
  rw [hnew] at hnull
  exact absurd hnull (by decide)

end Priot.Registry
