/-
# What an unregistration that fails leaves behind

`AgentRegistry_unregisterMibContext` turns the lookup cache off, and goes over the names of a range in the caller's
own array. Where a name is not registered it returns from there, and leaves all that as it is.
-/
import Priot.Registry.Load

namespace Priot.Registry

open Lib Lib.Slice List

variable {H : Type} {s s' : Context H} {r : Range} {name name' : ObjId}

namespace Context

/-! ## what there is to change -/

/-- Whom a request for `x` goes to. -/
def dispatch (s : Context H) (x : ObjId) : Except Fault (Option (Registration H)) := do
  let (s', found) ← s.subtreeFind x none
  s'.mem.regOf found

/-- The node that is to be unloaded for a name of a range, as `AgentRegistry_unregisterMibContext` looks for it. -/
def registeredNode (s : Context H) (name : ObjId) (priority : Int) : Except Fault (Option Ptr) := do
  let (_, list) ← s.subtreeFind name s.first
  match list with
  | none => .ok none
  | some list => do
    let (_, child) ← findRegistered s.mem name priority list
    .ok child

/-- What the caller can see of a call: whom requests go to, the size of the lookup cache, and the array. -/
structure Unchanged (s s' : Context H) (name name' : ObjId) : Prop where
  dispatch : ∀ x, s'.dispatch x = s.dispatch x
  lookupCacheSize : s'.lookupCacheSize = s.lookupCacheSize
  name : name' = name

/-! ## one name -/

theorem subtreeFindPrev_uncached (h0 : s.lookupCacheSize = 0) {x : ObjId} {t p : Option Ptr}
    (h : s.subtreeFindPrev x t = .ok (s', p)) : s' = s := by
  unfold subtreeFindPrev at h
  obtain ⟨o, -, h⟩ := exists_of_bind_ok h
  obtain ⟨⟨previous, stopped⟩, -, h⟩ := exists_of_bind_ok h
  simp only [] at h
  rw [if_neg fun hc => hc.2.1 h0] at h
  cases h
  rfl

theorem subtreeFind_uncached (h0 : s.lookupCacheSize = 0) {x : ObjId} {t p : Option Ptr}
    (h : s.subtreeFind x t = .ok (s', p)) : s' = s := by
  unfold subtreeFind at h
  obtain ⟨⟨s₁, q⟩, hprev, h⟩ := exists_of_bind_ok h
  have hs := subtreeFindPrev_uncached h0 hprev
  cases q with
  | none =>
    cases h
    exact hs
  | some q =>
    obtain ⟨nd, -, h⟩ := exists_of_bind_ok h
    cases h
    exact hs

theorem registeredNode_eq_none_iff {T : List (Chain H)} (h : Stands s T) (h0 : s.lookupCacheSize = 0) {priority : Int} :
    s.registeredNode name priority = .ok none ↔
      ∀ reg, Carries (regsOf T) name reg → ¬ (reg.name = name ∧ (reg.priority : Int) = priority) := by
  obtain ⟨s₁, found, hfind, -, hfound⟩ := find_uncached h h0 name (.inr rfl)
  unfold registeredNode
  rw [hfind, ok_bind]
  rcases hfound with ⟨A, sl, B, rfl, hover, rfl⟩ | ⟨hnone, rfl⟩
  · obtain ⟨-, hnodes, -⟩ := listed_append.mp h.holds.listed
    have hlen : sl.items.length ≤ s.mem.brk := by
      have hn := h.holds.nodup
      rw [addrs_append, addrs_cons] at hn
      refine items_length_le (nodup_append.mp (nodup_append.mp hn).2.1).1 fun p hp => h.holds.below p ?_
      rw [addrs_append, addrs_cons]
      exact mem_append_right _ (mem_append_left _ hp)
    obtain ⟨pre, post, hl, hpre, hpost, hwalk⟩ := walkChildren_spec
      (fun r => ¬ (r.name = name ∧ (r.priority : Int) = priority)) (w := none) hnodes hlen
    simp only []
    unfold findRegistered
    rw [hwalk, ok_bind]
    cases post with
    | nil =>
      -- The walk has passed the whole chain.
      refine iff_of_true rfl fun reg hreg => ?_
      obtain ⟨t, ht, hovert, hmem⟩ := carries_regsOf.mp hreg
      obtain rfl := h.sliced.over_unique ht (mem_append_right _ mem_cons_self) hovert hover
      obtain ⟨y, hy, rfl⟩ := mem_map.mp hmem
      rw [hl, append_nil] at hy
      exact of_decide_eq_true (hpre y hy)
    | cons y post =>
      refine iff_of_false (fun h => by cases h) fun hall => ?_
      have hy : y ∈ sl.items := hl ▸ mem_append_right _ mem_cons_self
      have hcarried : Carries (regsOf (A ++ sl :: B)) name y.2 :=
        carries_regsOf.mpr ⟨sl, mem_append_right _ mem_cons_self, hover, mem_map_of_mem hy⟩
      exact hpost y rfl (decide_eq_true (hall y.2 hcarried))
  · refine iff_of_true rfl fun reg hreg => ?_
    obtain ⟨t, ht, hover, -⟩ := carries_regsOf.mp hreg
    exact absurd hover (hnone t ht)

theorem subtreeUnload_size {sub : Ptr} {prev : Option Ptr} (h : s.subtreeUnload sub prev = .ok s') :
    s'.lookupCacheSize = s.lookupCacheSize := by
  unfold subtreeUnload at h
  obtain ⟨nd, -, h⟩ := exists_of_bind_ok h
  cases prev with
  | some prev =>
    obtain ⟨mem, -, h⟩ := exists_of_bind_ok h
    cases h
    rfl
  | none =>
    -- The head of a chain goes, with or without a child to take its place.
    simp only [] at h
    split at h
    all_goals
      obtain ⟨mem, -, h⟩ := exists_of_bind_ok h
      obtain ⟨mem', -, h⟩ := exists_of_bind_ok h
      cases h
      rfl

theorem unloadSlices_size {priority : Int} {n : Nat} {list : Option Ptr}
    (h : unloadSlices name priority n s list = .ok s') : s'.lookupCacheSize = s.lookupCacheSize := by
  induction n generalizing s list with
  | zero =>
    cases list with
    | none =>
      cases h
      rfl
    | some list => cases h
  | succ n ih =>
    cases list with
    | none =>
      cases h
      rfl
    | some list =>
      unfold unloadSlices at h
      obtain ⟨nd, -, h⟩ := exists_of_bind_ok h
      obtain ⟨⟨prev, child⟩, -, h⟩ := exists_of_bind_ok h
      cases child with
      | none =>
        cases h
        rfl
      | some child =>
        obtain ⟨s₁, hs, h⟩ := exists_of_bind_ok h
        obtain ⟨mem, -, h⟩ := exists_of_bind_ok h
        calc s'.lookupCacheSize = s₁.lookupCacheSize := @ih { s₁ with mem } nd.next h
          _ = s.lookupCacheSize := subtreeUnload_size hs

theorem unregisterLoop_absent (h0 : s.lookupCacheSize = 0) (n : Nat) (h : s.registeredNode name r.priority = .ok none) :
    unregisterLoop r (n + 1) s name = .ok (s, .noSuchRegistration, name) := by
  unfold registeredNode at h
  obtain ⟨⟨s₁, list⟩, hfind, h⟩ := exists_of_bind_ok h
  obtain rfl := subtreeFind_uncached h0 hfind
  unfold unregisterLoop
  rw [hfind]
  cases list with
  | none => rfl
  | some list =>
    obtain ⟨⟨prev, child⟩, hchild, h⟩ := exists_of_bind_ok h
    cases h
    show (findRegistered s₁.mem name r.priority list >>= _) = _
    rw [hchild]
    rfl

theorem unregisterLoop_failed (h0 : s.lookupCacheSize = 0) {n : Nat}
    (h : unregisterLoop r (n + 1) s name = .ok (s', .noSuchRegistration, name')) :
    (s.registeredNode name r.priority = .ok none ∧ s' = s ∧ name' = name) ∨
      (s.registeredNode name r.priority ≠ .ok none ∧
        ∃ s₁ i orig, r.orig = some (i, orig) ∧ ¬ name.getD i 0 + 1 ≥ orig + r.rangeUbound ∧ s₁.lookupCacheSize = 0 ∧
          unregisterLoop r n s₁ (name.set i (name.getD i 0 + 1)) = .ok (s', .noSuchRegistration, name')) := by
  unfold unregisterLoop at h
  obtain ⟨⟨s₁, list⟩, hfind, h⟩ := exists_of_bind_ok h
  obtain rfl := subtreeFind_uncached h0 hfind
  unfold registeredNode
  rw [hfind]
  cases list with
  | none =>
    cases h
    exact .inl ⟨rfl, rfl, rfl⟩
  | some list =>
    obtain ⟨⟨prev, child⟩, hchild, h⟩ := exists_of_bind_ok h
    show ((findRegistered s₁.mem name r.priority list >>= _) = _ ∧ _) ∨
      ((findRegistered s₁.mem name r.priority list >>= _) ≠ _ ∧ _)
    rw [hchild]
    cases child with
    | none =>
      cases h
      exact .inl ⟨rfl, rfl, rfl⟩
    | some myptr =>
      right
      refine ⟨fun h => (by cases h), ?_⟩
      obtain ⟨s₂, hunload, h⟩ := exists_of_bind_ok h
      obtain ⟨nd, -, h⟩ := exists_of_bind_ok h
      obtain ⟨s₃, hslices, h⟩ := exists_of_bind_ok h
      have hsize : s₃.lookupCacheSize = 0 := by
        rw [unloadSlices_size hslices, subtreeUnload_size hunload, h0]
      cases horig : r.orig with
      | none =>
        rw [horig] at h
        obtain ⟨mem, -, h⟩ := exists_of_bind_ok h
        cases h
      | some io =>
        obtain ⟨i, orig⟩ := io
        rw [horig] at h
        simp only [] at h
        split at h
        · obtain ⟨mem, -, h⟩ := exists_of_bind_ok h
          cases h
        · next hv => exact ⟨s₃, i, orig, rfl, hv, hsize, h⟩

/-! ## a range -/

theorem orig_eq_some {i : Nat} {orig : Oid} (h : r.orig = some (i, orig)) : r.name[i]? = some orig ∧ orig ≠ 4294967295 := by
  unfold Range.orig Range.subid at h
  obtain ⟨hsubid, horig⟩ := Option.filter_eq_some_iff.mp h
  split at hsubid
  · obtain ⟨v, hv, hpair⟩ := Option.map_eq_some_iff.mp hsubid
    obtain ⟨rfl, rfl⟩ := Prod.mk.inj hpair
    exact ⟨hv, of_decide_eq_true horig⟩
  · cases hsubid

theorem lt_succ {v : Oid} (h : v ≠ 4294967295) : v < v + 1 := (lt_succ_iff h).mpr (UInt32.le_refl v)

/-- What is less than something is not the greatest value, so that the next one is not zero. -/
theorem ne_max_of_not_ge {v w : Oid} (h : ¬ v ≥ w) : v ≠ 4294967295 := by
  rintro rfl
  have := w.toNat_lt
  apply h
  apply UInt32.le_iff_toNat_le.mpr
  show w.toNat ≤ 4294967295
  omega

theorem unregisterLoop_ahead {i : Nat} {orig : Oid} (horig : r.orig = some (i, orig)) {n : Nat} {v : Oid}
    (h0 : s.lookupCacheSize = 0) (hv : orig < v) (hmax : v ≠ 4294967295)
    (h : unregisterLoop r n s (r.name.set i v) = .ok (s', .noSuchRegistration, name')) :
    s'.lookupCacheSize = 0 ∧ ∃ w, orig < w ∧ name' = r.name.set i w := by
  -- Each round but the last unloads a name, and increments the subidentifier without a wrap.
  induction n generalizing s v with
  | zero => cases h
  | succ n ih =>
    obtain ⟨hi, -⟩ := orig_eq_some horig
    have hlen : i < r.name.length := (List.getElem?_eq_some_iff.mp hi).1
    rcases unregisterLoop_failed h0 h with ⟨-, rfl, rfl⟩ | ⟨-, s₁, i', orig', horig', hless, hs₁, hrest⟩
    · exact ⟨h0, v, hv, rfl⟩
    · rw [horig] at horig'
      cases horig'
      have hget : (r.name.set i v).getD i 0 = v := by simp [hlen]
      rw [hget] at hless hrest
      rw [set_set] at hrest
      exact ih hs₁ (UInt32.lt_trans hv (lt_succ hmax)) (ne_max_of_not_ge hless) hrest

theorem unregisterMibContext_failed (h : s.unregisterMibContext r = .ok (s', .noSuchRegistration, name')) :
    s'.lookupCacheSize = 0 ∧
      (((s.setLookupCacheSize 0).registeredNode r.name r.priority = .ok none ∧ s' = s.setLookupCacheSize 0 ∧
          name' = r.name) ∨
        ((s.setLookupCacheSize 0).registeredNode r.name r.priority ≠ .ok none ∧ name' ≠ r.name)) := by
  unfold unregisterMibContext at h
  obtain ⟨⟨s₂, res, name₂⟩, hloop, h⟩ := exists_of_bind_ok h
  simp only [] at h
  split at h
  · next hres =>
    rw [hres] at h
    cases h
  cases h
  have h0 : (s.setLookupCacheSize 0).lookupCacheSize = 0 := rfl
  rcases unregisterLoop_failed h0 hloop with ⟨hfree, rfl, rfl⟩ | ⟨htaken, s₁, i, orig, horig, hless, hs₁, hrest⟩
  · exact ⟨h0, .inl ⟨hfree, rfl, rfl⟩⟩
  · obtain ⟨hi, hmax⟩ := orig_eq_some horig
    have hlen : i < r.name.length := (List.getElem?_eq_some_iff.mp hi).1
    have hget : r.name.getD i 0 = orig := by simp [getD_eq_getElem?_getD, hi]
    rw [hget] at hless hrest
    obtain ⟨hsize, w, hw, rfl⟩ := unregisterLoop_ahead horig hs₁ (lt_succ hmax) (ne_max_of_not_ge hless) hrest
    refine ⟨hsize, .inr ⟨htaken, fun heq => ?_⟩⟩
    have hiw : (r.name.set i w)[i]? = some w := by simp [hlen]
    rw [heq, hi, Option.some.injEq] at hiw
    exact UInt32.lt_irrefl _ (hiw ▸ hw)

theorem unregisterMibContext_absent (h : (s.setLookupCacheSize 0).registeredNode r.name r.priority = .ok none) :
    s.unregisterMibContext r = .ok (s.setLookupCacheSize 0, .noSuchRegistration, r.name) := by
  unfold unregisterMibContext
  show (unregisterLoop r ((s.setLookupCacheSize 0).mem.brk + 1) (s.setLookupCacheSize 0) r.name >>= _) = _
  rw [unregisterLoop_absent rfl _ h]
  rfl

theorem setLookupCacheSize_self (h0 : s.lookupCacheSize = 0) : s.setLookupCacheSize 0 = s := by
  cases s
  cases h0
  rfl

/-! ## what a call that fails changes -/

/-- An unregistration that fails changes nothing where the lookup cache was off and the first name is not registered,
and only there. -/
theorem unregister_unchanged_iff (h : s.unregisterMibContext r = .ok (s', .noSuchRegistration, name')) :
    Unchanged s s' r.name name' ↔ s.lookupCacheSize = 0 ∧ s.registeredNode r.name r.priority = .ok none := by
  obtain ⟨hsize, hcases⟩ := unregisterMibContext_failed h
  constructor
  · intro hun
    have h0 : s.lookupCacheSize = 0 := hun.lookupCacheSize.symm.trans hsize
    rw [setLookupCacheSize_self h0] at hcases
    rcases hcases with ⟨hfree, -, -⟩ | ⟨-, hname⟩
    · exact ⟨h0, hfree⟩
    · exact absurd hun.name hname
  · rintro ⟨h0, hfree⟩
    rw [setLookupCacheSize_self h0] at hcases
    rcases hcases with ⟨-, rfl, rfl⟩ | ⟨htaken, -⟩
    · exact ⟨fun _ => rfl, rfl, rfl⟩
    · exact absurd hfree htaken

/-- The three roots with handler 0, and [1, 3] with handler 7. -/
def oneName (lookupCacheSize : Nat) : Except Fault (Context Nat) := do
  let s ← setupTree 0 (fresh lookupCacheSize)
  let (s, _) ← registerMib2 0 s
    { name := [1, 3], priority := 127, rangeSubid := 0, rangeUbound := 0, vars := none, session := none, handler := 7 }
  .ok s

theorem unregister_unchanged_iff_uncached :
    ∃ s : Context Nat, oneName 0 = .ok s ∧ Unchanged s (s.setLookupCacheSize 0) [1, 4] [1, 4] := by
  have hrun : (oneName 0 >>= fun s => s.registeredNode [1, 4] 127 >>= fun child => .ok (s.lookupCacheSize, child)) =
      .ok (0, none) := by
    decide +kernel
  obtain ⟨s, hs, hrun⟩ := exists_of_bind_ok hrun
  obtain ⟨child, hchild, hrun⟩ := exists_of_bind_ok hrun
  obtain ⟨h0, rfl⟩ := Prod.mk.inj (Except.ok.inj hrun)
  have hfree : (s.setLookupCacheSize 0).registeredNode [1, 4] 127 = .ok none := by
    rw [setLookupCacheSize_self h0]
    exact hchild
  have hrun := unregisterMibContext_absent (r := ⟨[1, 4], 127, 0, 0⟩) hfree
  exact ⟨s, hs, (unregister_unchanged_iff hrun).mpr ⟨h0, hchild⟩⟩

/-- The second name of a range is not registered: a request for the first one goes to the root afterwards. -/
theorem not_unregister_unchanged :
    ¬ ∀ (s s' : Context Nat) (r : Range) (name' : ObjId),
      s.unregisterMibContext r = .ok (s', .noSuchRegistration, name') → Unchanged s s' r.name name' := by
  intro hall
  have hrun : (oneName 8 >>= fun s => s.unregisterMibContext ⟨[1, 3], 127, 2, 2⟩ >>= fun x =>
      s.dispatch [1, 3] >>= fun before => x.1.dispatch [1, 3] >>= fun after =>
      .ok (x.2.1, before.map (·.handler), after.map (·.handler))) =
        .ok (.noSuchRegistration, some 7, some 0) := by
    decide +kernel
  obtain ⟨s, -, hrun⟩ := exists_of_bind_ok hrun
  obtain ⟨⟨s', res, name'⟩, hunregister, hrun⟩ := exists_of_bind_ok hrun
  obtain ⟨before, hbefore, hrun⟩ := exists_of_bind_ok hrun
  obtain ⟨after, hafter, hrun⟩ := exists_of_bind_ok hrun
  obtain ⟨rfl, hwhom⟩ := Prod.mk.inj (Except.ok.inj hrun)
  obtain ⟨hbefore', hafter'⟩ := Prod.mk.inj hwhom
  have hdispatch := (hall s s' _ name' hunregister).dispatch [1, 3]
  rw [hbefore, hafter, Except.ok.injEq] at hdispatch
  rw [hdispatch, hbefore'] at hafter'
  cases hafter'

end Context

end Priot.Registry
