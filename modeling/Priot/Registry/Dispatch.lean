/-
# Whom requests go to

A set of registrations, of which the one with the longest name above an OID is asked, and among those of one name the
one with the least priority. The tree serves a set when its slices carry just these registrations, each over what is
below its name.
-/
import Priot.Registry.Unload
import Priot.Registry.Virgin
import Mathlib.Data.Set.Insert

namespace Priot.Registry

open Lib Lib.Slice List

variable {H : Type} {s s' : Context H} {T T' : List (Chain H)} {R : Set (Registration H)} {r r' : Registration H}
  {x : ObjId} {a : Context.Registering H}

/-! ## the set of registrations -/

/-- The registration that is to be asked about `x`. -/
structure Served (R : Set (Registration H)) (x : ObjId) (r : Registration H) : Prop where
  mem : r ∈ R
  above : r.name <+: x
  first : ∀ r' ∈ R, r'.name <+: x → r' = r ∨ Ahead r r'

theorem Served.unique (h : Served R x r) (h' : Served R x r') : r = r' := by
  rcases h.first r' h'.mem h'.above with heq | hahead
  · exact heq.symm
  rcases h'.first r h.mem h.above with heq | hahead'
  · exact heq
  · exact absurd hahead' hahead.asymm

theorem served_insert (h : ¬ r'.name <+: x) : Served (insert r' R) x r ↔ Served R x r := by
  constructor
  · rintro ⟨rfl | hr, habove, hfirst⟩
    · exact absurd habove h
    · exact ⟨hr, habove, fun q hq => hfirst q (.inr hq)⟩
  · rintro ⟨hr, habove, hfirst⟩
    refine ⟨.inr hr, habove, ?_⟩
    rintro q (rfl | hq) hqx
    · exact absurd hqx h
    · exact hfirst q hq hqx

/-- What a node says of whoever registers it. -/
def Context.Registering.reg (a : Context.Registering H) : Registration H :=
  ⟨counted a.name, (a.priority % 256).toNat, a.session, a.handler⟩

/-- The tree serves the registrations. -/
structure Serves (s : Context H) (T : List (Chain H)) (R : Set (Registration H)) : Prop where
  stands : Stands s T
  ordered : AllOrdered T
  cached : Cached T s.lookupCacheSize s.lookup
  carries : ∀ x r, Carries (regsOf T) x r ↔ r ∈ R ∧ r.name <+: x

theorem AllOrdered.eq_of_sameKey (h : AllOrdered T) (hs : Sliced T) (hr : Carries (regsOf T) x r)
    (hr' : Carries (regsOf T) x r') (hkey : SameKey r r') : r = r' := by
  obtain ⟨t, ht, hover, hmem⟩ := carries_regsOf.mp hr
  obtain ⟨t', ht', hover', hmem'⟩ := carries_regsOf.mp hr'
  obtain rfl := hs.over_unique ht ht' hover hover'
  by_contra hne
  have hapart : (t.items.map Prod.snd).Pairwise fun r r' => ¬ SameKey r r' := (h t ht).imp Ahead.irrefl_key
  have : Std.Symm fun r r' : Registration H => ¬ SameKey r r' :=
    ⟨fun _ _ hnot hkey => hnot ⟨hkey.1.symm, hkey.2.symm⟩⟩
  exact hapart.forall hmem hmem' hne hkey

theorem Serves.unique (h : Serves s T R) (hr : r ∈ R) (hr' : r' ∈ R) (hname : r.name = r'.name)
    (hpriority : r.priority = r'.priority) : r = r' := by
  have hcarried : Carries (regsOf T) r.name r := (h.carries _ _).mpr ⟨hr, prefix_rfl⟩
  have hcarried' : Carries (regsOf T) r.name r' := (h.carries _ _).mpr ⟨hr', hname ▸ prefix_rfl⟩
  exact h.ordered.eq_of_sameKey h.stands.sliced hcarried hcarried' ⟨congrArg List.length hname, hpriority⟩

/-! ## searching -/

theorem Serves.served_top (h : Serves s T R) {t : Chain H} (ht : t ∈ T) (hover : t.Over x) : Served R x t.top.2 := by
  have hcarried : ∀ r, r ∈ t.items.map Prod.snd ↔ r ∈ R ∧ r.name <+: x := by
    intro r
    rw [← h.carries, carries_regsOf]
    constructor
    · exact fun hr => ⟨t, ht, hover, hr⟩
    · rintro ⟨u, hu, hover', hr⟩
      obtain rfl := h.stands.sliced.over_unique hu ht hover' hover
      exact hr
  obtain ⟨hmem, habove⟩ := (hcarried t.top.2).mp mem_cons_self
  refine ⟨hmem, habove, fun r' hr' habove' => ?_⟩
  rcases mem_cons.mp ((hcarried r').mpr ⟨hr', habove'⟩) with heq | hunder
  · exact .inl heq
  · exact .inr ((pairwise_cons.mp (h.ordered t ht)).1 r' hunder)

theorem Serves.same (h : Serves s T R) (hsame : SameTree s s') (hc : Cached T s'.lookupCacheSize s'.lookup) :
    Serves s' T R :=
  ⟨h.stands.same hsame, h.ordered, hc, h.carries⟩

theorem Serves.dispatch_spec (h : Serves s T R) (x : ObjId) :
    (∃ r, s.dispatch x = .ok (some r) ∧ Served R x r) ∨ (s.dispatch x = .ok none ∧ ∀ r ∈ R, ¬ r.name <+: x) := by
  obtain ⟨s', found, hfind, hsame, -, hfound⟩ := subtreeFind_spec h.stands h.cached x (.inl rfl)
  unfold Context.dispatch
  rw [hfind, ok_bind]
  rcases hfound with ⟨A, sl, B, rfl, hover, rfl⟩ | ⟨hnone, rfl⟩
  · left
    obtain ⟨nd, hnd, hreg, -⟩ := (h.stands.same hsame).holds.head
    refine ⟨sl.top.2, ?_, h.served_top (mem_append_right _ mem_cons_self) hover⟩
    show (s'.mem.get sl.top.1 >>= _) = _
    rw [Memory.get_eq hnd, ok_bind, hreg]
  · right
    refine ⟨rfl, fun r hr habove => ?_⟩
    obtain ⟨t, ht, hover, -⟩ := carries_regsOf.mp ((h.carries x r).mpr ⟨hr, habove⟩)
    exact hnone t ht hover

theorem Serves.dispatch_eq (h : Serves s T R) (hr : Served R x r) : s.dispatch x = .ok (some r) := by
  rcases h.dispatch_spec x with ⟨r', hrun, hr'⟩ | ⟨-, hnone⟩
  · rw [hrun, hr.unique hr']
  · exact absurd hr.above (hnone r hr.mem)

theorem Serves.dispatch_none (h : Serves s T R) (hnone : ∀ r ∈ R, ¬ r.name <+: x) : s.dispatch x = .ok none := by
  rcases h.dispatch_spec x with ⟨r', -, hr'⟩ | ⟨hrun, -⟩
  · exact absurd hr'.above (hnone r' hr'.mem)
  · exact hrun

theorem Serves.dispatch_congr (h : Serves s T R) (h' : Serves s' T' R) (x : ObjId) : s.dispatch x = s'.dispatch x := by
  rcases h'.dispatch_spec x with ⟨r, hrun, hr⟩ | ⟨hrun, hnone⟩
  · rw [hrun]
    exact h.dispatch_eq hr
  · rw [hrun]
    exact h.dispatch_none hnone

theorem Serves.dispatch_insert (h : Serves s T R) (h' : Serves s' T' (insert r R)) (hx : ¬ r.name <+: x) :
    s'.dispatch x = s.dispatch x := by
  rcases h.dispatch_spec x with ⟨r', hrun, hr'⟩ | ⟨hrun, hnone⟩
  · rw [hrun]
    exact h'.dispatch_eq ((served_insert hx).mpr hr')
  · rw [hrun]
    refine h'.dispatch_none ?_
    rintro q (rfl | hq)
    · exact hx
    · exact hnone q hq

/-! ## registering -/

/-- What is known of a name that is registered: its length fits, and its last subidentifier can be incremented. -/
structure Context.Registering.Plain (a : Context.Registering H) : Prop where
  length : a.name.length < 256
  bumps : Bumps a.name
  range : a.rangeSubid = 0

/-- Below a registered name, and not in front of all registered ones. -/
structure Below (R : Set (Registration H)) (a : Context.Registering H) : Prop where
  covered : ∃ r ∈ R, r.name <+: a.name
  behind : ∃ r ∈ R, r.name < a.name ∨ (r.name = a.name ∧ r.priority ≤ a.reg.priority)

theorem newNode_start (h : a.Plain) (p : Ptr) : (Context.newNode a p).start = a.name := counted_of_lt h.length

theorem newNode_stop (h : a.Plain) (p : Ptr) : (Context.newNode a p).stop = bump a.name := by
  show (bump a.name).take (a.name.length % 256) = _
  rw [Nat.mod_eq_of_lt h.length, ← bump_length, take_length]

theorem newNode_range (h : a.Plain) (p : Ptr) :
    (Context.newNode a p).start ≤ x ∧ x < (Context.newNode a p).stop ↔ a.name <+: x := by
  rw [newNode_start h, newNode_stop h]
  exact covers_iff h.bumps

/-- A context with a new node that is not in the tree yet. -/
structure Loading (s : Context H) (T : List (Chain H)) (R : Set (Registration H)) (a : Context.Registering H) (p : Ptr) :
    Prop where
  stands : Stands s T
  uncached : s.lookupCacheSize = 0
  ordered : AllOrdered T
  carries : ∀ x r, Carries (regsOf T) x r ↔ r ∈ R ∧ r.name <+: x
  cell : s.mem.cells p = some (Context.newNode a p)
  apart : p ∉ addrs T
  below : p < s.mem.brk

theorem Loading.unloaded {p : Ptr} (h : Loading s T R a p) (ha : a.Plain) :
    Unloaded s.mem T p (Context.newNode a p) := by
  refine ⟨h.cell, h.apart, h.below, rfl, rfl, rfl, ?_⟩
  have := (newNode_range ha p).mpr (prefix_rfl (l := a.name))
  exact Std.lt_of_le_of_lt this.1 this.2

theorem Loading.front {p : Ptr} (h : Loading s T R a p) (ha : a.Plain) (hbelow : Below R a)
    (hnew : ¬ ∃ r ∈ R, r.name = a.name ∧ r.priority = a.reg.priority) {t : Chain H} (ht : t ∈ T.head?) :
    t.start < (Context.newNode a p).start ∨ ∃ y ∈ t.items, Ahead y.2 (Context.newNode a p).reg := by
  obtain ⟨r, hr, hr'⟩ := hbelow.behind
  obtain ⟨u, hu, hover, hmem⟩ := carries_regsOf.mp ((h.carries r.name r).mpr ⟨hr, prefix_rfl⟩)
  have hle : t.start ≤ u.start := by
    cases T with
    | nil => cases hu
    | cons t' T =>
      obtain rfl : t' = t := Option.some.inj ht
      rcases mem_cons.mp hu with rfl | hu
      · exact Std.le_refl _
      · exact Std.le_of_lt (h.stands.sliced.starts u hu)
  rw [newNode_start ha]
  have hstart := hover.1
  rcases hr' with hlt | ⟨hname, hpriority⟩
  · exact .inl (by grind)
  by_cases hlt : t.start < a.name
  · exact .inl hlt
  right
  -- the first slice starts at the name, and what is there already has less priority
  have htover : t.Over r.name := by
    have hproper := h.stands.sliced.proper t (mem_of_mem_head? ht)
    constructor
    · grind
    · grind
  obtain rfl := h.stands.sliced.over_unique hu (mem_of_mem_head? ht) hover htover
  obtain ⟨y, hy, rfl⟩ := mem_map.mp hmem
  refine ⟨y, hy, .inr ⟨?_, ?_⟩⟩
  · show y.2.name.length = (counted a.name).length
    rw [counted_of_lt ha.length, hname]
  · exact lt_of_le_of_ne hpriority fun heq => hnew ⟨y.2, hr, hname, heq⟩

theorem Loading.room {p : Ptr} (h : Loading s T R a p) (ha : a.Plain) (hbelow : Below R a)
    (hnew : ¬ ∃ r ∈ R, r.name = a.name ∧ r.priority = a.reg.priority) : Room s T p (Context.newNode a p) := by
  refine ⟨h.stands, h.uncached, h.ordered, h.unloaded ha, fun t ht => h.front ha hbelow hnew ht, fun x hlo hhi => ?_⟩
  obtain ⟨r, hr, habove⟩ := hbelow.covered
  have hx := (newNode_range ha _).mp ⟨hlo, hhi⟩
  exact over_iff_carries.mpr ⟨r, (h.carries x r).mpr ⟨hr, habove.trans hx⟩⟩

theorem Loading.length_lt {p : Ptr} (h : Loading s T R a p) : T.length < s.mem.brk := by
  have hnodup : (p :: addrs T).Nodup := nodup_cons.mpr ⟨h.apart, h.stands.holds.nodup⟩
  have hlen := Lib.length_le_of_below hnodup (b := s.mem.brk) fun q hq => by
    rcases mem_cons.mp hq with rfl | hq
    · exact h.below
    · exact h.stands.holds.below q hq
  rw [length_cons] at hlen
  exact (Nat.lt_succ_of_le (length_le_addrs T)).trans_le hlen

theorem Registering.Plain.name_eq (ha : a.Plain) (hr : r.name <+: x) (hx : a.name <+: x) (hkey : SameKey r a.reg) :
    r.name = a.name ∧ r.priority = a.reg.priority := by
  have hlen : r.name.length = a.name.length := by
    rw [hkey.1]
    show (counted a.name).length = _
    rw [counted_of_lt ha.length]
  exact ⟨(prefix_of_prefix_length_le hr hx hlen.le).eq_of_length hlen, hkey.2⟩

theorem Loading.load {p : Ptr} (h : Loading s T R a p) (ha : a.Plain) (hbelow : Below R a) :
    ((∃ r ∈ R, r.name = a.name ∧ r.priority = a.reg.priority) ∧ ∃ s' T' nd,
      Context.subtreeLoadLoop (s.mem.brk + 1) s p = .ok (s', .duplicateRegistration) ∧ Stands s' T' ∧ AllOrdered T' ∧
        (∀ x r, Carries (regsOf T') x r ↔ r ∈ R ∧ r.name <+: x) ∧ p ∉ addrs T' ∧ s'.mem.cells p = some nd) ∨
    ((¬ ∃ r ∈ R, r.name = a.name ∧ r.priority = a.reg.priority) ∧ ∃ s' T',
      Context.subtreeLoadLoop (s.mem.brk + 1) s p = .ok (s', .registeredOk) ∧ Stands s' T' ∧ AllOrdered T' ∧
        ∀ x r, Carries (regsOf T') x r ↔ r ∈ insert a.reg R ∧ r.name <+: x) := by
  obtain ⟨r₀, hr₀, habove₀⟩ := hbelow.covered
  obtain ⟨sl, hsl, hover, -⟩ := carries_regsOf.mp ((h.carries a.name r₀).mpr ⟨hr₀, habove₀⟩)
  obtain ⟨A, B, rfl⟩ := append_of_mem hsl
  have hover' : sl.Over (Context.newNode a p).start := by
    rw [newNode_start ha]
    exact hover
  have hname : a.reg.name = a.name := counted_of_lt ha.length
  have hlen := h.length_lt
  rw [length_append, length_cons] at hlen
  by_cases hlike : ∃ r ∈ R, r.name = a.name ∧ r.priority = a.reg.priority
  · left
    refine ⟨hlike, ?_⟩
    obtain ⟨r, hr, hrname, hpriority⟩ := hlike
    obtain ⟨t, ht, hovert, hmem⟩ := carries_regsOf.mp ((h.carries a.name r).mpr ⟨hr, hrname ▸ prefix_rfl⟩)
    obtain rfl := h.stands.sliced.over_unique ht hsl hovert hover
    obtain ⟨y, hy, rfl⟩ := mem_map.mp hmem
    have hkey : SameKey y.2 (Context.newNode a p).reg := by
      refine ⟨?_, hpriority⟩
      show y.2.name.length = a.reg.name.length
      rw [hname, hrname]
    obtain ⟨n, hn⟩ := Nat.exists_eq_succ_of_ne_zero (Nat.ne_zero_of_lt hlen)
    obtain ⟨s₁, T', hload, hs₁, ho₁, -, hsame, hapart, nd, hnd⟩ := load_duplicate (n := n)
      h.stands h.uncached h.ordered (h.unloaded ha) hover' ⟨y, hy, hkey⟩
    rw [hn]
    refine ⟨s₁, T', nd, hload, hs₁, ho₁, fun x r => ?_, hapart, hnd⟩
    rw [hsame, h.carries]
  · right
    refine ⟨hlike, ?_⟩
    have hkey : NoKey (A ++ sl :: B) (Context.newNode a p) := by
      intro x r hlo hhi hcarried hkey
      obtain ⟨hr, habove⟩ := (h.carries x r).mp hcarried
      exact hlike ⟨r, hr, Registering.Plain.name_eq ha habove ((newNode_range ha _).mp ⟨hlo, hhi⟩) hkey⟩
    obtain ⟨s₁, T', hload, hs₁, ho₁, -, hcarries⟩ := load_ok (h.room ha hbelow hlike) hover' hkey
      (show B.length + 2 ≤ s.mem.brk + 1 by omega)
    refine ⟨s₁, T', hload, hs₁, ho₁, fun x r => ?_⟩
    rw [hcarries, h.carries, newNode_range ha, Set.mem_insert_iff]
    constructor
    · rintro (⟨hr, habove⟩ | ⟨habove, rfl⟩)
      · exact ⟨.inr hr, habove⟩
      · refine ⟨.inl rfl, ?_⟩
        show a.reg.name <+: x
        rw [hname]
        exact habove
    · rintro ⟨rfl | hr, habove⟩
      · exact .inr ⟨hname ▸ habove, rfl⟩
      · exact .inl ⟨hr, habove⟩

/-- The context in which a new node is loaded. -/
def Context.withNode (s : Context H) (a : Context.Registering H) : Context H :=
  { s with mem := (s.mem.alloc (newNode a s.mem.brk)).1 }.setLookupCacheSize 0

section

variable {load : Context H → Ptr → Except Fault (Context H × MibResult)}

theorem registerMib2_eq (ha : a.Plain) {res : MibResult} (hload : load (s.withNode a) s.mem.brk = .ok (s', res)) :
    (res = .registeredOk → s.registerMib2With load a =
      .ok ((s'.setLookupCacheSize s.lookupCacheSize).invalidateLookupCache, .registeredOk)) ∧
    (res = .duplicateRegistration → ∀ nd, s'.mem.cells s.mem.brk = some nd → s.registerMib2With load a =
      .ok ({ (s'.setLookupCacheSize s.lookupCacheSize).invalidateLookupCache with
        mem := ⟨Function.update s'.mem.cells s.mem.brk none, s'.mem.brk⟩ }, .duplicateRegistration)) := by
  unfold Context.registerMib2With
  show (res = _ → (load (s.withNode a) s.mem.brk >>= _) = _) ∧
    (res = _ → ∀ nd, _ → (load (s.withNode a) s.mem.brk >>= _) = _)
  rw [hload]
  constructor
  · rintro rfl
    rw [ok_bind]
    simp only []
    rw [if_neg fun h => h.2 ha.range, if_neg (by decide)]
  · rintro rfl nd hnd
    rw [ok_bind]
    simp only []
    have hfree : (s'.setLookupCacheSize s.lookupCacheSize).invalidateLookupCache.mem.free s.mem.brk = _ :=
      Memory.free_eq hnd
    rw [if_neg (by simp), if_pos (by simp), hfree]
    rfl

/-- A registration is added, or it is refused as there is its like. -/
def Registers (load : Context H → Ptr → Except Fault (Context H × MibResult)) (s : Context H) (R : Set (Registration H))
    (a : Context.Registering H) : Prop :=
  ((∃ r ∈ R, r.name = a.name ∧ r.priority = a.reg.priority) ∧ ∃ s' T',
    s.registerMib2With load a = .ok (s', .duplicateRegistration) ∧ Serves s' T' R) ∨
  ((¬ ∃ r ∈ R, r.name = a.name ∧ r.priority = a.reg.priority) ∧ ∃ s' T',
    s.registerMib2With load a = .ok (s', .registeredOk) ∧ Serves s' T' (insert a.reg R))

theorem Loading.registers {s₁ : Context H} (h : Loading s₁ T R a s.mem.brk) (ha : a.Plain) (hbelow : Below R a)
    (hload : load (s.withNode a) s.mem.brk = Context.subtreeLoadLoop (s₁.mem.brk + 1) s₁ s.mem.brk) :
    Registers load s R a := by
  rcases h.load ha hbelow with ⟨hlike, s', T', nd, hrun, hs', ho', hcarries, hapart, hnd⟩ |
    ⟨hnew, s', T', hrun, hs', ho', hcarries⟩
  · have hfreed := hs'.freed hapart
    exact .inl ⟨hlike, _, T', (registerMib2_eq ha (hload.trans hrun)).2 rfl nd hnd,
      ⟨hfreed.holds, hfreed.first, hfreed.sliced⟩, ho', Cached.empty _ _ rfl rfl, hcarries⟩
  · exact .inr ⟨hnew, _, T', (registerMib2_eq ha (hload.trans hrun)).1 rfl, ⟨hs'.holds, hs'.first, hs'.sliced⟩, ho',
      Cached.empty _ _ rfl rfl, hcarries⟩

theorem Serves.loading (h : Serves s T R) (a : Context.Registering H) : Loading (s.withNode a) T R a s.mem.brk := by
  have hcells : ∀ q ∈ addrs T, (s.withNode a).mem.cells q = s.mem.cells q := fun q hq =>
    Function.update_of_ne (h.stands.holds.below q hq).ne _ _
  have hstands := h.stands.outside hcells (Nat.le_succ _)
  exact ⟨⟨hstands.holds, hstands.first, hstands.sliced⟩, rfl, h.ordered, h.carries, Function.update_self ..,
    fun hmem => (h.stands.holds.below _ hmem).false, Nat.lt_succ_self _⟩

/-- The node is loaded into the tree as it stands. -/
def LoadsHere (load : Context H → Ptr → Except Fault (Context H × MibResult)) (s : Context H)
    (a : Context.Registering H) : Prop :=
  load (s.withNode a) s.mem.brk =
    Context.subtreeLoadLoop ((s.withNode a).mem.brk + 1) (s.withNode a) s.mem.brk

/-- Behind all registered names, with no children at the end of the tree. -/
structure Behind (T : List (Chain H)) (R : Set (Registration H)) (a : Context.Registering H) : Prop where
  behind : ∀ r ∈ R, r.name < a.name
  alone : ∀ t ∈ T.getLast?, t.under = []

theorem lt_of_not_above {name y : ObjId} (hlt : r.name < name) (habove : ¬ r.name <+: name) (hy : r.name <+: y) :
    y < name := by
  by_contra hle
  exact habove (prefix_of_between hy (Std.le_of_lt hlt) (Std.not_lt.mp hle))

theorem Serves.atEnd (h : Serves s T R) (ha : a.Plain) (hbehind : Behind T R a) (hfree : ∀ r ∈ R, ¬ r.name <+: a.name)
    (p : Ptr) : AtEnd T (Context.newNode a p) := by
  refine ⟨fun t ht => ?_, hbehind.alone⟩
  rw [newNode_start ha]
  have hover : t.Over t.start := ⟨Std.le_refl _, h.stands.sliced.proper t ht⟩
  obtain ⟨hr, habove⟩ := (h.carries t.start t.top.2).mp (carries_regsOf.mpr ⟨t, ht, hover, mem_cons_self⟩)
  have hstart := lt_of_not_above (hbehind.behind _ hr) (hfree _ hr) habove
  by_contra hlt
  -- the slice is over the name, and so is what it carries
  have hover' : t.Over a.name := ⟨Std.le_of_lt hstart, Std.not_le.mp hlt⟩
  have hcarried := (h.carries a.name t.top.2).mp (carries_regsOf.mpr ⟨t, ht, hover', mem_cons_self⟩)
  exact hfree _ hcarried.1 hcarried.2

theorem Serves.append (h : Serves s T R) (ha : a.Plain) (hbehind : Behind T R a) (hfree : ∀ r ∈ R, ¬ r.name <+: a.name)
    (hload : LoadsHere load s a) : ∃ s', s.registerMib2With load a = .ok (s', .registeredOk) ∧
      Serves s' (T ++ [lone s.mem.brk (Context.newNode a s.mem.brk)]) (insert a.reg R) ∧
      (s.lookupCacheSize = 0 → s'.lookupCacheSize = 0) ∧ s'.mem.brk = s.mem.brk + 1 ∧
      ∀ q, q ∉ addrs T → q ≠ s.mem.brk → s'.mem.cells q = s.mem.cells q := by
  have hl := h.loading a
  obtain ⟨s₁, hrun, hs₁, -, hb₁, hc₁⟩ := load_last (n := (s.withNode a).mem.brk) hl.stands rfl (hl.unloaded ha)
    (h.atEnd ha hbehind hfree _)
  refine ⟨_, (registerMib2_eq ha (hload.trans hrun)).1 rfl, ⟨⟨hs₁.holds, hs₁.first, hs₁.sliced⟩, hl.ordered.concat _ _,
    Cached.empty _ _ rfl rfl, fun x r => ?_⟩, fun h0 => ?_, hb₁, fun q hq hqp => ?_⟩
  · have hname : a.reg.name = a.name := counted_of_lt ha.length
    rw [carries_concat, h.carries, newNode_range ha, Set.mem_insert_iff]
    constructor
    · rintro (⟨hr, habove⟩ | ⟨habove, rfl⟩)
      · exact ⟨.inr hr, habove⟩
      · exact ⟨.inl rfl, hname ▸ habove⟩
    · rintro ⟨rfl | hr, habove⟩
      · exact .inr ⟨hname ▸ habove, rfl⟩
      · exact .inl ⟨hr, habove⟩
  · show (s₁.setLookupCacheSize s.lookupCacheSize).lookupCacheSize = 0
    rw [h0]
    rfl
  · exact (hc₁ q hq hqp).trans (Function.update_of_ne hqp _ _)

/-- Where a name may be registered: below a registered one and not in front of all of them, or behind all of them. -/
def Place (T : List (Chain H)) (R : Set (Registration H)) (a : Context.Registering H) : Prop := Below R a ∨ Behind T R a

theorem Serves.registers (h : Serves s T R) (ha : a.Plain) (hplace : Place T R a) (hload : LoadsHere load s a) :
    Registers load s R a := by
  by_cases hfree : ∀ r ∈ R, ¬ r.name <+: a.name
  · rcases hplace with ⟨⟨r, hr, habove⟩, -⟩ | hbehind
    · exact absurd habove (hfree r hr)
    · obtain ⟨s', hrun, hs', -⟩ := h.append ha hbehind hfree hload
      refine .inr ⟨?_, s', _, hrun, hs'⟩
      rintro ⟨r, hr, hname, -⟩
      exact hfree r hr (hname ▸ prefix_rfl)
  · have hbelow : Below R a := by
      rcases hplace with hbelow | ⟨hbehind, -⟩
      · exact hbelow
      · have hcovered : ∃ r ∈ R, r.name <+: a.name := by simpa using hfree
        obtain ⟨r, hr, habove⟩ := hcovered
        exact ⟨⟨r, hr, habove⟩, r, hr, .inl (hbehind r hr)⟩
    exact (h.loading a).registers ha hbelow hload

end

theorem Serves.loadsHere (h : Serves s T R) (null : H) (hR : R.Nonempty) (a : Context.Registering H) :
    LoadsHere (Context.subtreeLoad null) s a := by
  have hfirst : ¬ (s.withNode a).first = none := by
    obtain ⟨r, hr⟩ := hR
    obtain ⟨t, ht, -⟩ := carries_regsOf.mp ((h.carries r.name r).mpr ⟨hr, prefix_rfl⟩)
    show ¬ s.first = none
    rw [show s.first = _ from h.stands.first]
    cases T with
    | nil => cases ht
    | cons t' T => simp [leads]
  unfold LoadsHere Context.subtreeLoad
  rw [if_neg hfirst, ok_bind]

/-! ## unregistering -/

variable {range : Context.Range}

theorem Serves.spread (h : Serves s T R) (hnamed : ∃ r ∈ R, Named range.name range.priority r) :
    Spread T range.name range.priority := by
  obtain ⟨r, hr, hnamed⟩ := hnamed
  refine ⟨⟨r, (h.carries _ r).mpr ⟨hr, hnamed.1 ▸ prefix_rfl⟩, hnamed⟩, fun x r hc hnamed => ?_,
    fun x y r hc hnamed hlo hhi => ?_⟩
  · exact hnamed.1 ▸ ((h.carries x r).mp hc).2.le
  · obtain ⟨hr, habove⟩ := (h.carries y r).mp hc
    exact (h.carries x r).mpr ⟨hr, prefix_of_between habove (hnamed.1 ▸ hlo) hhi⟩

theorem Serves.unregister (h : Serves s T R) (horig : range.orig = none) :
    ((∃ r ∈ R, Named range.name range.priority r) ∧ ∃ s' T',
      s.unregisterMibContext range = .ok (s', .unregisteredOk, range.name) ∧
        Serves s' T' {r ∈ R | ¬ Named range.name range.priority r}) ∨ ((¬ ∃ r ∈ R, Named range.name range.priority r) ∧
      s.unregisterMibContext range = .ok (s.setLookupCacheSize 0, .noSuchRegistration, range.name) ∧
        Serves (s.setLookupCacheSize 0) T R) := by
  have h₀ : Stands (s.setLookupCacheSize 0) T := ⟨h.stands.holds, h.stands.first, h.stands.sliced⟩
  by_cases hnamed : ∃ r ∈ R, Named range.name range.priority r
  · left
    obtain ⟨s', hrun, hstands, hcount, hpos, -, -⟩ := unregisterMibContext_spec h.stands h.ordered horig (h.spread hnamed)
    refine ⟨hnamed, s', _, hrun, hstands, h.ordered.without, Cached.empty _ _ hcount hpos, fun x r => ?_⟩
    rw [carries_without, h.carries]
    exact and_right_comm
  · right
    refine ⟨hnamed, Context.unregisterMibContext_absent ?_, h₀, h.ordered, Cached.zero _ _, h.carries⟩
    rw [Context.registeredNode_eq_none_iff h₀ rfl]
    intro r hc hr
    exact hnamed ⟨r, ((h.carries _ r).mp hc).1, hr⟩

end Priot.Registry
