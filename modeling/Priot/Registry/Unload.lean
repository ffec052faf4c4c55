/-
# Taking nodes away

A node leaves its chain: where it was the head its child takes its place, or what lies before and after is linked. The
nodes of one registration are in slices that follow each other.
-/
import Priot.Registry.Load

namespace Priot.Registry

open Lib Lib.Slice List

variable {H : Type} {m m' : Memory H} {s s' : Context H} {T A B : List (Chain H)} {sl : Chain H}
  {pre post items : Items H} {p : Ptr} {r : Registration H} {nd : Subtree H} {z : Ptr × Registration H} {x : ObjId}

/-! ## what remains of a slice -/

/-- The slice with other items, and no slice where there are none. -/
def withOnly (sl : Chain H) (items : Items H) : List (Chain H) :=
  match items with
  | [] => []
  | y :: items => [⟨sl.start, sl.stop, y, items⟩]

@[simp] theorem addrs_withOnly (sl : Chain H) (items : Items H) : addrs (withOnly sl items) = items.map Prod.fst := by
  cases items with
  | nil => rfl
  | cons y items =>
    show addrs [_] = _
    rw [addrs_cons, addrs_nil, append_nil]
    rfl

theorem withOnly_items (sl : Chain H) : withOnly sl sl.items = [sl] := rfl

theorem sliced_withOnly (h : Sliced (A ++ sl :: B)) (items : Items H) : Sliced (A ++ (withOnly sl items ++ B)) := by
  cases items with
  | nil => exact h.sublist ((List.Sublist.refl A).append (sublist_cons_self sl B))
  | cons y items => exact h.replace y items

theorem Holds.parts {k : Option Pred} (h : Holds m k (A ++ sl :: B)) :
    (addrs A).Nodup ∧ (sl.items.map Prod.fst).Nodup ∧ (addrs B).Nodup ∧
      (∀ q ∈ addrs A, q ∉ sl.items.map Prod.fst ∧ q ∉ addrs B) ∧ ∀ q ∈ sl.items.map Prod.fst, q ∉ addrs B := by
  have hn := h.nodup
  rw [addrs_append, addrs_cons] at hn
  obtain ⟨hA, hslB, hdisj⟩ := nodup_append.mp hn
  obtain ⟨hsl, hB, hdisj'⟩ := nodup_append.mp hslB
  refine ⟨hA, hsl, hB, fun q hq => ⟨?_, ?_⟩, fun q hq hqB => hdisj' q hq q hqB rfl⟩
  · exact fun hmem => hdisj q hq q (mem_append_left _ hmem) rfl
  · exact fun hmem => hdisj q hq q (mem_append_right _ hmem) rfl

theorem Holds.items_length (h : Holds m (some none) (A ++ sl :: B)) : sl.items.length ≤ m.brk :=
  items_length_le h.parts.2.1 fun p hp => h.below p (by simp [hp])

theorem Holds.fewer (h : Holds m (some none) (A ++ sl :: B)) (hsub : items.Sublist sl.items) (hbrk : m'.brk = m.brk)
    (hlisted : Listed m'.cells (some none) (A ++ (withOnly sl items ++ B)) none) :
    Holds m' (some none) (A ++ (withOnly sl items ++ B)) := by
  have haddrs : (addrs (A ++ (withOnly sl items ++ B))).Sublist (addrs (A ++ sl :: B)) := by
    rw [addrs_append, addrs_append, addrs_withOnly, addrs_append, addrs_cons]
    exact (List.Sublist.refl _).append ((hsub.map Prod.fst).append (List.Sublist.refl _))
  refine ⟨hlisted, h.nodup.sublist haddrs, fun q hq => ?_⟩
  rw [hbrk]
  exact h.below q (haddrs.subset hq)

theorem Holds.apart {k : Option Pred} (h : Holds m k (A ++ sl :: B)) (hl : sl.items = pre ++ (p, r) :: post) :
    p ∉ addrs (A ++ (withOnly sl (pre ++ post) ++ B)) := by
  have hn := h.nodup
  have hperm : (addrs (A ++ sl :: B)).Perm (p :: addrs (A ++ (withOnly sl (pre ++ post) ++ B))) := by
    have := insert_perm (addrs A ++ pre.map Prod.fst) [] [p] (post.map Prod.fst ++ addrs B)
    simpa [hl] using this
  exact (nodup_cons.mp (hperm.nodup_iff.mp hn)).1

/-! ## one node -/

/-- What has come of the memory when a node has been taken out of a slice. -/
structure TakenOut (m m' : Memory H) (A : List (Chain H)) (sl : Chain H) (items : Items H) (B : List (Chain H)) (p : Ptr) :
    Prop where
  brk : m'.brk = m.brk
  holds : Holds m' (some none) (A ++ (withOnly sl items ++ B))
  cell : ∃ nd, m'.cells p = some nd ∧ nd.next = leads B none
  frame : ∀ q, q ∉ addrs (A ++ sl :: B) → m'.cells q = m.cells q

theorem takeOut_inner (h : Holds m (some none) (A ++ sl :: B)) (hl : sl.items = pre ++ (p, r) :: post)
    (hz : pre.getLast? = some z) :
    ∃ nd m', m.cells p = some nd ∧ (m.set z.1 fun a => { a with children := nd.children }) = .ok m' ∧
      TakenOut m m' A sl (pre ++ post) B p := by
  obtain ⟨hA, hsl, hB⟩ := listed_append.mp h.listed
  obtain ⟨hnA, hnsl, hnB, hdA, hdsl⟩ := h.parts
  rw [hl] at hsl hnsl hdA hdsl
  obtain ⟨-, nd, hp, -, -, ⟨hsits, -⟩, hch⟩ := hsl.drop
  have hchildren : nd.children = post.head?.map Prod.fst := hch.start
  have hzpre : z ∈ pre := mem_of_getLast? hz
  have hzsl : z.1 ∈ (pre ++ (p, r) :: post).map Prod.fst := mem_map_of_mem (mem_append_left _ hzpre)
  obtain ⟨zd, hzd, -⟩ := hsl.mem hzsl
  have hzp : p ≠ z.1 := by
    intro heq
    rw [map_append, nodup_append] at hnsl
    exact hnsl.2.2 z.1 (mem_map_of_mem hzpre) p (by simp) heq.symm
  obtain ⟨m', hm', hb, hc⟩ := Memory.set_spec hzd fun a => { a with children := nd.children }
  have hother : ∀ q, q ∉ (pre ++ (p, r) :: post).map Prod.fst → m'.cells q = m.cells q := by
    intro q hq
    rw [hc, if_neg]
    rintro rfl
    exact hq hzsl
  refine ⟨nd, m', hp, hm', hb, h.fewer ?_ hb ?_, ⟨nd, ?_, hsits.next⟩, fun q hq => ?_⟩
  · rw [hl]
    exact (List.Sublist.refl pre).append (sublist_cons_self _ _)
  · have hnodes := @Nodes.remove _ _ m'.cells _ _ _ _ _ _ _ hsl hz hnsl (fun q _ => by
      rw [hc, hchildren]
      split
      · next hq =>
        rw [hq, hzd]
        rfl
      · rfl) fun ch nd hnd => ⟨⟨hnd.1.start, hnd.1.stop, hnd.1.next⟩, hnd.2.congr rfl rfl rfl⟩
    -- the head stays what it was
    cases pre with
    | nil => cases hz
    | cons y pre =>
      obtain ⟨htop, -⟩ := List.cons.inj (show sl.top :: sl.under = y :: (pre ++ (p, r) :: post) from hl)
      rw [← htop] at hnodes ⊢
      refine listed_append.mpr ⟨hA.frame fun q hq => hother q (hdA q hq).1, ?_, ?_⟩
      · exact hnodes.mono fun nd hnd => ⟨⟨hnd.1.start, hnd.1.stop, hnd.1.next⟩, hnd.2⟩
      · exact hB.frame fun q hq => hother q fun hmem => hdsl q hmem hq
  · rw [hc, if_neg hzp, hp]
  · rw [addrs_append, addrs_cons, mem_append, mem_append, not_or, not_or, hl] at hq
    exact hother q hq.2.1

theorem Knows.offBehind (h : Knows (some (predOf A)) nd) : offBehind A nd = nd := by
  unfold Registry.offBehind
  cases hA : A.getLast? with
  | none => rfl
  | some la =>
    have hpred : predOf A = some (la.top.1, la.start) := by
      unfold predOf
      rw [hA]
      rfl
    show setOff la.start nd = nd
    unfold setOff
    rw [← h.off _ rfl _ hpred]

theorem takeOut_head {y : Ptr × Registration H} (h : Holds m (some none) (A ++ sl :: B))
    (hl : sl.items = (p, r) :: y :: post) :
    ∃ nd m₁ m₂, m.cells p = some nd ∧ nd.prev = lastHead A ∧ nd.next = leads B none ∧ nd.children = some y.1 ∧
      m.changeNextLoop nd.prev (some y.1) = .ok m₁ ∧ m₁.changePrevLoop nd.next (some y.1) = .ok m₂ ∧
      TakenOut m m₂ A sl (y :: post) B p := by
  obtain ⟨hA, hsl, hB⟩ := listed_append.mp h.listed
  obtain ⟨hnA, hnsl, hnB, hdA, hdsl⟩ := h.parts
  rw [hl] at hsl hnsl hdA hdsl
  rw [behind_eq] at hsl
  obtain ⟨-, nd, hp, -, -, ⟨hsits, hknows⟩, hch⟩ := hsl
  have hprev : nd.prev = lastHead A := (hknows.prev _ rfl).trans (predOf_fst A)
  have hchildren : nd.children = some y.1 := hch.1
  rw [hchildren] at hch
  obtain ⟨yd, hyd, -, hyknows⟩ := hch.mem (p := y.1) mem_cons_self
  have hyA : y.1 ∉ addrs A := fun hmem => (hdA y.1 hmem).1 (by simp)
  have hyB : y.1 ∉ addrs B := hdsl y.1 (by simp)
  have hpA : p ∉ addrs A := fun hmem => (hdA p hmem).1 (by simp)
  have hpB : p ∉ addrs B := hdsl p (by simp)
  -- what lies before leads to the child
  obtain ⟨m₁, hm₁, hb₁, hA₁, hc₁⟩ := hA.changeNext (t := some y.1) hnA
    (fun q hq => h.below q (by simp [hq])) (fun q hq => by
      obtain rfl : y.1 = q := Option.some.inj hq
      exact ⟨hyA, yd, hyd⟩)
  have hother₁ : ∀ q, q ∉ addrs A → m₁.cells q = m.cells q := by
    intro q hq
    rw [hc₁ q hq]
    split
    · next heq =>
      obtain rfl : y.1 = q := Option.some.inj heq
      rw [hyd, Option.map_some, hyknows.2.offBehind]
    · rfl
  -- what lies after points back to it
  obtain ⟨m₂, hm₂, hb₂, hB₂, hc₂⟩ := Listed.changePrev (v := some (y.1, sl.start))
    (hB.frame fun q hq => hother₁ q fun hmem => (hdA q hmem).2 hq) hnB
    (fun q hq => by
      rw [hb₁]
      exact h.below q (by simp [hq]))
    (fun x hx => by
      obtain rfl : (y.1, sl.start) = x := Option.some.inj hx
      exact ⟨hyB, yd, (hother₁ y.1 hyA).trans hyd, hyknows.1.start⟩)
  have hother : ∀ q, q ∉ addrs A → q ∉ addrs B → m₂.cells q = m.cells q := fun q hqA hqB => by
    rw [hc₂ q hqB, hother₁ q hqA]
  refine ⟨nd, m₁, m₂, hp, hprev, hsits.next, hchildren, hprev ▸ hm₁, hsits.next ▸ hm₂, hb₂.trans hb₁,
    h.fewer ?_ (hb₂.trans hb₁) ?_, ⟨nd, ?_, hsits.next⟩, fun q hq => ?_⟩
  · rw [hl]
    exact sublist_cons_self _ _
  · refine listed_append.mpr ⟨hA₁.frame fun q hq => hc₂ q (hdA q hq).2, ?_, hB₂⟩
    rw [behind_eq]
    refine Nodes.frame (Nodes.mono hch fun nd hnd => ⟨⟨hnd.1.start, hnd.1.stop, hnd.1.next⟩, hnd.2⟩) fun q hq => ?_
    exact hother q (fun hmem => (hdA q hmem).1 (mem_cons_of_mem _ hq)) (hdsl q (mem_cons_of_mem _ hq))
  · rw [hother p hpA hpB, hp]
  · rw [addrs_append, addrs_cons, mem_append, mem_append, not_or, not_or] at hq
    exact hother q hq.1 hq.2.2

theorem takeOut_last (h : Holds m (some none) (A ++ sl :: B)) (hl : sl.items = [(p, r)]) :
    ∃ nd m₁ m₂, m.cells p = some nd ∧ nd.prev = lastHead A ∧ nd.next = leads B none ∧ nd.children = none ∧
      m.changeNextLoop nd.prev nd.next = .ok m₁ ∧ m₁.changePrevLoop nd.next nd.prev = .ok m₂ ∧
      TakenOut m m₂ A sl [] B p := by
  obtain ⟨hA, hsl, hB⟩ := listed_append.mp h.listed
  obtain ⟨hnA, hnsl, hnB, hdA, hdsl⟩ := h.parts
  rw [hl] at hsl hnsl hdA hdsl
  rw [behind_eq] at hsl
  obtain ⟨-, nd, hp, -, -, ⟨hsits, hknows⟩, hch⟩ := hsl
  have hprev : nd.prev = lastHead A := (hknows.prev _ rfl).trans (predOf_fst A)
  have hpA : p ∉ addrs A := fun hmem => (hdA p hmem).1 (by simp)
  have hpB : p ∉ addrs B := hdsl p (by simp)
  have hleads : ∀ q ∈ leads B none, q ∈ addrs B := fun q hq => (hB.leads_cell q hq).1
  obtain ⟨m₁, hm₁, hb₁, hA₁, hc₁⟩ := hA.changeNext (t := leads B none) hnA
    (fun q hq => h.below q (by simp [hq])) (fun q hq => by
      obtain ⟨hqB, qd, hqd, -⟩ := hB.leads_cell q hq
      exact ⟨fun hmem => (hdA q hmem).2 hqB, qd, hqd⟩)
  have hother₁ : ∀ q, q ∉ addrs A → leads B none ≠ some q → m₁.cells q = m.cells q := fun q hq hne => by
    rw [hc₁ q hq, if_neg hne]
  -- the head behind the gap has another offset for now
  have hB₁ : Listed m₁.cells none B none := by
    cases B with
    | nil => trivial
    | cons t B =>
      have hin : ∀ q ∈ t.items.map Prod.fst, q ∉ addrs A := fun q hq hmem => (hdA q hmem).2 (by simp [hq])
      refine ⟨hB.1.change fun q hq qd hqd hP => ?_, hB.2.frame fun q hq => ?_⟩
      · rw [hc₁ q (hin q hq), hqd]
        split
        · refine ⟨offBehind A qd, rfl, ?_, ?_, ?_, ?_, nofun, nofun⟩
          · rw [Fits.offBehind_eq]
          · rw [Fits.offBehind_eq]
          · rw [Fits.offBehind_eq]
          · rw [Fits.offBehind_eq]
            exact ⟨hP.1.start, hP.1.stop, hP.1.next⟩
        · exact ⟨qd, rfl, rfl, rfl, rfl, hP.1, nofun, nofun⟩
      · refine hother₁ q (fun hmem => (hdA q hmem).2 (by simp [hq])) fun heq => ?_
        rw [addrs_cons, nodup_append] at hnB
        obtain rfl : t.top.1 = q := Option.some.inj heq
        exact hnB.2.2 t.top.1 mem_cons_self t.top.1 hq rfl
  obtain ⟨m₂, hm₂, hb₂, hB₂, hc₂⟩ := hB₁.changePrev (v := predOf A) hnB
    (fun q hq => by
      rw [hb₁]
      exact h.below q (by simp [hq]))
    (fun x hx => by
      obtain ⟨hxA, xd, hxd, hstart⟩ := hA₁.pred_cell x hx
      exact ⟨(hdA x.1 hxA).2, xd, hxd, hstart⟩)
  rw [predOf_fst] at hm₂
  have hother : ∀ q, q ∉ addrs A → q ∉ addrs B → m₂.cells q = m.cells q := fun q hqA hqB => by
    rw [hc₂ q hqB, hother₁ q hqA fun heq => hqB (hleads q heq)]
  refine ⟨nd, m₁, m₂, hp, hprev, hsits.next, hch, ?_, ?_, hb₂.trans hb₁, h.fewer (nil_sublist _) (hb₂.trans hb₁) ?_,
    ⟨nd, ?_, hsits.next⟩, fun q hq => ?_⟩
  · rw [hprev, hsits.next]
    exact hm₁
  · rw [hprev, hsits.next]
    exact hm₂
  · refine listed_append.mpr ⟨hA₁.frame fun q hq => hc₂ q (hdA q hq).2, ?_⟩
    rw [behind_eq]
    exact hB₂
  · rw [hother p hpA hpB, hp]
  · rw [addrs_append, addrs_cons, mem_append, mem_append, not_or, not_or] at hq
    exact hother q hq.1 hq.2.2

/-- What has come of the context when a node has been unloaded. -/
structure UnloadedFrom (s s' : Context H) (A : List (Chain H)) (sl : Chain H) (items : Items H) (B : List (Chain H))
    (p : Ptr) : Prop where
  stands : Stands s' (A ++ (withOnly sl items ++ B))
  taken : TakenOut s.mem s'.mem A sl items B p
  size : s'.lookupCacheSize = s.lookupCacheSize
  count : s'.lookup.thecachecount = 0
  pos : s'.lookup.currentpos = 0

theorem subtreeUnload_spec (h : Stands s (A ++ sl :: B)) (hl : sl.items = pre ++ (p, r) :: post) :
    ∃ s', s.subtreeUnload p (pre.getLast?.map Prod.fst) = .ok s' ∧ UnloadedFrom s s' A sl (pre ++ post) B p := by
  have hsliced := sliced_withOnly h.sliced (pre ++ post)
  -- what was before the gap is still the first node
  have hfirst : ∀ (nd : Subtree H) (t : Option Ptr), nd.prev = lastHead A →
      (if nd.prev = none then t else s.first) = leads A t := by
    intro nd t hprev
    rw [hprev, show s.first = _ from h.first]
    cases A with
    | nil => rfl
    | cons t A =>
      rw [if_neg (by simp [lastHead])]
      rfl
  rcases items_nil_or_last pre with rfl | ⟨z, hz⟩
  · cases post with
    | nil =>
      obtain ⟨nd, m₁, m₂, hp, hprev, hnext, hch, hm₁, hm₂, htaken⟩ := takeOut_last h.holds hl
      refine ⟨{ s with mem := m₂, first := if nd.prev = none then nd.next else s.first }.invalidateLookupCache, ?_,
        ⟨htaken.holds, ?_, hsliced⟩, htaken, rfl, rfl, rfl⟩
      · unfold Context.subtreeUnload
        rw [Memory.get_eq hp, ok_bind]
        simp only [hch, hm₁, ok_bind]
        rw [hm₂]
        rfl
      · show (if nd.prev = none then nd.next else s.first) = _
        rw [hfirst nd nd.next hprev, hnext, leads_append]
        rfl
    | cons y post =>
      obtain ⟨nd, m₁, m₂, hp, hprev, hnext, hch, hm₁, hm₂, htaken⟩ := takeOut_head h.holds hl
      refine ⟨{ s with mem := m₂, first := if nd.prev = none then some y.1 else s.first }.invalidateLookupCache, ?_,
        ⟨htaken.holds, ?_, hsliced⟩, htaken, rfl, rfl, rfl⟩
      · unfold Context.subtreeUnload
        rw [Memory.get_eq hp, ok_bind]
        simp only [hch, hm₁, ok_bind]
        rw [hm₂]
        rfl
      · show (if nd.prev = none then some y.1 else s.first) = _
        rw [hfirst nd (some y.1) hprev, leads_append]
        rfl
  · obtain ⟨nd, m', hp, hm', htaken⟩ := takeOut_inner h.holds hl hz
    refine ⟨{ s with mem := m' }.invalidateLookupCache, ?_, ⟨htaken.holds, ?_, hsliced⟩, htaken, rfl, rfl, rfl⟩
    · unfold Context.subtreeUnload
      rw [Memory.get_eq hp, ok_bind, hz]
      show (s.mem.set z.1 (fun a => { a with children := nd.children }) >>= _) = _
      rw [hm']
      rfl
    · show s.first = _
      rw [show s.first = _ from h.first]
      cases pre with
      | nil => cases hz
      | cons y pre =>
        obtain ⟨htop, -⟩ := List.cons.inj (show sl.top :: sl.under = y :: (pre ++ (p, r) :: post) from hl)
        rw [leads_append, leads_append, ← htop]
        rfl

theorem Stands.freed (h : Stands s T) (hp : p ∉ addrs T) :
    Stands { s with mem := ⟨Function.update s.mem.cells p none, s.mem.brk⟩ } T :=
  h.outside (fun q hq => Function.update_of_ne (fun hqp : q = p => hp (hqp ▸ hq)) _ _) (Nat.le_refl _)

/-! ## one registration -/

/-- What unregistering looks for in a chain. -/
abbrev Named (name : ObjId) (priority : Int) (r : Registration H) : Prop := r.name = name ∧ (r.priority : Int) = priority

/-- What is left of a slice without the nodes of a registration. -/
def without (name : ObjId) (priority : Int) (sl : Chain H) : List (Chain H) :=
  withOnly sl (sl.items.filter fun y => ¬ Named name priority y.2)

variable {name : ObjId} {priority : Int}

theorem filter_named (ho : Ordered ((pre ++ (p, r) :: post).map Prod.snd)) (hpre : ∀ y ∈ pre, ¬ Named name priority y.2)
    (hr : Named name priority r) :
    (pre ++ (p, r) :: post).filter (fun y => ¬ Named name priority y.2) = pre ++ post := by
  rw [Ordered, map_append, map_cons, pairwise_append, pairwise_cons] at ho
  have hpost : ∀ y ∈ post, ¬ Named name priority y.2 := by
    rintro y hy ⟨hname, hpriority⟩
    refine (ho.2.1.1 y.2 (mem_map_of_mem hy)).irrefl_key ⟨?_, ?_⟩
    · rw [hr.1, hname]
    · exact Int.ofNat_inj.mp (hr.2.trans hpriority.symm)
  rw [filter_append, filter_cons_of_neg (by simpa using hr)]
  congr 1
  · exact filter_eq_self.mpr fun y hy => decide_eq_true (hpre y hy)
  · exact filter_eq_self.mpr fun y hy => decide_eq_true (hpost y hy)

theorem without_of_none (h : ∀ y ∈ sl.items, ¬ Named name priority y.2) : without name priority sl = [sl] := by
  unfold without
  rw [filter_eq_self.mpr fun y hy => decide_eq_true (h y hy), withOnly_items]

theorem flatMap_without_of_none (h : ∀ t ∈ T, ∀ y ∈ t.items, ¬ Named name priority y.2) :
    T.flatMap (without name priority) = T := by
  induction T with
  | nil => rfl
  | cons t T ih =>
    rw [flatMap_cons, without_of_none (h t mem_cons_self), ih fun u hu => h u (mem_cons_of_mem t hu)]
    rfl

theorem findRegistered_spec (h : Holds m (some none) (A ++ sl :: B)) :
    (Context.findRegistered m name priority sl.top.1 = .ok (sl.items.getLast?.map Prod.fst, none) ∧
      ∀ y ∈ sl.items, ¬ Named name priority y.2) ∨
    ∃ pre p r post, sl.items = pre ++ (p, r) :: post ∧ Named name priority r ∧ (∀ y ∈ pre, ¬ Named name priority y.2) ∧
      Context.findRegistered m name priority sl.top.1 = .ok (pre.getLast?.map Prod.fst, some p) := by
  obtain ⟨-, hsl, -⟩ := listed_append.mp h.listed
  obtain ⟨pre, post, hl, hpre, hpost, hwalk⟩ := walkChildren_spec
    (fun r => ¬ Named name priority r) (w := none) hsl h.items_length
  rw [Option.or_none] at hwalk
  have hpre : ∀ y ∈ pre, ¬ Named name priority y.2 := fun y hy => of_decide_eq_true (hpre y hy)
  cases post with
  | nil =>
    rw [append_nil] at hl
    subst hl
    exact .inl ⟨hwalk, hpre⟩
  | cons y post =>
    have hy : Named name priority y.2 := by
      have := hpost y rfl
      rwa [decide_eq_true_eq, not_not] at this
    exact .inr ⟨pre, y.1, y.2, post, hl, hy, hpre, hwalk⟩

theorem AllOrdered.fewer (h : AllOrdered (A ++ sl :: B)) (hsub : items.Sublist sl.items) :
    AllOrdered (A ++ (withOnly sl items ++ B)) := by
  intro t ht
  rcases mem_append.mp ht with ht | ht
  · exact h t (mem_append_left _ ht)
  · rcases mem_append.mp ht with ht | ht
    · cases items with
      | nil => cases ht
      | cons y items =>
        obtain rfl := mem_singleton.mp ht
        exact List.Pairwise.sublist (hsub.map Prod.snd) (h sl (mem_append_right _ mem_cons_self))
    · exact h t (mem_append_right _ (mem_cons_of_mem _ ht))

theorem unloadSlices_spec {n : Nat} (hs : Stands s (A ++ B)) (ho : AllOrdered (A ++ B))
    (hpair : B.Pairwise fun u t => (∃ y ∈ t.items, Named name priority y.2) → ∃ y ∈ u.items, Named name priority y.2)
    (hn : B.length ≤ n) : ∃ s', Context.unloadSlices name priority n s (leads B none) = .ok s' ∧
      Stands s' (A ++ B.flatMap (without name priority)) ∧ s'.lookupCacheSize = s.lookupCacheSize ∧
      s'.mem.brk = s.mem.brk ∧ ∀ q, q ∉ addrs (A ++ B) → s'.mem.cells q = s.mem.cells q := by
  induction B generalizing s A n with
  | nil =>
    refine ⟨s, ?_, hs, rfl, rfl, fun _ _ => rfl⟩
    unfold leads Context.unloadSlices
    rfl
  | cons t B ih =>
    obtain ⟨n, rfl, hn'⟩ := Lib.exists_round hn
    obtain ⟨hfollow, hpair⟩ := pairwise_cons.mp hpair
    obtain ⟨td, htd, -, -, hsits, -⟩ := hs.holds.head
    unfold leads Context.unloadSlices
    rw [Memory.get_eq htd, ok_bind, hsits.next]
    rcases findRegistered_spec hs.holds with ⟨hfind, hnone⟩ | ⟨pre, p, r, post, hl, hr, hpre, hfind⟩
    · -- the registration ends before this slice
      rw [hfind]
      refine ⟨s, rfl, ?_, rfl, rfl, fun _ _ => rfl⟩
      rw [flatMap_without_of_none fun u hu y hy hnamed => ?_]
      · exact hs
      · rcases mem_cons.mp hu with rfl | hu
        · exact hnone y hy hnamed
        · obtain ⟨y', hy', hnamed'⟩ := hfollow u hu ⟨y, hy, hnamed⟩
          exact hnone y' hy' hnamed'
    · rw [hfind, ok_bind]
      simp only []
      obtain ⟨s₁, hs₁, hunloaded⟩ := subtreeUnload_spec hs hl
      obtain ⟨pd, hpd, -⟩ := hunloaded.taken.cell
      rw [hs₁, ok_bind, Memory.free_eq hpd, ok_bind]
      have hcells : ∀ q, q ≠ p → q ∉ addrs (A ++ t :: B) →
          Function.update s₁.mem.cells p none q = s.mem.cells q := fun q hqp hq => by
        rw [Function.update_of_ne hqp, hunloaded.taken.frame q hq]
      have hassoc : A ++ (withOnly t (pre ++ post) ++ B) = (A ++ withOnly t (pre ++ post)) ++ B := by rw [append_assoc]
      have hs₂ : Stands { s₁ with mem := ⟨Function.update s₁.mem.cells p none, s₁.mem.brk⟩ }
          ((A ++ withOnly t (pre ++ post)) ++ B) := by
        rw [← hassoc]
        exact hunloaded.stands.freed (hs.holds.apart hl)
      have ho₂ : AllOrdered ((A ++ withOnly t (pre ++ post)) ++ B) := by
        rw [← hassoc]
        refine ho.fewer ?_
        rw [hl]
        exact (List.Sublist.refl pre).append (sublist_cons_self _ _)
      obtain ⟨s', hs', hstands, hsize, hbrk, hframe⟩ := ih hs₂ ho₂ hpair hn'
      have hwithout : without name priority t = withOnly t (pre ++ post) := by
        unfold without
        rw [hl, filter_named (hl ▸ ho t (mem_append_right _ mem_cons_self)) hpre hr]
      refine ⟨s', hs', ?_, hsize.trans hunloaded.size, hbrk.trans hunloaded.taken.brk, fun q hq => ?_⟩
      · rw [flatMap_cons, hwithout, ← append_assoc]
        exact hstands
      · have hqp : q ≠ p := by
          rintro rfl
          exact hq (by simp [hl])
        have hq₂ : q ∉ addrs ((A ++ withOnly t (pre ++ post)) ++ B) := by
          intro hmem
          apply hq
          simp only [addrs_append, addrs_withOnly, addrs_cons, hl, map_append, map_cons, mem_append,
            mem_cons] at hmem ⊢
          tauto
        exact (hframe q hq₂).trans (hcells q hqp hq)

/-- What the slices carry for a registration: all that lies from its name up to some place, and its name at least. -/
structure Spread (T : List (Chain H)) (name : ObjId) (priority : Int) : Prop where
  here : ∃ r, Carries (regsOf T) name r ∧ Named name priority r
  behind : ∀ x r, Carries (regsOf T) x r → Named name priority r → name ≤ x
  convex : ∀ x y r, Carries (regsOf T) y r → Named name priority r → name ≤ x → x ≤ y → Carries (regsOf T) x r

theorem carries_start (hs : Sliced T) {t : Chain H} (ht : t ∈ T) {y : Ptr × Registration H} (hy : y ∈ t.items) :
    Carries (regsOf T) t.start y.2 :=
  carries_regsOf.mpr ⟨t, ht, ⟨Std.le_refl _, hs.proper t ht⟩, mem_map_of_mem hy⟩

theorem Spread.none_before (h : Spread (A ++ sl :: B) name priority) (hs : Sliced (A ++ sl :: B)) (hover : sl.Over name) :
    ∀ t ∈ A, ∀ y ∈ t.items, ¬ Named name priority y.2 := by
  intro t ht y hy hnamed
  have hmem : t ∈ A ++ sl :: B := mem_append_left _ ht
  have hle := h.behind t.start y.2 (carries_start hs hmem hy) hnamed
  have hproper := hs.proper t hmem
  have hstop := (Slice.sliced_append.mp hs).2.2 t ht sl mem_cons_self
  have hstart := hover.1
  grind

theorem Spread.follow (h : Spread (A ++ sl :: B) name priority) (hs : Sliced (A ++ sl :: B)) (hover : sl.Over name) :
    B.Pairwise fun u t => (∃ y ∈ t.items, Named name priority y.2) → ∃ y ∈ u.items, Named name priority y.2 := by
  obtain ⟨-, hslB, -⟩ := Slice.sliced_append.mp hs
  obtain ⟨-, hB, hbehind⟩ := Slice.sliced_cons.mp hslB
  refine List.Pairwise.imp_of_mem ?_ hB.apart
  rintro u t hu ht hut ⟨y, hy, hnamed⟩
  have humem : u ∈ A ++ sl :: B := mem_append_right _ (mem_cons_of_mem _ hu)
  have htmem : t ∈ A ++ sl :: B := mem_append_right _ (mem_cons_of_mem _ ht)
  have hu₀ := hs.proper u humem
  have hsl := hbehind u hu
  have hstop := hover.2
  -- the registration is carried over the start of `u`, and it is `u` that lies there
  have hcarried := h.convex u.start t.start y.2 (carries_start hs htmem hy) hnamed (by grind) (by grind)
  obtain ⟨u', hu', hover', hmem⟩ := carries_regsOf.mp hcarried
  obtain rfl := hs.over_unique hu' humem hover' ⟨Std.le_refl _, hu₀⟩
  obtain ⟨y', hy', heq⟩ := mem_map.mp hmem
  exact ⟨y', hy', heq ▸ hnamed⟩

theorem mem_withOnly {t : Chain H} : t ∈ withOnly sl items ↔ t.start = sl.start ∧ t.stop = sl.stop ∧ t.items = items := by
  cases items with
  | nil =>
    refine iff_of_false (not_mem_nil) fun h => ?_
    exact cons_ne_nil _ _ h.2.2
  | cons y items =>
    obtain ⟨start, stop, top, under⟩ := t
    show _ ∈ [_] ↔ start = sl.start ∧ stop = sl.stop ∧ top :: under = y :: items
    rw [mem_singleton, Slice.mk.injEq, List.cons.injEq]

/-! ## what is kept of all slices -/

/-- What is left of a slice with none but the nodes of some registrations. -/
def keeping (keep : Registration H → Bool) (sl : Chain H) : List (Chain H) :=
  withOnly sl (sl.items.filter fun y => keep y.2)

variable {keep : Registration H → Bool}

theorem addrs_keeping : (addrs (T.flatMap (keeping keep))).Sublist (addrs T) := by
  induction T with
  | nil => exact List.Sublist.refl _
  | cons t T ih =>
    rw [flatMap_cons, addrs_append, addrs_cons]
    refine List.Sublist.append ?_ ih
    unfold keeping
    rw [addrs_withOnly]
    exact filter_sublist.map Prod.fst

theorem carries_keeping : Carries (regsOf (T.flatMap (keeping keep))) x r ↔ Carries (regsOf T) x r ∧ keep r = true := by
  rw [carries_regsOf, carries_regsOf]
  constructor
  · rintro ⟨t, ht, hover, hr⟩
    obtain ⟨u, hu, htu⟩ := mem_flatMap.mp ht
    obtain ⟨hstart, hstop, hitems⟩ := mem_withOnly.mp htu
    rw [hitems] at hr
    obtain ⟨y, hy, rfl⟩ := mem_map.mp hr
    obtain ⟨hy, hkeep⟩ := mem_filter.mp hy
    unfold Slice.Over at hover
    rw [hstart, hstop] at hover
    exact ⟨⟨u, hu, hover, mem_map_of_mem hy⟩, hkeep⟩
  · rintro ⟨⟨u, hu, hover, hr⟩, hkeep⟩
    obtain ⟨y, hy, rfl⟩ := mem_map.mp hr
    have hmem : y ∈ u.items.filter fun y => keep y.2 := mem_filter.mpr ⟨hy, hkeep⟩
    obtain ⟨z, zs, hz⟩ := exists_cons_of_ne_nil (ne_nil_of_mem hmem)
    refine ⟨⟨u.start, u.stop, z, zs⟩, mem_flatMap.mpr ⟨u, hu, mem_withOnly.mpr ⟨rfl, rfl, hz.symm⟩⟩, hover, ?_⟩
    show y.2 ∈ (z :: zs).map Prod.snd
    rw [← hz]
    exact mem_map_of_mem hmem

theorem AllOrdered.keeping (h : AllOrdered T) : AllOrdered (T.flatMap (keeping keep)) := by
  intro t ht
  obtain ⟨u, hu, htu⟩ := mem_flatMap.mp ht
  obtain ⟨-, -, hitems⟩ := mem_withOnly.mp htu
  rw [hitems]
  exact List.Pairwise.sublist (filter_sublist.map Prod.snd) (h u hu)

theorem without_eq_keeping : (without name priority : Chain H → List (Chain H)) =
    keeping fun r => decide (¬ Named name priority r) := rfl

theorem carries_without : Carries (regsOf (T.flatMap (without name priority))) x r ↔
    Carries (regsOf T) x r ∧ ¬ Named name priority r := by
  rw [without_eq_keeping, carries_keeping, decide_eq_true_iff]

theorem AllOrdered.without (h : AllOrdered T) : AllOrdered (T.flatMap (without name priority)) := by
  rw [without_eq_keeping]
  exact h.keeping

/-! ## unregistering -/

theorem unregisterMibContext_spec {range : Context.Range} (hs : Stands s T) (ho : AllOrdered T)
    (horig : range.orig = none) (hspread : Spread T range.name range.priority) :
    ∃ s', s.unregisterMibContext range = .ok (s', .unregisteredOk, range.name) ∧
      Stands s' (T.flatMap (without range.name range.priority)) ∧ s'.lookup.thecachecount = 0 ∧
      s'.lookup.currentpos = 0 ∧ s'.mem.brk = s.mem.brk ∧
      s'.lookupCacheSize = (s.setLookupCacheSize s.lookupCacheSize).lookupCacheSize := by
  have hs₀ : Stands (s.setLookupCacheSize 0) T := ⟨hs.holds, hs.first, hs.sliced⟩
  obtain ⟨s₁, found, hfind, hsame, hfound⟩ := find_uncached hs₀ rfl range.name (.inr rfl)
  obtain ⟨reg, hcarried, hnamed⟩ := hspread.here
  obtain ⟨A, sl, B, rfl, hover, rfl⟩ : ∃ A sl B, T = A ++ sl :: B ∧ sl.Over range.name ∧ found = some sl.top.1 := by
    rcases hfound with h | ⟨hnone, -⟩
    · exact h
    · obtain ⟨t, ht, hover, -⟩ := carries_regsOf.mp hcarried
      exact absurd hover (hnone t ht)
  have hsl : sl ∈ A ++ sl :: B := mem_append_right _ mem_cons_self
  have hs₁ := hs₀.same hsame
  obtain ⟨hmem, -, hsize₁⟩ := hsame
  rcases findRegistered_spec hs₁.holds with ⟨-, hnone⟩ | ⟨pre, p, r, post, hl, hr, hpre, hchild⟩
  · obtain ⟨t, ht, hovert, hreg⟩ := carries_regsOf.mp hcarried
    obtain rfl := hs.sliced.over_unique ht hsl hovert hover
    obtain ⟨y, hy, rfl⟩ := mem_map.mp hreg
    exact absurd hnamed (hnone y hy)
  obtain ⟨s₂, hs₂, hunloaded⟩ := subtreeUnload_spec hs₁ hl
  obtain ⟨pd, hpd, hnext⟩ := hunloaded.taken.cell
  -- the slices that follow
  have hassoc : A ++ (withOnly sl (pre ++ post) ++ B) = (A ++ withOnly sl (pre ++ post)) ++ B := by rw [append_assoc]
  have hstands₂ : Stands s₂ ((A ++ withOnly sl (pre ++ post)) ++ B) := hassoc ▸ hunloaded.stands
  have hordered₂ : AllOrdered ((A ++ withOnly sl (pre ++ post)) ++ B) := by
    rw [← hassoc]
    refine ho.fewer ?_
    rw [hl]
    exact (List.Sublist.refl pre).append (sublist_cons_self _ _)
  have hlen : B.length ≤ s₂.mem.brk := by
    have := hstands₂.holds.length_le
    rw [length_append] at this
    omega
  obtain ⟨s₃, hs₃, hstands₃, -, hbrk₃, hframe₃⟩ := unloadSlices_spec hstands₂ hordered₂
    (hspread.follow hs.sliced hover) hlen
  have hapart : p ∉ addrs ((A ++ withOnly sl (pre ++ post)) ++ B) := hassoc ▸ hs₁.holds.apart hl
  have hpd₃ : s₃.mem.cells p = some pd := (hframe₃ p hapart).trans hpd
  have hrest : (A ++ sl :: B).flatMap (without range.name range.priority) =
      (A ++ withOnly sl (pre ++ post)) ++ B.flatMap (without range.name range.priority) := by
    have hsl' : without range.name range.priority sl = withOnly sl (pre ++ post) := by
      unfold without
      rw [hl, filter_named (hl ▸ ho sl hsl) hpre hr]
    rw [flatMap_append, flatMap_cons, flatMap_without_of_none (hspread.none_before hs.sliced hover), hsl',
      append_assoc]
  have hapart₃ : p ∉ addrs ((A ++ sl :: B).flatMap (without range.name range.priority)) := by
    rw [hrest]
    intro hmem
    rw [addrs_append] at hmem hapart
    rcases mem_append.mp hmem with hmem | hmem
    · exact hapart (mem_append_left _ hmem)
    · rw [without_eq_keeping] at hmem
      exact hapart (mem_append_right _ (addrs_keeping.subset hmem))
  have hloop : Context.unregisterLoop range (s.mem.brk + 1) (s.setLookupCacheSize 0) range.name =
      .ok ({ s₃ with mem := ⟨Function.update s₃.mem.cells p none, s₃.mem.brk⟩ }, .unregisteredOk, range.name) := by
    unfold Context.unregisterLoop
    rw [hfind, ok_bind]
    simp only []
    rw [hchild, ok_bind]
    simp only []
    rw [hs₂, ok_bind, Memory.get_eq hpd, ok_bind, hnext, hs₃, ok_bind, horig]
    simp only []
    rw [Memory.free_eq hpd₃]
    rfl
  have hfreed := Stands.freed (hrest.symm ▸ hstands₃) hapart₃
  refine ⟨(({ s₃ with mem := ⟨Function.update s₃.mem.cells p none, s₃.mem.brk⟩ } : Context H).setLookupCacheSize
    s.lookupCacheSize).invalidateLookupCache, ?_, ⟨hfreed.holds, hfreed.first, hfreed.sliced⟩, rfl, rfl, ?_, rfl⟩
  · unfold Context.unregisterMibContext
    show (Context.unregisterLoop range (s.mem.brk + 1) (s.setLookupCacheSize 0) range.name >>= _) = _
    rw [hloop, ok_bind]
    rfl
  · show s₃.mem.brk = _
    rw [hbrk₃, hunloaded.taken.brk, hmem]
    rfl

end Priot.Registry
