/-
# A node in its chain

A new node goes behind the longer names and behind those as long with less priority, inside the chain or as its head.
-/
import Priot.Registry.Find

namespace Priot.Registry

open Lib Lib.Slice List

variable {H : Type} {c c' : Ptr → Option (Subtree H)} {P : Subtree H → Prop} {a : Option Ptr}
  {m m' : Memory H} {T A B : List (Chain H)} {sl : Chain H} {l pre post : Items H} {p : Ptr} {r : Registration H}
  {nd : Subtree H} {z : Ptr × Registration H}

/-! ## the order in a chain -/

/-- `r` stands before `r'` in a chain. -/
def Ahead (r r' : Registration H) : Prop :=
  r'.name.length < r.name.length ∨ (r.name.length = r'.name.length ∧ r.priority < r'.priority)

/-- A chain cannot have both. -/
def SameKey (r r' : Registration H) : Prop := r.name.length = r'.name.length ∧ r.priority = r'.priority

def Ordered (rs : List (Registration H)) : Prop := rs.Pairwise Ahead

theorem Ahead.trans {r₁ r₂ r₃ : Registration H} (h : Ahead r₁ r₂) (h' : Ahead r₂ r₃) : Ahead r₁ r₃ := by
  unfold Ahead at *
  omega

theorem ahead_or (r r' : Registration H) : Ahead r r' ∨ SameKey r r' ∨ Ahead r' r := by
  unfold Ahead SameKey
  omega

theorem Ahead.irrefl_key {r r' : Registration H} (h : Ahead r r') : ¬ SameKey r r' := by
  unfold Ahead SameKey at *
  omega

theorem Ahead.asymm {r r' : Registration H} (h : Ahead r r') : ¬ Ahead r' r := by
  unfold Ahead at *
  omega

/-! ## walking the children -/

theorem Nodes.drop {i : Items H} (hl : Nodes c P a (i ++ post)) : Nodes c P (post.head?.map Prod.fst) post := by
  induction i generalizing a with
  | nil =>
    have := hl.start
    rwa [this] at hl
  | cons y pre ih =>
    obtain ⟨-, nd, -, -, -, -, hl⟩ := hl
    exact ih hl

theorem walkChildren_spec (go : Registration H → Bool) {n : Nat} {w : Option Ptr} (hl : Nodes m.cells P a l)
    (hn : l.length ≤ n) : ∃ pre post, l = pre ++ post ∧ (∀ y ∈ pre, go y.2) ∧ (∀ y ∈ post.head?, ¬ go y.2) ∧
      m.walkChildren go n w a = .ok ((pre.getLast?.map Prod.fst).or w, post.head?.map Prod.fst) := by
  induction l generalizing a n w with
  | nil =>
    obtain rfl : a = none := hl
    refine ⟨[], [], rfl, nofun, nofun, ?_⟩
    unfold Memory.walkChildren
    rfl
  | cons y l ih =>
    obtain ⟨p, r⟩ := y
    obtain ⟨rfl, nd, hp, hr, -, -, hl⟩ := hl
    obtain ⟨n, rfl, hn'⟩ := Lib.exists_round hn
    unfold Memory.walkChildren
    rw [Memory.get_eq hp, ok_bind, hr]
    split
    · next hgo =>
      obtain ⟨pre, post, rfl, hpre, hpost, hw⟩ := ih (w := some p) hl hn'
      refine ⟨(p, r) :: pre, post, rfl, fun y hy => ?_, hpost, ?_⟩
      · rcases mem_cons.mp hy with rfl | hy
        · exact hgo
        · exact hpre y hy
      · rw [hw]
        cases h : pre.getLast? with
        | none =>
          rw [getLast?_eq_none_iff] at h
          rw [h]
          rfl
        | some z => rw [getLast?_cons, h]; rfl
    · next hgo =>
      refine ⟨[], (p, r) :: l, rfl, nofun, ?_, rfl⟩
      rintro _ ⟨⟩
      exact hgo

theorem placeInChain_spec {h : Ptr} (hl : Nodes m.cells P (some h) l) (hn : l.length ≤ m.brk)
    (ho : Ordered (l.map Prod.snd)) :
    ∃ pre post, l = pre ++ post ∧ (∀ y ∈ pre, Ahead y.2 r) ∧ (∀ y ∈ post, ¬ Ahead y.2 r) ∧
      m.placeInChain r h = .ok (pre.getLast?.map Prod.fst, post.head?.map Prod.fst) := by
  obtain ⟨pre, mid, rfl, hpre, hmid, hw⟩ :=
    walkChildren_spec (fun r' => r'.name.length > r.name.length) (w := none) hl hn
  obtain ⟨mid, post, rfl, hmid', hpost, hw'⟩ := walkChildren_spec
    (fun r' => r'.name.length = r.name.length ∧ r'.priority < r.priority) (w := pre.getLast?.map Prod.fst)
    (n := m.brk) hl.drop (le_trans (by rw [length_append]; omega) hn)
  have hno : ∀ y ∈ post.head?, ¬ Ahead y.2 r := by
    intro y hy hahead
    have hlong : r.name.length < y.2.name.length := by
      rcases hahead with h | h
      · exact h
      · exact absurd (by simpa using h) (hpost y hy)
    cases mid with
    | nil => exact hmid y hy (by simpa using hlong)
    | cons w mid =>
      have hw : w.2.name.length = r.name.length ∧ w.2.priority < r.priority := by simpa using hmid' w mem_cons_self
      have hwy : Ahead w.2 y.2 := by
        rw [Ordered, map_append, map_append] at ho
        obtain ⟨-, ho, -⟩ := pairwise_append.mp ho
        refine (pairwise_append.mp ho).2.2 _ (mem_map_of_mem mem_cons_self) _ ?_
        exact mem_map_of_mem (mem_of_mem_head? hy)
      rcases hwy with h | h <;> omega
  refine ⟨pre ++ mid, post, (append_assoc ..).symm, fun y hy => ?_, fun y hy => ?_, ?_⟩
  · rcases mem_append.mp hy with hy | hy
    · exact .inl (by simpa using hpre y hy)
    · exact .inr (by simpa using hmid' y hy)
  · cases post with
    | nil => cases hy
    | cons w post =>
      rcases mem_cons.mp hy with rfl | hy
      · exact hno y rfl
      · intro hahead
        rw [Ordered, map_append, map_append] at ho
        obtain ⟨-, ho, -⟩ := pairwise_append.mp ho
        have hwy := (pairwise_cons.mp (pairwise_append.mp ho).2.1).1 y.2 (mem_map_of_mem hy)
        exact hno w rfl (hwy.trans hahead)
  · unfold Memory.placeInChain
    rw [hw, ok_bind]
    simp only [Option.or_none]
    rw [hw', getLast?_append]
    cases mid.getLast? <;> rfl

/-! ## children are put in and taken out -/

def setChildren (ch : Option Ptr) (nd : Subtree H) : Subtree H := { nd with children := ch }

theorem Nodes.insert (hl : Nodes c P a (pre ++ post)) (hz : pre.getLast? = some z)
    (hnodup : ((pre ++ post).map Prod.fst).Nodup)
    (hc : ∀ q ∈ (pre ++ post).map Prod.fst, c' q = if q = z.1 then (c q).map (setChildren (some p)) else c q)
    (hP : ∀ nd, P nd → P (setChildren (some p) nd))
    (hp : c' p = some nd) (hr : nd.reg = r) (hg : nd.reginfo = some p) (hnd : P nd)
    (hch : nd.children = post.head?.map Prod.fst) : Nodes c' P a (pre ++ (p, r) :: post) := by
  induction pre generalizing a with
  | nil => cases hz
  | cons y pre ih =>
    obtain ⟨q, r'⟩ := y
    obtain ⟨ha, nd', hq, hr', hg', hP', hl⟩ := hl
    obtain ⟨hqn, hnodup'⟩ := nodup_cons.mp hnodup
    cases pre with
    | nil =>
      obtain rfl : (q, r') = z := Option.some.inj hz
      refine ⟨ha, setChildren (some p) nd', ?_, hr', hg', hP nd' hP', rfl, nd, hp, hr, hg, hnd, ?_⟩
      · rw [hc q mem_cons_self, if_pos rfl, hq]
        rfl
      · rw [hch]
        refine (Nodes.drop (i := []) hl).frame fun w hw => ?_
        rw [hc w (mem_cons_of_mem _ hw), if_neg fun h : w = q => hqn (h ▸ hw)]
    | cons y' pre =>
      rw [getLast?_cons_cons] at hz
      have hzmem : z.1 ∈ ((y' :: pre) ++ post).map Prod.fst :=
        mem_map_of_mem (mem_append_left _ (mem_of_getLast? hz))
      refine ⟨ha, nd', ?_, hr', hg', hP', ih hl hz hnodup' fun w hw => hc w (mem_cons_of_mem _ hw)⟩
      rw [hc q mem_cons_self, if_neg fun h : q = z.1 => hqn (h ▸ hzmem), hq]

theorem Nodes.remove (hl : Nodes c P a (pre ++ (p, r) :: post)) (hz : pre.getLast? = some z)
    (hnodup : ((pre ++ (p, r) :: post).map Prod.fst).Nodup) (hc : ∀ q ∈ (pre ++ post).map Prod.fst,
      c' q = if q = z.1 then (c q).map (setChildren (post.head?.map Prod.fst)) else c q)
    (hP : ∀ ch nd, P nd → P (setChildren ch nd)) : Nodes c' P a (pre ++ post) := by
  induction pre generalizing a with
  | nil => cases hz
  | cons y pre ih =>
    obtain ⟨q, r'⟩ := y
    obtain ⟨ha, nd', hq, hr', hg', hP', hl⟩ := hl
    obtain ⟨hqn, hnodup'⟩ := nodup_cons.mp hnodup
    cases pre with
    | nil =>
      obtain rfl : (q, r') = z := Option.some.inj hz
      refine ⟨ha, setChildren (post.head?.map Prod.fst) nd', ?_, hr', hg', hP _ nd' hP', ?_⟩
      · rw [hc q mem_cons_self, if_pos rfl, hq]
        rfl
      · refine (Nodes.drop (i := [(p, r)]) hl).frame fun w hw => ?_
        rw [hc w (mem_cons_of_mem _ hw), if_neg fun h : w = q => hqn (mem_cons_of_mem _ (h ▸ hw))]
    | cons y' pre =>
      rw [getLast?_cons_cons] at hz
      have hzmem : z.1 ∈ ((y' :: pre) ++ (p, r) :: post).map Prod.fst :=
        mem_map_of_mem (mem_append_left _ (mem_of_getLast? hz))
      refine ⟨ha, nd', ?_, hr', hg', hP', ih hl hz hnodup' fun w hw => hc w (mem_cons_of_mem _ hw)⟩
      rw [hc q mem_cons_self, if_neg fun h : q = z.1 => hqn (h ▸ hzmem), hq]

/-! ## a chain with one node more -/

/-- The slice with the items before `y`, `y`, and the items behind. -/
def withItems (sl : Chain H) (pre : Items H) (y : Ptr × Registration H) (post : Items H) : Chain H :=
  match pre with
  | [] => ⟨sl.start, sl.stop, y, post⟩
  | z :: pre => ⟨sl.start, sl.stop, z, pre ++ y :: post⟩

@[simp] theorem withItems_items (sl : Chain H) (pre : Items H) (y : Ptr × Registration H) (post : Items H) :
    (withItems sl pre y post).items = pre ++ y :: post := by
  cases pre <;> rfl

@[simp] theorem withItems_start (sl : Chain H) (pre : Items H) (y : Ptr × Registration H) (post : Items H) :
    (withItems sl pre y post).start = sl.start := by
  cases pre <;> rfl

@[simp] theorem withItems_stop (sl : Chain H) (pre : Items H) (y : Ptr × Registration H) (post : Items H) :
    (withItems sl pre y post).stop = sl.stop := by
  cases pre <;> rfl

theorem items_nil_or_last (pre : Items H) : pre = [] ∨ ∃ z, pre.getLast? = some z := by
  cases h : pre.getLast? with
  | none => exact .inl (getLast?_eq_none_iff.mp h)
  | some z => exact .inr ⟨z, rfl⟩

theorem addrs_withItems (y : Ptr × Registration H) (hl : sl.items = pre ++ post) :
    (addrs (A ++ withItems sl pre y post :: B)).Perm (y.1 :: addrs (A ++ sl :: B)) := by
  have h := insert_perm (addrs A ++ pre.map Prod.fst) [] [y.1] (post.map Prod.fst ++ addrs B)
  simpa [hl] using h

/-- The predecessor of what follows a list. -/
def predOf (A : List (Chain H)) : Pred := A.getLast?.map fun sl => (sl.top.1, sl.start)

theorem behind_eq (A : List (Chain H)) : behind (some none) A = some (predOf A) := by
  rcases eq_nil_or_concat A with rfl | ⟨A, sl, rfl⟩
  · rfl
  · rw [concat_eq_append, behind_concat]
    simp [predOf, pred]

theorem predOf_fst (A : List (Chain H)) : (predOf A).map Prod.fst = lastHead A := by
  unfold predOf lastHead
  rw [Option.map_map]
  rfl

theorem Listed.pred_cell {k : Option Pred} {next : Option Ptr} (hA : Listed c k A next) :
    ∀ x ∈ predOf A, x.1 ∈ addrs A ∧ ∃ nd, c x.1 = some nd ∧ nd.start = x.2 := by
  rcases eq_nil_or_concat A with rfl | ⟨A, sl, rfl⟩
  · nofun
  · intro x hx
    rw [concat_eq_append] at hA hx ⊢
    obtain rfl : (sl.top.1, sl.start) = x := by simpa [predOf] using hx
    obtain ⟨-, hsl, -⟩ := listed_append.mp hA
    obtain ⟨nd, hnd, -, hsits, -⟩ := hsl.mem (p := sl.top.1) mem_cons_self
    exact ⟨by simp [Slice.items], nd, hnd, hsits.start⟩

theorem Listed.leads_cell (hB : Listed c (pred sl) B none) :
    ∀ q ∈ leads B none, q ∈ addrs B ∧ ∃ nd, c q = some nd ∧ setOff sl.start nd = nd := by
  cases B with
  | nil => nofun
  | cons sl' B =>
    rintro _ ⟨⟩
    obtain ⟨nd, hnd, -, -, hknows⟩ := hB.1.mem (p := sl'.top.1) mem_cons_self
    refine ⟨by simp [Slice.items], nd, hnd, ?_⟩
    unfold setOff
    rw [← hknows.off _ rfl _ rfl]

/-- What has come of the memory when a node has been put into a chain. -/
structure Merged (m m' : Memory H) (A : List (Chain H)) (sl : Chain H) (pre : Items H) (p : Ptr)
    (r : Registration H) (post : Items H) (B : List (Chain H)) : Prop where
  brk : m'.brk = m.brk
  holds : Holds m' (some none) (A ++ withItems sl pre (p, r) post :: B)
  frame : ∀ q, q ≠ p → q ∉ addrs (A ++ sl :: B) → m'.cells q = m.cells q

/-- A new node and the list that it is to go into. -/
structure Fits (m : Memory H) (A : List (Chain H)) (sl : Chain H) (B : List (Chain H)) (p : Ptr) (nd : Subtree H) :
    Prop where
  holds : Holds m (some none) (A ++ sl :: B)
  cell : m.cells p = some nd
  apart : p ∉ addrs (A ++ sl :: B)
  below : p < m.brk
  start : nd.start = sl.start
  stop : nd.stop = sl.stop
  reginfo : nd.reginfo = some p

theorem Fits.holds' (h : Fits m A sl B p nd) (hl : sl.items = pre ++ post) (hbrk : m'.brk = m.brk)
    (hA : Listed m'.cells (some none) A (some (withItems sl pre (p, r) post).top.1))
    (hsl : Nodes m'.cells (fun nd => Sits sl (leads B none) nd ∧ Knows (some (predOf A)) nd)
      (some (withItems sl pre (p, r) post).top.1) (pre ++ (p, r) :: post))
    (hB : Listed m'.cells (pred (withItems sl pre (p, r) post)) B none) :
    Holds m' (some none) (A ++ withItems sl pre (p, r) post :: B) := by
  refine ⟨listed_append.mpr ⟨hA, ?_, hB⟩, ?_, fun q hq => ?_⟩
  · rw [withItems_items, behind_eq]
    exact hsl.mono fun nd hnd => ⟨⟨by simpa using hnd.1.start, by simpa using hnd.1.stop, hnd.1.next⟩, hnd.2⟩
  · rw [(addrs_withItems _ hl).nodup_iff]
    exact nodup_cons.mpr ⟨h.apart, h.holds.nodup⟩
  · rw [(addrs_withItems _ hl).mem_iff] at hq
    rw [hbrk]
    rcases mem_cons.mp hq with rfl | hq
    · exact h.below
    · exact h.holds.below q hq

namespace Fits

open Memory

theorem parts (h : Fits m A sl B p nd) : (addrs A).Nodup ∧ (sl.items.map Prod.fst).Nodup ∧ (addrs B).Nodup ∧
      (∀ q ∈ addrs A, q ∉ sl.items.map Prod.fst ∧ q ∉ addrs B) ∧ ∀ q ∈ sl.items.map Prod.fst, q ∉ addrs B := by
  have hn := h.holds.nodup
  rw [addrs_append, addrs_cons] at hn
  obtain ⟨hA, hslB, hdisj⟩ := nodup_append.mp hn
  obtain ⟨hsl, hB, hdisj'⟩ := nodup_append.mp hslB
  refine ⟨hA, hsl, hB, fun q hq => ⟨?_, ?_⟩, fun q hq hqB => hdisj' q hq q hqB rfl⟩
  · exact fun hmem => hdisj q hq q (mem_append_left _ hmem) rfl
  · exact fun hmem => hdisj q hq q (mem_append_right _ hmem) rfl

theorem apart' (h : Fits m A sl B p nd) : p ∉ addrs A ∧ p ∉ sl.items.map Prod.fst ∧ p ∉ addrs B := by
  have hp := h.apart
  rw [addrs_append, addrs_cons, mem_append, mem_append, not_or, not_or] at hp
  exact hp

theorem linkNode (h : Fits m A sl B p nd) {m₁ : Memory H} (nd₁ : Subtree H) (hp : m₁.cells p = some nd₁)
    (hstart : nd₁.start = sl.start) (hA₁ : ∀ q ∈ addrs A, m₁.cells q = m.cells q)
    (hB₁ : ∀ q ∈ addrs B, m₁.cells q = m.cells q) : ∃ m₂ m₃, m₁.subtreeChangePrev p ((predOf A).map Prod.fst) = .ok m₂ ∧
      m₂.subtreeChangeNext p (leads B none) = .ok m₃ ∧ m₃.brk = m₁.brk ∧
      m₃.cells p = some (setNext (leads B none) (setPrev (predOf A) nd₁)) ∧ ∀ q, q ≠ p → m₃.cells q = m₁.cells q := by
  obtain ⟨hA, -, hB⟩ := listed_append.mp h.holds.listed
  obtain ⟨hpA, -, hpB⟩ := h.apart'
  obtain ⟨m₂, hm₂, hb₂, hc₂⟩ := subtreeChangePrev_spec (v := predOf A) hp fun x hx => by
    obtain ⟨hxA, xd, hxd, hxstart⟩ := hA.pred_cell x hx
    exact ⟨fun h => hpA (h ▸ hxA), xd, (hA₁ _ hxA).trans hxd, hxstart⟩
  have hp₂ : m₂.cells p = some (setPrev (predOf A) nd₁) := by
    rw [hc₂, if_pos rfl, hp]
    rfl
  have hleads : ∀ q ∈ leads B none, q ≠ p := fun q hq h => hpB (h ▸ (hB.leads_cell q hq).1)
  obtain ⟨m₃, hm₃, hb₃, hc₃⟩ := subtreeChangeNext_spec (t := leads B none) hp₂ fun q hq => by
    obtain ⟨hqB, qd, hqd, -⟩ := hB.leads_cell q hq
    exact ⟨hleads q hq, qd, by rw [hc₂, if_neg (hleads q hq), hB₁ q hqB, hqd]⟩
  refine ⟨m₂, m₃, hm₂, hm₃, hb₃.trans hb₂, ?_, ?_⟩
  · rw [hc₃, if_pos rfl, hp₂]
    rfl
  · intro q hqp
    have hsame : (setPrev (predOf A) nd₁).start = sl.start := hstart
    rw [hc₃, if_neg hqp, hsame, hc₂, if_neg hqp]
    split
    · next hq =>
      obtain ⟨hqB, qd, hqd, hoff⟩ := hB.leads_cell q hq
      rw [hB₁ q hqB, hqd, Option.map_some, hoff]
    · rfl

theorem inner (h : Fits m A sl B p nd) (hl : sl.items = pre ++ post) (hz : pre.getLast? = some z) :
    ∃ m', (do
        let m ← m.set z.1 fun nd => { nd with children := some p }
        let m ← m.set p fun nd => { nd with children := post.head?.map Prod.fst }
        let before ← m.get z.1
        let m ← m.subtreeChangePrev p before.prev
        let m ← m.subtreeChangeNext p before.next
        .ok (m, MibResult.registeredOk)) = Except.ok (m', MibResult.registeredOk) ∧
      Merged m m' A sl pre p nd.reg post B := by
  obtain ⟨hA, hsl, hB⟩ := listed_append.mp h.holds.listed
  obtain ⟨hnA, hnsl, hnB, hdA, hdsl⟩ := h.parts
  obtain ⟨hpA, hpsl, hpB⟩ := h.apart'
  rw [behind_eq] at hsl
  have hzsl : z.1 ∈ sl.items.map Prod.fst := by
    rw [hl]
    exact mem_map_of_mem (mem_append_left _ (mem_of_getLast? hz))
  have hzp : z.1 ≠ p := fun hzp => hpsl (hzp ▸ hzsl)
  obtain ⟨zd, hzd, -, hsits, hknows⟩ := hsl.mem hzsl
  -- the two pointers to children
  obtain ⟨m₁, hm₁, hb₁, hc₁⟩ := set_spec hzd fun nd => { nd with children := some p }
  obtain ⟨m₂, hm₂, hb₂, hc₂⟩ := set_spec (show m₁.cells p = some nd by rw [hc₁, if_neg hzp.symm, h.cell])
    fun nd => { nd with children := post.head?.map Prod.fst }
  have hz₂ : m₂.cells z.1 = some (setChildren (some p) zd) := by
    rw [hc₂, if_neg hzp, hc₁, if_pos rfl]
    rfl
  have hother₂ : ∀ q, q ≠ p → q ≠ z.1 → m₂.cells q = m.cells q := by
    intro q hqp hqz
    rw [hc₂, if_neg hqp, hc₁, if_neg hqz]
  have hzAB : ∀ q, q ∈ addrs A ∨ q ∈ addrs B → q ≠ z.1 := by
    rintro q (hq | hq) rfl
    · exact (hdA _ hq).1 hzsl
    · exact hdsl _ hzsl hq
  obtain ⟨m₃, m₄, hm₃, hm₄, hb₄, hp₄, hc₄⟩ := h.linkNode (setChildren (post.head?.map Prod.fst) nd)
    ((hc₂ p).trans (if_pos rfl)) h.start
    (fun q hq => hother₂ q (fun h => hpA (h ▸ hq)) (hzAB q (.inl hq)))
    (fun q hq => hother₂ q (fun h => hpB (h ▸ hq)) (hzAB q (.inr hq)))
  have hfin : ∀ q, q ≠ p → m₄.cells q = if q = z.1 then (m.cells q).map (setChildren (some p)) else m.cells q := by
    intro q hqp
    rw [hc₄ q hqp]
    split
    · next hqz =>
      subst hqz
      rw [hz₂, hzd]
      rfl
    · next hqz => exact hother₂ q hqp hqz
  have hother : ∀ q, q ≠ p → q ∉ sl.items.map Prod.fst → m₄.cells q = m.cells q := fun q hqp hq => by
    rw [hfin q hqp, if_neg fun h : q = z.1 => hq (h ▸ hzsl)]
  have hbrk : m₄.brk = m.brk := hb₄.trans (hb₂.trans hb₁)
  refine ⟨m₄, ?_, hbrk, ?_, ?_⟩
  · have hprev : zd.prev = (predOf A).map Prod.fst := hknows.prev _ rfl
    rw [hm₁, ok_bind, hm₂, ok_bind, get_eq hz₂, ok_bind]
    show (m₂.subtreeChangePrev p zd.prev >>= fun m => m.subtreeChangeNext p zd.next >>= _) = _
    rw [hprev, hm₃, ok_bind, hsits.next, hm₄]
    rfl
  · have htop : (withItems sl pre (p, nd.reg) post).top = sl.top := by
      cases pre with
      | nil => cases hz
      | cons y pre =>
        show y = sl.top
        exact (List.cons.inj hl).1.symm
    refine h.holds' hl hbrk ?_ ?_ ?_
    · rw [htop]
      exact hA.frame fun q hq => hother q (fun h => hpA (h ▸ hq)) (hdA q hq).1
    · rw [htop]
      rw [hl] at hsl hnsl
      refine hsl.insert hz hnsl (fun q hq => hfin q fun h => hpsl (h ▸ hl ▸ hq))
        (fun nd hnd => ⟨⟨hnd.1.start, hnd.1.stop, hnd.1.next⟩, hnd.2.congr rfl rfl rfl⟩) hp₄ rfl h.reginfo
        ⟨⟨h.start, h.stop, rfl⟩, ?_, ?_⟩ rfl
      · rintro _ ⟨⟩
        rfl
      · rintro _ ⟨⟩ x hx
        show (setPrev (predOf A) _).oidOff = _
        rw [Option.mem_def.mp hx]
        rfl
    · have : pred (withItems sl pre (p, nd.reg) post) = pred sl := by
        unfold pred
        rw [htop, withItems_start]
      rw [this]
      exact hB.frame fun q hq => hother q (fun h => hpB (h ▸ hq)) fun h => hdsl q h hq
  · intro q hqp hq
    rw [addrs_append, addrs_cons, mem_append, mem_append, not_or, not_or] at hq
    exact hother q hqp hq.2.1

theorem offBehind_eq (A : List (Chain H)) (nd : Subtree H) :
    offBehind A nd = { nd with oidOff := (offBehind A nd).oidOff } := by
  unfold offBehind
  cases A.getLast? <;> rfl

theorem offBehind_knows (hprev : nd.prev = (predOf A).map Prod.fst) : Knows (some (predOf A)) (offBehind A nd) := by
  unfold offBehind predOf at *
  cases h : A.getLast? with
  | none =>
    rw [h] at hprev
    refine ⟨?_, ?_⟩
    · rintro _ ⟨⟩
      exact hprev
    · rintro _ ⟨⟩
      nofun
  | some la =>
    rw [h] at hprev
    refine ⟨?_, ?_⟩
    · rintro _ ⟨⟩
      exact hprev
    · rintro _ ⟨⟩ _ ⟨⟩
      rfl

theorem head (h : Fits m A sl B p nd) :
    ∃ m', (do
        let m ← m.set p fun nd => { nd with children := some sl.top.1 }
        let after ← m.get sl.top.1
        let m ← m.subtreeChangePrev p after.prev
        let m ← m.subtreeChangeNext p after.next
        let m ← m.changePrevLoop after.next (some p)
        let m ← m.changeNextLoop after.prev (some p)
        .ok (m, MibResult.registeredOk)) = Except.ok (m', MibResult.registeredOk) ∧
      Merged m m' A sl [] p nd.reg sl.items B := by
  obtain ⟨hA, hsl, hB⟩ := listed_append.mp h.holds.listed
  obtain ⟨hnA, hnsl, hnB, hdA, hdsl⟩ := h.parts
  obtain ⟨hpA, hpsl, hpB⟩ := h.apart'
  rw [behind_eq] at hsl
  have htsl : sl.top.1 ∈ sl.items.map Prod.fst := mem_cons_self
  have htp : sl.top.1 ≠ p := fun htp => hpsl (htp ▸ htsl)
  obtain ⟨td, htd, -, hsits, hknows⟩ := hsl.mem htsl
  obtain ⟨m₁, hm₁, hb₁, hc₁⟩ := set_spec h.cell fun nd => { nd with children := some sl.top.1 }
  have hother₁ : ∀ q, q ≠ p → m₁.cells q = m.cells q := fun q hqp => by rw [hc₁, if_neg hqp]
  obtain ⟨m₂, m₃, hm₂, hm₃, hb₃, hp₃, hc₃⟩ := h.linkNode (setChildren (some sl.top.1) nd)
    ((hc₁ p).trans (if_pos rfl)) h.start (fun q hq => hother₁ q fun h => hpA (h ▸ hq))
    (fun q hq => hother₁ q fun h => hpB (h ▸ hq))
  have hstart : (setPrev (predOf A) (setChildren (some sl.top.1) nd)).start = sl.start := h.start
  have hother₃ : ∀ q, q ≠ p → m₃.cells q = m.cells q := fun q hqp => (hc₃ q hqp).trans (hother₁ q hqp)
  have hbrk₃ : m₃.brk = m.brk := hb₃.trans hb₁
  -- what lies after points back to it, what lies before leads to it
  obtain ⟨m₄, hm₄, hb₄, hB₄, hc₄⟩ := Listed.changePrev (v := some (p, sl.start))
    (hB.frame fun q hq => hother₃ q fun h => hpB (h ▸ hq)) hnB
    (fun q hq => by
      rw [hbrk₃]
      exact h.holds.below q (by simp [hq]))
    (fun x hx => by
      obtain rfl : (p, sl.start) = x := Option.some.inj hx
      exact ⟨hpB, _, hp₃, hstart⟩)
  have hother₄ : ∀ q, q ≠ p → q ∉ addrs B → m₄.cells q = m.cells q := fun q hqp hq => by rw [hc₄ q hq, hother₃ q hqp]
  have hA₄ : Listed m₄.cells (some none) A (some sl.top.1) :=
    hA.frame fun q hq => hother₄ q (fun h => hpA (h ▸ hq)) (hdA q hq).2
  obtain ⟨m₅, hm₅, hb₅, hA₅, hc₅⟩ := hA₄.changeNext (t := some p) hnA
    (fun q hq => by
      rw [hb₄, hbrk₃]
      exact h.holds.below q (by simp [hq]))
    (fun q hq => by
      obtain rfl : p = q := Option.some.inj hq
      exact ⟨hpA, _, (hc₄ p hpB).trans hp₃⟩)
  have hother₅ : ∀ q, q ≠ p → q ∉ addrs A → q ∉ addrs B → m₅.cells q = m.cells q := by
    intro q hqp hqA hqB
    rw [hc₅ q hqA, if_neg fun h => hqp (Option.some.inj h).symm, hother₄ q hqp hqB]
  have hbrk : m₅.brk = m.brk := hb₅.trans (hb₄.trans hbrk₃)
  refine ⟨m₅, ?_, hbrk, ?_, ?_⟩
  · have hprev : td.prev = (predOf A).map Prod.fst := hknows.prev _ rfl
    have htd₁ : m₁.cells sl.top.1 = some td := by rw [hc₁, if_neg htp, htd]
    rw [hm₁, ok_bind, get_eq htd₁, ok_bind, hprev, hm₂, ok_bind, hsits.next, hm₃, ok_bind,
      show m₃.changePrevLoop (leads B none) (some p) = .ok m₄ from hm₄, ok_bind, predOf_fst, hm₅]
    rfl
  · refine h.holds' (show sl.items = [] ++ sl.items from rfl) hbrk hA₅ ?_ ?_
    · refine ⟨rfl, offBehind A (setNext (leads B none) (setPrev (predOf A) (setChildren (some sl.top.1) nd))), ?_, ?_, ?_,
        ⟨?_, ?_⟩, ?_⟩
      · rw [hc₅ p hpA, if_pos rfl, hc₄ p hpB, hp₃]
        rfl
      · rw [offBehind_eq]
        rfl
      · rw [offBehind_eq]
        exact h.reginfo
      · rw [offBehind_eq]
        exact ⟨h.start, h.stop, rfl⟩
      · exact offBehind_knows rfl
      · rw [offBehind_eq]
        refine (hsl : Nodes m.cells _ (some sl.top.1) sl.items).frame fun q hq => ?_
        exact hother₅ q (fun h => hpsl (h ▸ hq)) (fun h => (hdA q h).1 hq) (hdsl q hq)
    · refine hB₄.frame fun q hq => ?_
      rw [hc₅ q fun h => (hdA q h).2 hq, if_neg fun h : some p = some q => hpB (Option.some.inj h ▸ hq)]
  · intro q hqp hq
    rw [addrs_append, addrs_cons, mem_append, mem_append, not_or, not_or] at hq
    exact hother₅ q hqp hq.1 hq.2.2

theorem merge (h : Fits m A sl B p nd) (ho : Ordered (sl.items.map Prod.snd)) :
    ((∃ y ∈ sl.items, SameKey y.2 nd.reg) ∧ m.mergeIntoChain p sl.top.1 = .ok (m, .duplicateRegistration)) ∨
    ∃ m' pre post, sl.items = pre ++ post ∧ (∀ y ∈ pre, Ahead y.2 nd.reg) ∧ (∀ y ∈ post, Ahead nd.reg y.2) ∧
      m.mergeIntoChain p sl.top.1 = .ok (m', .registeredOk) ∧ Merged m m' A sl pre p nd.reg post B := by
  obtain ⟨hA, hsl, hB⟩ := listed_append.mp h.holds.listed
  obtain ⟨-, hnsl, -, -, -⟩ := h.parts
  obtain ⟨pre, post, hl, hpre, hpost, hplace⟩ := placeInChain_spec (r := nd.reg) hsl
    (items_length_le hnsl fun q hq => h.holds.below q (by simp [hq])) ho
  have hreg : m.regOf (post.head?.map Prod.fst) = .ok (post.head?.map Prod.snd) := by
    rw [hl] at hsl
    have hpost := hsl.drop
    cases post with
    | nil => rfl
    | cons y post =>
      obtain ⟨-, yd, hyd, hyr, -⟩ := hpost
      unfold regOf
      show (m.get y.1 >>= _) = _
      rw [get_eq hyd, ok_bind, hyr]
      rfl
  unfold mergeIntoChain
  rw [get_eq h.cell, ok_bind, hplace, ok_bind]
  simp only []
  rw [hreg, ok_bind]
  have hany : ((post.head?.map Prod.snd).any fun r =>
      decide (r.name.length = nd.reg.name.length ∧ r.priority = nd.reg.priority)) = true ↔
      ∃ y ∈ post.head?, SameKey y.2 nd.reg := by
    cases post <;> simp [SameKey]
  by_cases hkey : ∃ y ∈ post.head?, SameKey y.2 nd.reg
  · obtain ⟨y, hy, hsame⟩ := hkey
    refine .inl ⟨⟨y, ?_, hsame⟩, if_pos (hany.mpr ⟨y, hy, hsame⟩)⟩
    rw [hl]
    exact mem_append_right _ (mem_of_mem_head? hy)
  · right
    have hpost' : ∀ y ∈ post, Ahead nd.reg y.2 := by
      cases post with
      | nil => nofun
      | cons w post =>
        have hw : Ahead nd.reg w.2 := by
          rcases ahead_or nd.reg w.2 with h | h | h
          · exact h
          · exact absurd ⟨w, rfl, h.1.symm, h.2.symm⟩ hkey
          · exact absurd h (hpost w mem_cons_self)
        intro y hy
        rcases mem_cons.mp hy with rfl | hy
        · exact hw
        · rw [hl, Ordered, map_append] at ho
          have := (pairwise_cons.mp (pairwise_append.mp ho).2.1).1 y.2 (mem_map_of_mem hy)
          exact hw.trans this
    rw [if_neg fun h => hkey (hany.mp h)]
    rcases items_nil_or_last pre with rfl | ⟨z, hz⟩
    · obtain rfl : sl.items = post := hl
      obtain ⟨m', hm', hmerged⟩ := h.head
      exact ⟨m', [], sl.items, rfl, hpre, hpost', hm', hmerged⟩
    · obtain ⟨m', hm', hmerged⟩ := h.inner hl hz
      refine ⟨m', pre, post, hl, hpre, hpost', ?_, hmerged⟩
      rw [hz]
      exact hm'

end Fits

end Priot.Registry
