/-
# The subagent keeps to the life of a transaction

The mode and the error status of a saved set, and whether its request is still unanswered, say at which stage its
transaction is. What is written to one saved set leaves the others as they are.
-/
import Priot.Subagent.LifeCycle
import Mathlib.Data.List.Pairwise

namespace Priot.Subagent

open Lib List

variable {V : Type} {s : State V} {p q : Ptr} {a b : AgentSetInfo V} {pdu : InternalPdu V} {mode : Mode} {e : Int}
  {H : Ptr → List (Mark V)} {sess : Ptr} {transid : Int} {vars : List V}

/-! ## lists with keys -/

section Keys

variable {α : Type} {l : List (Ptr × α)} {x : α}

theorem lookup_of_mem (hn : (l.map Prod.fst).Nodup) (hx : (p, x) ∈ l) : l.lookup p = some x := by
  induction l with
  | nil => exact absurd hx not_mem_nil
  | cons y l ih =>
    obtain ⟨hy, hn⟩ := nodup_cons.mp hn
    rcases mem_cons.mp hx with rfl | hx
    · exact lookup_cons_self
    · have hne : p ≠ y.1 := by
        rintro rfl
        exact hy (mem_map.mpr ⟨(y.1, x), hx, rfl⟩)
      rw [lookup_cons, beq_eq_false_iff_ne.mpr hne]
      exact ih hn hx

theorem value_eq (hn : (l.map Prod.fst).Nodup) {x' : α} (hx : (p, x) ∈ l) (hx' : (p, x') ∈ l) : x = x' :=
  Option.some.inj ((lookup_of_mem hn hx).symm.trans (lookup_of_mem hn hx'))

theorem mem_eraseP {β : Type} {l : List β} {f : β → Bool} (h : l.Pairwise fun y z => ¬ (f y ∧ f z)) {y : β} :
    y ∈ l.eraseP f ↔ y ∈ l ∧ ¬ f y := by
  induction l with
  | nil => simp
  | cons z l ih =>
    obtain ⟨hz, hl⟩ := pairwise_cons.mp h
    by_cases hf : f z
    · rw [eraseP_cons_of_pos hf, mem_cons]
      constructor
      · exact fun hy => ⟨.inr hy, fun hfy => hz y hy ⟨hf, hfy⟩⟩
      · rintro ⟨rfl | hy, hfy⟩
        · exact absurd hf hfy
        · exact hy
    · rw [eraseP_cons_of_neg hf, mem_cons, mem_cons, ih hl]
      constructor
      · rintro (rfl | hy)
        · exact ⟨.inl rfl, hf⟩
        · exact ⟨.inr hy.1, hy.2⟩
      · rintro ⟨rfl | hy, hfy⟩
        · exact .inl rfl
        · exact .inr ⟨hy, hfy⟩

theorem mem_erase_key (hn : (l.map Prod.fst).Nodup) {y : Ptr × α} :
    y ∈ l.eraseP (fun z => decide (z.1 = p)) ↔ y ∈ l ∧ y.1 ≠ p := by
  rw [mem_eraseP]
  · simp
  · refine (pairwise_map.mp hn).imp ?_
    intro y z hne hyz
    simp only [decide_eq_true_eq] at hyz
    exact hne (hyz.1.trans hyz.2.symm)

theorem keys_erased {l' : List (Ptr × α)} (h : ∀ y, y ∈ l' ↔ y ∈ l ∧ y.1 ≠ p) :
    q ∈ l'.map Prod.fst ↔ q ∈ l.map Prod.fst ∧ q ≠ p := by
  constructor
  · intro hq
    obtain ⟨y, hy, rfl⟩ := mem_map.mp hq
    exact ⟨mem_map_of_mem ((h y).mp hy).1, ((h y).mp hy).2⟩
  · rintro ⟨hq, hne⟩
    obtain ⟨y, hy, rfl⟩ := mem_map.mp hq
    exact mem_map_of_mem ((h y).mpr ⟨hy, hne⟩)

theorem not_mem_of_erase_key (hn : (l.map Prod.fst).Nodup) (hq : q ≠ p)
    (h : q ∉ (l.eraseP (fun z => decide (z.1 = p))).map Prod.fst) : q ∉ l.map Prod.fst := by
  intro hq'
  obtain ⟨y, hy, rfl⟩ := mem_map.mp hq'
  exact h (mem_map_of_mem ((mem_erase_key hn).mpr ⟨hy, hq⟩))

end Keys

/-! ## what the saved sets say -/

/-- The saved sets and the unanswered requests, and what they say of the histories. -/
structure Kept (s : State V) (H : Ptr → List (Mark V)) : Prop where
  nodup : (s.sets.map Prod.fst).Nodup
  below : ∀ p ∈ s.sets.map Prod.fst, p < s.brk
  keys : s.sets.Pairwise fun x y => ¬ (x.2.sess = y.2.sess ∧ x.2.transID = y.2.transID)
  nonempty : ∀ p a, (p, a) ∈ s.sets → a.varList ≠ []
  pendingNodup : (s.pending.map Prod.fst).Nodup
  pending : ∀ p pdu, (p, pdu) ∈ s.pending → ∃ a, (p, a) ∈ s.sets ∧ pdu = ⟨a.mode, a.transID, a.varList⟩
  running : ∀ p a, (p, a) ∈ s.sets → p ∈ s.pending.map Prod.fst → Life a.varList (.running a.mode) (H p)
  done : ∀ p a, (p, a) ∈ s.sets → p ∉ s.pending.map Prod.fst →
    ∃ e, a.errstat = some e ∧ ¬ a.mode.Final ∧ Life a.varList (.done a.mode e) (H p)
  unused : ∀ p, s.brk ≤ p → H p = []
  gone : ∀ p, p < s.brk → p ∉ s.sets.map Prod.fst → ∃ vars m e, m.Final ∧ Life vars (.done m e) (H p)

theorem Kept.key_unique (h : Kept s H) (ha : (p, a) ∈ s.sets) (hb : (q, b) ∈ s.sets) (hsess : b.sess = a.sess)
    (htrans : b.transID = a.transID) : q = p ∧ b = a := by
  have hsymm : Std.Symm fun x y : Ptr × AgentSetInfo V => ¬ (x.2.sess = y.2.sess ∧ x.2.transID = y.2.transID) :=
    ⟨fun _ _ hne hh => hne ⟨hh.1.symm, hh.2.symm⟩⟩
  have heq : (q, b) = (p, a) := by
    by_contra hne
    exact h.keys.forall hb ha hne ⟨hsess, htrans⟩
  exact Prod.mk.inj heq

/-- A first phase that has gone well is followed by the second at once. -/
def Settled (s : State V) : Prop :=
  ∀ p a, (p, a) ∈ s.sets → p ∉ s.pending.map Prod.fst → a.mode = .reserve1 → a.errstat ≠ some PRIOT_ERR_NOERROR

theorem setInfo_keys (s : State V) (p : Ptr) (f : AgentSetInfo V → AgentSetInfo V) :
    (setInfo s p f).sets.map Prod.fst = s.sets.map Prod.fst := by
  rw [setInfo, map_map]
  refine map_congr_left fun x _ => ?_
  show (if x.1 = p then (x.1, f x.2) else x).1 = x.1
  split <;> rfl

theorem mem_setInfo {f : AgentSetInfo V → AgentSetInfo V} :
    (q, b) ∈ (setInfo s p f).sets ↔ ∃ a, (q, a) ∈ s.sets ∧ b = if q = p then f a else a := by
  rw [setInfo, mem_map]
  constructor
  · rintro ⟨⟨q', a⟩, ha, heq⟩
    by_cases hq : q' = p
    · rw [if_pos hq] at heq
      obtain ⟨rfl, rfl⟩ := Prod.mk.inj heq
      exact ⟨a, ha, by rw [if_pos hq]⟩
    · rw [if_neg hq] at heq
      obtain ⟨rfl, rfl⟩ := Prod.mk.inj heq
      exact ⟨a, ha, by rw [if_neg hq]⟩
  · rintro ⟨a, ha, rfl⟩
    refine ⟨(q, a), ha, ?_⟩
    split <;> rfl

theorem mem_setInfo_ne {f : AgentSetInfo V → AgentSetInfo V} (hq : q ≠ p) :
    (q, b) ∈ (setInfo s p f).sets ↔ (q, b) ∈ s.sets := by
  rw [mem_setInfo]
  constructor
  · rintro ⟨a, ha, rfl⟩
    rw [if_neg hq]
    exact ha
  · exact fun hb => ⟨b, hb, (if_neg hq).symm⟩

theorem keys_setInfo {f : AgentSetInfo V → AgentSetInfo V} (hf : ∀ a, (f a).sess = a.sess ∧ (f a).transID = a.transID)
    (h : s.sets.Pairwise fun x y => ¬ (x.2.sess = y.2.sess ∧ x.2.transID = y.2.transID)) :
    (setInfo s p f).sets.Pairwise fun x y => ¬ (x.2.sess = y.2.sess ∧ x.2.transID = y.2.transID) := by
  have hkey : ∀ x : Ptr × AgentSetInfo V,
      (if x.1 = p then (x.1, f x.2) else x).2.sess = x.2.sess ∧
      (if x.1 = p then (x.1, f x.2) else x).2.transID = x.2.transID := by
    intro x
    split
    · exact hf x.2
    · exact ⟨rfl, rfl⟩
  rw [setInfo]
  refine pairwise_map.mpr (h.imp ?_)
  intro x y hne
  rw [(hkey x).1, (hkey x).2, (hkey y).1, (hkey y).2]
  exact hne

/-! ## what the operations do to it -/

theorem submit_spec (s : State V) (p : Ptr) (mode : Mode) (transid : Int) (vars : List V) :
    ∃ s', submit s p mode transid vars = (s', [.internal p ⟨mode, transid, vars⟩]) ∧ s'.brk = s.brk ∧
      s'.pending = s.pending ++ [(p, ⟨mode, transid, vars⟩)] ∧
      s'.sets = (setInfo s p fun a => { a with mode := mode }).sets :=
  ⟨_, rfl, rfl, rfl, rfl⟩

theorem Kept.submit (h : Kept s H) (ha : (p, a) ∈ s.sets) (hidle : p ∉ s.pending.map Prod.fst)
    (hlife : Life a.varList (.running mode) (H p ++ [.start mode a.varList])) :
    ∃ s', submit s p mode a.transID a.varList = (s', [.internal p ⟨mode, a.transID, a.varList⟩]) ∧
      Kept s' (Function.update H p (H p ++ [.start mode a.varList])) ∧ s'.brk = s.brk ∧
      s'.pending = s.pending ++ [(p, ⟨mode, a.transID, a.varList⟩)] ∧
      s'.sets = (setInfo s p fun a => { a with mode := mode }).sets := by
  obtain ⟨s', e, hbrk, hpend, hsets⟩ := submit_spec s p mode a.transID a.varList
  have hkeys := setInfo_keys s p fun a => { a with mode := mode }
  rw [← hsets] at hkeys
  have hpending : ∀ q, q ∈ s'.pending.map Prod.fst ↔ q ∈ s.pending.map Prod.fst ∨ q = p :=
    fun q => by rw [hpend]; simp
  have hp : p < s.brk := h.below p (mem_map.mpr ⟨(p, a), ha, rfl⟩)
  have hmem : ∀ q b, (q, b) ∈ s'.sets ↔ ∃ c, (q, c) ∈ s.sets ∧ b = if q = p then { c with mode := mode } else c := by
    intro q b
    rw [hsets]
    exact mem_setInfo
  refine ⟨s', e, ?_, hbrk, hpend, hsets⟩
  constructor
  · rw [hkeys]
    exact h.nodup
  · rw [hkeys, hbrk]
    exact h.below
  · rw [hsets]
    exact keys_setInfo (fun _ => ⟨rfl, rfl⟩) h.keys
  · intro q b hb
    obtain ⟨c, hc, rfl⟩ := (hmem q b).mp hb
    split
    · exact h.nonempty q c hc
    · exact h.nonempty q c hc
  · rw [hpend, map_append, nodup_append]
    refine ⟨h.pendingNodup, nodup_singleton _, fun x hx y hy hxy => ?_⟩
    obtain rfl : y = p := mem_singleton.mp hy
    exact hidle (hxy ▸ hx)
  · intro q pdu hpdu
    rw [hpend] at hpdu
    rcases mem_append.mp hpdu with hold | hpdu
    · obtain ⟨c, hc, hpdu'⟩ := h.pending q pdu hold
      have hne : q ≠ p := by
        rintro rfl
        exact hidle (mem_map.mpr ⟨(q, pdu), hold, rfl⟩)
      exact ⟨c, (hmem q c).mpr ⟨c, hc, (if_neg hne).symm⟩, hpdu'⟩
    · obtain ⟨rfl, rfl⟩ := Prod.mk.inj (mem_singleton.mp hpdu)
      exact ⟨{ a with mode := mode }, (hmem _ _).mpr ⟨a, ha, (if_pos rfl).symm⟩, rfl⟩
  · intro q b hb hq
    obtain ⟨c, hc, rfl⟩ := (hmem q b).mp hb
    by_cases hqp : q = p
    · subst hqp
      obtain rfl := value_eq h.nodup hc ha
      rw [if_pos rfl, Function.update_self]
      exact hlife
    · rw [if_neg hqp, Function.update_of_ne hqp]
      exact h.running q c hc (((hpending q).mp hq).resolve_right hqp)
  · intro q b hb hq
    obtain ⟨c, hc, rfl⟩ := (hmem q b).mp hb
    rw [hpending, not_or] at hq
    rw [if_neg hq.2, Function.update_of_ne hq.2]
    exact h.done q c hc hq.1
  · intro q hq
    rw [hbrk] at hq
    rw [Function.update_of_ne (Nat.ne_of_gt (Nat.lt_of_lt_of_le hp hq))]
    exact h.unused q hq
  · intro q hq hgone
    rw [hkeys] at hgone
    rw [hbrk] at hq
    have hne : q ≠ p := by
      rintro rfl
      exact hgone (mem_map.mpr ⟨(q, a), ha, rfl⟩)
    rw [Function.update_of_ne hne]
    exact h.gone q hq hgone

theorem Kept.save (h : Kept s H) (hvars : vars ≠ [])
    (hnew : ∀ q b, (q, b) ∈ s.sets → ¬ (b.sess = sess ∧ b.transID = transid)) :
    ∃ s₁ s', saveSetVars s sess transid vars = some (s.brk, s₁) ∧
      Subagent.submit s₁ s.brk .reserve1 transid vars = (s', [.internal s.brk ⟨.reserve1, transid, vars⟩]) ∧
      Kept s' (Function.update H s.brk [.start .reserve1 vars]) ∧
      s'.pending = s.pending ++ [(s.brk, ⟨.reserve1, transid, vars⟩)] ∧
      ∀ q b, (q, b) ∈ s'.sets ↔ q = s.brk ∧ b = ⟨transid, sess, .reserve1, none, vars⟩ ∨ (q, b) ∈ s.sets := by
  obtain ⟨s₁, hs₁⟩ : ∃ s₁ : State V, s₁ = { s with
      sets := (s.brk, ⟨transid, sess, .reserve1, none, vars⟩) :: s.sets, brk := s.brk + 1 } := ⟨_, rfl⟩
  obtain ⟨s', e, hbrk, hpend, hsets⟩ := submit_spec s₁ s.brk .reserve1 transid vars
  have hkeys := setInfo_keys s₁ s.brk fun a => { a with mode := .reserve1 }
  rw [← hsets, hs₁] at hkeys
  rw [hs₁] at hpend hbrk
  have hfresh : s.brk ∉ s.sets.map Prod.fst := fun hb => Nat.lt_irrefl _ (h.below _ hb)
  have hpending : ∀ q, q ∈ s.pending.map Prod.fst → q ≠ s.brk := by
    rintro q hq rfl
    obtain ⟨x, hx, hq⟩ := mem_map.mp hq
    obtain ⟨a, ha, -⟩ := h.pending x.1 x.2 hx
    exact hfresh (mem_map.mpr ⟨(x.1, a), ha, hq⟩)
  have hmem : ∀ q b, (q, b) ∈ s'.sets ↔
      q = s.brk ∧ b = ⟨transid, sess, .reserve1, none, vars⟩ ∨ (q, b) ∈ s.sets := by
    intro q b
    rw [hsets, mem_setInfo, hs₁]
    constructor
    · rintro ⟨c, hc, rfl⟩
      rcases mem_cons.mp hc with hc | hc
      · obtain ⟨rfl, rfl⟩ := Prod.mk.inj hc
        exact .inl ⟨rfl, if_pos rfl⟩
      · have hne : q ≠ s.brk := fun hq => hfresh (mem_map.mpr ⟨(q, c), hc, hq⟩)
        rw [if_neg hne]
        exact .inr hc
    · rintro (⟨rfl, rfl⟩ | hb)
      · exact ⟨_, mem_cons_self, (if_pos rfl).symm⟩
      · have hne : q ≠ s.brk := fun hq => hfresh (mem_map.mpr ⟨(q, b), hb, hq⟩)
        exact ⟨b, mem_cons_of_mem _ hb, (if_neg hne).symm⟩
  refine ⟨s₁, s', ?_, e, ?_, hpend, hmem⟩
  · rw [saveSetVars, if_neg (by simpa using hvars), hs₁]
  constructor
  · rw [hkeys]
    exact nodup_cons.mpr ⟨hfresh, h.nodup⟩
  · intro q hq
    rw [hkeys] at hq
    rw [hbrk]
    rcases mem_cons.mp hq with rfl | hq
    · exact Nat.lt_succ_self _
    · exact Nat.lt_succ_of_lt (h.below q hq)
  · rw [hsets, hs₁]
    refine keys_setInfo (fun _ => ⟨rfl, rfl⟩) (pairwise_cons.mpr ⟨?_, h.keys⟩)
    rintro ⟨q, b⟩ hb ⟨h₁, h₂⟩
    exact hnew q b hb ⟨h₁.symm, h₂.symm⟩
  · intro q b hb
    rcases (hmem q b).mp hb with ⟨-, rfl⟩ | hb
    · exact hvars
    · exact h.nonempty q b hb
  · rw [hpend, map_append, nodup_append]
    refine ⟨h.pendingNodup, nodup_singleton _, fun x hx y hy hxy => ?_⟩
    exact hpending x hx (hxy.trans (mem_singleton.mp hy))
  · intro q pdu hpdu
    rw [hpend] at hpdu
    rcases mem_append.mp hpdu with hpdu | hpdu
    · obtain ⟨b, hb, hpdu'⟩ := h.pending q pdu hpdu
      exact ⟨b, (hmem q b).mpr (.inr hb), hpdu'⟩
    · obtain ⟨rfl, rfl⟩ := Prod.mk.inj (mem_singleton.mp hpdu)
      exact ⟨⟨transid, sess, .reserve1, none, vars⟩, (hmem _ _).mpr (.inl ⟨rfl, rfl⟩), rfl⟩
  · intro q b hb hq
    rcases (hmem q b).mp hb with ⟨rfl, rfl⟩ | hb
    · rw [Function.update_self]
      exact .testSet
    · have hne : q ≠ s.brk := fun hq => hfresh (mem_map.mpr ⟨(q, b), hb, hq⟩)
      rw [Function.update_of_ne hne]
      refine h.running q b hb ?_
      rw [hpend] at hq
      simpa [hne] using hq
  · intro q b hb hq
    rw [hpend, map_append, mem_append, not_or] at hq
    have hne : q ≠ s.brk := fun hqb => hq.2 (hqb ▸ mem_cons_self)
    rw [Function.update_of_ne hne]
    exact h.done q b (((hmem q b).mp hb).resolve_left fun hb => hne hb.1) hq.1
  · intro q hq
    rw [hbrk] at hq
    have hlt : s.brk < q := hq
    rw [Function.update_of_ne (Nat.ne_of_gt hlt)]
    exact h.unused q (Nat.le_of_lt hlt)
  · intro q hq hgone
    rw [hkeys, map_cons, mem_cons, not_or] at hgone
    rw [hbrk] at hq
    rw [Function.update_of_ne hgone.1]
    exact h.gone q (Nat.lt_of_le_of_ne (Nat.le_of_lt_succ hq) hgone.1) hgone.2

theorem Kept.answer (h : Kept s H) (ha : (p, a) ∈ s.sets) (hp : p ∈ s.pending.map Prod.fst) (hmode : ¬ a.mode.Final)
    (e : Int) :
    Kept (setInfo { s with pending := s.pending.eraseP (·.1 = p) } p fun a => { a with errstat := some e })
      (Function.update H p (H p ++ [.finish a.mode e])) := by
  have hkeys := setInfo_keys { s with pending := s.pending.eraseP (·.1 = p) } p
    fun a => { a with errstat := some e }
  have hpending : ∀ y, y ∈ s.pending.eraseP (·.1 = p) ↔ y ∈ s.pending ∧ y.1 ≠ p :=
    fun y => mem_erase_key h.pendingNodup
  have hpending' : ∀ q, q ∈ (s.pending.eraseP (·.1 = p)).map Prod.fst ↔ q ∈ s.pending.map Prod.fst ∧ q ≠ p :=
    fun q => keys_erased hpending
  constructor
  · rw [hkeys]
    exact h.nodup
  · rw [hkeys]
    exact h.below
  · exact keys_setInfo (fun _ => ⟨rfl, rfl⟩) h.keys
  · intro q b hb
    obtain ⟨c, hc, rfl⟩ := mem_setInfo.mp hb
    split
    · exact h.nonempty q c hc
    · exact h.nonempty q c hc
  · exact h.pendingNodup.sublist (eraseP_sublist.map _)
  · intro q pdu hpdu
    obtain ⟨hpdu, hne⟩ := (hpending (q, pdu)).mp hpdu
    obtain ⟨c, hc, hpdu'⟩ := h.pending q pdu hpdu
    exact ⟨c, mem_setInfo.mpr ⟨c, hc, (if_neg hne).symm⟩, hpdu'⟩
  · intro q b hb hq
    obtain ⟨hq, hne⟩ := (hpending' q).mp hq
    obtain ⟨c, hc, rfl⟩ := mem_setInfo.mp hb
    rw [if_neg hne, Function.update_of_ne hne]
    exact h.running q c hc hq
  · intro q b hb hq
    obtain ⟨c, hc, rfl⟩ := mem_setInfo.mp hb
    by_cases hqp : q = p
    · subst hqp
      obtain rfl := value_eq h.nodup hc ha
      rw [if_pos rfl, Function.update_self]
      exact ⟨e, rfl, hmode, .finish e (h.running q c hc hp)⟩
    · rw [if_neg hqp, Function.update_of_ne hqp]
      exact h.done q c hc fun hq' => hq ((hpending' q).mpr ⟨hq', hqp⟩)
  · intro q hq
    have hlt : p < s.brk := h.below p (mem_map.mpr ⟨(p, a), ha, rfl⟩)
    rw [Function.update_of_ne (Nat.ne_of_gt (Nat.lt_of_lt_of_le hlt hq))]
    exact h.unused q hq
  · intro q hq hgone
    rw [hkeys] at hgone
    have hne : q ≠ p := by
      rintro rfl
      exact hgone (mem_map.mpr ⟨(q, a), ha, rfl⟩)
    rw [Function.update_of_ne hne]
    exact h.gone q hq hgone

theorem Kept.keys_answered (h : Kept s H) (p : Ptr) (pending : List (Ptr × InternalPdu V)) (e : Int) :
    (setInfo { s with pending := pending } p fun a => { a with errstat := some e }).sets.Pairwise
      fun x y => ¬ (x.2.sess = y.2.sess ∧ x.2.transID = y.2.transID) :=
  keys_setInfo (fun _ => ⟨rfl, rfl⟩) h.keys

theorem Kept.mem_freed (h : Kept s H) (ha : (p, a) ∈ s.sets) (pending : List (Ptr × InternalPdu V)) (e : Int)
    (y : Ptr × AgentSetInfo V) :
    y ∈ (freeSetVars (setInfo { s with pending := pending } p fun a => { a with errstat := some e })
      a.sess a.transID).sets ↔ y ∈ s.sets ∧ y.1 ≠ p := by
  obtain ⟨q, b⟩ := y
  have hone : (setInfo { s with pending := pending } p fun a => { a with errstat := some e }).sets.Pairwise
      fun y z => ¬ (isFor a.sess a.transID y ∧ isFor a.sess a.transID z) := by
    refine (h.keys_answered p pending e).imp ?_
    intro x y hne hxy
    simp only [isFor, decide_eq_true_eq] at hxy
    exact hne ⟨hxy.1.1.trans hxy.2.1.symm, hxy.1.2.trans hxy.2.2.symm⟩
  refine (mem_eraseP hone).trans ?_
  rw [mem_setInfo]
  constructor
  · rintro ⟨⟨c, hc, rfl⟩, hfor⟩
    have hne : q ≠ p := by
      rintro rfl
      obtain rfl := value_eq h.nodup hc ha
      rw [if_pos rfl] at hfor
      exact hfor (by simp [isFor])
    rw [if_neg hne]
    exact ⟨hc, hne⟩
  · rintro ⟨hb, hne⟩
    refine ⟨⟨b, hb, (if_neg hne).symm⟩, fun hfor => ?_⟩
    simp only [isFor, decide_eq_true_eq] at hfor
    exact hne (h.key_unique ha hb hfor.1 hfor.2).1

theorem Kept.answerFinal (h : Kept s H) (ha : (p, a) ∈ s.sets) (hp : p ∈ s.pending.map Prod.fst)
    (hmode : a.mode.Final) (e : Int) :
    ∃ s', freeSetVars (setInfo { s with pending := s.pending.eraseP (·.1 = p) } p
        fun a => { a with errstat := some e }) a.sess a.transID = s' ∧
      Kept s' (Function.update H p (H p ++ [.finish a.mode e])) ∧
      s'.pending = s.pending.eraseP (·.1 = p) ∧ ∀ q b, (q, b) ∈ s'.sets ↔ (q, b) ∈ s.sets ∧ q ≠ p := by
  have hmem := h.mem_freed ha (s.pending.eraseP (·.1 = p)) e
  have hpending : ∀ y, y ∈ s.pending.eraseP (·.1 = p) ↔ y ∈ s.pending ∧ y.1 ≠ p :=
    fun y => mem_erase_key h.pendingNodup
  have hpending' : ∀ q, q ∈ (s.pending.eraseP (·.1 = p)).map Prod.fst ↔ q ∈ s.pending.map Prod.fst ∧ q ≠ p :=
    fun q => keys_erased hpending
  refine ⟨_, rfl, ?_, rfl, fun q b => hmem (q, b)⟩
  constructor
  · refine List.Nodup.sublist (eraseP_sublist.map _) ?_
    rw [setInfo_keys]
    exact h.nodup
  · exact fun q hq => h.below q ((keys_erased hmem).mp hq).1
  · exact (h.keys_answered p _ e).sublist eraseP_sublist
  · exact fun q b hb => h.nonempty q b ((hmem (q, b)).mp hb).1
  · exact h.pendingNodup.sublist (eraseP_sublist.map _)
  · intro q pdu hpdu
    obtain ⟨hpdu, hne⟩ := (hpending (q, pdu)).mp hpdu
    obtain ⟨c, hc, hpdu'⟩ := h.pending q pdu hpdu
    exact ⟨c, (hmem (q, c)).mpr ⟨hc, hne⟩, hpdu'⟩
  · intro q b hb hq
    obtain ⟨hb, hne⟩ := (hmem (q, b)).mp hb
    rw [Function.update_of_ne hne]
    exact h.running q b hb ((hpending' q).mp hq).1
  · intro q b hb hq
    obtain ⟨hb, hne⟩ := (hmem (q, b)).mp hb
    rw [Function.update_of_ne hne]
    exact h.done q b hb fun hq' => hq ((hpending' q).mpr ⟨hq', hne⟩)
  · intro q hq
    have hlt : p < s.brk := h.below p (mem_map.mpr ⟨(p, a), ha, rfl⟩)
    rw [Function.update_of_ne (Nat.ne_of_gt (Nat.lt_of_lt_of_le hlt hq))]
    exact h.unused q hq
  · intro q hq hgone
    rw [keys_erased hmem] at hgone
    by_cases hqp : q = p
    · subst hqp
      rw [Function.update_self]
      exact ⟨a.varList, a.mode, e, hmode, .finish e (h.running q a ha hp)⟩
    · rw [Function.update_of_ne hqp]
      exact h.gone q hq fun hq' => hgone ⟨hq', hqp⟩

end Priot.Subagent
