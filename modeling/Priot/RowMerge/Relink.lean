/-
# Cutting a list up and putting it together

Each request that is not yet in a list becomes the head of one, and those behind it for the same row are put at its
end. The list is restored from the array.
-/
import Priot.RowMerge.Helper
import Priot.Lib.Classes

namespace Priot.RowMerge

open Lib List

variable {next next' : Ptr → Option Ptr} {l is js u : List Ptr} {p i tail : Ptr} {w : Work} {n count : Nat}
  {same : Ptr → Ptr → Except Fault Bool} {counting : Bool}

/-! ## lists -/

/-- Each request leads to the next, and the last to none. -/
def Chained (next : Ptr → Option Ptr) : List Ptr → Prop
  | [] => True
  | p :: l => next p = l.head? ∧ Chained next l

theorem Chained.frame (h : Chained next l) (hf : ∀ p ∈ l, next' p = next p) : Chained next' l := by
  induction l with
  | nil => trivial
  | cons p l ih =>
    refine ⟨(hf p mem_cons_self).trans h.1, ih h.2 fun q hq => ?_⟩
    exact hf q (mem_cons_of_mem p hq)

theorem collect_eq (h : Chained next l) (hn : l.length ≤ n) : collect next n l.head? = some l := by
  induction l generalizing n with
  | nil => unfold collect; rfl
  | cons p l ih =>
    obtain ⟨n, rfl⟩ := Nat.exists_eq_succ_of_ne_zero (Nat.ne_zero_of_lt hn)
    rw [head?_cons, collect, h.1, ih h.2 (Nat.le_of_succ_le_succ hn)]
    rfl

theorem restore_next {links : Links} {before : Option Ptr} (h : Chained next l)
    (hf : ∀ p, p ∉ l → links.next p = next p) : (restore before l links).next = next := by
  induction l generalizing links before with
  | nil => exact funext fun p => hf p not_mem_nil
  | cons p l ih =>
    rw [restore]
    refine ih h.2 fun q hq => ?_
    by_cases hqp : q = p
    · rw [hqp, h.1]
      exact Function.update_self ..
    · refine (Function.update_of_ne hqp ..).trans (hf q ?_)
      rw [mem_cons, not_or]
      exact ⟨hqp, hq⟩

/-! ## one row -/

/-- The requests of a list that still wait. -/
def waiting (w : Work) (l : List Ptr) : List Ptr := l.filter fun p => w.mark p = .waiting

theorem waiting_cons_of_pos (h : w.mark p = .waiting) : waiting w (p :: l) = p :: waiting w l :=
  filter_cons_of_pos (by simpa using h)

theorem waiting_cons_of_neg (h : w.mark p ≠ .waiting) : waiting w (p :: l) = waiting w l :=
  filter_cons_of_neg (by simpa using h)

theorem waiting_update {mark : Mark} (h : p ∉ l) :
    waiting { w with mark := Function.update w.mark p mark } l = waiting w l := by
  refine filter_congr fun q hq => ?_
  show decide (Function.update w.mark p mark q = _) = _
  rw [Function.update_of_ne (ne_of_mem_of_not_mem hq h)]

/-- What linking the requests `f` behind `tail` has done. -/
structure Linked (w w' : Work) (tail : Ptr) (f : List Ptr) : Prop where
  chained : Chained w'.links.next (tail :: f)
  active : ∀ p ∈ f, w'.mark p = .active
  mark : ∀ p, p ∉ f → w'.mark p = w.mark p
  next : ∀ p, p ∉ tail :: f → w'.links.next p = w.links.next p
  rows : w'.rows = w.rows

/-- A request is linked behind `tail`. -/
def appended (w : Work) (tail j : Ptr) : Work :=
  { w with
    links.next := Function.update (Function.update w.links.next tail (some j)) j none
    links.prev := Function.update w.links.prev j (some tail)
    mark := Function.update w.mark j .active }

theorem Linked.found {w' : Work} {j : Ptr} {f : List Ptr} (h : Linked (appended w tail j) w' j f) (htail : tail ≠ j)
    (htailf : tail ∉ f) : Linked w w' tail (j :: f) := by
  have hnot : tail ∉ j :: f := by
    rw [mem_cons, not_or]
    exact ⟨htail, htailf⟩
  refine ⟨⟨?_, h.chained⟩, ?_, ?_, ?_, h.rows⟩
  · rw [h.next tail hnot]
    show Function.update (Function.update _ tail _) j _ tail = _
    rw [Function.update_of_ne htail, Function.update_self]
    rfl
  · refine forall_mem_cons.mpr ⟨?_, h.active⟩
    by_cases hjf : j ∈ f
    · exact h.active j hjf
    · exact (h.mark j hjf).trans (Function.update_self ..)
  · intro q hq
    rw [mem_cons, not_or] at hq
    exact (h.mark q hq.2).trans (Function.update_of_ne hq.1 ..)
  · intro q hq
    rw [mem_cons, not_or] at hq
    rw [h.next q hq.2]
    have hqj : q ≠ j := fun heq => hq.2 (heq ▸ mem_cons_self)
    show Function.update (Function.update _ tail _) j _ q = _
    rw [Function.update_of_ne hqj, Function.update_of_ne hq.1]

theorem linkRow_spec (same : Ptr → Ptr → Except Fault Bool) (i : Ptr) (hnodup : (tail :: js).Nodup)
    (hend : w.links.next tail = none) :
    (∃ w' f r, linkRow same i js tail w = .ok w' ∧ Splits (same i) (waiting w js) f r ∧ Linked w w' tail f) ∨
      ((∃ e, linkRow same i js tail w = .error e) ∧ ∀ f r, ¬ Splits (same i) (waiting w js) f r) := by
  induction js generalizing tail w with
  | nil =>
    refine .inl ⟨w, [], [], rfl, .nil, ⟨⟨hend, trivial⟩, ?_, fun _ _ => rfl, fun _ _ => rfl, rfl⟩⟩
    exact fun p hp => absurd hp not_mem_nil
  | cons j js ih =>
    obtain ⟨htail, hjs⟩ := nodup_cons.mp hnodup
    rw [mem_cons, not_or] at htail
    have hskip : (tail :: js).Nodup := nodup_cons.mpr ⟨htail.2, (nodup_cons.mp hjs).2⟩
    by_cases hwaits : w.mark j = .waiting
    · rw [waiting_cons_of_pos hwaits]
      unfold linkRow
      rw [if_neg (not_not.mpr hwaits)]
      cases hsame : same i j with
      | error e =>
        refine .inr ⟨⟨e, rfl⟩, fun f r hs => ?_⟩
        cases hs with
        | found h _ => rw [hsame] at h; cases h
        | left h _ => rw [hsame] at h; cases h
      | ok b =>
        cases b with
        | true =>
          have hwaiting : waiting (appended w tail j) js = waiting w js :=
            waiting_update (w := w) (nodup_cons.mp hjs).1
          have hend' : (appended w tail j).links.next j = none := Function.update_self ..
          show (∃ w' f r, linkRow same i js j (appended w tail j) = .ok w' ∧ _) ∨
            ((∃ e, linkRow same i js j (appended w tail j) = .error e) ∧ _)
          rcases ih hjs hend' with ⟨w', f, r, hrun, hsplits, hlinked⟩ | ⟨hfault, hnone⟩
          · rw [hwaiting] at hsplits
            have htailf : tail ∉ f := fun hmem => htail.2 (mem_filter.mp (hsplits.subset.1 tail hmem)).1
            exact .inl ⟨w', j :: f, r, hrun, .found hsame hsplits, hlinked.found htail.1 htailf⟩
          · refine .inr ⟨hfault, fun f r hs => ?_⟩
            cases hs with
            | found _ hl => exact hnone _ _ (hwaiting ▸ hl)
            | left h _ => rw [hsame] at h; cases h
        | false =>
          show (∃ w' f r, linkRow same i js tail w = .ok w' ∧ _) ∨ ((∃ e, linkRow same i js tail w = .error e) ∧ _)
          rcases ih hskip hend with ⟨w', f, r, hrun, hsplits, hlinked⟩ | ⟨hfault, hnone⟩
          · exact .inl ⟨w', f, j :: r, hrun, .left hsame hsplits, hlinked⟩
          · refine .inr ⟨hfault, fun f r hs => ?_⟩
            cases hs with
            | found h _ => rw [hsame] at h; cases h
            | left _ hl => exact hnone _ _ hl
    · rw [waiting_cons_of_neg hwaits]
      unfold linkRow
      rw [if_pos hwaits]
      exact ih hskip hend

/-! ## all rows -/

/-- What making lists of the groups `gs` of the requests `u` has done. -/
structure Grouped (counting : Bool) (w w' : Work) (l u : List Ptr) (gs : List (List Ptr)) : Prop where
  chained : ∀ g ∈ gs, Chained w'.links.next g
  heads : (l.filter fun p => w'.mark p = .head) = gs.filterMap List.head?
  mark : ∀ p, p ∉ u → w'.mark p = w.mark p
  next : ∀ p, p ∉ u → w'.links.next p = w.links.next p
  rows : w'.rows = if counting then w.rows + BitVec.ofNat 8 gs.length else w.rows

/-- A request becomes the head of a list. -/
def begun (counting : Bool) (w : Work) (i : Ptr) : Work :=
  { w with
    links.next := Function.update w.links.next i none
    mark := Function.update w.mark i .head
    rows := if counting then w.rows + 1 else w.rows }

section row

variable {w₁ : Work} {f r : List Ptr}

theorem Linked.mark_begun (h : Linked (begun counting w i) w₁ i f) (hp : p ∉ f) (hpi : p ≠ i) : w₁.mark p = w.mark p :=
  (h.mark p hp).trans (Function.update_of_ne hpi ..)

theorem Linked.waiting_eq (h : Linked (begun counting w i) w₁ i f) (hi : i ∉ is) (his : is.Nodup)
    (hsplits : Splits (same i) (waiting w is) f r) : waiting w₁ is = r := by
  rw [hsplits.left_eq (his.filter _)]
  unfold waiting
  rw [filter_filter]
  refine filter_congr fun p hp => ?_
  by_cases hpf : p ∈ f
  · rw [h.active p hpf]
    simp [hpf]
  · rw [h.mark_begun hpf (ne_of_mem_of_not_mem hp hi)]
    simp [hpf]

theorem Linked.not_mem_of_waiting (h : Linked (begun counting w i) w₁ i f) (hi : i ∉ is) (hp : p ∈ waiting w₁ is) :
    p ∉ i :: f := by
  obtain ⟨hp, hmark⟩ := mem_filter.mp hp
  rw [mem_cons, not_or]
  refine ⟨ne_of_mem_of_not_mem hp hi, fun hpf => ?_⟩
  rw [h.active p hpf] at hmark
  exact absurd hmark (by decide)

theorem Linked.not_head (h : Linked (begun counting w i) w₁ i f) (hi : i ∉ is) (hheads : ∀ p ∈ is, w.mark p ≠ .head) :
    ∀ p ∈ is, w₁.mark p ≠ .head := by
  intro p hp
  by_cases hpf : p ∈ f
  · rw [h.active p hpf]
    decide
  · rw [h.mark_begun hpf (ne_of_mem_of_not_mem hp hi)]
    exact hheads p hp

theorem Linked.grouped {w' : Work} {gs : List (List Ptr)} (h : Linked (begun counting w i) w₁ i f) (hi : i ∉ is)
    (hsplits : Splits (same i) (waiting w is) f r) (hleft : waiting w₁ is = r)
    (hrest : Grouped counting w₁ w' is r gs) :
    Grouped counting w w' (i :: is) (i :: waiting w is) ((i :: f) :: gs) := by
  have hif : i ∉ f := fun hmem => hi (mem_filter.mp (hsplits.subset.1 i hmem)).1
  have hnot : ∀ p ∈ i :: f, p ∉ r := fun p hp hr => h.not_mem_of_waiting hi (hleft ▸ hr) hp
  have hother : ∀ p, p ∉ i :: waiting w is → p ≠ i ∧ p ∉ f ∧ p ∉ r := by
    intro p hp
    rw [mem_cons, not_or] at hp
    exact ⟨hp.1, fun hpf => hp.2 (hsplits.subset.1 p hpf), fun hpr => hp.2 (hsplits.subset.2 p hpr)⟩
  refine ⟨?_, ?_, ?_, ?_, ?_⟩
  · refine forall_mem_cons.mpr ⟨?_, hrest.chained⟩
    exact h.chained.frame fun p hp => hrest.next p (hnot p hp)
  · have hhead : w'.mark i = .head := by
      rw [hrest.mark i (hnot i mem_cons_self), h.mark i hif]
      exact Function.update_self ..
    rw [filter_cons_of_pos (by simpa using hhead), hrest.heads]
    rfl
  · intro p hp
    obtain ⟨hpi, hpf, hpr⟩ := hother p hp
    rw [hrest.mark p hpr]
    exact h.mark_begun hpf hpi
  · intro p hp
    obtain ⟨hpi, hpf, hpr⟩ := hother p hp
    have hpif : p ∉ i :: f := by
      rw [mem_cons, not_or]
      exact ⟨hpi, hpf⟩
    rw [hrest.next p hpr, h.next p hpif]
    exact Function.update_of_ne hpi ..
  · rw [hrest.rows, h.rows]
    cases counting with
    | false => rfl
    | true =>
      show w.rows + 1 + BitVec.ofNat 8 gs.length = w.rows + BitVec.ofNat 8 (gs.length + 1)
      rw [BitVec.ofNat_add]
      ac_rfl

end row

theorem linkRows_spec (same : Ptr → Ptr → Except Fault Bool) (counting : Bool) (hnodup : is.Nodup)
    (hheads : ∀ p ∈ is, w.mark p ≠ .head) :
    (∃ w' gs, linkRows same counting is w = .ok w' ∧ Groups same (waiting w is) gs ∧
      Grouped counting w w' is (waiting w is) gs) ∨
      ((∃ e, linkRows same counting is w = .error e) ∧ ∀ gs, ¬ Groups same (waiting w is) gs) := by
  induction is generalizing w with
  | nil =>
    refine .inl ⟨w, [], rfl, .nil, ⟨fun g hg => absurd hg not_mem_nil, rfl, fun _ _ => rfl, fun _ _ => rfl, ?_⟩⟩
    simp
  | cons i is ih =>
    obtain ⟨hi, his⟩ := nodup_cons.mp hnodup
    have hheads' : ∀ p ∈ is, w.mark p ≠ .head := fun p hp => hheads p (mem_cons_of_mem i hp)
    by_cases hwaits : w.mark i = .waiting
    · rw [waiting_cons_of_pos hwaits]
      unfold linkRows
      rw [if_neg (not_not.mpr hwaits)]
      have hwaiting : waiting (begun counting w i) is = waiting w is := waiting_update (w := w) hi
      have hend : (begun counting w i).links.next i = none := Function.update_self ..
      show (∃ w' gs, (linkRow same i is i (begun counting w i) >>= _) = .ok w' ∧ _) ∨
        ((∃ e, (linkRow same i is i (begun counting w i) >>= _) = .error e) ∧ _)
      rcases linkRow_spec same i hnodup hend with ⟨w₁, f, r, hrow, hsplits, hlinked⟩ | ⟨⟨e, hfault⟩, hnone⟩
      · rw [hwaiting] at hsplits
        have hleft := hlinked.waiting_eq hi his hsplits
        rw [hrow]
        show (∃ w' gs, linkRows same counting is w₁ = .ok w' ∧ _) ∨ ((∃ e, linkRows same counting is w₁ = .error e) ∧ _)
        rcases ih his (hlinked.not_head hi hheads') with ⟨w', gs, hrun, hgroups, hgrouped⟩ | ⟨hfault, hnone⟩
        · rw [hleft] at hgroups hgrouped
          exact .inl ⟨w', (i :: f) :: gs, hrun, .cons hsplits hgroups, hlinked.grouped hi hsplits hleft hgrouped⟩
        · refine .inr ⟨hfault, fun gs hgs => ?_⟩
          cases hgs with
          | cons hs hg =>
            obtain ⟨-, rfl⟩ := hs.unique hsplits
            exact hnone _ (hleft.symm ▸ hg)
      · rw [hwaiting] at hnone
        refine .inr ⟨⟨e, by rw [hfault]; rfl⟩, fun gs hgs => ?_⟩
        cases hgs with
        | cons hs _ => exact hnone _ _ hs
    · rw [waiting_cons_of_neg hwaits]
      unfold linkRows
      rw [if_pos hwaits]
      rcases ih his hheads' with ⟨w', gs, hrun, hgroups, hgrouped⟩ | hfault
      · refine .inl ⟨w', gs, hrun, hgroups, ⟨hgrouped.chained, ?_, hgrouped.mark, hgrouped.next, hgrouped.rows⟩⟩
        have hmark : w'.mark i ≠ .head := by
          rw [hgrouped.mark i fun hmem => hi (mem_filter.mp hmem).1]
          exact hheads i mem_cons_self
        rw [filter_cons_of_neg (by simpa using hmark)]
        exact hgrouped.heads
      · exact .inr hfault

/-! ## the calls -/

/-- What the next handler sees of the groups, from a status on. -/
def tell (st : Status) : List (List Ptr) → List Seen
  | [] => []
  | g :: gs =>
    let st := { st with current := st.current + 1 }
    ⟨some g, statusFirst (some st), statusLast (some st)⟩ :: tell st gs

theorem callRows_spec {gs : List (List Ptr)} (rc : List Seen → Int) (st : Status) (seen : List Seen) (finalRc : Int)
    (hheads : (l.filter fun p => w.mark p = .head) = gs.filterMap List.head?)
    (hchained : ∀ g ∈ gs, g ≠ [] ∧ g.length ≤ count ∧ Chained w.links.next g) :
    ∃ finalRc', callRows count rc w l st seen finalRc =
      ({ st with current := st.current + BitVec.ofNat 8 gs.length }, seen ++ tell st gs, finalRc') := by
  induction l generalizing gs st seen finalRc with
  | nil =>
    cases gs with
    | nil => exact ⟨finalRc, by simp [callRows, tell]⟩
    | cons g gs =>
      obtain ⟨p, g, rfl⟩ := exists_cons_of_ne_nil (hchained g mem_cons_self).1
      cases hheads
  | cons i is ih =>
    unfold callRows
    by_cases hhead : w.mark i = .head
    · rw [filter_cons_of_pos (by simpa using hhead)] at hheads
      rw [if_neg (not_not.mpr hhead)]
      cases gs with
      | nil => cases hheads
      | cons g gs =>
        obtain ⟨hchain, hrest⟩ := forall_mem_cons.mp hchained
        obtain ⟨hne, hlen, hchain⟩ := hchain
        obtain ⟨p, g, rfl⟩ := exists_cons_of_ne_nil hne
        rw [filterMap_cons_some head?_cons] at hheads
        obtain ⟨rfl, htail⟩ := List.cons.inj hheads
        have hcollect : collect w.links.next count (some i) = some (i :: g) := collect_eq hchain hlen
        dsimp only
        rw [hcollect]
        obtain ⟨finalRc', hrun⟩ := ih { st with current := st.current + 1 } _ _ htail hrest
        refine ⟨finalRc', hrun.trans ?_⟩
        rw [tell, append_assoc]
        refine Prod.ext ?_ rfl
        show Status.mk _ _ (st.current + 1 + BitVec.ofNat 8 gs.length) _ =
          Status.mk _ _ (st.current + BitVec.ofNat 8 (gs.length + 1)) _
        rw [BitVec.ofNat_add]
        congr 1
        ac_rfl
    · rw [filter_cons_of_neg (by simpa using hhead)] at hheads
      rw [if_pos hhead]
      exact ih st seen finalRc hheads hchained

end Priot.RowMerge
