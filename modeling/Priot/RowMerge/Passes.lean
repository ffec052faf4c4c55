/-
# Passes of the row merge helper

The next handler is called for each row, and is told which call is the first and which the last. The number of rows is
counted when the number of requests has changed. Both numbers are of type `char`.
-/
import Priot.RowMerge.Relink
import Priot.RowMerge.Rows
import Mathlib.Data.Option.Basic

namespace Priot.RowMerge

open Lib List

variable {st : Status} {gs : List (List Ptr)} {n k : Nat}

/-- What a pass is called with: a list of requests, in links that lead to its end. -/
structure Input where
  skip : Nat
  req : Ptr → Request
  rc : List Seen → Int
  links : Links
  list : List Ptr
  spare : Nat
  chained : Chained links.next list
  nodup : list.Nodup
  bounded : Bounded skip req

namespace Input

def run (a : Input) (st : Option Status) : Except Fault Pass :=
  helperHandler (a.list.length + a.spare) a.skip a.req a.rc st a.links a.list.head?

/-- The requests that have not been processed. -/
def unprocessed (a : Input) : List Ptr := a.list.filter fun p => (a.req p).processed = false

/-- The requests that have not been processed, row by row. -/
def rows (a : Input) : List (List Ptr) := classes (key a.skip a.req) a.unprocessed

end Input

/-- The pass has been as it should: the next handler has seen each row once and in order, has been told rightly which
was the first and which the last, and the list is as it was. -/
structure Right (a : Input) (pass : Pass) : Prop where
  requests : pass.seen.map Seen.requests = a.rows.map some
  first : ∀ k, ∀ h : k < pass.seen.length, pass.seen[k].first = true ↔ k = 0
  last : ∀ k, ∀ h : k < pass.seen.length, pass.seen[k].last = true ↔ k + 1 = pass.seen.length
  next : pass.links.next = a.links.next

/-! ## what the next handler is told -/

theorem tell_length (st : Status) (gs : List (List Ptr)) : (tell st gs).length = gs.length := by
  induction gs generalizing st with
  | nil => rfl
  | cons g gs ih => exact congrArg (· + 1) (ih _)

theorem tell_requests (st : Status) (gs : List (List Ptr)) : (tell st gs).map Seen.requests = gs.map some := by
  induction gs generalizing st with
  | nil => rfl
  | cons g gs ih => exact congrArg (some g :: ·) (ih _)

theorem tell_getElem (st : Status) (gs : List (List Ptr)) (h : k < (tell st gs).length) :
    (tell st gs)[k].first = statusFirst (some { st with current := st.current + BitVec.ofNat 8 (k + 1) }) ∧
      (tell st gs)[k].last = statusLast (some { st with current := st.current + BitVec.ofNat 8 (k + 1) }) := by
  induction gs generalizing st k with
  | nil => exact absurd h (Nat.not_lt_zero k)
  | cons g gs ih =>
    cases k with
    | zero => exact ⟨rfl, rfl⟩
    | succ k =>
      have hk : k < (tell { st with current := st.current + 1 } gs).length := Nat.lt_of_succ_lt_succ h
      have hcurrent : st.current + 1 + BitVec.ofNat 8 (k + 1) = st.current + BitVec.ofNat 8 (k + 1 + 1) := by
        have hone : (1 : BitVec 8) = BitVec.ofNat 8 1 := rfl
        rw [hone, BitVec.add_assoc, ← BitVec.ofNat_add, Nat.add_comm 1]
      have hrest := ih { st with current := st.current + 1 } hk
      dsimp only at hrest
      rw [hcurrent] at hrest
      exact hrest

theorem ofNat_eq_iff (a b : Nat) : BitVec.ofNat 8 a = BitVec.ofNat 8 b ↔ a % 256 = b % 256 := by
  rw [← BitVec.toNat_inj, BitVec.toNat_ofNat, BitVec.toNat_ofNat]

theorem tell_right (st : Status) (hcurrent : st.current = 0) (gs : List (List Ptr)) :
    ((∀ k, ∀ h : k < (tell st gs).length, (tell st gs)[k].first = true ↔ k = 0) ∧
      ∀ k, ∀ h : k < (tell st gs).length, (tell st gs)[k].last = true ↔ k + 1 = (tell st gs).length) ↔
    gs.length = 0 ∨ if st.count = 1 then gs.length = 1 else gs.length ≤ 256 ∧ st.rows = BitVec.ofNat 8 gs.length := by
  have hlen := tell_length st gs
  by_cases hone : st.count = 1
  · -- every call is taken to be the only one
    have hall : ∀ k, ∀ h : k < (tell st gs).length, (tell st gs)[k].first = true ∧ (tell st gs)[k].last = true := by
      intro k h
      rw [(tell_getElem st gs h).1, (tell_getElem st gs h).2]
      simp [statusFirst, statusLast, hone]
    rw [if_pos hone]
    constructor
    · rintro ⟨hfirst, -⟩
      by_contra hmore
      have h : 1 < (tell st gs).length := by omega
      exact absurd ((hfirst 1 h).mp (hall 1 h).1) (by decide)
    · intro hm
      refine ⟨fun k h => iff_of_true (hall k h).1 (by omega), fun k h => iff_of_true (hall k h).2 (by omega)⟩
  · have hcall : ∀ k, ∀ h : k < (tell st gs).length,
        ((tell st gs)[k].first = true ↔ (k + 1) % 256 = 1) ∧
          ((tell st gs)[k].last = true ↔ BitVec.ofNat 8 (k + 1) = st.rows) := by
      intro k h
      have hzero : (0 : BitVec 8) + BitVec.ofNat 8 (k + 1) = BitVec.ofNat 8 (k + 1) := BitVec.zero_add _
      rw [(tell_getElem st gs h).1, (tell_getElem st gs h).2, hcurrent, hzero]
      unfold statusFirst statusLast
      dsimp only
      rw [if_neg hone, if_neg hone, decide_eq_true_iff, decide_eq_true_iff]
      exact ⟨ofNat_eq_iff (k + 1) 1, Iff.rfl⟩
    rw [if_neg hone]
    constructor
    · rintro ⟨hfirst, hlast⟩
      by_cases hm : gs.length = 0
      · exact .inl hm
      · refine .inr ⟨?_, ?_⟩
        · by_contra hmore
          have h : 256 < (tell st gs).length := by omega
          exact absurd ((hfirst 256 h).mp ((hcall 256 h).1.mpr rfl)) (by decide)
        · have h : gs.length - 1 < (tell st gs).length := by omega
          have hend : gs.length - 1 + 1 = gs.length := by omega
          have := (hcall _ h).2.mp ((hlast _ h).mpr (by omega))
          rw [hend] at this
          exact this.symm
    · rintro (hm | ⟨hm, hrows⟩)
      · exact ⟨fun k h => by omega, fun k h => by omega⟩
      · refine ⟨fun k h => (hcall k h).1.trans (by omega), fun k h => ?_⟩
        rw [(hcall k h).2, hrows, ofNat_eq_iff, hlen]
        omega

/-! ## a pass -/

/-- The arrays have room for as many requests as are remembered. -/
def Fitting (st : Status) : Prop :=
  st.count ≠ 0 → st.count ≠ 1 → ∃ room, st.saved = some room ∧ st.count.toInt ≤ room

theorem Fitting.new : Fitting Status.new := fun h => absurd rfl h

theorem ofNat_toInt_le (n : Nat) : (BitVec.ofNat 8 n).toInt ≤ n := by
  rw [BitVec.toInt_eq_toNat_cond, BitVec.toNat_ofNat]
  split <;> omega

/-- The status in which the next handler is called, for so many requests and rows. -/
def Status.counted (st : Status) (n m : Nat) : Status :=
  let st := st.prepare n
  { st with
    rows := if st.count = 0 then st.rows + BitVec.ofNat 8 m else st.rows
    count := if st.count = 0 then BitVec.ofNat 8 n else st.count
    current := 0 }

/-- What a pass leaves in the status. -/
def Input.after (a : Input) (st : Status) : Status :=
  if a.list.length = 1 then { st with count := 1 }
  else { st.counted a.list.length a.rows.length with current := BitVec.ofNat 8 a.rows.length }

theorem prepare_fresh (h : st.count = 0) : st.prepare n = { st with saved := some n } := by
  have hkept : ¬ (st.count ≠ 0 ∧ st.count.toInt ≠ n) := fun hne => hne.1 h
  unfold Status.prepare
  simp only [if_neg hkept, if_pos h]

theorem prepare_changed (h : st.count ≠ 0) (hn : st.count.toInt ≠ n) :
    st.prepare n = { st with saved := some n, count := 0, rows := 0 } := by
  unfold Status.prepare
  simp only [if_pos (And.intro h hn), if_true]

theorem prepare_same (h : st.count ≠ 0) (hn : st.count.toInt = n) : st.prepare n = st := by
  have hkept : ¬ (st.count ≠ 0 ∧ st.count.toInt ≠ n) := fun hne => hne.2 hn
  unfold Status.prepare
  simp only [if_neg hkept, if_neg h]

theorem Fitting.prepare (h : Fitting st) (hn : n ≠ 1) : ∃ room, (st.prepare n).saved = some room ∧ n ≤ room := by
  by_cases hzero : st.count = 0
  · exact ⟨n, by rw [prepare_fresh hzero], Nat.le_refl n⟩
  by_cases hsame : st.count.toInt = n
  · have hone : st.count ≠ 1 := by
      intro hone
      rw [hone] at hsame
      have hsame : (1 : Int) = n := hsame
      omega
    obtain ⟨room, hroom, hle⟩ := h hzero hone
    rw [hsame] at hle
    rw [prepare_same hzero hsame]
    exact ⟨room, hroom, by omega⟩
  · exact ⟨n, by rw [prepare_changed hzero hsame], Nat.le_refl n⟩

theorem Fitting.counted (h : Fitting st) (hn : n ≠ 1) (m : Nat) : Fitting (st.counted n m) := by
  intro hzero hone
  obtain ⟨room, hroom, hle⟩ := h.prepare hn
  refine ⟨room, hroom, ?_⟩
  show (if (st.prepare n).count = 0 then BitVec.ofNat 8 n else (st.prepare n).count).toInt ≤ room
  have hofNat := ofNat_toInt_le n
  split
  · omega
  · next hcount =>
    by_cases hfresh : st.count = 0
    · exact absurd (by rw [prepare_fresh hfresh]; exact hfresh) hcount
    by_cases hsame : st.count.toInt = n
    · rw [prepare_same hfresh hsame]
      omega
    · exact absurd (by rw [prepare_changed hfresh hsame]) hcount

/-- The numbers are those of the rows: there are not more than a `char` can count, and what an earlier pass has left is
right. -/
def Input.CountsHold (a : Input) (st : Status) : Prop :=
  a.rows.length = 0 ∨
    if a.list.length % 256 = 1 then a.rows.length = 1
    else a.rows.length ≤ 256 ∧ (st.count = 0 → st.rows = 0) ∧
      (st.count ≠ 0 → st.count.toInt = a.list.length → st.rows = BitVec.ofNat 8 a.rows.length)

theorem counted_fresh (h : st.count = 0) (m : Nat) :
    (st.counted n m).count = BitVec.ofNat 8 n ∧ (st.counted n m).rows = st.rows + BitVec.ofNat 8 m := by
  unfold Status.counted
  rw [prepare_fresh h]
  exact ⟨if_pos h, if_pos h⟩

theorem counted_changed (h : st.count ≠ 0) (hn : st.count.toInt ≠ n) (m : Nat) :
    (st.counted n m).count = BitVec.ofNat 8 n ∧ (st.counted n m).rows = BitVec.ofNat 8 m := by
  unfold Status.counted
  rw [prepare_changed h hn]
  exact ⟨rfl, BitVec.zero_add _⟩

theorem counted_same (h : st.count ≠ 0) (hn : st.count.toInt = n) (m : Nat) :
    (st.counted n m).count = st.count ∧ (st.counted n m).rows = st.rows := by
  unfold Status.counted
  rw [prepare_same h hn]
  exact ⟨if_neg h, if_neg h⟩

theorem counted_iff (st : Status) (hn : n ≠ 1) (m : Nat) :
    (if (st.counted n m).count = 1 then m = 1 else m ≤ 256 ∧ (st.counted n m).rows = BitVec.ofNat 8 m) ↔
      if n % 256 = 1 then m = 1 else m ≤ 256 ∧ (st.count = 0 → st.rows = 0) ∧
        (st.count ≠ 0 → st.count.toInt = n → st.rows = BitVec.ofNat 8 m) := by
  have hone : BitVec.ofNat 8 n = 1 ↔ n % 256 = 1 := ofNat_eq_iff n 1
  have hz : (0 : BitVec 8) + BitVec.ofNat 8 m = BitVec.ofNat 8 m := BitVec.zero_add _
  have hiff : (st.counted n m).count = 1 ↔ n % 256 = 1 := by
    by_cases hfresh : st.count = 0
    · rw [(counted_fresh hfresh m).1, hone]
    by_cases hsame : st.count.toInt = n
    · rw [(counted_same hfresh hsame m).1]
      have hbound : st.count.toInt < 128 := by
        have := BitVec.two_mul_toInt_lt (x := st.count)
        omega
      refine ⟨fun h => ?_, fun h => ?_⟩
      · rw [h] at hsame
        have hsame : (1 : Int) = n := hsame
        omega
      · omega
    · rw [(counted_changed hfresh hsame m).1, hone]
  by_cases hmod : n % 256 = 1
  · rw [if_pos (hiff.mpr hmod), if_pos hmod]
  · rw [if_neg fun h => hmod (hiff.mp h), if_neg hmod]
    refine and_congr_right fun _ => ?_
    by_cases hfresh : st.count = 0
    · have hzero : st.rows + BitVec.ofNat 8 m = BitVec.ofNat 8 m ↔ st.rows = 0 := by
        have hadd := BitVec.add_left_inj (x := st.rows) (y := 0) (BitVec.ofNat 8 m)
        rwa [hz] at hadd
      rw [(counted_fresh hfresh m).2, hzero]
      exact ⟨fun h => ⟨fun _ => h, fun hne => absurd hfresh hne⟩, fun h => h.1 hfresh⟩
    by_cases hsame : st.count.toInt = n
    · rw [(counted_same hfresh hsame m).2]
      exact ⟨fun h => ⟨fun hz => absurd hz hfresh, fun _ _ => h⟩, fun h => h.2 hfresh hsame⟩
    · rw [(counted_changed hfresh hsame m).2]
      exact iff_of_true rfl ⟨fun hz => absurd hz hfresh, fun _ h => absurd h hsame⟩

/-! ## what a pass comes to -/

variable {links : Links} {requests : Option Ptr} {saved : List Ptr} {rounds : Nat} (skip : Nat) (req : Ptr → Request)
  (rc : List Seen → Int) (rmStatus : Option Status) {p : Ptr}

theorem helperHandler_one (h : collect links.next rounds requests = some [p])
    (hend : collect links.next 1 requests = some [p]) :
    ∃ pass, helperHandler rounds skip req rc rmStatus links requests = .ok pass ∧
      pass.status = { rmStatus.getD .new with count := 1 } ∧ pass.links = links ∧
      pass.seen = if (req p).processed then [] else [⟨some [p], true, true⟩] := by
  unfold helperHandler
  rw [h]
  dsimp only
  by_cases hprocessed : (req p).processed = true
  · rw [if_pos hprocessed, if_pos hprocessed]
    exact ⟨_, rfl, rfl, rfl, rfl⟩
  · rw [if_neg hprocessed, if_neg hprocessed, hend]
    exact ⟨_, rfl, rfl, rfl, rfl⟩

theorem helperHandler_many (h : collect links.next rounds requests = some saved) (hone : saved.length ≠ 1)
    (hroom : ((rmStatus.getD .new).prepare saved.length).saved.any (saved.length ≤ ·) = true) :
    helperHandler rounds skip req rc rmStatus links requests =
      mergeRows skip req rc ((rmStatus.getD .new).prepare saved.length) links saved := by
  unfold helperHandler
  rw [h]
  rcases saved with _ | ⟨p, _ | ⟨q, l⟩⟩
  · exact if_neg (not_not.mpr hroom)
  · exact absurd rfl hone
  · exact if_neg (not_not.mpr hroom)

namespace Input

variable (a : Input) (st : Option Status)

theorem collect_list (n : Nat) : collect a.links.next (a.list.length + n) a.list.head? = some a.list :=
  collect_eq a.chained (Nat.le_add_right ..)

theorem run_many (hfit : Fitting (st.getD .new)) (hone : a.list.length ≠ 1) :
    (∃ pass gs, a.run st = .ok pass ∧ Groups (sameRow a.skip a.req) a.unprocessed gs ∧
      pass.seen = tell ((st.getD .new).counted a.list.length gs.length) gs ∧
      pass.status = { (st.getD .new).counted a.list.length gs.length with current := BitVec.ofNat 8 gs.length } ∧
      pass.links.next = a.links.next) ∨
    ((∃ e, a.run st = .error e) ∧ ∀ gs, ¬ Groups (sameRow a.skip a.req) a.unprocessed gs) := by
  obtain ⟨room, hsaved, hle⟩ := hfit.prepare hone
  have hroom : ((st.getD .new).prepare a.list.length).saved.any (a.list.length ≤ ·) = true := by
    rw [hsaved]
    exact decide_eq_true hle
  have hrun : a.run st = mergeRows a.skip a.req a.rc ((st.getD .new).prepare a.list.length) a.links a.list :=
    helperHandler_many a.skip a.req a.rc st (a.collect_list a.spare) hone hroom
  rw [hrun]
  generalize hprepared : (st.getD .new).prepare a.list.length = prepared
  let w : Work := ⟨{ a.links with prev := fun p => if p ∈ a.list then none else a.links.prev p },
    fun p => if (a.req p).processed then .done else .waiting, prepared.rows⟩
  have hheads : ∀ p ∈ a.list, w.mark p ≠ .head := by
    intro p _
    show (if (a.req p).processed then Mark.done else .waiting) ≠ .head
    split <;> decide
  have hwaiting : waiting w a.list = a.unprocessed := by
    refine filter_congr fun p _ => ?_
    show decide ((if (a.req p).processed then Mark.done else .waiting) = .waiting) = _
    cases (a.req p).processed <;> rfl
  unfold mergeRows
  show (∃ pass gs, (linkRows _ _ a.list w >>= _) = .ok pass ∧ _) ∨ ((∃ e, (linkRows _ _ a.list w >>= _) = .error e) ∧ _)
  rcases linkRows_spec (sameRow a.skip a.req) (decide (prepared.count = 0)) a.nodup hheads with
    ⟨w', gs, hlink, hgroups, hgrouped⟩ | ⟨⟨e, hfault⟩, hnone⟩
  · rw [hwaiting] at hgroups hgrouped
    have hunprocessed : a.unprocessed.length ≤ a.list.length := length_filter_le ..
    have hchained : ∀ g ∈ gs, g ≠ [] ∧ g.length ≤ a.list.length ∧ Chained w'.links.next g := by
      intro g hg
      obtain ⟨hne, hlen⟩ := hgroups.mem g hg
      exact ⟨hne, Nat.le_trans hlen hunprocessed, hgrouped.chained g hg⟩
    obtain ⟨finalRc, hcalls⟩ := callRows_spec a.rc { prepared with
        rows := w'.rows
        count := if prepared.count = 0 then BitVec.ofNat 8 a.list.length else prepared.count
        current := 0 } [] 0 hgrouped.heads hchained
    have hcounted : Status.mk (if prepared.count = 0 then BitVec.ofNat 8 a.list.length else prepared.count) w'.rows 0
        prepared.saved = (st.getD .new).counted a.list.length gs.length := by
      unfold Status.counted
      rw [hprepared, hgrouped.rows]
      by_cases hzero : prepared.count = 0
      · rw [decide_eq_true hzero]
        simp only [if_pos hzero, if_true]
        rfl
      · rw [decide_eq_false hzero]
        simp only [if_neg hzero]
        rfl
    refine .inl ⟨⟨{ (st.getD .new).counted a.list.length gs.length with current := BitVec.ofNat 8 gs.length },
      restore none a.list w'.links, tell ((st.getD .new).counted a.list.length gs.length) gs, finalRc⟩, gs, ?_, hgroups,
      rfl, rfl, ?_⟩
    · rw [hlink]
      have hzero : (0 : BitVec 8) + BitVec.ofNat 8 gs.length = BitVec.ofNat 8 gs.length := BitVec.zero_add _
      refine (congrArg (fun r : Status × List Seen × Int =>
        Except.ok (ε := Fault) (Pass.mk r.1 (restore none a.list w'.links) r.2.1 r.2.2)) hcalls).trans ?_
      rw [← hcounted]
      dsimp only
      rw [hzero]
      rfl
    · refine restore_next a.chained fun p hp => ?_
      exact hgrouped.next p fun hmem => hp (mem_filter.mp hmem).1
  · rw [hwaiting] at hnone
    exact .inr ⟨⟨e, by rw [hfault]; rfl⟩, hnone⟩

/-- The condition on a pass: on its names, and on the numbers. -/
def Holds (a : Input) (st : Status) : Prop :=
  NamesHold a.skip a.req a.unprocessed ∧ (a.list.length = 1 ∨ a.CountsHold st)

theorem run_single (hone : a.list.length = 1) :
    ∃ pass, a.run st = .ok pass ∧ Right a pass ∧ pass.status = { st.getD .new with count := 1 } ∧
      NamesHold a.skip a.req a.unprocessed := by
  obtain ⟨p, hlist⟩ := length_eq_one_iff.mp hone
  have hend : collect a.links.next 1 a.list.head? = some [p] := by
    have hall := a.collect_list 0
    rw [hone] at hall
    exact hall.trans (congrArg some hlist)
  have hcollect : collect a.links.next (a.list.length + a.spare) a.list.head? = some [p] :=
    hlist ▸ a.collect_list a.spare
  obtain ⟨pass, hrun, hstatus, hlinks, hseen⟩ :=
    helperHandler_one a.skip a.req a.rc st hcollect hend
  have hnames : NamesHold a.skip a.req [p] := by
    rcases Nat.lt_or_ge (a.req p).name.length a.skip with hlt | hge
    · exact .inr ⟨_, hlt, forall_mem_singleton.mpr rfl⟩
    · exact .inl (forall_mem_singleton.mpr hge)
  by_cases hprocessed : (a.req p).processed = true
  · have hnone : a.unprocessed = [] := by simp [unprocessed, hlist, hprocessed]
    rw [if_pos hprocessed] at hseen
    refine ⟨pass, hrun, ⟨?_, ?_, ?_, congrArg Links.next hlinks⟩, hstatus, ?_⟩
    · rw [hseen, rows, hnone]
      rfl
    · rw [hseen]
      exact fun k h => absurd h (Nat.not_lt_zero k)
    · rw [hseen]
      exact fun k h => absurd h (Nat.not_lt_zero k)
    · rw [hnone]
      exact .inl fun q hq => absurd hq not_mem_nil
  · have hall : a.unprocessed = [p] := by simp [unprocessed, hlist, hprocessed]
    rw [if_neg hprocessed] at hseen
    refine ⟨pass, hrun, ⟨?_, ?_, ?_, congrArg Links.next hlinks⟩, hstatus, hall ▸ hnames⟩
    · rw [hseen, rows, hall]
      rfl
    · rw [hseen]
      intro k h
      obtain rfl : k = 0 := Nat.lt_one_iff.mp h
      exact iff_of_true rfl rfl
    · rw [hseen]
      intro k h
      obtain rfl : k = 0 := Nat.lt_one_iff.mp h
      exact iff_of_true rfl rfl

theorem right_iff {pass : Pass} (hone : a.list.length ≠ 1)
    (hseen : pass.seen = tell ((st.getD .new).counted a.list.length gs.length) gs)
    (hnext : pass.links.next = a.links.next) : Right a pass ↔ gs = a.rows ∧ a.CountsHold (st.getD .new) := by
  have htold := tell_right ((st.getD .new).counted a.list.length gs.length) rfl gs
  have hcounts := counted_iff (st.getD .new) hone gs.length
  rw [hcounts] at htold
  constructor
  · intro h
    have hrequests := h.requests
    rw [hseen, tell_requests] at hrequests
    have hrows : gs = a.rows := map_injective_iff.mpr (Option.some_injective _) hrequests
    subst hrows
    refine ⟨rfl, htold.mp ?_⟩
    rw [← hseen]
    exact ⟨h.first, h.last⟩
  · rintro ⟨hrows, hhold⟩
    subst hrows
    obtain ⟨hfirst, hlast⟩ := htold.mpr hhold
    rw [← hseen] at hfirst hlast
    refine ⟨?_, hfirst, hlast, hnext⟩
    rw [hseen, tell_requests]

/-- A pass is as it should be exactly under the condition. -/
theorem run_right_iff (hfit : Fitting (st.getD .new)) :
    (∃ pass, a.run st = .ok pass ∧ Right a pass) ↔ a.Holds (st.getD .new) := by
  by_cases hone : a.list.length = 1
  · obtain ⟨pass, hrun, hright, -, hnames⟩ := a.run_single st hone
    exact iff_of_true ⟨pass, hrun, hright⟩ ⟨hnames, .inl hone⟩
  · rcases a.run_many st hfit hone with ⟨pass, gs, hrun, hgroups, hseen, -, hnext⟩ | ⟨⟨e, hfault⟩, hnone⟩
    · have hiff := a.right_iff st hone hseen hnext
      constructor
      · rintro ⟨pass', hrun', hright⟩
        obtain rfl : pass = pass' := Except.ok.inj (hrun.symm.trans hrun')
        obtain ⟨rfl, hhold⟩ := hiff.mp hright
        exact ⟨(groups_iff a.bounded _).mp hgroups, .inr hhold⟩
      · rintro ⟨hnames, hhold⟩
        have hrows : gs = a.rows := hgroups.unique ((groups_iff a.bounded _).mpr hnames)
        exact ⟨pass, hrun, hiff.mpr ⟨hrows, hhold.resolve_left hone⟩⟩
    · refine iff_of_false ?_ ?_
      · rintro ⟨pass, hrun, -⟩
        rw [hfault] at hrun
        cases hrun
      · rintro ⟨hnames, -⟩
        exact hnone _ ((groups_iff a.bounded _).mpr hnames)

theorem run_after (hfit : Fitting (st.getD .new)) {pass : Pass} (hrun : a.run st = .ok pass) (hright : Right a pass) :
    pass.status = a.after (st.getD .new) ∧ Fitting (a.after (st.getD .new)) := by
  unfold after
  by_cases hone : a.list.length = 1
  · obtain ⟨pass', hrun', -, hstatus, -⟩ := a.run_single st hone
    obtain rfl : pass = pass' := Except.ok.inj (hrun.symm.trans hrun')
    rw [if_pos hone]
    exact ⟨hstatus, fun _ hne => absurd rfl hne⟩
  · rw [if_neg hone]
    rcases a.run_many st hfit hone with ⟨pass', gs, hrun', -, hseen, hstatus, hnext⟩ | ⟨⟨e, hfault⟩, -⟩
    · obtain rfl : pass = pass' := Except.ok.inj (hrun.symm.trans hrun')
      obtain ⟨rfl, -⟩ := (a.right_iff st hone hseen hnext).mp hright
      exact ⟨hstatus, hfit.counted hone a.rows.length⟩
    · rw [hfault] at hrun
      cases hrun

end Input

/-! ## runs -/

/-- Every pass of a run is as it should be. -/
def RunRight : Option Status → List Input → Prop
  | _, [] => True
  | st, a :: run => ∃ pass, a.run st = .ok pass ∧ Right a pass ∧ RunRight (some pass.status) run

/-- Every pass of a run meets the condition, in the status that the ones before have left. -/
def RunHolds : Status → List Input → Prop
  | _, [] => True
  | st, a :: run => a.Holds st ∧ RunHolds (a.after st) run

theorem runRight_iff (st : Option Status) (hfit : Fitting (st.getD .new)) (run : List Input) :
    RunRight st run ↔ RunHolds (st.getD .new) run := by
  induction run generalizing st with
  | nil => exact Iff.rfl
  | cons a run ih =>
    have hiff := a.run_right_iff st hfit
    constructor
    · rintro ⟨pass, hrun, hright, hrest⟩
      obtain ⟨hstatus, hfit'⟩ := a.run_after st hfit hrun hright
      refine ⟨hiff.mp ⟨pass, hrun, hright⟩, ?_⟩
      rw [hstatus] at hrest
      exact (ih (some (a.after (st.getD .new))) hfit').mp hrest
    · rintro ⟨hhold, hrest⟩
      obtain ⟨pass, hrun, hright⟩ := hiff.mpr hhold
      obtain ⟨hstatus, hfit'⟩ := a.run_after st hfit hrun hright
      refine ⟨pass, hrun, hright, ?_⟩
      rw [hstatus]
      exact (ih (some (a.after (st.getD .new))) hfit').mpr hrest

/-- In any passes over the same requests each is as it should be exactly if its names are and the numbers are right. -/
theorem passes_right_iff (run : List Input) : RunRight none run ↔ RunHolds .new run :=
  runRight_iff none .new run

/-- Two requests, in rows with the given indexes. -/
def pair (x y : Oid) : Input where
  skip := 1
  req := fun p => if p = 0 then ⟨[7, x], false⟩ else ⟨[7, y], false⟩
  rc := fun _ => 0
  links := ⟨fun p => if p = 0 then some 1 else none, fun _ => none⟩
  list := [0, 1]
  spare := 0
  chained := ⟨rfl, rfl, trivial⟩
  nodup := by decide
  bounded := by
    refine ⟨by decide, fun p => ?_⟩
    split
    · exact Nat.lt_of_le_of_lt (Nat.le_refl 2) (by decide)
    · exact Nat.lt_of_le_of_lt (Nat.le_refl 2) (by decide)

/-- After a pass with one row the first of two rows is taken to be the last. -/
theorem pair_last_wrong :
    ∃ pass pass', (pair 1 1).run none = .ok pass ∧ Right (pair 1 1) pass ∧
      (pair 1 2).run (some pass.status) = .ok pass' ∧
      pass'.seen = [⟨some [0], true, true⟩, ⟨some [1], false, false⟩] ∧ ¬ Right (pair 1 2) pass' := by
  have hfirst : (pair 1 1).Holds .new := by
    refine ⟨.inl fun p _ => ?_, .inr ?_⟩
    · show 1 ≤ (if p = 0 then (⟨[7, 1], false⟩ : Request) else ⟨[7, 1], false⟩).name.length
      split <;> decide
    · unfold Input.CountsHold
      decide +kernel
  obtain ⟨pass, hrun, hright⟩ := ((pair 1 1).run_right_iff none .new).mpr hfirst
  obtain ⟨hstatus, -⟩ := (pair 1 1).run_after none .new hrun hright
  have hsecond : ∃ pass', (pair 1 2).run (some ((pair 1 1).after .new)) = .ok pass' ∧
      pass'.seen = [⟨some [0], true, true⟩, ⟨some [1], false, false⟩] := ⟨_, rfl, rfl⟩
  obtain ⟨pass', hrun', hseen⟩ := hsecond
  refine ⟨pass, pass', hrun, hright, ?_, hseen, fun h => ?_⟩
  · rw [hstatus]
    exact hrun'
  · have hlast := h.last
    rw [hseen] at hlast
    exact absurd ((hlast 0 (by decide)).mp rfl) (by decide)

end Priot.RowMerge
