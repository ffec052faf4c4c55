/-
# The first error

While handlers are called, the first error by the order of the varbinds is kept. The status that a pass returns is
another one, that of the first entry with an error.
-/
import Priot.Agent.Session
import Priot.Lib.Least
import Mathlib.Order.Lattice
import Mathlib.Order.Nat

namespace Priot.Agent

open Lib List

variable {V : Type}

/-! ## the least error -/

/-- The least index with an error. -/
def leastError (st : Nat → Int) (xs : List Nat) : Option Nat := (xs.filter fun i => st i ≠ errNoError).min?

theorem leastError_leastOf (st : Nat → Int) (xs : List Nat) :
    LeastOf (fun i => i ∈ xs ∧ st i ≠ errNoError) (leastError st xs) := by
  have hmem (i : Nat) : i ∈ xs.filter (fun i => st i ≠ errNoError) ↔ i ∈ xs ∧ st i ≠ errNoError := by
    rw [mem_filter, decide_eq_true_iff]
  cases h : leastError st xs with
  | none =>
    intro i hi
    have hnil := min?_eq_none_iff.mp h
    have hi := (hmem i).mpr hi
    rw [hnil] at hi
    cases hi
  | some m =>
    obtain ⟨hm, hle⟩ := min?_eq_some_iff.mp h
    exact ⟨(hmem m).mp hm, fun i hi => Nat.not_lt.mpr (hle i ((hmem i).mpr hi))⟩

variable {st : Nat → Int}

theorem leastError_eq {xs : List Nat} {r : Option Nat}
    (h : LeastOf (fun i => i ∈ xs ∧ st i ≠ errNoError) r) : leastError st xs = r :=
  (leastError_leastOf st xs).unique h

/-- The error that is kept of two. -/
def earlier : Option Nat → Option Nat → Option Nat
  | none, b => b
  | some a, none => some a
  | some a, some b => some (if b < a then b else a)

theorem leastError_append (st : Nat → Int) (xs ys : List Nat) :
    leastError st (xs ++ ys) = earlier (leastError st xs) (leastError st ys) := by
  refine leastError_eq ?_
  have hx := leastError_leastOf st xs
  have hy := leastError_leastOf st ys
  have hmem (i : Nat) : (i ∈ xs ++ ys ∧ st i ≠ errNoError) ↔
      (i ∈ xs ∧ st i ≠ errNoError) ∨ (i ∈ ys ∧ st i ≠ errNoError) := by
    rw [mem_append, or_and_right]
  refine LeastOf.congr ?_ fun i => (hmem i).symm
  cases hxe : leastError st xs with
  | none =>
    rw [hxe] at hx
    exact hy.or_of_none hx
  | some a =>
    rw [hxe] at hx
    cases hye : leastError st ys with
    | none =>
      rw [hye] at hy
      exact hx.congr fun i => (or_iff_left (hy i)).symm
    | some b =>
      rw [hye] at hy
      show _ ∧ _
      split
      · exact ⟨.inr hy.1, fun i hi => hi.elim (fun h => by have := hx.2 i h; omega) (hy.2 i)⟩
      · exact ⟨.inl hx.1, fun i hi => hi.elim (hx.2 i) fun h => by have := hy.2 i h; omega⟩

/-! ## what the agent keeps -/

namespace AgentSession

/-- An error is kept if it comes before the one that is kept already. -/
def note (asp : AgentSession V) (st : Nat → Int) : Option Nat → AgentSession V
  | none => asp
  | some m => if asp.index = 0 ∨ m < asp.index then { asp with index := m, status := st m } else asp

end AgentSession

theorem note_of_earlier (asp : AgentSession V) {m : Nat} (h : asp.index = 0 ∨ m < asp.index) :
    asp.note st (some m) = { asp with index := m, status := st m } := if_pos h

theorem note_of_later (asp : AgentSession V) {m : Nat} (h : ¬(asp.index = 0 ∨ m < asp.index)) :
    asp.note st (some m) = asp := if_neg h

variable {asp : AgentSession V}

theorem note_note {a b : Option Nat} (ha : ∀ m, a = some m → 0 < m) :
    (asp.note st a).note st b = asp.note st (earlier a b) := by
  cases a with
  | none => rfl
  | some a =>
    have hpos : 0 < a := ha a rfl
    cases b with
    | none => rfl
    | some b =>
      show _ = asp.note st (some (if b < a then b else a))
      by_cases hb : b < a
      · rw [if_pos hb]
        by_cases h : asp.index = 0 ∨ a < asp.index
        · rw [note_of_earlier asp h, note_of_earlier { asp with index := a, status := st a } (.inr hb),
            note_of_earlier asp (h.imp_right hb.trans)]
        · rw [note_of_later asp h]
      · rw [if_neg hb]
        by_cases h : asp.index = 0 ∨ a < asp.index
        · rw [note_of_earlier asp h]
          refine note_of_later _ fun hh => ?_
          have hh : a = 0 ∨ b < a := hh
          omega
        · rw [note_of_later asp h]
          exact note_of_later asp (by omega)

/-- The requests of `rs` have the statuses `st`. -/
def HasStatus (st : Nat → Int) (rs : List RequestInfo) : Prop := ∀ r ∈ rs, r.status = st r.index ∧ 0 < r.index

theorem checkRequest_eq {r : RequestInfo} (h : r.status = st r.index) :
    checkRequest 0 asp r = asp.note st (leastError st [r.index]) := by
  by_cases hr : st r.index = errNoError
  · have hnone : leastError st [r.index] = none := by
      refine leastError_eq fun i hi => ?_
      exact hi.2 (mem_singleton.mp hi.1 ▸ hr)
    rw [hnone, checkRequest, if_neg (by rw [h]; exact fun hh => hh.1 hr)]
    rfl
  · have hsome : leastError st [r.index] = some r.index := by
      refine leastError_eq ⟨⟨mem_singleton_self _, hr⟩, fun i hi => ?_⟩
      have := mem_singleton.mp hi.1
      omega
    rw [hsome, checkRequest]
    show _ = if asp.index = 0 ∨ r.index < asp.index then { asp with index := r.index, status := st r.index } else asp
    refine if_congr ?_ (by rw [h]) rfl
    rw [h]
    exact ⟨fun hh => hh.2.2.resolve_left fun h0 => h0 rfl, fun hh => ⟨hr, .inl rfl, .inr hh⟩⟩

theorem checkRequestsStatus_eq {rs : List RequestInfo}
    (h : HasStatus st rs) : checkRequestsStatus asp rs 0 = asp.note st (leastError st (rs.map (·.index))) := by
  induction rs generalizing asp with
  | nil => rfl
  | cons r rs ih =>
    obtain ⟨hr, hpos⟩ := h r mem_cons_self
    have hleast : leastError st ((r :: rs).map (·.index)) =
        earlier (leastError st [r.index]) (leastError st (rs.map (·.index))) := leastError_append st [r.index] _
    rw [hleast, ← note_note, ← checkRequest_eq hr]
    · exact ih fun r' hr' => h r' (mem_cons_of_mem _ hr')
    · intro m hm
      have := leastError_leastOf st [r.index]
      rw [hm] at this
      rw [mem_singleton.mp this.1.1]
      exact hpos

/-! ## passes -/

/-- The error of the first entry that has one. -/
def firstError (st : Nat → Int) (entries : List (List Nat)) : Int :=
  match entries.findSome? (leastError st) with
  | some m => st m
  | none => errNoError

variable {entries : List (List Nat)}

theorem firstError_cons_none {xs : List Nat}
    (h : leastError st xs = none) : firstError st (xs :: entries) = firstError st entries := by
  unfold firstError
  rw [findSome?_cons, h]

theorem firstError_cons_some {xs : List Nat} {m : Nat}
    (h : leastError st xs = some m) : firstError st (xs :: entries) = st m := by
  unfold firstError
  rw [findSome?_cons, h]

theorem leastError_ne {xs : List Nat} {m : Nat} (h : leastError st xs = some m) : m ∈ xs ∧ st m ≠ errNoError := by
  have hl := leastError_leastOf st xs
  rw [h] at hl
  exact hl.1

theorem leastError_none {xs : List Nat} (h : leastError st xs = none) : ∀ i ∈ xs, st i = errNoError := by
  have hl := leastError_leastOf st xs
  rw [h] at hl
  exact fun i hi => not_not.mp fun hne => hl i ⟨hi, hne⟩

/-- Something is wrong in an entry if and only if something is wrong at all. -/
theorem firstError_eq_zero : firstError st entries = errNoError ↔ leastError st entries.flatten = none := by
  induction entries with
  | nil => exact ⟨fun _ => rfl, fun _ => rfl⟩
  | cons xs entries ih =>
    rw [flatten_cons, leastError_append]
    cases h : leastError st xs with
    | none =>
      rw [firstError_cons_none h]
      exact ih
    | some m =>
      rw [firstError_cons_some h]
      refine ⟨fun h0 => absurd h0 (leastError_ne h).2, fun hn => ?_⟩
      cases he : leastError st entries.flatten <;> rw [he] at hn <;> cases hn

/-- Requests that have just been made. -/
def Fresh (cache : List (List RequestInfo)) : Prop :=
  ∀ rs ∈ cache, ∀ r ∈ rs, r.status = errNoError ∧ 0 < r.index

/-- What a pass makes of a session, where handlers return no status themselves. -/
def afterPass (asp : AgentSession V) (p : Pass V) (cache done : List (List RequestInfo)) (log : List Event) :
    AgentSession V :=
  { asp.note p.report (leastError p.report (cache.map (·.map (·.index))).flatten) with
    treecache := done ++ cache.map (·.map p.apply), vars := p.fill asp.vars, log }

theorem note_frame (asp : AgentSession V) (st : Nat → Int) (m : Option Nat) :
    asp.note st m = { asp with index := (asp.note st m).index, status := (asp.note st m).status } := by
  cases m with
  | none => rfl
  | some m =>
    by_cases h : asp.index = 0 ∨ m < asp.index
    · rw [note_of_earlier asp h]
    · rw [note_of_later asp h]

theorem note_first (hs : asp.status = errNoError) (hi : asp.index = 0) (st : Nat → Int) (m : Option Nat) :
    (asp.note st m).index = m.getD 0 ∧ (asp.note st m).status = (m.map st).getD errNoError := by
  cases m with
  | none => exact ⟨hi, hs⟩
  | some m =>
    rw [note_of_earlier asp (.inl hi)]
    exact ⟨rfl, rfl⟩

theorem note_withLog (asp : AgentSession V) (st : Nat → Int) (m : Option Nat) (log : List Event) :
    ({ asp with log } : AgentSession V).note st m = { asp.note st m with log } := by
  cases m with
  | none => rfl
  | some m =>
    by_cases h : asp.index = 0 ∨ m < asp.index
    · rw [note_of_earlier asp h, note_of_earlier { asp with log } h]
    · rw [note_of_later asp h, note_of_later { asp with log } h]

variable {cache : List (List RequestInfo)}

theorem Fresh.hasStatus {rs : List RequestInfo} (h : Fresh cache) (hrs : rs ∈ cache)
    (p : Pass V) : HasStatus p.report (rs.map p.apply) := by
  intro r' hr'
  obtain ⟨r, hr, rfl⟩ := mem_map.mp hr'
  obtain ⟨h0, hpos⟩ := h rs hrs r hr
  refine ⟨?_, hpos⟩
  show (if p.report r.index ≠ errNoError then p.report r.index else r.status) = p.report r.index
  split
  · rfl
  · next hz => rw [h0, not_not.mp hz]

theorem map_apply_index (p : Pass V) (rs : List RequestInfo) : (rs.map p.apply).map (·.index) = rs.map (·.index) := by
  rw [map_map]
  rfl

theorem leastError_pos {rs : List RequestInfo} (h : ∀ r ∈ rs, 0 < r.index) (m : Nat)
    (hm : leastError st (rs.map (·.index)) = some m) : 0 < m := by
  obtain ⟨r, hr, hrm⟩ := mem_map.mp (leastError_ne hm).1
  rw [← hrm]
  exact h r hr

theorem varRequestsLoop_eq (p : Pass V) {done : List (List RequestInfo)} {i : Nat}
    {finalStatus : Int} (hret : ∀ i, p.ret i = errNoError) (hmode : lookFor asp.mode = 0) (hfresh : Fresh cache)
    (hinv : finalStatus = errNoError → asp.status = errNoError ∧ asp.index = 0) :
    ∃ log, varRequestsLoop p asp i finalStatus done cache = (afterPass asp p cache done log,
        if finalStatus ≠ errNoError then finalStatus else firstError p.report (cache.map (·.map (·.index)))) := by
  induction cache generalizing asp done i finalStatus with
  | nil =>
    refine ⟨asp.log, ?_⟩
    have hfinal : finalStatus = if finalStatus ≠ errNoError then finalStatus else errNoError := by
      split
      · rfl
      · next h => exact not_not.mp h
    show (_, finalStatus) = (_, if finalStatus ≠ errNoError then finalStatus else errNoError)
    rw [← hfinal]
    show (_, finalStatus) = (({ asp with treecache := done ++ [], vars := _, log := _ } : AgentSession V), finalStatus)
    rw [append_nil]
  | cons rs cache ih =>
    -- what is kept after the first entry, and what the status of the entry is
    let asp₁ : AgentSession V :=
      { asp with log := asp.log ++ .call asp.mode (rs.map (·.index)) :: p.errors asp.mode i rs }
    let asp₂ := asp₁.note p.report (leastError p.report (rs.map (·.index)))
    let status := if asp₂.status ≠ errNoError then asp₂.status else p.ret i
    let final₂ := if finalStatus = errNoError ∧ status ≠ errNoError then status else finalStatus
    have hcheck : checkRequestsStatus asp₁ (rs.map p.apply) (lookFor asp₁.mode) = asp₂ := by
      show checkRequestsStatus asp₁ (rs.map p.apply) (lookFor asp.mode) = asp₂
      rw [hmode, checkRequestsStatus_eq (hfresh.hasStatus mem_cons_self p), map_apply_index]
    have hstep : varRequestsLoop p asp i finalStatus done (rs :: cache) =
        varRequestsLoop p asp₂ (i + 1) final₂ (done ++ [rs.map p.apply]) cache := by
      show varRequestsLoop p (checkRequestsStatus asp₁ (rs.map p.apply) (lookFor asp₁.mode)) _ _ _ _ = _
      rw [hcheck]
    have hfinal : (final₂ = errNoError → asp₂.status = errNoError ∧ asp₂.index = 0) ∧
        (if finalStatus ≠ errNoError then finalStatus else firstError p.report ((rs :: cache).map (·.map (·.index)))) =
          if final₂ ≠ errNoError then final₂ else firstError p.report (cache.map (·.map (·.index))) := by
      by_cases h0 : finalStatus = errNoError
      · obtain ⟨hs, hi⟩ := hinv h0
        have hf : final₂ = status := by
          show (if finalStatus = errNoError ∧ status ≠ errNoError then status else finalStatus) = status
          split
          · rfl
          · next h => rw [h0, not_not.mp fun hne => h ⟨h0, hne⟩]
        rw [hf, if_neg (not_not.mpr h0), map_cons]
        cases hm : leastError p.report (rs.map (·.index)) with
        | none =>
          have h₂ : asp₂ = asp₁ := by
            show asp₁.note _ (leastError p.report (rs.map (·.index))) = _
            rw [hm]
            rfl
          have hst : status = errNoError := by
            show (if asp₂.status ≠ errNoError then asp₂.status else p.ret i) = errNoError
            rw [h₂, if_neg (not_not.mpr hs), hret]
          rw [hst, h₂, firstError_cons_none hm]
          exact ⟨fun _ => ⟨hs, hi⟩, (if_neg (not_not.mpr rfl)).symm⟩
        | some m =>
          have h₂ : asp₂.status = p.report m := by
            show (asp₁.note _ (leastError p.report (rs.map (·.index)))).status = _
            rw [hm, note_of_earlier asp₁ (.inl hi)]
          have hst : status = p.report m := by
            show (if asp₂.status ≠ errNoError then asp₂.status else p.ret i) = _
            rw [h₂, if_pos (leastError_ne hm).2]
          rw [hst, firstError_cons_some hm, if_pos (leastError_ne hm).2]
          exact ⟨fun h => absurd h (leastError_ne hm).2, rfl⟩
      · have hf : final₂ = finalStatus := if_neg fun h => h0 h.1
        rw [hf, if_pos h0, if_pos h0]
        exact ⟨fun h => absurd h h0, rfl⟩
    obtain ⟨log, hlog⟩ := @ih asp₂ (done ++ [rs.map p.apply]) (i + 1) final₂
      (by show lookFor (asp₁.note _ _).mode = 0; rw [note_frame]; exact hmode) (fun rs' h => hfresh rs' (mem_cons_of_mem _ h)) hfinal.1
    refine ⟨log, ?_⟩
    rw [hstep, hlog, hfinal.2]
    congr 1
    have hvars : asp₂.vars = asp.vars := by
      show (asp₁.note _ _).vars = _
      rw [note_frame]
    unfold afterPass
    rw [note_note (leastError_pos fun r hr => (hfresh rs mem_cons_self r hr).2), ← leastError_append,
      note_withLog, hvars, append_assoc]
    rfl

/-- The cache of a request: its entries, with a status and a mark for each index. -/
def cacheOf (entries : List (List Nat)) (st : Nat → Int) (delegated : Nat → Bool) : List (List RequestInfo) :=
  entries.map (·.map fun i => ⟨i, st i, delegated i⟩)

section Cache

variable {entries : List (List Nat)} {st : Nat → Int} {delegated : Nat → Bool}

theorem cacheOf_indexes : (cacheOf entries st delegated).map (·.map (·.index)) = entries := by
  unfold cacheOf
  rw [map_map]
  refine (map_congr_left fun xs _ => ?_).trans (map_id entries)
  show (xs.map _).map _ = xs
  rw [map_map]
  exact (map_congr_left fun _ _ => rfl).trans (map_id xs)

theorem cacheOf_flatten :
    (cacheOf entries st delegated).flatten = entries.flatten.map fun i => ⟨i, st i, delegated i⟩ := by
  unfold cacheOf
  rw [← map_flatten]

theorem cacheOf_map (f : RequestInfo → RequestInfo) {st' : Nat → Int} {delegated' : Nat → Bool}
    (h : ∀ i, f ⟨i, st i, delegated i⟩ = ⟨i, st' i, delegated' i⟩) :
    (cacheOf entries st delegated).map (·.map f) = cacheOf entries st' delegated' := by
  unfold cacheOf
  rw [map_map]
  refine map_congr_left fun xs _ => ?_
  show (xs.map _).map f = _
  rw [map_map]
  exact map_congr_left fun i _ => h i

theorem newRequests_eq : entries.map newRequests = cacheOf entries (fun _ => errNoError) fun _ => false := rfl

theorem cacheOf_fresh (hpos : ∀ i ∈ entries.flatten, 0 < i) : Fresh (entries.map newRequests) := by
  intro rs hrs r hr
  obtain ⟨xs, hxs, rfl⟩ := mem_map.mp hrs
  obtain ⟨i, hi, rfl⟩ := mem_map.mp hr
  exact ⟨rfl, hpos i (mem_flatten.mpr ⟨xs, hxs, hi⟩)⟩

theorem checkForDelegated_cacheOf {asp : AgentSession V} (h : asp.treecache = cacheOf entries st delegated) :
    checkForDelegated asp = entries.flatten.any delegated := by
  unfold checkForDelegated AgentSession.requests
  rw [h, cacheOf_flatten, any_map]
  rfl

theorem checkAllRequestsStatus_eq {asp : AgentSession V} (h : asp.treecache = cacheOf entries st delegated)
    (hpos : ∀ i ∈ entries.flatten, 0 < i) :
    checkAllRequestsStatus asp 0 = asp.note st (leastError st entries.flatten) := by
  have hflat : checkAllRequestsStatus asp 0 = checkRequestsStatus asp asp.treecache.flatten 0 := by
    unfold checkAllRequestsStatus checkRequestsStatus
    rw [foldl_flatten]
  rw [hflat, h, cacheOf_flatten, checkRequestsStatus_eq, map_map]
  · congr 2
    exact (map_congr_left fun _ _ => rfl).trans (map_id _)
  · intro r hr
    obtain ⟨i, hi, rfl⟩ := mem_map.mp hr
    exact ⟨rfl, hpos i hi⟩

end Cache

theorem handleVarRequests_first (p : Pass V)
    (hcache : asp.treecache = entries.map newRequests) (hpos : ∀ i ∈ entries.flatten, 0 < i)
    (hret : ∀ i, p.ret i = errNoError) (hmode : lookFor asp.mode = 0) (hs : asp.status = errNoError)
    (hi : asp.index = 0) :
    ∃ log, handleVarRequests asp p =
      ({ asp.note p.report (leastError p.report entries.flatten) with
          treecache := cacheOf entries p.report p.delegate, vars := p.fill asp.vars, log },
        firstError p.report entries) := by
  have happly : (asp.treecache).map (·.map p.apply) = cacheOf entries p.report p.delegate := by
    rw [hcache, newRequests_eq]
    refine cacheOf_map p.apply fun i => ?_
    show (⟨i, if p.report i ≠ errNoError then p.report i else errNoError, p.delegate i⟩ : RequestInfo) = _
    split
    · rfl
    · next h => rw [not_not.mp h]
  have hindexes : asp.treecache.map (·.map (·.index)) = entries := by
    rw [hcache, newRequests_eq, cacheOf_indexes]
  have hfresh : Fresh asp.treecache := by
    rw [hcache]
    exact cacheOf_fresh hpos
  obtain ⟨log, hlog⟩ := @varRequestsLoop_eq V (asp.record (.phase asp.mode (checkForDelegated asp))) asp.treecache p []
    0 errNoError hret hmode hfresh fun _ => ⟨hs, hi⟩
  refine ⟨log, hlog.trans ?_⟩
  rw [if_neg (not_not.mpr rfl), hindexes]
  unfold afterPass AgentSession.record
  rw [hindexes, happly, note_withLog]
  rfl

/-! ## later passes -/

/-- A pass in which no handler reports an error or delegates a request. -/
structure Pass.Quiet (p : Pass V) : Prop where
  report : ∀ i, p.report i = errNoError
  delegate : ∀ i, p.delegate i = false
  ret : ∀ i, p.ret i = errNoError

theorem Pass.Quiet.apply {p : Pass V} (hp : p.Quiet) (r : RequestInfo) :
    p.apply r = { r with delegated := false } := by
  unfold Pass.apply
  rw [if_neg (not_not.mpr (hp.report _)), hp.delegate]

theorem checkRequestsStatus_quiet {rs : List RequestInfo} {look : Int}
    (h : ∀ r ∈ rs, r.status = errNoError) : checkRequestsStatus asp rs look = asp := by
  induction rs with
  | nil => rfl
  | cons r rs ih =>
    have hr : checkRequest look asp r = asp := if_neg fun hh => hh.1 (h r mem_cons_self)
    show checkRequestsStatus (checkRequest look asp r) rs look = asp
    rw [hr]
    exact ih fun r' hr' => h r' (mem_cons_of_mem _ hr')

theorem varRequestsLoop_quiet {p : Pass V} (hp : p.Quiet) {done : List (List RequestInfo)}
    {i : Nat} {finalStatus : Int} (h : ∀ rs ∈ cache, ∀ r ∈ rs, r.status = errNoError) :
    ∃ log, varRequestsLoop p asp i finalStatus done cache =
      ({ asp with treecache := done ++ cache.map (·.map p.apply), vars := p.fill asp.vars, log },
        if finalStatus ≠ errNoError ∨ cache = [] then finalStatus else asp.status) := by
  induction cache generalizing asp done i finalStatus with
  | nil =>
    refine ⟨asp.log, ?_⟩
    rw [if_pos (.inr rfl)]
    show (_, finalStatus) = (({ asp with treecache := done ++ [], vars := _, log := _ } : AgentSession V), finalStatus)
    rw [append_nil]
  | cons rs cache ih =>
    let asp₁ : AgentSession V :=
      { asp with log := asp.log ++ .call asp.mode (rs.map (·.index)) :: p.errors asp.mode i rs }
    have hcheck : checkRequestsStatus asp₁ (rs.map p.apply) (lookFor asp₁.mode) = asp₁ := by
      refine checkRequestsStatus_quiet fun r' hr' => ?_
      obtain ⟨r, hr, rfl⟩ := mem_map.mp hr'
      rw [hp.apply]
      exact h rs mem_cons_self r hr
    have hstatus : (if asp.status ≠ errNoError then asp.status else p.ret i) = asp.status := by
      split
      · rfl
      · next h0 => rw [hp.ret, not_not.mp h0]
    have hstep : varRequestsLoop p asp i finalStatus done (rs :: cache) =
        varRequestsLoop p asp₁ (i + 1) (if finalStatus = errNoError ∧ asp.status ≠ errNoError then asp.status
          else finalStatus) (done ++ [rs.map p.apply]) cache := by
      show varRequestsLoop p (checkRequestsStatus asp₁ (rs.map p.apply) (lookFor asp₁.mode)) _ _ _ _ = _
      rw [hcheck]
      show varRequestsLoop p asp₁ (i + 1) (if finalStatus = errNoError ∧
        (if asp.status ≠ errNoError then asp.status else p.ret i) ≠ errNoError then
          (if asp.status ≠ errNoError then asp.status else p.ret i) else finalStatus) _ _ = _
      rw [hstatus]
    obtain ⟨log, hlog⟩ := @ih asp₁ (done ++ [rs.map p.apply]) (i + 1)
      (if finalStatus = errNoError ∧ asp.status ≠ errNoError then asp.status else finalStatus)
      (fun rs' hrs' => h rs' (mem_cons_of_mem _ hrs'))
    refine ⟨log, ?_⟩
    rw [hstep, hlog, append_assoc]
    have hfinal : (if (if finalStatus = errNoError ∧ asp.status ≠ errNoError then asp.status else finalStatus) ≠
        errNoError ∨ cache = [] then
          (if finalStatus = errNoError ∧ asp.status ≠ errNoError then asp.status else finalStatus) else asp.status) =
        if finalStatus ≠ errNoError ∨ rs :: cache = [] then finalStatus else asp.status := by
      by_cases h0 : finalStatus = errNoError <;> by_cases hs : asp.status = errNoError <;> simp [h0, hs]
    show (_, if _ then _ else asp.status) = _
    rw [hfinal]
    rfl

/-- The varbinds of a request that is answered with an error: the pass that is made once more ends the search. -/
def lateFill (rounds : List (Round V)) (vars : V) : V :=
  match rounds with
  | [] => vars
  | r :: _ => r.pass.fill vars

theorem handleVarRequests_quiet {r : Round V} (hr : r.pass.Quiet)
    (hcache : asp.treecache = r.again.map newRequests) :
    ∃ log, handleVarRequests asp r.pass =
      ({ asp with treecache := cacheOf r.again (fun _ => errNoError) fun _ => false, vars := r.pass.fill asp.vars, log },
        if r.again = [] then errNoError else asp.status) := by
  have hfresh : ∀ rs ∈ asp.treecache, ∀ r ∈ rs, r.status = errNoError := by
    rw [hcache]
    intro rs hrs r hr
    obtain ⟨xs, -, rfl⟩ := mem_map.mp hrs
    obtain ⟨i, -, rfl⟩ := mem_map.mp hr
    rfl
  obtain ⟨log, hlog⟩ := @varRequestsLoop_quiet V (asp.record (.phase asp.mode (checkForDelegated asp)))
    asp.treecache r.pass hr [] 0 errNoError hfresh
  refine ⟨log, hlog.trans ?_⟩
  have happly : asp.treecache.map (·.map r.pass.apply) = cacheOf r.again (fun _ => errNoError) fun _ => false := by
    rw [hcache, newRequests_eq]
    exact cacheOf_map _ fun i => hr.apply _
  have hnil : (errNoError ≠ errNoError ∨ asp.treecache = []) ↔ r.again = [] := by
    rw [hcache, map_eq_nil_iff]
    exact or_iff_right fun h => h rfl
  rw [happly, if_congr hnil rfl rfl]
  rfl

theorem handleGetnextLoop_end {rounds : List (Round V)} (hdel : ¬checkForDelegated asp = true)
    (h : rounds = [] ∨ asp.treecache = []) : handleGetnextLoop asp rounds = (endSpecial asp, errNoError) := by
  cases rounds with
  | nil => exact if_neg hdel
  | cons r rounds =>
    unfold handleGetnextLoop
    rw [if_neg hdel, if_pos (h.resolve_left (cons_ne_nil _ _))]

theorem handleGetnextLoop_delegated (rounds : List (Round V))
    (hdel : checkForDelegated asp = true) : handleGetnextLoop asp rounds = (asp, errNoError) := by
  cases rounds with
  | nil => exact if_pos hdel
  | cons r rounds =>
    unfold handleGetnextLoop
    rw [if_pos hdel]

theorem handleGetnextLoop_round {r : Round V} {rounds : List (Round V)}
    (hdel : ¬checkForDelegated asp = true) (hcache : asp.treecache ≠ []) {out : AgentSession V × Int}
    (hout : handleVarRequests (reassignRequests (endSpecial asp) r.again) r.pass = out) :
    handleGetnextLoop asp (r :: rounds) = if out.2 ≠ errNoError then out else handleGetnextLoop out.1 rounds := by
  conv => lhs; unfold handleGetnextLoop
  rw [if_neg hdel, if_neg hcache, hout]

theorem handleGetnextLoop_quiet {rounds : List (Round V)} (hquiet : ∀ r ∈ rounds, r.pass.Quiet)
    (hdel : checkForDelegated asp = false) :
    ∃ asp' status, handleGetnextLoop asp rounds = (asp', status) ∧ checkForDelegated asp' = false ∧
      asp'.status = asp.status ∧ asp'.index = asp.index ∧ asp'.origVars = asp.origVars ∧
      (asp.status = errNoError → status = errNoError) ∧
      (asp.status ≠ errNoError → asp.treecache ≠ [] → asp'.vars = lateFill rounds asp.vars) := by
  have hnot (asp : AgentSession V) (hdel : checkForDelegated asp = false) : ¬checkForDelegated asp = true := by
    rw [hdel]
    exact Bool.false_ne_true
  induction rounds generalizing asp with
  | nil =>
    exact ⟨_, _, handleGetnextLoop_end (hnot _ hdel) (.inl rfl), hdel, rfl, rfl, rfl, fun _ => rfl, fun _ _ => rfl⟩
  | cons r rounds ih =>
    by_cases hnil : asp.treecache = []
    · exact ⟨_, _, handleGetnextLoop_end (hnot _ hdel) (.inr hnil), hdel, rfl, rfl, rfl, fun _ => rfl,
        fun _ h => absurd hnil h⟩
    obtain ⟨log, hpass⟩ := @handleVarRequests_quiet V (reassignRequests (endSpecial asp) r.again) r
      (hquiet r mem_cons_self) rfl
    let asp₁ : AgentSession V :=
      { reassignRequests (endSpecial asp) r.again with
        treecache := cacheOf r.again (fun _ => errNoError) fun _ => false, vars := r.pass.fill asp.vars, log }
    have hpass : handleVarRequests (reassignRequests (endSpecial asp) r.again) r.pass =
      (asp₁, if r.again = [] then errNoError else asp.status) := hpass
    have hdel₁ : checkForDelegated asp₁ = false := by
      rw [checkForDelegated_cacheOf (show asp₁.treecache = _ from rfl)]
      exact any_eq_false.mpr fun _ _ => Bool.false_ne_true
    rw [handleGetnextLoop_round (hnot _ hdel) hnil hpass]
    by_cases hagain : r.again = []
    · have hend : handleGetnextLoop asp₁ rounds = (endSpecial asp₁, errNoError) := by
        refine handleGetnextLoop_end (hnot _ hdel₁) (.inr ?_)
        show cacheOf r.again _ _ = []
        rw [hagain]
        rfl
      rw [if_neg (not_not.mpr (if_pos hagain))]
      exact ⟨_, _, hend, hdel₁, rfl, rfl, rfl, fun _ => rfl, fun _ _ => rfl⟩
    · rw [if_neg hagain]
      by_cases hs : asp.status = errNoError
      · obtain ⟨asp', status, hloop, hdel', hs', hi, ho, hz, -⟩ :=
          ih (fun r' hr' => hquiet r' (mem_cons_of_mem _ hr')) hdel₁
        rw [if_neg (not_not.mpr hs)]
        exact ⟨asp', status, hloop, hdel', hs', hi, ho, hz, fun h => absurd hs h⟩
      · rw [if_pos hs]
        exact ⟨asp₁, asp.status, rfl, hdel₁, rfl, rfl, rfl, fun h => absurd h hs, fun _ _ => rfl⟩

theorem handleSearch_eq (asp : AgentSession V) (mode : Mode) (s : Script V) {asp' : AgentSession V} {status : Int}
    (hout : handleVarRequests
      { asp with
        mode := if asp.inclusives then .get else mode
        oldmode := if asp.inclusives then mode else asp.oldmode } s.first = (asp', status)) :
    handleSearch asp mode s =
      if status ≠ errNoError then
        if asp'.inclusives then handleGetnextLoop { asp' with status := errNoError } s.rounds else (asp', status)
      else handleGetnextLoop asp' s.rounds := by
  unfold handleSearch
  rw [hout]

end Priot.Agent
