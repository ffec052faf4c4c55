/-
# Index allocation is exclusive

As long as no text is asked for that goes on where a listed one ends, or the other way round, and the last value of an
OID can be counted up when it has to be, every request is answered by what is allocated.
-/
import Priot.AgentIndex.Edits

namespace Priot.AgentIndex

open Lib

variable {s s' : IndexRegistry} {L L' : List (List Index)}

/-! ## runs -/

/-- The calls of the registry. -/
inductive Op
  | registerIndex (varbind : VarBind) (flags : Flags) (ss : Option Ptr)
  | releaseIndex (varbind : VarBind)
  | removeIndex (varbind : VarBind) (ss : Option Ptr)
  | unregisterIndexBySession (ss : Option Ptr)
  deriving DecidableEq

/-- What a call returns: the varbind or `NULL`, a code, or nothing. -/
inductive Reply
  | varbind (rv : Option IndexValue)
  | code (rc : Int)
  | void
  deriving DecidableEq

def step (s : IndexRegistry) : Op → Option (Reply × IndexRegistry)
  | .registerIndex varbind flags ss => do
    let (rv, s) ← registerIndex s varbind flags ss
    some (.varbind rv, s)
  | .releaseIndex varbind => do
    let (rc, s) ← releaseIndex s varbind
    some (.code rc, s)
  | .removeIndex varbind ss => do
    let (rc, s) ← removeIndex s varbind ss
    some (.code rc, s)
  | .unregisterIndexBySession ss => do
    let s ← unregisterIndexBySession s ss
    some (.void, s)

/-- What a call needs of the registry. -/
def Meets (L : List (List Index)) : Op → Prop
  | .registerIndex varbind flags _ => Serves L varbind flags
  | .releaseIndex varbind => Releases L varbind none
  | .removeIndex varbind ss => Releases L varbind ss
  | .unregisterIndexBySession _ => True

/-- What a call answers and leaves behind. -/
def Served (L L' : List (List Index)) : Op → Reply → Prop
  | .registerIndex varbind flags ss, .varbind rv => Registered L L' varbind flags ss rv
  | .releaseIndex varbind, .code rc => Unregistered L L' varbind none rc
  | .removeIndex varbind ss, .code rc => Unregistered L L' varbind ss rc
  | .unregisterIndexBySession ss, .void => ∀ n v t, Held L' n v t ↔ Held L n v t ∧ t ≠ ss
  | _, _ => False

/-- A state of a run from the empty registry in which every call had what it needs. -/
inductive Reached : IndexRegistry → Prop
  | fresh : Reached fresh
  | step {s s' : IndexRegistry} {op : Op} {reply : Reply} (hs : Reached s) (hmeets : Meets (idxRegistry s) op)
    (hstep : step s op = some (reply, s')) : Reached s'

theorem listed_fresh : Listed fresh [] :=
  ⟨Lib.Rows.empty _ _, List.Pairwise.nil, fun _ hrow => absurd hrow List.not_mem_nil⟩

theorem Listed.unregisterIndexBySession_spec {rows : List Items} (h : Listed s rows) (ss : Option Ptr) :
    ∃ s' rows', unregisterIndexBySession s ss = some s' ∧ Listed s' rows' ∧
      ∀ n v t, Held (data rows') n v t ↔ Held (data rows) n v t ∧ t ≠ ss := by
  obtain ⟨heap, e, hrows⟩ := h.linked.mapAll (disown ss)
  have hdata : data (rows.map (·.map fun y => (y.1, disown ss y.2))) = (data rows).map (·.map (disown ss)) := by
    simp [data, Function.comp_def]
  refine ⟨{ s with heap := heap }, _, ?_, ⟨hrows, ?_⟩, ?_⟩
  · rw [unregisterIndexBySession, e]
    rfl
  · rw [hdata]
    exact h.ordered.disown ss
  · intro n v t
    rw [hdata]
    exact held_disown

theorem Listed.step_spec {rows : List Items} (h : Listed s rows) {op : Op} (hmeets : Meets (data rows) op) :
    ∃ reply s' rows', step s op = some (reply, s') ∧ Listed s' rows' ∧ Served (data rows) (data rows') op reply := by
  cases op with
  | registerIndex varbind flags ss =>
    obtain ⟨rv, s', rows', e, h', hreg⟩ := h.registerIndex_spec hmeets ss
    exact ⟨.varbind rv, s', rows', by rw [step, e]; rfl, h', hreg⟩
  | releaseIndex varbind =>
    obtain ⟨rc, s', rows', e, h', hunreg⟩ := h.unregisterIndex_spec hmeets true
    exact ⟨.code rc, s', rows', by rw [step, releaseIndex, e]; rfl, h', hunreg⟩
  | removeIndex varbind ss =>
    obtain ⟨rc, s', rows', e, h', hunreg⟩ := h.unregisterIndex_spec hmeets false
    exact ⟨.code rc, s', rows', by rw [step, removeIndex, e]; rfl, h', hunreg⟩
  | unregisterIndexBySession ss =>
    obtain ⟨s', rows', e, h', hheld⟩ := h.unregisterIndexBySession_spec ss
    exact ⟨.void, s', rows', by rw [step, e]; rfl, h', hheld⟩

theorem Reached.listed (h : Reached s) : ∃ rows, Listed s rows := by
  induction h with
  | fresh => exact ⟨[], listed_fresh⟩
  | step _ hmeets hstep ih =>
    obtain ⟨rows, hlisted⟩ := ih
    rw [hlisted.idxRegistry_eq] at hmeets
    obtain ⟨reply, s', rows', e, h', -⟩ := hlisted.step_spec hmeets
    rw [hstep] at e
    obtain ⟨-, rfl⟩ := Prod.mk.inj (Option.some.inj e)
    exact ⟨rows', h'⟩

/-! ## exclusive and exact -/

/-- In every state of such a run the rows are in order and no value has two entries, and the next call is answered by
what is allocated: one value is had if and only if nobody has it. -/
theorem index_exclusive_exact (h : Reached s) :
    Ordered (idxRegistry s) ∧ Exclusive (idxRegistry s) ∧
    ∀ op, Meets (idxRegistry s) op →
      ∃ reply s', step s op = some (reply, s') ∧ Served (idxRegistry s) (idxRegistry s') op reply := by
  obtain ⟨rows, hlisted⟩ := h.listed
  rw [hlisted.idxRegistry_eq]
  refine ⟨hlisted.ordered, hlisted.ordered.exclusive, fun op hmeets => ?_⟩
  obtain ⟨reply, s', rows', e, h', hserved⟩ := hlisted.step_spec hmeets
  refine ⟨reply, s', e, ?_⟩
  rw [h'.idxRegistry_eq]
  exact hserved

/-- After one session has been given an integer. -/
theorem index_exclusive_exact_five :
    ∃ s, step fresh (.registerIndex ⟨[1, 3], .integer 5⟩ .allocateThisIndex (some 1)) =
        some (.varbind (some (.integer 5)), s) ∧
      Ordered (idxRegistry s) ∧ Exclusive (idxRegistry s) ∧
      ∀ op, Meets (idxRegistry s) op →
        ∃ reply s', step s op = some (reply, s') ∧ Served (idxRegistry s) (idxRegistry s') op reply := by
  refine ⟨_, rfl, index_exclusive_exact ?_⟩
  have hmeets : Meets (idxRegistry fresh) (.registerIndex ⟨[1, 3], .integer 5⟩ .allocateThisIndex (some 1)) :=
    ⟨⟨by decide, by decide⟩, fun _ he => absurd he List.not_mem_nil⟩
  exact .step .fresh hmeets rfl

/-- `"ab"` is taken, and so `"abc"` cannot be had although nobody has it. -/
theorem index_not_exact :
    ∃ s, step fresh (.registerIndex ⟨[1, 3], .octets [97, 98]⟩ .allocateThisIndex (some 1)) =
        some (.varbind (some (.octets [97, 98])), s) ∧
      step s (.registerIndex ⟨[1, 3], .octets [97, 98, 99]⟩ .allocateThisIndex (some 1)) = some (.varbind none, s) ∧
      Fits (idxRegistry s) ⟨[1, 3], .octets [97, 98, 99]⟩ ∧
      ∀ t, ¬ Held (idxRegistry s) [1, 3] (.octets [97, 98, 99]) t := by
  refine ⟨_, rfl, rfl, ?_, ?_⟩
  · intro e he
    have hlist : e ∈ [(⟨[1, 3], .octets [97, 98], true, some 1⟩ : Index)] := he
    rw [List.mem_singleton.mp hlist]
    rfl
  · rintro t ⟨e, he, -, hv, -⟩
    have hlist : e ∈ [(⟨[1, 3], .octets [97, 98], true, some 1⟩ : Index)] := he
    rw [List.mem_singleton.mp hlist] at hv
    exact absurd hv (by decide)

end Priot.AgentIndex
