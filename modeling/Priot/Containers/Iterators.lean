/-
# Iterators of the containers

An iterator keeps a position and the `sync` count that the container had when it was last reset; with another count it
answers `NULL`. The iterator of the list answers with the node where the others answer with the object in it.
-/
import Priot.Containers.Ssll
import Priot.Lib.Cursor

namespace Priot.Containers

open Lib Lib.Machine List

variable {α : Type}

/-! ## the functions of the code -/

/-- What a function of an iterator returns. -/
inductive Returned (α : Type)
  | null
  | object (x : α)
  | node (n : Nat)
  | rc (rc : Int)
  deriving DecidableEq, Repr

def Returned.ofOption : Option α → Returned α
  | none => .null
  | some x => .object x

namespace BinaryArray

structure Iterator where
  sync : Nat
  pos : Nat
  deriving DecidableEq, Repr

def iteratorPosition (c : BinaryArray α) (it : Iterator) (pos : Nat) : Returned α :=
  if c.sync ≠ it.sync then .null
  else if c.table.count = 0 then .null
  else if c.table.count ≤ pos then .null
  else .ofOption c.table.data[pos]?

def iteratorCurr (c : BinaryArray α) (it : Iterator) : Returned α := c.iteratorPosition it it.pos

def iteratorFirst (c : BinaryArray α) (it : Iterator) : Returned α := c.iteratorPosition it 0

/-- `_ContainerBinaryArray_baIteratorNext`: the position is a `size_t`. -/
def iteratorNext (c : BinaryArray α) (it : Iterator) : Returned α × Iterator :=
  let it := { it with pos := (it.pos + 1) % 2 ^ 64 }
  (c.iteratorPosition it it.pos, it)

/-- `_ContainerBinaryArray_baIteratorLast`; `t->count - 1` is a `size_t` too. -/
def iteratorLast (c : BinaryArray α) (it : Iterator) : Returned α :=
  c.iteratorPosition it (if c.table.count = 0 then 2 ^ 64 - 1 else c.table.count - 1)

def iteratorRemove (c : BinaryArray α) (it : Iterator) : Option (Int × BinaryArray α × Iterator) := do
  let p ← c.removeAt it.pos
  some (p.1, p.2, { sync := it.sync + 1, pos := (it.pos + (2 ^ 64 - 1)) % 2 ^ 64 })

def iteratorReset (c : BinaryArray α) : Option (BinaryArray α × Iterator) := do
  let c ← c.sortIfDirty
  some (c, { sync := c.sync, pos := 0 })

end BinaryArray

namespace Ssll

structure Iterator where
  sync : Nat
  pos : Option Nat
  last : Option Nat
  deriving DecidableEq, Repr

/-- `t->head`. -/
def head (c : Ssll α) : Option Nat := if 0 < c.data.length then some 0 else none

/-- `n->next`. -/
def nodeNext (c : Ssll α) (n : Nat) : Option Nat := if n + 1 < c.data.length then some (n + 1) else none

/-- `n->data`. -/
def nodeData (c : Ssll α) (n : Nat) : Returned α := .ofOption c.data[n]?

def iteratorCurr (c : Ssll α) (it : Iterator) : Returned α :=
  if c.sync ≠ it.sync then .null
  else match it.pos with
    | none => .null
    | some n => c.nodeData n

def iteratorFirst (c : Ssll α) (it : Iterator) : Returned α :=
  if c.sync ≠ it.sync then .null
  else match c.head with
    | none => .null
    | some n => c.nodeData n

def iteratorNext (c : Ssll α) (it : Iterator) : Returned α × Iterator :=
  if c.sync ≠ it.sync then (.null, it)
  else match it.pos with
    | none => (.null, it)
    | some n =>
      match c.nodeNext n with
      | none => (.null, { it with pos := none })
      | some n => (c.nodeData n, { it with pos := some n })

/-- `while(n->next) n = n->next;` -/
def lastLoop (c : Ssll α) : Nat → Nat → Option Nat
  | 0, _ => none
  | k + 1, n =>
    match c.nodeNext n with
    | none => some n
    | some n => lastLoop c k n

/-- `_ContainerListSsll_iteratorLast`. The node it finds is kept, and is itself the answer from then on. -/
def iteratorLast (c : Ssll α) (it : Iterator) : Option (Returned α × Iterator) :=
  if c.sync ≠ it.sync then some (.null, it)
  else match it.last with
    | some n => some (.node n, it)
    | none =>
      match it.pos.or c.head with
      | none => some (.null, it)
      | some n => do
        let n ← c.lastLoop c.data.length n
        some (c.nodeData n, { it with last := some n })

def iteratorReset (c : Ssll α) : Iterator := { sync := c.sync, pos := c.head, last := none }

end Ssll

/-- A container of one of the two kinds. -/
inductive Container (α : Type)
  | array (c : BinaryArray α)
  | list (c : Ssll α)

/-- A container and an iterator over it. -/
inductive Walk (α : Type)
  | array (c : BinaryArray α) (it : BinaryArray.Iterator)
  | list (c : Ssll α) (it : Ssll.Iterator)

/-- `getIterator`, if there is memory. -/
def Container.getIterator : Container α → Option (Walk α)
  | .array c => c.iteratorReset.map fun p => .array p.1 p.2
  | .list c => some (.list c c.iteratorReset)

/-- A call of one of the iterator's functions. -/
def Walk.step : Walk α → Move → Option (Returned α × Walk α)
  | .array c it, .first => some (c.iteratorFirst it, .array c it)
  | .array c it, .next => some ((c.iteratorNext it).1, .array c (c.iteratorNext it).2)
  | .array c it, .curr => some (c.iteratorCurr it, .array c it)
  | .array c it, .last => some (c.iteratorLast it, .array c it)
  | .array c _, .reset => c.iteratorReset.map fun p => (.rc 0, .array p.1 p.2)
  | .list c it, .first => some (c.iteratorFirst it, .list c it)
  | .list c it, .next => some ((c.iteratorNext it).1, .list c (c.iteratorNext it).2)
  | .list c it, .curr => some (c.iteratorCurr it, .list c it)
  | .list c it, .last => (c.iteratorLast it).map fun p => (p.1, .list c p.2)
  | .list c _, .reset => some (.rc 0, .list c c.iteratorReset)

/-! ## one move -/

/-- What a function of the code returns for a reply of the cursor. -/
def Returned.ofReply : Reply α → Returned α
  | .element x => .ofOption x
  | .back => .rc 0

/-- A binary array that needs no sorting before a pass. -/
def BinaryArray.Settled (c : BinaryArray α) : Prop := c.sortIfDirty = some c

variable {c : BinaryArray α}

theorem BinaryArray.settled_of_sortIfDirty {c' : BinaryArray α} (h : c.sortIfDirty = some c') : c'.Settled := by
  rw [sortIfDirty] at h
  by_cases hd : c.table.dirty = true
  · rw [if_pos hd, sortArray] at h
    by_cases hu : c.flags.unsorted = true
    · rw [if_pos hu, Option.some.injEq] at h
      subst h
      rw [Settled, sortIfDirty, if_pos hd, sortArray, if_pos hu]
    · rw [if_neg hu, if_pos hd] at h
      obtain ⟨data, _, h⟩ := Option.bind_eq_some_iff.mp h
      rw [Option.some.injEq] at h
      subst h
      exact sortIfDirty_clean rfl
  · rw [if_neg hd, Option.some.injEq] at h
    subst h
    exact sortIfDirty_clean (Bool.eq_false_iff.mpr hd)

theorem BinaryArray.iteratorReset_settled (h : c.Settled) :
    c.iteratorReset = some (c, { sync := c.sync, pos := 0 }) := by
  rw [iteratorReset, h]
  rfl

/-- The iterator is in sync and stands where the cursor does. -/
inductive Tracks : Walk α → Cursor α → Prop
  | array {c : BinaryArray α} {it : BinaryArray.Iterator} {t : Cursor α} (data : c.table.data = t.elements)
      (settled : c.Settled) (sync : c.sync = it.sync) (pos : t.pos = min it.pos t.elements.length)
      (size : it.pos < 2 ^ 64) (fits : t.elements.length < 2 ^ 64) : Tracks (.array c it) t
  | list {c : Ssll α} {it : Ssll.Iterator} {t : Cursor α} (data : c.data = t.elements) (sync : c.sync = it.sync)
      (pos : it.pos = if t.pos < t.elements.length then some t.pos else none) (le : t.pos ≤ t.elements.length) :
      Tracks (.list c it) t

/-- The position does not wrap around, and the last node of a list is not asked for again once it is known. -/
def Walk.Minds : Walk α → Move → Prop
  | .array _ it, .next => it.pos ≠ 2 ^ 64 - 1
  | .list _ it, .last => it.last = none
  | _, _ => True

theorem BinaryArray.iteratorPosition_inSync {it : Iterator} (h : c.sync = it.sync) (pos : Nat) :
    c.iteratorPosition it pos = .ofOption c.table.data[pos]? := by
  rw [iteratorPosition, if_neg (not_not.mpr h)]
  by_cases h0 : c.table.count = 0
  · rw [if_pos h0, length_eq_zero_iff.mp h0]
    rfl
  · rw [if_neg h0]
    by_cases hpos : c.table.count ≤ pos
    · rw [if_pos hpos, getElem?_eq_none hpos]
      rfl
    · rw [if_neg hpos]

theorem BinaryArray.iteratorFirst_inSync {it : Iterator} (h : c.sync = it.sync) :
    c.iteratorFirst it = .ofOption c.table.data.head? := by
  rw [iteratorFirst, iteratorPosition_inSync h, ← head?_eq_getElem?]

theorem BinaryArray.iteratorLast_inSync {it : Iterator} (h : c.sync = it.sync) :
    c.iteratorLast it = .ofOption c.table.data.getLast? := by
  rw [iteratorLast, iteratorPosition_inSync h, getLast?_eq_getElem?]
  by_cases h0 : c.table.count = 0
  · rw [length_eq_zero_iff.mp h0]
    rfl
  · rw [if_neg h0]
    rfl

theorem BinaryArray.step_tracks {it : Iterator} {t : Cursor α} {m : Move}
    (h : Tracks (.array c it) t) (hm : (Walk.array c it).Minds m) :
    ∃ w, (Walk.array c it).step m = some (.ofReply (t.move m).1, w) ∧ Tracks w (t.move m).2 := by
  obtain ⟨xs, p⟩ := t
  cases h with
  | array hdata hset hsync hpos hsize hfits =>
    simp only at hdata hpos
    subst hdata
    cases m with
    | first =>
      refine ⟨_, ?_, .array rfl hset hsync hpos hsize hfits⟩
      rw [Walk.step, iteratorFirst_inSync hsync]
      rfl
    | next =>
      have hwrap : (it.pos + 1) % 2 ^ 64 = it.pos + 1 := by
        have hne : it.pos ≠ 2 ^ 64 - 1 := hm
        exact Nat.mod_eq_of_lt (by omega)
      have hmin : min (p + 1) c.table.data.length = min (it.pos + 1) c.table.data.length := by omega
      -- behind the end one position is as good as another
      have hend : c.table.data[min (it.pos + 1) c.table.data.length]? = c.table.data[it.pos + 1]? := by
        rcases Nat.le_total (it.pos + 1) c.table.data.length with hle | hle
        · rw [Nat.min_eq_left hle]
        · rw [Nat.min_eq_right hle, getElem?_eq_none (Nat.le_refl _), getElem?_eq_none hle]
      refine ⟨.array c { it with pos := it.pos + 1 }, ?_, .array rfl hset hsync hmin ?_ hfits⟩
      · have hmoved : c.iteratorPosition { it with pos := it.pos + 1 } (it.pos + 1) =
            .ofOption c.table.data[it.pos + 1]? := iteratorPosition_inSync hsync _
        simp only [Walk.step, iteratorNext, hwrap, hmoved, Cursor.move, hmin, hend]
        rfl
      · rw [← hwrap]
        exact Nat.mod_lt _ (by decide)
    | curr =>
      have hend : c.table.data[p]? = c.table.data[it.pos]? := by
        rcases Nat.le_total it.pos c.table.data.length with hle | hle
        · rw [hpos, Nat.min_eq_left hle]
        · rw [hpos, Nat.min_eq_right hle, getElem?_eq_none (Nat.le_refl _), getElem?_eq_none hle]
      refine ⟨_, ?_, .array rfl hset hsync hpos hsize hfits⟩
      rw [Walk.step, iteratorCurr, iteratorPosition_inSync hsync, ← hend]
      rfl
    | last =>
      refine ⟨_, ?_, .array rfl hset hsync hpos hsize hfits⟩
      rw [Walk.step, iteratorLast_inSync hsync]
      rfl
    | reset =>
      refine ⟨.array c { sync := c.sync, pos := 0 }, ?_, .array rfl hset rfl (Nat.zero_min _).symm (Nat.two_pow_pos 64) hfits⟩
      rw [Walk.step, iteratorReset_settled hset]
      rfl

namespace Ssll

theorem lastLoop_spec {c : Ssll α} : ∀ (k n : Nat), n < c.data.length → c.data.length ≤ n + k →
    c.lastLoop k n = some (c.data.length - 1) := by
  intro k
  induction k with
  | zero => intro n hn hk; omega
  | succ k ih =>
    intro n hn hk
    rw [lastLoop, nodeNext]
    by_cases hlast : n + 1 < c.data.length
    · rw [if_pos hlast]
      exact ih (n + 1) hlast (by omega)
    · rw [if_neg hlast]
      exact congrArg some (by omega)

theorem step_tracks {c : Ssll α} {it : Iterator} {t : Cursor α} {m : Move} (h : Tracks (.list c it) t)
    (hm : (Walk.list c it).Minds m) :
    ∃ w, (Walk.list c it).step m = some (.ofReply (t.move m).1, w) ∧ Tracks w (t.move m).2 := by
  obtain ⟨xs, p⟩ := t
  cases h with
  | list hdata hsync hpos hle =>
    simp only at hdata hpos hle
    subst hdata
    have hin : ¬ c.sync ≠ it.sync := not_not.mpr hsync
    cases m with
    | first =>
      refine ⟨_, ?_, .list rfl hsync hpos hle⟩
      rw [Walk.step, iteratorFirst, if_neg hin, head]
      by_cases h0 : 0 < c.data.length
      · simp only [if_pos h0, nodeData, Cursor.move, head?_eq_getElem?]
        rfl
      · rw [if_neg h0, length_eq_zero_iff.mp (Nat.eq_zero_of_not_pos h0)]
        rfl
    | next =>
      rw [Walk.step, iteratorNext, if_neg hin, hpos]
      by_cases hp : p < c.data.length
      · simp only [if_pos hp, nodeNext, Cursor.move]
        rw [Nat.min_eq_left hp]
        by_cases hp' : p + 1 < c.data.length
        · simp only [if_pos hp', nodeData]
          exact ⟨_, rfl, .list rfl hsync (if_pos hp').symm hp⟩
        · simp only [if_neg hp', getElem?_eq_none (not_lt.mp hp')]
          exact ⟨_, rfl, .list rfl hsync (if_neg hp').symm hp⟩
      · obtain rfl : p = c.data.length := Nat.le_antisymm hle (not_lt.mp hp)
        simp only [if_neg hp, Cursor.move, Nat.min_eq_right (Nat.le_succ _), getElem?_eq_none (Nat.le_refl _)]
        exact ⟨_, rfl, .list rfl hsync hpos hle⟩
    | curr =>
      refine ⟨_, ?_, .list rfl hsync hpos hle⟩
      rw [Walk.step, iteratorCurr, if_neg hin, hpos]
      by_cases hp : p < c.data.length
      · rw [if_pos hp]
        rfl
      · rw [if_neg hp, Cursor.move, getElem?_eq_none (not_lt.mp hp)]
        rfl
    | last =>
      have hlast : it.last = none := hm
      rw [Walk.step, iteratorLast, if_neg hin, hlast, hpos, head, Cursor.move, getLast?_eq_getElem?]
      by_cases h0 : 0 < c.data.length
      · obtain ⟨n, hn, hor⟩ : ∃ n, n < c.data.length ∧
            (if p < c.data.length then some p else none : Option Nat).or (some 0) = some n := by
          by_cases hp : p < c.data.length
          · exact ⟨p, hp, by rw [if_pos hp]; rfl⟩
          · exact ⟨0, h0, by rw [if_neg hp]; rfl⟩
        simp only [if_pos h0, hor, lastLoop_spec _ n hn (Nat.le_add_left _ _)]
        exact ⟨_, rfl, .list rfl hsync rfl hle⟩
      · have hnil : c.data = [] := length_eq_zero_iff.mp (Nat.eq_zero_of_not_pos h0)
        refine ⟨.list c it, ?_, .list rfl hsync hpos hle⟩
        rw [hnil]
        rfl
    | reset => exact ⟨_, rfl, .list rfl rfl rfl (Nat.zero_le _)⟩

end Ssll

theorem Walk.step_tracks {w : Walk α} {t : Cursor α} {m : Move} (h : Tracks w t) (hm : w.Minds m) :
    ∃ w', w.step m = some (.ofReply (t.move m).1, w') ∧ Tracks w' (t.move m).2 := by
  cases w with
  | array c it => exact BinaryArray.step_tracks h hm
  | list c it => exact Ssll.step_tracks h hm

/-! ## runs -/

/-- The array is never sorted, or sorted already, or one that the container can sort. -/
def Container.Usable : Container α → Prop
  | .array c =>
    c.table.count < 2 ^ 64 ∧ (c.flags.unsorted = true ∨ (c.table.dirty = false ∧ SortedBy c.compare c.table.data) ∨
      (c.Kept ∧ c.table.count ≤ sortable))
  | .list _ => True

/-- The order of a container: an array is sorted first, unless it is never sorted, and a list is kept in order. -/
def Container.Orders : Container α → List α → Prop
  | .array c, xs =>
    xs.Perm c.table.data ∧ if c.flags.unsorted = true then xs = c.table.data else SortedBy c.compare xs
  | .list c, xs => xs = c.data

theorem BinaryArray.sortIfDirty_orders (hc : (Container.array c).Usable) :
    ∃ c', c.sortIfDirty = some c' ∧ (Container.array c).Orders c'.table.data := by
  obtain ⟨_, hu | ⟨hclean, hsorted⟩ | ⟨hkept, hn⟩⟩ := hc
  · refine ⟨c, ?_, List.Perm.refl _, by rw [if_pos hu]⟩
    rw [sortIfDirty, sortArray, if_pos hu, ite_self]
  · refine ⟨c, sortIfDirty_clean hclean, List.Perm.refl _, ?_⟩
    by_cases hu : c.flags.unsorted = true
    · rw [if_pos hu]
    · rw [if_neg hu]
      exact hsorted
  · obtain ⟨c', e, hsort⟩ := sortIfDirty_spec hkept hn
    refine ⟨c', e, hsort.perm, ?_⟩
    rw [hkept.sorts]
    exact hsort.sorted

theorem Container.getIterator_tracks {c : Container α} (hc : c.Usable) :
    ∃ w xs, c.getIterator = some w ∧ c.Orders xs ∧ Tracks w ⟨xs, 0⟩ := by
  cases c with
  | array c =>
    obtain ⟨c', e, hord⟩ := BinaryArray.sortIfDirty_orders hc
    refine ⟨.array c' { sync := c'.sync, pos := 0 }, c'.table.data, ?_, hord, ?_⟩
    · rw [getIterator, BinaryArray.iteratorReset, e]
      rfl
    · refine .array rfl (BinaryArray.settled_of_sortIfDirty e) rfl (Nat.zero_min _).symm (Nat.two_pow_pos 64) ?_
      rw [hord.1.length_eq]
      exact hc.1
  | list c => exact ⟨_, c.data, rfl, rfl, .list rfl rfl rfl (Nat.zero_le _)⟩

/-- So many moves on do not bring the position around. -/
def Walk.Room : Walk α → Nat → Prop
  | .array _ it, k => it.pos + k < 2 ^ 64
  | .list _ _, _ => True

theorem along_nexts (k : Nat) : ∀ {w : Walk α}, w.Room k → Along Walk.step Walk.Minds w (List.replicate k .next) := by
  induction k with
  | zero =>
    intro w _
    trivial
  | succ k ih =>
    intro w hroom
    refine ⟨?_, ?_⟩
    · cases w with
      | array c it =>
        have hlt : it.pos + (k + 1) < 2 ^ 64 := hroom
        show it.pos ≠ 2 ^ 64 - 1
        omega
      | list c it => trivial
    · intro b w' e
      refine ih ?_
      cases w with
      | array c it =>
        have hlt : it.pos + (k + 1) < 2 ^ 64 := hroom
        rw [Walk.step, Option.some.injEq, Prod.mk.injEq] at e
        obtain ⟨-, rfl⟩ := e
        show (it.pos + 1) % 2 ^ 64 + k < 2 ^ 64
        omega
      | list c it =>
        rw [Walk.step, Option.some.injEq, Prod.mk.injEq] at e
        obtain ⟨-, rfl⟩ := e
        trivial

theorem along_pass {w : Walk α} {t : Cursor α} (h : Tracks w t) :
    Along Walk.step Walk.Minds w (Cursor.pass t.elements.length) := by
  cases h with
  | @array c it t hdata hset hsync hpos hsize hfits =>
    refine ⟨trivial, fun b w₁ e₁ => ?_⟩
    rw [Walk.step, BinaryArray.iteratorReset_settled hset, Option.map_some, Option.some.injEq, Prod.mk.injEq] at e₁
    obtain ⟨-, rfl⟩ := e₁
    refine ⟨trivial, fun b w₂ e₂ => along_nexts _ ?_⟩
    rw [Walk.step, Option.some.injEq, Prod.mk.injEq] at e₂
    obtain ⟨-, rfl⟩ := e₂
    show 0 + t.elements.length < 2 ^ 64
    omega
  | @list c it t hdata hsync hpos hle =>
    refine ⟨trivial, fun b w₁ e₁ => ?_⟩
    rw [Walk.step, Option.some.injEq, Prod.mk.injEq] at e₁
    obtain ⟨-, rfl⟩ := e₁
    refine ⟨trivial, fun b w₂ e₂ => along_nexts _ ?_⟩
    rw [Walk.step, Option.some.injEq, Prod.mk.injEq] at e₂
    obtain ⟨-, rfl⟩ := e₂
    trivial

/-- Integers in a sorted list. -/
def intList (xs : List Int) : Container Int := .list ⟨xs, false, false, fun a b => a - b, xs.length⟩

end Priot.Containers
