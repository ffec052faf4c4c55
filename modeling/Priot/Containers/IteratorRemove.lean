/-
# Removing through an iterator

A traversal of a binary array asks the iterator to remove objects as it meets them. `remove` moves the position back,
and counts up the iterator's `sync`; the container counts up its own only when it had to shift objects down.
-/
import Priot.Containers.Iterators

namespace Priot.Containers

open List

variable {α : Type}

/-! ## the traversal -/

namespace BinaryArray

/-- The loop over `next`, which the `k`th object of all is the first to enter: the objects it meets, and what becomes of
the container and the iterator. -/
def traverseLoop (chosen : Nat → Bool) : Nat → Nat → Returned α → BinaryArray α → Iterator →
    Option (List α × BinaryArray α × Iterator)
  | 0, _, _, _, _ => none
  | n + 1, k, .object x, c, it => do
    let p ← if chosen k then (c.iteratorRemove it).map (·.2) else some (c, it)
    let next := p.1.iteratorNext p.2
    let q ← traverseLoop chosen n (k + 1) next.1 p.1 next.2
    some (x :: q.1, q.2)
  | _ + 1, _, _, c, it => some ([], c, it)

/-- `for (x = first(it); x; x = next(it))` behind a reset, with `remove(it)` at the chosen positions. -/
def traverse (c : BinaryArray α) (chosen : Nat → Bool) : Option (List α × BinaryArray α × Iterator) := do
  let p ← c.iteratorReset
  traverseLoop chosen (c.table.count + 1) 0 (p.1.iteratorFirst p.2) p.1 p.2

end BinaryArray

/-- The elements at the positions that are not chosen; the first one is at `k`. -/
def unchosen (chosen : Nat → Bool) : Nat → List α → List α
  | _, [] => []
  | k, x :: xs => if chosen k then unchosen chosen (k + 1) xs else x :: unchosen chosen (k + 1) xs

/-- What is last in the list is not chosen; the first element is at `k`. -/
def SparesLast (chosen : Nat → Bool) (k : Nat) (xs : List α) : Prop := xs = [] ∨ chosen (k + xs.length - 1) = false

/-! ## one round -/

namespace BinaryArray

theorem iteratorRemove_spec {c : BinaryArray α} {it : Iterator} {xs ys : List α} {x : α}
    (hdata : c.table.data = xs ++ x :: ys) (hpos : it.pos = xs.length) :
    ∃ c', c.iteratorRemove it =
        some (0, c', { sync := it.sync + 1, pos := (xs.length + (2 ^ 64 - 1)) % 2 ^ 64 }) ∧
      c'.table.data = xs ++ ys ∧ c'.sync = if ys = [] then c.sync else c.sync + 1 := by
  have hcount : c.table.count = xs.length + (ys.length + 1) := by
    rw [Table.count, hdata, length_append, length_cons]
  have h0 : ¬ c.table.count = 0 := by omega
  have hin : ¬ c.table.count ≤ xs.length := by omega
  have hrest : c.table.data.eraseIdx xs.length = xs ++ ys := by
    rw [hdata, eraseIdx_append_of_length_le (Nat.le_refl _), Nat.sub_self]
    rfl
  have hsync : (if xs.length ≠ c.table.count - 1 then c.sync + 1 else c.sync) =
      if ys = [] then c.sync else c.sync + 1 := by
    by_cases hys : ys = []
    · subst hys
      rw [if_pos rfl, if_neg]
      rw [hcount]
      exact not_not.mpr rfl
    · have hlen : ys.length ≠ 0 := fun h => hys (length_eq_zero_iff.mp h)
      rw [if_neg hys, if_pos (by omega)]
  rw [iteratorRemove, hpos, removeAt, if_neg h0, if_neg hin, hrest, hsync]
  exact ⟨_, rfl, rfl, rfl⟩

theorem iteratorPosition_append {c : BinaryArray α} {it : Iterator} {xs ys : List α} (h : c.sync = it.sync)
    (hdata : c.table.data = xs ++ ys) : c.iteratorPosition it xs.length = .ofOption ys.head? := by
  rw [iteratorPosition_inSync h, hdata, getElem?_append_right (Nat.le_refl _), Nat.sub_self, head?_eq_getElem?]

theorem traverseLoop_spec (chosen : Nat → Bool) (ys : List α) :
    ∀ (n k : Nat) (xs : List α) (c : BinaryArray α) (it : Iterator), ys.length < n → c.table.data = xs ++ ys →
      it.pos = xs.length → c.sync = it.sync → c.table.count < 2 ^ 64 →
      ∃ c' it', traverseLoop chosen n k (.ofOption ys.head?) c it = some (ys, c', it') ∧
        c'.table.data = xs ++ unchosen chosen k ys ∧ (c'.sync = it'.sync ↔ SparesLast chosen k ys) := by
  induction ys with
  | nil =>
    intro n k xs c it hn hdata _ hsync _
    obtain ⟨n, rfl⟩ : ∃ m, n = m + 1 := ⟨n - 1, by omega⟩
    exact ⟨c, it, rfl, hdata, iff_of_true hsync (.inl rfl)⟩
  | cons y ys ih =>
    intro n k xs c it hn hdata hpos hsync hcount
    obtain ⟨n, rfl⟩ : ∃ m, n = m + 1 := ⟨n - 1, by omega⟩
    have hlen : c.table.count = xs.length + (ys.length + 1) := by
      rw [Table.count, hdata, length_append, length_cons]
    have hlast : ys ≠ [] → (SparesLast chosen (k + 1) ys ↔ SparesLast chosen k (y :: ys)) := by
      intro hys
      have hk : k + 1 + ys.length - 1 = k + (ys.length + 1) - 1 := by omega
      rw [SparesLast, SparesLast, or_iff_right hys, or_iff_right (cons_ne_nil y ys), length_cons, hk]
    simp only [head?_cons, Returned.ofOption, traverseLoop]
    by_cases hk : chosen k = true
    · obtain ⟨c', e, hdata', hsync'⟩ := iteratorRemove_spec hdata hpos
      -- the position is back where the removed object was
      have hback : ((xs.length + (2 ^ 64 - 1)) % 2 ^ 64 + 1) % 2 ^ 64 = xs.length := by omega
      simp only [if_pos hk, e, Option.map_some, Option.bind_eq_bind, Option.bind_some, iteratorNext, hback, unchosen]
      by_cases hys : ys = []
      · subst hys
        rw [if_pos rfl] at hsync'
        have hout : c'.sync ≠ it.sync + 1 := by omega
        have hnull : c'.iteratorPosition { sync := it.sync + 1, pos := xs.length } xs.length = .null := if_pos hout
        obtain ⟨n, rfl⟩ : ∃ m, n = m + 1 := ⟨n - 1, by simp only [length_cons] at hn; omega⟩
        rw [hnull]
        refine ⟨c', _, rfl, hdata', iff_of_false hout ?_⟩
        rintro (hcons | hspared)
        · exact cons_ne_nil y [] hcons
        · rw [show k + [y].length - 1 = k from rfl, hk] at hspared
          exact absurd hspared (by decide)
      · rw [if_neg hys, hsync] at hsync'
        have hcount' : c'.table.count < 2 ^ 64 := by
          rw [Table.count, hdata', length_append]
          omega
        have hhead : c'.iteratorPosition { sync := it.sync + 1, pos := xs.length } xs.length = .ofOption ys.head? :=
          iteratorPosition_append hsync' hdata'
        obtain ⟨c'', it'', e', hdata'', hsync''⟩ := ih n (k + 1) xs c' { sync := it.sync + 1, pos := xs.length }
          (by simp only [length_cons] at hn; omega) hdata' rfl hsync' hcount'
        rw [hhead, e']
        exact ⟨c'', it'', rfl, hdata'', hsync''.trans (hlast hys)⟩
    · have hforth : (it.pos + 1) % 2 ^ 64 = (xs ++ [y]).length := by
        rw [length_append, hpos]
        exact Nat.mod_eq_of_lt (by omega)
      have hdata' : c.table.data = (xs ++ [y]) ++ ys := by
        rw [hdata, append_assoc]
        rfl
      have hhead : c.iteratorPosition { it with pos := (xs ++ [y]).length } (xs ++ [y]).length = .ofOption ys.head? :=
        iteratorPosition_append hsync hdata'
      obtain ⟨c', it', e', hdata'', hsync''⟩ := ih n (k + 1) (xs ++ [y]) c { it with pos := (xs ++ [y]).length }
        (by simp only [length_cons] at hn; omega) hdata' rfl hsync hcount
      simp only [if_neg hk, Option.bind_eq_bind, Option.bind_some, iteratorNext, hforth, hhead, e', unchosen]
      refine ⟨c', it', rfl, by rw [hdata'', append_assoc]; rfl, hsync''.trans ?_⟩
      by_cases hys : ys = []
      · subst hys
        exact iff_of_true (.inl rfl) (.inr (Bool.eq_false_iff.mpr hk))
      · exact hlast hys

/-! ## the traversal is safe -/

/-- The traversal meets every object once, leaves those that were not chosen, and the iterator can go on. -/
def Safe (c : BinaryArray α) (chosen : Nat → Bool) : Prop :=
  ∃ xs c' it', (Container.array c).Orders xs ∧ c.traverse chosen = some (xs, c', it') ∧
    c'.table.data = unchosen chosen 0 xs ∧ c'.sync = it'.sync ∧
    c'.iteratorFirst it' = .ofOption (unchosen chosen 0 xs).head? ∧
    c'.iteratorLast it' = .ofOption (unchosen chosen 0 xs).getLast?

/-- Removing through the iterator is safe if and only if the last object is not removed. -/
theorem traverse_safe_iff {c : BinaryArray α} (hc : (Container.array c).Usable) (chosen : Nat → Bool) :
    c.Safe chosen ↔ c.table.count = 0 ∨ chosen (c.table.count - 1) = false := by
  obtain ⟨c₀, e₀, hord⟩ := sortIfDirty_orders hc
  have hlen : c₀.table.count = c.table.count := hord.1.length_eq
  obtain ⟨c', it', e, hdata, hsync⟩ := traverseLoop_spec chosen c₀.table.data (c.table.count + 1) 0 [] c₀
    { sync := c₀.sync, pos := 0 } (by rw [← hlen]; exact Nat.lt_succ_self _) rfl rfl rfl (hlen ▸ hc.1)
  have hrun : c.traverse chosen = some (c₀.table.data, c', it') := by
    rw [traverse, iteratorReset, e₀]
    show traverseLoop chosen _ 0 (c₀.iteratorFirst { sync := c₀.sync, pos := 0 }) c₀ { sync := c₀.sync, pos := 0 } = _
    rw [iteratorFirst_inSync rfl]
    exact e
  have hspares : SparesLast chosen 0 c₀.table.data ↔ c.table.count = 0 ∨ chosen (c.table.count - 1) = false := by
    rw [SparesLast, ← length_eq_zero_iff, Nat.zero_add, ← hlen]
    rfl
  rw [← hspares, ← hsync]
  constructor
  · rintro ⟨xs, c₁, it₁, _, e₁, _, hsync₁, _⟩
    rw [hrun, Option.some.injEq, Prod.mk.injEq, Prod.mk.injEq] at e₁
    obtain ⟨-, rfl, rfl⟩ := e₁
    exact hsync₁
  · intro h
    have hleft : c'.table.data = unchosen chosen 0 c₀.table.data := hdata
    refine ⟨_, c', it', hord, hrun, hleft, h, ?_, ?_⟩
    · rw [iteratorFirst_inSync h, hleft]
    · rw [iteratorLast_inSync h, hleft]

/-- Two integers in an array that is sorted already. -/
def twoInts : BinaryArray Int := ⟨⟨10, false, [1, 2]⟩, fun a b => a - b, {}, 2⟩

/-- The first of two goes. -/
theorem traverse_safe_iff_first :
    twoInts.Safe (fun k => k == 0) ↔ twoInts.table.count = 0 ∨ (fun k => k == 0) (twoInts.table.count - 1) = false := by
  refine traverse_safe_iff ⟨by decide, .inr (.inl ⟨rfl, ?_⟩)⟩ _
  show List.Pairwise (fun x y : Int => x - y ≤ 0) [1, 2]
  decide

/-- The last of two goes: the first one is left, and the iterator answers that there is nothing. -/
theorem not_traverse_safe :
    (∃ c' it', twoInts.traverse (fun k => k == 1) = some ([1, 2], c', it') ∧ c'.table.data = [1] ∧
      c'.iteratorFirst it' = .null) ∧ ¬ twoInts.Safe (fun k => k == 1) := by
  refine ⟨⟨_, _, rfl, rfl, rfl⟩, ?_⟩
  rintro ⟨xs, c', it', _, e, _, hsync, _⟩
  cases e
  exact absurd hsync (by decide)

end BinaryArray

end Priot.Containers
