/-
# Buffers of a fixed size

Memory of `n` cells that is written at an offset and read from its start. A write that would leave the buffer has no
result, so a run that has a result has stayed inside.
-/
import Mathlib.Data.List.Basic

namespace Priot.Lib

open List

structure Buffer (α : Type) (n : Nat) where
  cells : List α
  size : cells.length = n

namespace Buffer

variable {α : Type} {n : Nat}

/-- The first `k` cells. -/
def read (b : Buffer α n) (k : Nat) : List α := b.cells.take k

theorem size_splice {cells x : List α} {i : Nat} (hsize : cells.length = n) (h : i + x.length ≤ n) :
    (cells.take i ++ (x ++ cells.drop (i + x.length))).length = n := by
  rw [length_append, length_append, length_take, length_drop]
  omega

/-- The cells from `i` on are overwritten. -/
def write (b : Buffer α n) (i : Nat) (x : List α) : Option (Buffer α n) :=
  if h : i + x.length ≤ n then
    some ⟨b.cells.take i ++ (x ++ b.cells.drop (i + x.length)), size_splice b.size h⟩
  else none

variable {b b' : Buffer α n} {i k : Nat} {x : List α}

theorem length_read (h : k ≤ n) : (b.read k).length = k := by
  rw [read, length_take, b.size, Nat.min_eq_left h]

theorem take_read (h : k ≤ i) : (b.read i).take k = b.read k := by
  rw [read, read, take_take, Nat.min_eq_left h]

theorem getElem?_read (h : k < i) : (b.read i)[k]? = b.cells[k]? := getElem?_take_of_lt h

/-- A write that ends inside the buffer succeeds. It leaves what lies before the offset as it was. -/
theorem write_spec (h : i + x.length ≤ n) : ∃ b', b.write i x = some b' ∧
    b'.read (i + x.length) = b.read i ++ x ∧ ∀ k, k ≤ i → b'.read k = b.read k := by
  have hi : (b.cells.take i).length = i := by
    rw [length_take, b.size]
    omega
  refine ⟨_, dif_pos h, ?_, fun k hk => ?_⟩
  · show (b.cells.take i ++ (x ++ _)).take (i + x.length) = _
    rw [take_append, take_of_length_le (by omega), hi, Nat.add_sub_cancel_left, take_left, read]
  · show (b.cells.take i ++ (x ++ _)).take k = _
    rw [take_append_of_le_length (by omega), take_take, Nat.min_eq_left hk, read]

end Buffer

end Priot.Lib
