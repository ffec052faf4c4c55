/-
# A table that is built line by line

A line changes one row that it finds, or adds a row where it finds none. How many rows of a kind there are grows only
with the rows of that kind that are added, when no change makes one.
-/
import Mathlib.Data.List.Perm.Basic
import Mathlib.Data.List.InsertIdx

namespace Priot.Lib

open List

variable {Row : Type*}

/-- What one line does to a table, but for the order of the rows. -/
inductive Loaded (finds : Row → Prop) (change : Row → Row) (new : Row) (table table' : List Row) : Prop
  | changed (row : Row) (rest : List Row) (found : finds row) (before : table.Perm (row :: rest))
      (after : table'.Perm (change row :: rest))
  | added (missing : ∀ row ∈ table, ¬ finds row) (after : table'.Perm (new :: table))

variable {finds : Row → Prop} {change : Row → Row} {new row : Row} {table table' done rest : List Row} {i : Nat}

theorem Loaded.of_modify (hrow : table[i]? = some row) (hfinds : finds row) :
    Loaded finds change new table (table.modify i change) := by
  obtain ⟨hi, rfl⟩ := List.getElem?_eq_some_iff.mp hrow
  have hsplit : table = table.take i ++ table[i] :: table.drop (i + 1) := by
    rw [getElem_cons_drop, take_append_drop]
  refine .changed table[i] (table.take i ++ table.drop (i + 1)) hfinds ?_ ?_
  · conv_lhs => rw [hsplit]
    exact perm_middle
  · rw [modify_eq_take_cons_drop hi]
    exact perm_middle

theorem modify_insertIdx_perm (f : Row → Row) (hi : i ≤ table.length) :
    ((table.insertIdx i row).modify i f).Perm (f row :: table) := by
  induction table generalizing i with
  | nil =>
    obtain rfl : i = 0 := by simpa using hi
    exact List.Perm.refl _
  | cons first rest ih =>
    cases i with
    | zero => exact List.Perm.refl _
    | succ i =>
      rw [insertIdx_succ_cons, modify_succ_cons]
      exact ((ih (Nat.le_of_succ_le_succ hi)).cons first).trans (List.Perm.swap ..)

/-- A row put into the table and then changed is a row added. -/
theorem Loaded.of_insertIdx (hi : i ≤ table.length) (hnone : ∀ row ∈ table, ¬ finds row) :
    Loaded finds change (change new) table ((table.insertIdx i new).modify i change) :=
  .added hnone (modify_insertIdx_perm change hi)

/-! ## counting rows of a kind -/

variable {kind : Row → Bool}

/-- A change makes no row of the kind from another one. -/
def Keeps (finds : Row → Prop) (change : Row → Row) (kind : Row → Bool) : Prop :=
  ∀ row, finds row → kind (change row) = true → kind row = true

theorem countP_change_le (hkeeps : Keeps finds change kind) (hfinds : finds row) (rest : List Row) :
    (change row :: rest).countP kind ≤ (row :: rest).countP kind := by
  rw [countP_cons, countP_cons]
  by_cases hchange : kind (change row) = true
  · exact Nat.le_of_eq (by rw [if_pos hchange, if_pos (hkeeps row hfinds hchange)])
  · rw [if_neg hchange]
    omega

theorem Loaded.countP_le (h : Loaded finds change new table table') (hkeeps : Keeps finds change kind) :
    table'.countP kind ≤ table.countP kind + if kind new then 1 else 0 := by
  cases h with
  | changed row rest hfinds hbefore hafter =>
    have hle := countP_change_le hkeeps hfinds rest
    rw [hbefore.countP_eq, hafter.countP_eq]
    omega
  | added _ hafter => exact Nat.le_of_eq (by rw [hafter.countP_eq, countP_cons])

/-- Where a row is found none is added. -/
theorem Loaded.countP_le_of_found (h : Loaded finds change new table table') (hkeeps : Keeps finds change kind)
    (hmem : row ∈ table) (hfinds : finds row) : table'.countP kind ≤ table.countP kind := by
  cases h with
  | changed row rest hfinds hbefore hafter =>
    rw [hbefore.countP_eq, hafter.countP_eq]
    exact countP_change_le hkeeps hfinds rest
  | added hnone _ => exact absurd hfinds (hnone row hmem)

/-- Rows of a kind that no line finds stay. -/
theorem Loaded.le_countP (h : Loaded finds change new table table') (hhidden : ∀ row, kind row = true → ¬ finds row) :
    table.countP kind ≤ table'.countP kind := by
  cases h with
  | changed row rest hfinds hbefore hafter =>
    have hrow : ¬ kind row = true := fun hkind => hhidden row hkind hfinds
    rw [hbefore.countP_eq, hafter.countP_eq, countP_cons, countP_cons, if_neg hrow]
    omega
  | added _ hafter =>
    rw [hafter.countP_eq, countP_cons]
    omega

end Priot.Lib
