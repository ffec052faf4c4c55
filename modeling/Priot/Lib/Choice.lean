/-
# Choosing by comparing in pairs

A list is folded with a test that says whether a candidate beats what has been chosen so far. When the test covers a
score, the fold finds the first best element if nothing later beats it. To write to what a lookup finds is to write to
the row of its key if and only if the lookup keeps no row with another key.
-/
import Mathlib.Order.Lattice
import Mathlib.Data.List.Basic

namespace Priot.Lib

open List

/-! ## choosing -/

variable {α β : Type*} (beats : α → α → Prop) [DecidableRel beats]

/-- What is chosen once the candidate has been looked at. -/
def choose : Option α → α → Option α
  | none, candidate => some candidate
  | some current, candidate => if beats current candidate then some candidate else some current

variable {beats}

/-- A choice that nothing beats stands. -/
theorem foldl_choose_stays {b : α} : ∀ {l : List α}, (∀ e ∈ l, ¬ beats b e) → l.foldl (choose beats) (some b) = some b := by
  intro l
  induction l with
  | nil => intro _; rfl
  | cons e l ih =>
    intro h
    rw [foldl_cons, choose, if_neg (h e mem_cons_self)]
    exact ih fun e' he' => h e' (mem_cons_of_mem e he')

theorem foldl_choose_isSome (a : α) : ∀ l : List α, ∃ r, l.foldl (choose beats) (some a) = some r := by
  intro l
  induction l generalizing a with
  | nil => exact ⟨a, rfl⟩
  | cons e l ih =>
    rw [foldl_cons, choose]
    split_ifs
    · exact ih e
    · exact ih a

/-- What is chosen from a start is the start or has a place in the list, and nothing behind it beats it. -/
theorem foldl_choose_from {a r : α} : ∀ {l : List α}, l.foldl (choose beats) (some a) = some r →
    (r = a ∧ ∀ e ∈ l, ¬ beats a e) ∨ ∃ l₁ l₂, l = l₁ ++ r :: l₂ ∧ ∀ e ∈ l₂, ¬ beats r e := by
  intro l
  induction l generalizing a with
  | nil =>
    intro h
    exact .inl ⟨(Option.some.inj h).symm, fun e he => absurd he not_mem_nil⟩
  | cons e l ih =>
    intro h
    rw [foldl_cons, choose] at h
    by_cases hb : beats a e
    · rw [if_pos hb] at h
      rcases ih h with ⟨rfl, hl⟩ | ⟨l₁, l₂, rfl, hl⟩
      · exact .inr ⟨[], l, rfl, hl⟩
      · exact .inr ⟨e :: l₁, l₂, rfl, hl⟩
    · rw [if_neg hb] at h
      rcases ih h with ⟨rfl, hl⟩ | ⟨l₁, l₂, rfl, hl⟩
      · exact .inl ⟨rfl, forall_mem_cons.mpr ⟨hb, hl⟩⟩
      · exact .inr ⟨e :: l₁, l₂, rfl, hl⟩

theorem foldl_choose_split {l : List α} {r : α} (h : l.foldl (choose beats) none = some r) :
    ∃ l₁ l₂, l = l₁ ++ r :: l₂ ∧ ∀ e ∈ l₂, ¬ beats r e := by
  cases l with
  | nil => exact absurd h (by simp)
  | cons e l =>
    rcases foldl_choose_from (l := l) (a := e) h with ⟨rfl, hl⟩ | ⟨l₁, l₂, rfl, hl⟩
    · exact ⟨[], l, rfl, hl⟩
    · exact ⟨e :: l₁, l₂, rfl, hl⟩

theorem foldl_choose_eq_none_iff {l : List α} : l.foldl (choose beats) none = none ↔ l = [] := by
  cases l with
  | nil => simp
  | cons e l =>
    obtain ⟨r, hr⟩ : ∃ r, l.foldl (choose beats) (some e) = some r := foldl_choose_isSome e l
    refine iff_of_false ?_ (cons_ne_nil e l)
    rw [foldl_cons, choose, hr]
    exact Option.some_ne_none r

/-- A test that orders what it compares leaves nothing that beats the choice. -/
theorem foldl_choose_best (hasymm : ∀ a b, beats a b → ¬ beats b a)
    (htrans : ∀ a b c, ¬ beats a b → ¬ beats b c → ¬ beats a c) {l : List α} {r : α}
    (h : l.foldl (choose beats) none = some r) : r ∈ l ∧ ∀ e ∈ l, ¬ beats r e := by
  have hkept : ∀ (l : List α) (a : α), l.foldl (choose beats) (some a) = some r → r ∈ a :: l ∧ ∀ e ∈ a :: l, ¬ beats r e := by
    intro l
    induction l with
    | nil =>
      intro a h
      obtain rfl := Option.some.inj h
      refine ⟨mem_cons_self, fun e he => ?_⟩
      obtain rfl := mem_singleton.mp he
      exact fun hb => hasymm e e hb hb
    | cons c l ih =>
      intro a h
      rw [foldl_cons, choose] at h
      by_cases hb : beats a c
      · rw [if_pos hb] at h
        obtain ⟨hmem, hall⟩ := ih c h
        refine ⟨mem_cons_of_mem a hmem, forall_mem_cons.mpr ⟨?_, hall⟩⟩
        exact htrans r c a (hall c mem_cons_self) (hasymm a c hb)
      · rw [if_neg hb] at h
        obtain ⟨hmem, hall⟩ := ih a h
        obtain ⟨ha, hl⟩ := forall_mem_cons.mp hall
        refine ⟨?_, forall_mem_cons.mpr ⟨ha, forall_mem_cons.mpr ⟨htrans r a c ha hb, hl⟩⟩⟩
        rcases mem_cons.mp hmem with rfl | hmem
        · exact mem_cons_self
        · exact mem_cons_of_mem a (mem_cons_of_mem c hmem)
  cases l with
  | nil => exact absurd h (by simp)
  | cons a l => exact hkept l a h

/-- The first best element is chosen when every better one beats what was chosen before, and nothing behind a best
one beats that. -/
theorem foldl_choose_first_best [LinearOrder β] {s : α → β} {l₁ l₂ : List α} {b : α}
    (hcover : ∀ c ∈ l₁, s c < s b → beats c b) (hlow : ∀ c ∈ l₁, s c < s b)
    (hkeep : ∀ e ∈ l₂, ¬ beats b e) : (l₁ ++ b :: l₂).foldl (choose beats) none = some b := by
  rw [foldl_append, foldl_cons]
  have hb : choose beats (l₁.foldl (choose beats) none) b = some b := by
    cases h : l₁.foldl (choose beats) none with
    | none => rfl
    | some c =>
      obtain ⟨m₁, m₂, rfl, _⟩ := foldl_choose_split h
      have hc : c ∈ m₁ ++ c :: m₂ := mem_append_right m₁ mem_cons_self
      rw [choose, if_pos (hcover c hc (hlow c hc))]
  rw [hb]
  exact foldl_choose_stays hkeep

/-! ## lookups -/

variable {Row Key Call : Type*}

/-- The row that is kept at the end, when each takes the place of what was kept before or does not. -/
def keep (takes : Option Row → Row → Bool) (table : List Row) : Option Row :=
  table.foldl (fun kept row => if takes kept row then some row else kept) none

/-- The row that is kept at the end, and its place. -/
def keepAt (takes : Option Row → Row → Bool) (table : List Row) : Option (Row × Nat) :=
  table.zipIdx.foldl (fun kept row => if takes (kept.map Prod.fst) row.1 then some row else kept) none

/-- The table when a row has been written at the place that was found. -/
def writeAt (table : List Row) (found : Option (Row × Nat)) (new : Option Row) : List Row :=
  match found, new with
  | some (_, i), some row => table.set i row
  | _, _ => table

variable {takes : Option Row → Row → Bool} {table table' : List Row} {row new : Row} {i : Nat}

theorem keepAt_fst (takes : Option Row → Row → Bool) (table : List Row) :
    (keepAt takes table).map Prod.fst = keep takes table := by
  have hfold : ∀ (l : List Row) (n : Nat) (kept : Option (Row × Nat)),
      ((l.zipIdx n).foldl (fun kept row => if takes (kept.map Prod.fst) row.1 then some row else kept) kept).map Prod.fst =
        l.foldl (fun kept row => if takes kept row then some row else kept) (kept.map Prod.fst) := by
    intro l
    induction l with
    | nil => exact fun _ _ => rfl
    | cons row rest ih =>
      intro n kept
      rw [zipIdx_cons, foldl_cons, foldl_cons, ih]
      congr 1
      split <;> rfl
  exact hfold table 0 none

theorem keepAt_spec (h : keepAt takes table = some (row, i)) :
    table[i]? = some row ∧ ∃ kept, takes kept row = true := by
  have hfold : ∀ (l : List (Row × Nat)) (kept : Option (Row × Nat)),
      l.foldl (fun kept row => if takes (kept.map Prod.fst) row.1 then some row else kept) kept = some (row, i) →
      kept = some (row, i) ∨ (row, i) ∈ l ∧ ∃ kept, takes kept row = true := by
    intro l
    induction l with
    | nil => exact fun _ h => .inl h
    | cons first rest ih =>
      intro kept h
      rw [foldl_cons] at h
      rcases ih _ h with hkept | ⟨hmem, htakes⟩
      · by_cases htakes : takes (kept.map Prod.fst) first.1 = true
        · rw [if_pos htakes, Option.some.injEq] at hkept
          subst hkept
          exact .inr ⟨mem_cons_self, _, htakes⟩
        · rw [if_neg htakes] at hkept
          exact .inl hkept
      · exact .inr ⟨mem_cons_of_mem _ hmem, htakes⟩
  rcases hfold _ _ h with hnone | ⟨hmem, htakes⟩
  · exact nomatch hnone
  · exact ⟨mem_zipIdx_iff_getElem?.mp hmem, htakes⟩

/-- To keep the rows that pass a test and beat what is kept is to choose among those that pass. -/
theorem keep_eq_choose (p : Row → Bool) (beats : Row → Row → Prop) [DecidableRel beats] (table : List Row) :
    keep (fun kept row => p row && kept.all fun current => decide (beats current row)) table =
      (table.filter p).foldl (choose beats) none := by
  have hfold : ∀ (l : List Row) (kept : Option Row),
      l.foldl (fun kept row => if (p row && kept.all fun current => decide (beats current row)) = true then some row
        else kept) kept = (l.filter p).foldl (choose beats) kept := by
    intro l
    induction l with
    | nil => exact fun _ => rfl
    | cons row rest ih =>
      intro kept
      rw [foldl_cons, filter_cons, ih]
      by_cases hp : p row = true
      · rw [if_pos hp, foldl_cons, hp, Bool.true_and]
        congr 1
        cases kept with
        | none => rfl
        | some current =>
          simp only [Option.all_some, decide_eq_true_eq, choose]
      · rw [if_neg hp, Bool.not_eq_true] at *
        rw [hp, Bool.false_and, if_neg Bool.false_ne_true]
  exact hfold table none

/-! ## one row and no other -/

/-- Only a row with the key has been changed. Where there is none nothing has been changed, and it has not been
accepted that something is. -/
structure OnlyRow (key : Row → Key) (k : Key) (table table' : List Row) (accepted : Prop) : Prop where
  others : ∀ (i : Nat) row, table[i]? = some row → key row ≠ k → table'[i]? = some row
  absent : (∀ row ∈ table, key row ≠ k) → table' = table ∧ ¬ accepted

variable {key : Row → Key} {k : Key} {accepted : Prop}

theorem OnlyRow.of_none (new : Option Row) (h : ¬ accepted) : OnlyRow key k table (writeAt table none new) accepted :=
  ⟨fun _ _ hrow _ => hrow, fun _ => ⟨rfl, h⟩⟩

theorem OnlyRow.of_found (hfound : table[i]? = some row) (hkey : key row = k) (new : Option Row) :
    OnlyRow key k table (writeAt table (some (row, i)) new) accepted where
  others := fun j other hother hne => by
    cases new with
    | none => exact hother
    | some new =>
      have hij : i ≠ j := by
        rintro rfl
        rw [hfound, Option.some.injEq] at hother
        exact hne (hother ▸ hkey)
      show (table.set i new)[j]? = some other
      rw [getElem?_set_ne hij, hother]
  absent := fun hnone => absurd hkey (hnone row (mem_of_getElem? hfound))

/-- A row with another key that is changed. -/
theorem OnlyRow.not_of_changed (hfound : table[i]? = some row) (hkey : key row ≠ k) (hnew : new ≠ row) :
    ¬ OnlyRow key k table (writeAt table (some (row, i)) (some new)) accepted := by
  intro h
  have hsame : (table.set i new)[i]? = some row := h.others i row hfound hkey
  have hlt : i < table.length := (List.getElem?_eq_some_iff.mp hfound).1
  rw [getElem?_set_self hlt, Option.some.injEq] at hsame
  exact hnew hsame

end Priot.Lib
