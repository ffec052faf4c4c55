/-
# A SET that is committed

In COMMIT rows marked deleted leave the container and new rows that are not enter it. Whether a row is marked is read
before the callback for the container, and after it for freeing the row.
-/
import Priot.TableArray.Restored

namespace Priot.TableArray

open BabySteps Lib List

variable {α : Type} {heap : Memory (Row α)} {table : List Ptr} {i : Index} {p : Ptr} {g : Group} {gs : List Group}
  {st : State α} {a : Input α}

/-! ## the container in COMMIT -/

theorem mem_place (heap : Memory (Row α)) (p q : Ptr) (key : Index) (table : List Ptr) :
    q ∈ place heap p key table ↔ q = p ∨ q ∈ table := by
  induction table with
  | nil => simp [place]
  | cons x table ih =>
    unfold place
    split
    · rw [mem_cons, ih, mem_cons]
      exact or_left_comm
    · exact mem_cons

theorem place_nodup (heap : Memory (Row α)) (key : Index) (hp : p ∉ table) (hnodup : table.Nodup) :
    (place heap p key table).Nodup := by
  induction table with
  | nil => exact nodup_singleton p
  | cons x table ih =>
    unfold place
    split
    · obtain ⟨hx, hrest⟩ := nodup_cons.mp hnodup
      refine nodup_cons.mpr ⟨?_, ih (fun h => hp (mem_cons_of_mem x h)) hrest⟩
      rw [mem_place]
      rintro (rfl | h)
      · exact hp mem_cons_self
      · exact hx h
    · exact nodup_cons.mpr ⟨hp, hnodup⟩

/-- Before the callback of COMMIT. -/
def Input.decided (a : Input α) : Index → α × Bool := a.now [.reserve1, .reserve2, .action]

/-- After it. -/
def Input.final (a : Input α) : Index → α × Bool := a.now [.reserve1, .reserve2, .action, .commit]

/-- What holds in COMMIT when some of the groups have been gone through. -/
structure Committing (a : Input α) (done : List Index) (st : State α) : Prop where
  nodup : st.table.Nodup
  /-- A row of the container stays unless it is marked deleted. -/
  stays : ∀ p ∈ a.table, ∀ i c, a.heap.cell p = some ⟨i, c⟩ →
    (p ∈ st.table ↔ ¬ (i ∈ done ∧ (a.decided i).2 = true))
  /-- The row has its content, or has been freed. -/
  cell : ∀ p ∈ a.table, ∀ i c, a.heap.cell p = some ⟨i, c⟩ → i ∈ done →
    st.heap.cell p = if (a.final i).2 = true then none else some ⟨i, (a.final i).1⟩
  pending : ∀ p ∈ a.table, ∀ i c, a.heap.cell p = some ⟨i, c⟩ → i ∉ done → ∃ d, st.heap.cell p = some ⟨i, d⟩
  kept : ∀ p ∈ a.table, ∀ row, ¬ a.Addressed row.index → a.heap.cell p = some row → st.heap.cell p = some row
  /-- What else is in the container is new. -/
  new : ∀ p ∈ st.table, p ∉ a.table → ∃ i ∈ done, a.old i = none ∧ (a.decided i).2 = false ∧
    st.heap.cell p = some ⟨i, (a.final i).1⟩
  once : ∀ p ∈ st.table, p ∉ a.table → ∀ q ∈ st.table, q ∉ a.table → ∀ i c d, st.heap.cell p = some ⟨i, c⟩ →
    st.heap.cell q = some ⟨i, d⟩ → p = q
  entered : ∀ i ∈ done, a.old i = none → (a.decided i).2 = false →
    ∃ p ∈ st.table, p ∉ a.table ∧ st.heap.cell p = some ⟨i, (a.final i).1⟩

namespace Committing

variable {done : List Index}

theorem owned (h : Committing a done st) {c d : α} {j : Index} (hp : p ∈ a.table) (hold : a.heap.cell p = some ⟨i, c⟩)
    (hcell : st.heap.cell p = some ⟨j, d⟩) : j = i := by
  by_cases hi : i ∈ done
  · rw [h.cell p hp i c hold hi] at hcell
    split at hcell
    · cases hcell
    · cases hcell
      rfl
  · obtain ⟨e, he⟩ := h.pending p hp i c hold hi
    rw [he] at hcell
    cases hcell
    rfl

theorem before (h : Committing a done st) {d : α} (hp : p ∈ st.table) (hcell : st.heap.cell p = some ⟨i, d⟩)
    (hi : i ∉ done) : p ∈ a.table ∧ ∃ c, a.heap.cell p = some ⟨i, c⟩ := by
  by_cases htable : p ∈ a.table
  · obtain ⟨⟨j, c⟩, hold⟩ := a.stored.live p htable
    cases h.owned htable hold hcell
    exact ⟨htable, c, hold⟩
  · obtain ⟨j, hj, -, -, hnew⟩ := h.new p hp htable
    rw [hnew] at hcell
    cases hcell
    exact absurd hj hi

theorem live (h : Committing a done st) (hmarks : ∀ i ∈ done, (a.final i).2 = (a.decided i).2) :
    ∀ p ∈ st.table, ∃ row, st.heap.cell p = some row := by
  intro p hp
  by_cases htable : p ∈ a.table
  · obtain ⟨⟨i, c⟩, hold⟩ := a.stored.live p htable
    by_cases hi : i ∈ done
    · have hnot := (h.stays p htable i c hold).mp hp
      have hfalse : ¬ (a.final i).2 = true := by
        rw [hmarks i hi]
        exact fun hd => hnot ⟨hi, hd⟩
      refine ⟨⟨i, (a.final i).1⟩, ?_⟩
      rw [h.cell p htable i c hold hi, if_neg hfalse]
    · obtain ⟨d, hd⟩ := h.pending p htable i c hold hi
      exact ⟨_, hd⟩
  · obtain ⟨i, -, -, -, hcell⟩ := h.new p hp htable
    exact ⟨_, hcell⟩

end Committing

/-! ## a group in COMMIT -/

theorem final_eq (a : Input α) : a.final = a.edit .commit a.decided := rfl

theorem commit_rest (h : Held a true a.decided st.heap g) (htable : commitTable st g = some (0, table)) :
    ∃ st' g' p, processSetGroup a.cb .commit st g = some (st', g') ∧ Edit { st with table } st' g g' ∧
      st'.table = table ∧ g.existingRow = some p ∧
      st'.heap.cell p = if g.rowCreated = false ∧ (a.final g.index).2 = true then none
        else some ⟨g.index, (a.final g.index).1⟩ := by
  let told : State α := { st with table }
  have hheld : Held a true a.decided told.heap g := h
  obtain ⟨st₁, g₁, hrun, hedit, hrow, hheld₁⟩ := callback_spec .commit hheld
  rw [← final_eq] at hheld₁
  obtain ⟨st₂, g₂, hundo, hedit₂, hrow₂, hdeleted₂, hcell₂⟩ := deleteUndo_spec hheld₁
  obtain ⟨p, hp, hcell, -⟩ := hheld₁.row
  have hcell₂ := (hcell₂ p hp).trans hcell
  have hprocess : processSetGroup a.cb .commit st g =
      if g₂.rowCreated = false ∧ g₂.rowDeleted then deleteExisting st₂ g₂ else some (st₂, g₂) := by
    unfold processSetGroup
    simp only [htable, Option.bind_eq_bind, Option.bind_some, ne_eq, not_true_eq_false, if_false]
    change (callback a.cb .commit told g).bind _ = _
    rw [hrun]
    simp only [Option.bind_some, hundo]
  have hcreated : g₂.rowCreated = g.rowCreated := hedit₂.created.trans hedit.created
  have hdeleted : g₂.rowDeleted = (a.final g.index).2 := by
    rw [hdeleted₂, hheld₁.deleted, hedit.index]
  rw [hprocess, hcreated, hdeleted]
  by_cases hfree : g.rowCreated = false ∧ (a.final g.index).2 = true
  · rw [if_pos hfree, if_pos hfree]
    have hcell₂' : st₂.heap.cell p = some ⟨g₂.index, (a.final g₁.index).1⟩ := by
      rw [hedit₂.index]
      exact hcell₂
    obtain ⟨st₃, g₃, hdelete, hedit₃, hnone⟩ := deleteExisting_spec (hrow₂.trans hp) hcell₂'
    refine ⟨st₃, g₃, p, hdelete, hedit.trans (hedit₂.trans hedit₃), ?_, hrow.symm.trans hp, hnone⟩
    exact hedit₃.table.trans (hedit₂.table.trans hedit.table)
  · rw [if_neg hfree, if_neg hfree]
    refine ⟨st₂, g₂, p, rfl, hedit.trans hedit₂, hedit₂.table.trans hedit.table, hrow.symm.trans hp, ?_⟩
    rw [hcell₂, hedit.index]

namespace Committing

variable {done : List Index}

/-- What the container is told about a group, and what it comes to. -/
def told (a : Input α) (st : State α) (g : Group) (p : Ptr) : List Ptr :=
  if g.rowCreated = false then
    if (a.decided g.index).2 = true then st.table.erase p else st.table
  else if (a.decided g.index).2 = false then place st.heap p g.index st.table else st.table

theorem commitTable_spec (h : Committing a done st) (hheld : Held a true a.decided st.heap g)
    (hnew : g.index ∉ done) (hp : g.existingRow = some p) : commitTable st g = some (0, told a st g p) ∨
      commitTable st g = none ∧ ¬ ∀ q ∈ st.table, ∃ row, st.heap.cell q = some row := by
  obtain ⟨p', hp', hcell, hnotin, hin⟩ := hheld.row
  cases hp.symm.trans hp'
  -- a search fails only at a row that is freed
  have hdead : find st.heap g.index st.table = none → ¬ ∀ q ∈ st.table, ∃ row, st.heap.cell q = some row := by
    intro hnone hlive
    obtain ⟨r, hr⟩ := find_live g.index st.table hlive
    rw [hnone] at hr
    cases hr
  unfold commitTable told
  cases hcreated : g.rowCreated with
  | false =>
    obtain ⟨htable, hold⟩ := hin hcreated
    rw [if_pos rfl, if_pos rfl, hheld.deleted]
    by_cases hdeleted : (a.decided g.index).2 = true
    · rw [if_pos hdeleted, if_pos hdeleted]
      simp only [hp, Option.bind_eq_bind, Option.bind_some, remove, hcell]
      cases hfind : find st.heap g.index st.table with
      | none => exact .inr ⟨rfl, hdead hfind⟩
      | some r =>
        obtain ⟨hfound, hmissing⟩ := find_found hfind
        cases r with
        | none =>
          have hstays := (h.stays p htable g.index _ hold).mpr fun hd => hnew hd.1
          exact absurd hcell (hmissing rfl p hstays _)
        | some q =>
          obtain ⟨hq, d, hd⟩ := hfound q rfl
          obtain ⟨hqtable, c, hqold⟩ := h.before hq hd hnew
          rw [a.stored.unique q hqtable p htable g.index c _ hqold hold]
          exact .inl rfl
    · rw [if_neg hdeleted, if_neg hdeleted]
      exact .inl rfl
  | true =>
    rw [if_neg (Bool.noConfusion : true ≠ false), if_neg (Bool.noConfusion : true ≠ false), hheld.deleted]
    by_cases hdeleted : (a.decided g.index).2 = false
    · rw [if_pos hdeleted, if_pos hdeleted]
      simp only [hp, Option.bind_eq_bind, Option.bind_some, insert, hcell]
      cases hfind : find st.heap g.index st.table with
      | none => exact .inr ⟨rfl, hdead hfind⟩
      | some r =>
        obtain ⟨hfound, -⟩ := find_found hfind
        cases r with
        | none => exact .inl rfl
        | some q =>
          obtain ⟨hq, d, hd⟩ := hfound q rfl
          obtain ⟨hqtable, c, hqold⟩ := h.before hq hd hnew
          have hsome := (a.stored.mem g.index c).mp ⟨q, hqtable, hqold⟩
          have hnone := hheld.created
          rw [hcreated, hsome] at hnone
          cases hnone
    · rw [if_neg hdeleted, if_neg hdeleted]
      exact .inl rfl

theorem not_mem (h : Committing a done st) (hheld : Held a true a.decided st.heap g) (hnew : g.index ∉ done)
    (hp : g.existingRow = some p) (hcreated : g.rowCreated = true) : p ∉ st.table := by
  obtain ⟨p', hp', hcell, hnotin, -⟩ := hheld.row
  cases hp.symm.trans hp'
  intro hmem
  exact hnotin hcreated (h.before hmem hcell hnew).1

theorem mem_table (h : Committing a done st) (hheld : Held a true a.decided st.heap g) (hnew : g.index ∉ done)
    (hp : g.existingRow = some p) (hcreated : g.rowCreated = false) : p ∈ st.table := by
  obtain ⟨p', hp', -, -, hin⟩ := hheld.row
  cases hp.symm.trans hp'
  obtain ⟨htable, hold⟩ := hin hcreated
  exact (h.stays p htable g.index _ hold).mpr fun hd => hnew hd.1

theorem mem_told (h : Committing a done st) (hheld : Held a true a.decided st.heap g) (hnew : g.index ∉ done)
    (hp : g.existingRow = some p) (q : Ptr) :
    q ∈ told a st g p ↔ if q = p then (a.decided g.index).2 = false else q ∈ st.table := by
  unfold told
  cases hcreated : g.rowCreated with
  | false =>
    have hmem := h.mem_table hheld hnew hp hcreated
    rw [if_pos rfl]
    cases (a.decided g.index).2 with
    | true =>
      rw [if_pos rfl, h.nodup.mem_erase_iff]
      by_cases hq : q = p <;> simp [hq]
    | false =>
      rw [if_neg Bool.false_ne_true]
      by_cases hq : q = p
      · rw [if_pos hq, hq]
        exact iff_of_true hmem rfl
      · rw [if_neg hq]
  | true =>
    have hnot := h.not_mem hheld hnew hp hcreated
    rw [if_neg (Bool.noConfusion : true ≠ false)]
    cases (a.decided g.index).2 with
    | true =>
      rw [if_neg (Bool.noConfusion : true ≠ false)]
      by_cases hq : q = p
      · rw [if_pos hq, hq]
        exact iff_of_false hnot (Bool.noConfusion : true ≠ false)
      · rw [if_neg hq]
    | false =>
      rw [if_pos rfl, mem_place]
      by_cases hq : q = p <;> simp [hq]

theorem told_nodup (h : Committing a done st) (hheld : Held a true a.decided st.heap g) (hnew : g.index ∉ done)
    (hp : g.existingRow = some p) : (told a st g p).Nodup := by
  unfold told
  split
  · split
    · exact h.nodup.erase p
    · exact h.nodup
  · split
    · rename_i hcreated _
      exact place_nodup _ _ (h.not_mem hheld hnew hp (Bool.not_eq_false _ |>.mp hcreated)) h.nodup
    · exact h.nodup

end Committing

/-- A group that was not gone through before is in `st'`. Only its row `p` may have left the container or entered it. -/
structure Gone (a : Input α) (done : List Index) (st st' : State α) (g : Group) (p : Ptr) : Prop where
  start : Committing a done st
  fresh : g.index ∉ done
  addressed : a.Addressed g.index
  row : st.heap.cell p = some ⟨g.index, (a.decided g.index).1⟩
  created : g.rowCreated = (a.old g.index).isNone
  outside : g.rowCreated = true → p ∉ a.table
  inside : g.rowCreated = false → p ∈ a.table ∧ a.heap.cell p = some ⟨g.index, a.first g.index⟩
  others : Others g.index st.heap st'.heap
  dead : ∀ q, st.heap.cell q = none → st'.heap.cell q = none
  nodup : st'.table.Nodup
  mem : ∀ q, q ∈ st'.table ↔ if q = p then (a.decided g.index).2 = false else q ∈ st.table
  cell : st'.heap.cell p = if g.rowCreated = false ∧ (a.final g.index).2 = true then none
    else some ⟨g.index, (a.final g.index).1⟩

namespace Gone

variable {done : List Index} {st' : State α} {q : Ptr} {c : α}

theorem own (h : Gone a done st st' g p) (hq : q ∈ a.table) (hold : a.heap.cell q = some ⟨g.index, c⟩) :
    q = p ∧ g.rowCreated = false := by
  have hsome := (a.stored.mem g.index c).mp ⟨q, hq, hold⟩
  have hcreated : g.rowCreated = false := by
    rw [h.created, hsome]
    rfl
  obtain ⟨hptable, hpold⟩ := h.inside hcreated
  exact ⟨a.stored.unique q hq p hptable g.index c _ hold hpold, hcreated⟩

theorem other (h : Gone a done st st' g p) (hq : q ∈ a.table) (hold : a.heap.cell q = some ⟨i, c⟩)
    (hi : i ≠ g.index) : q ≠ p := by
  rintro rfl
  cases hcreated : g.rowCreated with
  | true => exact h.outside hcreated hq
  | false =>
    rw [(h.inside hcreated).2] at hold
    cases hold
    exact hi rfl

theorem created_row (h : Gone a done st st' g p) (hnot : p ∉ a.table) :
    g.rowCreated = true ∧ st'.heap.cell p = some ⟨g.index, (a.final g.index).1⟩ := by
  have hcreated : g.rowCreated = true := by
    by_contra hfalse
    exact hnot (h.inside (Bool.not_eq_true _ |>.mp hfalse)).1
  refine ⟨hcreated, ?_⟩
  rw [h.cell, if_neg fun hd => Bool.noConfusion (hcreated.symm.trans hd.1)]

theorem other_new (h : Gone a done st st' g p) (hq : q ∈ st.table) (hqtable : q ∉ a.table) :
    ∃ i ∈ done, a.old i = none ∧ (a.decided i).2 = false ∧ st'.heap.cell q = some ⟨i, (a.final i).1⟩ := by
  obtain ⟨i, hi, hold, hdecided, hqcell⟩ := h.start.new q hq hqtable
  exact ⟨i, hi, hold, hdecided, (h.others q _ fun heq => h.fresh (heq ▸ hi)).mpr hqcell⟩

theorem stays (h : Gone a done st st' g p) (hq : q ∈ a.table) (hold : a.heap.cell q = some ⟨i, c⟩) :
    q ∈ st'.table ↔ ¬ (i ∈ g.index :: done ∧ (a.decided i).2 = true) := by
  rw [h.mem]
  by_cases hi : i = g.index
  · subst hi
    rw [if_pos (h.own hq hold).1, and_iff_right mem_cons_self, Bool.not_eq_true]
  · rw [if_neg (h.other hq hold hi), h.start.stays q hq i c hold, mem_cons, or_iff_right hi]

theorem cell_of_mem (h : Gone a done st st' g p) (hq : q ∈ a.table) (hold : a.heap.cell q = some ⟨i, c⟩)
    (hi : i ∈ g.index :: done) : st'.heap.cell q = if (a.final i).2 = true then none else some ⟨i, (a.final i).1⟩ := by
  by_cases hig : i = g.index
  · subst hig
    obtain ⟨rfl, hfalse⟩ := h.own hq hold
    rw [h.cell]
    simp only [hfalse, true_and]
  · have hdone : i ∈ done := (mem_cons.mp hi).resolve_left hig
    have hqcell := h.start.cell q hq i c hold hdone
    by_cases hfinal : (a.final i).2 = true
    · rw [if_pos hfinal] at hqcell ⊢
      exact h.dead q hqcell
    · rw [if_neg hfinal] at hqcell ⊢
      exact (h.others q _ hig).mpr hqcell

theorem new (h : Gone a done st st' g p) (hq : q ∈ st'.table) (hqtable : q ∉ a.table) :
    ∃ i ∈ g.index :: done, a.old i = none ∧ (a.decided i).2 = false ∧ st'.heap.cell q = some ⟨i, (a.final i).1⟩ := by
  rw [h.mem] at hq
  by_cases hqp : q = p
  · subst hqp
    rw [if_pos rfl] at hq
    obtain ⟨htrue, hcell⟩ := h.created_row hqtable
    exact ⟨g.index, mem_cons_self, Option.isNone_iff_eq_none.mp (h.created.symm.trans htrue), hq, hcell⟩
  · rw [if_neg hqp] at hq
    obtain ⟨i, hi, hrest⟩ := h.other_new hq hqtable
    exact ⟨i, mem_cons_of_mem _ hi, hrest⟩

theorem index_ne (h : Gone a done st st' g p) (hq : q ∈ st.table) (hqtable : q ∉ a.table) :
    st'.heap.cell q ≠ some ⟨g.index, c⟩ := by
  intro hc
  obtain ⟨j, hj, -, -, hjcell⟩ := h.other_new hq hqtable
  rw [hjcell] at hc
  cases hc
  exact h.fresh hj

theorem once (h : Gone a done st st' g p) {r : Ptr} (hq : q ∈ st'.table) (hqtable : q ∉ a.table) (hr : r ∈ st'.table)
    (hrtable : r ∉ a.table) {d : α} (hqcell : st'.heap.cell q = some ⟨i, c⟩)
    (hrcell : st'.heap.cell r = some ⟨i, d⟩) : q = r := by
  rw [h.mem] at hq hr
  by_cases hqp : q = p
  · by_cases hrp : r = p
    · rw [hqp, hrp]
    · subst hqp
      rw [if_neg hrp] at hr
      cases (h.created_row hqtable).2.symm.trans hqcell
      exact absurd hrcell (h.index_ne hr hrtable)
  · rw [if_neg hqp] at hq
    by_cases hrp : r = p
    · subst hrp
      cases (h.created_row hrtable).2.symm.trans hrcell
      exact absurd hqcell (h.index_ne hq hqtable)
    · rw [if_neg hrp] at hr
      obtain ⟨j, hj, -, -, hjcell⟩ := h.other_new hq hqtable
      cases hjcell.symm.trans hqcell
      have hne : i ≠ g.index := fun heq => h.fresh (heq ▸ hj)
      exact h.start.once q hq hqtable r hr hrtable i _ d ((h.others q _ hne).mp hqcell)
        ((h.others r _ hne).mp hrcell)

theorem entered (h : Gone a done st st' g p) (hi : i ∈ g.index :: done) (hold : a.old i = none)
    (hdecided : (a.decided i).2 = false) :
    ∃ q ∈ st'.table, q ∉ a.table ∧ st'.heap.cell q = some ⟨i, (a.final i).1⟩ := by
  rcases mem_cons.mp hi with rfl | hi
  · have htrue : g.rowCreated = true := by
      rw [h.created, hold]
      rfl
    have hnot := h.outside htrue
    refine ⟨p, ?_, hnot, (h.created_row hnot).2⟩
    rw [h.mem, if_pos rfl]
    exact hdecided
  · obtain ⟨q, hq, hqtable, hqcell⟩ := h.start.entered i hi hold hdecided
    have hne : i ≠ g.index := fun heq => h.fresh (heq ▸ hi)
    have hqp : q ≠ p := by
      rintro rfl
      exact hne (congrArg Row.index (Option.some.inj (hqcell.symm.trans h.row)))
    refine ⟨q, ?_, hqtable, (h.others q _ hne).mpr hqcell⟩
    rw [h.mem, if_neg hqp]
    exact hq

theorem committing (h : Gone a done st st' g p) : Committing a (g.index :: done) st' where
  nodup := h.nodup
  stays _ hq _ _ hold := h.stays hq hold
  cell _ hq _ _ hold hi := h.cell_of_mem hq hold hi
  pending q hq i c hold hi := by
    rw [mem_cons, not_or] at hi
    obtain ⟨d, hd⟩ := h.start.pending q hq i c hold hi.2
    exact ⟨d, (h.others q _ hi.1).mpr hd⟩
  kept q hq row hnot hold := by
    refine (h.others q row ?_).mpr (h.start.kept q hq row hnot hold)
    intro heq
    exact hnot (heq ▸ h.addressed)
  new _ hq hqtable := h.new hq hqtable
  once _ hq hqtable _ hr hrtable _ _ _ hqcell hrcell := h.once hq hqtable hr hrtable hqcell hrcell
  entered _ hi hold hdecided := h.entered hi hold hdecided

end Gone

namespace Committing

variable {done : List Index}

theorem step (h : Committing a done st) (hheld : Held a true a.decided st.heap g) (hnew : g.index ∉ done)
    (haddressed : a.Addressed g.index) (hp : g.existingRow = some p)
    (hrun : commitTable st g = some (0, told a st g p)) :
    ∃ st' g', processSetGroup a.cb .commit st g = some (st', g') ∧ Others g.index st.heap st'.heap ∧
      Committing a (g.index :: done) st' := by
  obtain ⟨st', g', p', hprocess, hedit, htable, hp', hcell'⟩ := commit_rest hheld hrun
  cases hp.symm.trans hp'
  obtain ⟨p', hp', hcell, hnotin, hin⟩ := hheld.row
  cases hp.symm.trans hp'
  have hgone : Gone a done st st' g p :=
    { start := h
      fresh := hnew
      addressed := haddressed
      row := hcell
      created := hheld.created
      outside := hnotin
      inside := hin
      others := hedit.others
      dead := hedit.dead
      nodup := htable ▸ h.told_nodup hheld hnew hp
      mem := fun q => by
        rw [htable]
        exact h.mem_told hheld hnew hp q
      cell := hcell' }
  exact ⟨st', g', hprocess, hedit.others, hgone.committing⟩

end Committing

/-! ## all groups in COMMIT -/

theorem Running.committing (h : Running a [.reserve1, .reserve2, .action] st gs) : Committing a [] st where
  nodup := by
    rw [h.table]
    exact a.stored.nodup
  stays p hp i c _ := by
    rw [h.table]
    exact iff_of_true hp fun hd => absurd hd.1 not_mem_nil
  cell p hp i c _ hi := absurd hi not_mem_nil
  pending p hp i c hold _ := by
    by_cases haddressed : a.Addressed i
    · obtain ⟨g, hg, rfl⟩ := mem_map.mp ((h.indices i).mpr haddressed)
      have hheld := h.held g hg
      have hcreated : g.rowCreated = false := by
        rw [hheld.created, (a.stored.mem g.index c).mp ⟨p, hp, hold⟩]
        rfl
      obtain ⟨q, hq, -, hqold, hqcell⟩ := hheld.existing hcreated
      rw [a.stored.unique p hp q hq g.index c _ hold hqold]
      exact ⟨_, hqcell⟩
    · exact ⟨c, h.kept p hp ⟨i, c⟩ haddressed hold⟩
  kept := h.kept
  new p hp hnot := by
    rw [h.table] at hp
    exact absurd hp hnot
  once p hp hnot := by
    rw [h.table] at hp
    exact absurd hp hnot
  entered i hi := absurd hi not_mem_nil

theorem forEach_commit {done : List Index} (h : Committing a done st) (hnodup : (gs.map Group.index).Nodup)
    (hheld : ∀ g ∈ gs, Held a true a.decided st.heap g) (hnew : ∀ i ∈ gs.map Group.index, a.Addressed i ∧ i ∉ done) :
    (∃ st' gs', forEach (processSetGroup a.cb .commit) st gs = some (st', gs') ∧
        Committing a ((gs.map Group.index).reverse ++ done) st') ∨ forEach (processSetGroup a.cb .commit) st gs = none ∧
        ¬ ∀ i ∈ (gs.map Group.index).reverse ++ done, (a.final i).2 = (a.decided i).2 := by
  induction gs generalizing st done with
  | nil => exact .inl ⟨st, [], rfl, h⟩
  | cons g gs ih =>
    obtain ⟨hfirst, hrest⟩ := nodup_cons.mp hnodup
    obtain ⟨haddressed, hnot⟩ := hnew g.index mem_cons_self
    have hg := hheld g mem_cons_self
    obtain ⟨p, hp, -⟩ := hg.row
    have hdone : ((g :: gs).map Group.index).reverse ++ done = (gs.map Group.index).reverse ++ g.index :: done := by
      rw [map_cons, reverse_cons, append_assoc]
      rfl
    rw [hdone]
    rcases h.commitTable_spec hg hnot hp with htold | ⟨hnone, hdead⟩
    · obtain ⟨st', g', hprocess, hothers, hcommitting⟩ := h.step hg hnot haddressed hp htold
      have hrun : forEach (processSetGroup a.cb .commit) st (g :: gs) =
          (forEach (processSetGroup a.cb .commit) st' gs).map fun r => (r.1, g' :: r.2) := by
        rw [forEach, hprocess]
        exact Option.map_eq_bind.symm
      have hheld' : ∀ x ∈ gs, Held a true a.decided st'.heap x := by
        intro x hx
        have hne : x.index ≠ g.index := fun heq => hfirst (heq ▸ mem_map_of_mem hx)
        exact (hheld x (mem_cons_of_mem g hx)).frame (Others.own hothers hne)
      have hnew' : ∀ i ∈ gs.map Group.index, a.Addressed i ∧ i ∉ g.index :: done := by
        intro i hi
        obtain ⟨hia, hid⟩ := hnew i (mem_cons_of_mem _ hi)
        refine ⟨hia, ?_⟩
        rw [mem_cons, not_or]
        exact ⟨fun heq => hfirst (heq ▸ hi), hid⟩
      rw [hrun]
      rcases ih hcommitting hrest hheld' hnew' with ⟨st'', gs', hforEach, hall⟩ | ⟨hforEach, hmarks⟩
      · rw [hforEach]
        exact .inl ⟨st'', g' :: gs', rfl, hall⟩
      · rw [hforEach]
        exact .inr ⟨rfl, hmarks⟩
    · refine .inr ⟨?_, ?_⟩
      · have hprocess : processSetGroup a.cb .commit st g = none := by
          unfold processSetGroup
          simp only [hnone, Option.bind_eq_bind, Option.bind_none]
        rw [forEach, hprocess]
        rfl
      · intro hmarks
        apply hdead
        apply h.live
        intro i hi
        exact hmarks i (mem_append_right _ (mem_cons_of_mem _ hi))

instance : Decidable (a.Addressed i) := inferInstanceAs (Decidable (∃ r ∈ a.requests, _))

/-- What a SET leaves in a container when it is committed: the old rows not marked deleted, with their new contents if
they are addressed, and one row for each new index that is addressed and not marked deleted. -/
def Input.committed (a : Input α) (i : Index) : Option α :=
  if a.Addressed i then if (a.final i).2 = true then none else some (a.final i).1 else a.old i

theorem Committing.stores {done : List Index} (h : Committing a done st) (hdone : ∀ i, i ∈ done ↔ a.Addressed i)
    (hmarks : ∀ i, a.Addressed i → (a.final i).2 = (a.decided i).2) : Stores st.heap st.table a.committed := by
  refine ⟨h.live fun i hi => hmarks i ((hdone i).mp hi), h.nodup, ?_, ?_⟩
  · intro p hp q hq i c d hpcell hqcell
    -- a row that was there before and a new one have different indices
    have hclash : ∀ p ∈ a.table, ∀ q ∈ st.table, q ∉ a.table → ∀ c d, st.heap.cell p = some ⟨i, c⟩ →
        st.heap.cell q ≠ some ⟨i, d⟩ := by
      intro p hp q hq hqtable c d hpcell hqcell
      obtain ⟨⟨j, e⟩, hold⟩ := a.stored.live p hp
      cases h.owned hp hold hpcell
      obtain ⟨j, -, hnone, -, hcell⟩ := h.new q hq hqtable
      rw [hcell] at hqcell
      cases hqcell
      rw [(a.stored.mem i e).mp ⟨p, hp, hold⟩] at hnone
      cases hnone
    by_cases hptable : p ∈ a.table
    · by_cases hqtable : q ∈ a.table
      · obtain ⟨⟨j, e⟩, hpold⟩ := a.stored.live p hptable
        obtain ⟨⟨k, f⟩, hqold⟩ := a.stored.live q hqtable
        cases h.owned hptable hpold hpcell
        cases h.owned hqtable hqold hqcell
        exact a.stored.unique p hptable q hqtable i e f hpold hqold
      · exact absurd hqcell (hclash p hptable q hq hqtable c d hpcell)
    · by_cases hqtable : q ∈ a.table
      · exact absurd hpcell (hclash q hqtable p hp hptable d c hqcell)
      · exact h.once p hp hptable q hq hqtable i c d hpcell hqcell
  · intro i c
    unfold Input.committed
    by_cases haddressed : a.Addressed i
    · rw [if_pos haddressed, hmarks i haddressed]
      have hi := (hdone i).mpr haddressed
      constructor
      · rintro ⟨p, hp, hcell⟩
        by_cases hptable : p ∈ a.table
        · obtain ⟨⟨j, e⟩, hold⟩ := a.stored.live p hptable
          cases h.owned hptable hold hcell
          have hdecided : ¬ (a.decided i).2 = true := fun hd => (h.stays p hptable i e hold).mp hp ⟨hi, hd⟩
          rw [h.cell p hptable i e hold hi, hmarks i haddressed, if_neg hdecided] at hcell
          cases hcell
          exact if_neg hdecided
        · obtain ⟨j, -, -, hdecided, hnew⟩ := h.new p hp hptable
          rw [hnew] at hcell
          cases hcell
          rw [hdecided]
          rfl
      · intro hc
        have hdecided : (a.decided i).2 = false := by
          by_contra htrue
          rw [if_pos (Bool.not_eq_false _ |>.mp htrue)] at hc
          cases hc
        rw [hdecided] at hc
        cases hc
        cases hold : a.old i with
        | none =>
          obtain ⟨p, hp, -, hcell⟩ := h.entered i hi hold hdecided
          exact ⟨p, hp, hcell⟩
        | some e =>
          obtain ⟨p, hp, hpold⟩ := (a.stored.mem i e).mpr hold
          refine ⟨p, (h.stays p hp i e hpold).mpr ?_, ?_⟩
          · rw [hdecided]
            exact fun hd => Bool.noConfusion hd.2
          · rw [h.cell p hp i e hpold hi, hmarks i haddressed, hdecided]
            rfl
    · rw [if_neg haddressed, ← a.stored.mem i c]
      have hi := mt (hdone i).mp haddressed
      constructor
      · rintro ⟨p, hp, hcell⟩
        obtain ⟨hptable, e, hold⟩ := h.before hp hcell hi
        rw [h.kept p hptable ⟨i, e⟩ haddressed hold] at hcell
        cases hcell
        exact ⟨p, hptable, hold⟩
      · rintro ⟨p, hp, hold⟩
        exact ⟨p, (h.stays p hp i c hold).mpr fun hd => hi hd.1, h.kept p hp ⟨i, c⟩ haddressed hold⟩

theorem Committing.marks {done : List Index} (h : Committing a done st) (hdone : ∀ i, i ∈ done ↔ a.Addressed i)
    (hstores : Stores st.heap st.table a.committed) (haddressed : a.Addressed i) : (a.final i).2 = (a.decided i).2 := by
  have hi := (hdone i).mpr haddressed
  have hcommitted : a.committed i = if (a.final i).2 = true then none else some (a.final i).1 := if_pos haddressed
  -- a row of the index is in the container exactly if the callback leaves no mark
  have hthere : (∃ p ∈ st.table, ∃ c, st.heap.cell p = some ⟨i, c⟩) ↔ (a.final i).2 = false := by
    constructor
    · rintro ⟨p, hp, c, hcell⟩
      have hsome := (hstores.mem i c).mp ⟨p, hp, hcell⟩
      by_contra htrue
      rw [hcommitted, if_pos (Bool.not_eq_false _ |>.mp htrue)] at hsome
      cases hsome
    · intro hfalse
      have hsome : a.committed i = some (a.final i).1 := by
        rw [hcommitted, hfalse]
        rfl
      obtain ⟨p, hp, hcell⟩ := (hstores.mem i _).mpr hsome
      exact ⟨p, hp, _, hcell⟩
  -- and exactly if there was no mark before it
  have hthere' : (∃ p ∈ st.table, ∃ c, st.heap.cell p = some ⟨i, c⟩) ↔ (a.decided i).2 = false := by
    constructor
    · rintro ⟨p, hp, c, hcell⟩
      by_cases hptable : p ∈ a.table
      · obtain ⟨⟨j, e⟩, hold⟩ := a.stored.live p hptable
        cases h.owned hptable hold hcell
        rw [← Bool.not_eq_true]
        exact fun hd => (h.stays p hptable i e hold).mp hp ⟨hi, hd⟩
      · obtain ⟨j, -, -, hdecided, hnew⟩ := h.new p hp hptable
        rw [hnew] at hcell
        cases hcell
        exact hdecided
    · intro hdecided
      cases hold : a.old i with
      | none =>
        obtain ⟨p, hp, -, hcell⟩ := h.entered i hi hold hdecided
        exact ⟨p, hp, _, hcell⟩
      | some e =>
        obtain ⟨p, hp, hpold⟩ := (a.stored.mem i e).mpr hold
        have hstays : p ∈ st.table := by
          rw [h.stays p hp i e hpold, hdecided]
          exact fun hd => Bool.noConfusion hd.2
        obtain ⟨⟨j, d⟩, hcell⟩ := hstores.live p hstays
        cases h.owned hp hpold hcell
        exact ⟨p, hstays, d, hcell⟩
  have hboth := hthere.symm.trans hthere'
  cases hfinal : (a.final i).2 with
  | true =>
    cases hdecided : (a.decided i).2 with
    | true => rfl
    | false => exact absurd (hboth.mpr hdecided) (by rw [hfinal]; exact Bool.noConfusion)
  | false => exact (hboth.mp hfinal).symm

end Priot.TableArray
