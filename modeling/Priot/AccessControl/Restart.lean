/-
# The access table after a restart

A line is loaded into the entry that the lookup for messages finds. The table is built again just when no entry finds
one before it, and every entry of several lines finds itself.
-/
import Priot.Lib.Rebuild
import Priot.AccessControl.SavedLine

namespace Priot.AccessControl

open Lib List

variable {e f : StoredEntry} {table table' done : List StoredEntry} {part : List (Fin VACM_MAX_VIEWS)}

/-! ## what a line finds -/

/-- The lookup for the index of `e` takes `f` into account. -/
structure Finds (e f : StoredEntry) : Prop where
  group : f.groupName = e.groupName
  model : f.securityModel.toInt = e.securityModel.toInt ∨ f.securityModel.toInt = PRIOT_SEC_MODEL_ANY
  level : f.securityLevel.toInt ≤ e.securityLevel.toInt
  context : (f.contextMatch.toInt = CONTEXT_MATCH_EXACT ∧ f.contextPrefix = e.contextPrefix) ∨
    (f.contextMatch.toInt = CONTEXT_MATCH_PREFIX ∧ f.contextPrefix.text <+: e.contextPrefix.text)

theorem finds_iff_matches : Finds e f ↔ Matches e.query f.entry := by
  constructor
  · intro h
    exact ⟨congrArg VacmString.text h.group, h.model, h.level,
      h.context.imp (fun hx => ⟨hx.1, congrArg VacmString.text hx.2⟩) id⟩
  · intro h
    exact ⟨VacmString.ext h.group, h.model, h.level, h.context.imp (fun hx => ⟨hx.1, VacmString.ext hx.2⟩) id⟩

theorem finds_self_iff : Finds e e ↔
    e.contextMatch.toInt = CONTEXT_MATCH_EXACT ∨ e.contextMatch.toInt = CONTEXT_MATCH_PREFIX := by
  constructor
  · exact fun h => h.context.imp And.left And.left
  · exact fun h => ⟨rfl, .inl rfl, Int.le_refl _, h.imp (⟨·, rfl⟩) (⟨·, prefix_refl _⟩)⟩

theorem getStoredEntry_fst (q : Query) (table : List StoredEntry) :
    (getStoredEntry q table).map (fun found => found.1.entry) = getAccessEntry q (table.map StoredEntry.entry) := by
  unfold getStoredEntry getAccessEntry
  split
  · rfl
  · split
    · rfl
    · rw [show (fun found : StoredEntry × Nat => found.1.entry) = StoredEntry.entry ∘ Prod.fst from rfl,
        ← Option.map_map, Lib.keepAt_fst]
      exact keep_map_entry StoredEntry.entry q table

theorem getStoredEntry_none (h : getStoredEntry e.query table = none) : ∀ f ∈ table, ¬ Finds e f := by
  have hnone := getStoredEntry_fst e.query table
  rw [h, Option.map_none, eq_comm, getAccessEntry_none_iff e.groupName.fits e.contextPrefix.fits] at hnone
  intro f hf hfinds
  exact hnone f.entry (mem_map_of_mem hf) (finds_iff_matches.mp hfinds)

theorem getStoredEntry_some {i : Nat} (h : getStoredEntry e.query table = some (f, i)) :
    table[i]? = some f ∧ Finds e f := by
  unfold getStoredEntry at h
  rw [if_neg (show ¬ VACM_MAX_STRING < e.query.groupName.length from not_lt.mpr e.groupName.fits),
    if_neg (show ¬ VACM_MAX_STRING < e.query.contextName.length from not_lt.mpr e.contextPrefix.fits)] at h
  obtain ⟨hrow, kept, htakes⟩ := Lib.keepAt_spec h
  have hselects := (Bool.and_eq_true_iff.mp htakes).1
  exact ⟨hrow, finds_iff_matches.mpr ((selects_iff e.groupName.fits e.contextPrefix.fits f.entry).mp hselects)⟩

/-- The entry that a line of `e` has written to. -/
def change (e : StoredEntry) (part : List (Fin VACM_MAX_VIEWS)) (f : StoredEntry) : StoredEntry :=
  e.viewsOnto part (e.onto f)

/-- The entry that a line of `e` has made. -/
def made (e : StoredEntry) (part : List (Fin VACM_MAX_VIEWS)) : StoredEntry :=
  change e part (newStoredEntry e.groupName e.contextPrefix e.securityModel e.securityLevel)

theorem made_eq (e : StoredEntry) (part : List (Fin VACM_MAX_VIEWS)) :
    made e part = { e with views := fun i => if i ∈ part then e.views i else [] } := rfl

theorem loaded_loadPart (e : StoredEntry) (table : List StoredEntry) (part : List (Fin VACM_MAX_VIEWS)) :
    Loaded (Finds e) (change e part) (made e part) table (loadPart e table part) := by
  unfold loadPart place
  cases hfound : getStoredEntry e.query table with
  | none =>
    exact @Loaded.of_insertIdx _ _ (change e part)
      (newStoredEntry e.groupName e.contextPrefix e.securityModel e.securityLevel) _ _ findIdx_le_length
      (getStoredEntry_none hfound)
  | some found =>
    obtain ⟨hrow, hfinds⟩ := getStoredEntry_some hfound
    exact .of_modify hrow hfinds

/-! ## an entry that is built again -/

theorem foldl_loadPart_perm (hnone : ∀ f ∈ done, ¬ Finds e f) (hself : Finds e e) :
    ∀ (ps : List (List (Fin VACM_MAX_VIEWS))) (v : Fin VACM_MAX_VIEWS → Text) (table : List StoredEntry),
      table.Perm ({ e with views := v } :: done) →
      (ps.foldl (loadPart e) table).Perm
        ({ e with views := fun i => if i ∈ ps.flatten then e.views i else v i } :: done) := by
  intro ps
  induction ps with
  | nil => exact fun v table h => by simpa using h
  | cons part ps ih =>
    intro v table h
    have hmine : Finds e { e with views := v } := ⟨hself.group, hself.model, hself.level, hself.context⟩
    have hstep : (loadPart e table part).Perm
        ({ e with views := fun i => if i ∈ part then e.views i else v i } :: done) := by
      cases loaded_loadPart e table part with
      | changed row rest hrow hbefore hafter =>
        have hperm := hbefore.symm.trans h
        rcases mem_cons.mp (hperm.mem_iff.mp mem_cons_self) with rfl | hdone
        · exact hafter.trans ((hperm.cons_inv).cons _)
        · exact absurd hrow (hnone row hdone)
      | added hmissing _ => exact absurd hmine (hmissing _ (h.mem_iff.mpr mem_cons_self))
    have hrest := ih _ _ hstep
    have hviews : (fun i => if i ∈ ps.flatten then e.views i else if i ∈ part then e.views i else v i) =
        fun i => if i ∈ (part :: ps).flatten then e.views i else v i := by
      funext i
      rw [flatten_cons]
      simp only [mem_append]
      split_ifs <;> tauto
    rw [foldl_cons, ← hviews]
    exact hrest

theorem views_of_not_mem_parts {i : Fin VACM_MAX_VIEWS} (h : i ∉ (parts e).flatten) : e.views i = [] := by
  have hthree : ∀ i : Fin VACM_MAX_VIEWS, ¬ VACM_VIEW_NOTIFY < i →
      i = VACM_VIEW_READ ∨ i = VACM_VIEW_WRITE ∨ i = VACM_VIEW_NOTIFY := by decide
  by_contra hview
  apply h
  unfold parts
  rw [flatten_append, mem_append]
  by_cases hi : VACM_VIEW_NOTIFY < i
  · refine .inr (mem_flatten.mpr ⟨[i], ?_, mem_cons_self⟩)
    exact mem_filterMap.mpr ⟨i, mem_finRange i, if_pos ⟨hi, hview⟩⟩
  · left
    have hstandard := hthree i hi
    rw [if_pos]
    · simpa using hstandard
    · rcases hstandard with rfl | rfl | rfl
      · exact .inl hview
      · exact .inr (.inl hview)
      · exact .inr (.inr hview)

theorem parts_ne_nil (he : Storable e) : parts e ≠ [] := by
  obtain ⟨i, hi⟩ := he.view
  intro hnil
  exact hi (views_of_not_mem_parts (by rw [hnil]; exact not_mem_nil))

theorem loadEntry_perm (he : Storable e) (hnone : ∀ f ∈ done, ¬ Finds e f)
    (hself : Finds e e ∨ (parts e).length ≤ 1) (htable : table.Perm done) : (loadEntry table e).Perm (e :: done) := by
  have hall : ({ e with views := fun i => if i ∈ (parts e).flatten then e.views i else [] } : StoredEntry) = e := by
    refine StoredEntry.ext rfl rfl rfl rfl rfl ?_ rfl rfl
    funext i
    show (if i ∈ (parts e).flatten then e.views i else []) = e.views i
    split_ifs with hi
    · rfl
    · exact (views_of_not_mem_parts hi).symm
  have hnil := parts_ne_nil he
  unfold loadEntry
  cases hparts : parts e with
  | nil => exact absurd hparts hnil
  | cons part ps =>
    rw [hparts, flatten_cons] at hall
    have hfirst : (loadPart e table part).Perm (made e part :: done) := by
      cases loaded_loadPart e table part with
      | changed row rest hrow hbefore _ =>
        exact absurd hrow (hnone row (htable.mem_iff.mp (hbefore.mem_iff.mpr mem_cons_self)))
      | added _ hafter => exact hafter.trans (htable.cons _)
    rw [foldl_cons]
    rcases hself with hself | hone
    · have hrest := foldl_loadPart_perm hnone hself ps (fun i => if i ∈ part then e.views i else []) _ hfirst
      have hviews : (fun i => if i ∈ ps.flatten then e.views i else if i ∈ part then e.views i else []) =
          fun i => if i ∈ part ++ ps.flatten then e.views i else [] := by
        funext i
        simp only [mem_append]
        split_ifs <;> tauto
      rw [hviews, hall] at hrest
      exact hrest
    · have hps : ps = [] := by
        rw [hparts, length_cons] at hone
        exact length_eq_zero_iff.mp (by omega)
      subst hps
      rw [flatten_nil, append_nil] at hall
      rw [made_eq, hall] at hfirst
      exact hfirst

/-! ## what does not come back -/

def StoredEntry.index (e : StoredEntry) : Index := e.entry.index

/-- A lookup for the model and the level of `b` takes those of `a`. -/
def Under (a b : StoredEntry) : Prop :=
  (a.securityModel.toInt = b.securityModel.toInt ∨ a.securityModel.toInt = PRIOT_SEC_MODEL_ANY) ∧
    a.securityLevel.toInt ≤ b.securityLevel.toInt

instance (a b : StoredEntry) : Decidable (Under a b) := inferInstanceAs (Decidable (_ ∧ _))

theorem Under.refl (a : StoredEntry) : Under a a := ⟨.inl rfl, Int.le_refl _⟩

theorem Under.trans {a b c : StoredEntry} (hab : Under a b) (hbc : Under b c) : Under a c := by
  refine ⟨?_, hab.2.trans hbc.2⟩
  rcases hab.1 with h | h
  · rw [h]
    exact hbc.1
  · exact .inr h

theorem Finds.under (h : Finds e f) : Under f e := ⟨h.model, h.level⟩

theorem index_eq_of_under {a b : StoredEntry} (hgroup : a.groupName = b.groupName)
    (hcontext : a.contextPrefix = b.contextPrefix) (hab : Under a b) (hba : Under b a) : a.index = b.index := by
  have hmodel : a.securityModel.toInt = b.securityModel.toInt := by
    rcases hab.1 with h | h
    · exact h
    · rcases hba.1 with h' | h'
      · exact h'.symm
      · rw [h, h']
  show (a.groupName, a.contextPrefix, a.securityModel.toInt, a.securityLevel.toInt) =
    (b.groupName, b.contextPrefix, b.securityModel.toInt, b.securityLevel.toInt)
  rw [hgroup, hcontext, hmodel, le_antisymm hab.2 hba.2]

/-- The entries with the names of `a`, at or below its model and level. -/
def upTo (a x : StoredEntry) : Bool :=
  x.groupName = a.groupName ∧ x.contextPrefix = a.contextPrefix ∧ Under x a

/-- Those, but for the ones at the index of `a` that match no longer context. -/
def upToPrefix (a x : StoredEntry) : Bool :=
  upTo a x ∧ (Under a x → x.contextMatch.toInt = CONTEXT_MATCH_PREFIX)

/-- The entries with the index of `a` that no lookup finds. -/
def hidden (a x : StoredEntry) : Bool :=
  x.index = a.index ∧ ¬ (x.contextMatch.toInt = CONTEXT_MATCH_EXACT ∨ x.contextMatch.toInt = CONTEXT_MATCH_PREFIX)

/-- The lines of an entry make none of a kind from another, and a new one of the kind only where the entry is one. -/
structure Respects (kind : StoredEntry → Bool) (e : StoredEntry) : Prop where
  keeps : ∀ part, Keeps (Finds e) (change e part) kind
  made : ∀ part, kind (made e part) = kind e

theorem upTo_iff {a x : StoredEntry} :
    upTo a x = true ↔ x.groupName = a.groupName ∧ x.contextPrefix = a.contextPrefix ∧ Under x a := decide_eq_true_iff

theorem respects_upTo (a e : StoredEntry) : Respects (upTo a) e where
  keeps := by
    intro part f hfinds h
    obtain ⟨hgroup, hcontext, hunder⟩ := upTo_iff.mp h
    exact upTo_iff.mpr ⟨hgroup, hcontext, hfinds.under.trans hunder⟩
  made := fun _ => rfl

theorem upToPrefix_iff {a x : StoredEntry} : upToPrefix a x = true ↔
    upTo a x = true ∧ (Under a x → x.contextMatch.toInt = CONTEXT_MATCH_PREFIX) := decide_eq_true_iff

theorem respects_upToPrefix {a : StoredEntry} (hne : e.index ≠ a.index) : Respects (upToPrefix a) e where
  keeps := by
    intro part f hfinds h
    obtain ⟨hupTo, hmatch⟩ := upToPrefix_iff.mp h
    have hupTo' := (respects_upTo a e).keeps part f hfinds hupTo
    refine upToPrefix_iff.mpr ⟨hupTo', ?_⟩
    intro hunder
    -- at the index of `a` the entry was found by another index, so by a longer context
    obtain ⟨hgroup, hcontext, hbelow⟩ := upTo_iff.mp hupTo
    rcases hfinds.context with hexact | hprefix
    · refine absurd (@index_eq_of_under e a ?_ ?_ hbelow (hunder.trans hfinds.under)) hne
      · exact hfinds.group.symm.trans hgroup
      · exact hexact.2.symm.trans hcontext
    · exact hprefix.1
  made := fun _ => rfl

theorem hidden_iff {a x : StoredEntry} : hidden a x = true ↔ x.index = a.index ∧
    ¬ (x.contextMatch.toInt = CONTEXT_MATCH_EXACT ∨ x.contextMatch.toInt = CONTEXT_MATCH_PREFIX) := decide_eq_true_iff

/-- Some index has two entries that no lookup finds. -/
def Doubled (table : List StoredEntry) : Prop := ∃ a, 2 ≤ table.countP (hidden a)

theorem Doubled.loadPart (h : Doubled table) (e : StoredEntry) (part : List (Fin VACM_MAX_VIEWS)) :
    Doubled (loadPart e table part) := by
  obtain ⟨a, ha⟩ := h
  refine ⟨a, ha.trans ((loaded_loadPart e table part).le_countP ?_)⟩
  intro x hx hfinds
  exact (hidden_iff.mp hx).2 (hfinds.context.imp And.left And.left)

theorem Doubled.foldl (e : StoredEntry) : ∀ (ps : List (List (Fin VACM_MAX_VIEWS))) {table : List StoredEntry},
    Doubled table → Doubled (ps.foldl (AccessControl.loadPart e) table)
  | [], _, h => h
  | part :: ps, _, h => Doubled.foldl e ps (h.loadPart e part)

theorem doubled_of_added {x : StoredEntry} (hmem : x ∈ table) (hindex : x.index = e.index)
    (hmatch : x.contextMatch = e.contextMatch) (hself : ¬ Finds e e) (hafter : table'.Perm (made e part :: table)) :
    Doubled table' := by
  rw [finds_self_iff] at hself
  have hx : hidden e x = true := hidden_iff.mpr ⟨hindex, by rw [hmatch]; exact hself⟩
  have hmade : hidden e (made e part) = true := hidden_iff.mpr ⟨rfl, hself⟩
  have hpos : 0 < table.countP (hidden e) := countP_pos_iff.mpr ⟨x, hmem, hx⟩
  refine ⟨e, ?_⟩
  rw [hafter.countP_eq, countP_cons, if_pos hmade]
  omega

/-! ## counting through a run -/

variable {kind : StoredEntry → Bool}

theorem countP_foldl_of_copy (hkind : Respects kind e) : ∀ (ps : List (List (Fin VACM_MAX_VIEWS)))
    (table : List StoredEntry), (∃ x ∈ table, x.index = e.index ∧ x.contextMatch = e.contextMatch) →
    (ps.foldl (loadPart e) table).countP kind ≤ table.countP kind ∨ Doubled (ps.foldl (loadPart e) table) := by
  intro ps
  induction ps with
  | nil => exact fun _ _ => .inl (Nat.le_refl _)
  | cons part ps ih =>
    rintro table ⟨x, hmem, hindex, hmatch⟩
    rw [foldl_cons]
    have hloaded := loaded_loadPart e table part
    cases hstep : hloaded with
    | changed row rest hrow hbefore hafter =>
      have hle : (loadPart e table part).countP kind ≤ table.countP kind :=
        hloaded.countP_le_of_found (hkind.keeps part) (hbefore.mem_iff.mpr mem_cons_self) hrow
      have hcopy : ∃ x ∈ loadPart e table part, x.index = e.index ∧ x.contextMatch = e.contextMatch := by
        rcases mem_cons.mp (hbefore.mem_iff.mp hmem) with rfl | hrest
        · refine ⟨change e part x, hafter.mem_iff.mpr mem_cons_self, ?_, rfl⟩
          have hgroup : x.groupName = e.groupName := congrArg Prod.fst hindex
          have hcontext : x.contextPrefix = e.contextPrefix := congrArg (fun k : Index => k.2.1) hindex
          show (x.groupName, x.contextPrefix, _, _) = (e.groupName, e.contextPrefix, _, _)
          rw [hgroup, hcontext]
          rfl
        · exact ⟨x, hafter.mem_iff.mpr (mem_cons_of_mem _ hrest), hindex, hmatch⟩
      exact (ih _ hcopy).imp (fun h => h.trans hle) id
    | added hmissing hafter =>
      refine .inr (Doubled.foldl e ps (doubled_of_added hmem hindex hmatch ?_ hafter))
      intro hself
      refine hmissing x hmem ⟨congrArg Prod.fst hindex, .inl ?_, ?_, ?_⟩
      · exact congrArg (fun k : Index => k.2.2.1) hindex
      · exact le_of_eq (congrArg (fun k : Index => k.2.2.2) hindex)
      · rw [hmatch, show x.contextPrefix = e.contextPrefix from congrArg (fun k : Index => k.2.1) hindex]
        exact hself.context

theorem countP_foldl_le (hkind : Respects kind e) : ∀ (ps : List (List (Fin VACM_MAX_VIEWS)))
    (table : List StoredEntry),
    (ps.foldl (loadPart e) table).countP kind ≤ table.countP kind + (if kind e then 1 else 0) ∨
      Doubled (ps.foldl (loadPart e) table) := by
  intro ps
  induction ps with
  | nil => exact fun _ => .inl (Nat.le_add_right _ _)
  | cons part ps ih =>
    intro table
    rw [foldl_cons]
    have hloaded := loaded_loadPart e table part
    cases hstep : hloaded with
    | changed row rest hrow hbefore _ =>
      have hle : (loadPart e table part).countP kind ≤ table.countP kind :=
        hloaded.countP_le_of_found (hkind.keeps part) (hbefore.mem_iff.mpr mem_cons_self) hrow
      exact (ih (loadPart e table part)).imp (fun h => h.trans (Nat.add_le_add_right hle _)) id
    | added _ hafter =>
      have hle := hloaded.countP_le (hkind.keeps part)
      rw [hkind.made part] at hle
      have hcopy := countP_foldl_of_copy hkind ps (loadPart e table part)
        ⟨made e part, hafter.mem_iff.mpr mem_cons_self, rfl, rfl⟩
      exact hcopy.imp (fun h => h.trans hle) id

theorem countP_foldl_of_found (hkind : Respects kind e) (hmatch : e.contextMatch.toInt = CONTEXT_MATCH_PREFIX) :
    ∀ (ps : List (List (Fin VACM_MAX_VIEWS))) (table : List StoredEntry), (∃ x ∈ table, Finds e x) →
    (ps.foldl (loadPart e) table).countP kind ≤ table.countP kind := by
  intro ps
  induction ps with
  | nil => exact fun _ _ => Nat.le_refl _
  | cons part ps ih =>
    rintro table ⟨x, hmem, hfinds⟩
    rw [foldl_cons]
    have hloaded := loaded_loadPart e table part
    have hle := hloaded.countP_le_of_found (hkind.keeps part) hmem hfinds
    refine (ih _ ?_).trans hle
    cases hloaded with
    | changed row rest hrow _ hafter =>
      refine ⟨change e part row, hafter.mem_iff.mpr mem_cons_self, hrow.group, .inl rfl, Int.le_refl _, ?_⟩
      refine .inr ⟨hmatch, ?_⟩
      rcases hrow.context with hexact | hprefix
      · show row.contextPrefix.text <+: e.contextPrefix.text
        rw [hexact.2]
      · exact hprefix.2
    | added hmissing _ => exact absurd hfinds (hmissing x hmem)

/-- There are fewer of a kind than have been loaded, or an entry twice. -/
def Short (kind : StoredEntry → Bool) (done table : List StoredEntry) : Prop :=
  table.countP kind < done.countP kind ∨ Doubled table

theorem Short.loadEntry (h : Short kind done table) (hkind : Respects kind e) :
    Short kind (done ++ [e]) (loadEntry table e) := by
  rcases h with hlt | hdoubled
  · refine (countP_foldl_le hkind (parts e) table).imp (fun hle => ?_) id
    rw [countP_append, countP_singleton]
    exact Nat.lt_of_le_of_lt hle (Nat.add_lt_add_right hlt _)
  · exact .inr (hdoubled.foldl e (parts e))

theorem Short.run : ∀ (es : List StoredEntry) {done table : List StoredEntry}, Short kind done table →
    (∀ e ∈ es, Respects kind e) → Short kind (done ++ es) (es.foldl AccessControl.loadEntry table)
  | [], done, _, h, _ => by
    rw [List.append_nil]
    exact h
  | e :: es, done, _, h, hes => by
    have hrun := Short.run es (h.loadEntry (hes e mem_cons_self)) fun e' he' => hes e' (mem_cons_of_mem e he')
    rw [append_assoc] at hrun
    exact hrun

theorem Short.not_perm (h : Short kind done table) (hdistinct : (done.map StoredEntry.index).Nodup) :
    ¬ table.Perm done := by
  intro hperm
  rcases h with hlt | ⟨a, ha⟩
  · exact absurd (hperm.countP_eq kind) (Nat.ne_of_lt hlt)
  · have hle : done.countP (hidden a) ≤ (done.map StoredEntry.index).count a.index := by
      rw [List.count, countP_map]
      refine countP_mono_left fun x _ hx => ?_
      simpa using (hidden_iff.mp hx).1
    have hone := nodup_iff_count_le_one.mp hdistinct a.index
    rw [hperm.countP_eq] at ha
    omega

/-! ## an entry that is not built again -/

theorem short_of_changed {row : StoredEntry} {rest : List StoredEntry} (hkind : Respects kind e)
    (hbefore : done.Perm (row :: rest)) (hafter : table.Perm (change e part row :: rest)) (hrow : kind row = true)
    (hchange : kind (change e part row) = false) (he : kind e = false) (ps : List (List (Fin VACM_MAX_VIEWS))) :
    Short kind (done ++ [e]) (ps.foldl (loadPart e) table) := by
  refine (countP_foldl_le hkind ps table).imp (fun hle => ?_) id
  rw [he, hafter.countP_eq, countP_cons, hchange] at hle
  rw [countP_append, countP_singleton, he, hbefore.countP_eq, countP_cons, hrow]
  simp only [if_true, Bool.false_eq_true, if_false] at hle ⊢
  omega

theorem exists_short (hperm : table.Perm done) (he : Storable e) (hnew : ∀ f ∈ done, f.index ≠ e.index)
    (hbad : ¬ ((∀ f ∈ done, ¬ Finds e f) ∧ (Finds e e ∨ (parts e).length ≤ 1))) :
    ∃ kind, (∀ e', (∀ f ∈ done, f.index ≠ e'.index) → Respects kind e') ∧ Short kind (done ++ [e]) (loadEntry table e) := by
  have hnil := parts_ne_nil he
  unfold loadEntry
  cases hparts : parts e with
  | nil => exact absurd hparts hnil
  | cons part ps =>
    rw [foldl_cons]
    cases loaded_loadPart e table part with
    | changed row rest hrow hbefore hafter =>
      have hdone : done.Perm (row :: rest) := hperm.symm.trans hbefore
      have hmem : row ∈ done := hdone.mem_iff.mpr mem_cons_self
      have hself : upTo row row = true := upTo_iff.mpr ⟨rfl, rfl, Under.refl row⟩
      by_cases hunder : Under e row
      · -- the model and the level are the same, so `row` has a shorter context prefix
        have hcontext : row.contextPrefix ≠ e.contextPrefix := fun h =>
          hnew row hmem (index_eq_of_under hrow.group h hrow.under hunder)
        have hprefix := hrow.context.resolve_left fun h => hcontext h.2
        by_cases hmatch : e.contextMatch.toInt = CONTEXT_MATCH_PREFIX
        · refine ⟨upTo e, fun e' _ => respects_upTo e e', .inl ?_⟩
          have hfound : Finds e (change e part row) := ⟨hrow.group, .inl rfl, Int.le_refl _, .inr ⟨hmatch, hprefix.2⟩⟩
          have hle := countP_foldl_of_found (respects_upTo e e) hmatch ps _
            ⟨_, hafter.mem_iff.mpr mem_cons_self, hfound⟩
          have hchange : ¬ upTo e (change e part row) = true := fun h => hcontext (upTo_iff.mp h).2.1
          have hmine : upTo e e = true := upTo_iff.mpr ⟨rfl, rfl, Under.refl e⟩
          rw [hafter.countP_eq, countP_cons, if_neg hchange] at hle
          rw [countP_append, countP_singleton, if_pos hmine, hdone.countP_eq, countP_cons]
          omega
        · refine ⟨upToPrefix row, fun e' he' => respects_upToPrefix (he' row hmem).symm, ?_⟩
          refine short_of_changed (respects_upToPrefix (hnew row hmem).symm) hdone hafter ?_ ?_ ?_ ps
          · exact upToPrefix_iff.mpr ⟨hself, fun _ => hprefix.1⟩
          · exact decide_eq_false fun h => hmatch (h.2 hrow.under)
          · exact decide_eq_false fun h => hcontext (upTo_iff.mp h.1).2.1.symm
      · refine ⟨upTo row, fun e' _ => respects_upTo row e', ?_⟩
        refine short_of_changed (respects_upTo row e) hdone hafter hself ?_ ?_ ps
        · exact decide_eq_false fun h => hunder h.2.2
        · exact decide_eq_false fun h => hunder h.2.2
    | added hmissing hafter =>
      have hnone : ∀ f ∈ done, ¬ Finds e f := fun f hf => hmissing f (hperm.mem_iff.mpr hf)
      obtain ⟨hself, hlines⟩ := not_or.mp fun h => hbad ⟨hnone, h⟩
      refine ⟨upTo e, fun e' _ => respects_upTo e e', .inr ?_⟩
      cases ps with
      | nil => exact absurd (by rw [hparts]; exact Nat.le_refl 1) hlines
      | cons part' ps =>
        rw [foldl_cons]
        refine Doubled.foldl e ps ?_
        have hmade : made e part ∈ loadPart e table part := hafter.mem_iff.mpr mem_cons_self
        cases loaded_loadPart e (loadPart e table part) part' with
        | changed row rest hrow hbefore _ =>
          rcases mem_cons.mp (hafter.mem_iff.mp (hbefore.mem_iff.mpr mem_cons_self)) with rfl | hold
          · exact absurd ⟨hrow.group, hrow.model, hrow.level, hrow.context⟩ hself
          · exact absurd hrow (hmissing row hold)
        | added _ hagain => exact @doubled_of_added e _ _ part' _ hmade rfl rfl hself hagain

/-! ## the table that is built again -/

/-- No entry is found for the index of one behind it, and an entry of several lines is found for its own. -/
structure Restorable (table : List StoredEntry) : Prop where
  apart : table.Pairwise fun f e => ¬ Finds e f
  whole : ∀ e ∈ table, e.contextMatch.toInt = CONTEXT_MATCH_EXACT ∨ e.contextMatch.toInt = CONTEXT_MATCH_PREFIX ∨
    (saveEntry e).length ≤ 1

theorem length_saveEntry (e : StoredEntry) : (saveEntry e).length = (parts e).length := by
  have hother : ∀ ids : List (Fin VACM_MAX_VIEWS),
      (ids.filterMap fun i => if VACM_VIEW_NOTIFY < i ∧ e.views i ≠ [] then
        some (SavedLine.authAccess (saveAuthAccess e i)) else none).length =
      (ids.filterMap fun i => if VACM_VIEW_NOTIFY < i ∧ e.views i ≠ [] then some [i] else none).length := by
    intro ids
    induction ids with
    | nil => rfl
    | cons i ids ih =>
      by_cases hi : VACM_VIEW_NOTIFY < i ∧ e.views i ≠ []
      · simp only [filterMap_cons, if_pos hi, length_cons, ih]
      · simp only [filterMap_cons, if_neg hi, ih]
  unfold saveEntry parts
  rw [length_append, length_append, hother]
  split <;> rfl

theorem foldl_loadEntry_perm_iff : ∀ (es done table : List StoredEntry), (∀ e ∈ es, Storable e) →
    ((done ++ es).map StoredEntry.index).Nodup → table.Perm done → ((es.foldl loadEntry table).Perm (done ++ es) ↔
      (∀ e ∈ es, ∀ f ∈ done, ¬ Finds e f) ∧ es.Pairwise (fun f e => ¬ Finds e f) ∧
        ∀ e ∈ es, Finds e e ∨ (parts e).length ≤ 1) := by
  intro es
  induction es with
  | nil =>
    intro done table _ _ hperm
    simpa using hperm
  | cons e es ih =>
    intro done table hes hdistinct hperm
    have he := hes e mem_cons_self
    have hes' : ∀ e ∈ es, Storable e := fun e' he' => hes e' (mem_cons_of_mem e he')
    have hdistinct' : ((done ++ [e] ++ es).map StoredEntry.index).Nodup := by
      rw [append_assoc]
      exact hdistinct
    have hnew : ∀ e' ∈ e :: es, ∀ f ∈ done, f.index ≠ e'.index := by
      intro e' he' f hf
      rw [map_append] at hdistinct
      exact (nodup_append.mp hdistinct).2.2 _ (mem_map_of_mem hf) _ (mem_map_of_mem he')
    rw [foldl_cons, append_cons]
    by_cases hgood : (∀ f ∈ done, ¬ Finds e f) ∧ (Finds e e ∨ (parts e).length ≤ 1)
    · have hstep : (loadEntry table e).Perm (done ++ [e]) :=
        (loadEntry_perm he hgood.1 hgood.2 hperm).trans (perm_append_singleton e done).symm
      rw [ih (done ++ [e]) _ hes' hdistinct' hstep]
      simp only [mem_append, mem_cons, not_mem_nil, or_false, pairwise_cons, forall_eq_or_imp]
      constructor
      · rintro ⟨hbefore, happart, hself⟩
        exact ⟨⟨hgood.1, fun e' he' f hf => hbefore e' he' f (.inl hf)⟩,
          ⟨fun e' he' => hbefore e' he' e (.inr rfl), happart⟩, hgood.2, hself⟩
      · rintro ⟨⟨-, hbefore⟩, ⟨hmine, happart⟩, -, hself⟩
        refine ⟨?_, happart, hself⟩
        rintro e' he' f (hf | rfl)
        · exact hbefore e' he' f hf
        · exact hmine e' he'
    · obtain ⟨kind, hkind, hshort⟩ := exists_short hperm he (hnew e mem_cons_self) hgood
      refine iff_of_false ?_ ?_
      · refine (Short.run es hshort fun e' he' => hkind e' ?_).not_perm hdistinct'
        exact hnew e' (mem_cons_of_mem e he')
      · rintro ⟨hbefore, -, hself⟩
        exact hgood ⟨hbefore e mem_cons_self, hself e mem_cons_self⟩

/-- What `Vacm_save` has written of a table in use is built again as it was if and only if no entry is found for the
index of another behind it, and an entry that has several lines is found for its own. -/
theorem restore_save_iff (table : List StoredEntry) (hstorable : ∀ e ∈ table, Storable e)
    (hdistinct : (table.map StoredEntry.index).Nodup) :
    (∃ restored, restore (save table) = some restored ∧ restored.Perm table) ↔ Restorable table := by
  have hrun := foldl_loadEntry_perm_iff table [] [] hstorable hdistinct (List.Perm.refl _)
  rw [nil_append] at hrun
  have hself : ∀ e, (Finds e e ∨ (parts e).length ≤ 1) ↔ e.contextMatch.toInt = CONTEXT_MATCH_EXACT ∨
      e.contextMatch.toInt = CONTEXT_MATCH_PREFIX ∨ (saveEntry e).length ≤ 1 := by
    intro e
    rw [finds_self_iff, length_saveEntry, or_assoc]
  rw [restore_save hstorable]
  constructor
  · rintro ⟨restored, hrestored, hperm⟩
    cases hrestored
    obtain ⟨-, happart, hwhole⟩ := hrun.mp hperm
    exact ⟨happart, fun e he => (hself e).mp (hwhole e he)⟩
  · intro h
    refine ⟨_, rfl, hrun.mpr ⟨?_, h.apart, fun e he => (hself e).mpr (h.whole e he)⟩⟩
    intro e _ f hf
    exact absurd hf not_mem_nil

/-! ## two tables -/

theorem noContext_fits : ([] : Text).length ≤ VACM_MAX_STRING := Nat.zero_le _

/-- A group `p`, the empty context, and a view `a` for reading. -/
def reader (securityModel securityLevel : Int32) : StoredEntry where
  groupName := ⟨[112], by decide⟩
  contextPrefix := ⟨[], noContext_fits⟩
  securityModel := securityModel
  securityLevel := securityLevel
  contextMatch := 1
  views := fun i => if i = VACM_VIEW_READ then [97] else []
  storageType := 3
  status := 1

theorem reader_storable (m l : Int32) : Storable (reader m l) where
  nonvolatile := rfl
  group := by
    show (0 : UInt8) ∉ [112]
    decide
  context := not_mem_nil
  views := by
    intro i
    show (if i = VACM_VIEW_READ then [97] else []).length ≤ VACM_MAX_STRING ∧
      (0 : UInt8) ∉ (if i = VACM_VIEW_READ then [97] else [])
    revert i
    decide
  view := ⟨VACM_VIEW_READ, by show (if VACM_VIEW_READ = VACM_VIEW_READ then [97] else []) ≠ []; decide⟩

/-- Two models of their own are built again. -/
theorem restore_save_iff_models : ∃ restored, restore (save [reader 2 1, reader 3 1]) = some restored ∧
    restored.Perm [reader 2 1, reader 3 1] := by
  refine (restore_save_iff [reader 2 1, reader 3 1] ?_ ?_).mpr ⟨?_, ?_⟩
  · simp only [forall_mem_cons, not_mem_nil, false_imp_iff, implies_true, and_true]
    exact ⟨reader_storable 2 1, reader_storable 3 1⟩
  · decide
  · refine pairwise_pair.mpr fun h => ?_
    exact absurd h.model (by decide)
  · simp only [forall_mem_cons, not_mem_nil, false_imp_iff, implies_true, and_true]
    exact ⟨.inl rfl, .inl rfl⟩

/-- An entry for any model is found for the index of the one behind it, and is written over. -/
theorem not_restored_anyModel : ¬ ∀ table : List StoredEntry, (∀ e ∈ table, Storable e) →
    (table.map StoredEntry.index).Nodup →
      ∃ restored, restore (save table) = some restored ∧ restored.Perm table := by
  intro h
  have hstorable : ∀ e ∈ [reader 0 1, reader 3 2], Storable e := by
    simp only [forall_mem_cons, not_mem_nil, false_imp_iff, implies_true, and_true]
    exact ⟨reader_storable 0 1, reader_storable 3 2⟩
  have hdistinct : ([reader 0 1, reader 3 2].map StoredEntry.index).Nodup := by decide
  obtain ⟨restored, hrestored, hperm⟩ := h [reader 0 1, reader 3 2] hstorable hdistinct
  rw [restore_save hstorable, Option.some.injEq] at hrestored
  subst hrestored
  have happart := ((foldl_loadEntry_perm_iff _ [] [] hstorable hdistinct (List.Perm.refl _)).mp hperm).2.1
  exact pairwise_pair.mp happart ⟨rfl, .inr rfl, by decide, .inl ⟨rfl, rfl⟩⟩

end Priot.AccessControl
