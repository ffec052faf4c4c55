/-
# Which entry decides

`Vacm_chooseBest` takes an entry that passes any one of four tests against the one chosen before, so a later entry can
overtake a better one by a rule that comes after the one they differ in.
-/
import Mathlib.Data.Prod.Lex
import Mathlib.Data.Finset.Max
import Priot.AccessControl.AccessTable

namespace Priot.AccessControl

open Lib
open List hiding choose

/-! ## the rules -/

/-- The entry is one for the message. -/
structure Matches (q : Query) (e : AccessEntry) : Prop where
  group : e.groupName.text = q.groupName
  model : e.securityModel = q.securityModel ∨ e.securityModel = PRIOT_SEC_MODEL_ANY
  level : e.securityLevel ≤ q.securityLevel
  context : (e.contextMatch = CONTEXT_MATCH_EXACT ∧ e.contextPrefix.text = q.contextName) ∨
    (e.contextMatch = CONTEXT_MATCH_PREFIX ∧ e.contextPrefix.text <+: q.contextName)

/-- The rules in order: the message's own model before any model, an exact context before a prefix, a longer prefix
before a shorter one, a higher level before a lower one. -/
def rank (e : AccessEntry) : ℕ ×ₗ ℕ ×ₗ ℕ ×ₗ ℤ :=
  toLex (if e.securityModel = PRIOT_SEC_MODEL_ANY then 0 else 1,
    toLex (if e.contextMatch = CONTEXT_MATCH_EXACT then 1 else 0,
      toLex (e.contextPrefix.text.length, e.securityLevel)))

/-- No entry for the message is preferred to this one. -/
structure Best (q : Query) (table : List AccessEntry) (e : AccessEntry) : Prop where
  mem : e ∈ table
  isMatch : Matches q e
  best : ∀ e' ∈ table, Matches q e' → rank e' ≤ rank e

/-- The choice is the one by the rules, in whichever order the entries were made. -/
structure Follows (q : Query) (table : List AccessEntry) : Prop where
  none_iff : getAccessEntry q table = none ↔ ∀ e ∈ table, ¬ Matches q e
  best : ∀ e, getAccessEntry q table = some e → Best q table e
  order : ∀ table', Reachable table' → table'.Perm table → getAccessEntry q table' = getAccessEntry q table

theorem rank_lt_iff {a b : AccessEntry} : rank a < rank b ↔
    (a.securityModel = PRIOT_SEC_MODEL_ANY ∧ b.securityModel ≠ PRIOT_SEC_MODEL_ANY) ∨
    ((a.securityModel = PRIOT_SEC_MODEL_ANY ↔ b.securityModel = PRIOT_SEC_MODEL_ANY) ∧
      ((a.contextMatch ≠ CONTEXT_MATCH_EXACT ∧ b.contextMatch = CONTEXT_MATCH_EXACT) ∨
      ((a.contextMatch = CONTEXT_MATCH_EXACT ↔ b.contextMatch = CONTEXT_MATCH_EXACT) ∧
        (a.contextPrefix.text.length < b.contextPrefix.text.length ∨
        (a.contextPrefix.text.length = b.contextPrefix.text.length ∧ a.securityLevel < b.securityLevel))))) := by
  rw [rank, rank, Prod.Lex.toLex_lt_toLex, Prod.Lex.toLex_lt_toLex, Prod.Lex.toLex_lt_toLex]
  by_cases h₁ : a.securityModel = PRIOT_SEC_MODEL_ANY <;> by_cases h₂ : b.securityModel = PRIOT_SEC_MODEL_ANY <;>
    by_cases h₃ : a.contextMatch = CONTEXT_MATCH_EXACT <;> by_cases h₄ : b.contextMatch = CONTEXT_MATCH_EXACT <;>
      simp [h₁, h₂, h₃, h₄]

theorem rank_eq_iff {a b : AccessEntry} : rank a = rank b ↔
    (a.securityModel = PRIOT_SEC_MODEL_ANY ↔ b.securityModel = PRIOT_SEC_MODEL_ANY) ∧
    (a.contextMatch = CONTEXT_MATCH_EXACT ↔ b.contextMatch = CONTEXT_MATCH_EXACT) ∧
    a.contextPrefix.text.length = b.contextPrefix.text.length ∧ a.securityLevel = b.securityLevel := by
  rw [rank, rank, toLex_inj, Prod.mk.injEq, toLex_inj, Prod.mk.injEq, toLex_inj, Prod.mk.injEq]
  by_cases h₁ : a.securityModel = PRIOT_SEC_MODEL_ANY <;> by_cases h₂ : b.securityModel = PRIOT_SEC_MODEL_ANY <;>
    by_cases h₃ : a.contextMatch = CONTEXT_MATCH_EXACT <;> by_cases h₄ : b.contextMatch = CONTEXT_MATCH_EXACT <;>
      simp [h₁, h₂, h₃, h₄]

/-! ## the code's conditions -/

theorem selects_iff {q : Query} (hg : q.groupName.length ≤ VACM_MAX_STRING)
    (hc : q.contextName.length ≤ VACM_MAX_STRING) (e : AccessEntry) :
    selects q.groupName q.contextName q.securityModel q.securityLevel e = true ↔ Matches q e := by
  have hgroup : memcmp (q.groupName.length + 1) e.groupName.octets (lengthPrefixed q.groupName) = 0 ↔
      e.groupName.text = q.groupName := memcmp_lengthPrefixed e.groupName.fits hg
  have hexact : memcmp (q.contextName.length + 1) e.contextPrefix.octets (lengthPrefixed q.contextName) = 0 ↔
      e.contextPrefix.text = q.contextName := memcmp_lengthPrefixed e.contextPrefix.fits hc
  have hbegins : (q.contextName.length ≥ e.contextPrefix.text.length ∧
      memcmp e.contextPrefix.text.length e.contextPrefix.octets.tail (lengthPrefixed q.contextName).tail = 0) ↔
      e.contextPrefix.text <+: q.contextName := by
    constructor
    · rintro ⟨hlen, hz⟩
      exact (Lib.memcmp_eq_zero_iff_begins hlen).mp hz
    · intro hp
      exact ⟨hp.length_le, (Lib.memcmp_eq_zero_iff_begins hp.length_le).mpr hp⟩
  rw [selects, decide_eq_true_iff, e.contextPrefix.len_eq, hgroup, hexact, hbegins]
  constructor
  · rintro ⟨hm, hl, hgr, hctx⟩
    refine ⟨hgr, hm.imp Eq.symm id, hl, ?_⟩
    exact hctx.imp (fun h => ⟨h.1, h.2.2⟩) id
  · intro h
    refine ⟨h.model.imp Eq.symm id, h.level, h.group, ?_⟩
    exact h.context.imp (fun hx => ⟨hx.1, by rw [hx.2], hx.2⟩) id

/-- The entries for the message, in the order of the table. -/
def candidates (q : Query) (table : List AccessEntry) : List AccessEntry :=
  table.filter (selects q.groupName q.contextName q.securityModel q.securityLevel)

theorem mem_candidates {q : Query} (hg : q.groupName.length ≤ VACM_MAX_STRING)
    (hc : q.contextName.length ≤ VACM_MAX_STRING) {table : List AccessEntry} {e : AccessEntry} :
    e ∈ candidates q table ↔ e ∈ table ∧ Matches q e := by
  rw [candidates, mem_filter, selects_iff hg hc]

theorem getAccessEntry_eq {q : Query} (hg : q.groupName.length ≤ VACM_MAX_STRING)
    (hc : q.contextName.length ≤ VACM_MAX_STRING) (table : List AccessEntry) :
    getAccessEntry q table = (candidates q table).foldl (choose fun a b => beats a b = true) none := by
  have hstep : (fun best vp => if selects q.groupName q.contextName q.securityModel q.securityLevel vp then
      some (chooseBest best vp) else best) = fun best vp =>
      if selects q.groupName q.contextName q.securityModel q.securityLevel vp then
        choose (fun a b => beats a b = true) best vp else best := by
    funext best vp
    cases best with
    | none => rfl
    | some current =>
      rw [choose, chooseBest]
      split_ifs <;> rfl
  rw [getAccessEntry, if_neg (not_lt.mpr hg), if_neg (not_lt.mpr hc), hstep, candidates, foldl_filter]

theorem keep_map_entry {Row : Type} (entry : Row → AccessEntry) (q : Query) (table : List Row) :
    (Lib.keep (fun best vp => selects q.groupName q.contextName q.securityModel q.securityLevel (entry vp) &&
      best.all fun current => beats (entry current) (entry vp)) table).map entry =
      (table.map entry).foldl (fun best vp =>
        if selects q.groupName q.contextName q.securityModel q.securityLevel vp then some (chooseBest best vp)
        else best) none := by
  have hfold : ∀ (l : List Row) (kept : Option Row),
      (l.foldl (fun best vp => if (selects q.groupName q.contextName q.securityModel q.securityLevel (entry vp) &&
        best.all fun current => beats (entry current) (entry vp)) = true then some vp else best) kept).map entry =
        (l.map entry).foldl (fun best vp =>
          if selects q.groupName q.contextName q.securityModel q.securityLevel vp then some (chooseBest best vp)
          else best) (kept.map entry) := by
    intro l
    induction l with
    | nil => exact fun _ => rfl
    | cons vp rest ih =>
      intro kept
      rw [foldl_cons, map_cons, foldl_cons, ih]
      congr 1
      by_cases hselects : selects q.groupName q.contextName q.securityModel q.securityLevel (entry vp) = true
      · rw [hselects, Bool.true_and, if_pos rfl]
        cases kept with
        | none => rfl
        | some current =>
          rw [Option.all_some, Option.map_some, chooseBest]
          split <;> rfl
      · rw [Bool.not_eq_true] at hselects
        rw [hselects, Bool.false_and, if_neg Bool.false_ne_true, if_neg Bool.false_ne_true]
  exact hfold table none

theorem beats_iff {a b : AccessEntry} : beats a b = true ↔
    (a.securityModel = PRIOT_SEC_MODEL_ANY ∧ b.securityModel ≠ PRIOT_SEC_MODEL_ANY) ∨
    (a.contextMatch = CONTEXT_MATCH_PREFIX ∧ b.contextMatch = CONTEXT_MATCH_EXACT) ∨
    (a.contextMatch = CONTEXT_MATCH_PREFIX ∧ a.contextPrefix.text.length < b.contextPrefix.text.length) ∨
    a.securityLevel < b.securityLevel := by
  rw [beats, decide_eq_true_iff, a.contextPrefix.len_eq, b.contextPrefix.len_eq]

/-! ## two entries for one message -/

variable {q : Query} {table : List AccessEntry} {a b e : AccessEntry}

theorem Matches.context_cases (h : Matches q e) :
    e.contextMatch = CONTEXT_MATCH_EXACT ∨ (e.contextMatch ≠ CONTEXT_MATCH_EXACT ∧ e.contextMatch = CONTEXT_MATCH_PREFIX) := by
  rcases h.context with h | h
  · exact .inl h.1
  · exact .inr ⟨by rw [h.1]; decide, h.1⟩

theorem Matches.begins (h : Matches q e) : e.contextPrefix.text <+: q.contextName := by
  rcases h.context with h | h
  · exact h.2 ▸ prefix_refl _
  · exact h.2

theorem Matches.length_of_exact (h : Matches q e) (he : e.contextMatch = CONTEXT_MATCH_EXACT) :
    e.contextPrefix.text.length = q.contextName.length := by
  rcases h.context with h | h
  · rw [h.2]
  · rw [he] at h
    exact absurd h.1 (by decide)

theorem beats_of_rank_lt (ha : Matches q a) (hb : Matches q b) (h : rank a < rank b) : beats a b = true := by
  rw [beats_iff]
  rcases rank_lt_iff.mp h with hm | ⟨_, hx | ⟨hx, hl | hl⟩⟩
  · exact .inl hm
  · exact .inr (.inl ⟨(ha.context_cases.resolve_left hx.1).2, hx.2⟩)
  · refine .inr (.inr (.inl ⟨?_, hl⟩))
    -- two exact ones have the same length
    have hne : a.contextMatch ≠ CONTEXT_MATCH_EXACT := by
      intro he
      rw [ha.length_of_exact he, hb.length_of_exact (hx.mp he)] at hl
      exact absurd hl (lt_irrefl _)
    exact (ha.context_cases.resolve_left hne).2
  · exact .inr (.inr (.inr hl.2))

theorem index_eq_of_rank_eq (ha : Matches q a) (hb : Matches q b) (h : rank a = rank b) : a.index = b.index := by
  obtain ⟨hm, _, hlen, hlev⟩ := rank_eq_iff.mp h
  have hg : a.groupName = b.groupName := VacmString.ext (ha.group.trans hb.group.symm)
  have hc : a.contextPrefix = b.contextPrefix := by
    refine VacmString.ext ?_
    rw [prefix_iff_eq_take.mp ha.begins, prefix_iff_eq_take.mp hb.begins, hlen]
  have hmod : a.securityModel = b.securityModel := by
    by_cases hany : a.securityModel = PRIOT_SEC_MODEL_ANY
    · rw [hany, hm.mp hany]
    · rw [ha.model.resolve_right hany, hb.model.resolve_right fun h => hany (hm.mpr h)]
  rw [AccessEntry.index, AccessEntry.index, hg, hc, hmod, hlev]

/-- The tests behind the first, on an entry of the same model or none. -/
def Overtakes (e b : AccessEntry) : Prop :=
  (b.contextMatch = CONTEXT_MATCH_PREFIX ∧
    (e.contextMatch = CONTEXT_MATCH_EXACT ∨ b.contextPrefix.text.length < e.contextPrefix.text.length)) ∨
  b.securityLevel < e.securityLevel

theorem Best.beats_iff (h : Best q table b) (he : e ∈ table) (hm : Matches q e) : beats b e = true ↔ Overtakes e b := by
  have hle := h.best e he hm
  rw [AccessControl.beats_iff, Overtakes]
  constructor
  · rintro (h' | h' | h' | h')
    · exact absurd (rank_lt_iff.mpr (.inl h')) (not_lt.mpr hle)
    · exact .inl ⟨h'.1, .inl h'.2⟩
    · exact .inl ⟨h'.1, .inr h'.2⟩
    · exact .inr h'
  · rintro (⟨hp, h' | h'⟩ | h')
    · exact .inr (.inl ⟨hp, h'⟩)
    · exact .inr (.inr (.inl ⟨hp, h'⟩))
    · exact .inr (.inr (.inr h'))

theorem Best.not_overtakes (h : Best q table b) (he : e ∈ table) (hm : Matches q e) (hi : b.index = e.index) :
    ¬ Overtakes e b := by
  have hle := h.best e he hm
  simp only [AccessEntry.index, Prod.mk.injEq] at hi
  obtain ⟨_, hc, hmod, hlev⟩ := hi
  rintro (⟨hp, hx | hl⟩ | hl)
  · refine absurd (rank_lt_iff.mpr (.inr ⟨by rw [hmod], .inl ⟨?_, hx⟩⟩)) (not_lt.mpr hle)
    rw [hp]
    decide
  · rw [hc] at hl
    exact absurd hl (lt_irrefl _)
  · rw [hlev] at hl
    exact absurd hl (lt_irrefl _)

theorem Best.rank_eq (ha : Best q table a) (hb : Best q table b) : rank a = rank b :=
  le_antisymm (hb.best a ha.mem ha.isMatch) (ha.best b hb.mem hb.isMatch)

theorem Best.overtakes_congr (ha : Best q table a) (hb : Best q table b) : Overtakes e a ↔ Overtakes e b := by
  obtain ⟨_, hx, hlen, hlev⟩ := rank_eq_iff.mp (ha.rank_eq hb)
  have hp : a.contextMatch = CONTEXT_MATCH_PREFIX ↔ b.contextMatch = CONTEXT_MATCH_PREFIX := by
    rcases ha.isMatch.context_cases with h₁ | h₁ <;> rcases hb.isMatch.context_cases with h₂ | h₂
    · rw [h₁, h₂]
    · exact absurd (hx.mp h₁) h₂.1
    · exact absurd (hx.mpr h₂) h₁.1
    · rw [h₁.2, h₂.2]
  rw [Overtakes, Overtakes, hp, hlen, hlev]

/-! ## when the choice follows the rules -/

/-- No entry for the message that is behind the preferred one in the index overtakes it. -/
def NotOvertaken (q : Query) (table : List AccessEntry) : Prop :=
  ∀ b, Best q table b → ∀ e ∈ table, Matches q e → indexCompare b.index e.index < 0 → ¬ Overtakes e b

/-- Entries for the message that the rules do not tell apart are alike. -/
def Alike (q : Query) (table : List AccessEntry) : Prop :=
  ∀ a b, Best q table a → Best q table b → a = b

theorem Best.perm {table' : List AccessEntry} (h : Best q table b) (hp : table'.Perm table) : Best q table' b :=
  ⟨hp.mem_iff.mpr h.mem, h.isMatch, fun e he => h.best e (hp.mem_iff.mp he)⟩

theorem NotOvertaken.perm {table' : List AccessEntry} (h : NotOvertaken q table) (hp : table'.Perm table) :
    NotOvertaken q table' :=
  fun b hb e he => h b (hb.perm hp.symm) e (hp.mem_iff.mp he)

theorem Follows.exists_some (h : Follows q table) (hb : Best q table b) :
    ∃ r, getAccessEntry q table = some r ∧ Best q table r := by
  cases hr : getAccessEntry q table with
  | none => exact absurd hb.isMatch (h.none_iff.mp hr b hb.mem)
  | some r => exact ⟨r, rfl, h.best r hr⟩

theorem ordered_exchange {t₁ t₂ t₃ : List AccessEntry} (ho : Ordered (t₁ ++ a :: (t₂ ++ b :: t₃)))
    (hi : a.index = b.index) : Ordered (t₁ ++ b :: (t₂ ++ a :: t₃)) := by
  rw [Ordered] at ho ⊢
  simp only [map_append, map_cons] at ho ⊢
  rw [← hi]
  rw [← hi] at ho
  exact ho

section Choice

variable (hg : q.groupName.length ≤ VACM_MAX_STRING) (hc : q.contextName.length ≤ VACM_MAX_STRING)
include hg hc

theorem getAccessEntry_none_iff : getAccessEntry q table = none ↔ ∀ e ∈ table, ¬ Matches q e := by
  rw [getAccessEntry_eq hg hc, Lib.foldl_choose_eq_none_iff, eq_nil_iff_forall_not_mem]
  constructor
  · exact fun h e he hm => h e ((mem_candidates hg hc).mpr ⟨he, hm⟩)
  · exact fun h e he => h e ((mem_candidates hg hc).mp he).1 ((mem_candidates hg hc).mp he).2

theorem exists_best (hne : ∃ e ∈ table, Matches q e) : ∃ b, Best q table b := by
  obtain ⟨e, he, hm⟩ := hne
  have hmem : e ∈ (candidates q table).toFinset := mem_toFinset.mpr ((mem_candidates hg hc).mpr ⟨he, hm⟩)
  obtain ⟨b, hb, hmax⟩ := (candidates q table).toFinset.exists_max_image rank ⟨e, hmem⟩
  obtain ⟨hbt, hbm⟩ := (mem_candidates hg hc).mp (mem_toFinset.mp hb)
  refine ⟨b, hbt, hbm, fun e' he' hm' => hmax e' ?_⟩
  exact mem_toFinset.mpr ((mem_candidates hg hc).mpr ⟨he', hm'⟩)

theorem getAccessEntry_first_best (ho : Ordered table) (hn : NotOvertaken q table) {t₁ t₂ : List AccessEntry}
    (ht : table = t₁ ++ b :: t₂) (hb : Best q table b) (hfirst : ∀ c ∈ t₁, ¬ Best q table c) :
    getAccessEntry q table = some b := by
  have hsel := (selects_iff hg hc b).mpr hb.isMatch
  rw [ordered_iff, ht, pairwise_append] at ho
  have hbehind : ∀ e ∈ t₂, indexCompare b.index e.index ≤ 0 := (pairwise_cons.mp ho.2.1).1
  rw [getAccessEntry_eq hg hc, candidates, ht, filter_append, filter_cons_of_pos hsel]
  have hmem₁ : ∀ c ∈ t₁.filter (selects q.groupName q.contextName q.securityModel q.securityLevel),
      c ∈ table ∧ c ∈ t₁ ∧ Matches q c := by
    intro c hc'
    obtain ⟨hct, hs⟩ := mem_filter.mp hc'
    exact ⟨ht ▸ mem_append_left _ hct, hct, (selects_iff hg hc c).mp hs⟩
  refine Lib.foldl_choose_first_best (s := rank) (fun c hc' => beats_of_rank_lt (hmem₁ c hc').2.2 hb.isMatch) ?_ ?_
  · intro c hc'
    obtain ⟨hct, hc₁, hcm⟩ := hmem₁ c hc'
    refine lt_of_le_of_ne (hb.best c hct hcm) fun heq => hfirst c hc₁ ⟨hct, hcm, ?_⟩
    rw [heq]
    exact hb.best
  · intro e he hbe
    obtain ⟨het, hs⟩ := mem_filter.mp he
    have hem := (selects_iff hg hc e).mp hs
    have hetab : e ∈ table := ht ▸ mem_append_right _ (mem_cons_of_mem b het)
    have hov := (hb.beats_iff hetab hem).mp hbe
    rcases lt_or_eq_of_le (hbehind e het) with hlt | heq
    · exact hn b hb e hetab hem hlt hov
    · exact hb.not_overtakes hetab hem (indexCompare_eq_zero.mp heq) hov

theorem exists_first_best (hne : ∃ e ∈ table, Matches q e) :
    ∃ t₁ b t₂, table = t₁ ++ b :: t₂ ∧ Best q table b ∧ ∀ c ∈ t₁, ¬ Best q table c := by
  classical
  obtain ⟨b, hb⟩ := exists_best hg hc hne
  cases hfind : table.find? fun e => Best q table e with
  | none => exact absurd hb (by simpa using find?_eq_none.mp hfind b hb.mem)
  | some r =>
    obtain ⟨hr, t₁, t₂, ht, hfirst⟩ := find?_eq_some_iff_append.mp hfind
    exact ⟨t₁, r, t₂, ht, by simpa using hr, fun c hc' => by simpa using hfirst c hc'⟩

theorem follows_of_notOvertaken (ho : Ordered table) (hn : NotOvertaken q table) (ha : Alike q table) :
    Follows q table := by
  have hbest : ∀ table', Ordered table' → table'.Perm table → ∀ e, getAccessEntry q table' = some e → Best q table e := by
    intro table' ho' hp e he
    have hne : ∃ e ∈ table', Matches q e := by
      by_contra hnone
      have h0 : getAccessEntry q table' = none :=
        (getAccessEntry_none_iff hg hc).mpr fun e he hm => hnone ⟨e, he, hm⟩
      rw [h0] at he
      exact absurd he (by simp)
    obtain ⟨t₁, b, t₂, ht, hb, hfirst⟩ := exists_first_best hg hc hne
    rw [getAccessEntry_first_best hg hc ho' (hn.perm hp) ht hb hfirst, Option.some.injEq] at he
    exact he ▸ hb.perm hp.symm
  refine ⟨getAccessEntry_none_iff hg hc, hbest table ho (List.Perm.refl table), ?_⟩
  intro table' hr hp
  cases h : getAccessEntry q table with
  | none =>
    rw [getAccessEntry_none_iff hg hc] at h ⊢
    exact fun e he => h e (hp.mem_iff.mp he)
  | some e =>
    cases h' : getAccessEntry q table' with
    | none =>
      have he := hbest table ho (List.Perm.refl table) e h
      exact absurd he.isMatch ((getAccessEntry_none_iff hg hc).mp h' e (hp.mem_iff.mpr he.mem))
    | some e' =>
      rw [ha e' e (hbest table' hr.ordered hp e' h') (hbest table ho (List.Perm.refl table) e h)]

theorem Follows.notOvertaken (h : Follows q table) (ho : Ordered table) : NotOvertaken q table := by
  intro b hb e he hm hlt hov
  obtain ⟨r, hr, hbest⟩ := h.exists_some hb
  have hidx := index_eq_of_rank_eq hbest.isMatch hb.isMatch (hbest.rank_eq hb)
  rw [getAccessEntry_eq hg hc] at hr
  obtain ⟨l₁, l₂, hl, hkeep⟩ := Lib.foldl_choose_split hr
  have hord : (candidates q table).Pairwise fun a b => indexCompare a.index b.index ≤ 0 :=
    (ordered_iff.mp ho).sublist filter_sublist
  have hmem : e ∈ candidates q table := (mem_candidates hg hc).mpr ⟨he, hm⟩
  rw [hl, pairwise_append] at hord
  rw [hl, mem_append, mem_cons] at hmem
  rcases hmem with h₁ | rfl | h₂
  · -- what is before the choice in the table is not behind it in the index
    have hle := hord.2.2 e h₁ r mem_cons_self
    rw [hidx] at hle
    exact absurd ((indexCompare_total.swap _ _).mp hlt) (not_lt.mpr hle)
  · rw [hidx, indexCompare_total.self] at hlt
    exact absurd hlt (lt_irrefl _)
  · exact hkeep e h₂ ((hbest.beats_iff he hm).mpr ((hbest.overtakes_congr hb).mpr hov))

theorem Follows.eq_first (h : Follows q table) (ho : Ordered table) {t₁ t₂ : List AccessEntry}
    (ht : table = t₁ ++ a :: t₂) (ha : Best q table a) (hfirst : ∀ c ∈ t₁, ¬ Best q table c) (hb : Best q table b) :
    b = a := by
  have hn := Follows.notOvertaken hg hc h ho
  have hga := getAccessEntry_first_best hg hc ho hn ht ha hfirst
  have hmem : b ∈ t₁ ++ a :: t₂ := ht ▸ hb.mem
  rcases mem_append.mp hmem with h₁ | h₁
  · exact absurd hb (hfirst b h₁)
  · rcases mem_cons.mp h₁ with h₂ | h₂
    · exact h₂
    · -- in the other order the second one is chosen
      obtain ⟨u, v, rfl⟩ := append_of_mem h₂
      have hidx := index_eq_of_rank_eq ha.isMatch hb.isMatch (ha.rank_eq hb)
      have ho' := ordered_exchange (ht ▸ ho) hidx
      have hp : (t₁ ++ b :: (u ++ a :: v)).Perm table := by
        rw [ht]
        refine List.Perm.append_left t₁ ?_
        calc (b :: (u ++ a :: v)).Perm (b :: a :: (u ++ v)) := List.Perm.cons b perm_middle
          _ |>.Perm (a :: b :: (u ++ v)) := List.Perm.swap a b _
          _ |>.Perm (a :: (u ++ b :: v)) := List.Perm.cons a perm_middle.symm
      have hgb := getAccessEntry_first_best hg hc ho' (hn.perm hp) rfl (hb.perm hp)
        fun c hc' hbest => hfirst c hc' (hbest.perm hp.symm)
      have hsame := h.order _ ho'.reachable hp
      rw [hga, hgb, Option.some.injEq] at hsame
      exact hsame

theorem Follows.alike (h : Follows q table) (ho : Ordered table) : Alike q table := by
  intro a b ha hb
  obtain ⟨t₁, r, t₂, ht, hr, hfirst⟩ := exists_first_best hg hc ⟨a, ha.mem, ha.isMatch⟩
  rw [Follows.eq_first hg hc h ho ht hr hfirst ha, Follows.eq_first hg hc h ho ht hr hfirst hb]

end Choice

/-- For every table that calls can leave and every message, the choice follows the rules if and only if no entry for
the message that is behind the preferred one in the index overtakes it, and entries that the rules do not tell apart
are alike. -/
theorem getAccessEntry_follows_iff {q : Query} {table : List AccessEntry} (hr : Reachable table)
    (hg : q.groupName.length ≤ VACM_MAX_STRING) (hc : q.contextName.length ≤ VACM_MAX_STRING) :
    Follows q table ↔ NotOvertaken q table ∧ Alike q table := by
  have ho := hr.ordered
  constructor
  · exact fun h => ⟨Follows.notOvertaken hg hc h ho, Follows.alike hg hc h ho⟩
  · exact fun h => follows_of_notOvertaken hg hc ho h.1 h.2

/-! ## an entry of any model in front -/

/-- The letter `g`, and `c`. -/
def groupG : Text := [103]

def contextC : Text := [99]

/-- An entry of model 3 for every context, and one of any model for the context `c` alone. -/
def overtakenOps : List Op :=
  [.create groupG [] 3 1, .fill 0 CONTEXT_MATCH_PREFIX 1 [], .create groupG contextC PRIOT_SEC_MODEL_ANY 1,
    .fill 1 CONTEXT_MATCH_EXACT 1 []]

def ownModel : AccessEntry :=
  ⟨⟨groupG, by decide⟩, ⟨[], Nat.zero_le _⟩, 3, 1, CONTEXT_MATCH_PREFIX, [], 1⟩

theorem getAccessEntry_not_follows :
    Reachable (overtakenOps.foldl Op.apply []) ∧
      ¬ Follows ⟨groupG, contextC, 3, 1⟩ (overtakenOps.foldl Op.apply []) := by
  refine ⟨⟨_, rfl⟩, fun h => ?_⟩
  have hown : ownModel ∈ overtakenOps.foldl Op.apply [] := by decide
  have hmatch : Matches ⟨groupG, contextC, 3, 1⟩ ownModel :=
    (selects_iff (q := ⟨groupG, contextC, 3, 1⟩) (by decide) (by decide) ownModel).mp (by decide)
  obtain ⟨r, hr⟩ : ∃ r, getAccessEntry ⟨groupG, contextC, 3, 1⟩ (overtakenOps.foldl Op.apply []) = some r ∧
      r.securityModel = PRIOT_SEC_MODEL_ANY := ⟨_, rfl, rfl⟩
  have hlt : rank r < rank ownModel := rank_lt_iff.mpr (.inl ⟨hr.2, by decide⟩)
  exact absurd ((h.best r hr.1).best ownModel hown hmatch) (not_le.mpr hlt)

theorem getAccessEntry_follows_iff_two :
    Follows ⟨groupG, contextC, 3, 1⟩ (overtakenOps.foldl Op.apply []) ↔
      NotOvertaken ⟨groupG, contextC, 3, 1⟩ (overtakenOps.foldl Op.apply []) ∧
        Alike ⟨groupG, contextC, 3, 1⟩ (overtakenOps.foldl Op.apply []) :=
  getAccessEntry_follows_iff ⟨_, rfl⟩ (by decide) (by decide)

end Priot.AccessControl
