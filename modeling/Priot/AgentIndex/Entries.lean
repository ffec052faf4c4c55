/-
# The entries of the index registry

One row for each OID, in order, and the values in a row in order. What an edit of one entry does to the order and to
what is allocated, apart from the links in memory.
-/
import Priot.AgentIndex.Index
import Mathlib.Data.List.Pairwise

namespace Priot.AgentIndex

open Lib List

variable {L L' A B : List (List Index)} {row pre post : List Index} {e e' : Index} {n name : ObjId}
  {v value : IndexValue} {t ss : Option Ptr}

/-! ## order -/

/-- The entries of one OID, with the values strictly in order. -/
structure RowOrdered (row : List Index) : Prop where
  values : row.Pairwise fun e e' => e.name = e'.name ∧ e.value.Below e'.value
  range : ∀ e ∈ row, e.value.InRange

/-- The rows are ordered, and so is each of them. -/
structure Ordered (L : List (List Index)) : Prop where
  names : L.Pairwise fun r r' => ∀ e ∈ r, ∀ e' ∈ r', e.name < e'.name
  rows : ∀ row ∈ L, RowOrdered row

theorem ordered_middle : Ordered (A ++ row :: B) ↔ Ordered (A ++ B) ∧ RowOrdered row ∧
    (∀ r ∈ A, ∀ e ∈ r, ∀ e' ∈ row, e.name < e'.name) ∧ ∀ r ∈ B, ∀ e' ∈ row, ∀ e ∈ r, e'.name < e.name := by
  constructor
  · rintro ⟨hnames, hrows⟩
    rw [pairwise_append, pairwise_cons] at hnames
    obtain ⟨hA, ⟨hrow, hB⟩, hAB⟩ := hnames
    refine ⟨⟨pairwise_append.mpr ⟨hA, hB, ?_⟩, ?_⟩, ?_, ?_, ?_⟩
    · exact fun r hr r' hr' => hAB r hr r' (mem_cons_of_mem _ hr')
    · exact fun r hr => hrows r (by simp at hr ⊢; tauto)
    · exact hrows row (by simp)
    · exact fun r hr => hAB r hr row mem_cons_self
    · exact fun r hr => hrow r hr
  · rintro ⟨⟨hnames, hrows⟩, hrow, hA, hB⟩
    obtain ⟨hA', hB', hAB⟩ := pairwise_append.mp hnames
    refine ⟨pairwise_append.mpr ⟨hA', pairwise_cons.mpr ⟨hB, hB'⟩, ?_⟩, ?_⟩
    · intro r hr r' hr'
      rcases mem_cons.mp hr' with rfl | hr'
      · exact hA r hr
      · exact hAB r hr r' hr'
    · intro r hr
      simp only [mem_append, mem_cons] at hr
      rcases hr with hr | rfl | hr
      · exact hrows r (mem_append_left _ hr)
      · exact hrow
      · exact hrows r (mem_append_right _ hr)

theorem rowOrdered_middle : RowOrdered (pre ++ e :: post) ↔ RowOrdered (pre ++ post) ∧ e.value.InRange ∧
    (∀ x ∈ pre, x.name = e.name ∧ x.value.Below e.value) ∧ ∀ x ∈ post, e.name = x.name ∧ e.value.Below x.value := by
  constructor
  · rintro ⟨hvalues, hrange⟩
    rw [pairwise_append, pairwise_cons] at hvalues
    obtain ⟨hpre, ⟨he, hpost⟩, hboth⟩ := hvalues
    refine ⟨⟨pairwise_append.mpr ⟨hpre, hpost, ?_⟩, ?_⟩, hrange e (by simp), ?_, he⟩
    · exact fun x hx y hy => hboth x hx y (mem_cons_of_mem _ hy)
    · exact fun x hx => hrange x (by simp at hx ⊢; tauto)
    · exact fun x hx => hboth x hx e mem_cons_self
  · rintro ⟨⟨hvalues, hrange⟩, he, hpre, hpost⟩
    obtain ⟨hpre', hpost', hboth⟩ := pairwise_append.mp hvalues
    refine ⟨pairwise_append.mpr ⟨hpre', pairwise_cons.mpr ⟨hpost, hpost'⟩, ?_⟩, ?_⟩
    · intro x hx y hy
      rcases mem_cons.mp hy with rfl | hy
      · exact hpre x hx
      · exact hboth x hx y hy
    · intro x hx
      simp only [mem_append, mem_cons] at hx
      rcases hx with hx | rfl | hx
      · exact hrange x (mem_append_left _ hx)
      · exact he
      · exact hrange x (mem_append_right _ hx)

theorem rowOrdered_nil : RowOrdered [] := ⟨List.Pairwise.nil, fun _ he => absurd he not_mem_nil⟩

theorem RowOrdered.alike (h : RowOrdered row) (he : e ∈ row) (he' : e' ∈ row) :
    e.name = e'.name ∧ e.value.type = e'.value.type := by
  obtain ⟨pre, post, rfl⟩ := append_of_mem he
  obtain ⟨-, -, hpre, hpost⟩ := rowOrdered_middle.mp h
  simp only [mem_append, mem_cons] at he'
  rcases he' with he' | rfl | he'
  · exact ⟨(hpre e' he').1.symm, (below_type_eq (hpre e' he').2).symm⟩
  · exact ⟨rfl, rfl⟩
  · exact ⟨(hpost e' he').1, below_type_eq (hpost e' he').2⟩

theorem Ordered.replace (h : Ordered (A ++ (pre ++ e :: post) :: B)) (hname : e'.name = e.name)
    (hvalue : e'.value = e.value) : Ordered (A ++ (pre ++ e' :: post) :: B) := by
  rw [ordered_middle, rowOrdered_middle] at h ⊢
  simp only [mem_append, mem_cons] at h ⊢
  rw [hvalue, hname]
  obtain ⟨hAB, hrow, hA, hB⟩ := h
  refine ⟨hAB, hrow, fun r hr x hx y hy => ?_, fun r hr y hy x hx => ?_⟩
  · rcases hy with hy | rfl | hy
    · exact hA r hr x hx y (.inl hy)
    · rw [hname]
      exact hA r hr x hx e (.inr (.inl rfl))
    · exact hA r hr x hx y (.inr (.inr hy))
  · rcases hy with hy | rfl | hy
    · exact hB r hr y (.inl hy) x hx
    · rw [hname]
      exact hB r hr e (.inr (.inl rfl)) x hx
    · exact hB r hr y (.inr (.inr hy)) x hx

theorem Ordered.remove (h : Ordered (A ++ (pre ++ e :: post) :: B)) : Ordered (A ++ (pre ++ post) :: B) := by
  rw [ordered_middle, rowOrdered_middle] at h
  obtain ⟨hAB, hrow, hA, hB⟩ := h
  have hmem : ∀ x ∈ pre ++ post, x ∈ pre ++ e :: post := fun x hx => by simp at hx ⊢; tauto
  exact ordered_middle.mpr ⟨hAB, hrow.1, fun r hr x hx y hy => hA r hr x hx y (hmem y hy),
    fun r hr y hy x hx => hB r hr y (hmem y hy) x hx⟩

theorem Ordered.insert (h : Ordered (A ++ (pre ++ post) :: B)) (he : e.value.InRange)
    (hA : ∀ r ∈ A, ∀ x ∈ r, x.name < e.name) (hB : ∀ r ∈ B, ∀ x ∈ r, e.name < x.name)
    (hpre : ∀ x ∈ pre, x.name = e.name ∧ x.value.Below e.value)
    (hpost : ∀ x ∈ post, e.name = x.name ∧ e.value.Below x.value) : Ordered (A ++ (pre ++ e :: post) :: B) := by
  obtain ⟨hAB, hrow, hA', hB'⟩ := ordered_middle.mp h
  refine ordered_middle.mpr ⟨hAB, rowOrdered_middle.mpr ⟨hrow, he, hpre, hpost⟩, fun r hr x hx y hy => ?_,
    fun r hr y hy x hx => ?_⟩
  · simp only [mem_append, mem_cons] at hy
    rcases hy with hy | rfl | hy
    · exact hA' r hr x hx y (mem_append_left _ hy)
    · exact hA r hr x hx
    · exact hA' r hr x hx y (mem_append_right _ hy)
  · simp only [mem_append, mem_cons] at hy
    rcases hy with hy | rfl | hy
    · exact hB' r hr y (mem_append_left _ hy) x hx
    · exact hB r hr x hx
    · exact hB' r hr y (mem_append_right _ hy) x hx

theorem ordered_empty_row : Ordered (A ++ [] :: B) ↔ Ordered (A ++ B) := by
  rw [ordered_middle]
  constructor
  · exact And.left
  · exact fun h => ⟨h, rowOrdered_nil, fun _ _ _ _ _ hy => absurd hy not_mem_nil,
      fun _ _ _ hy => absurd hy not_mem_nil⟩

/-! ## what is allocated -/

/-- The value of the OID is allocated to the session. -/
def Held (L : List (List Index)) (n : ObjId) (v : IndexValue) (t : Option Ptr) : Prop :=
  ∃ e ∈ L.flatten, e.name = n ∧ e.value = v ∧ e.allocated = true ∧ e.session = t

/-- A value that nobody held is allocated, and nothing else changes. -/
def Granted (L L' : List (List Index)) (name : ObjId) (value : IndexValue) (ss : Option Ptr) : Prop :=
  (∀ t, ¬ Held L name value t) ∧
  ∀ n v t, Held L' n v t ↔ Held L n v t ∨ n = name ∧ v = value ∧ t = ss

/-- A value that the session held is given back, and nothing else changes. -/
def Freed (L L' : List (List Index)) (name : ObjId) (value : IndexValue) (ss : Option Ptr) : Prop :=
  Held L name value ss ∧ ∀ n v t, Held L' n v t ↔ Held L n v t ∧ ¬ (n = name ∧ v = value)

/-- No value of an OID has two entries. -/
def Exclusive (L : List (List Index)) : Prop :=
  L.flatten.Pairwise fun e e' => ¬ (e.name = e'.name ∧ e.value = e'.value)

theorem Ordered.exclusive (h : Ordered L) : Exclusive L := by
  rw [Exclusive, pairwise_flatten]
  constructor
  · intro row hrow
    refine (h.rows row hrow).values.imp ?_
    rintro e e' ⟨-, hbelow⟩ ⟨-, heq⟩
    exact below_irrefl _ (heq ▸ hbelow)
  · refine h.names.imp ?_
    intro r r' hlt e he e' he' heq
    exact Std.lt_irrefl (heq.1 ▸ hlt e he e' he')

theorem mem_flatten_middle {x : Index} :
    x ∈ (A ++ (pre ++ e :: post) :: B).flatten ↔ x = e ∨ x ∈ (A ++ (pre ++ post) :: B).flatten := by
  simp only [flatten_append, flatten_cons, mem_append, mem_cons]
  tauto

theorem Ordered.others (h : Ordered (A ++ (pre ++ e :: post) :: B)) {x : Index}
    (hx : x ∈ (A ++ (pre ++ post) :: B).flatten) : ¬ (x.name = e.name ∧ x.value = e.value) := by
  have hex := h.exclusive
  -- the list falls into what is before the entry and what is behind it
  have hnorm : (A ++ (pre ++ e :: post) :: B).flatten = (A.flatten ++ pre) ++ e :: (post ++ B.flatten) := by simp
  rw [Exclusive, hnorm, pairwise_append, pairwise_cons] at hex
  obtain ⟨-, ⟨hafter, -⟩, hbefore⟩ := hex
  rw [flatten_append, flatten_cons, append_assoc] at hx
  simp only [mem_append] at hx
  rintro ⟨hn, hv⟩
  rcases hx with hx | hx | hx | hx
  · exact hbefore x (mem_append_left _ hx) e mem_cons_self ⟨hn, hv⟩
  · exact hbefore x (mem_append_right _ hx) e mem_cons_self ⟨hn, hv⟩
  · exact hafter x (mem_append_left _ hx) ⟨hn.symm, hv.symm⟩
  · exact hafter x (mem_append_right _ hx) ⟨hn.symm, hv.symm⟩

theorem held_middle : Held (A ++ (pre ++ e :: post) :: B) n v t ↔
    Held (A ++ (pre ++ post) :: B) n v t ∨ (e.name = n ∧ e.value = v ∧ e.allocated = true ∧ e.session = t) := by
  simp only [Held, mem_flatten_middle]
  constructor
  · rintro ⟨x, rfl | hx, hx'⟩
    · exact .inr hx'
    · exact .inl ⟨x, hx, hx'⟩
  · rintro (⟨x, hx, hx'⟩ | he)
    · exact ⟨x, .inr hx, hx'⟩
    · exact ⟨e, .inl rfl, he⟩

theorem Ordered.not_held (h : Ordered (A ++ (pre ++ e :: post) :: B)) :
    ¬ Held (A ++ (pre ++ post) :: B) e.name e.value t := by
  rintro ⟨x, hx, hn, hv, -⟩
  exact h.others hx ⟨hn, hv⟩

theorem granted_middle (h : Ordered (A ++ (pre ++ e :: post) :: B)) (hall : e.allocated = true)
    (hL : ∀ n v t, Held L n v t ↔ Held (A ++ (pre ++ post) :: B) n v t) :
    Granted L (A ++ (pre ++ e :: post) :: B) e.name e.value e.session := by
  constructor
  · intro t
    rw [hL]
    exact h.not_held
  · intro n v t
    rw [held_middle, hL]
    simp only [hall, true_and, eq_comm (a := n), eq_comm (a := v), eq_comm (a := t)]

theorem freed_middle (h : Ordered (A ++ (pre ++ e :: post) :: B)) (hall : e.allocated = true)
    (hL : ∀ n v t, Held L n v t ↔ Held (A ++ (pre ++ post) :: B) n v t) :
    Freed (A ++ (pre ++ e :: post) :: B) L e.name e.value e.session := by
  refine ⟨held_middle.mpr (.inr ⟨rfl, rfl, hall, rfl⟩), fun n v t => ?_⟩
  rw [hL, held_middle]
  constructor
  · intro hheld
    refine ⟨.inl hheld, ?_⟩
    rintro ⟨rfl, rfl⟩
    exact h.not_held hheld
  · rintro ⟨hheld | ⟨rfl, rfl, -⟩, hne⟩
    · exact hheld
    · exact absurd ⟨rfl, rfl⟩ hne

theorem held_unallocated (h : e.allocated = false) :
    Held (A ++ (pre ++ e :: post) :: B) n v t ↔ Held (A ++ (pre ++ post) :: B) n v t := by
  rw [held_middle, h]
  simp

theorem held_disown : Held (L.map (·.map (disown ss))) n v t ↔ Held L n v t ∧ t ≠ ss := by
  simp only [Held, ← map_flatten, mem_map]
  constructor
  · rintro ⟨_, ⟨e, he, rfl⟩, hn, hv, hall, ht⟩
    by_cases hs : e.session = ss
    · rw [disown, if_pos hs] at hall
      exact absurd hall Bool.false_ne_true
    · rw [disown, if_neg hs] at hn hv hall ht
      exact ⟨⟨e, he, hn, hv, hall, ht⟩, ht ▸ hs⟩
  · rintro ⟨⟨e, he, hn, hv, hall, ht⟩, hne⟩
    refine ⟨e, ⟨e, he, ?_⟩, hn, hv, hall, ht⟩
    rw [disown, if_neg (ht ▸ hne)]

theorem disown_name (ss : Option Ptr) (e : Index) : (disown ss e).name = e.name ∧ (disown ss e).value = e.value := by
  unfold disown
  split <;> exact ⟨rfl, rfl⟩

theorem Ordered.disown (h : Ordered L) (ss : Option Ptr) : Ordered (L.map (·.map (disown ss))) := by
  constructor
  · refine pairwise_map.mpr (h.names.imp ?_)
    intro r r' hlt x hx x' hx'
    obtain ⟨e, he, rfl⟩ := mem_map.mp hx
    obtain ⟨e', he', rfl⟩ := mem_map.mp hx'
    rw [(disown_name ss e).1, (disown_name ss e').1]
    exact hlt e he e' he'
  · intro row' hrow'
    obtain ⟨row, hrow, rfl⟩ := mem_map.mp hrow'
    refine ⟨pairwise_map.mpr ((h.rows row hrow).values.imp ?_), ?_⟩
    · intro e e' hlt
      rw [(disown_name ss e).1, (disown_name ss e').1, (disown_name ss e).2, (disown_name ss e').2]
      exact hlt
    · intro x hx
      obtain ⟨e, he, rfl⟩ := mem_map.mp hx
      rw [(disown_name ss e).2]
      exact (h.rows row hrow).range e he

/-! ## the registry as a map -/

def Index.key (e : Index) : VarBind := ⟨e.name, e.value⟩

/-- The entry of an OID and value. -/
def look (L : List (List Index)) (k : VarBind) : Option Index := L.flatten.find? fun e => e.key = k

/-- In front of, by the OIDs and then by the values. -/
def Before (e e' : Index) : Prop := e.name < e'.name ∨ e.name = e'.name ∧ e.value.Below e'.value

theorem Before.trans {e'' : Index} (h : Before e e') (h' : Before e' e'') : Before e e'' := by
  rcases h with hn | ⟨hn, hv⟩ <;> rcases h' with hn' | ⟨hn', hv'⟩
  · exact .inl (Std.lt_trans hn hn')
  · exact .inl (hn' ▸ hn)
  · exact .inl (hn ▸ hn')
  · exact .inr ⟨hn.trans hn', below_trans hv hv'⟩

theorem Before.irrefl (e : Index) : ¬ Before e e := by
  rintro (hn | ⟨-, hv⟩)
  · exact Std.lt_irrefl hn
  · exact below_irrefl _ hv

theorem Ordered.pairwise (h : Ordered L) : L.flatten.Pairwise Before := by
  rw [pairwise_flatten]
  constructor
  · intro row hrow
    exact (h.rows row hrow).values.imp .inr
  · refine h.names.imp ?_
    intro r r' hlt e he e' he'
    exact .inl (hlt e he e' he')

theorem Ordered.before_or (h : Ordered L) (he : e ∈ L.flatten) (he' : e' ∈ L.flatten) (hne : e ≠ e') :
    Before e e' ∨ Before e' e := by
  have hsymm : Std.Symm fun x y : Index => Before x y ∨ Before y x := ⟨fun _ _ => Or.symm⟩
  exact (h.pairwise.imp .inl : L.flatten.Pairwise fun x y => Before x y ∨ Before y x).forall he he' hne

theorem Ordered.eq_of_key (h : Ordered L) (he : e ∈ L.flatten) (he' : e' ∈ L.flatten) (hkey : e.key = e'.key) :
    e = e' := by
  obtain ⟨hn, hv⟩ := VarBind.mk.inj hkey
  by_contra hne
  rcases h.before_or he he' hne with (hlt | ⟨-, hlt⟩) | (hlt | ⟨-, hlt⟩)
  · exact Std.lt_irrefl (hn ▸ hlt)
  · exact below_irrefl _ (hv ▸ hlt)
  · exact Std.lt_irrefl (hn ▸ hlt)
  · exact below_irrefl _ (hv ▸ hlt)

theorem Ordered.look_eq_some {k : VarBind} (h : Ordered L) : look L k = some e ↔ e ∈ L.flatten ∧ e.key = k := by
  constructor
  · intro hlook
    refine ⟨mem_of_find?_eq_some hlook, ?_⟩
    have hkey : decide (e.key = k) = true := find?_some (p := fun e : Index => decide (e.key = k)) hlook
    exact of_decide_eq_true hkey
  · rintro ⟨he, rfl⟩
    cases hlook : look L e.key with
    | none => exact absurd rfl (of_decide_eq_false (Bool.not_eq_true _ ▸ find?_eq_none.1 hlook e he))
    | some e' =>
      have hkey : decide (e'.key = e.key) = true := find?_some (p := fun x : Index => decide (x.key = e.key)) hlook
      rw [h.eq_of_key (mem_of_find?_eq_some hlook) he (of_decide_eq_true hkey)]

theorem look_eq_none {k : VarBind} : look L k = none ↔ ∀ e ∈ L.flatten, e.key ≠ k := by
  rw [look, find?_eq_none]
  simp only [decide_eq_true_eq, ne_eq]

theorem Ordered.look_middle (h : Ordered (A ++ (pre ++ e :: post) :: B)) :
    look (A ++ (pre ++ e :: post) :: B) = Function.update (look (A ++ (pre ++ post) :: B)) e.key (some e) ∧
      look (A ++ (pre ++ post) :: B) e.key = none := by
  constructor
  · funext k
    by_cases hk : k = e.key
    · rw [hk, Function.update_self]
      exact h.look_eq_some.2 ⟨mem_flatten_middle.2 (.inl rfl), rfl⟩
    · rw [Function.update_of_ne hk]
      refine Option.ext fun x => ?_
      rw [h.look_eq_some, h.remove.look_eq_some, mem_flatten_middle]
      constructor
      · rintro ⟨rfl | hx, hkey⟩
        · exact absurd hkey.symm hk
        · exact ⟨hx, hkey⟩
      · rintro ⟨hx, hkey⟩
        exact ⟨.inr hx, hkey⟩
  · rw [look_eq_none]
    intro x hx hkey
    exact h.others hx (VarBind.mk.inj hkey)

theorem Ordered.takeWhile_name (h : Ordered (row :: L)) (he : e ∈ row) :
    (row :: L).flatten.takeWhile (·.name = e.name) = row := by
  have hrow : ∀ x ∈ row, decide (x.name = e.name) = true := fun x hx =>
    decide_eq_true ((h.rows row mem_cons_self).alike hx he).1
  rw [flatten_cons, takeWhile_append_of_pos hrow]
  cases hrest : L.flatten with
  | nil => rw [takeWhile_nil, append_nil]
  | cons x xs =>
    obtain ⟨r, hr, hx⟩ := mem_flatten.1 (hrest ▸ mem_cons_self : x ∈ L.flatten)
    -- the rows behind are of greater OIDs
    have hlt : e.name < x.name := (pairwise_cons.1 h.names).1 r hr e he x hx
    have hne : x.name ≠ e.name := fun heq => Std.lt_irrefl (heq ▸ hlt)
    rw [takeWhile_cons, decide_eq_false hne, if_neg Bool.false_ne_true, append_nil]

theorem Ordered.ext_flatten (h : Ordered L) (h' : Ordered L') (hne : ∀ r ∈ L, r ≠ []) (hne' : ∀ r ∈ L', r ≠ [])
    (hflat : L.flatten = L'.flatten) : L = L' := by
  induction L generalizing L' with
  | nil =>
    cases L' with
    | nil => rfl
    | cons r' L' =>
      have hnil : r' = [] := (append_eq_nil_iff.1 hflat.symm).1
      exact absurd hnil (hne' r' mem_cons_self)
  | cons r L ih =>
    cases L' with
    | nil => exact absurd (append_eq_nil_iff.1 hflat).1 (hne r mem_cons_self)
    | cons r' L' =>
      obtain ⟨e, t, rfl⟩ := exists_cons_of_ne_nil (hne r mem_cons_self)
      obtain ⟨e', t', rfl⟩ := exists_cons_of_ne_nil (hne' r' mem_cons_self)
      -- both first rows begin with the same entry, so that both are what has its OID
      have hfirst : e = e' := (List.cons.inj hflat).1
      subst hfirst
      have hrow : e :: t = e :: t' := by
        rw [← h.takeWhile_name mem_cons_self, hflat, h'.takeWhile_name mem_cons_self]
      rw [hrow] at hflat ⊢
      rw [flatten_cons, flatten_cons] at hflat
      have hrest := ih ⟨(pairwise_cons.1 h.names).2, fun r hr => h.rows r (mem_cons_of_mem _ hr)⟩
        ⟨(pairwise_cons.1 h'.names).2, fun r hr => h'.rows r (mem_cons_of_mem _ hr)⟩
        (fun r hr => hne r (mem_cons_of_mem _ hr)) (fun r hr => hne' r (mem_cons_of_mem _ hr))
        (append_cancel_left hflat)
      rw [hrest]

theorem Ordered.ext_look (h : Ordered L) (h' : Ordered L') (hne : ∀ r ∈ L, r ≠ []) (hne' : ∀ r ∈ L', r ≠ [])
    (hlook : look L = look L') : L = L' := by
  -- each entry is found by its own key
  have hmem (x : Index) : x ∈ L.flatten ↔ x ∈ L'.flatten := by
    have hfound := (h.look_eq_some (k := x.key)).symm.trans (hlook ▸ h'.look_eq_some (e := x))
    rw [and_iff_left rfl, and_iff_left rfl] at hfound
    exact hfound
  have hnodup {M : List (List Index)} (hM : Ordered M) : M.flatten.Nodup := by
    refine hM.pairwise.imp ?_
    rintro a b hbefore rfl
    exact Before.irrefl a hbefore
  have hperm : L.flatten.Perm L'.flatten := (perm_ext_iff_of_nodup (hnodup h) (hnodup h')).2 hmem
  refine h.ext_flatten h' hne hne' (hperm.eq_of_pairwise ?_ h.pairwise h'.pairwise)
  exact fun a b _ _ hab hba => absurd (hab.trans hba) (Before.irrefl a)

end Priot.AgentIndex
