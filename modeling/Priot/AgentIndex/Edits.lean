/-
# Requests as edits of the index registry

A registration claims an entry that is there or makes one where its value belongs, and a release or removal gives one
up.
-/
import Priot.AgentIndex.Search

namespace Priot.AgentIndex

open Lib List

variable {s s' : IndexRegistry} {rows A B : List Items} {pre post : Items} {p : Ptr} {e e' : Index} {r : Sought}
  {varbind : VarBind} {flags : Flags} {ss : Option Ptr} {w : IndexValue} {L L' : List (List Index)}

/-! ## edits in memory -/

theorem Listed.setAllocated_spec (h : Listed s (A ++ (pre ++ (p, e) :: post) :: B)) (allocated : Bool)
    (ss : Option Ptr) :
    ∃ s', setAllocated s p allocated ss = some ({ e with allocated := allocated, session := ss }, s') ∧
      Listed s' (A ++ (pre ++ (p, { e with allocated := allocated, session := ss }) :: post) :: B) := by
  obtain ⟨d, hp, -⟩ := h.linked.cell
  refine ⟨_, by rw [setAllocated, hp]; rfl, h.linked.setData hp _, ?_⟩
  have hord := h.ordered
  rw [data_middle] at hord ⊢
  exact hord.replace rfl rfl

theorem Listed.createIndex_row (h : Listed s (A ++ (pre ++ post) :: B))
    (hfound : OidFound varbind.name A ((pre ++ post) :: B) r) (hres : r.res = 0)
    (hvalue : newValue s varbind flags (pre.getLast?.map Prod.fst) = some w)
    (hord : Ordered (data A ++ (pre.map Prod.snd ++ ⟨varbind.name, w, true, ss⟩ :: post.map Prod.snd) :: data B)) :
    ∃ s', createIndex s varbind flags ss r (pre.getLast?.map Prod.fst) = some (some w, s') ∧
      Listed s' (A ++ (pre ++ (s.brk, ⟨varbind.name, w, true, ss⟩) :: post) :: B) := by
  rw [← data_middle A B pre post s.brk] at hord
  rcases eq_nil_or_concat pre with rfl | ⟨pre, y, rfl⟩
  · obtain ⟨y, post, rfl⟩ := exists_cons_of_ne_nil h.linked.segment.1
    have hlinked : Rows s.heap s.indexHead s.brk (A ++ ([] ++ (y.1, y.2) :: post) :: B) := h.linked
    obtain ⟨d, hy, -⟩ := hlinked.cell
    obtain ⟨heap, head, hredirect, hrows⟩ := Rows.pushFront h.linked hy ⟨varbind.name, w, true, ss⟩ (Nat.le_refl _)
    have hptr : r.ptr = some y.1 := hfound.ptr_eq
    rw [← hfound.prev_eq] at hredirect
    refine ⟨⟨heap, s.brk + 1, head⟩, ?_, hrows, hord⟩
    rw [createIndex, hvalue]
    simp only [getLast?_nil, Option.map_none, hptr, hres, if_pos, Option.bind_eq_bind, Option.bind_some, hy]
    rw [hredirect]
    rfl
  · obtain ⟨q, x⟩ := y
    rw [concat_eq_append] at *
    have happ : ∀ l : Items, (pre ++ [(q, x)]) ++ l = pre ++ (q, x) :: l := fun l => by simp
    have hlinked := h.linked
    rw [happ] at hlinked
    obtain ⟨d, hq, -⟩ := Rows.cell hlinked
    have hrows := hlinked.pushAfter hq ⟨varbind.name, w, true, ss⟩
    rw [← happ] at hrows
    refine ⟨⟨_, s.brk + 1, s.indexHead⟩, ?_, hrows, hord⟩
    have hlast : ((pre ++ [(q, x)]).getLast?).map Prod.fst = some q := by simp
    rw [createIndex, hvalue]
    simp only [hlast, Option.bind_eq_bind, Option.bind_some, hq]
    rfl

theorem Listed.createIndex_new (h : Listed s (A ++ B)) (hfound : OidFound varbind.name A B r) (hres : r.res ≠ 0)
    (hvalue : newValue s varbind flags none = some w)
    (hord : Ordered (data A ++ [⟨varbind.name, w, true, ss⟩] :: data B)) :
    ∃ s', createIndex s varbind flags ss r none = some (some w, s') ∧
      Listed s' (A ++ [(s.brk, ⟨varbind.name, w, true, ss⟩)] :: B) := by
  obtain ⟨heap, head, hredirect, hrows⟩ := h.linked.pushRow ⟨varbind.name, w, true, ss⟩ (Nat.le_refl _)
  rw [← hfound.prev_eq, ← hfound.ptr_eq] at hredirect
  refine ⟨⟨heap, s.brk + 1, head⟩, ?_, hrows, ?_⟩
  · rw [createIndex, hvalue]
    cases hptr : r.ptr with
    | none =>
      rw [hptr] at hredirect
      simp only [Option.bind_eq_bind, Option.bind_some]
      rw [hredirect]
      rfl
    | some idxptr =>
      rw [hptr] at hredirect
      simp only [Option.bind_eq_bind, Option.bind_some, hres, if_false]
      rw [hredirect]
      rfl
  · rw [data_append]
    exact hord

/-! ## what the requests do -/

/-- The entries of an OID, in order. -/
def entriesOf (L : List (List Index)) (name : ObjId) : List Index := L.flatten.filter (·.name = name)

/-- The value is of the type that the OID has, if it has any. -/
def Fits (L : List (List Index)) (varbind : VarBind) : Prop :=
  ∀ e ∈ entriesOf L varbind.name, varbind.value.type = e.value.type

/-- What a registration answers, and what it leaves behind. -/
structure Registered (L L' : List (List Index)) (varbind : VarBind) (flags : Flags) (ss : Option Ptr)
    (rv : Option IndexValue) : Prop where
  granted : ∀ w, rv = some w → Granted L L' varbind.name w ss
  refused : rv = none → ∀ n v t, Held L' n v t ↔ Held L n v t
  this_exact : flags = .allocateThisIndex → ∀ w, rv = some w → w = varbind.value
  this_iff : flags = .allocateThisIndex → Fits L varbind →
    (rv.isSome ↔ ∀ t, ¬ Held L varbind.name varbind.value t)
  other : flags ≠ .allocateThisIndex → Fits L varbind → rv.isSome

/-- What a release or a removal answers, and what it leaves behind. -/
def Unregistered (L L' : List (List Index)) (varbind : VarBind) (ss : Option Ptr) (rc : Int) : Prop :=
  rc = PRIOT_ERR_NOERROR ∧ Freed L L' varbind.name varbind.value ss ∨
  rc ≠ PRIOT_ERR_NOERROR ∧ ¬ Held L varbind.name varbind.value ss ∧ ∀ n v t, Held L' n v t ↔ Held L n v t

/-- A request for one value does not run into a text that goes on where the other ends, nor does a request for any
value come where the last one cannot be counted up. -/
def Serves (L : List (List Index)) (varbind : VarBind) : Flags → Prop
  | .allocateThisIndex => varbind.value.Requested ∧ ∀ e ∈ entriesOf L varbind.name, ¬ varbind.value.Extends e.value
  | .allocateAnyIndex => (∀ e ∈ entriesOf L varbind.name, e.allocated = true) →
    ∀ e ∈ (entriesOf L varbind.name).getLast?, e.value.CountsUp
  | .allocateNewIndex => ∀ e ∈ (entriesOf L varbind.name).getLast?, e.value.CountsUp

theorem entriesOf_found (hfound : OidFound varbind.name A B r) {row : Items} {B' : List Items}
    (hB : B = row :: B') (hrow : ∀ e ∈ row.map Prod.snd, e.name = varbind.name)
    (hB' : ∀ row ∈ data B', ∀ e ∈ row, varbind.name < e.name) :
    entriesOf (data (A ++ B)) varbind.name = row.map Prod.snd := by
  subst hB
  have hA : (data A).flatten.filter (·.name = varbind.name) = [] := by
    refine filter_eq_nil_iff.mpr fun e he => ?_
    obtain ⟨row, hrow, he⟩ := mem_flatten.mp he
    have hlt := hfound.before row hrow e he
    rw [decide_eq_true_iff]
    exact fun heq => Std.lt_irrefl (heq ▸ hlt)
  have hB : (data B').flatten.filter (·.name = varbind.name) = [] := by
    refine filter_eq_nil_iff.mpr fun e he => ?_
    obtain ⟨row, hrow, he⟩ := mem_flatten.mp he
    have hlt := hB' row hrow e he
    rw [decide_eq_true_iff]
    exact fun heq => Std.lt_irrefl (heq ▸ hlt)
  have hdata : data (A ++ row :: B') = data A ++ row.map Prod.snd :: data B' := data_append _ _
  rw [entriesOf, hdata, flatten_append, flatten_cons, filter_append, filter_append, hA, hB,
    nil_append, append_nil, filter_eq_self.mpr fun e he => decide_eq_true (hrow e he)]

theorem not_held_of_entries {name : ObjId} {v : IndexValue} (h : ∀ e ∈ entriesOf L name, e.value ≠ v) (t : Option Ptr) :
    ¬ Held L name v t := by
  rintro ⟨e, he, hn, hv, -⟩
  exact h e (mem_filter.mpr ⟨he, decide_eq_true hn⟩) hv

theorem registered_of_granted (hg : Granted L L' varbind.name w ss)
    (hthis : flags = .allocateThisIndex → w = varbind.value) : Registered L L' varbind flags ss (some w) := by
  constructor
  · rintro w' ⟨rfl⟩
    exact hg
  · exact fun h => absurd h (by simp)
  · rintro hflags w' ⟨rfl⟩
    exact hthis hflags
  · intro hflags _
    rw [← hthis hflags]
    exact iff_of_true rfl hg.1
  · exact fun _ _ => rfl

theorem registered_none
    (hthis : Fits L varbind → flags = .allocateThisIndex ∧ ∃ t, Held L varbind.name varbind.value t) :
    Registered L L varbind flags ss none := by
  constructor
  · exact fun w h => absurd h (by simp)
  · exact fun _ _ _ _ => Iff.rfl
  · exact fun _ w h => absurd h (by simp)
  · intro _ hfits
    obtain ⟨t, ht⟩ := (hthis hfits).2
    exact iff_of_false (by simp) fun h => h t ht
  · exact fun hflags hfits => absurd (hthis hfits).1 hflags

/-- A request is refused if its type is not that of the OID, or if its one value is allocated. -/
def Refuses (L : List (List Index)) (varbind : VarBind) (flags : Flags) : Prop :=
  ¬ Fits L varbind ∨ flags = .allocateThisIndex ∧ ∃ t, Held L varbind.name varbind.value t

/-- A request that is not refused claims an entry that is there. -/
def Claims (L : List (List Index)) (varbind : VarBind) : Flags → Prop
  | .allocateThisIndex => look L varbind ≠ none
  | .allocateAnyIndex => ∃ e ∈ entriesOf L varbind.name, e.allocated = false
  | .allocateNewIndex => False

/-- What a registration answers, and what it leaves behind of all entries. -/
structure Entered (L L' : List (List Index)) (varbind : VarBind) (flags : Flags) (ss : Option Ptr)
    (rv : Option IndexValue) : Prop where
  registered : Registered L L' varbind flags ss rv
  refuses : rv = none ↔ Refuses L varbind flags
  refused : rv = none → look L' = look L
  granted : ∀ w, rv = some w →
    look L' = Function.update (look L) ⟨varbind.name, w⟩ (some ⟨varbind.name, w, true, ss⟩)
  claims : ∀ w, rv = some w → (look L ⟨varbind.name, w⟩ ≠ none ↔ Claims L varbind flags)

theorem entered_of_granted (hreg : Registered L L' varbind flags ss (some w)) (hfits : Fits L varbind)
    (hlook : look L' = Function.update (look L) ⟨varbind.name, w⟩ (some ⟨varbind.name, w, true, ss⟩))
    (hclaims : look L ⟨varbind.name, w⟩ ≠ none ↔ Claims L varbind flags) : Entered L L' varbind flags ss (some w) where
  registered := hreg
  refuses := by
    refine iff_of_false (Option.some_ne_none w) ?_
    rintro (hnot | ⟨hthis, t, ht⟩)
    · exact hnot hfits
    · exact (hreg.this_iff hthis hfits).1 rfl t ht
  refused h := absurd h (Option.some_ne_none w)
  granted w' h := Option.some.inj h ▸ hlook
  claims w' h := Option.some.inj h ▸ hclaims

theorem entered_claims_of_none (hlook : look L ⟨varbind.name, w⟩ = none)
    (hthis : flags = .allocateThisIndex → w = varbind.value)
    (hunused : flags = .allocateAnyIndex → ∀ e ∈ entriesOf L varbind.name, e.allocated = true) :
    look L ⟨varbind.name, w⟩ ≠ none ↔ Claims L varbind flags := by
  refine iff_of_false (fun hne => hne hlook) ?_
  cases flags with
  | allocateThisIndex =>
    rw [hthis rfl] at hlook
    exact fun hne => hne hlook
  | allocateAnyIndex =>
    rintro ⟨e, he, hfree⟩
    rw [hunused rfl e he] at hfree
    exact Bool.false_ne_true hfree.symm
  | allocateNewIndex => exact id

theorem entered_none (h : Refuses L varbind flags) : Entered L L varbind flags ss none where
  registered := registered_none fun hfits => h.resolve_left fun hnot => hnot hfits
  refuses := iff_of_true rfl h
  refused _ := rfl
  granted w hw := absurd hw.symm (Option.some_ne_none w)
  claims w hw := absurd hw.symm (Option.some_ne_none w)

/-! ## registrations -/

theorem Listed.claim (h : Listed s (A ++ (pre ++ (p, e) :: post) :: B)) (hname : e.name = varbind.name)
    (hfree : e.allocated = false) (hthis : flags = .allocateThisIndex → e.value = varbind.value)
    (hnew : flags ≠ .allocateNewIndex) (hfits : Fits (data (A ++ (pre ++ (p, e) :: post) :: B)) varbind)
    (ss : Option Ptr) :
    ∃ s' rows', setAllocated s p true ss = some ({ e with allocated := true, session := ss }, s') ∧
      Listed s' rows' ∧
      Entered (data (A ++ (pre ++ (p, e) :: post) :: B)) (data rows') varbind flags ss (some e.value) := by
  obtain ⟨s', e₁, h'⟩ := h.setAllocated_spec true ss
  have hord' := h'.ordered
  have hord := h.ordered
  have hlisted : e ∈ (data (A ++ (pre ++ (p, e) :: post) :: B)).flatten := by
    rw [data_middle]
    exact mem_flatten_middle.2 (.inl rfl)
  have hkey : e.key = ⟨varbind.name, e.value⟩ := by rw [Index.key, hname]
  have hfound : look (data (A ++ (pre ++ (p, e) :: post) :: B)) ⟨varbind.name, e.value⟩ ≠ none := by
    rw [h.ordered.look_eq_some.2 ⟨hlisted, hkey⟩]
    exact Option.some_ne_none e
  refine ⟨s', _, e₁, h', entered_of_granted (registered_of_granted ?_ hthis) hfits ?_ ?_⟩
  · rw [data_middle] at hord' ⊢
    rw [data_middle, ← hname]
    exact granted_middle hord' rfl fun n v t => held_unallocated hfree
  · rw [data_middle] at hord hord' ⊢
    rw [data_middle, hord'.look_middle.1, hord.look_middle.1, ← hname]
    exact (Function.update_idem _ _ _).symm
  · refine iff_of_true hfound ?_
    cases flags with
    | allocateThisIndex =>
      rw [hthis rfl] at hfound
      exact hfound
    | allocateAnyIndex => exact ⟨e, mem_filter.2 ⟨hlisted, decide_eq_true hname⟩, hfree⟩
    | allocateNewIndex => exact absurd rfl hnew

theorem Listed.registerIndex_newOid (h : Listed s (A ++ B)) (hseek : seekOid s varbind.name = some r)
    (hfound : OidFound varbind.name A B r) (hres : r.res ≠ 0)
    (hthis : flags = .allocateThisIndex → varbind.value.Requested) (ss : Option Ptr) :
    ∃ rv s' rows', registerIndex s varbind flags ss = some (rv, s') ∧ Listed s' rows' ∧
      Entered (data (A ++ B)) (data rows') varbind flags ss rv := by
  have hentries : entriesOf (data (A ++ B)) varbind.name = [] := by
    refine filter_eq_nil_iff.mpr fun e he => ?_
    obtain ⟨row, hrow, he⟩ := mem_flatten.mp he
    rw [data_append, mem_append] at hrow
    rw [decide_eq_true_iff]
    intro heq
    rcases hrow with hrow | hrow
    · exact Std.lt_irrefl (heq ▸ hfound.before row hrow e he)
    · exact Std.lt_irrefl (heq ▸ hfound.after hres row hrow e he)
  obtain ⟨w, hvalue, hw, hexact⟩ : ∃ w, newValue s varbind flags none = some w ∧ w.InRange ∧
      (flags = .allocateThisIndex → w = varbind.value) := by
    cases flags with
    | allocateThisIndex =>
      refine ⟨varbind.value, ?_, requested_inRange (hthis rfl), fun _ => rfl⟩
      rw [newValue, setVarValue_requested (hthis rfl)]
    | allocateAnyIndex => exact ⟨_, rfl, firstValue_inRange _ _, fun h => absurd h (by decide)⟩
    | allocateNewIndex => exact ⟨_, rfl, firstValue_inRange _ _, fun h => absurd h (by decide)⟩
  have hord₀ := h.ordered
  rw [data_append] at hord₀
  -- the new row is put in as one that is empty at first
  have hempty : Ordered (data A ++ ([] ++ []) :: data B) := ordered_empty_row.mpr hord₀
  have hord : Ordered (data A ++ ([] ++ ⟨varbind.name, w, true, ss⟩ :: []) :: data B) := by
    refine hempty.insert hw hfound.before (hfound.after hres) ?_ ?_
    · exact fun x hx => absurd hx not_mem_nil
    · exact fun x hx => absurd hx not_mem_nil
  obtain ⟨s', hcreate, h'⟩ := h.createIndex_new hfound hres hvalue hord
  have hdata : data (A ++ [(s.brk, ⟨varbind.name, w, true, ss⟩)] :: B) =
      data A ++ ([] ++ ⟨varbind.name, w, true, ss⟩ :: []) :: data B := data_append _ _
  have hgap : look (data A ++ ([] ++ []) :: data B) = look (data A ++ data B) := by
    funext k
    rw [look, look, flatten_append, flatten_append, flatten_cons]
    rfl
  refine ⟨some w, s', _, ?_, h', entered_of_granted (registered_of_granted ?_ hexact) ?_ ?_ ?_⟩
  · rw [registerIndex, hseek, Option.bind_eq_bind, Option.bind_some]
    cases hptr : r.ptr with
    | none => exact hcreate
    | some idxptr =>
      show (if r.res ≠ 0 then _ else _) = _
      rw [if_pos hres, hcreate]
  · rw [data_append, hdata]
    refine granted_middle hord rfl fun n v t => ?_
    rw [Held, Held, flatten_append, flatten_append, flatten_cons]
    rfl
  · intro e he
    rw [hentries] at he
    exact absurd he not_mem_nil
  · rw [hdata, hord.look_middle.1, hgap, data_append A B]
    rfl
  · rw [data_append] at hentries ⊢
    refine entered_claims_of_none (hgap ▸ hord.look_middle.2) hexact fun _ e he => ?_
    exact absurd (hentries ▸ he) not_mem_nil

/-- What is known of the row of an OID once it is found. -/
structure RowFound (s : IndexRegistry) (varbind : VarBind) (A B : List Items) (row : Items) (r : Sought)
    (idxptr : Ptr) (c : Lib.Cell (Lib.Hung Index)) : Prop where
  listed : Listed s (A ++ row :: B)
  found : OidFound varbind.name A (row :: B) r
  res : r.res = 0
  ptr : r.ptr = some idxptr
  start : row.head?.map Prod.fst = some idxptr
  cell : s.heap idxptr = some c
  names : ∀ e ∈ row.map Prod.snd, e.name = varbind.name
  types : ∀ e ∈ row.map Prod.snd, c.data.data.value.type = e.value.type
  entries : entriesOf (data (A ++ row :: B)) varbind.name = row.map Prod.snd

theorem Listed.rowFound (h : Listed s (A ++ B)) (hfound : OidFound varbind.name A B r) (hres : r.res = 0) :
    ∃ row B' idxptr c, B = row :: B' ∧ RowFound s varbind A B' row r idxptr c := by
  obtain ⟨row, B', rfl, hnames, hB'⟩ := hfound.same hres
  have hentries := entriesOf_found hfound rfl hnames hB'
  obtain ⟨y, row, rfl⟩ := exists_cons_of_ne_nil h.linked.segment.1
  have hlinked : Rows s.heap s.indexHead s.brk (A ++ ([] ++ (y.1, y.2) :: row) :: B') := h.linked
  obtain ⟨d, hcell, -⟩ := hlinked.cell
  have hrow := h.row_ordered (mem_append_right A mem_cons_self)
  refine ⟨_, B', y.1, _, rfl, h, hfound, hres, hfound.ptr_eq, rfl, hcell, hnames, ?_, hentries⟩
  exact fun e he => (hrow.alike mem_cons_self he).2

variable {idxptr : Ptr} {c : Lib.Cell (Lib.Hung Index)}

theorem RowFound.create (hf : RowFound s varbind A B (pre ++ post) r idxptr c)
    (hvalue : newValue s varbind flags (pre.getLast?.map Prod.fst) = some w) (hw : w.InRange)
    (hpre : ∀ e ∈ pre.map Prod.snd, e.value.Below w) (hpost : ∀ e ∈ post.map Prod.snd, w.Below e.value)
    (hthis : flags = .allocateThisIndex → w = varbind.value) (hfits : Fits (data (A ++ (pre ++ post) :: B)) varbind)
    (hunused : flags = .allocateAnyIndex →
      ∀ e ∈ entriesOf (data (A ++ (pre ++ post) :: B)) varbind.name, e.allocated = true) (ss : Option Ptr) :
    ∃ s' rows', createIndex s varbind flags ss r (pre.getLast?.map Prod.fst) = some (some w, s') ∧ Listed s' rows' ∧
      Entered (data (A ++ (pre ++ post) :: B)) (data rows') varbind flags ss (some w) := by
  have hord₀ := hf.listed.ordered
  have hdata : data (A ++ (pre ++ post) :: B) =
      data A ++ (pre.map Prod.snd ++ post.map Prod.snd) :: data B := by simp [data]
  have hnames := hf.names
  rw [map_append] at hnames
  have hB : ∀ row ∈ data B, ∀ e ∈ row, varbind.name < e.name := by
    obtain ⟨_, _, hcons, _, hB⟩ := hf.found.same hf.res
    rw [(List.cons.inj hcons).2]
    exact hB
  rw [hdata] at hord₀
  have hord : Ordered
      (data A ++ (pre.map Prod.snd ++ ⟨varbind.name, w, true, ss⟩ :: post.map Prod.snd) :: data B) := by
    refine hord₀.insert hw hf.found.before hB (fun e he => ?_) fun e he => ?_
    · exact ⟨hnames e (mem_append_left _ he), hpre e he⟩
    · exact ⟨(hnames e (mem_append_right _ he)).symm, hpost e he⟩
  obtain ⟨s', hcreate, h'⟩ := hf.listed.createIndex_row hf.found hf.res hvalue hord
  refine ⟨s', _, hcreate, h', entered_of_granted (registered_of_granted ?_ hthis) hfits ?_ ?_⟩
  · rw [data_middle, hdata]
    exact granted_middle (e := ⟨varbind.name, w, true, ss⟩) hord rfl fun n v t => Iff.rfl
  · rw [data_middle, hdata]
    exact hord.look_middle.1
  · refine entered_claims_of_none ?_ hthis hunused
    rw [hdata]
    exact hord.look_middle.2

theorem RowFound.fits {row : Items}
    (hf : RowFound s varbind A B row r idxptr c) (htype : varbind.value.type = c.data.data.value.type) :
    Fits (data (A ++ row :: B)) varbind := by
  intro e he
  rw [hf.entries] at he
  exact htype.trans (hf.types e he)

theorem RowFound.registerThis_spec {row : Items}
    (hf : RowFound s varbind A B row r idxptr c) (htype : varbind.value.type = c.data.data.value.type)
    (hserves : Serves (data (A ++ row :: B)) varbind .allocateThisIndex) (ss : Option Ptr) :
    ∃ rv s' rows', registerThis s varbind ss r idxptr = some (rv, s') ∧ Listed s' rows' ∧
      Entered (data (A ++ row :: B)) (data rows') varbind .allocateThisIndex ss rv := by
  have hfits := hf.fits htype
  obtain ⟨hrequested, hextends⟩ := hserves
  rw [hf.entries] at hextends
  obtain ⟨pre, post, i, rfl, hi, hfound⟩ := hf.listed.seekValue_spec hf.start
    (fun e he => htype.trans (hf.types e he)) hrequested
  by_cases hres : i.res = 0
  · obtain ⟨p, e, post, rfl, hsame⟩ := hfound.same hres
    have he : e ∈ (pre ++ (p, e) :: post).map Prod.snd := by simp
    -- the search stops at equal values, or at a text that goes on
    have hvalue : varbind.value = e.value := hsame.resolve_right (hextends e he)
    obtain ⟨d, hp, -⟩ := hf.listed.linked.cell
    have hptr : i.ptr = some p := hfound.ptr_eq
    cases hall : e.allocated with
    | true =>
      refine ⟨none, s, _, ?_, hf.listed, entered_none (.inr ⟨rfl, e.session, ?_⟩)⟩
      · simp only [registerThis, hi, Option.bind_eq_bind, Option.bind_some, hptr, hres, hp, hall, if_true]
      · rw [data_middle]
        exact held_middle.mpr (.inr ⟨hf.names e he, hvalue.symm, hall, rfl⟩)
    | false =>
      obtain ⟨s', rows', hset, h', hreg⟩ :=
        hf.listed.claim (hf.names e he) hall (fun _ => hvalue.symm : Flags.allocateThisIndex = .allocateThisIndex → _)
          (by decide) hfits ss
      refine ⟨some e.value, s', rows', ?_, h', hreg⟩
      simp only [registerThis, hi, Option.bind_eq_bind, Option.bind_some, hptr, hres, hp, hall, if_true,
        Bool.false_eq_true, if_false, hset]
  · have hvalue : newValue s varbind .allocateThisIndex (pre.getLast?.map Prod.fst) = some varbind.value := by
      rw [newValue, setVarValue_requested hrequested]
    obtain ⟨s', rows', hcreate, h', hreg⟩ := hf.create hvalue (requested_inRange hrequested) hfound.before
      (hfound.after hres) (fun _ => rfl) hfits (fun h => absurd h (by decide)) ss
    refine ⟨some varbind.value, s', rows', ?_, h', hreg⟩
    rw [← hfound.prev_eq] at hcreate
    rw [← hcreate]
    cases hptr : i.ptr with
    | none =>
      simp only [registerThis, hi, Option.bind_eq_bind, Option.bind_some, hptr]
    | some p =>
      simp only [registerThis, hi, Option.bind_eq_bind, Option.bind_some, hptr, hres, if_false]

theorem RowFound.registerAny_spec {row : Items}
    (hf : RowFound s varbind A B row r idxptr c) (hflags : flags ≠ .allocateThisIndex)
    (htype : varbind.value.type = c.data.data.value.type) (hserves : Serves (data (A ++ row :: B)) varbind flags)
    (ss : Option Ptr) : ∃ rv s' rows', registerAny s varbind flags ss r idxptr = some (rv, s') ∧ Listed s' rows' ∧
      Entered (data (A ++ row :: B)) (data rows') varbind flags ss rv := by
  have hfits := hf.fits htype
  obtain ⟨pre, post, i, rfl, hi, hfound⟩ := hf.listed.seekUnused_spec hf.start flags
  cases post with
  | cons y post =>
    obtain ⟨p, e⟩ := y
    obtain ⟨hany, hall⟩ := hfound.found p e post rfl
    have he : e ∈ (pre ++ (p, e) :: post).map Prod.snd := by simp
    have hptr : i.ptr = some p := hfound.ptr_eq
    obtain ⟨s', rows', hset, h', hreg⟩ :=
      hf.listed.claim (hf.names e he) hall (fun h => absurd h hflags) (by rw [hany]; decide) hfits ss
    refine ⟨some e.value, s', rows', ?_, h', hreg⟩
    simp only [registerAny, hi, Option.bind_eq_bind, Option.bind_some, hptr, hset]
  | nil =>
    have hptr : i.ptr = none := hfound.ptr_eq
    have hrow := hf.listed.row_ordered (mem_append_right A mem_cons_self)
    have hentries : entriesOf (data (A ++ (pre ++ []) :: B)) varbind.name = pre.map Prod.snd := by
      rw [hf.entries, append_nil]
    have hlisted := hf.listed
    rw [append_nil] at hrow hlisted
    -- the new value comes after the last one
    rcases eq_nil_or_concat pre with rfl | ⟨pre, y, rfl⟩
    · exact absurd rfl hlisted.linked.segment.1
    · obtain ⟨q, x⟩ := y
      rw [concat_eq_append] at *
      rw [map_append] at hrow hentries
      have hlast : (entriesOf (data (A ++ (pre ++ [(q, x)] ++ []) :: B)) varbind.name).getLast? = some x := by
        rw [hentries]
        simp
      -- every entry of the OID is allocated, if any value is asked for
      have hunused : flags = .allocateAnyIndex →
          ∀ e ∈ entriesOf (data (A ++ (pre ++ [(q, x)] ++ []) :: B)) varbind.name, e.allocated = true := by
        intro hany e he
        rw [hentries] at he
        refine hfound.before hany e ?_
        rw [map_append]
        exact he
      have hcount : x.value.CountsUp := by
        cases flags with
        | allocateThisIndex => exact absurd rfl hflags
        | allocateAnyIndex => exact hserves (hunused rfl) x hlast
        | allocateNewIndex => exact hserves x hlast
      obtain ⟨-, hx, hbefore, -⟩ := rowOrdered_middle.mp hrow
      obtain ⟨w, hnext, hbelow, hw⟩ := nextValue_spec hcount hx
      obtain ⟨d, hq, -⟩ := hlisted.linked.cell
      have hvalue : newValue s varbind flags ((pre ++ [(q, x)]).getLast?.map Prod.fst) = some w := by
        rw [getLast?_append]
        cases flags with
        | allocateThisIndex => exact absurd rfl hflags
        | allocateAnyIndex =>
          show s.heap q >>= _ = _
          rw [hq]
          exact hnext
        | allocateNewIndex =>
          show s.heap q >>= _ = _
          rw [hq]
          exact hnext
      have hpre : ∀ e ∈ (pre ++ [(q, x)]).map Prod.snd, e.value.Below w := by
        intro e he
        rw [map_append, mem_append] at he
        rcases he with he | he
        · exact below_trans (hbefore e he).2 hbelow
        · rw [mem_singleton.mp he]
          exact hbelow
      obtain ⟨s', rows', hcreate, h', hreg⟩ :=
        hf.create hvalue hw hpre (fun e he => absurd he not_mem_nil) (fun h => absurd h hflags) hfits hunused ss
      refine ⟨some w, s', rows', ?_, h', hreg⟩
      rw [← hfound.prev_eq] at hcreate
      rw [← hcreate]
      simp only [registerAny, hi, Option.bind_eq_bind, Option.bind_some, hptr]

theorem Listed.registerIndex_entered (h : Listed s rows) (hserves : Serves (data rows) varbind flags)
    (ss : Option Ptr) : ∃ rv s' rows', registerIndex s varbind flags ss = some (rv, s') ∧ Listed s' rows' ∧
      Entered (data rows) (data rows') varbind flags ss rv := by
  obtain ⟨A, B, r, rfl, hseek, hfound⟩ := h.seekOid_spec varbind.name
  by_cases hres : r.res = 0
  · obtain ⟨row, B, idxptr, c, rfl, hf⟩ := h.rowFound hfound hres
    by_cases htype : varbind.value.type = c.data.data.value.type
    · by_cases hflags : flags = .allocateThisIndex
      · subst hflags
        obtain ⟨rv, s', rows', e₁, h'⟩ := hf.registerThis_spec htype hserves ss
        refine ⟨rv, s', rows', ?_, h'⟩
        simp only [registerIndex, hseek, Option.bind_eq_bind, Option.bind_some, hf.ptr, hf.res, ne_eq,
          not_true_eq_false, if_false, hf.cell, htype, if_true, e₁]
      · obtain ⟨rv, s', rows', e₁, h'⟩ := hf.registerAny_spec hflags htype hserves ss
        refine ⟨rv, s', rows', ?_, h'⟩
        simp only [registerIndex, hseek, Option.bind_eq_bind, Option.bind_some, hf.ptr, hf.res, ne_eq,
          not_true_eq_false, if_false, hf.cell, htype, if_neg hflags, e₁]
    · refine ⟨none, s, _, ?_, h, entered_none (.inl fun hfits => ?_)⟩
      · simp only [registerIndex, hseek, Option.bind_eq_bind, Option.bind_some, hf.ptr, hf.res, ne_eq,
          not_true_eq_false, if_false, hf.cell, htype, not_false_eq_true, if_true]
      · rw [Fits, hf.entries] at hfits
        obtain ⟨y, row, rfl⟩ := exists_cons_of_ne_nil h.linked.segment.1
        have hy : y.2 ∈ (y :: row).map Prod.snd := mem_cons_self
        exact absurd ((hfits y.2 hy).trans (hf.types y.2 hy).symm) htype
  · refine h.registerIndex_newOid hseek hfound hres ?_ ss
    rintro rfl
    exact hserves.1

theorem Listed.registerIndex_spec (h : Listed s rows) (hserves : Serves (data rows) varbind flags) (ss : Option Ptr) :
    ∃ rv s' rows', registerIndex s varbind flags ss = some (rv, s') ∧ Listed s' rows' ∧
      Registered (data rows) (data rows') varbind flags ss rv := by
  obtain ⟨rv, s', rows', hregister, h', hentered⟩ := h.registerIndex_entered hserves ss
  exact ⟨rv, s', rows', hregister, h', hentered.registered⟩

/-! ## releases and removals -/

/-- A release or removal does not run into a text of the session that goes on where the other ends. -/
def Releases (L : List (List Index)) (varbind : VarBind) (ss : Option Ptr) : Prop :=
  varbind.value.Requested ∧
  ∀ e ∈ entriesOf L varbind.name, e.allocated = true → e.session = ss → ¬ varbind.value.Extends e.value

theorem extends_not_below {v w : IndexValue} (h : v.Extends w) : ¬ v.Below w ∧ ¬ w.Below v := by
  cases v with
  | octets v =>
    cases w with
    | octets w =>
      obtain ⟨r, -, hlt, heq, hgt⟩ := compareValues_spec (v := .octets v) (w := .octets w) rfl trivial
      rw [← hlt, ← hgt]
      have := heq.mpr (.inr h)
      omega
    | integer w => exact h.elim
    | objectId w => exact h.elim
  | integer v => exact h.elim
  | objectId v => exact h.elim

theorem RowFound.held_at {t : Option Ptr} (hf : RowFound s varbind A B (pre ++ (p, e) :: post) r idxptr c)
    (hsame : varbind.value = e.value ∨ varbind.value.Extends e.value)
    (hheld : Held (data (A ++ (pre ++ (p, e) :: post) :: B)) varbind.name varbind.value t) :
    e.value = varbind.value ∧ e.allocated = true ∧ e.session = t := by
  obtain ⟨x, hx, hname, hvalue, hx'⟩ := hheld
  have hmem : x ∈ (pre ++ (p, e) :: post).map Prod.snd := by
    rw [← hf.entries]
    exact mem_filter.mpr ⟨hx, decide_eq_true hname⟩
  have hrow := hf.listed.row_ordered (mem_append_right A mem_cons_self)
  rw [map_append, map_cons] at hrow hmem
  obtain ⟨-, -, hbefore, hafter⟩ := rowOrdered_middle.mp hrow
  -- the search has gone past neither of them
  have hnot : ¬ varbind.value.Below e.value ∧ ¬ e.value.Below varbind.value := by
    rcases hsame with heq | hext
    · rw [heq]
      exact ⟨below_irrefl _, below_irrefl _⟩
    · exact extends_not_below hext
  simp only [mem_append, mem_cons] at hmem
  rcases hmem with hmem | rfl | hmem
  · exact absurd (hvalue ▸ (hbefore x hmem).2) hnot.1
  · exact ⟨hvalue, hx'⟩
  · exact absurd (hvalue ▸ (hafter x hmem).2) hnot.2

/-- What a release or a removal answers, and what it leaves behind of all entries. -/
structure GivenUp (L L' : List (List Index)) (varbind : VarBind) (remember : Bool) (ss : Option Ptr) (rc : Int) :
    Prop where
  unregistered : Unregistered L L' varbind ss rc
  freed : rc = PRIOT_ERR_NOERROR → look L varbind = some ⟨varbind.name, varbind.value, true, ss⟩ ∧
    look L' = Function.update (look L) varbind
      (if remember = true then some ⟨varbind.name, varbind.value, false, none⟩ else none)
  kept : rc ≠ PRIOT_ERR_NOERROR → look L' = look L

theorem givenUp_refused {rc : Int} (hrc : rc ≠ PRIOT_ERR_NOERROR) (remember : Bool)
    (hheld : ¬ Held L varbind.name varbind.value ss) : GivenUp L L varbind remember ss rc where
  unregistered := .inr ⟨hrc, hheld, fun _ _ _ => Iff.rfl⟩
  freed h := absurd h hrc
  kept _ := rfl

theorem look_gap {A' B' : List (List Index)} {pre' post' : List Index}
    (h : Ordered (A' ++ (pre' ++ e :: post') :: B')) :
    look (A' ++ (pre' ++ post') :: B') = Function.update (look (A' ++ (pre' ++ e :: post') :: B')) e.key none := by
  obtain ⟨hmiddle, hnone⟩ := h.look_middle
  rw [hmiddle, Function.update_idem, ← hnone, Function.update_eq_self]

theorem Listed.remove (h : Listed s (A ++ (pre ++ (p, e) :: post) :: B))
    (hp : s.heap p = some c) (hall : e.allocated = true) :
    (∀ q, pre.getLast?.map Prod.fst = some q → ∃ prev rows', s.heap q = some prev ∧
      Listed { s with heap := Function.update (Function.update s.heap q (some ⟨c.next, prev.data⟩)) p none } rows' ∧
      Freed (data (A ++ (pre ++ (p, e) :: post) :: B)) (data rows') e.name e.value e.session ∧
      look (data rows') = Function.update (look (data (A ++ (pre ++ (p, e) :: post) :: B))) e.key none) ∧
    (pre = [] → ∃ heap head rows',
      Lib.redirect s.heap s.brk s.indexHead ((heads A).getLast?.map Prod.fst) (c.next.or c.data.down) =
        some (heap, head) ∧
      Listed { s with heap := Function.update heap p none, indexHead := head } rows' ∧
      Freed (data (A ++ (pre ++ (p, e) :: post) :: B)) (data rows') e.name e.value e.session ∧
      look (data rows') = Function.update (look (data (A ++ (pre ++ (p, e) :: post) :: B))) e.key none) := by
  have hord := h.ordered
  rw [data_middle] at hord
  have hord' := hord.remove
  constructor
  · intro q hq
    rcases eq_nil_or_concat pre with rfl | ⟨pre, y, rfl⟩
    · exact absurd hq (by simp)
    · obtain ⟨o, x⟩ := y
      obtain rfl : o = q := by simpa using hq
      rw [concat_eq_append] at *
      have happ : ∀ l : Items, (pre ++ [(o, x)]) ++ l = pre ++ (o, x) :: l := fun l => by simp
      have hlinked := h.linked
      rw [happ] at hlinked
      obtain ⟨d, ho, -⟩ := hlinked.cell
      have hdata : data (A ++ (pre ++ (o, x) :: post) :: B) =
          data A ++ ((pre ++ [(o, x)]).map Prod.snd ++ post.map Prod.snd) :: data B := by simp [data]
      refine ⟨_, _, ho, ⟨hlinked.removeAfter ho hp, ?_⟩, ?_, ?_⟩
      · rw [hdata]
        exact hord'
      · rw [data_middle, hdata]
        exact freed_middle hord hall fun _ _ _ => Iff.rfl
      · rw [hdata, data_middle]
        exact look_gap hord
  · rintro rfl
    obtain ⟨heap, head, e₁, hrows⟩ := h.linked.removeFirst hp (Nat.le_refl _)
    have hflat : (data (A ++ Rows.consRow post B)).flatten =
        (data A ++ ([] ++ post.map Prod.snd) :: data B).flatten := by
      rw [data_append]
      cases post <;> simp [Rows.consRow, data]
    have hheld : ∀ n v t, Held (data (A ++ Rows.consRow post B)) n v t ↔
        Held (data A ++ ([] ++ post.map Prod.snd) :: data B) n v t := by
      intro n v t
      rw [Held, Held, hflat]
    -- the same is found, whether the row stays or goes with its last entry
    have hlook : look (data (A ++ Rows.consRow post B)) = look (data A ++ ([] ++ post.map Prod.snd) :: data B) := by
      funext k
      rw [look, look, hflat]
    refine ⟨heap, head, _, e₁, ⟨hrows, ?_⟩, ?_, ?_⟩
    · cases post with
      | nil =>
        rw [Rows.consRow, data_append]
        exact ordered_empty_row.mp hord'
      | cons y post =>
        rw [Rows.consRow, data_append]
        exact hord'
    · rw [data_middle]
      exact freed_middle hord hall hheld
    · rw [data_middle, hlook]
      exact look_gap hord

theorem RowFound.unregisterEntry_spec {i : Sought} (hf : RowFound s varbind A B (pre ++ (p, e) :: post) r idxptr c)
    (hvalue : ValueFound varbind.value pre ((p, e) :: post) i)
    (hsame' : varbind.value = e.value ∨ varbind.value.Extends e.value)
    (hextends : e.allocated = true → e.session = ss → ¬ varbind.value.Extends e.value) (remember : Bool) :
    ∃ rc s' rows', unregisterEntry s remember ss r i = some (rc, s') ∧ Listed s' rows' ∧
      GivenUp (data (A ++ (pre ++ (p, e) :: post) :: B)) (data rows') varbind remember ss rc := by
  have he : e ∈ (pre ++ (p, e) :: post).map Prod.snd := by simp
  have hptr : i.ptr = some p := hvalue.ptr_eq
  obtain ⟨d, hp, -⟩ := hf.listed.linked.cell
  cases hall : e.allocated with
  | false =>
    refine ⟨INDEX_ERR_NOT_ALLOCATED, s, _, ?_, hf.listed, givenUp_refused (by decide) remember fun hheld => ?_⟩
    · simp only [unregisterEntry, hptr, Option.bind_eq_bind, Option.bind_some, hp, hall, if_true]
    · have := (hf.held_at hsame' hheld).2.1
      rw [hall] at this
      exact absurd this Bool.false_ne_true
  | true =>
    by_cases hsession : ss = e.session
    · have heq : varbind.value = e.value := hsame'.resolve_right (hextends hall hsession.symm)
      have hkey : e.key = varbind := by rw [Index.key, hf.names e he, ← heq]
      have hentry : e = ⟨varbind.name, varbind.value, true, ss⟩ := by
        rw [← hf.names e he, heq, hsession, ← hall]
      have hord := hf.listed.ordered
      rw [data_middle] at hord
      have hfound : look (data (A ++ (pre ++ (p, e) :: post) :: B)) varbind =
          some ⟨varbind.name, varbind.value, true, ss⟩ := by
        rw [data_middle, ← hentry]
        exact hord.look_eq_some.2 ⟨mem_flatten_middle.2 (.inl rfl), hkey⟩
      cases remember with
      | true =>
        obtain ⟨s', hset, h'⟩ := hf.listed.setAllocated_spec false none
        refine ⟨PRIOT_ERR_NOERROR, s', _, ?_, h', .inl ⟨rfl, ?_⟩, fun _ => ⟨hfound, ?_⟩, fun h => absurd rfl h⟩
        · simp only [unregisterEntry, hptr, Option.bind_eq_bind, Option.bind_some, hp, hall, hsession, ne_eq,
            not_true_eq_false, Bool.true_eq_false, if_false, if_true, hset]
        · rw [data_middle, data_middle, ← hf.names e he, heq, hsession]
          exact freed_middle hord hall fun n v t => held_unallocated rfl
        · have hord' := h'.ordered
          rw [data_middle] at hord'
          rw [data_middle, data_middle, hord'.look_middle.1, hord.look_middle.1, ← hkey]
          rw [hentry]
          exact (Function.update_idem _ _ _).symm
      | false =>
        obtain ⟨hafter, hfirst⟩ := hf.listed.remove hp hall
        rw [hf.names e he, ← heq, ← hsession] at hafter hfirst
        cases hlast : pre.getLast?.map Prod.fst with
        | some q =>
          obtain ⟨prev, rows', hq, h', hfreed, hlook⟩ := hafter q hlast
          refine ⟨PRIOT_ERR_NOERROR, _, rows', ?_, h', .inl ⟨rfl, hfreed⟩, fun _ => ⟨hfound, hkey ▸ hlook⟩,
            fun h => absurd rfl h⟩
          have hprev : i.prev = some q := hvalue.prev_eq.trans hlast
          simp only [unregisterEntry, hptr, Option.bind_eq_bind, Option.bind_some, hp, hall, hsession, ne_eq,
            not_true_eq_false, Bool.true_eq_false, Bool.false_eq_true, if_false, hprev, hq]
        | none =>
          obtain rfl : pre = [] := by simpa using hlast
          obtain ⟨heap, head, rows', hredirect, h', hfreed, hlook⟩ := hfirst rfl
          refine ⟨PRIOT_ERR_NOERROR, _, rows', ?_, h', .inl ⟨rfl, hfreed⟩, fun _ => ⟨hfound, hkey ▸ hlook⟩,
            fun h => absurd rfl h⟩
          have hprev : i.prev = none := hvalue.prev_eq
          rw [← hf.found.prev_eq] at hredirect
          simp only [unregisterEntry, hptr, Option.bind_eq_bind, Option.bind_some, hp, hall, hsession, ne_eq,
            not_true_eq_false, Bool.true_eq_false, Bool.false_eq_true, if_false, hprev, hredirect]
    · refine ⟨INDEX_ERR_WRONG_SESSION, s, _, ?_, hf.listed, givenUp_refused (by decide) remember fun hheld => ?_⟩
      · simp only [unregisterEntry, hptr, Option.bind_eq_bind, Option.bind_some, hp, hall, hsession, ne_eq,
          not_false_eq_true, Bool.true_eq_false, if_false, if_true]
      · exact hsession (hf.held_at hsame' hheld).2.2.symm

theorem Listed.unregisterIndex_givenUp (h : Listed s rows) (hreleases : Releases (data rows) varbind ss)
    (remember : Bool) : ∃ rc s' rows', unregisterIndex s varbind remember ss = some (rc, s') ∧ Listed s' rows' ∧
      GivenUp (data rows) (data rows') varbind remember ss rc := by
  obtain ⟨hrequested, hextends⟩ := hreleases
  obtain ⟨A, B, r, rfl, hseek, hfound⟩ := h.seekOid_spec varbind.name
  by_cases hres : r.res = 0
  · obtain ⟨row, B, idxptr, c, rfl, hf⟩ := h.rowFound hfound hres
    rw [hf.entries] at hextends
    by_cases htype : varbind.value.type = c.data.data.value.type
    · obtain ⟨pre, post, i, rfl, hi, hvalue⟩ := hf.listed.seekValue_spec hf.start
        (fun e he => htype.trans (hf.types e he)) hrequested
      by_cases hsame : i.res = 0
      · obtain ⟨p, e, post, rfl, hsame'⟩ := hvalue.same hsame
        have he : e ∈ (pre ++ (p, e) :: post).map Prod.snd := by simp
        obtain ⟨rc, s', rows', e₁, h'⟩ := hf.unregisterEntry_spec hvalue hsame' (hextends e he) remember
        refine ⟨rc, s', rows', ?_, h'⟩
        simp only [unregisterIndex, hseek, Option.bind_eq_bind, Option.bind_some, hf.ptr, hf.res, ne_eq,
          not_true_eq_false, if_false, hf.cell, htype, hi, hsame, e₁]
      · refine ⟨INDEX_ERR_NOT_ALLOCATED, s, _, ?_, h, givenUp_refused (by decide) remember ?_⟩
        · simp only [unregisterIndex, hseek, Option.bind_eq_bind, Option.bind_some, hf.ptr, hf.res, ne_eq,
            not_true_eq_false, if_false, hf.cell, htype, if_true, hi, hsame, not_false_eq_true]
        · refine not_held_of_entries (fun x hx heq => ?_) ss
          rw [hf.entries, map_append, mem_append] at hx
          rcases hx with hx | hx
          · exact below_irrefl _ (heq ▸ hvalue.before x hx)
          · exact below_irrefl _ (heq ▸ hvalue.after hsame x hx)
    · refine ⟨INDEX_ERR_WRONG_TYPE, s, _, ?_, h, givenUp_refused (by decide) remember ?_⟩
      · simp only [unregisterIndex, hseek, Option.bind_eq_bind, Option.bind_some, hf.ptr, hf.res, ne_eq,
          not_true_eq_false, if_false, hf.cell, htype, not_false_eq_true, if_true]
      · refine not_held_of_entries (fun x hx heq => htype ?_) ss
        rw [hf.entries] at hx
        rw [← heq, hf.types x hx]
  · refine ⟨INDEX_ERR_NOT_ALLOCATED, s, _, ?_, h, givenUp_refused (by decide) remember ?_⟩
    · simp only [unregisterIndex, hseek, Option.bind_eq_bind, Option.bind_some, ne_eq, hres, not_false_eq_true,
        if_true]
    · rintro ⟨x, hx, hname, -⟩
      obtain ⟨row, hrow, hx⟩ := mem_flatten.mp hx
      rw [data_append, mem_append] at hrow
      rcases hrow with hrow | hrow
      · exact Std.lt_irrefl (hname ▸ hfound.before row hrow x hx)
      · exact Std.lt_irrefl (hname ▸ hfound.after hres row hrow x hx)

theorem Listed.unregisterIndex_spec (h : Listed s rows) (hreleases : Releases (data rows) varbind ss)
    (remember : Bool) : ∃ rc s' rows', unregisterIndex s varbind remember ss = some (rc, s') ∧ Listed s' rows' ∧
      Unregistered (data rows) (data rows') varbind ss rc := by
  obtain ⟨rc, s', rows', hunregister, h', hgiven⟩ := h.unregisterIndex_givenUp hreleases remember
  exact ⟨rc, s', rows', hunregister, h', hgiven.unregistered⟩

end Priot.AgentIndex
