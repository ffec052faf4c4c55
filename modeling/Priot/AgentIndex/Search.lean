/-
# Searching the index registry

The links in memory say a list of rows. The searches end where that list parts into what is in front of the name or
value looked for and what is not.
-/
import Priot.AgentIndex.Entries

namespace Priot.AgentIndex

open Lib List

abbrev Items := List (Ptr × Index)

/-- The entries without their addresses. -/
def data (rows : List Items) : List (List Index) := rows.map (·.map Prod.snd)

/-- The registry says these rows, and they are in order. -/
structure Listed (s : IndexRegistry) (rows : List Items) : Prop where
  linked : Rows s.heap s.indexHead s.brk rows
  ordered : Ordered (data rows)

variable {s : IndexRegistry} {rows A B : List Items} {row pre post : Items} {name : ObjId} {v value : IndexValue}
  {p : Ptr} {e : Index} {r : Sought} {flags : Flags}

theorem data_append (A B : List Items) : data (A ++ B) = data A ++ data B := map_append

theorem data_middle (A B : List Items) (pre post : Items) (p : Ptr) (e : Index) :
    data (A ++ (pre ++ (p, e) :: post) :: B) = data A ++ (pre.map Prod.snd ++ e :: post.map Prod.snd) :: data B := by
  rw [data_append]
  simp [data]

theorem Listed.idxRegistry_eq (h : Listed s rows) : idxRegistry s = data rows := h.linked.list

theorem Listed.row_ordered (h : Listed s rows) (hrow : row ∈ rows) : RowOrdered (row.map Prod.snd) :=
  h.ordered.rows _ (mem_map_of_mem hrow)

theorem mem_heads {y : Ptr × Index} (h : y :: row ∈ rows) : y ∈ heads rows :=
  mem_filterMap.mpr ⟨_, h, rfl⟩

/-- Between rows, for an OID: the rows in front, and the others with the row of the OID first if there is one. -/
structure OidFound (name : ObjId) (A B : List Items) (r : Sought) : Prop where
  prev_eq : r.prev = (heads A).getLast?.map Prod.fst
  ptr_eq : r.ptr = (heads B).head?.map Prod.fst
  before : ∀ row ∈ data A, ∀ e ∈ row, e.name < name
  after : r.res ≠ 0 → ∀ row ∈ data B, ∀ e ∈ row, name < e.name
  same : r.res = 0 → ∃ row B', B = row :: B' ∧ (∀ e ∈ row.map Prod.snd, e.name = name) ∧
    ∀ row ∈ data B', ∀ e ∈ row, name < e.name

theorem sign_spec (o : Ordering) : (sign o < 0 ↔ o = .lt) ∧ (sign o = 0 ↔ o = .eq) ∧ (0 < sign o ↔ o = .gt) := by
  cases o <;> decide

theorem Listed.seekOid_spec (h : Listed s rows) (name : ObjId) :
    ∃ A B r, rows = A ++ B ∧ seekOid s name = some r ∧ OidFound name A B r := by
  obtain ⟨pre, post, r, hr, hends⟩ := Lib.seek_some_spec (fun e : Index => sign (Registry.oidCompare name e.name))
    h.linked.grid.path
    (Nat.le_trans (Rows.length_heads rows) h.linked.length_addrs) none (show (0 : Int) < 1 by decide)
  obtain ⟨A, B, rfl, rfl, rfl⟩ := Lib.heads_split hends.split
  have hne := h.linked.grid.rows_ne
  -- the first entry of a row stands for all of them
  have hlike : ∀ {y : Ptr × Index} {row : Items}, y :: row ∈ A ++ B → ∀ e ∈ (y :: row).map Prod.snd, e.name = y.2.name :=
    fun hrow e he => ((h.row_ordered hrow).alike he mem_cons_self).1
  have hnames := h.ordered.names
  rw [data_append, pairwise_append] at hnames
  refine ⟨A, B, r, rfl, hr, ?_, hends.ptr_eq, ?_, ?_, ?_⟩
  · rw [hends.prev_eq, Option.or_none]
  · intro row' hrow' e he
    obtain ⟨row, hrow, rfl⟩ := mem_map.mp hrow'
    obtain ⟨y, row, rfl⟩ := exists_cons_of_ne_nil (hne row (mem_append_left _ hrow))
    rw [hlike (mem_append_left _ hrow) e he]
    have hy := hends.before y (mem_heads hrow)
    exact Registry.oidCompare_gt.mp ((sign_spec _).2.2.mp hy)
  · intro hres
    cases B with
    | nil => exact fun row hrow => absurd hrow not_mem_nil
    | cons row B =>
      obtain ⟨y, row, rfl⟩ := exists_cons_of_ne_nil (hne row (by simp))
      obtain ⟨hle, heq⟩ := hends.found y rfl
      have hlt : name < y.2.name := by
        refine Registry.oidCompare_lt.mp ((sign_spec _).1.mp ?_)
        omega
      intro row' hrow' e he
      rcases mem_cons.mp hrow' with rfl | hrow'
      · rw [hlike (mem_append_right _ mem_cons_self) e he]
        exact hlt
      · exact Std.lt_trans hlt ((pairwise_cons.mp hnames.2.1).1 row' hrow' y.2 mem_cons_self e he)
  · intro hres
    cases B with
    | nil =>
      have hpos := hends.missed rfl
      omega
    | cons row B =>
      obtain ⟨y, row, rfl⟩ := exists_cons_of_ne_nil (hne row (by simp))
      obtain ⟨-, heq⟩ := hends.found y rfl
      obtain rfl : name = y.2.name := Registry.oidCompare_eq.mp ((sign_spec _).2.1.mp (heq ▸ hres))
      refine ⟨_, B, rfl, hlike (mem_append_right _ mem_cons_self), ?_⟩
      exact fun row' hrow' e he => (pairwise_cons.mp hnames.2.1).1 row' hrow' y.2 mem_cons_self e he

/-- Within a row, for a value: the entries in front, and the others with one that cannot be told from the value first
if there is one. -/
structure ValueFound (v : IndexValue) (pre post : Items) (r : Sought) : Prop where
  prev_eq : r.prev = pre.getLast?.map Prod.fst
  ptr_eq : r.ptr = post.head?.map Prod.fst
  before : ∀ e ∈ pre.map Prod.snd, e.value.Below v
  after : r.res ≠ 0 → ∀ e ∈ post.map Prod.snd, v.Below e.value
  same : r.res = 0 → ∃ p e post', post = (p, e) :: post' ∧ (v = e.value ∨ v.Extends e.value)

theorem Listed.seekValue_spec (h : Listed s (A ++ row :: B)) (hp : row.head?.map Prod.fst = some p)
    (htype : ∀ e ∈ row.map Prod.snd, v.type = e.value.type) (hv : v.Requested) :
    ∃ pre post r, row = pre ++ post ∧ seekValue s v p = some r ∧ ValueFound v pre post r := by
  obtain ⟨hne, d, -, hseg, -⟩ := h.linked.segment
  have hrow := h.row_ordered (mem_append_right A mem_cons_self)
  have hcmp : ∀ y ∈ row, ∃ c, compareValues v y.2.value = some c ∧ (c < 0 ↔ v.Below y.2.value) ∧
      (c = 0 ↔ v = y.2.value ∨ v.Extends y.2.value) ∧ (0 < c ↔ y.2.value.Below v) := by
    intro y hy
    have hmem : y.2 ∈ row.map Prod.snd := mem_map_of_mem hy
    exact compareValues_spec (htype y.2 hmem) (requested_near hv (hrow.range y.2 hmem))
  have hcmp' : ∀ y ∈ row, compareValues v y.2.value = some ((compareValues v y.2.value).getD 0) := by
    intro y hy
    obtain ⟨c, hc, -⟩ := hcmp y hy
    rw [hc, Option.getD_some]
  rw [hp] at hseg
  obtain ⟨pre, post, r, hr, hends⟩ := Lib.seek_spec (fun e : Index => compareValues v e.value)
    (fun e : Index => (compareValues v e.value).getD 0)
    (Lib.row_path hseg) hcmp' (h.linked.length_row (mem_append_right A mem_cons_self)) none
    (show (0 : Int) < 1 by decide)
  obtain rfl := hends.split
  refine ⟨pre, post, r, rfl, hr, ?_, hends.ptr_eq, ?_, ?_, ?_⟩
  · rw [hends.prev_eq, Option.or_none]
  · intro e he
    obtain ⟨y, hy, rfl⟩ := mem_map.mp he
    have hpos := hends.before y hy
    obtain ⟨c, hc, -, -, hgt⟩ := hcmp y (mem_append_left _ hy)
    rw [hc] at hpos
    exact hgt.mp hpos
  · intro hres
    cases post with
    | nil => exact fun e he => absurd he not_mem_nil
    | cons y post =>
      obtain ⟨hle, heq⟩ := hends.found y rfl
      obtain ⟨c, hc, hlt, -, -⟩ := hcmp y (by simp)
      rw [hc, Option.getD_some] at hle heq
      have hbelow : v.Below y.2.value := hlt.mp (by omega)
      rw [map_append] at hrow
      have hpost := (pairwise_append.mp hrow.values).2.1
      intro e he
      rcases mem_cons.mp he with rfl | he
      · exact hbelow
      · exact below_trans hbelow ((pairwise_cons.mp hpost).1 e he).2
  · intro hres
    cases post with
    | nil =>
      have hpos := hends.missed rfl
      omega
    | cons y post =>
      obtain ⟨-, heq⟩ := hends.found y rfl
      obtain ⟨c, hc, -, hzero, -⟩ := hcmp y (by simp)
      rw [hc, Option.getD_some] at heq
      exact ⟨y.1, y.2, post, rfl, hzero.mp (by omega)⟩

/-- Within a row, for any value: the first entry that is not allocated, or the end where a new value is asked for. -/
structure UnusedFound (flags : Flags) (pre post : Items) (r : Sought) : Prop where
  prev_eq : r.prev = pre.getLast?.map Prod.fst
  ptr_eq : r.ptr = post.head?.map Prod.fst
  before : flags = .allocateAnyIndex → ∀ e ∈ pre.map Prod.snd, e.allocated = true
  found : ∀ p e post', post = (p, e) :: post' → flags = .allocateAnyIndex ∧ e.allocated = false

theorem Listed.seekUnused_spec (h : Listed s (A ++ row :: B)) (hp : row.head?.map Prod.fst = some p) (flags : Flags) :
    ∃ pre post r, row = pre ++ post ∧ seekUnused s flags p = some r ∧ UnusedFound flags pre post r := by
  obtain ⟨hne, d, -, hseg, -⟩ := h.linked.segment
  rw [hp] at hseg
  obtain ⟨pre, post, r, hr, hends⟩ := Lib.seek_some_spec
    (fun e : Index => if flags = .allocateAnyIndex ∧ e.allocated = false then 0 else 1)
    (Lib.row_path hseg) (h.linked.length_row (mem_append_right A mem_cons_self)) none
    (show (0 : Int) < 1 by decide)
  obtain rfl := hends.split
  refine ⟨pre, post, r, rfl, hr, ?_, hends.ptr_eq, ?_, ?_⟩
  · rw [hends.prev_eq, Option.or_none]
  · intro hany e he
    obtain ⟨y, hy, rfl⟩ := mem_map.mp he
    have hpos := hends.before y hy
    by_contra hall
    rw [if_pos ⟨hany, by simpa using hall⟩] at hpos
    exact absurd hpos (by decide)
  · rintro p e post' rfl
    obtain ⟨hle, -⟩ := hends.found (p, e) rfl
    by_contra hnot
    rw [if_neg hnot] at hle
    exact absurd hle (by decide)

end Priot.AgentIndex
