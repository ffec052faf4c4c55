/-
# Lists of lists in memory

The cells of a row are a list, and each of them also has the link to the first cell of the next row. Whoever puts
another row behind it has to change the link in all of its cells.
-/
import Priot.Lib.LinkedList

namespace Priot.Lib

open List

/-- What hangs in a row: the link to the next row, and the data. -/
structure Hung (α : Type) where
  down : Option Ptr
  data : α

variable {α β : Type} {h h' : Heap (Hung α)} {a b d e head : Option Ptr} {p : Ptr} {x : α} {n : Nat}

/-! ## searching along a path -/

/-- What a step of a search sees of a cell: where to go on, and the data. -/
abbrev View (α β : Type) := Cell β → Option Ptr × α

def toNext : View α (Hung α) := fun c => (c.next, c.data.data)

def toDown : View α (Hung α) := fun c => (c.data.down, c.data.data)

/-- Where a search ended: the cell before, the cell found, and how it compared. -/
structure Sought where
  prev : Option Ptr
  ptr : Option Ptr
  res : Int

/-- `for (; ptr; prev = ptr, ptr = next(ptr)) if ((res = compare(ptr)) <= 0) break;`. -/
def seek (view : View α β) (compare : α → Option Int) (h : Heap β) :
    Nat → Option Ptr → Option Ptr → Int → Option Sought
  | _, prev, none, res => some ⟨prev, none, res⟩
  | 0, _, some _, _ => none
  | n + 1, prev, some p, _ => do
    let c ← h p
    let res ← compare (view c).2
    if res ≤ 0 then some ⟨prev, some p, res⟩ else seek view compare h n (some p) (view c).1 res

/-- What is seen from `a` on, to the end. -/
def Path (view : View α β) (h : Heap β) : Option Ptr → List (Ptr × α) → Prop
  | a, [] => a = none
  | a, (p, x) :: l => a = some p ∧ ∃ c, h p = some c ∧ (view c).2 = x ∧ Path view h (view c).1 l

/-- How a search ends that saw `pre` and stopped before `post`. -/
structure SeekEnds (cmp : α → Int) (l pre post : List (Ptr × α)) (prev : Option Ptr) (r : Sought) : Prop where
  split : l = pre ++ post
  before : ∀ y ∈ pre, 0 < cmp y.2
  found : ∀ y ∈ post.head?, cmp y.2 ≤ 0 ∧ r.res = cmp y.2
  missed : post = [] → 0 < r.res
  prev_eq : r.prev = (pre.getLast?.map Prod.fst).or prev
  ptr_eq : r.ptr = post.head?.map Prod.fst

theorem seek_spec {view : View α β} (compare : α → Option Int) (cmp : α → Int) {h : Heap β} {l : List (Ptr × α)}
    (hl : Path view h a l) (hcmp : ∀ y ∈ l, compare y.2 = some (cmp y.2)) (hn : l.length ≤ n) (prev : Option Ptr)
    {res : Int} (hres : 0 < res) :
    ∃ pre post r, seek view compare h n prev a res = some r ∧ SeekEnds cmp l pre post prev r := by
  induction l generalizing a n prev res with
  | nil =>
    obtain rfl : a = none := hl
    refine ⟨[], [], ⟨prev, none, res⟩, by cases n <;> rfl, ?_⟩
    exact ⟨rfl, fun y hy => absurd hy not_mem_nil, fun y hy => (by simp at hy), fun _ => hres, rfl, rfl⟩
  | cons y l ih =>
    obtain ⟨p, x⟩ := y
    obtain ⟨rfl, c, hc, rfl, hl⟩ := hl
    obtain ⟨n, rfl, hn'⟩ := exists_round hn
    have hx : compare (view c).2 = some (cmp (view c).2) := hcmp _ mem_cons_self
    rw [seek, hc, Option.bind_eq_bind, Option.bind_some, hx, Option.bind_eq_bind, Option.bind_some]
    by_cases hle : cmp (view c).2 ≤ 0
    · rw [if_pos hle]
      refine ⟨[], (p, (view c).2) :: l, _, rfl, rfl, fun y hy => absurd hy not_mem_nil, ?_, ?_, rfl, rfl⟩
      · intro y hy
        obtain rfl : (p, (view c).2) = y := by simpa using hy
        exact ⟨hle, rfl⟩
      · exact fun hnil => absurd hnil (cons_ne_nil _ _)
    · rw [if_neg hle]
      obtain ⟨pre, post, r, hr, hends⟩ :=
        ih hl (fun y hy => hcmp y (mem_cons_of_mem _ hy)) hn' (some p) (Int.not_le.mp hle)
      refine ⟨(p, (view c).2) :: pre, post, r, hr, ?_, ?_, hends.found, hends.missed, ?_, hends.ptr_eq⟩
      · rw [hends.split, cons_append]
      · intro y hy
        rcases mem_cons.mp hy with rfl | hy
        · exact Int.not_le.mp hle
        · exact hends.before y hy
      · rw [hends.prev_eq, getLast?_cons]
        cases pre.getLast? <;> rfl

/-- The same for a comparison that always has a result. -/
theorem seek_some_spec {view : View α β} (cmp : α → Int) {h : Heap β} {l : List (Ptr × α)} (hl : Path view h a l)
    (hn : l.length ≤ n) (prev : Option Ptr) {res : Int} (hres : 0 < res) :
    ∃ pre post r, seek view (fun x => some (cmp x)) h n prev a res = some r ∧ SeekEnds cmp l pre post prev r :=
  seek_spec _ cmp hl (fun _ _ => rfl) hn prev hres

/-! ## rows -/

/-- A row as a list of its cells. -/
def hang (d : Option Ptr) (row : List (Ptr × α)) : List (Ptr × Hung α) := row.map fun y => (y.1, ⟨d, y.2⟩)

/-- The rows from `a` on lead to `b`. -/
def Grid (h : Heap (Hung α)) : Option Ptr → List (List (Ptr × α)) → Option Ptr → Prop
  | a, [], b => a = b
  | a, row :: rows, b => row ≠ [] ∧ ∃ d, Seg h a (hang d row) none ∧ Grid h d rows b

/-- Where the cells of the rows are. -/
def addrs (rows : List (List (Ptr × α))) : List Ptr := rows.flatten.map Prod.fst

/-- The first cells of the rows. -/
def heads (rows : List (List (Ptr × α))) : List (Ptr × α) := rows.filterMap List.head?

variable {row pre post : List (Ptr × α)} {rows A B : List (List (Ptr × α))}

theorem hang_fst (d : Option Ptr) (row : List (Ptr × α)) : (hang d row).map Prod.fst = row.map Prod.fst := by
  rw [hang, map_map]
  rfl

theorem addrs_append (A B : List (List (Ptr × α))) : addrs (A ++ B) = addrs A ++ addrs B := by
  rw [addrs, addrs, addrs, flatten_append, map_append]

theorem addrs_cons (row : List (Ptr × α)) (rows : List (List (Ptr × α))) :
    addrs (row :: rows) = row.map Prod.fst ++ addrs rows := by
  rw [addrs, addrs, flatten_cons, map_append]

theorem grid_append : Grid h a (A ++ B) b ↔ ∃ m, Grid h a A m ∧ Grid h m B b := by
  induction A generalizing a with
  | nil =>
    show Grid h a B b ↔ ∃ m, a = m ∧ Grid h m B b
    simp
  | cons row A ih =>
    show (row ≠ [] ∧ ∃ d, _ ∧ Grid h d (A ++ B) b) ↔ ∃ m, (row ≠ [] ∧ ∃ d, _ ∧ Grid h d A m) ∧ _
    simp only [ih]
    constructor
    · rintro ⟨hne, d, hrow, m, hA, hB⟩
      exact ⟨m, ⟨hne, d, hrow, hA⟩, hB⟩
    · rintro ⟨m, ⟨hne, d, hrow, hA⟩, hB⟩
      exact ⟨hne, d, hrow, m, hA, hB⟩

theorem Grid.frame (hg : Grid h a rows b) (hf : ∀ p ∈ addrs rows, h' p = h p) : Grid h' a rows b := by
  induction rows generalizing a with
  | nil => exact hg
  | cons row rows ih =>
    obtain ⟨hne, d, hrow, hg⟩ := hg
    rw [addrs_cons] at hf
    refine ⟨hne, d, hrow.frame ?_, ih hg fun p hp => hf p (mem_append_right _ hp)⟩
    rw [hang_fst]
    exact fun p hp => hf p (mem_append_left _ hp)

theorem Grid.rows_ne (hg : Grid h a rows b) : ∀ row ∈ rows, row ≠ [] := by
  induction rows generalizing a with
  | nil => exact fun row hrow => absurd hrow not_mem_nil
  | cons row rows ih =>
    obtain ⟨hne, d, -, hg⟩ := hg
    exact forall_mem_cons.mpr ⟨hne, ih hg⟩

theorem row_path (hrow : Seg h a (hang d row) none) : Path toNext h a row := by
  induction row generalizing a with
  | nil => exact hrow
  | cons y row ih =>
    obtain ⟨ha, next, hp, hrow⟩ := hrow
    exact ⟨ha, _, hp, rfl, ih hrow⟩

theorem Grid.path (hg : Grid h a rows none) : Path toDown h a (heads rows) := by
  induction rows generalizing a with
  | nil => exact hg
  | cons row rows ih =>
    obtain ⟨hne, d, hrow, hg⟩ := hg
    obtain ⟨y, row, rfl⟩ := exists_cons_of_ne_nil hne
    obtain ⟨ha, next, hp, -⟩ := hrow
    exact ⟨ha, _, hp, rfl, ih hg⟩

theorem heads_append (A B : List (List (Ptr × α))) : heads (A ++ B) = heads A ++ heads B :=
  filterMap_append

/-- A search among the first cells stops between two rows. -/
theorem heads_split (hs : heads rows = pre ++ post) : ∃ A B, rows = A ++ B ∧ heads A = pre ∧ heads B = post := by
  obtain ⟨A, B, rfl, hA, hB⟩ := filterMap_eq_append_iff.mp hs
  exact ⟨A, B, rfl, hA, hB⟩

/-! ## relinking -/

/-- `for (; p; p = p->next) p->down = d;`. -/
def hangLoop (d : Option Ptr) : Nat → Heap (Hung α) → Option Ptr → Option (Heap (Hung α))
  | _, h, none => some h
  | 0, _, some _ => none
  | n + 1, h, some p => do
    let c ← h p
    hangLoop d n (Function.update h p (some { c with data := { c.data with down := d } })) c.next

theorem hangLoop_spec (hrow : Seg h a (hang d row) none) (hnd : (row.map Prod.fst).Nodup) (hn : row.length ≤ n)
    (e : Option Ptr) :
    ∃ h', hangLoop e n h a = some h' ∧ Seg h' a (hang e row) none ∧ ∀ p, p ∉ row.map Prod.fst → h' p = h p := by
  induction row generalizing h a n with
  | nil =>
    obtain rfl : a = none := hrow
    exact ⟨h, by cases n <;> rfl, rfl, fun _ _ => rfl⟩
  | cons y row ih =>
    obtain ⟨rfl, next, hp, hrow⟩ := hrow
    obtain ⟨hy, hnd⟩ := nodup_cons.mp hnd
    obtain ⟨n, rfl, hn'⟩ := exists_round hn
    have hy' : y.1 ∉ (hang d row).map Prod.fst := by rwa [hang_fst]
    obtain ⟨h', hloop, hseg, hframe⟩ := ih (Seg.update hrow hy' (some ⟨next, ⟨e, y.2⟩⟩)) hnd hn'
    refine ⟨h', ?_, ⟨rfl, next, ?_, hseg⟩, ?_⟩
    · rw [hangLoop, hp, Option.bind_eq_bind, Option.bind_some]
      exact hloop
    · rw [hframe y.1 hy, Function.update_self]
    · intro p hp
      rw [map_cons, mem_cons, not_or] at hp
      rw [hframe p hp.2, Function.update_of_ne hp.1]

/-- `if (prev) for (; prev; prev = prev->next) prev->down = d; else head = d;`. -/
def redirect (h : Heap (Hung α)) (n : Nat) (head prev d : Option Ptr) : Option (Heap (Hung α) × Option Ptr) :=
  match prev with
  | none => some (h, d)
  | some p => do
    let h ← hangLoop d n h (some p)
    some (h, head)

/-- The rows `A` may lead elsewhere. -/
theorem redirect_spec (hA : Grid h head A b) (hnd : (addrs A).Nodup) (hn : (addrs A).length ≤ n) (d : Option Ptr) :
    ∃ h' head', redirect h n head ((heads A).getLast?.map Prod.fst) d = some (h', head') ∧ Grid h' head' A d ∧
      ∀ p, p ∉ addrs A → h' p = h p := by
  rcases eq_nil_or_concat A with rfl | ⟨A, row, rfl⟩
  · exact ⟨h, d, rfl, rfl, fun _ _ => rfl⟩
  · rw [concat_eq_append] at *
    obtain ⟨m, hA, hne, d₀, hrow, rfl⟩ := grid_append.mp hA
    have haddrs : addrs (A ++ [row]) = addrs A ++ row.map Prod.fst := by
      rw [addrs_append, addrs_cons]
      exact congrArg _ (append_nil _)
    rw [haddrs] at hnd hn
    obtain ⟨hndA, hndrow, hdisj⟩ := nodup_append.mp hnd
    have hlen : row.length ≤ n := by
      rw [length_append, length_map] at hn
      omega
    obtain ⟨h', hloop, hseg, hframe⟩ := hangLoop_spec hrow hndrow hlen d
    have hm : (heads (A ++ [row])).getLast?.map Prod.fst = m := by
      obtain ⟨y, row, rfl⟩ := exists_cons_of_ne_nil hne
      rw [hrow.1, heads_append]
      simp [heads]
    obtain ⟨p, rfl⟩ : ∃ p, m = some p := by
      obtain ⟨y, row, rfl⟩ := exists_cons_of_ne_nil hne
      exact ⟨y.1, hrow.1⟩
    refine ⟨h', head, ?_, grid_append.mpr ⟨some p, hA.frame ?_, hne, d, hseg, rfl⟩, ?_⟩
    · rw [hm, redirect, hloop]
      rfl
    · exact fun q hq => hframe q fun hq' => hdisj q hq q hq' rfl
    · intro q hq
      rw [haddrs, mem_append, not_or] at hq
      exact hframe q hq.2

/-- From one cell on a row may be exchanged for another. -/
theorem seg_splice {δ : Type} {h h' : Heap δ} {a next' : Option Ptr} {p : Ptr} {x x' : δ}
    {pre post post' : List (Ptr × δ)} (hseg : Seg h a (pre ++ (p, x) :: post) none)
    (hf : ∀ q ∈ pre.map Prod.fst, h' q = h q) (hp : h' p = some ⟨next', x'⟩) (hpost : Seg h' next' post' none) :
    Seg h' a (pre ++ (p, x') :: post') none := by
  obtain ⟨m, hpre, rfl, -⟩ := seg_append.mp hseg
  exact seg_append.mpr ⟨some p, hpre.frame hf, rfl, next', hp, hpost⟩

/-! ## the whole -/

/-- The rows in memory, with no cell in two places and room to allocate from `brk` on. -/
structure Rows (h : Heap (Hung α)) (head : Option Ptr) (brk : Nat) (rows : List (List (Ptr × α))) : Prop where
  grid : Grid h head rows none
  nodup : (addrs rows).Nodup
  below : ∀ p ∈ addrs rows, p < brk

namespace Rows

variable {brk brk' : Nat} {R R' : List (List (Ptr × α))} {c : Cell (Hung α)} {q : Ptr} {y x' : α}

theorem empty (h : Heap (Hung α)) (brk : Nat) : Rows h none brk [] :=
  ⟨rfl, nodup_nil, fun _ hp => absurd hp not_mem_nil⟩

theorem length_addrs (hr : Rows h head brk rows) : (addrs rows).length ≤ brk :=
  length_le_of_below hr.nodup hr.below

theorem length_heads (rows : List (List (Ptr × α))) : (heads rows).length ≤ (addrs rows).length := by
  induction rows with
  | nil => exact Nat.le_refl _
  | cons row rows ih =>
    rw [addrs_cons, length_append, length_map]
    cases row with
    | nil => exact Nat.le_trans ih (Nat.le_add_left _ _)
    | cons y row =>
      show (heads rows).length + 1 ≤ row.length + 1 + _
      omega

theorem length_row (hr : Rows h head brk rows) (hrow : row ∈ rows) : row.length ≤ brk := by
  obtain ⟨A, B, rfl⟩ := append_of_mem hrow
  have hlen := hr.length_addrs
  rw [addrs_append, addrs_cons, length_append, length_append, length_map] at hlen
  omega

/-- Where a row is, and where it leads. -/
theorem segment (hr : Rows h head brk (A ++ row :: B)) :
    row ≠ [] ∧ ∃ d, Grid h head A (row.head?.map Prod.fst) ∧ Seg h (row.head?.map Prod.fst) (hang d row) none ∧
      Grid h d B none := by
  obtain ⟨m, hA, hne, d, hrow, hB⟩ := grid_append.mp hr.grid
  obtain rfl : m = row.head?.map Prod.fst := by
    obtain ⟨y, row, rfl⟩ := exists_cons_of_ne_nil hne
    exact hrow.1
  exact ⟨hne, d, hA, hrow, hB⟩

theorem cell (hr : Rows h head brk (A ++ (pre ++ (p, x) :: post) :: B)) :
    ∃ d, h p = some ⟨post.head?.map Prod.fst, ⟨d, x⟩⟩ ∧ Grid h d B none ∧
      Seg h (post.head?.map Prod.fst) (hang d post) none := by
  obtain ⟨-, d, -, hrow, hB⟩ := hr.segment
  rw [hang, map_append] at hrow
  obtain ⟨m, -, -, next, hp, hpost⟩ := seg_append.mp hrow
  obtain rfl : next = post.head?.map Prod.fst := by
    rw [hpost.start]
    cases post <;> rfl
  exact ⟨d, hp, hB, hpost⟩

theorem addrs_middle (A B : List (List (Ptr × α))) (pre post : List (Ptr × α)) :
    addrs (A ++ (pre ++ post) :: B) = (addrs A ++ pre.map Prod.fst) ++ (post.map Prod.fst ++ addrs B) := by
  rw [addrs_append, addrs_cons, map_append]
  simp only [append_assoc]

/-- The cell is nowhere else. -/
theorem place (hr : Rows h head brk (A ++ (pre ++ (p, x) :: post) :: B)) :
    (p ∉ addrs A ∧ p ∉ pre.map Prod.fst) ∧ p ∉ post.map Prod.fst ∧ p ∉ addrs B := by
  have hnd := hr.nodup
  rw [addrs_middle, map_cons, cons_append, List.nodup_middle, nodup_cons] at hnd
  simpa only [mem_append, not_or] using hnd.1

theorem not_mem (hr : Rows h head brk rows) : brk ∉ addrs rows :=
  fun hp => absurd (hr.below brk hp) (Nat.lt_irrefl brk)

/-- A row is changed from one of its cells on. -/
theorem splice {next' : Option Ptr} {post' : List (Ptr × α)}
    (hr : Rows h head brk (A ++ (pre ++ (p, x) :: post) :: B)) (hp : h p = some c)
    (hp' : h' p = some ⟨next', ⟨c.data.down, x'⟩⟩) (hpost : Seg h' next' (hang c.data.down post') none)
    (hf : ∀ q, q ∈ addrs A ∨ q ∈ pre.map Prod.fst ∨ q ∈ addrs B → h' q = h q)
    (hnd : (addrs (A ++ (pre ++ (p, x') :: post') :: B)).Nodup)
    (hbelow : ∀ q ∈ addrs (A ++ (pre ++ (p, x') :: post') :: B), q < brk') :
    Rows h' head brk' (A ++ (pre ++ (p, x') :: post') :: B) := by
  obtain ⟨-, d, hgA, hrow, hgB⟩ := hr.segment
  rw [hang, map_append] at hrow
  have hd : c.data.down = d := by
    obtain ⟨m, -, -, next, hcell, -⟩ := seg_append.mp hrow
    rw [hp] at hcell
    exact congrArg (fun o : Cell (Hung α) => o.data.down) (Option.some.inj hcell)
  rw [hd] at hp' hpost
  refine ⟨grid_append.mpr ⟨_, hgA.frame fun q hq => hf q (.inl hq), by simp, d, ?_, ?_⟩, hnd, hbelow⟩
  · rw [hang, map_append]
    refine seg_splice hrow ?_ hp' hpost
    intro q hq
    rw [map_map] at hq
    exact hf q (.inr (.inl hq))
  · exact hgB.frame fun q hq => hf q (.inr (.inr hq))

/-- What comes after some rows is exchanged. -/
theorem redirect (hr : Rows h head brk (A ++ R)) (hA : ∀ q ∈ addrs A, h' q = h q) (hR : Grid h' d R' none)
    (hnd : (addrs (A ++ R')).Nodup) (hbelow : ∀ q ∈ addrs (A ++ R'), q < brk') (hn : brk ≤ n) :
    ∃ h₂ head', Lib.redirect h' n head ((heads A).getLast?.map Prod.fst) d = some (h₂, head') ∧
      Rows h₂ head' brk' (A ++ R') ∧ ∀ p, p ∉ addrs A → h₂ p = h' p := by
  obtain ⟨m, hgA, -⟩ := grid_append.mp hr.grid
  have hlen := hr.length_addrs
  rw [addrs_append, length_append] at hlen
  have hnd' := hnd
  rw [addrs_append] at hnd'
  obtain ⟨hndA, -, hdisj⟩ := nodup_append.mp hnd'
  obtain ⟨h₂, head', e, hg, hframe⟩ := redirect_spec (hgA.frame hA) hndA (show _ ≤ n by omega) d
  refine ⟨h₂, head', e, ⟨grid_append.mpr ⟨d, hg, hR.frame ?_⟩, hnd, hbelow⟩, hframe⟩
  exact fun q hq => hframe q fun hq' => hdisj q hq' q hq rfl

/-- The data of a cell is replaced. -/
theorem setData (hr : Rows h head brk (A ++ (pre ++ (p, x) :: post) :: B)) (hp : h p = some c) (x' : α) :
    Rows (Function.update h p (some ⟨c.next, ⟨c.data.down, x'⟩⟩)) head brk (A ++ (pre ++ (p, x') :: post) :: B) := by
  obtain ⟨d, hcell, -, hpost⟩ := hr.cell
  obtain ⟨⟨hA, hpre⟩, hpost', hB⟩ := hr.place
  have hnd := hr.nodup
  have hbelow := hr.below
  rw [addrs_middle] at hnd hbelow
  rw [hp] at hcell
  obtain rfl := Option.some.inj hcell
  refine hr.splice hp (Function.update_self ..) (Seg.update hpost ?_ _) ?_ ?_ ?_
  · rwa [hang_fst]
  · rintro q (hq | hq | hq)
    · exact Function.update_of_ne (ne_of_mem_of_not_mem hq hA) _ _
    · exact Function.update_of_ne (ne_of_mem_of_not_mem hq hpre) _ _
    · exact Function.update_of_ne (ne_of_mem_of_not_mem hq hB) _ _
  · rw [addrs_middle]
    exact hnd
  · rw [addrs_middle]
    exact hbelow

/-- A new cell follows another. -/
theorem pushAfter (hr : Rows h head brk (A ++ (pre ++ (p, x) :: post) :: B)) (hp : h p = some c) (y : α) :
    Rows (Function.update (Function.update h brk (some ⟨c.next, ⟨c.data.down, y⟩⟩)) p (some ⟨some brk, c.data⟩))
      head (brk + 1) (A ++ (pre ++ (p, x) :: (brk, y) :: post) :: B) := by
  obtain ⟨d, hcell, -, hpost⟩ := hr.cell
  obtain ⟨⟨hA, hpre⟩, hpost', hB⟩ := hr.place
  have hfresh := hr.not_mem
  have hall : (addrs (A ++ (pre ++ (p, x) :: (brk, y) :: post) :: B)).Perm
      (brk :: addrs (A ++ (pre ++ (p, x) :: post) :: B)) := by
    rw [addrs_middle, addrs_middle]
    simp only [map_cons, cons_append]
    exact (List.Perm.append_left _ (List.Perm.swap _ _ _)).trans perm_middle
  have hmem : ∀ q, q ∈ addrs A ∨ q ∈ pre.map Prod.fst ∨ q ∈ p :: post.map Prod.fst ∨ q ∈ addrs B → q ≠ brk := by
    rintro q hq rfl
    rw [addrs_middle] at hfresh
    simp only [mem_append, map_cons, not_or] at hfresh
    tauto
  rw [hp] at hcell
  obtain rfl := Option.some.inj hcell
  have hne : brk ≠ p := fun he => hmem p (by simp) he.symm
  refine hr.splice hp (Function.update_self ..) ⟨rfl, post.head?.map Prod.fst, ?_, ?_⟩ ?_ ?_ ?_
  · rw [Function.update_of_ne hne, Function.update_self]
  · refine Seg.frame hpost fun q (hq : q ∈ (hang d post).map Prod.fst) => ?_
    rw [hang_fst] at hq
    have hq' := hmem q (.inr (.inr (.inl (mem_cons_of_mem _ hq))))
    rw [Function.update_of_ne (ne_of_mem_of_not_mem hq hpost'), Function.update_of_ne hq']
  · intro q hq
    rw [Function.update_of_ne, Function.update_of_ne (hmem q (by tauto))]
    rintro rfl
    tauto
  · exact hall.nodup_iff.mpr (nodup_cons.mpr ⟨hfresh, hr.nodup⟩)
  · intro q hq
    rcases mem_cons.mp (hall.mem_iff.mp hq) with rfl | hq
    · exact Nat.lt_succ_self _
    · exact Nat.lt_succ_of_lt (hr.below q hq)

/-- A new cell is the first of what comes after some rows. -/
theorem insertBefore (hr : Rows h head brk (A ++ B)) (hf : ∀ q, q ≠ brk → h' q = h q) (hB : Grid h' (some brk) R' none)
    (hperm : (addrs R').Perm (brk :: addrs B)) (hn : brk ≤ n) :
    ∃ h₂ head', Lib.redirect h' n head ((heads A).getLast?.map Prod.fst) (some brk) = some (h₂, head') ∧
      Rows h₂ head' (brk + 1) (A ++ R') := by
  have hfresh := hr.not_mem
  have hnd := hr.nodup
  have hbelow := hr.below
  have hall : (addrs (A ++ R')).Perm (brk :: addrs (A ++ B)) := by
    rw [addrs_append, addrs_append]
    exact (List.Perm.append_left _ hperm).trans perm_middle
  have hA : ∀ q ∈ addrs A, h' q = h q := by
    intro q hq
    apply hf
    rintro rfl
    rw [addrs_append] at hfresh
    exact hfresh (mem_append_left _ hq)
  have hnd' : (addrs (A ++ R')).Nodup := hall.nodup_iff.mpr (nodup_cons.mpr ⟨hfresh, hnd⟩)
  have hbelow' : ∀ q ∈ addrs (A ++ R'), q < brk + 1 := by
    intro q hq
    rcases mem_cons.mp (hall.mem_iff.mp hq) with rfl | hq
    · exact Nat.lt_succ_self _
    · exact Nat.lt_succ_of_lt (hbelow q hq)
  obtain ⟨h₂, head', e, hrows, -⟩ := hr.redirect hA hB hnd' hbelow' hn
  exact ⟨h₂, head', e, hrows⟩

/-- A new cell is the first of a row. -/
theorem pushFront (hr : Rows h head brk (A ++ ((p, x) :: post) :: B)) (hp : h p = some c) (y : α) (hn : brk ≤ n) :
    ∃ h₂ head', Lib.redirect (Function.update h brk (some ⟨some p, ⟨c.data.down, y⟩⟩)) n head
        ((heads A).getLast?.map Prod.fst) (some brk) = some (h₂, head') ∧
      Rows h₂ head' (brk + 1) (A ++ ((brk, y) :: (p, x) :: post) :: B) := by
  have hfresh := hr.not_mem
  rw [addrs_append, addrs_cons, mem_append, mem_append, not_or, not_or] at hfresh
  obtain ⟨hne, d, hgA, hrow, hgB⟩ := hr.segment
  obtain ⟨-, next, hcell, hrow'⟩ := id hrow
  rw [hp] at hcell
  obtain rfl := Option.some.inj hcell
  refine hr.insertBefore (fun q hq => Function.update_of_ne hq _ _) ?_ ?_ hn
  · refine ⟨cons_ne_nil _ _, d, ⟨rfl, some p, Function.update_self .., ?_⟩, ?_⟩
    · refine Seg.update hrow ?_ _
      rw [hang_fst]
      exact hfresh.2.1
    · exact hgB.frame fun q hq => Function.update_of_ne (ne_of_mem_of_not_mem hq hfresh.2.2) _ _
  · rw [addrs_cons, addrs_cons]
    exact List.Perm.refl _

/-- A new cell is a row of its own. -/
theorem pushRow (hr : Rows h head brk (A ++ B)) (y : α) (hn : brk ≤ n) :
    ∃ h₂ head', Lib.redirect (Function.update h brk (some ⟨none, ⟨(heads B).head?.map Prod.fst, y⟩⟩)) n head
        ((heads A).getLast?.map Prod.fst) (some brk) = some (h₂, head') ∧
      Rows h₂ head' (brk + 1) (A ++ [(brk, y)] :: B) := by
  have hfresh := hr.not_mem
  rw [addrs_append, mem_append, not_or] at hfresh
  obtain ⟨m, -, hgB⟩ := grid_append.mp hr.grid
  have hm : m = (heads B).head?.map Prod.fst := by
    cases B with
    | nil => exact hgB
    | cons row B =>
      obtain ⟨hne, d, hrow, -⟩ := hgB
      obtain ⟨z, row, rfl⟩ := exists_cons_of_ne_nil hne
      exact hrow.1
  refine hr.insertBefore (fun q hq => Function.update_of_ne hq _ _) ?_ ?_ hn
  · refine ⟨cons_ne_nil _ _, m, ⟨rfl, none, ?_, rfl⟩, ?_⟩
    · rw [Function.update_self, hm]
    · exact hgB.frame fun q hq => Function.update_of_ne (ne_of_mem_of_not_mem hq hfresh.2) _ _
  · rw [addrs_cons]
    exact List.Perm.refl _

/-- Memory that is not in the rows may be freed. -/
theorem free (hr : Rows h head brk rows) (hp : p ∉ addrs rows) : Rows (Function.update h p none) head brk rows :=
  ⟨hr.grid.frame fun _ hq => Function.update_of_ne (ne_of_mem_of_not_mem hq hp) _ _, hr.nodup, hr.below⟩

/-- A cell behind another is taken out. -/
theorem removeAfter {o : Ptr} {co cp : Cell (Hung α)}
    (hr : Rows h head brk (A ++ (pre ++ (o, y) :: (p, x) :: post) :: B)) (ho : h o = some co) (hp : h p = some cp) :
    Rows (Function.update (Function.update h o (some ⟨cp.next, co.data⟩)) p none) head brk
      (A ++ (pre ++ (o, y) :: post) :: B) := by
  obtain ⟨d, hcell, -, -, next, hcell', hpost⟩ := hr.cell
  obtain ⟨⟨hA, hpre⟩, hpost', hB⟩ := hr.place
  have hall : (addrs (A ++ (pre ++ (o, y) :: (p, x) :: post) :: B)).Perm
      (p :: addrs (A ++ (pre ++ (o, y) :: post) :: B)) := by
    rw [addrs_middle, addrs_middle]
    simp only [map_cons, cons_append]
    exact (List.Perm.append_left _ (List.Perm.swap _ _ _)).trans perm_middle
  obtain ⟨hp', hnd⟩ := nodup_cons.mp (hall.nodup_iff.mp hr.nodup)
  rw [ho] at hcell
  rw [hp] at hcell'
  obtain rfl := Option.some.inj hcell
  obtain rfl := Option.some.inj hcell'
  rw [map_cons, mem_cons, not_or] at hpost'
  refine free ?_ hp'
  refine hr.splice ho (Function.update_self ..) (Seg.frame hpost fun q hq => ?_) ?_ hnd ?_
  · have hq : q ∈ (hang d post).map Prod.fst := hq
    rw [hang_fst] at hq
    exact Function.update_of_ne (ne_of_mem_of_not_mem hq hpost'.2) _ _
  · rintro q (hq | hq | hq)
    · exact Function.update_of_ne (ne_of_mem_of_not_mem hq hA) _ _
    · exact Function.update_of_ne (ne_of_mem_of_not_mem hq hpre) _ _
    · exact Function.update_of_ne (ne_of_mem_of_not_mem hq hB) _ _
  · exact fun q hq => hr.below q (hall.mem_iff.mpr (mem_cons_of_mem _ hq))

/-- A row that may have become empty. -/
def consRow : List (Ptr × α) → List (List (Ptr × α)) → List (List (Ptr × α))
  | [], B => B
  | y :: row, B => (y :: row) :: B

theorem addrs_consRow (row : List (Ptr × α)) (B : List (List (Ptr × α))) :
    addrs (consRow row B) = row.map Prod.fst ++ addrs B := by
  cases row with
  | nil => rfl
  | cons y row => exact addrs_cons _ _

/-- The first cell of a row is taken out. -/
theorem removeFirst (hr : Rows h head brk (A ++ ((p, x) :: post) :: B)) (hp : h p = some c) (hn : brk ≤ n) :
    ∃ h₂ head', Lib.redirect h n head ((heads A).getLast?.map Prod.fst) (c.next.or c.data.down) = some (h₂, head') ∧
      Rows (Function.update h₂ p none) head' brk (A ++ consRow post B) := by
  obtain ⟨-, d, -, ⟨-, next, hcell, hpost⟩, hgB⟩ := hr.segment
  rw [hp] at hcell
  obtain rfl := Option.some.inj hcell
  have hall : (addrs (A ++ ((p, x) :: post) :: B)).Perm (p :: addrs (A ++ consRow post B)) := by
    rw [addrs_append, addrs_cons, addrs_append, addrs_consRow]
    exact perm_middle
  obtain ⟨hp', hnd⟩ := nodup_cons.mp (hall.nodup_iff.mp hr.nodup)
  have hg : Grid h (next.or d) (consRow post B) none := by
    cases post with
    | nil =>
      obtain rfl : next = none := hpost
      exact hgB
    | cons z post =>
      have hpost : Seg h next (hang d (z :: post)) none := hpost
      obtain rfl : next = some z.1 := hpost.1
      exact ⟨cons_ne_nil _ _, d, hpost, hgB⟩
  have hbelow : ∀ q ∈ addrs (A ++ consRow post B), q < brk :=
    fun q hq => hr.below q (hall.mem_iff.mpr (mem_cons_of_mem _ hq))
  obtain ⟨h₂, head', e, hrows, -⟩ := hr.redirect (fun _ _ => rfl) hg hnd hbelow hn
  exact ⟨h₂, head', e, hrows.free hp'⟩

end Rows

/-! ## all cells -/

/-- `for (; p; p = p->next) p->data = f(p->data);`. -/
def mapRow (f : α → α) : Nat → Heap (Hung α) → Option Ptr → Option (Heap (Hung α))
  | _, h, none => some h
  | 0, _, some _ => none
  | n + 1, h, some p => do
    let c ← h p
    mapRow f n (Function.update h p (some ⟨c.next, ⟨c.data.down, f c.data.data⟩⟩)) c.next

/-- The same with all rows, each of at most `m` cells. -/
def mapRows (f : α → α) (m : Nat) : Nat → Heap (Hung α) → Option Ptr → Option (Heap (Hung α))
  | _, h, none => some h
  | 0, _, some _ => none
  | n + 1, h, some p => do
    let h ← mapRow f m h (some p)
    let c ← h p
    mapRows f m n h c.data.down

/-- The data of a row. -/
def listRow (h : Heap (Hung α)) : Nat → Option Ptr → List α
  | n + 1, some p =>
    match h p with
    | some c => c.data.data :: listRow h n c.next
    | none => []
  | _, _ => []

/-- The data of all rows. -/
def listRows (h : Heap (Hung α)) (m : Nat) : Nat → Option Ptr → List (List α)
  | n + 1, some p =>
    match h p with
    | some c => listRow h m (some p) :: listRows h m n c.data.down
    | none => []
  | _, _ => []

variable {f : α → α} {m : Nat}

theorem mapRow_spec (hrow : Seg h a (hang d row) none) (hnd : (row.map Prod.fst).Nodup) (hn : row.length ≤ n) :
    ∃ h', mapRow f n h a = some h' ∧ Seg h' a (hang d (row.map fun y => (y.1, f y.2))) none ∧
      ∀ p, p ∉ row.map Prod.fst → h' p = h p := by
  induction row generalizing h a n with
  | nil =>
    obtain rfl : a = none := hrow
    exact ⟨h, by cases n <;> rfl, rfl, fun _ _ => rfl⟩
  | cons y row ih =>
    obtain ⟨rfl, next, hp, hrow⟩ := hrow
    obtain ⟨hy, hnd⟩ := nodup_cons.mp hnd
    obtain ⟨n, rfl, hn'⟩ := exists_round hn
    have hy' : y.1 ∉ (hang d row).map Prod.fst := by rwa [hang_fst]
    obtain ⟨h', hloop, hseg, hframe⟩ := ih (Seg.update hrow hy' (some ⟨next, ⟨d, f y.2⟩⟩)) hnd hn'
    refine ⟨h', ?_, ⟨rfl, next, ?_, hseg⟩, ?_⟩
    · rw [mapRow, hp, Option.bind_eq_bind, Option.bind_some]
      exact hloop
    · rw [hframe y.1 hy, Function.update_self]
    · intro p hp
      rw [map_cons, mem_cons, not_or] at hp
      rw [hframe p hp.2, Function.update_of_ne hp.1]

theorem mapRows_spec (hg : Grid h a rows none) (hnd : (addrs rows).Nodup) (hm : ∀ row ∈ rows, row.length ≤ m)
    (hn : rows.length ≤ n) :
    ∃ h', mapRows f m n h a = some h' ∧ Grid h' a (rows.map (·.map fun y => (y.1, f y.2))) none ∧
      ∀ p, p ∉ addrs rows → h' p = h p := by
  induction rows generalizing h a n with
  | nil =>
    obtain rfl : a = none := hg
    exact ⟨h, by cases n <;> rfl, rfl, fun _ _ => rfl⟩
  | cons row rows ih =>
    obtain ⟨hne, d, hrow, hg⟩ := hg
    rw [addrs_cons] at hnd
    obtain ⟨hndrow, hndrows, hdisj⟩ := nodup_append.mp hnd
    obtain ⟨hmrow, hmrows⟩ := forall_mem_cons.mp hm
    obtain ⟨n, rfl, hn'⟩ := exists_round hn
    obtain ⟨h₁, hloop, hrow₁, hframe₁⟩ := mapRow_spec (f := f) hrow hndrow hmrow
    have hg₁ : Grid h₁ d rows none := hg.frame fun p hp => hframe₁ p fun hp' => hdisj p hp' p hp rfl
    obtain ⟨h₂, hloops, hg₂, hframe₂⟩ := ih hg₁ hndrows hmrows hn'
    have hrow₂ : Seg h₂ a (hang d (row.map fun y => (y.1, f y.2))) none := by
      refine Seg.frame hrow₁ fun p hp => hframe₂ p ?_
      rw [hang_fst, map_map] at hp
      exact fun hp' => hdisj p hp p hp' rfl
    obtain ⟨y, row, rfl⟩ := exists_cons_of_ne_nil hne
    obtain ⟨rfl, next, hp, -⟩ := id hrow₁
    refine ⟨h₂, ?_, ⟨by simp, d, hrow₂, hg₂⟩, ?_⟩
    · rw [mapRows, hloop, Option.bind_eq_bind, Option.bind_some, hp, Option.bind_eq_bind, Option.bind_some]
      exact hloops
    · intro q hq
      rw [addrs_cons, mem_append, not_or] at hq
      rw [hframe₂ q hq.2, hframe₁ q hq.1]

theorem listRow_eq (hrow : Seg h a (hang d row) none) (hn : row.length ≤ n) : listRow h n a = row.map Prod.snd := by
  induction row generalizing a n with
  | nil =>
    obtain rfl : a = none := hrow
    cases n <;> rfl
  | cons y row ih =>
    obtain ⟨rfl, next, hp, hrow⟩ := hrow
    obtain ⟨n, rfl, hn'⟩ := exists_round hn
    rw [listRow, hp, map_cons, ← ih hrow hn']

theorem listRows_eq (hg : Grid h a rows none) (hm : ∀ row ∈ rows, row.length ≤ m) (hn : rows.length ≤ n) :
    listRows h m n a = rows.map (·.map Prod.snd) := by
  induction rows generalizing a n with
  | nil =>
    obtain rfl : a = none := hg
    cases n <;> rfl
  | cons row rows ih =>
    obtain ⟨hne, d, hrow, hg⟩ := hg
    obtain ⟨hmrow, hmrows⟩ := forall_mem_cons.mp hm
    obtain ⟨n, rfl, hn'⟩ := exists_round hn
    have hlist := listRow_eq hrow hmrow
    obtain ⟨y, row, rfl⟩ := exists_cons_of_ne_nil hne
    obtain ⟨rfl, next, hp, -⟩ := id hrow
    rw [listRows, hp, map_cons, ← ih hg hmrows hn', ← hlist]

namespace Rows

theorem length_rows {brk : Nat} (hr : Rows h head brk rows) : rows.length ≤ brk := by
  have hheads : (heads rows).length = rows.length :=
    filterMap_length_eq_length.mpr fun row hrow => by
      obtain ⟨y, row, rfl⟩ := exists_cons_of_ne_nil (hr.grid.rows_ne row hrow)
      rfl
  rw [← hheads]
  exact Nat.le_trans (length_heads rows) hr.length_addrs

theorem list {brk : Nat} (hr : Rows h head brk rows) : listRows h brk brk head = rows.map (·.map Prod.snd) :=
  listRows_eq hr.grid (fun _ hrow => hr.length_row hrow) hr.length_rows

theorem mapAll {brk : Nat} (hr : Rows h head brk rows) (f : α → α) :
    ∃ h', mapRows f brk brk h head = some h' ∧ Rows h' head brk (rows.map (·.map fun y => (y.1, f y.2))) := by
  obtain ⟨h', e, hg, -⟩ := mapRows_spec hr.grid hr.nodup (fun _ hrow => hr.length_row hrow) hr.length_rows
  have haddrs : addrs (rows.map (·.map fun y => (y.1, f y.2))) = addrs rows := by
    rw [addrs, addrs, ← map_flatten, map_map]
    rfl
  exact ⟨h', e, hg, haddrs ▸ hr.nodup, haddrs ▸ hr.below⟩

end Rows

end Priot.Lib
