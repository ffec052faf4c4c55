/-
# Large sets of descriptors

The bits of a set are kept in the structure itself up to `FD_SETSIZE` and in allocated memory beyond. Allocations
succeed; what they hold is arbitrary. For descriptors below 2^29 every size is an `int`.
-/
import Priot.Lib.Bits
import Mathlib.Data.Finset.Range
import Mathlib.Data.Finset.Filter
import Mathlib.Data.Finset.Erase

namespace Priot.Dispatcher

open Lib List

def FD_SETSIZE : Nat := 1024

/-! ## operations -/

structure FdSet where
  bits : Words
  length_eq : bits.length = 16

/-- Where the bits are. -/
inductive FdSetPtr where
  | null
  | embedded
  | heap (block : Words)

/-- `LargeFdSet_t`. -/
structure LargeFdSet where
  fdSetSize : Nat
  fdSetPtr : FdSetPtr
  fdSet : Words

def setBytes (setSize : Nat) : Nat :=
  128 + if setSize > FD_SETSIZE then (setSize - FD_SETSIZE + 64 - 1) / 64 * 8 else 0

/-- An assignment of a `fd_set` to the memory at a pointer. -/
def writeFdSet (block fdSet : Words) : Option Words :=
  if fdSet.length ≤ block.length then some (fdSet ++ block.drop fdSet.length) else none

/-- The `fd_set` at a pointer. -/
def readFdSet (block : Words) : Option Words := if 16 ≤ block.length then some (block.take 16) else none

/-- `FD_ZERO`. -/
def zeroFdSet : Words := List.replicate 16 0

namespace LargeFdSet

/-- `*largeFdSet->fdSetPtr`. -/
def words (s : LargeFdSet) : Option Words :=
  match s.fdSetPtr with
  | .null => none
  | .embedded => some s.fdSet
  | .heap block => some block

def store (s : LargeFdSet) (words : Words) : LargeFdSet :=
  match s.fdSetPtr with
  | .null => s
  | .embedded => { s with fdSet := words }
  | .heap _ => { s with fdSetPtr := .heap words }

/-- A write through the pointer. -/
def access (s : LargeFdSet) (f : Words → Option Words) : Option LargeFdSet :=
  s.words.bind fun words => (f words).map s.store

/-- The part of `LargeFdSet_resize` that finds a place for the bits. -/
def relocate (junk : Nat → BitVec 64) (s : LargeFdSet) (setSize : Nat) : Option LargeFdSet :=
  if setSize > FD_SETSIZE then
    let count := setBytes setSize / 8
    if s.fdSetSize > FD_SETSIZE then
      match s.fdSetPtr with
      | .heap old => some { s with fdSetPtr := .heap ((List.range count).map fun k => old.getD k (junk k)) }
      | _ => none
    else (writeFdSet ((List.range count).map junk) s.fdSet).map fun block => { s with fdSetPtr := .heap block }
  else if s.fdSetSize > FD_SETSIZE then
    match s.fdSetPtr with
    | .heap old => (readFdSet old).map fun fdSet => { s with fdSetPtr := .embedded, fdSet := fdSet }
    | _ => none
  else some { s with fdSetPtr := .embedded }

/-- `LargeFdSet_resize`. New memory depends on the size it is allocated for. -/
def resize (junk : Nat → Nat → BitVec 64) (s : LargeFdSet) (setSize : Nat) : Option LargeFdSet :=
  if s.fdSetSize = setSize then some s
  else
    (relocate (junk setSize) s setSize).bind fun moved =>
      let cleared :=
        if s.fdSetSize = 0 ∧ setSize = FD_SETSIZE then moved.access fun words => writeFdSet words zeroFdSet
        else moved.access fun words => clrBits words s.fdSetSize setSize
      cleared.map fun cleared => { cleared with fdSetSize := setSize }

/-- The loop of `LargeFdSet_set`, with the rounds that it may take. -/
def setLoop (junk : Nat → Nat → BitVec 64) (fd : Nat) : Nat → LargeFdSet → Option LargeFdSet
  | 0, s => if fd ≥ s.fdSetSize then none else some s
  | fuel + 1, s =>
    if fd ≥ s.fdSetSize then (resize junk s (2 * (s.fdSetSize + 1))).bind (setLoop junk fd fuel) else some s

def set (junk : Nat → Nat → BitVec 64) (fd : Nat) (s : LargeFdSet) : Option LargeFdSet :=
  (setLoop junk fd (fd + 1) s).bind fun s => s.access fun words => setBit words fd

def clr (fd : Nat) (s : LargeFdSet) : Option LargeFdSet :=
  if fd < s.fdSetSize then s.access fun words => clrBit words fd else some s

def isSet (fd : Nat) (s : LargeFdSet) : Option Bool :=
  if fd < s.fdSetSize then s.words.bind fun words => testBit words fd else some false

def init (junk : Nat → Nat → BitVec 64) (s : LargeFdSet) (setSize : Nat) : Option LargeFdSet :=
  resize junk { s with fdSetSize := 0, fdSetPtr := .null } setSize

def copyFromFdSet (junk : Nat → Nat → BitVec 64) (dst : LargeFdSet) (src : FdSet) : Option LargeFdSet :=
  (resize junk dst FD_SETSIZE).bind fun dst => dst.access fun words => writeFdSet words src.bits

/-- `LargeFdSet_copyToFdSet`, with the `fd_set` that is written. -/
def copyToFdSet (src : LargeFdSet) : Option (Int × Words) :=
  if src.fdSetSize > FD_SETSIZE then some (-1, zeroFdSet)
  else
    src.words.bind fun words => (readFdSet words).bind fun dst =>
      (clrBits dst src.fdSetSize FD_SETSIZE).map fun dst => (0, dst)

end LargeFdSet

inductive SetOp where
  | init (setSize : Nat)
  | set (fd : Nat)
  | clr (fd : Nat)
  | isSet (fd : Nat)
  | resize (setSize : Nat)
  | copyFromFdSet (src : FdSet)
  | copyToFdSet

/-- A call, and what the memory holds that it allocates. -/
structure SetCall where
  op : SetOp
  junk : Nat → Nat → BitVec 64

/-- The members of a `fd_set`. -/
def fdMembers (bits : Words) : Finset Nat := (Finset.range FD_SETSIZE).filter fun fd => bit bits fd = true

inductive SetReply where
  | void
  | isSet (answer : Bool)
  | copied (ret : Int) (members : Finset Nat)

/-- One call; there is no result if it reaches beyond the memory it has. -/
def LargeFdSet.step (s : LargeFdSet) (call : SetCall) : Option (SetReply × LargeFdSet) :=
  match call.op with
  | .init setSize => (s.init call.junk setSize).map fun s => (.void, s)
  | .set fd => (s.set call.junk fd).map fun s => (.void, s)
  | .clr fd => (s.clr fd).map fun s => (.void, s)
  | .isSet fd => (s.isSet fd).map fun answer => (.isSet answer, s)
  | .resize setSize => (s.resize call.junk setSize).map fun s => (.void, s)
  | .copyFromFdSet src => (s.copyFromFdSet call.junk src).map fun s => (.void, s)
  | .copyToFdSet => s.copyToFdSet.map fun r => (.copied r.1 (fdMembers r.2), s)

def LargeFdSet.run : LargeFdSet → List SetCall → Option (List SetReply)
  | _, [] => some []
  | s, call :: calls => (s.step call).bind fun r => (run r.2 calls).map fun replies => r.1 :: replies

/-! ## finite sets -/

/-- A size and a set, and whether the size has been another than 0 since the set was initialised. -/
structure Members where
  size : Nat
  members : Finset Nat
  sized : Bool

namespace Members

/-- The size from which on there is room for a descriptor. -/
def grow (fd size : Nat) : Nat := if fd < size then size else grow fd (2 * (size + 1))
termination_by fd + 1 - size

/-- What an initialisation begins with. -/
def empty : Members := ⟨0, ∅, false⟩

/-- Members that are not below the new size are dropped. -/
def resize (a : Members) (setSize : Nat) : Members where
  size := setSize
  members := a.members.filter (· < setSize)
  sized := a.sized || decide (setSize ≠ a.size)

def step (a : Members) : SetOp → SetReply × Members
  | .init setSize => (.void, empty.resize setSize)
  | .set fd => (.void, ⟨grow fd a.size, insert fd a.members, true⟩)
  | .clr fd => (.void, { a with members := a.members.erase fd })
  | .isSet fd => (.isSet (decide (fd ∈ a.members)), a)
  | .resize setSize => (.void, a.resize setSize)
  | .copyFromFdSet src => (.void, ⟨FD_SETSIZE, fdMembers src.bits, true⟩)
  | .copyToFdSet => (if a.size ≤ FD_SETSIZE then .copied 0 a.members else .copied (-1) ∅, a)

def run : Members → List SetCall → List SetReply
  | _, [] => []
  | a, call :: calls => (a.step call.op).1 :: run (a.step call.op).2 calls

/-- A set is copied to a `fd_set` only if its size has been another than 0. -/
def Sized (a : Members) : SetOp → Prop
  | .copyToFdSet => a.sized = true
  | _ => True

def AllSized : Members → List SetCall → Prop
  | _, [] => True
  | a, call :: calls => a.Sized call.op ∧ AllSized (a.step call.op).2 calls

end Members

/-! ## places -/

variable {s : LargeFdSet} {a : Members} {n : Nat} {w w' : Words}

/-- The bits below a size are in these words, which are where they belong for that size. -/
inductive Placed (s : LargeFdSet) (n : Nat) (w : Words) : Prop where
  | embedded (ptr : s.fdSetPtr = .embedded) (le : n ≤ FD_SETSIZE) (words : s.fdSet = w) (length : w.length = 16)
  | heap (ptr : s.fdSetPtr = .heap w) (lt : FD_SETSIZE < n) (length : w.length = (n + 63) / 64)
      (fdSet : s.fdSet.length = 16)

theorem Placed.words (h : Placed s n w) : s.words = some w := by
  cases h with
  | embedded ptr _ words _ => rw [LargeFdSet.words, ptr, ← words]
  | heap ptr _ _ _ => rw [LargeFdSet.words, ptr]

theorem Placed.room (h : Placed s n w) : n ≤ 64 * w.length ∧ 16 ≤ w.length := by
  cases h with
  | embedded _ le _ length =>
    rw [FD_SETSIZE] at le
    omega
  | heap _ lt length _ =>
    rw [FD_SETSIZE] at lt
    omega

theorem Placed.fdSet (h : Placed s n w) : s.fdSet.length = 16 := by
  cases h with
  | embedded _ _ words length => rw [words, length]
  | heap _ _ _ fdSet => exact fdSet

theorem Placed.store (h : Placed s n w) (hlength : w'.length = w.length) : Placed (s.store w') n w' := by
  cases h with
  | embedded ptr le words length =>
    rw [LargeFdSet.store, ptr]
    exact .embedded rfl le rfl (hlength.trans length)
  | heap ptr lt length fdSet =>
    rw [LargeFdSet.store, ptr]
    exact .heap rfl lt (hlength.trans length) fdSet

theorem store_fdSetSize (s : LargeFdSet) (w : Words) : (s.store w).fdSetSize = s.fdSetSize := by
  unfold LargeFdSet.store
  split <;> rfl

theorem Placed.access (h : Placed s n w) {f : Words → Option Words} (hf : f w = some w')
    (hlength : w'.length = w.length) : s.access f = some (s.store w') ∧ Placed (s.store w') n w' := by
  rw [LargeFdSet.access, h.words, Option.bind_some, hf]
  exact ⟨rfl, h.store hlength⟩

theorem Placed.of_size (h : Placed s n w) (size : Nat) : Placed { s with fdSetSize := size } n w := by
  cases h with
  | embedded ptr le words length => exact .embedded ptr le words length
  | heap ptr lt length fdSet => exact .heap ptr lt length fdSet

theorem bit_congr {i : Nat} (h : w[i / 64]? = w'[i / 64]?) : bit w i = bit w' i := by
  rw [bit, bit, getD_eq_getElem?_getD, getD_eq_getElem?_getD, h]

theorem setBytes_div (h : FD_SETSIZE < n) : setBytes n / 8 = (n + 63) / 64 := by
  rw [setBytes, if_pos h]
  rw [FD_SETSIZE] at *
  omega

theorem writeFdSet_spec {fdSet : Words} (hlength : fdSet.length = 16) (hroom : 16 ≤ w.length) :
    ∃ w', writeFdSet w fdSet = some w' ∧ w'.length = w.length ∧ ∀ i < FD_SETSIZE, bit w' i = bit fdSet i := by
  refine ⟨fdSet ++ w.drop fdSet.length, if_pos (by omega), ?_, fun i hi => bit_congr ?_⟩
  · rw [length_append, length_drop]
    omega
  · rw [FD_SETSIZE] at hi
    exact getElem?_append_left (by omega)

theorem readFdSet_spec (hroom : 16 ≤ w.length) :
    ∃ fdSet, readFdSet w = some fdSet ∧ fdSet.length = 16 ∧ ∀ i < FD_SETSIZE, bit fdSet i = bit w i := by
  refine ⟨w.take 16, if_pos hroom, ?_, fun i hi => bit_congr ?_⟩
  · rw [length_take]
    omega
  · rw [FD_SETSIZE] at hi
    exact getElem?_take_of_lt (by omega)

theorem bit_zeroFdSet (i : Nat) : bit zeroFdSet i = false := by
  rw [bit, zeroFdSet, getD_eq_getElem?_getD, getElem?_replicate]
  split <;> exact BitVec.getLsbD_zero

theorem relocate_spec (h : Placed s s.fdSetSize w) (junk : Nat → BitVec 64) (n : Nat) :
    ∃ s' w', s.relocate junk n = some s' ∧ s'.fdSetSize = s.fdSetSize ∧ Placed s' n w' ∧
      ∀ i, i < s.fdSetSize → i < n → bit w' i = bit w i := by
  unfold LargeFdSet.relocate
  by_cases hn : n > FD_SETSIZE
  · have hbytes := setBytes_div hn
    rw [if_pos hn, hbytes]
    cases h with
    | embedded ptr le words length =>
      -- into new memory
      obtain ⟨block, hwrite, hlength, hbits⟩ := @writeFdSet_spec
        ((List.range ((n + 63) / 64)).map junk) s.fdSet (by rw [words, length])
        (by rw [length_map, length_range, FD_SETSIZE] at *; omega)
      rw [if_neg (Nat.not_lt.2 le), hwrite]
      rw [length_map, length_range] at hlength
      refine ⟨_, block, rfl, rfl, .heap rfl hn hlength (by rw [words, length]), fun i hi _ => ?_⟩
      rw [hbits i (Nat.lt_of_lt_of_le hi le), words]
    | heap ptr lt length fdSet =>
      rw [if_pos lt, ptr]
      refine ⟨_, _, rfl, rfl, .heap rfl hn (by rw [length_map, length_range]) fdSet,
        fun i hi hin => bit_congr ?_⟩
      have hold : i / 64 < w.length := by omega
      rw [getElem?_map, getElem?_range (by omega), Option.map_some, getD_eq_getElem?_getD,
        getElem?_eq_getElem hold, Option.getD_some]
  · rw [if_neg hn]
    cases h with
    | embedded ptr le words length =>
      rw [if_neg (Nat.not_lt.2 le)]
      exact ⟨_, w, rfl, rfl, .embedded rfl (Nat.not_lt.1 hn) words length, fun _ _ _ => rfl⟩
    | heap ptr lt length fdSet =>
      -- back into the structure
      obtain ⟨embedded, hread, hlength, hbits⟩ := readFdSet_spec (w := w) (by rw [FD_SETSIZE] at lt; omega)
      rw [if_pos lt, ptr]
      simp only [hread, Option.map_some]
      exact ⟨_, embedded, rfl, rfl, .embedded rfl (Nat.not_lt.1 hn) rfl hlength,
        fun i _ hin => hbits i (by omega)⟩

theorem relocate_embedded (h : s.fdSetSize ≤ FD_SETSIZE) (junk : Nat → BitVec 64) (n : Nat) :
    s.relocate junk n = LargeFdSet.relocate junk { s with fdSetPtr := .embedded } n := by
  unfold LargeFdSet.relocate
  rw [if_neg (Nat.not_lt.2 h), if_neg (Nat.not_lt.2 h), if_neg (Nat.not_lt.2 h), if_neg (Nat.not_lt.2 h)]

/-! ## sets -/

/-- The bits below the size are the members, or there are no bits yet. -/
inductive Holds (s : LargeFdSet) (a : Members) : Prop where
  | bare (ptr : s.fdSetPtr = .null) (size : s.fdSetSize = 0) (fdSet : s.fdSet.length = 16) (none : a = .empty)
  | placed (w : Words) (size : s.fdSetSize = a.size) (sized : a.sized = true) (place : Placed s a.size w)
      (bits : ∀ i < a.size, bit w i = decide (i ∈ a.members)) (lt : ∀ i ∈ a.members, i < a.size)

theorem Holds.size (h : Holds s a) : s.fdSetSize = a.size := by
  cases h with
  | bare _ size _ none =>
    rw [size, none]
    rfl
  | placed _ size _ _ _ _ => exact size

theorem Holds.lt (h : Holds s a) : ∀ i ∈ a.members, i < a.size := by
  cases h with
  | bare _ _ _ none =>
    rw [none]
    exact fun i hi => absurd hi (Finset.notMem_empty i)
  | placed _ _ _ _ _ lt => exact lt

theorem Holds.fdSet (h : Holds s a) : s.fdSet.length = 16 := by
  cases h with
  | bare _ _ fdSet _ => exact fdSet
  | placed _ _ _ place _ _ => exact place.fdSet

theorem Holds.relocate (h : Holds s a) (junk : Nat → BitVec 64) (n : Nat) :
    ∃ s' w', s.relocate junk n = some s' ∧ Placed s' n w' ∧
      ∀ i, i < a.size → i < n → bit w' i = decide (i ∈ a.members) := by
  cases h with
  | bare ptr size fdSet none =>
    have hplaced : Placed { s with fdSetPtr := .embedded } s.fdSetSize s.fdSet :=
      .embedded rfl (by rw [size]; exact Nat.zero_le _) rfl fdSet
    obtain ⟨s', w', hmove, -, hplace, -⟩ := relocate_spec hplaced junk n
    refine ⟨s', w', ?_, hplace, fun i hi _ => ?_⟩
    · rw [relocate_embedded (by rw [size]; exact Nat.zero_le _), hmove]
    · rw [none] at hi
      exact absurd hi (Nat.not_lt_zero i)
  | placed w size sized place bits lt =>
    rw [← size] at place
    obtain ⟨s', w', hmove, -, hplace, hbits⟩ := relocate_spec place junk n
    refine ⟨s', w', hmove, hplace, fun i hi hn => ?_⟩
    rw [hbits i (by rw [size]; exact hi) hn, bits i hi]

theorem resize_self (h : Holds s a) : a.resize a.size = a := by
  have hmembers : a.members.filter (· < a.size) = a.members := Finset.filter_true_of_mem h.lt
  rw [Members.resize, hmembers, decide_eq_false fun hne => hne rfl, Bool.or_false]

theorem resize_spec (h : Holds s a) (junk : Nat → Nat → BitVec 64) (n : Nat) :
    ∃ s', s.resize junk n = some s' ∧ Holds s' (a.resize n) := by
  have hsize := h.size
  unfold LargeFdSet.resize
  by_cases hn : s.fdSetSize = n
  · rw [if_pos hn]
    refine ⟨s, rfl, ?_⟩
    rwa [← hn, hsize, resize_self h]
  · obtain ⟨moved, w, hmove, hplace, hbits⟩ := h.relocate (junk n) n
    rw [if_neg hn, hmove, Option.bind_some]
    have hsized : (a.resize n).sized = true := by
      have hne : n ≠ a.size := fun heq => hn (hsize.trans heq.symm)
      rw [Members.resize, decide_eq_true hne, Bool.or_true]
    have hlt : ∀ i ∈ (a.resize n).members, i < (a.resize n).size := fun i hi => (Finset.mem_filter.1 hi).2
    by_cases hzero : s.fdSetSize = 0 ∧ n = FD_SETSIZE
    · obtain ⟨w', hwrite, hlength, hclear⟩ :=
        @writeFdSet_spec _ zeroFdSet (length_replicate ..) hplace.room.2
      obtain ⟨haccess, hplace'⟩ :=
        hplace.access (f := fun words => writeFdSet words zeroFdSet) hwrite hlength
      simp only [if_pos hzero, haccess]
      refine ⟨_, rfl, .placed w' rfl hsized (hplace'.of_size n) (fun i hi => ?_) hlt⟩
      have hnone : i ∉ (a.resize n).members := by
        intro hmem
        have hold := h.lt i (Finset.mem_filter.1 hmem).1
        rw [← hsize, hzero.1] at hold
        exact Nat.not_lt_zero i hold
      rw [hclear i (Nat.lt_of_lt_of_eq hi hzero.2), decide_eq_false hnone, bit_zeroFdSet]
    · obtain ⟨w', hclear, hlength, hclear'⟩ := @clrBits_spec _ s.fdSetSize _ hplace.room.1
      obtain ⟨haccess, hplace'⟩ :=
        hplace.access (f := fun words => clrBits words s.fdSetSize n) hclear hlength
      simp only [if_neg hzero, haccess]
      refine ⟨_, rfl, .placed w' rfl hsized (hplace'.of_size n) (fun i hi => ?_) hlt⟩
      have hin : i < n := hi
      have hmem : (i ∈ (a.resize n).members) = (i ∈ a.members) :=
        propext ⟨fun hmem => (Finset.mem_filter.1 hmem).1, fun hmem => Finset.mem_filter.2 ⟨hmem, hin⟩⟩
      rw [hclear', hsize]
      simp only [hmem]
      by_cases hold : i < a.size
      · have hrange : ¬ (a.size ≤ i ∧ i < n) := fun hrange => Nat.not_lt.2 hrange.1 hold
        rw [hbits i hold hin, decide_eq_false hrange, Bool.not_false, Bool.and_true]
      · have hrange : a.size ≤ i ∧ i < n := ⟨Nat.not_lt.1 hold, hin⟩
        rw [decide_eq_true hrange, Bool.not_true, Bool.and_false, decide_eq_false fun hin => hold (h.lt i hin)]

theorem Holds.access (h : Holds s a) (hpos : 0 < a.size) {f : Words → Option Words} {t : Finset Nat}
    (hlt : ∀ i ∈ t, i < a.size)
    (hf : ∀ w, a.size ≤ 64 * w.length → 16 ≤ w.length → (∀ i < a.size, bit w i = decide (i ∈ a.members)) →
      ∃ w', f w = some w' ∧ w'.length = w.length ∧ ∀ i < a.size, bit w' i = decide (i ∈ t)) :
    ∃ s', s.access f = some s' ∧ Holds s' ⟨a.size, t, true⟩ := by
  cases h with
  | bare _ _ _ none =>
    rw [none] at hpos
    exact absurd hpos (Nat.lt_irrefl 0)
  | placed w size sized place bits lt =>
    obtain ⟨w', hw', hlength, hbits⟩ := hf w place.room.1 place.room.2 bits
    obtain ⟨haccess, hplace⟩ := place.access hw' hlength
    exact ⟨_, haccess, .placed w' ((store_fdSetSize s w').trans size) rfl hplace hbits hlt⟩

theorem Holds.sized (h : Holds s a) (hpos : 0 < a.size) : a = ⟨a.size, a.members, true⟩ := by
  cases h with
  | bare _ _ _ none =>
    rw [none] at hpos
    exact absurd hpos (Nat.lt_irrefl 0)
  | placed _ _ sized _ _ _ => rw [← sized]

/-! ## calls -/

theorem lt_grow (fd size : Nat) : fd < Members.grow fd size := by
  induction size using Members.grow.induct fd with
  | case1 size hlt =>
    rw [Members.grow, if_pos hlt]
    exact hlt
  | case2 size hge ih =>
    rw [Members.grow, if_neg hge]
    exact ih

theorem setLoop_room {junk : Nat → Nat → BitVec 64} {fd : Nat} (h : fd < s.fdSetSize) (fuel : Nat) :
    s.setLoop junk fd fuel = some s := by
  cases fuel with
  | zero => rw [LargeFdSet.setLoop, if_neg (Nat.not_le.2 h)]
  | succ fuel => rw [LargeFdSet.setLoop, if_neg (Nat.not_le.2 h)]

theorem Holds.room (h : Holds s a) {fd : Nat} (hlt : fd < a.size) :
    Holds s ⟨Members.grow fd a.size, a.members, true⟩ := by
  rw [Members.grow, if_pos hlt, ← h.sized (Nat.zero_lt_of_lt hlt)]
  exact h

theorem setLoop_spec (h : Holds s a) (junk : Nat → Nat → BitVec 64) {fd fuel : Nat} (hfuel : fd + 1 ≤ fuel + a.size) :
    ∃ s', s.setLoop junk fd fuel = some s' ∧ Holds s' ⟨Members.grow fd a.size, a.members, true⟩ := by
  induction fuel generalizing s a with
  | zero =>
    have hlt : fd < a.size := by omega
    exact ⟨s, setLoop_room (by rw [h.size]; exact hlt) 0, h.room hlt⟩
  | succ fuel ih =>
    by_cases hlt : fd < a.size
    · exact ⟨s, setLoop_room (by rw [h.size]; exact hlt) _, h.room hlt⟩
    · obtain ⟨s₁, hresize, h₁⟩ := resize_spec h junk (2 * (a.size + 1))
      have hmembers : a.members.filter (· < 2 * (a.size + 1)) = a.members := by
        refine Finset.filter_true_of_mem fun i hi => ?_
        have hold := h.lt i hi
        omega
      have hne : 2 * (a.size + 1) ≠ a.size := by omega
      rw [Members.resize, hmembers, decide_eq_true hne, Bool.or_true] at h₁
      rw [LargeFdSet.setLoop, if_pos (by rw [h.size]; exact Nat.not_lt.1 hlt), h.size, hresize, Option.bind_some,
        Members.grow, if_neg hlt]
      exact ih h₁ (by show fd + 1 ≤ fuel + 2 * (a.size + 1); omega)

theorem set_spec (h : Holds s a) (junk : Nat → Nat → BitVec 64) (fd : Nat) :
    ∃ s', s.set junk fd = some s' ∧ Holds s' (a.step (.set fd)).2 := by
  obtain ⟨s₁, hloop, h₁⟩ := @setLoop_spec _ _ h junk fd (fd + 1) (Nat.le_add_right _ _)
  have hroom := lt_grow fd a.size
  obtain ⟨s₂, haccess, h₂⟩ := h₁.access (f := fun words => setBit words fd) (t := insert fd a.members)
    (Nat.zero_lt_of_lt hroom) (by
      intro i hi
      rcases Finset.mem_insert.1 hi with heq | hi
      · rw [heq]
        exact hroom
      · exact h₁.lt i hi) (by
      intro w hle _ hbits
      obtain ⟨w', hset, hlength, hbits'⟩ := setBit_spec (n := fd) (Nat.lt_of_lt_of_le hroom hle)
      refine ⟨w', hset, hlength, fun i hi => ?_⟩
      rw [hbits', hbits i hi, ← Bool.decide_or]
      refine decide_eq_decide.2 ?_
      rw [Finset.mem_insert, eq_comm, or_comm])
  refine ⟨s₂, ?_, h₂⟩
  rw [LargeFdSet.set, hloop, Option.bind_some, haccess]

theorem clr_spec (h : Holds s a) (fd : Nat) : ∃ s', s.clr fd = some s' ∧ Holds s' (a.step (.clr fd)).2 := by
  unfold LargeFdSet.clr
  rw [h.size]
  by_cases hlt : fd < a.size
  · have hpos := Nat.zero_lt_of_lt hlt
    obtain ⟨s', haccess, h'⟩ := h.access (f := fun words => clrBit words fd) (t := a.members.erase fd)
      hpos (fun i hi => h.lt i (Finset.mem_of_mem_erase hi)) (by
        intro w hle _ hbits
        obtain ⟨w', hclr, hlength, hbits'⟩ := clrBit_spec (n := fd) (Nat.lt_of_lt_of_le hlt hle)
        refine ⟨w', hclr, hlength, fun i hi => ?_⟩
        rw [hbits', hbits i hi, ← decide_not, ← Bool.decide_and]
        refine decide_eq_decide.2 ?_
        rw [Finset.mem_erase, and_comm, ne_comm])
    rw [if_pos hlt]
    refine ⟨s', haccess, ?_⟩
    rw [Members.step, h.sized hpos]
    exact h'
  · rw [if_neg hlt]
    refine ⟨s, rfl, ?_⟩
    rw [Members.step, Finset.erase_eq_of_notMem fun hmem => hlt (h.lt fd hmem)]
    exact h

theorem isSet_spec (h : Holds s a) (fd : Nat) : s.isSet fd = some (decide (fd ∈ a.members)) := by
  unfold LargeFdSet.isSet
  rw [h.size]
  by_cases hlt : fd < a.size
  · rw [if_pos hlt]
    cases h with
    | bare _ _ _ none =>
      rw [none] at hlt
      exact absurd hlt (Nat.not_lt_zero fd)
    | placed w size sized place bits lt =>
      rw [place.words, Option.bind_some, testBit_eq (Nat.lt_of_lt_of_le hlt place.room.1), bits fd hlt]
  · rw [if_neg hlt, decide_eq_false fun hmem => hlt (h.lt fd hmem)]

theorem copyFromFdSet_spec (h : Holds s a) (junk : Nat → Nat → BitVec 64) (src : FdSet) :
    ∃ s', s.copyFromFdSet junk src = some s' ∧ Holds s' (a.step (.copyFromFdSet src)).2 := by
  obtain ⟨s₁, hresize, h₁⟩ := resize_spec h junk FD_SETSIZE
  obtain ⟨s₂, haccess, h₂⟩ := h₁.access (f := fun words => writeFdSet words src.bits) (t := fdMembers src.bits)
    (by show 0 < FD_SETSIZE; decide) (fun i hi => Finset.mem_range.1 (Finset.mem_filter.1 hi).1) (by
      intro w _ hroom _
      obtain ⟨w', hwrite, hlength, hbits⟩ := writeFdSet_spec src.length_eq hroom
      refine ⟨w', hwrite, hlength, fun i hi => ?_⟩
      have hmem : i ∈ fdMembers src.bits ↔ bit src.bits i = true :=
        Finset.mem_filter.trans (and_iff_right (Finset.mem_range.2 hi))
      rw [hbits i hi, decide_eq_decide.2 hmem, Bool.decide_coe])
  refine ⟨s₂, ?_, h₂⟩
  rw [LargeFdSet.copyFromFdSet, hresize, Option.bind_some, haccess]

theorem fdMembers_zeroFdSet : fdMembers zeroFdSet = ∅ := by
  refine Finset.filter_false_of_mem fun i _ => ?_
  rw [bit_zeroFdSet]
  exact Bool.false_ne_true

theorem copyToFdSet_spec (h : Holds s a) (hsized : a.sized = true) :
    ∃ r, s.copyToFdSet = some r ∧ SetReply.copied r.1 (fdMembers r.2) = (a.step .copyToFdSet).1 := by
  cases h with
  | bare _ _ _ none =>
    rw [none] at hsized
    cases hsized
  | placed w size sized place bits lt =>
    rw [LargeFdSet.copyToFdSet, size, Members.step]
    by_cases hle : a.size ≤ FD_SETSIZE
    · obtain ⟨dst, hread, hlength, hbits⟩ := readFdSet_spec place.room.2
      obtain ⟨dst', hclear, -, hbits'⟩ := @clrBits_spec dst a.size FD_SETSIZE
        (by rw [hlength, FD_SETSIZE])
      rw [if_neg (Nat.not_lt.2 hle), if_pos hle, place.words, Option.bind_some, hread, Option.bind_some, hclear]
      refine ⟨_, rfl, congrArg _ (Finset.ext fun i => ?_)⟩
      rw [fdMembers, Finset.mem_filter, Finset.mem_range, hbits']
      by_cases hi : i < a.size
      · have hrange : ¬ (a.size ≤ i ∧ i < FD_SETSIZE) := fun hrange => Nat.not_lt.2 hrange.1 hi
        rw [hbits i (Nat.lt_of_lt_of_le hi hle), bits i hi, decide_eq_false hrange, Bool.not_false, Bool.and_true,
          decide_eq_true_iff, and_iff_right (Nat.lt_of_lt_of_le hi hle)]
      · refine iff_of_false (fun hin => ?_) fun hmem => hi (lt i hmem)
        have hrange : a.size ≤ i ∧ i < FD_SETSIZE := ⟨Nat.not_lt.1 hi, hin.1⟩
        rw [decide_eq_true hrange, Bool.not_true, Bool.and_false] at hin
        exact Bool.false_ne_true hin.2
    · rw [if_pos (Nat.not_le.1 hle), if_neg hle]
      exact ⟨_, rfl, by rw [fdMembers_zeroFdSet]⟩

theorem init_spec (hfdSet : s.fdSet.length = 16) (junk : Nat → Nat → BitVec 64) (n : Nat) :
    ∃ s', s.init junk n = some s' ∧ Holds s' (Members.empty.resize n) := by
  have hbare : Holds { s with fdSetSize := 0, fdSetPtr := .null } Members.empty := .bare rfl rfl hfdSet rfl
  exact resize_spec hbare junk n

theorem step_spec (h : Holds s a) {call : SetCall} (hsized : a.Sized call.op) :
    ∃ s', s.step call = some ((a.step call.op).1, s') ∧ Holds s' (a.step call.op).2 := by
  obtain ⟨op, junk⟩ := call
  cases op with
  | init setSize =>
    obtain ⟨s', hinit, h'⟩ := init_spec h.fdSet junk setSize
    exact ⟨s', by simp only [LargeFdSet.step, hinit]; rfl, h'⟩
  | set fd =>
    obtain ⟨s', hset, h'⟩ := set_spec h junk fd
    exact ⟨s', by simp only [LargeFdSet.step, hset]; rfl, h'⟩
  | clr fd =>
    obtain ⟨s', hclr, h'⟩ := clr_spec h fd
    exact ⟨s', by simp only [LargeFdSet.step, hclr]; rfl, h'⟩
  | isSet fd => exact ⟨s, by simp only [LargeFdSet.step, isSet_spec h]; rfl, h⟩
  | resize setSize =>
    obtain ⟨s', hresize, h'⟩ := resize_spec h junk setSize
    exact ⟨s', by simp only [LargeFdSet.step, hresize]; rfl, h'⟩
  | copyFromFdSet src =>
    obtain ⟨s', hcopy, h'⟩ := copyFromFdSet_spec h junk src
    exact ⟨s', by simp only [LargeFdSet.step, hcopy]; rfl, h'⟩
  | copyToFdSet =>
    obtain ⟨r, hcopy, hr⟩ := copyToFdSet_spec h hsized
    refine ⟨s, ?_, h⟩
    simp only [LargeFdSet.step, hcopy, Option.map_some, hr]

theorem step_eq_none (h : Holds s a) {call : SetCall} (hsized : ¬ a.Sized call.op) : s.step call = none := by
  obtain ⟨op, junk⟩ := call
  cases op with
  | copyToFdSet =>
    cases h with
    | bare ptr size _ _ =>
      have hwords : s.words = none := by rw [LargeFdSet.words, ptr]
      simp only [LargeFdSet.step, LargeFdSet.copyToFdSet, size]
      rw [if_neg (Nat.not_lt_zero _), hwords]
      rfl
    | placed _ _ sized _ _ _ => exact absurd sized hsized
  | _ => exact absurd trivial hsized

theorem run_eq_iff (h : Holds s a) (calls : List SetCall) : s.run calls = some (a.run calls) ↔ a.AllSized calls := by
  induction calls generalizing s a with
  | nil => exact ⟨fun _ => trivial, fun _ => rfl⟩
  | cons call calls ih =>
    rw [LargeFdSet.run, Members.run, Members.AllSized]
    by_cases hsized : a.Sized call.op
    · obtain ⟨s', hstep, h'⟩ := step_spec h hsized
      rw [hstep, Option.bind_some, Option.map_eq_some_iff]
      constructor
      · rintro ⟨replies, hreplies, heq⟩
        rw [(List.cons.inj heq).2] at hreplies
        exact ⟨hsized, (ih h').1 hreplies⟩
      · rintro ⟨-, hall⟩
        exact ⟨_, (ih h').2 hall, rfl⟩
    · rw [step_eq_none h hsized, Option.bind_none]
      exact ⟨fun heq => (nomatch heq), fun hall => absurd hall.1 hsized⟩

/-- For every sequence of calls that begins with `LargeFdSet_init`, on a structure that has not been initialised: they
reply as a finite set with a size does and stay within the memory there is if and only if no set is copied to a
`fd_set` before it has had a size other than 0. -/
theorem largeFdSet_run_iff (memory : FdSet) (fdSetSize : Nat) (fdSetPtr : FdSetPtr) (setSize : Nat)
    (junk : Nat → Nat → BitVec 64) (calls : List SetCall) :
    LargeFdSet.run ⟨fdSetSize, fdSetPtr, memory.bits⟩ (⟨.init setSize, junk⟩ :: calls) =
        some (Members.empty.run (⟨.init setSize, junk⟩ :: calls)) ↔
      Members.empty.AllSized (⟨.init setSize, junk⟩ :: calls) := by
  obtain ⟨s', hinit, h'⟩ := init_spec (s := ⟨fdSetSize, fdSetPtr, memory.bits⟩) memory.length_eq junk setSize
  have hstep : LargeFdSet.step ⟨fdSetSize, fdSetPtr, memory.bits⟩ ⟨.init setSize, junk⟩ = some (.void, s') := by
    simp only [LargeFdSet.step, hinit]
    rfl
  rw [LargeFdSet.run, hstep, Option.bind_some, Option.map_eq_some_iff]
  constructor
  · rintro ⟨replies, hreplies, heq⟩
    rw [(List.cons.inj heq).2] at hreplies
    exact ⟨trivial, (run_eq_iff h' calls).1 hreplies⟩
  · rintro ⟨-, hall⟩
    exact ⟨_, (run_eq_iff h' calls).2 hall, rfl⟩

/-- An empty set of size 0 is copied through the null pointer. -/
theorem not_largeFdSet_run : ¬ ∀ (memory : FdSet) (fdSetSize : Nat) (fdSetPtr : FdSetPtr) (setSize : Nat)
    (junk : Nat → Nat → BitVec 64) (calls : List SetCall),
    LargeFdSet.run ⟨fdSetSize, fdSetPtr, memory.bits⟩ (⟨.init setSize, junk⟩ :: calls) =
      some (Members.empty.run (⟨.init setSize, junk⟩ :: calls)) := by
  intro h
  have hrun := h ⟨zeroFdSet, length_replicate ..⟩ 0 .null 0 (fun _ _ => 0) [⟨.copyToFdSet, fun _ _ => 0⟩]
  have hnone : LargeFdSet.run ⟨0, .null, zeroFdSet⟩
      [⟨.init 0, fun _ _ => 0⟩, ⟨.copyToFdSet, fun _ _ => 0⟩] = none := rfl
  rw [hnone] at hrun
  cases hrun

end Priot.Dispatcher
