/-
# Hexadecimal text in buffers that grow

`Convert_binaryStringToHexString` writes the digits of octets into a buffer that it allocates or makes larger, and two
functions read them back. Allocations succeed; what new memory holds is arbitrary where it has not been cleared.
-/
import Priot.Lib.CText
import Priot.Lib.Memory
import Priot.Asn01.Rbuild

namespace Priot.Convert

open Lib Asn01 List

abbrev Ptr := Nat

/-- Blocks of memory by their addresses. -/
abbrev Heap := Memory (List UInt8)

/-! ## writing -/

def valueToHex (s : UInt8) : UInt8 := s + if s ≥ 10 then 97 - 10 else 48

/-- `p[ k ] = b`. -/
def store (heap : Heap) (p : Ptr) (k : Nat) (b : UInt8) : Option Heap :=
  (heap.cell p).bind fun block => if k < block.length then heap.write p (block.set k b) else none

/-- `*dest` and `*destLen`, with the memory. -/
structure Dest where
  heap : Heap
  dest : Option Ptr
  destLen : Nat

/-- A block of a new size that begins with what the old one held. -/
def grown (junk : Nat → UInt8) (size : Nat) (old : List UInt8) : List UInt8 :=
  (List.range size).map fun k => old.getD k (junk k)

/-- `Memory_reallocIncrease`, with its result. -/
def memoryReallocIncrease (junk : Nat → UInt8) (d : Dest) : Option (Nat × Dest) :=
  let newLen := reallocIncrease d.destLen
  match d.dest with
  | none => some (1, ⟨d.heap.alloc (grown junk newLen []), some d.heap.next, newLen⟩)
  | some p =>
    (d.heap.cell p).bind fun old => (d.heap.free p).map fun heap =>
      (1, ⟨heap.alloc (grown junk newLen old), some heap.next, newLen⟩)

/-- The loop, with `op` as a position in the buffer `s`. -/
def hexLoop (s : Ptr) : Heap → Nat → List UInt8 → Option (Heap × Nat)
  | heap, op, [] => some (heap, op)
  | heap, op, ip :: rest =>
    (store heap s op (valueToHex (ip >>> 4 &&& 0xf))).bind fun heap =>
      (store heap s (op + 1) (valueToHex (ip &&& 0xf))).bind fun heap => hexLoop s heap (op + 2) rest

/-- What follows once there is room. -/
def writeHex (d : Dest) (s : Ptr) (olen : Nat) (input : List UInt8) : Option (Nat × Dest) :=
  (hexLoop s d.heap 0 input).bind fun r => (store r.1 s r.2 0).map fun heap => (olen, ⟨heap, some s, olen⟩)

/-- `Convert_binaryStringToHexString`, with its result. -/
def binaryStringToHexString (junk : Nat → UInt8) (d : Dest) (allowRealloc : Bool) (input : List UInt8) :
    Option (Nat × Dest) :=
  let olen := (input.length * 2 + 1) % 2 ^ 32
  let (s, d) : Ptr × Dest :=
    match d.dest with
    | none => (d.heap.next, { d with heap := d.heap.alloc (List.replicate olen 0), destLen := olen })
    | some s => (s, d)
  if d.destLen < olen then
    if allowRealloc = false then some (0, d)
    else (memoryReallocIncrease junk { d with destLen := olen }).bind fun r =>
      if r.1 ≠ 0 then some (0, r.2) else writeHex r.2 s olen input
  else writeHex d s olen input

/-! ## reading -/

def isxdigit (c : UInt8) : Bool := (digitVal c).isSome

def toLower (c : UInt8) : UInt8 := if c ≥ 65 ∧ c ≤ 90 then c + 32 else c

def hexToValue (s : UInt8) : UInt8 := (if isalpha s then toLower s - 97 + 10 else toLower s - 48) &&& 0xf

/-- `*buffer` and `*offset`. The size of the buffer is `*bufferLen`; where there is none it is 0. -/
structure Target where
  buffer : List UInt8
  offset : Nat

/-- An octet goes to the offset, once the buffer has been made larger where it ends there or before. -/
def Target.push (junk : Nat → UInt8) (allowRealloc : Bool) (t : Target) (subid : UInt8) : Option (Option Target) :=
  let put (buffer : List UInt8) : Option (Option Target) :=
    if t.offset < buffer.length then some (some ⟨buffer.set t.offset subid, t.offset + 1⟩) else none
  if t.buffer.length ≤ t.offset then
    if allowRealloc = true then put (grown junk (reallocIncrease t.buffer.length) t.buffer) else some none
  else put t.buffer

/-- The loop of `Convert_hexStringToBinaryString`: its result and what it leaves. -/
def binaryLoop (junk : Nat → UInt8) (allowRealloc : Bool) (delimiters : Option Text) :
    Text → Target → Option (Nat × Target)
  | [], t => some (1, t)
  | [cp], t => if delimiters.any (·.contains cp) then some (1, t) else some (0, t)
  | cp :: next :: rest, t =>
    if !isxdigit cp || !isxdigit next then
      if delimiters.any (·.contains cp) then binaryLoop junk allowRealloc delimiters (next :: rest) t else some (0, t)
    else
      match sscanf2x (cp :: next :: rest) with
      | none => some (0, t)
      | some subid =>
        (t.push junk allowRealloc (UInt8.ofNat subid)).bind fun pushed =>
          match pushed with
          | none => some (0, t)
          | some t => binaryLoop junk allowRealloc delimiters rest t

def hexStringToBinaryString (junk : Nat → UInt8) (t : Target) (allowRealloc : Bool) (hexString : Text)
    (delimiters : Option Text) : Option (Nat × Target) :=
  let cp :=
    if hexString.head? = some 48 ∧ (hexString[1]? = some 120 ∨ hexString[1]? = some 88) then hexString.drop 2
    else hexString
  binaryLoop junk allowRealloc delimiters cp t

/-- The loop of `Convert_hexStringToBinaryString2`. -/
def binaryLoop2 : List UInt8 → Option (List UInt8)
  | [] => some []
  | [_] => none
  | high :: low :: rest =>
    if isxdigit high && isxdigit low then
      (binaryLoop2 rest).map fun output => ((hexToValue high <<< 4) + hexToValue low) :: output
    else none

/-- `Convert_hexStringToBinaryString2`: the octets of `*output`, if the result is not -1. -/
def hexStringToBinaryString2 (input : List UInt8) : Option (List UInt8) :=
  if input.length % 2 = 1 then
    match input with
    | [] => none
    | ip :: rest => if isxdigit ip then (binaryLoop2 rest).map fun output => hexToValue ip :: output else none
  else binaryLoop2 input

/-! ## what is asked of the conversions -/

/-- A call of `Convert_binaryStringToHexString`, and the buffer and the delimiters with which its text is read back. -/
structure HexCall where
  input : List UInt8
  input_lt : input.length < 2 ^ 28
  start : Dest
  allowRealloc : Bool
  live : ∀ p, start.dest = some p → ∃ block, start.heap.cell p = some block ∧ block.length = start.destLen
  target : Target
  delimiters : Option Text

namespace HexCall

variable (c : HexCall)

/-- The digits of the octets. -/
def text : Text := c.input.flatMap hex2

/-- There is a buffer to be allocated, or one with room. -/
def HasRoom : Prop := c.start.dest = none ∨ 2 * c.input.length + 1 ≤ c.start.destLen

/-- A live buffer holds the text. -/
def Written (d : Dest) : Prop :=
  ∃ p block, d.dest = some p ∧ d.heap.cell p = some block ∧ 2 * c.input.length + 1 ≤ block.length ∧
    block.take (2 * c.input.length + 1) = c.text ++ [0]

/-- Both functions read the octets from the text. -/
def ReadBack (junk : Nat → UInt8) : Prop :=
  (∃ t, hexStringToBinaryString junk c.target true c.text c.delimiters = some (1, t) ∧
      t.offset = c.target.offset + c.input.length ∧ (t.buffer.drop c.target.offset).take c.input.length = c.input) ∧
    hexStringToBinaryString2 c.text = some c.input

/-- The conversion succeeds just when it should. Then the text has been written and can be read back. -/
def RoundTrips (junk : Nat → UInt8) : Prop :=
  ∃ ret d, binaryStringToHexString junk c.start c.allowRealloc c.input = some (ret, d) ∧
    (ret ≠ 0 ↔ c.HasRoom ∨ c.allowRealloc = true) ∧ (ret ≠ 0 → c.Written d ∧ c.ReadBack junk)

/-- The offset is within the buffer once that has been made larger. -/
def Reaches : Prop := c.input = [] ∨ c.target.offset < reallocIncrease c.target.buffer.length

end HexCall

/-! ## digits -/

theorem hex2_facts : ∀ n < 256, hex2 (UInt8.ofNat n) =
      [valueToHex (UInt8.ofNat n >>> 4 &&& 0xf), valueToHex (UInt8.ofNat n &&& 0xf)] ∧
    isxdigit (valueToHex (UInt8.ofNat n >>> 4 &&& 0xf)) = true ∧ isxdigit (valueToHex (UInt8.ofNat n &&& 0xf)) = true ∧
    (hexToValue (valueToHex (UInt8.ofNat n >>> 4 &&& 0xf)) <<< 4) + hexToValue (valueToHex (UInt8.ofNat n &&& 0xf)) =
      UInt8.ofNat n ∧
    valueToHex (UInt8.ofNat n &&& 0xf) ≠ 120 ∧ valueToHex (UInt8.ofNat n &&& 0xf) ≠ 88 := by decide +kernel

theorem hex2_eq (b : UInt8) : hex2 b = [valueToHex (b >>> 4 &&& 0xf), valueToHex (b &&& 0xf)] := by
  have h := (hex2_facts b.toNat b.toNat_lt).1
  rwa [UInt8.ofNat_toNat] at h

theorem digits_spec (b : UInt8) : isxdigit (valueToHex (b >>> 4 &&& 0xf)) = true ∧
    isxdigit (valueToHex (b &&& 0xf)) = true ∧
    (hexToValue (valueToHex (b >>> 4 &&& 0xf)) <<< 4) + hexToValue (valueToHex (b &&& 0xf)) = b ∧
    valueToHex (b &&& 0xf) ≠ 120 ∧ valueToHex (b &&& 0xf) ≠ 88 := by
  have h := (hex2_facts b.toNat b.toNat_lt).2
  rwa [UInt8.ofNat_toNat] at h

theorem length_hexes (input : List UInt8) : (input.flatMap hex2).length = 2 * input.length := by
  induction input with
  | nil => rfl
  | cons b input ih =>
    rw [flatMap_cons, length_append, ih, hex2_eq, length_cons, length_cons, length_cons,
      length_nil]
    omega

/-! ## the text is written -/

variable {heap : Heap} {s : Ptr} {pre mid post block : List UInt8} {junk : Nat → UInt8}

theorem store_spec {x : UInt8} (h : heap.cell s = some (pre ++ x :: post)) (b : UInt8) :
    ∃ heap', store heap s pre.length b = some heap' ∧ heap'.cell s = some (pre ++ b :: post) := by
  obtain ⟨heap', hwrite, hself, -⟩ := Memory.write_spec h (pre ++ b :: post)
  refine ⟨heap', ?_, hself⟩
  have hlt : pre.length < (pre ++ x :: post).length := by
    rw [length_append, length_cons]
    omega
  rw [store, h, Option.bind_some, if_pos hlt, set_append_right _ _ (Nat.le_refl _), Nat.sub_self,
    set_cons_zero, hwrite]

theorem hexLoop_spec (input : List UInt8) (h : heap.cell s = some (pre ++ (mid ++ post)))
    (hmid : mid.length = 2 * input.length) :
    ∃ heap', hexLoop s heap pre.length input = some (heap', pre.length + 2 * input.length) ∧
      heap'.cell s = some (pre ++ (input.flatMap hex2 ++ post)) := by
  induction input generalizing heap pre mid with
  | nil =>
    obtain rfl := length_eq_zero_iff.1 hmid
    exact ⟨heap, rfl, h⟩
  | cons b input ih =>
    rw [length_cons] at hmid
    obtain ⟨x, y, mid, rfl⟩ : ∃ x y m, mid = x :: y :: m := by
      match mid, hmid with
      | x :: y :: m, _ => exact ⟨x, y, m, rfl⟩
    rw [cons_append, cons_append] at h
    obtain ⟨heap₁, hstore₁, h₁⟩ := store_spec h (valueToHex (b >>> 4 &&& 0xf))
    rw [append_cons] at h₁
    obtain ⟨heap₂, hstore₂, h₂⟩ := store_spec h₁ (valueToHex (b &&& 0xf))
    rw [append_cons] at h₂
    obtain ⟨heap₃, hloop, h₃⟩ := ih h₂ (by rw [length_cons, length_cons] at hmid; omega)
    refine ⟨heap₃, ?_, ?_⟩
    · rw [length_append, length_singleton] at hstore₂
      rw [length_append, length_append, length_singleton, length_singleton] at hloop
      rw [hexLoop, hstore₁, Option.bind_some, hstore₂, Option.bind_some, hloop, length_cons]
      congr 2
      omega
    · rw [h₃, flatMap_cons, hex2_eq]
      simp only [append_assoc, cons_append, nil_append]

theorem writeHex_spec (d : Dest) (olen : Nat) (input : List UInt8) (h : d.heap.cell s = some block)
    (hroom : 2 * input.length + 1 ≤ block.length) :
    ∃ heap rest, writeHex d s olen input = some (olen, ⟨heap, some s, olen⟩) ∧
      heap.cell s = some (input.flatMap hex2 ++ 0 :: rest) ∧
      (input.flatMap hex2 ++ 0 :: rest).length = block.length := by
  obtain ⟨x, rest, hrest⟩ : ∃ x rest, block.drop (2 * input.length) = x :: rest := by
    apply exists_cons_of_length_pos
    rw [length_drop]
    omega
  have hsplit : block = [] ++ (block.take (2 * input.length) ++ x :: rest) := by
    rw [← hrest, nil_append, take_append_drop]
  have hlength : block.length = 2 * input.length + (rest.length + 1) := by
    have hdrop := congrArg List.length hrest
    rw [length_drop, length_cons] at hdrop
    omega
  rw [hsplit] at h
  obtain ⟨heap₁, hloop, h₁⟩ := hexLoop_spec input h (by rw [length_take]; omega)
  rw [nil_append] at h₁
  obtain ⟨heap₂, hstore, h₂⟩ := store_spec h₁ 0
  rw [length_hexes] at hstore
  rw [length_nil, Nat.zero_add] at hloop
  refine ⟨heap₂, rest, ?_, h₂, ?_⟩
  · rw [writeHex, hloop, Option.bind_some, hstore, Option.map_some]
  · rw [length_append, length_hexes, length_cons, hlength]

namespace HexCall

variable {c : HexCall}

theorem olen_eq (c : HexCall) : (c.input.length * 2 + 1) % 2 ^ 32 = 2 * c.input.length + 1 := by
  have hlt := c.input_lt
  omega

theorem written_of_write {d : Dest} (h : d.heap.cell s = some block) (hroom : 2 * c.input.length + 1 ≤ block.length) :
    ∃ d', writeHex d s (2 * c.input.length + 1) c.input = some (2 * c.input.length + 1, d') ∧ c.Written d' := by
  obtain ⟨heap, rest, hwrite, hcell, hlength⟩ := writeHex_spec d (2 * c.input.length + 1) c.input h hroom
  refine ⟨_, hwrite, s, _, rfl, hcell, by rw [hlength]; exact hroom, ?_⟩
  have hnul : (c.text ++ [0]).length = 2 * c.input.length + 1 := by
    rw [length_append, text, length_hexes, length_singleton]
  have htext : c.input.flatMap hex2 ++ 0 :: rest = c.text ++ [0] ++ rest := append_cons _ _ _
  rw [← hnul, htext]
  exact take_left

theorem succeeds (h : c.HasRoom) (junk : Nat → UInt8) :
    ∃ d, binaryStringToHexString junk c.start c.allowRealloc c.input = some (2 * c.input.length + 1, d) ∧
      c.Written d := by
  rw [binaryStringToHexString, c.olen_eq]
  cases hdest : c.start.dest with
  | none =>
    obtain ⟨d, hwrite, hwritten⟩ := written_of_write (c := c)
      (d := { c.start with
        heap := c.start.heap.alloc (replicate (2 * c.input.length + 1) 0)
        destLen := 2 * c.input.length + 1 })
      (Memory.alloc_self _ _) (by rw [length_replicate])
    refine ⟨d, ?_, hwritten⟩
    simp only [if_neg (Nat.lt_irrefl _)]
    exact hwrite
  | some p =>
    obtain ⟨block, hcell, hlength⟩ := c.live p hdest
    have hroom : 2 * c.input.length + 1 ≤ c.start.destLen := h.resolve_left (by rw [hdest]; exact Option.some_ne_none p)
    obtain ⟨d, hwrite, hwritten⟩ := written_of_write (c := c) (d := c.start) hcell (by omega)
    refine ⟨d, ?_, hwritten⟩
    simp only [if_neg (Nat.not_lt.2 hroom)]
    exact hwrite

theorem fails (h : ¬ c.HasRoom) (junk : Nat → UInt8) :
    ∃ d, binaryStringToHexString junk c.start c.allowRealloc c.input = some (0, d) := by
  rw [HasRoom, not_or] at h
  obtain ⟨p, hdest⟩ := Option.ne_none_iff_exists'.1 h.1
  obtain ⟨block, hcell, -⟩ := c.live p hdest
  obtain ⟨heap, hfree, -⟩ := Memory.free_spec hcell
  rw [binaryStringToHexString, c.olen_eq, hdest]
  simp only [if_pos (Nat.not_le.1 h.2)]
  split
  · exact ⟨_, rfl⟩
  · simp only [memoryReallocIncrease, hdest, hcell, Option.bind_some, hfree, Option.map_some]
    exact ⟨_, rfl⟩

end HexCall

/-! ## the text is read -/

theorem lt_reallocIncrease (n : Nat) : n < reallocIncrease n := by
  rw [reallocIncrease]
  split <;> (try split) <;> omega

theorem grown_getElem? {size k : Nat} {old : List UInt8} (hk : k < old.length) (hsize : old.length ≤ size) :
    (grown junk size old)[k]? = old[k]? := by
  rw [grown, getElem?_map, getElem?_range (by omega), Option.map_some, getD_eq_getElem?_getD,
    getElem?_eq_getElem hk, Option.getD_some]

theorem length_grown (junk : Nat → UInt8) (size : Nat) (old : List UInt8) : (grown junk size old).length = size := by
  rw [grown, length_map, length_range]

/-- What has been read so far stands from the first offset on. -/
structure Holds (first : Nat) (done : List UInt8) (t : Target) : Prop where
  offset : t.offset = first + done.length
  octets : ∀ k < done.length, t.buffer[first + k]? = done[k]?

variable {first : Nat} {done : List UInt8} {t : Target}

theorem Holds.drop_take (h : Holds first done t) : (t.buffer.drop first).take done.length = done := by
  apply ext_getElem?
  intro k
  rw [getElem?_take]
  split
  · next hk => rw [getElem?_drop, h.octets k hk]
  · next hk => rw [getElem?_eq_none (Nat.not_lt.1 hk)]

theorem Holds.set {buffer : List UInt8} (h : Holds first done t) (hlt : t.offset < buffer.length)
    (hkeep : ∀ k < t.offset, k < t.buffer.length → buffer[k]? = t.buffer[k]?) (b : UInt8) :
    Holds first (done ++ [b]) ⟨buffer.set t.offset b, t.offset + 1⟩ where
  offset := by
    rw [length_append, length_singleton, h.offset]
    rfl
  octets k hk := by
    rw [length_append, length_singleton] at hk
    by_cases hlast : k = done.length
    · rw [hlast, ← h.offset, getElem?_set_self hlt, getElem?_append_right (Nat.le_refl _), Nat.sub_self]
      rfl
    · have hold := h.octets k (by omega)
      have hoffset := h.offset
      rw [getElem?_set_ne (by omega), getElem?_append_left (by omega), ← hold]
      apply hkeep _ (by omega)
      have hget : done[k]? = some done[k] := getElem?_eq_getElem (by omega)
      rw [hget] at hold
      exact (List.getElem?_eq_some_iff.1 hold).1

theorem push_spec (h : Holds first done t) (hreach : t.offset < reallocIncrease t.buffer.length) (b : UInt8) :
    ∃ t', t.push junk true b = some (some t') ∧ Holds first (done ++ [b]) t' ∧
      t'.offset < reallocIncrease t'.buffer.length := by
  rw [Target.push]
  by_cases hfull : t.buffer.length ≤ t.offset
  · have hlt : t.offset < (grown junk (reallocIncrease t.buffer.length) t.buffer).length := by rwa [length_grown]
    simp only [if_pos hfull, if_true, if_pos hlt]
    refine ⟨_, rfl, h.set hlt ?_ b, ?_⟩
    · intro k _ hk
      exact grown_getElem? hk (Nat.le_of_lt (lt_reallocIncrease _))
    · rw [length_set]
      exact Nat.lt_of_le_of_lt (Nat.succ_le_of_lt hlt) (lt_reallocIncrease _)
  · have hlt : t.offset < t.buffer.length := Nat.not_le.1 hfull
    simp only [if_neg hfull, if_pos hlt]
    refine ⟨_, rfl, h.set hlt (fun _ _ _ => rfl) b, ?_⟩
    rw [length_set]
    exact Nat.lt_of_le_of_lt (Nat.succ_le_of_lt hlt) (lt_reallocIncrease _)

theorem push_outside (hreach : ¬ t.offset < reallocIncrease t.buffer.length) (b : UInt8) :
    t.push junk true b = none := by
  have hfull : t.buffer.length ≤ t.offset :=
    Nat.le_trans (Nat.le_of_lt (lt_reallocIncrease _)) (Nat.not_lt.1 hreach)
  have hout : ¬ t.offset < (grown junk (reallocIncrease t.buffer.length) t.buffer).length := by rwa [length_grown]
  rw [Target.push]
  simp only [if_pos hfull, if_true, if_neg hout]

/-- The digits of an octet are no delimiters, whatever these are. -/
theorem binaryLoop_octet (delimiters : Option Text) (b : UInt8) (rest : Text) (t : Target) :
    binaryLoop junk true delimiters (hex2 b ++ rest) t = (t.push junk true b).bind fun pushed =>
      match pushed with
      | none => some (0, t)
      | some t => binaryLoop junk true delimiters rest t := by
  obtain ⟨hhigh, hlow, -⟩ := digits_spec b
  have hread := sscanf2x_hex2 b rest
  rw [hex2_eq] at hread ⊢
  rw [cons_append, cons_append, nil_append] at hread ⊢
  rw [binaryLoop, hread, hhigh, hlow]
  simp only [Bool.not_true, Bool.or_false, Bool.false_eq_true, if_false, UInt8.ofNat_toNat]

theorem binaryLoop_spec (delimiters : Option Text) (input : List UInt8) (h : Holds first done t)
    (hreach : input = [] ∨ t.offset < reallocIncrease t.buffer.length) :
    ∃ t', binaryLoop junk true delimiters (input.flatMap hex2) t = some (1, t') ∧ Holds first (done ++ input) t' := by
  induction input generalizing done t with
  | nil =>
    rw [append_nil]
    exact ⟨t, rfl, h⟩
  | cons b input ih =>
    obtain ⟨t₁, hpush, h₁, hreach₁⟩ := @push_spec junk _ _ _ h (hreach.resolve_left (cons_ne_nil b input)) b
    obtain ⟨t₂, hloop, h₂⟩ := ih h₁ (Or.inr hreach₁)
    refine ⟨t₂, ?_, by rwa [append_cons]⟩
    rw [flatMap_cons, binaryLoop_octet, hpush, Option.bind_some]
    exact hloop

theorem hexStringToBinaryString_eq (t : Target) (input : List UInt8) (delimiters : Option Text) :
    hexStringToBinaryString junk t true (input.flatMap hex2) delimiters =
      binaryLoop junk true delimiters (input.flatMap hex2) t := by
  rw [hexStringToBinaryString, if_neg]
  rintro ⟨-, hx⟩
  cases input with
  | nil => rcases hx with hx | hx <;> cases hx
  | cons b input =>
    obtain ⟨-, -, -, hx', hX⟩ := digits_spec b
    rw [flatMap_cons, hex2_eq] at hx
    rcases hx with hx | hx
    · exact hx' (Option.some.inj hx)
    · exact hX (Option.some.inj hx)

theorem hexStringToBinaryString2_hexes (input : List UInt8) :
    hexStringToBinaryString2 (input.flatMap hex2) = some input := by
  have heven : ¬ (input.flatMap hex2).length % 2 = 1 := by
    rw [length_hexes]
    omega
  unfold hexStringToBinaryString2
  rw [if_neg heven]
  clear heven
  induction input with
  | nil => rfl
  | cons b input ih =>
    obtain ⟨hhigh, hlow, hvalue, -⟩ := digits_spec b
    rw [flatMap_cons, hex2_eq, cons_append, cons_append, nil_append, binaryLoop2, hhigh, hlow, ih,
      hvalue]
    rfl

/-! ## the result -/

namespace HexCall

variable {c : HexCall}

theorem readBack_iff (c : HexCall) (junk : Nat → UInt8) : c.ReadBack junk ↔ c.Reaches := by
  rw [ReadBack, text, hexStringToBinaryString_eq, and_iff_left (hexStringToBinaryString2_hexes _)]
  constructor
  · rintro ⟨t, hread, -⟩
    by_contra hnot
    rw [Reaches, not_or] at hnot
    obtain ⟨b, input, hinput⟩ := exists_cons_of_ne_nil hnot.1
    rw [hinput, flatMap_cons, binaryLoop_octet, push_outside hnot.2] at hread
    cases hread
  · intro hreach
    have hstart : Holds c.target.offset [] c.target := ⟨rfl, fun k hk => absurd hk (Nat.not_lt_zero k)⟩
    obtain ⟨t, hloop, h⟩ := @binaryLoop_spec junk _ _ _ c.delimiters c.input hstart hreach
    exact ⟨t, hloop, h.offset, h.drop_take⟩

theorem room_of_roundTrips (h : c.RoundTrips junk) : c.HasRoom ∨ c.allowRealloc = false := by
  by_contra hnot
  rw [not_or, Bool.not_eq_false] at hnot
  obtain ⟨d, hcall⟩ := fails hnot.1 junk
  obtain ⟨ret, d', hcall', hiff, -⟩ := h
  rw [hcall, Option.some.injEq, Prod.mk.injEq] at hcall'
  exact hiff.2 (Or.inr hnot.2) hcall'.1.symm

theorem roundTrips_of_room (h : c.HasRoom) : c.RoundTrips junk ↔ c.Reaches := by
  obtain ⟨d, hcall, hwritten⟩ := succeeds h junk
  have hret : 2 * c.input.length + 1 ≠ 0 := Nat.succ_ne_zero _
  rw [← c.readBack_iff junk]
  constructor
  · rintro ⟨ret, d', hcall', -, hall⟩
    rw [hcall, Option.some.injEq, Prod.mk.injEq] at hcall'
    exact (hall (hcall'.1 ▸ hret)).2
  · intro hread
    exact ⟨_, d, hcall, iff_of_true hret (Or.inl h), fun _ => ⟨hwritten, hread⟩⟩

/-- For every call, and whatever new memory holds: the conversion succeeds when it should, and what it writes is read
back, if and only if the buffer need not be made larger, or must not be, and what is written can be read back at the
offset. -/
theorem binaryStringToHexString_iff (c : HexCall) (junk : Nat → UInt8) :
    c.RoundTrips junk ↔ (c.HasRoom ∨ c.allowRealloc = false) ∧ (c.HasRoom → c.Reaches) := by
  constructor
  · intro h
    exact ⟨room_of_roundTrips h, fun hroom => (roundTrips_of_room hroom).1 h⟩
  · rintro ⟨hallow, hreach⟩
    by_cases hroom : c.HasRoom
    · exact (roundTrips_of_room hroom).2 (hreach hroom)
    · obtain ⟨d, hcall⟩ := fails hroom junk
      refine ⟨0, d, hcall, iff_of_false (fun h => h rfl) ?_, fun h => absurd rfl h⟩
      rw [hallow.resolve_left hroom]
      rintro (h | h)
      · exact hroom h
      · exact Bool.false_ne_true h

end HexCall

/-- One octet, for a buffer of one octet that may be made larger. -/
def tooSmall : HexCall where
  input := [255]
  input_lt := by decide
  start := ⟨⟨fun p => if p = 0 then some [0] else none, 1, fun p hp => if_neg (by omega)⟩, some 0, 1⟩
  allowRealloc := true
  live p hp := by
    cases hp
    exact ⟨[0], rfl, rfl⟩
  target := ⟨[], 0⟩
  delimiters := none

/-- The buffer is made larger, and that is taken for a failure. -/
theorem not_hexCall_roundTrips : ¬ ∀ (c : HexCall) (junk : Nat → UInt8), c.RoundTrips junk := by
  intro h
  have hroom := HexCall.room_of_roundTrips (h tooSmall fun _ => 0)
  rcases hroom with (hnull | hroom) | hallow
  · cases hnull
  · exact absurd hroom (by decide)
  · cases hallow

end Priot.Convert
