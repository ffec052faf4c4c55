/-
# Bits in words

Numbered bits are kept in words of 64, and a word is only reached within the list. What each write does to every bit.
-/
import Priot.Lib.ForLoop
import Mathlib.Tactic.ByContra

namespace Priot.Lib

open List

abbrev Words := List (BitVec 64)

/-- A bit, where there is a word for it. -/
def bit (words : Words) (n : Nat) : Bool := (words.getD (n / 64) 0).getLsbD (n % 64)

/-- The word of a bit is replaced. -/
def modifyWord (f : BitVec 64 → BitVec 64 → BitVec 64) (words : Words) (n : Nat) : Option Words :=
  words[n / 64]?.map fun word => words.set (n / 64) (f word (1#64 <<< (n % 64)))

def setBit (words : Words) (n : Nat) : Option Words := modifyWord (fun word mask => word ||| mask) words n

def clrBit (words : Words) (n : Nat) : Option Words := modifyWord (fun word mask => word &&& ~~~mask) words n

/-- Whether a bit is set. -/
def testBit (words : Words) (n : Nat) : Option Bool :=
  words[n / 64]?.map fun word => decide (word &&& 1#64 <<< (n % 64) ≠ 0)

/-- The bits from one number up to another are cleared, one by one. -/
def clrBits (words : Words) (first last : Nat) : Option Words :=
  countFrom (fun i words => clrBit words i) first (last - first) words

theorem getLsbD_mask {k j : Nat} (hj : j < 64) : (1#64 <<< k).getLsbD j = decide (k = j) := by
  rw [← BitVec.twoPow_eq, BitVec.getLsbD_twoPow]
  by_cases hk : k = j
  · rw [hk]
    simp [hj]
  · simp [hk]

variable {words : Words} {n : Nat}

/-- A write to the word of a bit, by what it does to the bits of a word. -/
theorem modifyWord_spec {f : BitVec 64 → BitVec 64 → BitVec 64} {g : Bool → Bool → Bool}
    (hf : ∀ word mask i, i < 64 → (f word mask).getLsbD i = g (word.getLsbD i) (mask.getLsbD i))
    (hg : ∀ b, g b false = b) (h : n < 64 * words.length) :
    ∃ words', modifyWord f words n = some words' ∧ words'.length = words.length ∧
      ∀ j, bit words' j = g (bit words j) (decide (n = j)) := by
  have hword : n / 64 < words.length := by omega
  refine ⟨_, by rw [modifyWord, getElem?_eq_getElem hword, Option.map_some], length_set, fun j => ?_⟩
  have hj : j % 64 < 64 := Nat.mod_lt _ (by omega)
  unfold bit
  rw [getD_eq_getElem?_getD, getD_eq_getElem?_getD]
  by_cases hsame : n / 64 = j / 64
  · -- another bit of the word, or this one
    have hbit : (n % 64 = j % 64) = (n = j) := propext (by omega)
    rw [← hsame, getElem?_set_self hword, Option.getD_some, hf _ _ _ hj, getLsbD_mask hj,
      getElem?_eq_getElem hword, Option.getD_some, decide_eq_decide.2 (Iff.of_eq hbit)]
  · rw [getElem?_set_ne hsame, decide_eq_false fun heq => hsame (by rw [heq]), hg]

theorem setBit_spec (h : n < 64 * words.length) : ∃ words', setBit words n = some words' ∧
    words'.length = words.length ∧ ∀ j, bit words' j = (bit words j || decide (n = j)) :=
  modifyWord_spec (fun _ _ _ _ => BitVec.getLsbD_or) Bool.or_false h

theorem clrBit_spec (h : n < 64 * words.length) : ∃ words', clrBit words n = some words' ∧
    words'.length = words.length ∧ ∀ j, bit words' j = (bit words j && !decide (n = j)) := by
  refine modifyWord_spec (g := fun b m => b && !m) (fun word mask i hi => ?_) (fun b => Bool.and_true b) h
  rw [BitVec.getLsbD_and, BitVec.getLsbD_not, decide_eq_true hi, Bool.true_and]

theorem testBit_eq (h : n < 64 * words.length) : testBit words n = some (bit words n) := by
  have hword : n / 64 < words.length := by omega
  have hn : n % 64 < 64 := Nat.mod_lt _ (by omega)
  rw [testBit, bit, getD_eq_getElem?_getD, getElem?_eq_getElem hword, Option.map_some, Option.getD_some]
  congr 1
  rw [Bool.eq_iff_iff, decide_eq_true_iff]
  constructor
  · intro hne
    by_contra hbit
    refine hne (BitVec.eq_of_getLsbD_eq fun i hi => ?_)
    rw [BitVec.getLsbD_and, getLsbD_mask hi]
    by_cases heq : n % 64 = i
    · rw [← heq, Bool.eq_false_iff.2 hbit]
      simp
    · simp [heq]
  · intro hbit hzero
    have hget := congrArg (fun word : BitVec 64 => word.getLsbD (n % 64)) hzero
    simp only [BitVec.getLsbD_and, getLsbD_mask hn, hbit, decide_true, Bool.and_self] at hget
    simp at hget

theorem clrBits_spec {first last : Nat} (h : last ≤ 64 * words.length) :
    ∃ words', clrBits words first last = some words' ∧ words'.length = words.length ∧
      ∀ j, bit words' j = (bit words j && !decide (first ≤ j ∧ j < last)) := by
  have hfirst : ∀ j, bit words j = (bit words j && !decide (first ≤ j ∧ j < first)) := by
    intro j
    rw [decide_eq_false (by omega), Bool.not_false, Bool.and_true]
  obtain ⟨words', hloop, hlength, hbits⟩ := countFrom_spec (f := fun i words => clrBit words i) (n := last - first)
    (fun i (s : Words) => s.length = words.length ∧ ∀ j, bit s j = (bit words j && !decide (first ≤ j ∧ j < i)))
    (i := first) (s := words) ⟨rfl, hfirst⟩ (by
      intro i s hlower hupper ⟨hlength, hbits⟩
      obtain ⟨s', hclr, hlength', hbits'⟩ := @clrBit_spec s i (by omega)
      refine ⟨s', hclr, hlength'.trans hlength, fun j => ?_⟩
      have hrange : (first ≤ j ∧ j < i + 1) = ((first ≤ j ∧ j < i) ∨ i = j) := propext (by omega)
      rw [hbits', hbits, Bool.and_assoc, ← Bool.not_or, ← Bool.decide_or]
      simp only [hrange])
  refine ⟨words', hloop, hlength, fun j => ?_⟩
  have hrange : (first ≤ j ∧ j < first + (last - first)) = (first ≤ j ∧ j < last) := propext (by omega)
  rw [hbits]
  simp only [hrange]

end Priot.Lib
