/-
# Replacing in a string

`String_replace` counts the occurrences of a target, allocates the new string and puts it together with `strncat`.
What newly allocated memory holds is arbitrary.
-/
import Priot.Lib.CText
import Mathlib.Data.List.TakeWhile

namespace Priot.Convert

open Lib

/-! ## the function -/

/-- `strstr`: the string from the first occurrence of the target on. -/
def strstr : Text → Text → Option Text
  | [], target => if target = [] then some [] else none
  | c :: s, target => if target.isPrefixOf (c :: s) then some (c :: s) else strstr s target

/-- `strncat`, in a block of memory. It needs a terminator to begin at and room for its own. -/
def strncat (destination : List UInt8) (source : Text) (num : Nat) : Option (List UInt8) :=
  let old := destination.takeWhile (· ≠ 0)
  let new := old ++ source.take num ++ [0]
  if old.length < destination.length ∧ new.length ≤ destination.length then
    some (new ++ destination.drop new.length)
  else none

def stringAppend (destination : List UInt8) (source : Text) : Option (List UInt8) :=
  strncat destination source source.length

/-- The loop that counts, with the rounds that it may take. -/
def countLoop (target : Text) : Nat → Text → Nat → Option Nat
  | 0, _, _ => none
  | fuel + 1, tmp, count =>
    match strstr tmp target with
    | none => some count
    | some ptr => countLoop target fuel (ptr.drop target.length) (count + 1)

/-- The loop that replaces, with the rounds that it may take. It ends with the new string, or where that is left. -/
def replaceLoop (target replacement : Text) : Nat → List UInt8 → Text → Option (Option (List UInt8))
  | 0, _, _ => none
  | fuel + 1, newString, tmp =>
    match strstr tmp target with
    | none => some (some newString)
    | some ptr =>
      let size := tmp.length - ptr.length
      let before := if size > 0 then strncat newString tmp size else some newString
      match before.bind fun newString => stringAppend newString replacement with
      | none => some none
      | some newString => replaceLoop target replacement fuel newString (ptr.drop target.length)

/-- The string in a block of memory, if it ends there. -/
def stringAt (block : List UInt8) : Option Text :=
  if 0 ∈ block then some (block.takeWhile (· ≠ 0)) else none

/-- `String_replace`, for strings that are not `NULL`. -/
def stringReplace (fuel : Nat) (junk : Nat → UInt8) (s target replacement : Text) : Option (Option Text) :=
  let lt := target.length
  let lr := replacement.length
  let ls := s.length
  if ls < lt then some (some s)
  else
    (countLoop target fuel s 0).bind fun count =>
      let size := ls - lt * count + lr * count + 1
      (replaceLoop target replacement fuel ((List.range size).map junk) s).map fun r => r.bind stringAt

/-! ## what it is for -/

/-- Every occurrence of the target, from left to right, is replaced; the rest is kept. -/
def replaceAll (target replacement : Text) : Text → Text
  | [] => []
  | c :: s =>
    if target.isPrefixOf (c :: s) then replacement ++ replaceAll target replacement (s.drop (target.length - 1))
    else c :: replaceAll target replacement s
termination_by s => s.length

/-- A string whose length is below 2^15. -/
structure CString where
  text : Text
  nul : ∀ c ∈ text, c ≠ 0
  short : text.length < 2 ^ 15

/-- The call ends; for a target that is not empty, with the target replaced, whatever new memory holds. -/
def Replaces (s target replacement : CString) : Prop :=
  ∀ junk, ∃ fuel result, stringReplace fuel junk s.text target.text replacement.text = some result ∧
    (target.text ≠ [] → result = some (replaceAll target.text replacement.text s.text))

variable {s target replacement : Text}

theorem isPrefixOf_of_length_lt (h : s.length < target.length) : target.isPrefixOf s = false := by
  rw [Bool.eq_false_iff]
  intro hprefix
  have hle := (List.isPrefixOf_iff_prefix.1 hprefix).length_le
  omega

theorem replaceAll_of_length_lt (h : s.length < target.length) : replaceAll target replacement s = s := by
  induction s with
  | nil => rw [replaceAll]
  | cons c s ih =>
    have hlt : s.length < target.length := by
      rw [List.length_cons] at h
      omega
    rw [replaceAll, isPrefixOf_of_length_lt h, ih hlt]
    rfl

/-! ## where it fails -/

theorem strstr_nil (s : Text) : strstr s [] = some s := by
  cases s with
  | nil => rfl
  | cons c s => rfl

theorem countLoop_nil (fuel : Nat) (tmp : Text) (count : Nat) : countLoop [] fuel tmp count = none := by
  induction fuel generalizing count with
  | zero => rfl
  | succ fuel ih =>
    rw [countLoop, strstr_nil]
    exact ih (count + 1)

theorem strncat_eq_none {block : List UInt8} (h : ∀ b ∈ block, b ≠ 0) (source : Text) (num : Nat) :
    strncat block source num = none := by
  have hold : block.takeWhile (· ≠ 0) = block := List.takeWhile_eq_self_iff.2 fun b hb => decide_eq_true (h b hb)
  rw [strncat, hold]
  exact if_neg fun hlt => Nat.lt_irrefl _ hlt.1

theorem replaceLoop_stringAt {block : List UInt8} (h : ∀ b ∈ block, b ≠ 0) {fuel : Nat} {tmp : Text}
    {r : Option (List UInt8)} (hloop : replaceLoop target replacement fuel block tmp = some r) :
    r.bind stringAt = none := by
  cases fuel with
  | zero => cases hloop
  | succ fuel =>
    rw [replaceLoop] at hloop
    cases hptr : strstr tmp target with
    | none =>
      rw [hptr] at hloop
      cases hloop
      exact if_neg fun hzero => h 0 hzero rfl
    | some ptr =>
      have hbefore : ((if tmp.length - ptr.length > 0 then strncat block tmp (tmp.length - ptr.length)
          else some block).bind fun newString => stringAppend newString replacement) = none := by
        split
        · rw [strncat_eq_none h, Option.bind_none]
        · exact strncat_eq_none h replacement replacement.length
      rw [hptr] at hloop
      simp only [hbefore] at hloop
      cases hloop
      rfl

theorem not_replaces {s target : CString} (h : target.text.length ≤ s.text.length) (replacement : CString) :
    ¬ Replaces s target replacement := by
  intro hreplaces
  obtain ⟨fuel, result, hcall, hresult⟩ := hreplaces fun _ => 255
  rw [stringReplace, if_neg (Nat.not_lt.2 h), Option.bind_eq_some_iff] at hcall
  obtain ⟨count, hcount, hcall⟩ := hcall
  by_cases htarget : target.text = []
  · rw [htarget, countLoop_nil] at hcount
    cases hcount
  · obtain ⟨r, hloop, hr⟩ := Option.map_eq_some_iff.1 hcall
    have hfull : ∀ b ∈ (List.range (s.text.length - target.text.length * count +
        replacement.text.length * count + 1)).map fun _ => (255 : UInt8), b ≠ 0 := by
      intro b hb
      obtain ⟨-, -, rfl⟩ := List.mem_map.1 hb
      decide
    rw [hresult htarget, replaceLoop_stringAt hfull hloop] at hr
    cases hr

/-- For all strings: the call ends, and with the target replaced where there is one to look for, if and only if the
string is shorter than the target. -/
theorem stringReplace_iff (s target replacement : CString) :
    Replaces s target replacement ↔ s.text.length < target.text.length := by
  constructor
  · intro h
    by_contra hle
    exact not_replaces (Nat.not_lt.1 hle) replacement h
  · intro hlt junk
    refine ⟨0, some s.text, if_pos hlt, fun _ => ?_⟩
    rw [replaceAll_of_length_lt hlt]

/-- The `a` of `ab` is not replaced. -/
theorem not_stringReplace : ¬ ∀ s target replacement : CString, Replaces s target replacement := by
  intro h
  have hlength : [97].length ≤ [97, 98].length := by decide
  exact not_replaces hlength ⟨[120], by simp, by decide⟩
    (h ⟨[97, 98], by simp, by decide⟩ ⟨[97], by simp, by decide⟩ ⟨[120], by simp, by decide⟩)

end Priot.Convert
