/-
# The rows of a list of requests

The comparison is right for names that reach to the end of the prefix. A shorter name has a length behind it that is
negative, and as a `size_t` large: then only the lengths are compared, or what stands in memory behind the name.
-/
import Priot.RowMerge.Helper
import Priot.Lib.Classes

namespace Priot.RowMerge

open Lib List

variable {skip i n : Nat} {name name1 name2 : ObjId}

/-! ## names -/

theorem lengthBehind_of_le (hle : skip ≤ name.length) (hname : name.length < 2 ^ 31) :
    lengthBehind skip name = name.length - skip := by
  unfold lengthBehind
  omega

theorem lengthBehind_of_lt (hlt : name.length < skip) (hskip : skip < 2 ^ 31) :
    lengthBehind skip name = 2 ^ 64 - (skip - name.length) := by
  unfold lengthBehind
  omega

theorem loopRounds_of_lt (h : n < 2 ^ 31) : loopRounds n = n := by
  unfold loopRounds
  rw [BitVec.toInt_eq_toNat_cond, BitVec.toNat_ofNat]
  split <;> omega

theorem loopRounds_of_short (hpos : 0 < n) (hn : n < 2 ^ 31) : loopRounds (2 ^ 64 - n) = 0 := by
  unfold loopRounds
  rw [BitVec.toInt_eq_toNat_cond, BitVec.toNat_ofNat]
  split <;> omega

theorem compareLoop_spec (name1 name2 : ObjId) (h1 : i + n ≤ name1.length) (h2 : i + n ≤ name2.length) :
    ∃ found, compareLoop name1 name2 i n = .ok found ∧
      (found = .eq ↔ (name1.drop i).take n = (name2.drop i).take n) := by
  induction n generalizing i with
  | zero => exact ⟨.eq, rfl, by simp⟩
  | succ n ih =>
    have hi1 : i < name1.length := by omega
    have hi2 : i < name2.length := by omega
    obtain ⟨found, hfound, hiff⟩ := ih (i := i + 1) (by omega) (by omega)
    have hread : ∀ name : ObjId, (h : i < name.length) → readOid name i = .ok name[i] := by
      intro name h
      unfold readOid
      rw [getElem?_eq_getElem h]
    rw [compareLoop, hread name1 hi1, hread name2 hi2]
    rw [drop_eq_getElem_cons hi1, drop_eq_getElem_cons hi2, take_succ_cons, take_succ_cons,
      List.cons.injEq]
    by_cases hne : name1[i] ≠ name2[i]
    · refine ⟨if name1[i] < name2[i] then .lt else .gt, ?_, ?_⟩
      · show (if name1[i] ≠ name2[i] then _ else _) = _
        rw [if_pos hne]
      · refine iff_of_false ?_ fun h => hne h.1
        split <;> decide
    · refine ⟨found, ?_, ?_⟩
      · show (if name1[i] ≠ name2[i] then _ else _) = _
        rw [if_neg hne]
        exact hfound
      · rw [hiff]
        exact ⟨fun h => ⟨not_not.mp hne, h⟩, fun h => h.2⟩

theorem compareLoop_beyond (h : name1.length ≤ i ∨ name2.length ≤ i) :
    compareLoop name1 name2 i (n + 1) = .error .beyondName := by
  have hend : ∀ name : ObjId, name.length ≤ i → readOid name i = .error .beyondName := by
    intro name h
    unfold readOid
    rw [getElem?_eq_none h]
  have hread : ∀ name : ObjId, readOid name i = .error .beyondName ∨ ∃ v, readOid name i = .ok v := by
    intro name
    unfold readOid
    cases name[i]? with
    | none => exact .inl rfl
    | some v => exact .inr ⟨v, rfl⟩
  rw [compareLoop]
  rcases h with h | h
  · rw [hend name1 h]
    rfl
  · rcases hread name1 with hfault | ⟨v, hv⟩
    · rw [hfault]
      rfl
    · rw [hv, hend name2 h]
      rfl

variable {req : Ptr → Request} {a b : Ptr}

/-- The lengths are compared that an `int` may not hold. -/
def shorter (skip : Nat) (name1 name2 : ObjId) : Nat :=
  if lengthBehind skip name1 < lengthBehind skip name2 then lengthBehind skip name1 else lengthBehind skip name2

theorem sameRow_of_loop {found : Ordering}
    (h : compareLoop (req a).name (req b).name skip (loopRounds (shorter skip (req a).name (req b).name)) = .ok found) :
    sameRow skip req a b =
      .ok (decide (found = .eq ∧ lengthBehind skip (req a).name = lengthBehind skip (req b).name)) := by
  unfold shorter at h
  unfold sameRow compareBehind
  dsimp only
  rw [h]
  generalize lengthBehind skip (req a).name = len1
  generalize lengthBehind skip (req b).name = len2
  cases found with
  | lt => rfl
  | gt => rfl
  | eq =>
    show Except.ok (decide ((if len1 < len2 then Ordering.lt else if len2 < len1 then .gt else .eq) = .eq)) = _
    congr 1
    rcases Nat.lt_trichotomy len1 len2 with hlt | heq | hgt
    · simp [hlt, Nat.ne_of_lt hlt]
    · simp [heq]
    · simp [hgt, Nat.lt_asymm hgt, Nat.ne_of_gt hgt]

theorem sameRow_of_fault (h : compareLoop (req a).name (req b).name skip
    (loopRounds (shorter skip (req a).name (req b).name)) = .error .beyondName) :
    sameRow skip req a b = .error .beyondName := by
  unfold shorter at h
  unfold sameRow compareBehind
  dsimp only
  rw [h]
  rfl

/-- What a name says behind the prefix. -/
def key (skip : Nat) (req : Ptr → Request) (p : Ptr) : ObjId := (req p).name.drop skip

/-- The prefix and the names have lengths that an `int` holds. -/
structure Bounded (skip : Nat) (req : Ptr → Request) : Prop where
  skip_lt : skip < 2 ^ 31
  name_lt : ∀ p, (req p).name.length < 2 ^ 31

namespace Bounded

theorem sameRow_long (h : Bounded skip req) (ha : skip ≤ (req a).name.length) (hb : skip ≤ (req b).name.length) :
    sameRow skip req a b = .ok (decide (key skip req b = key skip req a)) := by
  have hlen1 := lengthBehind_of_le ha (h.name_lt a)
  have hlen2 := lengthBehind_of_le hb (h.name_lt b)
  have hmin : shorter skip (req a).name (req b).name =
      min ((req a).name.length - skip) ((req b).name.length - skip) := by
    unfold shorter
    rw [hlen1, hlen2, Nat.min_def]
    split <;> split <;> omega
  have hrounds : loopRounds (shorter skip (req a).name (req b).name) =
      min ((req a).name.length - skip) ((req b).name.length - skip) := by
    rw [hmin]
    have := h.name_lt a
    exact loopRounds_of_lt (by omega)
  obtain ⟨found, hfound, hiff⟩ := compareLoop_spec (req a).name (req b).name (i := skip)
    (n := min ((req a).name.length - skip) ((req b).name.length - skip)) (by omega) (by omega)
  rw [← hrounds] at hfound
  rw [sameRow_of_loop hfound, hlen1, hlen2]
  congr 2
  unfold key
  rw [hiff, eq_iff_iff]
  constructor
  · rintro ⟨htake, hlen⟩
    rw [take_of_length_le (by simp; omega), take_of_length_le (by simp; omega)] at htake
    exact htake.symm
  · intro heq
    have hlen := congrArg List.length heq
    rw [length_drop, length_drop] at hlen
    exact ⟨by rw [heq], hlen.symm⟩

theorem sameRow_short (h : Bounded skip req) (ha : (req a).name.length < skip) (hb : (req b).name.length < skip) :
    sameRow skip req a b = .ok (decide ((req b).name.length = (req a).name.length)) := by
  have hskip := h.skip_lt
  have hlen1 := lengthBehind_of_lt ha hskip
  have hlen2 := lengthBehind_of_lt hb hskip
  have hrounds : loopRounds (shorter skip (req a).name (req b).name) = 0 := by
    unfold shorter
    rw [hlen1, hlen2]
    split
    · exact loopRounds_of_short (by omega) (by omega)
    · exact loopRounds_of_short (by omega) (by omega)
  have hfound : compareLoop (req a).name (req b).name skip
      (loopRounds (shorter skip (req a).name (req b).name)) = .ok .eq := by
    rw [hrounds]
    rfl
  rw [sameRow_of_loop hfound, hlen1, hlen2]
  congr 2
  rw [eq_iff_iff, and_iff_right rfl]
  omega

theorem sameRow_mixed (h : Bounded skip req) (hab : (req a).name.length < skip ∧ skip ≤ (req b).name.length ∨
      skip ≤ (req a).name.length ∧ (req b).name.length < skip) :
    sameRow skip req a b ≠ .ok (decide (key skip req b = key skip req a)) := by
  have hskip := h.skip_lt
  have hname1 := h.name_lt a
  have hname2 := h.name_lt b
  have hshort : ∃ n, shorter skip (req a).name (req b).name = n ∧ loopRounds n = n ∧
      (req a).name.length ≤ skip + n ∧ (req b).name.length ≤ skip + n ∧
      lengthBehind skip (req a).name ≠ lengthBehind skip (req b).name := by
    unfold shorter
    rcases hab with ⟨ha, hb⟩ | ⟨ha, hb⟩
    · rw [lengthBehind_of_lt ha hskip, lengthBehind_of_le hb hname2, if_neg (by omega)]
      exact ⟨_, rfl, loopRounds_of_lt (by omega), by omega, by omega, by omega⟩
    · rw [lengthBehind_of_le ha hname1, lengthBehind_of_lt hb hskip, if_pos (by omega)]
      exact ⟨_, rfl, loopRounds_of_lt (by omega), by omega, by omega, by omega⟩
  obtain ⟨n, hshorter, hrounds, hlen1, hlen2, hne⟩ := hshort
  cases n with
  | zero =>
    -- nothing is read, and the lengths are not those of names that agree
    have hfound : compareLoop (req a).name (req b).name skip
        (loopRounds (shorter skip (req a).name (req b).name)) = .ok .eq := by
      rw [hshorter, hrounds]
      rfl
    have hkey : key skip req b = key skip req a := by
      unfold key
      rw [drop_eq_nil_of_le (by omega), drop_eq_nil_of_le (by omega)]
    rw [sameRow_of_loop hfound, decide_eq_true hkey, decide_eq_false fun hboth => hne hboth.2]
    decide
  | succ n =>
    have hfault : compareLoop (req a).name (req b).name skip
        (loopRounds (shorter skip (req a).name (req b).name)) = .error .beyondName := by
      rw [hshorter, hrounds]
      exact compareLoop_beyond (by omega)
    rw [sameRow_of_fault hfault]
    nofun

end Bounded

/-- The names reach to the end of the prefix, or all are too short by the same length. -/
def NamesHold (skip : Nat) (req : Ptr → Request) (l : List Ptr) : Prop :=
  (∀ p ∈ l, skip ≤ (req p).name.length) ∨ ∃ n < skip, ∀ p ∈ l, (req p).name.length = n

/-- The groups that are made are the rows exactly for such names. -/
theorem groups_iff (h : Bounded skip req) (l : List Ptr) :
    Groups (sameRow skip req) l (classes (key skip req) l) ↔ NamesHold skip req l := by
  constructor
  · intro hgroups
    cases l with
    | nil => exact .inl fun p hp => absurd hp not_mem_nil
    | cons a l =>
      have hhead := hgroups.head_eq
      by_cases ha : skip ≤ (req a).name.length
      · refine .inl (forall_mem_cons.mpr ⟨ha, fun b hb => ?_⟩)
        by_contra hshort
        exact h.sameRow_mixed (.inr ⟨ha, Nat.lt_of_not_le hshort⟩) (hhead b hb)
      · have ha : (req a).name.length < skip := Nat.lt_of_not_le ha
        refine .inr ⟨(req a).name.length, ha, forall_mem_cons.mpr ⟨rfl, fun b hb => ?_⟩⟩
        have hb' : (req b).name.length < skip := by
          by_contra hlong
          exact h.sameRow_mixed (.inl ⟨ha, Nat.le_of_not_lt hlong⟩) (hhead b hb)
        have hkey : key skip req b = key skip req a := by
          unfold key
          rw [drop_eq_nil_of_le (Nat.le_of_lt ha), drop_eq_nil_of_le (Nat.le_of_lt hb')]
        have hsame := hhead b hb
        rw [h.sameRow_short ha hb', decide_eq_true hkey, Except.ok.injEq, decide_eq_true_iff] at hsame
        exact hsame
  · rintro (hlong | ⟨n, hn, hshort⟩)
    · refine Lib.groups_classes fun a ha b hb => ?_
      exact h.sameRow_long (hlong a ha) (hlong b hb)
    · refine Lib.groups_classes fun a ha b hb => ?_
      have ha := hshort a ha
      have hb := hshort b hb
      have hkey : key skip req b = key skip req a := by
        unfold key
        rw [drop_eq_nil_of_le (by omega), drop_eq_nil_of_le (by omega)]
      rw [h.sameRow_short (by omega) (by omega), decide_eq_true hkey, decide_eq_true (hb.trans ha.symm)]

end Priot.RowMerge
