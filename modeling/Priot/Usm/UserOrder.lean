/-
# The order of the users

The users are ordered by the length of the engine ID, the engine ID, the length of the name and the name, and no
engine ID comes before an empty one.
-/
import Priot.Usm.UserList
import Mathlib.Data.Prod.Lex
import Mathlib.Data.List.Lex
import Mathlib.Order.WithBot

namespace Priot.Usm

open Lib List

/-! ## what a user is known by -/

/-- An engine ID and a name. -/
abbrev UserKey : Type := Option (List UInt8) × CString

def User.key (u : User) : UserKey := (u.engineID, u.name)

def octetsOrder (s : List UInt8) : List ℕ := s.map UInt8.toNat

def engineOrder : Option (List UInt8) → WithBot (List ℕ)
  | none => ⊥
  | some id => (octetsOrder id : List ℕ)

/-- What the users are ordered by. -/
def User.order (u : User) : ℕ ×ₗ WithBot (List ℕ) ×ₗ ℕ ×ₗ List ℕ :=
  toLex (u.engineIDLen, toLex (engineOrder u.engineID, toLex (u.name.1.length, octetsOrder u.name.1)))

theorem octetsOrder_inj {s t : List UInt8} : octetsOrder s = octetsOrder t ↔ s = t :=
  (map_injective_iff.mpr fun _ _ h => UInt8.toNat_inj.mp h).eq_iff

theorem engineOrder_inj {s t : Option (List UInt8)} : engineOrder s = engineOrder t ↔ s = t := by
  cases s with
  | none => cases t <;> simp [engineOrder]
  | some a =>
    cases t with
    | none => simp [engineOrder]
    | some b => simp [engineOrder, octetsOrder_inj]

theorem order_eq_iff {u v : User} : u.order = v.order ↔ u.key = v.key := by
  unfold User.order User.key
  constructor
  · intro h
    have h₁ := congrArg (fun x => (ofLex (ofLex x).2).1) h
    have h₂ := congrArg (fun x => (ofLex (ofLex (ofLex x).2).2).2) h
    rw [Prod.mk.injEq]
    exact ⟨engineOrder_inj.mp h₁, Subtype.ext (octetsOrder_inj.mp h₂)⟩
  · intro h
    obtain ⟨hid, hname⟩ := Prod.mk.inj h
    rw [User.engineIDLen, User.engineIDLen, hid, hname]

theorem order_lt_iff {u v : User} : u.order < v.order ↔ u.engineIDLen < v.engineIDLen ∨ u.engineIDLen = v.engineIDLen ∧
      (engineOrder u.engineID < engineOrder v.engineID ∨ u.engineID = v.engineID ∧
        (u.name.1.length < v.name.1.length ∨ u.name.1.length = v.name.1.length ∧
          octetsOrder u.name.1 < octetsOrder v.name.1)) := by
  unfold User.order
  rw [Prod.Lex.toLex_lt_toLex, Prod.Lex.toLex_lt_toLex, Prod.Lex.toLex_lt_toLex, engineOrder_inj]

/-! ## the comparisons -/

theorem memcmp_pos_iff {n : Nat} {a b : List UInt8} (ha : a.length = n) (hb : b.length = n) :
    0 < memcmp n a b ↔ octetsOrder b < octetsOrder a := by
  induction n generalizing a b with
  | zero =>
    rw [length_eq_zero_iff.mp ha, length_eq_zero_iff.mp hb]
    exact iff_of_false (lt_irrefl 0) (lt_irrefl _)
  | succ n ih =>
    obtain ⟨x, a, rfl⟩ := exists_cons_of_length_eq_add_one ha
    obtain ⟨y, b, rfl⟩ := exists_cons_of_length_eq_add_one hb
    have hrec := ih (Nat.succ.inj ha) (Nat.succ.inj hb)
    have hlex : octetsOrder (y :: b) < octetsOrder (x :: a) ↔
        y.toNat < x.toNat ∨ y.toNat = x.toNat ∧ octetsOrder b < octetsOrder a := cons_lt_cons_iff
    rw [memcmp_cons, hlex]
    simp only [UInt8.lt_iff_toNat_lt]
    by_cases hxy : x.toNat < y.toNat
    · rw [if_pos hxy]
      omega
    · rw [if_neg hxy]
      by_cases hyx : y.toNat < x.toNat
      · rw [if_pos hyx]
        exact iff_of_true Int.one_pos (.inl hyx)
      · rw [if_neg hyx, hrec]
        constructor
        · exact fun h => .inr ⟨by omega, h⟩
        · rintro (h | h)
          · exact absurd h hyx
          · exact h.2

theorem strcmp_of_length_eq {a b : CString} (h : a.1.length = b.1.length) : strcmp a b = memcmp b.1.length a.1 b.1 := by
  rw [strcmp, h, Nat.min_self]
  exact memcmp_add (le_of_eq h) (Nat.le_refl _) 1

theorem memcmp_of_length_lt {a b : List UInt8} (hb : 0 ∉ b) (h : a.length < b.length) :
    memcmp (a.length + 1) a b ≠ 0 ∧ memcmp (a.length + 1) b a ≠ 0 := by
  induction a generalizing b with
  | nil =>
    obtain ⟨y, b, rfl⟩ := exists_cons_of_length_pos h
    have hy : 0 < y.toNat := by
      refine Nat.pos_of_ne_zero fun hzero => hb ?_
      obtain rfl : 0 = y := UInt8.toNat_inj.mp hzero.symm
      exact mem_cons_self
    have hlt : (0 : UInt8) < y := UInt8.lt_iff_toNat_lt.mpr hy
    have hnot : ¬ y < 0 := fun h => absurd (UInt8.lt_iff_toNat_lt.mp h) (Nat.not_lt_zero _)
    constructor
    · simp [memcmp, hlt]
    · simp [memcmp, hlt, hnot]
  | cons x a ih =>
    obtain ⟨y, b, rfl⟩ := exists_cons_of_length_pos (Nat.lt_of_le_of_lt (Nat.zero_le _) h)
    obtain ⟨h₁, h₂⟩ := ih (fun hmem => hb (mem_cons_of_mem y hmem)) (Nat.lt_of_succ_lt_succ h)
    rw [length_cons, memcmp_cons, memcmp_cons]
    constructor
    · split
      · decide
      · split
        · decide
        · exact h₁
    · split
      · decide
      · split
        · decide
        · exact h₂

theorem strcmp_eq_zero_iff {a b : CString} : strcmp a b = 0 ↔ a = b := by
  constructor
  · intro h
    rcases Nat.lt_trichotomy a.1.length b.1.length with hlt | heq | hgt
    · rw [strcmp, Nat.min_eq_left hlt.le] at h
      exact absurd h (memcmp_of_length_lt b.2 hlt).1
    · rw [strcmp_of_length_eq heq, memcmp_eq_zero_iff heq rfl] at h
      exact Subtype.ext h
    · rw [strcmp, Nat.min_eq_right hgt.le] at h
      exact absurd h (memcmp_of_length_lt a.2 hgt).2
  · rintro rfl
    rw [strcmp_of_length_eq rfl]
    exact (memcmp_eq_zero_iff rfl rfl).mpr rfl

/-! ## the conditions of the loop -/

/-- The order of the engine IDs. -/
def EngineBefore (u v : User) : Prop :=
  u.engineIDLen < v.engineIDLen ∨ u.engineIDLen = v.engineIDLen ∧ engineOrder u.engineID < engineOrder v.engineID

/-- The order of the names. -/
def NameBefore (u v : User) : Prop :=
  u.name.1.length < v.name.1.length ∨ u.name.1.length = v.name.1.length ∧ octetsOrder u.name.1 < octetsOrder v.name.1

theorem order_lt_cases {u v : User} : u.order < v.order ↔ EngineBefore u v ∨ u.engineID = v.engineID ∧ NameBefore u v := by
  rw [order_lt_iff]
  unfold EngineBefore NameBefore
  constructor
  · rintro (hlen | ⟨hlen, hid | ⟨hid, hname⟩⟩)
    · exact .inl (.inl hlen)
    · exact .inl (.inr ⟨hlen, hid⟩)
    · exact .inr ⟨hid, hname⟩
  · rintro ((hlen | ⟨hlen, hid⟩) | ⟨hid, hname⟩)
    · exact .inl hlen
    · exact .inr ⟨hlen, .inl hid⟩
    · exact .inr ⟨by rw [User.engineIDLen, User.engineIDLen, hid], .inr ⟨hid, hname⟩⟩

theorem place_of_engine_eq {n u : User} (h : n.engineID = u.engineID) :
    (NameBefore n u → n.place u = .behind) ∧ (n.name = u.name → n.place u = .same) ∧
      (NameBefore u n → n.place u = .here) := by
  have hlen : n.engineIDLen = u.engineIDLen := by rw [User.engineIDLen, User.engineIDLen, h]
  have hzero : memcmpID n u = 0 := by
    rw [memcmpID, h]
    exact (memcmp_eq_zero_iff rfl rfl).mpr rfl
  have hsame : sameEngine n u = true := decide_eq_true ⟨hlen, .inr hzero⟩
  have hplace : n.place u =
      if n.name.1.length > u.name.1.length then .here
      else if n.name.1.length = u.name.1.length ∧ strcmp n.name u.name > 0 then .here
      else if n.name.1.length = u.name.1.length ∧ strcmp n.name u.name = 0 then .same
      else .behind := by
    unfold User.place
    rw [if_neg (by omega), if_neg (by rw [h]; exact fun hne => hne.2 hne.1), if_neg (by omega),
      if_neg (by rw [h]; exact fun hne => hne.2 hne.1)]
    simp only [hsame, true_and]
  rw [hplace]
  refine ⟨?_, fun hname => ?_, ?_⟩
  · rintro (hlt | ⟨heq, hlt⟩)
    · rw [if_neg (by omega), if_neg (by omega), if_neg (by omega)]
    · have hneg : ¬ strcmp n.name u.name > 0 := by
        rw [strcmp_of_length_eq heq, gt_iff_lt, memcmp_pos_iff heq rfl]
        exact lt_asymm hlt
      have hne : strcmp n.name u.name ≠ 0 := by
        rw [Ne, strcmp_eq_zero_iff]
        intro hname
        rw [hname] at hlt
        exact lt_irrefl _ hlt
      rw [if_neg (by omega), if_neg fun hand => hneg hand.2, if_neg fun hand => hne hand.2]
  · have hstrcmp : strcmp n.name u.name = 0 := strcmp_eq_zero_iff.mpr hname
    have hlength : n.name.1.length = u.name.1.length := by rw [hname]
    rw [if_neg (by omega), if_neg (by omega), if_pos ⟨hlength, hstrcmp⟩]
  · rintro (hlt | ⟨heq, hlt⟩)
    · rw [if_pos hlt]
    · have hpos : strcmp n.name u.name > 0 := by
        rw [strcmp_of_length_eq heq.symm, gt_iff_lt, memcmp_pos_iff heq.symm rfl]
        exact hlt
      rw [if_neg (by omega), if_pos ⟨heq.symm, hpos⟩]

theorem place_of_engineBefore {n u : User} :
    (EngineBefore n u → n.place u = .behind) ∧ (EngineBefore u n → n.place u = .here) := by
  have hnone : ∀ v : User, v.engineID = none → v.engineIDLen = 0 := by
    intro v hv
    rw [User.engineIDLen, hv]
    rfl
  constructor
  · rintro (hlt | ⟨heq, hlt⟩)
    · have hsame : ¬ sameEngine n u = true := fun h => by
        have := (of_decide_eq_true h).1
        omega
      unfold User.place
      rw [if_neg (by omega), if_neg fun h => by have := hnone u h.1; omega, if_neg (by omega)]
      split
      · rfl
      · rw [if_neg fun h => hsame h.1, if_neg fun h => hsame h.1, if_neg fun h => hsame h.1]
    · -- The engine ID of `u` is not `NULL`, since something comes before it.
      have hu : u.engineID ≠ none := by
        intro hu
        rw [hu] at hlt
        exact not_lt_bot hlt
      unfold User.place
      rw [if_neg (by omega), if_neg fun h => hu h.1]
      by_cases hn : n.engineID = none
      · rw [if_neg fun h => h.2.1 hn, if_pos ⟨hn, hu⟩]
      · obtain ⟨a, ha⟩ := Option.ne_none_iff_exists'.mp hn
        obtain ⟨b, hb⟩ := Option.ne_none_iff_exists'.mp hu
        have hlength : a.length = b.length := by
          rw [User.engineIDLen, User.engineIDLen, ha, hb] at heq
          exact heq
        rw [ha, hb] at hlt
        have hlt' : octetsOrder a < octetsOrder b := WithBot.coe_lt_coe.mp hlt
        have hmem : memcmpID n u = memcmp b.length a b := by rw [memcmpID, User.engineIDLen, ha, hb]; rfl
        have hneg : ¬ memcmpID n u > 0 := by
          rw [hmem, gt_iff_lt, memcmp_pos_iff hlength rfl]
          exact lt_asymm hlt'
        have hne : memcmpID n u ≠ 0 := by
          rw [hmem, Ne, memcmp_eq_zero_iff hlength rfl]
          rintro rfl
          exact lt_irrefl _ hlt'
        have hsame : ¬ sameEngine n u = true := by
          intro h
          rcases (of_decide_eq_true h).2 with hboth | hzero
          · exact hn hboth.1
          · exact hne hzero
        rw [if_neg fun h => hneg h.2.2.2, if_neg fun h => hn h.1, if_neg fun h => hsame h.1, if_neg fun h => hsame h.1,
          if_neg fun h => hsame h.1]
  · rintro (hlt | ⟨heq, hlt⟩)
    · rw [User.place, if_pos hlt]
    · have hn : n.engineID ≠ none := by
        intro hn
        rw [hn] at hlt
        exact not_lt_bot hlt
      unfold User.place
      rw [if_neg (by omega)]
      by_cases hu : u.engineID = none
      · rw [if_pos ⟨hu, hn⟩]
      · obtain ⟨a, ha⟩ := Option.ne_none_iff_exists'.mp hn
        obtain ⟨b, hb⟩ := Option.ne_none_iff_exists'.mp hu
        have hlength : a.length = b.length := by
          rw [User.engineIDLen, User.engineIDLen, ha, hb] at heq
          exact heq.symm
        rw [ha, hb] at hlt
        have hpos : memcmpID n u > 0 := by
          rw [memcmpID, User.engineIDLen, ha, hb]
          exact (memcmp_pos_iff hlength rfl).mpr (WithBot.coe_lt_coe.mp hlt)
        rw [if_neg fun h => hu h.1, if_pos ⟨heq.symm, hn, hu, hpos⟩]

theorem place_spec {n u : User} : (n.order < u.order → n.place u = .behind) ∧ (n.order = u.order → n.place u = .same) ∧
      (u.order < n.order → n.place u = .here) := by
  refine ⟨fun h => ?_, fun h => ?_, fun h => ?_⟩
  · rcases order_lt_cases.mp h with hengine | ⟨hid, hname⟩
    · exact place_of_engineBefore.1 hengine
    · exact (place_of_engine_eq hid).1 hname
  · obtain ⟨hid, hname⟩ := Prod.mk.inj (order_eq_iff.mp h)
    exact (place_of_engine_eq hid).2.1 hname
  · rcases order_lt_cases.mp h with hengine | ⟨hid, hname⟩
    · exact place_of_engineBefore.2 hengine
    · exact (place_of_engine_eq hid.symm).2.2 hname

theorem place_eq_behind_iff {n u : User} : n.place u = .behind ↔ n.order < u.order := by
  obtain ⟨hbehind, hsame, hhere⟩ := @place_spec n u
  refine ⟨fun h => ?_, hbehind⟩
  rcases lt_trichotomy n.order u.order with hlt | heq | hgt
  · exact hlt
  · rw [hsame heq] at h
    cases h
  · rw [hhere hgt] at h
    cases h

theorem place_eq_same_iff {n u : User} : n.place u = .same ↔ n.order = u.order := by
  obtain ⟨hbehind, hsame, hhere⟩ := @place_spec n u
  refine ⟨fun h => ?_, hsame⟩
  rcases lt_trichotomy n.order u.order with hlt | heq | hgt
  · rw [hbehind hlt] at h
    cases h
  · exact heq
  · rw [hhere hgt] at h
    cases h

theorem matches_iff {u : User} {engineID : Option (List UInt8)} {name : CString} :
    u.matches engineID name = true ↔ u.key = (engineID, name) := by
  rw [User.matches, decide_eq_true_eq, strcmp_eq_zero_iff, User.key, Prod.mk.injEq]
  constructor
  · rintro ⟨hname, hlen, hboth | ⟨hu, hid, hzero⟩⟩
    · exact ⟨by rw [hboth.1, hboth.2], hname⟩
    · obtain ⟨a, ha⟩ := Option.ne_none_iff_exists'.mp hu
      obtain ⟨b, hb⟩ := Option.ne_none_iff_exists'.mp hid
      rw [User.engineIDLen, ha, hb] at hlen
      rw [ha, hb] at hzero ⊢
      have hlength : a.length = b.length := hlen
      have hab : a = b := (memcmp_eq_zero_iff hlength rfl).mp hzero
      exact ⟨by rw [hab], hname⟩
  · rintro ⟨rfl, rfl⟩
    refine ⟨rfl, rfl, ?_⟩
    by_cases hnone : u.engineID = none
    · exact .inl ⟨hnone, hnone⟩
    · exact .inr ⟨hnone, hnone, (memcmp_eq_zero_iff rfl rfl).mpr rfl⟩

end Priot.Usm
