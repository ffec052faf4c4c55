/-
# The quicksort sorts

The two scans always meet something to stop at: the middle element in the first round, and in the later ones what the
last exchange put behind them.
-/
import Mathlib.Order.Interval.Set.Basic
import Priot.Containers.BinaryArray
import Priot.Lib.Compare

namespace Priot.Containers

open Lib List

variable {α : Type} {f : α → α → Int} {data : List α} {mid : α}

@[simp] theorem entry_natCast (data : List α) (k : Nat) : entry data k = data[k]? := by
  rw [entry, if_neg (by omega), Int.toNat_natCast]

theorem exists_entry (data : List α) {k : Nat} (h : k < data.length) : ∃ x, data[k]? = some x :=
  ⟨data[k], getElem?_eq_getElem h⟩

/-! ## the scans -/

theorem scanUp_spec {last p : Nat} {y : α} (hp : p ≤ last) (hy : data[p]? = some y) (hs : 0 ≤ f y mid) :
    ∀ (n i : Nat), i ≤ p → last < i + n →
      ∃ (k : Nat) (z : α), scanUp f data mid last n i = some (k : Int) ∧ i ≤ k ∧ k ≤ p ∧ data[k]? = some z ∧
        0 ≤ f z mid ∧ ∀ m, i ≤ m → m < k → ∀ x, data[m]? = some x → f x mid < 0 := by
  have hpl := (List.getElem?_eq_some_iff.mp hy).1
  intro n
  induction n with
  | zero => intro i hi hn; omega
  | succ n ih =>
    intro i hi hn
    obtain ⟨x, hx⟩ := exists_entry data (k := i) (by omega)
    rw [scanUp]
    by_cases hil : (i : Int) < last
    · rw [if_pos hil, entry_natCast, hx, Option.bind_eq_bind, Option.bind_some]
      by_cases hlt : f x mid < 0
      · have hip : i ≠ p := by
          rintro rfl
          rw [hx, Option.some.injEq] at hy
          subst hy
          omega
        obtain ⟨k, z, e, hik, hkp, hz, hzm, hbelow⟩ := ih (i + 1) (by omega) (by omega)
        rw [if_pos hlt, ← Int.natCast_succ]
        refine ⟨k, z, e, by omega, hkp, hz, hzm, ?_⟩
        intro m him hmk w hw
        rcases Nat.lt_or_eq_of_le him with h | h
        · exact hbelow m h hmk w hw
        · subst h
          rw [hx, Option.some.injEq] at hw
          exact hw ▸ hlt
      · rw [if_neg hlt]
        exact ⟨i, x, rfl, le_refl i, hi, hx, not_lt.mp hlt, fun m h₁ h₂ => by omega⟩
    · -- the end of the range is where there is something to stop at
      have hip : i = p := by omega
      subst hip
      rw [if_neg hil]
      exact ⟨i, y, rfl, le_refl i, le_refl i, hy, hs, fun m h₁ h₂ => by omega⟩

theorem scanDown_spec {first p : Nat} {y : α} (hp : first ≤ p) (hy : data[p]? = some y) (hs : 0 ≤ f mid y) :
    ∀ (n j : Nat), p ≤ j → j < data.length → j < first + n →
      ∃ (k : Nat) (z : α), scanDown f data mid first n j = some (k : Int) ∧ k ≤ j ∧ p ≤ k ∧ data[k]? = some z ∧
        0 ≤ f mid z ∧ ∀ m, m ≤ j → k < m → ∀ x, data[m]? = some x → f mid x < 0 := by
  intro n
  induction n with
  | zero => intro j hj hl hn; omega
  | succ n ih =>
    intro j hj hl hn
    obtain ⟨x, hx⟩ := exists_entry data hl
    rw [scanDown]
    by_cases hfj : (first : Int) < j
    · rw [if_pos hfj, entry_natCast, hx, Option.bind_eq_bind, Option.bind_some]
      by_cases hlt : f mid x < 0
      · have hjp : j ≠ p := by
          rintro rfl
          rw [hx, Option.some.injEq] at hy
          subst hy
          omega
        have hj1 : (j : Int) - 1 = ((j - 1 : Nat) : Int) := by omega
        obtain ⟨k, z, e, hkj, hpk, hz, hzm, habove⟩ := ih (j - 1) (by omega) (by omega) (by omega)
        rw [if_pos hlt, hj1]
        refine ⟨k, z, e, by omega, hpk, hz, hzm, ?_⟩
        intro m hmj hkm w hw
        rcases Nat.lt_or_eq_of_le hmj with h | h
        · exact habove m (by omega) hkm w hw
        · subst h
          rw [hx, Option.some.injEq] at hw
          exact hw ▸ hlt
      · rw [if_neg hlt]
        exact ⟨j, x, rfl, le_refl j, hj, hx, not_lt.mp hlt, fun m h₁ h₂ => by omega⟩
    · have hjp : j = p := by omega
      subst hjp
      rw [if_neg hfj]
      exact ⟨j, y, rfl, le_refl j, le_refl j, hy, hs, fun m h₁ h₂ => by omega⟩

/-! ## one partition -/

/-- The entries before `i` are small and those from `j` on are large. -/
structure Partitioned (f : α → α → Int) (mid : α) (first last i j : Nat) (data : List α) : Prop where
  small : ∀ k, first ≤ k → k < i → ∀ x, data[k]? = some x → f x mid ≤ 0
  large : ∀ k, j ≤ k → k ≤ last → ∀ x, data[k]? = some x → f mid x ≤ 0

/-- Both scans have something to stop at. -/
structure Guarded (f : α → α → Int) (mid : α) (first last i j : Nat) (data : List α) : Prop where
  up : ∃ p x, i ≤ p ∧ p ≤ last ∧ data[p]? = some x ∧ 0 ≤ f x mid
  down : ∃ p x, first ≤ p ∧ p ≤ j ∧ data[p]? = some x ∧ 0 ≤ f mid x

/-- What a partition leaves: `j` is one more than the code's, which may be `-1`. -/
structure Split (f : α → α → Int) (mid : α) (first last : Nat) (before after : List α) (i j : Nat) : Prop where
  moved : Rearranged (Set.Icc first last) before after
  parts : Partitioned f mid first last i j after
  cross : j ≤ i
  up : first < i
  down : j ≤ last

theorem Partitioned.exchange {first last k l : Nat} {x y : α} (h : Partitioned f mid first last k (l + 1) data)
    (hkl : k < l) (hk : k < data.length) (hl : l < data.length) (hx : f mid x ≤ 0) (hy : f y mid ≤ 0) :
    Partitioned f mid first last (k + 1) l ((data.set k y).set l x) := by
  constructor
  · intro m hm hmk w hw
    rw [getElem?_set_ne (by omega)] at hw
    by_cases hmk' : m = k
    · subst hmk'
      rw [getElem?_set_self hk, Option.some.injEq] at hw
      exact hw ▸ hy
    · rw [getElem?_set_ne (fun e => hmk' e.symm)] at hw
      exact h.small m hm (by omega) w hw
  · intro m hlm hm w hw
    by_cases hml : m = l
    · subst hml
      rw [getElem?_set_self (by rw [length_set]; exact hl), Option.some.injEq] at hw
      exact hw ▸ hx
    · rw [getElem?_set_ne (fun e => hml e.symm), getElem?_set_ne (by omega)] at hw
      exact h.large m (by omega) hm w hw

theorem Partitioned.scan {first last i j k l : Nat} (h : Partitioned f mid first last i (j + 1) data)
    (hu : ∀ m, i ≤ m → m < k → ∀ x, data[m]? = some x → f x mid < 0)
    (hd : ∀ m, m ≤ j → l < m → ∀ x, data[m]? = some x → f mid x < 0) : Partitioned f mid first last k (l + 1) data := by
  constructor
  · intro m hm hmk x hx
    rcases Nat.lt_or_ge m i with hmi | hmi
    · exact h.small m hm hmi x hx
    · exact le_of_lt (hu m hmi hmk x hx)
  · intro m hlm hm x hx
    rcases Nat.lt_or_ge j m with hjm | hjm
    · exact h.large m hjm hm x hx
    · exact le_of_lt (hd m hjm hlm x hx)

theorem partitionLoop_spec (hf : TotalCompare f) {first last : Nat} :
    ∀ (n : Nat) (data : List α) (i j : Nat), last < data.length → first ≤ i → i ≤ j → j ≤ last → j < i + n →
      Partitioned f mid first last i (j + 1) data → Guarded f mid first last i j data →
      ∃ (after : List α) (k l : Nat), partitionLoop f mid first last n data i j = some (after, (k : Int), (l : Int) - 1) ∧
        Split f mid first last data after k l := by
  intro n
  induction n with
  | zero => intro data i j _ _ _ _ hn; omega
  | succ n ih =>
    intro data i j hlen hfi hij hjl hn hpart hguard
    obtain ⟨p, y, hip, hpl, hy, hys⟩ := hguard.up
    obtain ⟨q, z, hfq, hqj, hz, hzs⟩ := hguard.down
    obtain ⟨k, x, ek, hik, hkp, hx, hxs, hbelow⟩ := scanUp_spec hpl hy hys (data.length + 1) i hip (by omega)
    obtain ⟨l, w, el, hlj, hql, hw, hws, habove⟩ :=
      scanDown_spec hfq hz hzs (data.length + 1) j hqj (by omega) (by omega)
    have hpart' : Partitioned f mid first last k (l + 1) data := hpart.scan hbelow habove
    have hxm : f mid x ≤ 0 := (hf.le_iff mid x).mpr hxs
    have hwm : f w mid ≤ 0 := (hf.le_iff w mid).mpr hws
    rw [partitionLoop, ek, el]
    simp only [Option.bind_eq_bind, Option.bind_some, Nat.cast_lt, Nat.cast_inj]
    rcases Nat.lt_trichotomy k l with hkl | hkl | hkl
    · -- an exchange: what was put behind each scan stops it in the next round
      have hmoved : Rearranged (Set.Icc first last) data ((data.set k w).set l x) :=
        Rearranged.exchange ⟨by omega, by omega⟩ ⟨by omega, by omega⟩ hx hw
      have hpart'' := hpart'.exchange hkl (by omega) (by omega) hxm hwm
      have hexch : exchange data k l = some ((data.set k w).set l x) := by
        rw [exchange, entry_natCast, entry_natCast, hx, hw]
        rfl
      rw [if_pos hkl, hexch, Option.bind_some]
      by_cases hgo : (k : Int) + 1 ≤ (l : Int) - 1
      · have hl1 : (l : Int) - 1 = ((l - 1 : Nat) : Int) := by omega
        have hlw : ((data.set k w).set l x)[l]? = some x :=
          getElem?_set_self (by rw [length_set]; omega)
        have hkw : ((data.set k w).set l x)[k]? = some w := by
          rw [getElem?_set_ne (by omega)]
          exact getElem?_set_self (by omega)
        have hpart₃ : Partitioned f mid first last (k + 1) (l - 1 + 1) ((data.set k w).set l x) := by
          rw [show l - 1 + 1 = l by omega]
          exact hpart''
        obtain ⟨after, k', l', e, hsplit⟩ := ih ((data.set k w).set l x) (k + 1) (l - 1) (by simpa using hlen)
          (by omega) (by omega) (by omega) (by omega) hpart₃
          ⟨⟨l, x, by omega, by omega, hlw, hxs⟩, ⟨k, w, by omega, by omega, hkw, hws⟩⟩
        rw [if_pos hgo, hl1, ← Int.natCast_succ]
        exact ⟨after, k', l', e, { hsplit with moved := hmoved.trans hsplit.moved }⟩
      · rw [if_neg hgo]
        exact ⟨_, k + 1, l, rfl, hmoved, hpart'', by omega, by omega, by omega⟩
    · subst hkl
      rw [if_neg (lt_irrefl k), if_pos rfl]
      refine ⟨data, k + 1, k, rfl, Rearranged.refl _ _, ⟨?_, ?_⟩, by omega, by omega, by omega⟩
      · intro m hm hmk v hv
        rcases Nat.lt_succ_iff_lt_or_eq.mp hmk with h | h
        · exact hpart'.small m hm h v hv
        · rw [h, hw, Option.some.injEq] at hv
          exact hv ▸ hwm
      · intro m hkm hm v hv
        rcases Nat.lt_or_eq_of_le hkm with h | h
        · exact hpart'.large m h hm v hv
        · rw [← h, hx, Option.some.injEq] at hv
          exact hv ▸ hxm
    · have hl1 : (l : Int) = ((l + 1 : Nat) : Int) - 1 := by omega
      rw [if_neg (by omega), if_neg (by omega)]
      refine ⟨data, k, l + 1, by rw [← hl1], Rearranged.refl _ _, hpart', by omega, by omega, by omega⟩

/-! ## the whole sort -/

/-- The most entries for which no sum of two positions overflows an `int`. -/
def sortable : Nat := 2 ^ 30 + 1

theorem middle_natCast {first last : Nat} (h : first + last < 2 ^ 31) :
    middle first last = some (((first + last) / 2 : Nat) : Int) := by
  rw [middle, if_pos (by omega), ← Nat.cast_add]
  rfl

theorem Split.ordered (hf : TotalCompare f) {first last i j : Nat} {before data₁ data₂ data₃ : List α}
    (h : Split f mid first last before data₁ i j)
    (h₁ : Rearranged (Set.Ico first j) data₁ data₂) (o₁ : OrderedOn f (Set.Ico first j) data₂)
    (h₂ : Rearranged (Set.Icc i last) data₂ data₃) (o₂ : OrderedOn f (Set.Icc i last) data₃) :
    OrderedOn f (Set.Icc first last) data₃ := by
  have hcross := h.cross
  have hdown := h.down
  have o₁' : OrderedOn f (Set.Ico first j) data₃ :=
    o₁.of_frame h₂ fun k hk hk' => by simp only [Set.mem_Ico, Set.mem_Icc] at hk hk'; omega
  have hsmall : ∀ k, k ∈ Set.Ico first i → ∀ x, data₃[k]? = some x → f x mid ≤ 0 := by
    intro k hk x hx
    have hout : k ∉ Set.Icc i last := fun hk' => by simp only [Set.mem_Ico, Set.mem_Icc] at hk hk'; omega
    rw [h₂.frame k hout] at hx
    have hmono : Rearranged (Set.Ico first i) data₁ data₂ :=
      h₁.mono fun m hm => ⟨hm.1, hm.2.trans_le hcross⟩
    exact hmono.forall_at (fun m hm y hy => h.parts.small m hm.1 hm.2 y hy) k hk x hx
  have hlarge : ∀ k, k ∈ Set.Icc j last → ∀ x, data₃[k]? = some x → f mid x ≤ 0 := by
    intro k hk x hx
    have hmono : Rearranged (Set.Icc j last) data₂ data₃ :=
      h₂.mono fun m hm => ⟨hcross.trans hm.1, hm.2⟩
    refine hmono.forall_at (p := fun x => f mid x ≤ 0) (fun m hm y hy => ?_) k hk x hx
    have hout : m ∉ Set.Ico first j := fun hm' => by simp only [Set.mem_Ico, Set.mem_Icc] at hm hm'; omega
    rw [h₁.frame m hout] at hy
    exact h.parts.large m hm.1 hm.2 y hy
  intro a ha b hb hab x y hx hy
  simp only [Set.mem_Icc] at ha hb
  by_cases hbj : b < j
  · exact o₁' a ⟨ha.1, by omega⟩ b ⟨hb.1, hbj⟩ hab x y hx hy
  · by_cases hai : i ≤ a
    · exact o₂ a ⟨hai, ha.2⟩ b ⟨by omega, hb.2⟩ hab x y hx hy
    · exact hf.trans x mid y (hsmall a ⟨ha.1, by omega⟩ x hx) (hlarge b ⟨by omega, hb.2⟩ y hy)

theorem OrderedOn.of_subsingleton (hf : TotalCompare f) {P : Set Nat} (hP : ∀ a ∈ P, ∀ b ∈ P, a = b) (data : List α) :
    OrderedOn f P data := by
  intro a ha b hb _ x y hx hy
  rw [hP a ha b hb, hy, Option.some.injEq] at hx
  exact hx ▸ le_of_eq (hf.self y)

theorem arrayQSort_spec (hf : TotalCompare f) :
    ∀ (n : Nat) (data : List α) (first last : Nat), first < last → last < data.length → data.length ≤ sortable →
      last - first < n →
      ∃ after, arrayQSort f n data first last = some after ∧ Rearranged (Set.Icc first last) data after ∧
        OrderedOn f (Set.Icc first last) after := by
  intro n
  induction n with
  | zero => intro data first last _ _ _ hn; omega
  | succ n ih =>
    intro data first last hfl hlen hsize hn
    simp only [sortable] at hsize
    obtain ⟨mid, hmid⟩ := exists_entry data (k := (first + last) / 2) (by omega)
    have hself : 0 ≤ f mid mid := le_of_eq (hf.self mid).symm
    have hpart : Partitioned f mid first last first (last + 1) data :=
      ⟨fun k h₁ h₂ => by omega, fun k h₁ h₂ => by omega⟩
    have hguard : Guarded f mid first last first last data :=
      ⟨⟨_, mid, by omega, by omega, hmid, hself⟩, ⟨_, mid, by omega, by omega, hmid, hself⟩⟩
    obtain ⟨data₁, i, j, e, hsplit⟩ := partitionLoop_spec hf (data.length + 1) data first last hlen (le_refl first)
      (by omega) (le_refl last) (by omega) hpart hguard
    have hcross := hsplit.cross
    have hup := hsplit.up
    have hdown := hsplit.down
    have hlen₁ := hsplit.moved.length_eq
    -- the part up to `j`
    obtain ⟨data₂, e₂, h₁, o₁⟩ : ∃ data₂, (if (first : Int) < (j : Int) - 1 then
        arrayQSort f n data₁ first ((j : Int) - 1) else some data₁) = some data₂ ∧
        Rearranged (Set.Ico first j) data₁ data₂ ∧ OrderedOn f (Set.Ico first j) data₂ := by
      by_cases hj : (first : Int) < (j : Int) - 1
      · have hj1 : (j : Int) - 1 = ((j - 1 : Nat) : Int) := by omega
        have hIcc : Set.Icc first (j - 1) = Set.Ico first j := by
          ext k
          simp only [Set.mem_Icc, Set.mem_Ico]
          omega
        rw [if_pos hj, hj1, ← hIcc]
        exact ih data₁ first (j - 1) (by omega) (by omega) (by simp only [sortable]; omega) (by omega)
      · rw [if_neg hj]
        refine ⟨data₁, rfl, Rearranged.refl _ _, OrderedOn.of_subsingleton hf ?_ _⟩
        intro a ha b hb
        simp only [Set.mem_Ico] at ha hb
        omega
    have hlen₂ := h₁.length_eq
    -- and the part from `i` on
    obtain ⟨data₃, e₃, h₂, o₂⟩ : ∃ data₃, (if (i : Int) < (last : Int) then
        arrayQSort f n data₂ i last else some data₂) = some data₃ ∧
        Rearranged (Set.Icc i last) data₂ data₃ ∧ OrderedOn f (Set.Icc i last) data₃ := by
      by_cases hi : (i : Int) < last
      · rw [if_pos hi]
        exact ih data₂ i last (by omega) (by omega) (by simp only [sortable]; omega) (by omega)
      · rw [if_neg hi]
        refine ⟨data₂, rfl, Rearranged.refl _ _, OrderedOn.of_subsingleton hf ?_ _⟩
        intro a ha b hb
        simp only [Set.mem_Icc] at ha hb
        omega
    refine ⟨data₃, ?_, ?_, hsplit.ordered hf h₁ o₁ h₂ o₂⟩
    · rw [arrayQSort, middle_natCast (by omega)]
      simp only [Option.bind_eq_bind, Option.bind_some, entry_natCast, hmid, e, e₂, e₃]
    · refine hsplit.moved.trans ((h₁.mono ?_).trans (h₂.mono ?_))
      · intro k hk
        simp only [Set.mem_Ico, Set.mem_Icc] at hk ⊢
        omega
      · intro k hk
        simp only [Set.mem_Icc] at hk ⊢
        omega

end Priot.Containers
