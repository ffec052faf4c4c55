/-
# What the decoders look at

A decoder given `*datalength` octets accepts only what lies inside them. Outside may be looked at the two octets after
an empty Opaque, and the first octet of an empty signed 64-bit value.
-/
import Priot.Asn01.Parse
import Priot.Lib.Agree

namespace Priot.Asn01

open Octets
open Stream' (AgreeOn)

variable {m₁ m₂ : Mem} {off dl a : Nat}

/-! ## lengths -/

variable {m : Mem}

theorem parseLength_next_pos {j : Nat} (h : (parseLength m).next = some j) : 1 ≤ j := by
  simp only [parseLength] at h
  split at h
  · split at h
    · cases h
    · split at h
      · cases h
      · split at h
        · cases h
        · simp only [Option.some.injEq] at h
          omega
  · simp only [Option.some.injEq] at h
    omega

theorem parseLength_agree {j : Nat} (h : (parseLength m₁).next = some j) (hm : AgreeOn j m₁ m₂) :
    parseLength m₂ = parseLength m₁ := by
  have hpos := parseLength_next_pos h
  have hhead := hm.head hpos
  simp only [parseLength, ← hhead] at h ⊢
  split at h
  · next hhi =>
    split at h
    · cases h
    · next h0 =>
      split at h
      · cases h
      · next h8 =>
        -- the long form: the count octet and the octets it counts
        have hcount : m₁.head.toNat % 128 + 1 ≤ j := by
          split at h
          · cases h
          · simp only [Option.some.injEq] at h
            omega
        have htake := hm.tail.take (i := m₁.head.toNat % 128) (by omega)
        rw [← htake]
  · next hhi => rw [if_neg hhi, if_neg hhi]

variable {n k : Nat}

theorem parseLengthAt_eq_some (h : parseLengthAt m off dl = some (n, k)) :
    ∃ j, parseLength (m.drop off) = ⟨some n, some j⟩ ∧ k = off + j ∧ n + k ≤ dl ∧ n ≤ 0x7fffffff ∧ k ≤ 0x7fffffff := by
  unfold parseLengthAt at h
  rcases hp : parseLength (m.drop off) with ⟨⟨⟩ | n', ⟨⟩ | j⟩
  · simp only [hp] at h
    cases h
  · simp only [hp] at h
    cases h
  · simp only [hp] at h
    cases h
  · simp only [hp] at h
    split at h
    · cases h
    · next hcheck =>
      simp only [Option.some.injEq, Prod.mk.injEq] at h
      obtain ⟨rfl, rfl⟩ := h
      simp only [parseLengthCheck, Bool.not_eq_true, Bool.or_eq_false_iff,
        decide_eq_false_iff_not] at hcheck
      exact ⟨j, rfl, rfl, by omega, by omega, by omega⟩

theorem parseLengthAt_bounds (h : parseLengthAt m off dl = some (n, k)) : off < k ∧ k + n ≤ dl := by
  obtain ⟨j, hp, rfl, hle, -, -⟩ := parseLengthAt_eq_some h
  have hj := parseLength_next_pos (by rw [hp])
  omega

theorem parseLengthAt_mono {r : Nat × Nat} {dl' : Nat} (h : parseLengthAt m off dl = some r)
    (hdl : dl ≤ dl') : parseLengthAt m off dl' = some r := by
  obtain ⟨n, k⟩ := r
  obtain ⟨j, hp, rfl, hle, hn, hk⟩ := parseLengthAt_eq_some h
  have hcheck : parseLengthCheck (some (off + j)) n dl' = false := by
    simp only [parseLengthCheck, Bool.or_eq_false_iff, decide_eq_false_iff_not]
    omega
  simp only [parseLengthAt, hp, hcheck, Bool.false_eq_true, if_false]

theorem parseLengthAt_agree_some {r : Nat × Nat} (h : parseLengthAt m₁ off dl = some r)
    (hm : AgreeOn dl m₁ m₂) : parseLengthAt m₂ off dl = some r := by
  obtain ⟨n, k⟩ := r
  obtain ⟨j, hp, rfl, hle, hn, hk⟩ := parseLengthAt_eq_some h
  have hagree : AgreeOn j (m₁.drop off) (m₂.drop off) := (hm.drop off).mono (by omega)
  have hp' := parseLength_agree (by rw [hp]) hagree
  have hcheck : parseLengthCheck (some (off + j)) n dl = false := by
    simp only [parseLengthCheck, Bool.or_eq_false_iff, decide_eq_false_iff_not]
    omega
  simp only [parseLengthAt, hp', hp, hcheck, Bool.false_eq_true, if_false]

theorem parseLengthAt_agree (hm : AgreeOn dl m₁ m₂) (off : Nat) :
    parseLengthAt m₁ off dl = parseLengthAt m₂ off dl := by
  cases h₁ : parseLengthAt m₁ off dl with
  | some r => exact (parseLengthAt_agree_some h₁ hm).symm
  | none =>
    cases h₂ : parseLengthAt m₂ off dl with
    | none => rfl
    | some r =>
      rw [parseLengthAt_agree_some h₂ hm.symm] at h₁
      cases h₁

theorem accepted {w : Nat} (hm : AgreeOn dl m₁ m₂) (hw : dl ≤ w) (h : parseLengthAt m₁ off dl = some (n, k)) :
    parseLengthAt m₁ off w = some (n, k) ∧ parseLengthAt m₂ off w = some (n, k) ∧
      (m₁.drop k).take n = (m₂.drop k).take n ∧ off < k ∧ k + n ≤ dl := by
  have hbounds := parseLengthAt_bounds h
  have h₂ := parseLengthAt_agree_some h hm
  exact ⟨parseLengthAt_mono h hw, parseLengthAt_mono h₂ hw, hm.take_drop hbounds.2, hbounds⟩

theorem parseLengthAt_eq_none (h : dl ≤ off) : parseLengthAt m off dl = none := by
  cases hp : parseLengthAt m off dl with
  | none => rfl
  | some r =>
    have hbounds := parseLengthAt_bounds (n := r.1) (k := r.2) hp
    omega

/-! ## the value decoders

Each is given a window `w` that may reach past the `dl` octets that agree, as `Api_pduParse` gives
them `MAX_PACKET_LENGTH`; it is enough that its length is accepted in `dl` octets. -/

section values

variable {n k w : Nat} (hm : AgreeOn dl m₁ m₂) (hw : dl ≤ w)

include hm hw

theorem parseInt_agree (h : parseLengthAt m₁ 1 dl = some (n, k)) : parseInt m₁ w = parseInt m₂ w := by
  obtain ⟨h₁, h₂, htake, hk, hle⟩ := accepted hm hw h
  have hhead := hm.head (by omega)
  simp only [parseInt, h₁, h₂, hhead, Option.bind_eq_bind, Option.bind_some, htake]

theorem parseUnsignedInt_agree (h : parseLengthAt m₁ 1 dl = some (n, k)) :
    parseUnsignedInt m₁ w = parseUnsignedInt m₂ w := by
  obtain ⟨h₁, h₂, htake, hk, hle⟩ := accepted hm hw h
  have hhead := hm.head (by omega)
  simp only [parseUnsignedInt, h₁, h₂, hhead, Option.bind_eq_bind, Option.bind_some, htake]
  by_cases hn : n = 0
  · -- without content the first octet does not matter
    subst hn
    simp only [guard, or_true, true_or, not_true_eq_false, if_false]
    rfl
  · rw [hm k (by omega)]

theorem parseString_agree (h : parseLengthAt m₁ 1 dl = some (n, k)) (strlength : Nat) :
    parseString m₁ w strlength = parseString m₂ w strlength := by
  obtain ⟨h₁, h₂, htake, hk, hle⟩ := accepted hm hw h
  have hhead := hm.head (by omega)
  simp only [parseString, h₁, h₂, hhead, Option.bind_eq_bind, Option.bind_some, htake]

theorem parseBitstring_agree (h : parseLengthAt m₁ 1 dl = some (n, k)) (strlength : Nat) :
    parseBitstring m₁ w strlength = parseBitstring m₂ w strlength := by
  obtain ⟨h₁, h₂, htake, hk, hle⟩ := accepted hm hw h
  have hhead := hm.head (by omega)
  simp only [parseBitstring, h₁, h₂, hhead, Option.bind_eq_bind, Option.bind_some, htake]

theorem parseObjid_agree (h : parseLengthAt m₁ 1 dl = some (n, k)) (objidlength : Nat) :
    parseObjid m₁ w objidlength = parseObjid m₂ w objidlength := by
  obtain ⟨h₁, h₂, htake, hk, hle⟩ := accepted hm hw h
  have hhead := hm.head (by omega)
  simp only [parseObjid, h₁, h₂, hhead, htake]

theorem parseUnsignedInt64_agree (h : parseLengthAt m₁ 1 dl = some (n, k))
    (hnot : m₁.head ≠ asnOPAQUE) : parseUnsignedInt64 m₁ w = parseUnsignedInt64 m₂ w := by
  obtain ⟨h₁, h₂, htake, hk, hle⟩ := accepted hm hw h
  have hhead := hm.head (by omega)
  rw [hhead] at hnot
  simp only [parseUnsignedInt64, h₁, h₂, hhead, hnot, false_and, if_false, htake]
  by_cases hn : n = 0
  · subst hn
    simp only [Nat.reduceEqDiff, false_and, or_false]
  · rw [hm k (by omega)]

theorem parseSignedInt64_agree (h : parseLengthAt m₁ 1 dl = some (n, k))
    (hnot : m₁.head ≠ asnOPAQUE) : parseSignedInt64 m₁ w = parseSignedInt64 m₂ w := by
  obtain ⟨h₁, h₂, htake, hk, hle⟩ := accepted hm hw h
  have hhead := hm.head (by omega)
  rw [hhead] at hnot
  simp only [parseSignedInt64, h₁, h₂, hhead, hnot, false_and, if_false]

theorem parseFloating_agree (special : UInt8) (berLen size : Nat)
    (h : parseLengthAt m₁ 1 dl = some (n, k)) (hnot : m₁.head ≠ asnOPAQUE) :
    parseFloating special berLen size m₁ w = parseFloating special berLen size m₂ w := by
  obtain ⟨h₁, h₂, htake, hk, hle⟩ := accepted hm hw h
  have hhead := hm.head (by omega)
  rw [hhead] at hnot
  simp only [parseFloating, h₁, h₂, hhead, hnot, false_and, if_false, htake]

end values

/-! ## values inside an Opaque

The Opaque's length is accepted, and so is the length behind the two tag octets; then these octets
lie in the data. -/

section special

variable {n k n₀ k₀ w : Nat} (hm : AgreeOn dl m₁ m₂) (hw : dl ≤ w)
  (h₀ : parseLengthAt m₁ 1 dl = some (n₀, k₀)) (h : parseLengthAt m₁ (k₀ + 2) dl = some (n, k))

include hm hw h₀ h

theorem parseUnsignedInt64_agree_special : parseUnsignedInt64 m₁ w = parseUnsignedInt64 m₂ w := by
  obtain ⟨h₀₁, h₀₂, htake₀, hk₀, hle₀⟩ := accepted hm hw h₀
  obtain ⟨h₁, h₂, htake, hk, hle⟩ := accepted hm hw h
  have hhead := hm.head (by omega)
  simp only [parseUnsignedInt64, h₀₁, h₀₂, h₁, h₂, hhead, htake₀, htake, hm k₀ (by omega),
    hm (k₀ + 1) (by omega)]
  by_cases hn : n = 0
  · subst hn
    simp only [Nat.reduceEqDiff, false_and, or_false]
  · rw [hm k (by omega)]

theorem parseFloating_agree_special (special : UInt8) (berLen size : Nat) :
    parseFloating special berLen size m₁ w = parseFloating special berLen size m₂ w := by
  obtain ⟨h₀₁, h₀₂, htake₀, hk₀, hle₀⟩ := accepted hm hw h₀
  obtain ⟨h₁, h₂, htake, hk, hle⟩ := accepted hm hw h
  have hhead := hm.head (by omega)
  simp only [parseFloating, h₀₁, h₀₂, h₁, h₂, hhead, htake₀, htake, hm k₀ (by omega),
    hm (k₀ + 1) (by omega)]

end special

/-- `Asn01_parseSignedInt64` takes the sign of a value in an Opaque from its first octet without
asking whether it has one. Without octets at the end of the `a` octets of the message, the sign lies
behind it. -/
def staleSign (data : Mem) (datalength a : Nat) : Bool :=
  data.head == asnOPAQUE && (parseLengthAt data 1 datalength).any fun outer =>
    outer.1 ≤ 12 && (data.get outer.2 == asnOPAQUE_TAG1 && (data.get (outer.2 + 1) == asnOPAQUE_I64 &&
      parseLengthAt data (outer.2 + 2) datalength == some (0, a)))

theorem staleSign_iff : staleSign m dl a = true ↔ m.head = asnOPAQUE ∧ ∃ n k, parseLengthAt m 1 dl = some (n, k) ∧
      n ≤ 12 ∧ m.get k = asnOPAQUE_TAG1 ∧ m.get (k + 1) = asnOPAQUE_I64 ∧ parseLengthAt m (k + 2) dl = some (0, a) := by
  simp only [staleSign, Bool.and_eq_true, beq_iff_eq, Option.any_eq_true, decide_eq_true_eq,
    Prod.exists]

theorem parseSignedInt64_stale {w : Nat} (hw : dl ≤ w) (hs : staleSign m dl a = true) :
    parseSignedInt64 m w = ⟨asnOPAQUE_I64,
      some ⟨if hiBit (m.get a) then (0xffffff, 0xffffffff) else (0, 0), w - a, a⟩⟩ := by
  obtain ⟨hop, n, k, hlen, hn, htag, htag', hinner⟩ := staleSign_iff.mp hs
  simp only [parseSignedInt64, hop, parseLengthAt_mono hlen hw, parseLengthAt_mono hinner hw, hn,
    htag, htag', and_self, if_true]
  rw [if_neg (by omega), Stream'.take_zero, List.foldl_nil, Nat.zero_add, Nat.add_zero]
  split <;> rfl

theorem parseHeader_staleSign (hs : staleSign m dl a = true) :
    parseHeader m dl = ⟨some asnOPAQUE_I64, some (0, a)⟩ := by
  obtain ⟨hop, n, k, hlen, hn, htag, htag', hinner⟩ := staleSign_iff.mp hs
  simp only [parseHeader, hop, hlen, htag, htag', hinner]
  rfl

theorem staleSign_agree (hm : AgreeOn a m₁ m₂) (hdl : dl ≤ a) (hs : staleSign m₁ dl a = true) :
    staleSign m₂ dl a = true := by
  obtain ⟨hop, n, k, hlen, hn, htag, htag', hinner⟩ := staleSign_iff.mp hs
  have hbounds := parseLengthAt_bounds hlen
  have hinnerBounds := parseLengthAt_bounds hinner
  apply staleSign_iff.mpr
  refine ⟨?_, n, k, parseLengthAt_agree_some hlen (hm.mono hdl), hn, ?_, ?_,
    parseLengthAt_agree_some hinner (hm.mono hdl)⟩
  · rw [← hm.head (by omega), hop]
  · rw [← hm k (by omega), htag]
  · rw [← hm (k + 1) (by omega), htag']

theorem parseSignedInt64_agree_special {n₀ k₀ w : Nat} (hm : AgreeOn a m₁ m₂) (hdl : dl ≤ a)
    (hw : dl ≤ w) (h₀ : parseLengthAt m₁ 1 dl = some (n₀, k₀))
    (h : parseLengthAt m₁ (k₀ + 2) dl = some (n, k)) (hs : staleSign m₁ dl a = false) :
    parseSignedInt64 m₁ w = parseSignedInt64 m₂ w := by
  obtain ⟨h₀₁, h₀₂, htake₀, hk₀, hle₀⟩ := accepted (hm.mono hdl) hw h₀
  obtain ⟨h₁, h₂, htake, hk, hle⟩ := accepted (hm.mono hdl) hw h
  have hhead := hm.head (by omega)
  simp only [parseSignedInt64, h₀₁, h₀₂, h₁, h₂, ← hhead, htake, ← hm k₀ (by omega),
    ← hm (k₀ + 1) (by omega)]
  split
  · next htag =>
    have hka : k < a := by
      by_contra hka
      have hn : n = 0 := by omega
      have hka : k = a := by omega
      subst hn hka
      have : staleSign m₁ dl k = true :=
        staleSign_iff.mpr ⟨htag.1, n₀, k₀, h₀, htag.2.1, htag.2.2.1, htag.2.2.2, h⟩
      rw [hs] at this
      cases this
    rw [hm k hka]
  · rfl

/-! ## headers -/

/-- `Asn01_parseHeader` asks whether an Opaque starts with the special tags without asking whether it
has two octets. Its answer lies outside the `a` octets of the message when the content starts at
their end, or one octet before it with the first tag. -/
def staleHeader (data : Mem) (datalength a : Nat) : Bool :=
  data.head == asnOPAQUE && (parseLengthAt data 1 datalength).any fun r =>
    r.2 == a || (r.2 + 1 == a && data.get r.2 == asnOPAQUE_TAG1)

theorem staleHeader_iff : staleHeader m dl a = true ↔ m.head = asnOPAQUE ∧ ∃ n k, parseLengthAt m 1 dl = some (n, k) ∧
      (k = a ∨ (k + 1 = a ∧ m.get k = asnOPAQUE_TAG1)) := by
  simp only [staleHeader, Bool.and_eq_true, beq_iff_eq, Option.any_eq_true, Bool.or_eq_true,
    Prod.exists]

theorem staleHeader_agree (hm : AgreeOn a m₁ m₂) (hdl : dl ≤ a) (hs : staleHeader m₁ dl a = true) :
    staleHeader m₂ dl a = true := by
  obtain ⟨hop, n, k, hlen, hk⟩ := staleHeader_iff.mp hs
  have hbounds := parseLengthAt_bounds hlen
  apply staleHeader_iff.mpr
  refine ⟨?_, n, k, parseLengthAt_agree_some hlen (hm.mono hdl), ?_⟩
  · rw [← hm.head (by omega), hop]
  · rcases hk with hk | ⟨hk, htag⟩
    · exact Or.inl hk
    · exact Or.inr ⟨hk, by rw [← hm k (by omega), htag]⟩

theorem parseHeader_of_opaqueTag (hop : m.head = asnOPAQUE) (h : parseLengthAt m 1 dl = some (n, k)) :
    parseHeader m dl = if m.get k = asnOPAQUE_TAG1 ∧ isOpaqueSpecial (m.get (k + 1)) then
        ⟨some (m.get (k + 1)), parseLengthAt m (k + 2) dl⟩ else ⟨some asnOPAQUE, some (n, k)⟩ := by
  simp only [parseHeader, hop, h, true_and]
  rw [if_neg (by decide)]

theorem parseHeader_stale_plain (hs : staleHeader m dl a = true)
    (htag : m.get a ≠ asnOPAQUE_TAG1) (hspecial : isOpaqueSpecial (m.get a) = false) :
    m.head = asnOPAQUE ∧ ∃ n k, parseLengthAt m 1 dl = some (n, k) ∧
      parseHeader m dl = ⟨some asnOPAQUE, some (n, k)⟩ := by
  obtain ⟨hop, n, k, hlen, hk⟩ := staleHeader_iff.mp hs
  refine ⟨hop, n, k, hlen, ?_⟩
  rw [parseHeader_of_opaqueTag hop hlen, if_neg]
  rintro ⟨htag', hspecial'⟩
  rcases hk with rfl | ⟨rfl, -⟩
  · exact htag htag'
  · rw [hspecial] at hspecial'
    cases hspecial'

theorem parseHeader_stale (hdl : dl ≤ a) (hs : staleHeader m₁ dl a = true) :
    ∃ x, ∀ m₂, AgreeOn a m₁ m₂ → m₂.get a = x → m₂.get (a + 1) = asnOPAQUE_COUNTER64 →
      (parseHeader m₂ dl).result = none := by
  obtain ⟨hop, n, k, hlen, hk⟩ := staleHeader_iff.mp hs
  have hbounds := parseLengthAt_bounds hlen
  have hopen : ∀ {m₂ : Mem}, AgreeOn a m₁ m₂ → m₂.get k = asnOPAQUE_TAG1 →
      isOpaqueSpecial (m₂.get (k + 1)) = true → a ≤ k + 1 → (parseHeader m₂ dl).result = none := by
    intro m₂ hm htag hspecial hka
    have hhead : m₂.head = asnOPAQUE := (hm.head (by omega)).symm.trans hop
    rw [parseHeader_of_opaqueTag hhead (parseLengthAt_agree_some hlen (hm.mono hdl)),
      if_pos ⟨htag, hspecial⟩]
    exact parseLengthAt_eq_none (by omega)
  rcases hk with rfl | ⟨hka, htag⟩
  · refine ⟨asnOPAQUE_TAG1, fun m₂ hm hx htag => hopen hm hx ?_ (by omega)⟩
    rw [htag]
    decide
  · refine ⟨asnOPAQUE_COUNTER64, fun m₂ hm hx _ => hopen hm ?_ ?_ (by omega)⟩
    · rw [← hm k (by omega), htag]
    · rw [hka, hx]
      decide

theorem parseHeader_agree (hm : AgreeOn a m₁ m₂) (hdl : dl ≤ a) (ha : 0 < a)
    (hs : staleHeader m₁ dl a = false) : parseHeader m₁ dl = parseHeader m₂ dl := by
  have hhead := hm.head ha
  have hlen := parseLengthAt_agree (hm.mono hdl) 1
  simp only [parseHeader, ← hhead, ← hlen]
  cases h : parseLengthAt m₁ 1 dl with
  | none => rfl
  | some r =>
    obtain ⟨n, k⟩ := r
    have hbounds := parseLengthAt_bounds h
    simp only []
    by_cases hop : m₁.head = asnOPAQUE
    · -- an Opaque: is its first octet the first tag, and its second in the message?
      have hns : ¬ (k = a ∨ (k + 1 = a ∧ m₁.get k = asnOPAQUE_TAG1)) := by
        intro hk
        have : staleHeader m₁ dl a = true := staleHeader_iff.mpr ⟨hop, n, k, h, hk⟩
        rw [hs] at this
        cases this
      have hka : k < a := by omega
      rw [← hm k hka]
      by_cases htag : m₁.get k = asnOPAQUE_TAG1
      · have hka' : k + 1 < a := by
          have hne : k + 1 ≠ a := fun hk => hns (Or.inr ⟨hk, htag⟩)
          omega
        rw [← hm (k + 1) hka', parseLengthAt_agree (hm.mono hdl) (k + 2)]
      · simp only [htag, false_and, and_false, if_false]
    · simp only [hop, false_and, if_false]

theorem parseHeader_type_of_result {type : Option UInt8} {r : Nat × Nat}
    (h : parseHeader m dl = ⟨type, some r⟩) : ∃ t, type = some t := by
  simp only [parseHeader] at h
  split at h
  · cases h
  · split at h
    · cases h
    · split at h
      · simp only [HeaderOut.mk.injEq] at h
        exact ⟨_, h.1.symm⟩
      · simp only [HeaderOut.mk.injEq] at h
        exact ⟨_, h.1.symm⟩

theorem parseHeader_eq_special {t : UInt8} (h : parseHeader m dl = ⟨some t, some (n, k)⟩) :
    (t = m.head ∧ parseLengthAt m 1 dl = some (n, k)) ∨
      (m.head = asnOPAQUE ∧ isOpaqueSpecial t ∧ ∃ n₀ k₀, parseLengthAt m 1 dl = some (n₀, k₀) ∧
        m.get k₀ = asnOPAQUE_TAG1 ∧ m.get (k₀ + 1) = t ∧ parseLengthAt m (k₀ + 2) dl = some (n, k)) := by
  simp only [parseHeader] at h
  split at h
  · cases h
  · cases h₀ : parseLengthAt m 1 dl with
    | none =>
      rw [h₀] at h
      cases h
    | some r =>
      simp only [h₀] at h
      split at h
      · next htag =>
        simp only [HeaderOut.mk.injEq, Option.some.injEq] at h
        obtain ⟨rfl, hinner⟩ := h
        exact Or.inr ⟨htag.1, htag.2.2, r.1, r.2, rfl, htag.2.1, rfl, hinner⟩
      · simp only [HeaderOut.mk.injEq, Option.some.injEq] at h
        obtain ⟨rfl, hr⟩ := h
        exact Or.inl ⟨rfl, congrArg some hr⟩

theorem parseHeader_zero (m : Mem) :
    parseHeader m 0 = ⟨if asnIsExtensionId m.head then none else some m.head, none⟩ := by
  simp only [parseHeader, parseLengthAt_eq_none (Nat.zero_le 1)]
  split <;> rfl

theorem parseHeader_bounds {type : Option UInt8} (h : parseHeader m dl = ⟨type, some (n, k)⟩) : 1 < k ∧ k + n ≤ dl := by
  obtain ⟨t, rfl⟩ := parseHeader_type_of_result h
  rcases parseHeader_eq_special h with ⟨-, hlen⟩ | ⟨-, -, n₀, k₀, -, -, -, hlen⟩
  · exact parseLengthAt_bounds hlen
  · have hbounds := parseLengthAt_bounds hlen
    omega

/-- A sequence header is no Opaque, so only its length is looked at. -/
theorem parseSequence_eq (m : Mem) (dl : Nat) : parseSequence m dl asnSEQUENCE_CONSTRUCTOR =
      if m.head = asnSEQUENCE_CONSTRUCTOR then parseLengthAt m 1 dl else none := by
  simp only [parseSequence]
  split
  · next htype =>
    simp only [parseHeader] at htype ⊢
    split at htype
    · cases htype
    · next hext =>
      rw [if_neg hext]
      cases h : parseLengthAt m 1 dl with
      | none =>
        simp only [ite_self]
      | some r =>
        simp only [h] at htype ⊢
        split at htype
        · next htag =>
          -- the special types are not the sequence's
          simp only [Option.some.injEq] at htype
          have hspecial := htag.2.2
          rw [htype] at hspecial
          exact absurd hspecial (by decide)
        · next htag =>
          simp only [Option.some.injEq] at htype
          rw [if_pos htype, if_neg htag]
  · next htype =>
    by_cases hhead : m.head = asnSEQUENCE_CONSTRUCTOR
    · exfalso
      apply htype
      simp only [parseHeader, hhead]
      rw [if_neg (by decide)]
      cases parseLengthAt m 1 dl with
      | none => rfl
      | some r =>
        simp only []
        rw [if_neg]
        rintro ⟨hop, -⟩
        exact absurd hop (by decide)
    · rw [if_neg hhead]

theorem parseSequence_eq_some {r : Nat × Nat} : parseSequence m dl asnSEQUENCE_CONSTRUCTOR = some r ↔
      m.head = asnSEQUENCE_CONSTRUCTOR ∧ parseLengthAt m 1 dl = some r := by
  rw [parseSequence_eq]
  split
  · next h => simp only [h, true_and]
  · next h => simp only [h, false_and, reduceCtorEq]

theorem parseSequence_agree (hm : AgreeOn dl m₁ m₂) :
    parseSequence m₁ dl asnSEQUENCE_CONSTRUCTOR = parseSequence m₂ dl asnSEQUENCE_CONSTRUCTOR := by
  rw [parseSequence_eq, parseSequence_eq, parseLengthAt_agree hm 1]
  by_cases hdl : dl = 0
  · subst hdl
    rw [parseLengthAt_eq_none (Nat.zero_le 1), ite_self, ite_self]
  · rw [hm.head (by omega)]

/-! ## decoders in their own window -/

/-- A decoder whose result is decided by the `*datalength` octets it is given, and which counts down
`*datalength` by the octets it takes. The type octet it stores is not meant: it is looked at even
when there is none. -/
structure LocalResult {α : Type} (parse : Mem → Nat → ParseOut α) : Prop where
  agree : ∀ {m₁ m₂ dl}, AgreeOn dl m₁ m₂ → (parse m₁ dl).result = (parse m₂ dl).result
  used_add : ∀ {m dl r}, (parse m dl).result = some r → r.used + r.datalength = dl

theorem LocalResult.of_parseLengthAt {α : Type} {parse : Mem → Nat → ParseOut α}
    (hnone : ∀ m dl, parseLengthAt m 1 dl = none → (parse m dl).result = none)
    (hagree : ∀ {m₁ m₂ dl n k}, AgreeOn dl m₁ m₂ → parseLengthAt m₁ 1 dl = some (n, k) → parse m₁ dl = parse m₂ dl)
    (hused : ∀ {m dl n k r}, parseLengthAt m 1 dl = some (n, k) → (parse m dl).result = some r →
      r.used = k + n ∧ r.datalength = dl - (n + k)) : LocalResult parse where
  agree := by
    intro m₁ m₂ dl hm
    cases h : parseLengthAt m₁ 1 dl with
    | none =>
      have h₂ := parseLengthAt_agree hm 1
      rw [h] at h₂
      rw [hnone m₁ dl h, hnone m₂ dl h₂.symm]
    | some r => rw [hagree (n := r.1) (k := r.2) hm h]
  used_add := by
    intro m dl r hr
    cases h : parseLengthAt m 1 dl with
    | none =>
      rw [hnone m dl h] at hr
      cases hr
    | some p =>
      obtain ⟨hu, hd⟩ := hused (n := p.1) (k := p.2) h hr
      have hbounds := parseLengthAt_bounds (n := p.1) (k := p.2) h
      omega

theorem localResult_parseInt : LocalResult parseInt := by
  apply LocalResult.of_parseLengthAt
  · intro m dl h
    simp only [parseInt, h, Option.bind_eq_bind, Option.bind_none, Option.bind_fun_none]
  · intro m₁ m₂ dl n k hm h
    exact parseInt_agree hm le_rfl h
  · intro m dl n k r h hr
    simp only [parseInt, h, Option.bind_eq_bind, Option.bind_some, Option.bind_eq_some_iff] at hr
    obtain ⟨-, -, -, -, hr⟩ := hr
    cases hr
    exact ⟨rfl, rfl⟩

theorem localResult_parseUnsignedInt : LocalResult parseUnsignedInt := by
  apply LocalResult.of_parseLengthAt
  · intro m dl h
    simp only [parseUnsignedInt, h, Option.bind_eq_bind, Option.bind_none, Option.bind_fun_none]
  · intro m₁ m₂ dl n k hm h
    exact parseUnsignedInt_agree hm le_rfl h
  · intro m dl n k r h hr
    simp only [parseUnsignedInt, h, Option.bind_eq_bind, Option.bind_some,
      Option.bind_eq_some_iff] at hr
    obtain ⟨-, -, -, -, hr⟩ := hr
    cases hr
    exact ⟨rfl, rfl⟩

theorem localResult_parseString (strlength : Nat) : LocalResult (parseString · · strlength) := by
  apply LocalResult.of_parseLengthAt
  · intro m dl h
    simp only [parseString, h, Option.bind_eq_bind, Option.bind_none, Option.bind_fun_none]
  · intro m₁ m₂ dl n k hm h
    exact parseString_agree hm le_rfl h strlength
  · intro m dl n k r h hr
    simp only [parseString, h, Option.bind_eq_bind, Option.bind_some, Option.bind_eq_some_iff] at hr
    obtain ⟨-, -, -, -, hr⟩ := hr
    cases hr
    exact ⟨rfl, rfl⟩

theorem parseObjid_of_none (h : parseLengthAt m 1 dl = none) (objidlength : Nat) :
    parseObjid m dl objidlength = (⟨m.head, none⟩, objidlength) := by
  simp only [parseObjid, h, ite_self]

theorem localResult_parseObjid (objidlength : Nat) : LocalResult fun m dl => (parseObjid m dl objidlength).1 := by
  apply LocalResult.of_parseLengthAt
  · intro m dl h
    simp only [parseObjid_of_none h]
  · intro m₁ m₂ dl n k hm h
    rw [parseObjid_agree hm le_rfl h objidlength]
  · intro m dl n k r h hr
    simp only [parseObjid, h] at hr
    split at hr
    · cases hr
    · split at hr
      · cases hr
      · cases hr
        exact ⟨rfl, rfl⟩

theorem parseObjid_length_agree (hm : AgreeOn dl m₁ m₂) (objidlength : Nat) :
    (parseObjid m₁ dl objidlength).2 = (parseObjid m₂ dl objidlength).2 := by
  cases h : parseLengthAt m₁ 1 dl with
  | none =>
    have h₂ := parseLengthAt_agree hm 1
    rw [h] at h₂
    rw [parseObjid_of_none h, parseObjid_of_none h₂.symm]
  | some r => rw [parseObjid_agree (n := r.1) (k := r.2) hm le_rfl h]

end Priot.Asn01
