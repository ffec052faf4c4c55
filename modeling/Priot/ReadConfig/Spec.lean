/-
# One value on a line

What is written for a value is read as that value, except strings that are longer than the buffer of the reader, and
OIDs that the loaded MIBs refuse.
-/
import Priot.ReadConfig.Line

namespace Priot.ReadConfig

open Lib List

/-! ## tokens -/

/-- A text that a token begins with. -/
def Starts (t : Text) : Prop := ∃ c s, t = c :: s ∧ isspace c = false ∧ c ≠ 35

/-- What stands behind a value: nothing, or a space and the next value, which the reader must return. -/
def Follows (rest : Text) (next : Option Text) : Prop :=
  (rest = [] ∧ next = none) ∨ ∃ body, rest = 32 :: body ∧ Starts body ∧ next = some body

theorem orNull_of_starts {t : Text} (h : Starts t) : orNull t = some t := by
  obtain ⟨c, s, rfl, -, hc⟩ := h
  unfold orNull
  rw [if_neg (by simp [hc])]

theorem dropWhile_of_starts {t : Text} (h : Starts t) : t.dropWhile isspace = t := by
  obtain ⟨c, s, rfl, hc, -⟩ := h
  rw [dropWhile_cons_of_neg (by rw [hc]; simp)]

theorem skipWhite_of_starts {t : Text} (h : Starts t) : skipWhite t = some t := by
  unfold skipWhite
  rw [dropWhile_of_starts h, orNull_of_starts h]

variable {rest : Text} {next : Option Text}

theorem Follows.skipWhite (h : Follows rest next) : ReadConfig.skipWhite rest = next := by
  rcases h with ⟨rfl, rfl⟩ | ⟨body, rfl, hbody, rfl⟩
  · rfl
  · unfold ReadConfig.skipWhite
    rw [dropWhile_cons_of_pos (by decide), dropWhile_of_starts hbody, orNull_of_starts hbody]

theorem Follows.stops (h : Follows rest next) : Stops rest := by
  rcases h with ⟨rfl, -⟩ | ⟨body, rfl, -, -⟩
  · exact Mib.stops_nil
  · intro c hc
    cases hc
    decide

theorem dropWhile_word {w : Text} (hw : ∀ c ∈ w, isspace c = false)
    (h : Follows rest next) : (w ++ rest).dropWhile (fun c => !isspace c) = rest := by
  induction w with
  | nil =>
    rcases h with ⟨rfl, -⟩ | ⟨body, rfl, -, -⟩
    · rfl
    · rw [nil_append, dropWhile_cons_of_neg (by decide)]
  | cons c w ih =>
    rw [cons_append, dropWhile_cons_of_pos (by rw [hw c (by simp)]; rfl)]
    exact ih fun c hc => hw c (by simp [hc])

theorem skipNotWhite_word {w : Text} (hw : ∀ c ∈ w, isspace c = false)
    (h : Follows rest next) : skipNotWhite (w ++ rest) = next.map fun _ => rest := by
  unfold skipNotWhite
  rw [dropWhile_word hw h]
  rcases h with ⟨rfl, rfl⟩ | ⟨body, rfl, -, rfl⟩
  · rfl
  · unfold orNull
    rw [if_neg (by simp)]
    rfl

theorem skipToken_word {w : Text} (hw : ∀ c ∈ w, isspace c = false)
    (hstart : Starts (w ++ rest)) (h : Follows rest next) : skipToken (w ++ rest) = next := by
  unfold skipToken
  rw [skipWhite_of_starts hstart, Option.bind_some, skipNotWhite_word hw h]
  cases hnext : next with
  | none => rfl
  | some body => rw [Option.map_some, Option.bind_some, h.skipWhite, hnext]

theorem scanWord_append {stop : UInt8 → Bool} {w : Text} (hw : ∀ c ∈ w, stop c = false ∧ c ≠ 92)
    (hrest : ∀ c ∈ rest.head?, stop c = true) : scanWord stop (w ++ rest) = (w, rest) := by
  induction w with
  | nil =>
    cases rest with
    | nil => rfl
    | cons c t =>
      have hc := hrest c rfl
      cases t <;> simp [scanWord, hc]
  | cons c w ih =>
    obtain ⟨hc, hback⟩ := hw c (by simp)
    have ih := ih fun c hc => hw c (by simp [hc])
    cases hwr : w ++ rest with
    | nil =>
      obtain ⟨rfl, rfl⟩ := append_eq_nil_iff.mp hwr
      simp [scanWord, hc]
    | cons c' t =>
      rw [cons_append, hwr, scanWord, ← hwr, ih]
      simp [hc, hback]

theorem Follows.stopsWord (h : Follows rest next) : ∀ c ∈ rest.head?, isspace c = true := by
  rcases h with ⟨rfl, -⟩ | ⟨body, rfl, -, -⟩
  · intro c hc
    cases hc
  · intro c hc
    cases hc
    decide

/-! ## numbers and addresses -/

theorem decimal_starts (n : Nat) (rest : Text) : Starts (decimal n ++ rest) := by
  obtain ⟨d, t, h, hd, -⟩ := decimal_cons n
  obtain ⟨hspace, -, -, -, hcomment, -⟩ := digit_facts d hd
  rw [h]
  exact ⟨digitChar d, t ++ rest, rfl, hspace, hcomment⟩

theorem signedDecimal_starts (v : Int) (rest : Text) : Starts (signedDecimal v ++ rest) := by
  unfold signedDecimal
  split
  · exact ⟨45, decimal v.natAbs ++ rest, rfl, by decide, by decide⟩
  · exact decimal_starts _ _

theorem signedDecimal_word (v : Int) : ∀ c ∈ signedDecimal v, isspace c = false := by
  intro c hc
  unfold signedDecimal at hc
  split at hc
  · rcases mem_cons.mp hc with rfl | hc
    · decide
    · exact (decimal_facts hc).1
  · exact (decimal_facts hc).1

theorem skipToken_signedDecimal (v : Int) (h : Follows rest next) : skipToken (signedDecimal v ++ rest) = next :=
  skipToken_word (signedDecimal_word v) (signedDecimal_starts v rest) h

theorem inetNtoa_word (a b c d : UInt8) : ∀ x ∈ inetNtoa a b c d, isspace x = false := by
  intro x hx
  unfold inetNtoa at hx
  simp only [append_assoc, cons_append, mem_append, mem_cons] at hx
  rcases hx with hx | rfl | hx | rfl | hx | rfl | hx
  · exact (decimal_facts hx).1
  · decide
  · exact (decimal_facts hx).1
  · decide
  · exact (decimal_facts hx).1
  · decide
  · exact (decimal_facts hx).1

theorem stops_dot (t : Text) : Stops (46 :: t) := by
  intro c hc
  cases hc
  decide

theorem inetParts_dot (n : Nat) (a : UInt8) (t : Text) :
    inetParts (n + 1) (decimal a.toNat ++ 46 :: t) = (inetParts n t).map (a.toNat :: ·) := by
  have ha := a.toNat_lt
  have hdigit : (decimal a.toNat ++ 46 :: t).head?.any isdigit = true := by
    obtain ⟨d, s, h, hd, -⟩ := decimal_cons a.toNat
    rw [h]
    exact (digit_facts d hd).2.1
  rw [inetParts, if_neg (by rw [hdigit]; simp), strtoul_decimal (by omega) (stops_dot t)]
  simp only [if_true]
  rw [if_neg (by omega), if_neg (by omega)]

theorem inetParts_last (n : Nat) (a : UInt8) (h : Follows rest next) :
    inetParts (n + 1) (decimal a.toNat ++ rest) = some [a.toNat] := by
  have ha := a.toNat_lt
  have hdigit : (decimal a.toNat ++ rest).head?.any isdigit = true := by
    obtain ⟨d, s, h, hd, -⟩ := decimal_cons a.toNat
    rw [h]
    exact (digit_facts d hd).2.1
  rw [inetParts, if_neg (by rw [hdigit]; simp), strtoul_decimal (by omega) h.stops]
  simp only
  rw [if_neg (by omega)]
  rcases h with ⟨rfl, -⟩ | ⟨body, rfl, -, -⟩
  · rfl
  · rfl

theorem inetAddr_inetNtoa (a b c d : UInt8) (h : Follows rest next) :
    inetAddr (inetNtoa a b c d ++ rest) = (a, b, c, d) := by
  have ha := a.toNat_lt
  have hb := b.toNat_lt
  have hc := c.toNat_lt
  have hd := d.toNat_lt
  have hparts : inetParts 4 (inetNtoa a b c d ++ rest) = some [a.toNat, b.toNat, c.toNat, d.toNat] := by
    unfold inetNtoa
    simp only [append_assoc, cons_append]
    rw [inetParts_dot, inetParts_dot, inetParts_dot, inetParts_last 0 d h]
    rfl
  have hvalue : inetValue [a.toNat, b.toNat, c.toNat, d.toNat] =
      some (a.toNat * 2 ^ 24 + b.toNat * 2 ^ 16 + c.toNat * 2 ^ 8 + d.toNat) := by
    show (if d.toNat ≤ 0xff then some _ else none) = _
    exact if_pos (by omega)
  unfold inetAddr
  rw [hparts, Option.bind_some, hvalue, Option.getD_some]
  simp only [Prod.mk.injEq]
  refine ⟨?_, ?_, ?_, ?_⟩ <;> apply UInt8.toNat_inj.mp <;> rw [UInt8.toNat_ofNat'] <;> omega

/-! ## strings -/

theorem hex2_facts {b c : UInt8} (h : c ∈ hex2 b) : isspace c = false ∧ c ≠ 0 := by
  have hb := b.toNat_lt
  unfold hex2 at h
  rcases mem_cons.mp h with rfl | h
  · exact ⟨(hexDigit_facts _ (by omega)).1, (hexDigit_facts _ (by omega)).2.2.2.2.2.1⟩
  · rw [mem_singleton.mp h]
    exact ⟨(hexDigit_facts _ (by omega)).1, (hexDigit_facts _ (by omega)).2.2.2.2.2.1⟩

theorem length_hexes (s : List UInt8) : (s.flatMap hex2).length = 2 * s.length := by
  induction s with
  | nil => rfl
  | cons b s ih =>
    rw [flatMap_cons, length_append, ih, length_cons]
    show 2 + 2 * s.length = _
    omega

theorem readHex_hexes (s : List UInt8) (rest : Text) : readHex s.length (s.flatMap hex2 ++ rest) = some (s, rest) := by
  induction s with
  | nil => rfl
  | cons b s ih =>
    rw [length_cons, readHex, flatMap_cons, append_assoc, sscanf2x_hex2]
    show (readHex s.length (s.flatMap hex2 ++ rest)).map _ = _
    rw [ih, Option.map_some]
    simp

theorem isPlain_facts {c : UInt8} (h : isPlain c = true) : c ≠ 34 ∧ c ≠ 92 := by
  constructor <;>
  · rintro rfl
    revert h
    decide

theorem readOctetString_quoted {str : Text} (hplain : ∀ c ∈ str, isPlain c = true) (h : Follows rest next) :
    readOctetString (34 :: str ++ 34 :: rest) none = (next, some (str.take (MAX_BUFFER - 1))) := by
  have hscan : scanWord (fun c => some c == some 34) (str ++ 34 :: rest) = (str, 34 :: rest) := by
    refine scanWord_append (fun c hc => ?_) (fun c hc => ?_)
    · obtain ⟨h₁, h₂⟩ := isPlain_facts (hplain c hc)
      exact ⟨by simp [h₁], h₂⟩
    · cases hc
      rfl
  unfold readOctetString
  rw [if_neg (by simp)]
  unfold copyNword
  rw [if_pos (.inl rfl)]
  simp only [cons_append, head?_cons, drop_succ_cons, drop_zero, Option.getD_none, hscan,
    h.skipWhite]

theorem hexLength_hexes (s : List UInt8) (h : Follows rest next) :
    hexLength (s.flatMap hex2 ++ rest) = 2 * s.length := by
  have hw : ∀ c ∈ s.flatMap hex2, isspace c = false := by
    intro c hc
    obtain ⟨b, -, hb⟩ := mem_flatMap.mp hc
    exact (hex2_facts hb).1
  have hlen := length_hexes s
  unfold hexLength
  rw [skipNotWhite_word hw h]
  rcases h with ⟨rfl, rfl⟩ | ⟨body, rfl, -, rfl⟩
  · rw [append_nil]
    exact hlen
  · show (s.flatMap hex2 ++ 32 :: body).length - (32 :: body).length = _
    rw [length_append, Nat.add_sub_cancel, hlen]

theorem readOctetString_hex_into (s : List UInt8) {len : Option Nat}
    (hfits : len.any (s.length ≥ ·) = false) (h : Follows rest next) :
    readOctetString (48 :: 120 :: s.flatMap hex2 ++ rest) len = (next, some s) := by
  unfold readOctetString
  rw [if_pos ⟨rfl, .inl rfl⟩]
  simp only [cons_append, drop_succ_cons, drop_zero]
  rw [hexLength_hexes s h, if_neg (by omega), show 2 * s.length / 2 = s.length by omega, hfits,
    if_neg Bool.false_ne_true, readHex_hexes]
  simp only [h.skipWhite]

theorem readOctetString_hex (s : List UInt8) (h : Follows rest next) :
    readOctetString (48 :: 120 :: s.flatMap hex2 ++ rest) none = (next, some s) :=
  readOctetString_hex_into s rfl h

theorem length_le_saveOctetString (s : Option (List UInt8)) : (s.getD []).length ≤ (saveOctetString s).length := by
  cases s with
  | none => exact Nat.zero_le _
  | some str =>
    unfold saveOctetString
    rw [Option.getD_some]
    simp only []
    split
    · rw [length_append, length_cons]
      omega
    · rw [length_cons, length_cons, length_hexes]
      omega

/-- What is left of a string when it has been written and read. -/
def readString (s : List UInt8) : List UInt8 :=
  if s.length ≠ 0 ∧ s.all isPlain = true then s.take (MAX_BUFFER - 1) else s

theorem readOctetString_save (s : Option (List UInt8)) (h : Follows rest next) :
    readOctetString (saveOctetString s ++ rest) none = (next, some (readString (s.getD []))) := by
  cases s with
  | none => exact @readOctetString_quoted rest next [] (by simp) h
  | some str =>
    unfold saveOctetString readString
    rw [Option.getD_some]
    by_cases hplain : str.length ≠ 0 ∧ str.all isPlain = true
    · simp only [if_pos hplain]
      have := readOctetString_quoted (all_eq_true.mp hplain.2) h
      rw [append_assoc]
      exact this
    · simp only [if_neg hplain]
      exact readOctetString_hex str h

end Priot.ReadConfig
