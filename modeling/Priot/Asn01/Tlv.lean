/-
# What the decoders make of a whole encoding

`IsTlv tag content bs`: the octets `bs` are a tag, a length that `Asn01_parseLength` reads as the length of `content`,
and `content`, in any of the possible length forms.
-/
import Priot.Asn01.Parse
import Priot.Lib.Base128

namespace Priot.Asn01

open Octets List

/-! ## whole encodings -/

theorem take_append_stream (bs : List UInt8) (m : Mem) : (bs ++ₛ m).take bs.length = bs := by
  induction bs with
  | nil => rfl
  | cons b bs ih => rw [Stream'.cons_append_stream, length_cons, Stream'.take_succ_cons, ih]

/-- The octets `lo` encode the length `n`. -/
def IsLength (lo : List UInt8) (n : Nat) : Prop :=
  ∀ m : Mem, parseLength (lo ++ₛ m) = ⟨some n, some lo.length⟩

structure IsTlv (tag : UInt8) (content bs : List UInt8) : Prop where
  split : ∃ lo, IsLength lo content.length ∧ bs = tag :: (lo ++ content)

theorem isLength_short {n : Nat} (h : n ≤ 0x7f) : IsLength [UInt8.ofNat n] n := by
  intro m
  have hn : (UInt8.ofNat n).toNat = n := toNat_ofNat_of_lt (by omega)
  have hhi : hiBit (UInt8.ofNat n) = false := by
    rw [Octets.hiBit_false_iff, hn]
    omega
  simp [parseLength, Stream'.cons_append_stream, hhi, hn]

theorem isLength_long {b : UInt8} {o : List UInt8} (hb : b.toNat = 128 + o.length)
    (hpos : o ≠ []) (hlen : o.length ≤ 8) (hval : beNat o < 2 ^ 63) : IsLength (b :: o) (beNat o) := by
  intro m
  have hne : o.length ≠ 0 := by simpa using hpos
  have hhi : hiBit b = true := by
    rw [hiBit_iff]
    omega
  have hcount : b.toNat % 128 = o.length := by omega
  have htake := take_append_stream o m
  simp only [parseLength, Stream'.cons_append_stream, Stream'.head_cons, Stream'.tail_cons, hhi,
    if_true, hcount, htake]
  rw [if_neg hne, if_neg (by omega), if_neg (by omega), length_cons, Nat.add_comm]

theorem IsLength.length_bounds {lo : List UInt8} {n : Nat} (h : IsLength lo n) : 1 ≤ lo.length ∧ lo.length ≤ 9 := by
  have hp := congrArg LengthOut.next (h (Stream'.const 0))
  simp only [parseLength] at hp
  split at hp
  · split at hp
    · simp at hp
    · split at hp
      · simp at hp
      · split at hp
        · simp at hp
        · simp only [Option.some.injEq] at hp
          omega
  · simp only [Option.some.injEq] at hp
    omega

section tlv

variable {tag : UInt8} {content bs : List UInt8} (rest : Mem)

theorem IsTlv.length_bounds (h : IsTlv tag content bs) :
    content.length + 2 ≤ bs.length ∧ bs.length ≤ content.length + 10 := by
  obtain ⟨lo, hlo, rfl⟩ := h.split
  have := hlo.length_bounds
  simp only [length_cons, length_append]
  omega

theorem IsTlv.head (h : IsTlv tag content bs) : (bs ++ₛ rest).head = tag := by
  obtain ⟨lo, -, rfl⟩ := h.split
  rfl

theorem IsTlv.drop (h : IsTlv tag content bs) : (bs ++ₛ rest).drop (bs.length - content.length) = content ++ₛ rest := by
  obtain ⟨lo, -, rfl⟩ := h.split
  have hlen : (tag :: (lo ++ content)).length - content.length = (tag :: lo).length := by
    simp only [length_cons, length_append]
    omega
  rw [hlen, ← cons_append, Stream'.append_append_stream, Stream'.drop_append_stream]

theorem IsTlv.take (h : IsTlv tag content bs) :
    ((bs ++ₛ rest).drop (bs.length - content.length)).take content.length = content := by
  rw [h.drop, take_append_stream]

theorem IsTlv.get {b : UInt8} {os : List UInt8} (h : IsTlv tag (b :: os) bs) :
    (bs ++ₛ rest).get (bs.length - (b :: os).length) = b := by
  rw [← Stream'.head_drop, h.drop]
  rfl

theorem IsTlv.get_succ {b c : UInt8} {os : List UInt8} (h : IsTlv tag (b :: c :: os) bs) :
    (bs ++ₛ rest).get (bs.length - (b :: c :: os).length + 1) = c := by
  rw [← Stream'.get_drop, h.drop]
  rfl

theorem IsTlv.parseLengthAt_of_drop {off : Nat} (dl : Nat) {data : Mem} (h : IsTlv tag content bs)
    (hat : data.drop off = bs ++ₛ rest) (hc : content.length ≤ 0x7fffffff)
    (hoff : off ≤ 0x7ffffff0) (hdl : off + bs.length ≤ dl) :
    parseLengthAt data (off + 1) dl = some (content.length, off + (bs.length - content.length)) := by
  obtain ⟨lo, hlo, rfl⟩ := h.split
  have hdrop : data.drop (off + 1) = lo ++ₛ (content ++ₛ rest) := by
    rw [← Stream'.tail_drop', hat, Stream'.cons_append_stream, Stream'.tail_cons,
      Stream'.append_append_stream]
  have hlo' := hlo.length_bounds
  simp only [length_cons, length_append] at hdl ⊢
  have hcheck : parseLengthCheck (some (off + 1 + lo.length)) content.length dl = false := by
    simp only [parseLengthCheck, Bool.or_eq_false_iff, decide_eq_false_iff_not]
    omega
  simp only [Asn01.parseLengthAt, hdrop, hlo (content ++ₛ rest), hcheck, Bool.false_eq_true, if_false,
    Option.some.injEq, Prod.mk.injEq, true_and]
  omega

theorem IsTlv.parseLengthAt {dl : Nat} (h : IsTlv tag content bs) (hc : content.length ≤ 0x7fffffff)
    (hdl : bs.length ≤ dl) : parseLengthAt (bs ++ₛ rest) 1 dl = some (content.length, bs.length - content.length) := by
  have hat : (bs ++ₛ rest).drop 0 = bs ++ₛ rest := rfl
  have hdl' : 0 + bs.length ≤ dl := by omega
  have h0 := h.parseLengthAt_of_drop rest dl hat hc (by omega) hdl'
  rwa [Nat.zero_add, Nat.zero_add] at h0

end tlv

/-! ## integers -/

section integers

variable {tag : UInt8} {content bs : List UInt8} {dl : Nat} (rest : Mem)

theorem parseInt_tlv (h : IsTlv asnINTEGER content bs) (hne : content ≠ [])
    (hc : content.length ≤ 8) (hdl : bs.length ≤ dl) : parseInt (bs ++ₛ rest) dl =
      ⟨asnINTEGER, some ⟨checkOverflowSigned (signed content), dl - bs.length, bs.length⟩⟩ := by
  have hlen := h.length_bounds
  have hpos := length_pos_iff.mpr hne
  have hadd : content.length + (bs.length - content.length) = bs.length := by omega
  simp only [parseInt, h.head, h.parseLengthAt rest (by omega) hdl, h.take, guard, if_true,
    Option.bind_eq_bind, Option.bind_some, pure, hadd]
  rw [if_pos (by omega), Option.bind_some, Nat.add_comm, hadd]

/-- The octets of an unsigned value: nine at most, and then a zero in front. -/
structure UnsignedContent (content : List UInt8) : Prop where
  ne_nil : content ≠ []
  length_le : content.length ≤ 9
  nine : content.length = 9 → content.head? = some 0

theorem shiftInUlong_mod (v : Nat) (os : List UInt8) :
    shiftInUlong v os % 2 ^ 64 = (v * 256 ^ os.length + beNat os) % 2 ^ 64 := by
  induction os generalizing v with
  | nil => simp [shiftInUlong]
  | cons b os ih =>
    simp only [shiftInUlong, foldl_cons, length_cons] at ih ⊢
    rw [ih, Octets.beNat_cons, Nat.add_mod, Nat.mul_mod, Nat.mod_mod, ← Nat.mul_mod, ← Nat.add_mod]
    congr 1
    ring

theorem shiftInUlong_lt {v : Nat} (hv : v < 2 ^ 64) (os : List UInt8) : shiftInUlong v os < 2 ^ 64 := by
  induction os generalizing v with
  | nil => exact hv
  | cons b os ih => exact ih (Nat.mod_lt _ (by norm_num))

theorem shiftInUlong_zero {os : List UInt8} (h : beNat os < 2 ^ 64) : shiftInUlong 0 os = beNat os := by
  have hmod := shiftInUlong_mod 0 os
  rwa [Nat.zero_mul, Nat.zero_add, Nat.mod_eq_of_lt (shiftInUlong_lt (by norm_num) os),
    Nat.mod_eq_of_lt h] at hmod

theorem parseUnsignedInt_tlv {t : UnsignedType} (h : IsTlv t.tag content bs)
    (hu : UnsignedContent content) (hsign : signWord content = 0) (hv : beNat content < 2 ^ 64) (hdl : bs.length ≤ dl) :
    parseUnsignedInt (bs ++ₛ rest) dl =
      ⟨t.tag, some ⟨checkOverflowUnsigned (beNat content), dl - bs.length, bs.length⟩⟩ := by
  have hlen := h.length_bounds
  have hle := hu.length_le
  have hpos := length_pos_iff.mpr hu.ne_nil
  have hnine := hu.nine
  obtain ⟨b, os, rfl⟩ := exists_cons_of_ne_nil hu.ne_nil
  have hhi : hiBit b = false := by
    simp only [signWord] at hsign
    by_contra hb
    rw [Bool.not_eq_false] at hb
    simp [hb] at hsign
  have hadd : (b :: os).length + (bs.length - (b :: os).length) = bs.length := by omega
  have htag : t.tag = asnCOUNTER ∨ t.tag = asnGAUGE ∨ t.tag = asnTIMETICKS ∨ t.tag = asnUINTEGER := by
    cases t <;> decide
  simp only [head?_cons, Option.some.injEq] at hnine
  have hguard : ¬ ((b :: os).length > 9 ∨ (b :: os).length = 0 ∨ ((b :: os).length = 9 ∧ b ≠ 0)) := by
    rintro (hlt | h0 | ⟨h9, hb⟩)
    · omega
    · omega
    · exact hb (hnine h9)
  simp only [parseUnsignedInt, h.head, h.parseLengthAt rest (by omega) hdl, h.take, h.get, guard,
    if_pos htag, Option.bind_eq_bind, Option.bind_some, pure, hadd, hhi, Bool.false_eq_true, if_false,
    shiftInUlong_zero hv]
  rw [if_pos hguard, Option.bind_some, Nat.add_comm, hadd]

/-! ## 64-bit values -/

/-- The number the two words stand for. -/
def word64 (w : Nat × Nat) : Nat := w.1 * 2 ^ 32 + w.2

theorem shiftIn64_word (w : Nat × Nat) (hlow : w.2 < 2 ^ 32) (b : UInt8) :
    (shiftIn64 w b).1 < 2 ^ 32 ∧ (shiftIn64 w b).2 < 2 ^ 32 ∧
      word64 (shiftIn64 w b) = (word64 w * 256 + b.toNat) % 2 ^ 64 := by
  have hb := b.toNat_lt
  simp only [shiftIn64, word64]
  omega

theorem foldl_shiftIn64 (w : Nat × Nat) (hhigh : w.1 < 2 ^ 32) (hlow : w.2 < 2 ^ 32) (os : List UInt8) :
    (os.foldl shiftIn64 w).1 < 2 ^ 32 ∧ (os.foldl shiftIn64 w).2 < 2 ^ 32 ∧
      word64 (os.foldl shiftIn64 w) = (word64 w * 256 ^ os.length + beNat os) % 2 ^ 64 := by
  induction os generalizing w with
  | nil =>
    refine ⟨hhigh, hlow, ?_⟩
    simp only [foldl_nil, length_nil, pow_zero, mul_one, Octets.beNat_nil, add_zero]
    rw [Nat.mod_eq_of_lt]
    simp only [word64]
    linarith
  | cons b os ih =>
    obtain ⟨h1, h2, h3⟩ := shiftIn64_word w hlow b
    obtain ⟨h4, h5, h6⟩ := ih (shiftIn64 w b) h1 h2
    refine ⟨h4, h5, ?_⟩
    rw [foldl_cons, h6, h3, Nat.add_mod, Nat.mul_mod, Nat.mod_mod, ← Nat.mul_mod, ← Nat.add_mod,
      Octets.beNat_cons, length_cons]
    refine congrArg (· % 2 ^ 64) ?_
    ring

theorem words_of_fold {start : Nat × Nat} (hhigh : start.1 < 2 ^ 32) (hlow : start.2 < 2 ^ 32)
    {os : List UInt8} {high low : UInt32}
    (h : (word64 start * 256 ^ os.length + beNat os) % 2 ^ 64 = high.toNat * 2 ^ 32 + low.toNat) :
    (UInt32.ofNat (os.foldl shiftIn64 start).1, UInt32.ofNat (os.foldl shiftIn64 start).2) = (high, low) := by
  obtain ⟨h1, h2, h3⟩ := foldl_shiftIn64 start hhigh hlow os
  rw [h] at h3
  have hl := low.toNat_lt
  have hh := high.toNat_lt
  have e1 : (os.foldl shiftIn64 start).1 = high.toNat := by
    simp only [word64] at h3
    omega
  have e2 : (os.foldl shiftIn64 start).2 = low.toNat := by
    simp only [word64] at h3
    omega
  rw [e1, e2, UInt32.ofNat_toNat, UInt32.ofNat_toNat]

/-- The octets of a 64-bit value read on from the words `start`: nine at most, and then a zero in
front. -/
structure WordsContent (start : Nat × Nat) (content : List UInt8) (high low : UInt32) : Prop where
  ne_nil : content ≠ []
  length_le : content.length ≤ 9
  nine : content.length = 9 → content.head? = some 0
  value : (word64 start * 256 ^ content.length + beNat content) % 2 ^ 64
    = high.toNat * 2 ^ 32 + low.toNat

theorem WordsContent.guard {start : Nat × Nat} {b : UInt8} {os : List UInt8} {high low : UInt32}
    (h : WordsContent start (b :: os) high low) : ¬ ((b :: os).length > 9 ∨ ((b :: os).length = 9 ∧ b ≠ 0)) := by
  have hle := h.length_le
  have hnine := h.nine
  simp only [head?_cons, Option.some.injEq] at hnine
  rintro (hlt | ⟨h9, hb⟩)
  · omega
  · exact hb (hnine h9)

theorem parseUnsignedInt64_tlv {high low : UInt32} (h : IsTlv asnCOUNTER64 content bs)
    (hw : WordsContent (0, 0) content high low) (hdl : bs.length ≤ dl) : parseUnsignedInt64 (bs ++ₛ rest) dl =
      ⟨asnCOUNTER64, some ⟨(high, low), dl - bs.length, bs.length⟩⟩ := by
  have hlen := h.length_bounds
  have hle := hw.length_le
  obtain ⟨b, os, rfl⟩ := exists_cons_of_ne_nil hw.ne_nil
  have hadd : (b :: os).length + (bs.length - (b :: os).length) = bs.length := by omega
  have hne : asnCOUNTER64 ≠ asnOPAQUE := by decide
  simp only [parseUnsignedInt64, h.head, h.parseLengthAt rest (by omega) hdl, h.take, h.get, true_or,
    not_true_eq_false, if_false, hne, false_and, if_neg hw.guard, words_of_fold (by decide) (by decide)
      hw.value, hadd]
  rw [Nat.add_comm, hadd]

end integers

/-! ## the Opaque around a special value -/

/-- The content of an Opaque around a special value. -/
def special (tag : UInt8) (octets : List UInt8) : List UInt8 :=
  asnOPAQUE_TAG1 :: tag :: UInt8.ofNat octets.length :: octets

theorem special_length (tag : UInt8) (octets : List UInt8) :
    (special tag octets).length = octets.length + 3 := by simp [special]

section special

variable {tag : UInt8} {content bs : List UInt8} {dl : Nat} (rest : Mem)

/-- What the decoders see of a special value: the Opaque's header ends at `k`, the value's at
`bufp`. -/
structure SpecialAt (tag : UInt8) (content bs : List UInt8) (data rest : Mem) (dl k bufp : Nat) :
    Prop where
  outer : parseLengthAt data 1 dl = some (content.length + 3, k)
  tag1 : data.get k = asnOPAQUE_TAG1
  tag2 : data.get (k + 1) = tag
  inner : parseLengthAt data (k + 2) dl = some (content.length, bufp)
  drop : data.drop bufp = content ++ₛ rest
  add : bufp + content.length = bs.length

theorem IsTlv.specialAt (h : IsTlv asnOPAQUE (special tag content) bs) (hc : content.length ≤ 9)
    (hdl : bs.length ≤ dl) : ∃ k bufp, SpecialAt tag content bs (bs ++ₛ rest) rest dl k bufp := by
  have hlen := h.length_bounds
  have hslen := special_length tag content
  have hdrop := h.drop rest
  set k := bs.length - (special tag content).length with hk
  -- the value's own header and content
  have hin : IsTlv tag content (tag :: UInt8.ofNat content.length :: content) :=
    ⟨⟨[UInt8.ofNat content.length], isLength_short (by omega), rfl⟩⟩
  have hat : (bs ++ₛ rest).drop (k + 1) = (tag :: UInt8.ofNat content.length :: content) ++ₛ rest := by
    rw [← Stream'.tail_drop', hdrop]
    rfl
  have hinner := hin.parseLengthAt_of_drop rest dl hat (by omega) (by omega) (by
    simp only [length_cons]
    omega)
  have hafter : (tag :: UInt8.ofNat content.length :: content).length - content.length = 2 := by
    simp only [length_cons]
    omega
  rw [hafter] at hinner
  refine ⟨k, k + 1 + 2, ?_, ?_, ?_, hinner, ?_, by omega⟩
  · rw [h.parseLengthAt rest (by omega) hdl, ← hk, hslen]
  · exact h.get rest
  · exact h.get_succ rest
  · rw [← Stream'.drop_drop, hat]
    rfl

theorem parseHeader_special (htag : isOpaqueSpecial tag = true)
    (h : IsTlv asnOPAQUE (special tag content) bs) (hc : content.length ≤ 9) (hdl : bs.length ≤ dl) :
    parseHeader (bs ++ₛ rest) dl = ⟨some tag, some (content.length, bs.length - content.length)⟩ := by
  obtain ⟨k, bufp, hat⟩ := h.specialAt rest hc hdl
  have hadd := hat.add
  have hext : asnIsExtensionId asnOPAQUE = false := by decide
  simp only [parseHeader, h.head, hext, Bool.false_eq_true, if_false, hat.outer, hat.tag1, hat.tag2,
    htag, hat.inner, and_self, if_true]
  rw [← hadd, Nat.add_sub_cancel]

theorem parseUnsignedInt64_special (htag : tag = asnOPAQUE_COUNTER64 ∨ tag = asnOPAQUE_U64)
    {high low : UInt32} (h : IsTlv asnOPAQUE (special tag content) bs)
    (hw : WordsContent (0, 0) content high low) (hdl : bs.length ≤ dl) : parseUnsignedInt64 (bs ++ₛ rest) dl =
      ⟨tag, some ⟨(high, low), dl - bs.length, bs.length⟩⟩ := by
  obtain ⟨k, bufp, hat⟩ := h.specialAt rest hw.length_le hdl
  have hlen := hw.length_le
  obtain ⟨b, os, rfl⟩ := exists_cons_of_ne_nil hw.ne_nil
  have hget : (bs ++ₛ rest).get bufp = b := by
    rw [← Stream'.head_drop, hat.drop]
    rfl
  have hle : (b :: os).length + 3 ≤ 12 := by omega
  simp only [parseUnsignedInt64, h.head, or_true, not_true_eq_false, if_false, hat.outer, hat.tag1,
    hat.tag2, hat.inner, htag, hle, and_self, if_true, hget, if_neg hw.guard, hat.drop,
    take_append_stream, words_of_fold (by decide) (by decide) hw.value]
  rw [Nat.add_comm (b :: os).length, hat.add]

/-- The words `Asn01_parseSignedInt64` starts from. -/
def signStart (content : List UInt8) : Nat × Nat :=
  if signWord content = -1 then (0xffffff, 0xffffffff) else (0, 0)

theorem parseSignedInt64_special {high low : UInt32} (h : IsTlv asnOPAQUE (special asnOPAQUE_I64 content) bs)
    (hw : WordsContent (signStart content) content high low) (hdl : bs.length ≤ dl) :
    parseSignedInt64 (bs ++ₛ rest) dl = ⟨asnOPAQUE_I64, some ⟨(high, low), dl - bs.length, bs.length⟩⟩ := by
  obtain ⟨k, bufp, hat⟩ := h.specialAt rest hw.length_le hdl
  have hlen := hw.length_le
  obtain ⟨b, os, rfl⟩ := exists_cons_of_ne_nil hw.ne_nil
  have hget : (bs ++ₛ rest).get bufp = b := by
    rw [← Stream'.head_drop, hat.drop]
    rfl
  have hstart : (if hiBit b then (0xffffff, 0xffffffff) else (0, 0)) = signStart (b :: os) := by
    cases hb : hiBit b <;> simp [signStart, signWord, hb]
  have hbound : (signStart (b :: os)).1 < 2 ^ 32 ∧ (signStart (b :: os)).2 < 2 ^ 32 := by
    rw [signStart]
    split <;> decide
  have hle : (b :: os).length + 3 ≤ 12 := by omega
  simp only [parseSignedInt64, h.head, hat.outer, hat.tag1, hat.tag2, hat.inner, hle, and_self,
    if_true, hget, if_neg hw.guard, hat.drop, take_append_stream, hstart,
    words_of_fold hbound.1 hbound.2 hw.value]
  rw [Nat.add_comm (b :: os).length, hat.add]

theorem parseFloating_special {size : Nat} (hsize : content.length = size) (hle : size ≤ 9)
    (h : IsTlv asnOPAQUE (special tag content) bs) (hdl : bs.length ≤ dl) :
    parseFloating tag (size + 3) size (bs ++ₛ rest) dl = ⟨tag, some ⟨content, dl - bs.length, bs.length - size⟩⟩ := by
  subst hsize
  obtain ⟨k, bufp, hat⟩ := h.specialAt rest hle hdl
  simp only [parseFloating, h.head, hat.outer, hat.tag1, hat.tag2, hat.inner, and_self, if_true,
    ne_eq, not_true_eq_false, if_false, hat.drop, take_append_stream]
  rw [Nat.add_comm content.length, hat.add, ← hat.add, Nat.add_sub_cancel]

theorem wordsContent_unsigned {high low : UInt32} (hne : content ≠ []) (hle : content.length ≤ 9)
    (hnine : content.length = 9 → content.head? = some 0) (hval : beNat content = high.toNat * 2 ^ 32 + low.toNat) :
    WordsContent (0, 0) content high low where
  ne_nil := hne
  length_le := hle
  nine := hnine
  value := by
    have hh := high.toNat_lt
    have hl := low.toNat_lt
    rw [word64, Nat.zero_mul, Nat.zero_add, Nat.zero_mul, Nat.zero_add, hval]
    exact Nat.mod_eq_of_lt (by omega)

theorem toInt32_toInt (x : UInt32) :
    x.toInt32.toInt = if x.toNat < 2 ^ 31 then (x.toNat : Int) else x.toNat - 2 ^ 32 := by
  have h : x.toInt32.toInt = x.toBitVec.toInt := rfl
  have := x.toNat_lt
  rw [h, BitVec.toInt_eq_toNat_cond, UInt32.toNat_toBitVec]
  split <;> split <;> omega

theorem wordsContent_signed {t : Int} {high low : UInt32} (ht : t = 0 ∨ t = -1)
    (hne : content ≠ []) (hle : content.length ≤ 9)
    (hnine : content.length = 9 → content.head? = some 0) (hsign : signWord content = t)
    (hval : t * 256 ^ content.length + beNat content = high.toInt32.toInt * 2 ^ 32 + low.toNat) :
    WordsContent (signStart content) content high low where
  ne_nil := hne
  length_le := hle
  nine := hnine
  value := by
    have hh := high.toNat_lt
    have hl := low.toNat_lt
    rw [toInt32_toInt] at hval
    rw [signStart, hsign]
    rcases ht with rfl | rfl
    · rw [if_neg (by decide), word64]
      split at hval <;> omega
    · -- the octets of sign in front of the first one are shifted out of the word
      obtain ⟨n, hn⟩ : ∃ n, content.length = n + 1 :=
        ⟨content.length - 1, by have := length_pos_iff.mpr hne; omega⟩
      have hstart : ((0xffffff, 0xffffffff) : Nat × Nat).1 * 2 ^ 32 + 0xffffffff = 2 ^ 56 - 1 := by
        norm_num
      rw [if_pos rfl, word64, hstart, hn]
      rw [hn] at hval
      have hpow : (2 ^ 56 - 1) * 256 ^ (n + 1) = 256 ^ n * 2 ^ 64 - 256 ^ (n + 1) := by
        rw [Nat.sub_mul, Nat.one_mul, pow_succ]
        ring_nf
      have hle : 256 ^ (n + 1) ≤ 256 ^ n * 2 ^ 64 := by
        rw [pow_succ]
        exact Nat.mul_le_mul_left _ (by norm_num)
      rw [hpow]
      have hint : (((256 ^ n * 2 ^ 64 - 256 ^ (n + 1) + beNat content : Nat) : Int) % 2 ^ 64)
          = (high.toNat * 2 ^ 32 + low.toNat : Int) := by
        rw [Nat.cast_add, Nat.cast_sub hle]
        simp only [Nat.cast_mul, Nat.cast_pow, Nat.cast_ofNat]
        split at hval
        · have hrw : (256 : Int) ^ n * 2 ^ 64 - 256 ^ (n + 1) + beNat content
              = (high.toNat * 2 ^ 32 + low.toNat) + 2 ^ 64 * 256 ^ n := by linarith
          rw [hrw, Int.add_mul_emod_self_left]
          exact Int.emod_eq_of_lt (by omega) (by omega)
        · have hrw : (256 : Int) ^ n * 2 ^ 64 - 256 ^ (n + 1) + beNat content
              = (high.toNat * 2 ^ 32 + low.toNat) + 2 ^ 64 * (256 ^ n - 1) := by linarith
          rw [hrw, Int.add_mul_emod_self_left]
          exact Int.emod_eq_of_lt (by omega) (by omega)
      exact_mod_cast hint

end special

/-! ## strings and headers -/

section strings

variable {tag : UInt8} {content bs : List UInt8} {dl : Nat} (rest : Mem)

theorem parseString_tlv {t : StringType} (h : IsTlv t.tag content bs)
    (hc : content.length ≤ 0x7fffffff) (hdl : bs.length ≤ dl) {strlength : Nat} (hstr : content.length ≤ strlength) :
    parseString (bs ++ₛ rest) dl strlength = ⟨t.tag, some ⟨content, dl - bs.length, bs.length⟩⟩ := by
  have hlen := h.length_bounds
  have hadd : content.length + (bs.length - content.length) = bs.length := by omega
  have htag : t.tag = asnOCTET_STR ∨ t.tag = asnIPADDRESS ∨ t.tag = asnOPAQUE ∨ t.tag = asnNSAP := by
    cases t <;> decide
  simp only [parseString, h.head, h.parseLengthAt rest hc hdl, h.take, guard, if_pos htag,
    Option.bind_eq_bind, Option.bind_some, pure, hadd]
  rw [if_pos (by omega), Option.bind_some, Nat.add_comm, hadd]

theorem parseBitstring_tlv (h : IsTlv asnBIT_STR content bs) (hne : content ≠ [])
    (hc : content.length ≤ 0x7fffffff) (hdl : bs.length ≤ dl) {strlength : Nat} (hstr : content.length ≤ strlength) :
    parseBitstring (bs ++ₛ rest) dl strlength = ⟨asnBIT_STR, some ⟨content, dl - bs.length, bs.length⟩⟩ := by
  have hlen := h.length_bounds
  have hpos := length_pos_iff.mpr hne
  have hadd : content.length + (bs.length - content.length) = bs.length := by omega
  simp only [parseBitstring, h.head, h.parseLengthAt rest hc hdl, h.take, guard, if_true,
    Option.bind_eq_bind, Option.bind_some, pure, hadd]
  rw [if_pos (by omega), if_pos (by omega), Option.bind_some, Option.bind_some, Nat.add_comm, hadd]

theorem parseHeader_tlv (h : IsTlv tag content bs) (hext : asnIsExtensionId tag = false)
    (hplain : tag = asnOPAQUE → ∃ b os, content = b :: os ∧ b ≠ asnOPAQUE_TAG1)
    (hc : content.length ≤ 0x7fffffff) (hdl : bs.length ≤ dl) : parseHeader (bs ++ₛ rest) dl =
      ⟨some tag, some (content.length, bs.length - content.length)⟩ := by
  simp only [parseHeader, h.head, hext, Bool.false_eq_true, if_false, h.parseLengthAt rest hc hdl]
  split
  · next hcond =>
    obtain ⟨b, os, rfl, hb⟩ := hplain hcond.1
    rw [h.get] at hcond
    exact absurd hcond.2.1 hb
  · rfl

end strings

/-! ## object identifiers -/

section objid

theorem parseSubid_append {init : List UInt8} {last : UInt8} (rest : List UInt8) {v : Nat}
    (hinit : ∀ b ∈ init, 128 ≤ b.toNat) (hlast : last.toNat < 128)
    (hv : v * 128 ^ (init.length + 1) + Base128.value (init ++ [last]) < 2 ^ 64) : parseSubid v (init ++ last :: rest)
      = (v * 128 ^ (init.length + 1) + Base128.value (init ++ [last]), last, rest) := by
  induction init generalizing v with
  | nil =>
    have hhi : hiBit last = false := (Octets.hiBit_false_iff last).mpr hlast
    simp only [nil_append, length_nil, zero_add, pow_one, Base128.value_singleton] at hv ⊢
    simp only [parseSubid, hhi, Bool.false_eq_true, false_and, if_false, Prod.mk.injEq, and_true]
    omega
  | cons b init ih =>
    have hhi : hiBit b = true := (hiBit_iff b).mpr (hinit b (by simp))
    have hsplit : Base128.value (b :: init ++ [last])
        = b.toNat % 128 * 128 ^ (init.length + 1) + Base128.value (init ++ [last]) := by
      rw [cons_append, Base128.value, foldl_cons, Base128.foldl_value]
      simp
    have hcombine : v * 128 ^ ((b :: init).length + 1) + Base128.value (b :: init ++ [last])
        = (v * 128 + b.toNat % 128) * 128 ^ (init.length + 1) + Base128.value (init ++ [last]) := by
      rw [hsplit, length_cons]
      ring
    rw [hcombine] at hv ⊢
    have hsmall : v * 128 + b.toNat % 128 < 2 ^ 64 := by
      have h1 : 1 ≤ 128 ^ (init.length + 1) := Nat.one_le_pow _ _ (by norm_num)
      calc v * 128 + b.toNat % 128 ≤ (v * 128 + b.toNat % 128) * 128 ^ (init.length + 1) :=
            Nat.le_mul_of_pos_right _ h1
        _ < 2 ^ 64 := by omega
    have hmod : (v * 128 % 2 ^ 64 + b.toNat % 128) % 2 ^ 64 = v * 128 + b.toNat % 128 := by omega
    rw [cons_append, parseSubid, if_pos ⟨hhi, by simp⟩, hmod]
    exact ih (fun c hc => hinit c (by simp [hc])) hv

theorem parseSubid_numeral {bs : List UInt8} (rest : List UInt8) {v : Nat} (h : Base128.IsNumeral bs v)
    (hv : v < 2 ^ 64) : ∃ last, hiBit last = false ∧ parseSubid 0 (bs ++ rest) = (v, last, rest) := by
  obtain ⟨init, last, rfl, hinit, hlast⟩ := h.split
  refine ⟨last, (Octets.hiBit_false_iff last).mpr hlast, ?_⟩
  have hval := h.value_eq
  have happ := parseSubid_append rest (v := 0) hinit hlast (by rw [hval]; omega)
  rw [hval, Nat.zero_mul, Nat.zero_add] at happ
  rw [append_assoc]
  exact happ

/-- The content of an object identifier: one numeral for each encoded subidentifier. -/
inductive SubidsContent : List Oid → List UInt8 → Prop
  | nil : SubidsContent [] []
  | cons {v : Oid} {subids : List Oid} {bs content : List UInt8} :
    Base128.IsNumeral bs v.toNat → SubidsContent subids content →
      SubidsContent (v :: subids) (bs ++ content)

theorem parseSubids_content {subids : List Oid} {content : List UInt8}
    (h : SubidsContent subids content) {original n : Nat} (hn : subids.length ≤ n) :
    parseSubids original n content = (n - subids.length, some subids) := by
  induction h generalizing n with
  | nil => simp [parseSubids]
  | @cons v subids bs content hnum _ ih =>
    rw [length_cons] at hn
    obtain ⟨n, rfl⟩ : ∃ k, n = k + 1 := ⟨n - 1, by omega⟩
    have hv := v.toNat_lt
    obtain ⟨last, hlast, hsub⟩ := parseSubid_numeral content hnum (by omega)
    obtain ⟨b, os, hcons⟩ : ∃ b os, bs ++ content = b :: os :=
      exists_cons_of_ne_nil (by simp [hnum.ne_nil])
    rw [hcons] at hsub ⊢
    simp only [parseSubids, hsub, hlast, Bool.false_eq_true, and_false, if_false]
    rw [if_neg (by omega), ih (by omega), Option.map_some, UInt32.ofNat_toNat, length_cons,
      Nat.add_sub_add_right]

theorem objidOfSubids_length (subids : List Oid) : (objidOfSubids subids).length = subids.length + 1 := by
  cases subids <;> simp [objidOfSubids]

theorem parseObjid_tlv {subids : List Oid} {content bs : List UInt8} {dl : Nat} (rest : Mem)
    (h : IsTlv asnOBJECT_ID content bs) (hs : SubidsContent subids content)
    (hn : subids.length ≤ 127) (hc : content.length ≤ 0x7fffffff) (hdl : bs.length ≤ dl) :
    parseObjid (bs ++ₛ rest) dl TYPES_MAX_OID_LEN =
      (⟨asnOBJECT_ID, some ⟨objidOfSubids subids, dl - bs.length, bs.length⟩⟩, subids.length + 1) := by
  have hlen := h.length_bounds
  have hadd : content.length + (bs.length - content.length) = bs.length := by omega
  have hsubs : parseSubids TYPES_MAX_OID_LEN (TYPES_MAX_OID_LEN - 1) content
      = (127 - subids.length, some subids) := parseSubids_content hs hn
  simp only [parseObjid, h.head, h.parseLengthAt rest hc hdl, h.take, hsubs, hadd, ne_eq,
    not_true_eq_false, if_false, objidOfSubids_length]
  rw [Nat.add_comm, hadd]

theorem splitFirst_combine {x y : Oid} (hx : x ≤ 2) (hy : x < 2 → y < 40)
    (hov : x = 2 → 80 + y.toNat < 2 ^ 32) : splitFirst (x * 40 + y) = (x, y) := by
  simp only [UInt32.le_iff_toNat_le, UInt32.lt_iff_toNat_lt, ← UInt32.toNat_inj,
    UInt32.reduceToNat] at hx hy hov
  have hsum : (x * 40 + y).toNat = x.toNat * 40 + y.toNat := by
    rw [UInt32.toNat_add, UInt32.toNat_mul]
    simp only [UInt32.reduceToNat]
    omega
  have hcases : x.toNat = 0 ∨ x.toNat = 1 ∨ x.toNat = 2 := by omega
  simp only [splitFirst, UInt32.lt_iff_toNat_lt, ← UInt32.toNat_inj, hsum, UInt32.reduceToNat]
  rcases hcases with h | h | h <;> rw [h] at hx hy hov <;> split_ifs <;>
    simp only [Prod.mk.injEq, ← UInt32.toNat_inj, UInt32.toNat_sub, hsum, UInt32.reduceToNat] <;>
    omega

end objid

end Priot.Asn01
