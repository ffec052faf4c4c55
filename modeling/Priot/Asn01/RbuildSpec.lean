/-
# The octets of the reverse encoders

What every `Asn01_reallocRbuild*` encoder writes, as a list. With these the buffer, its growth and
the direction of writing are gone.
-/
import Priot.Asn01.Emits
import Priot.Asn01.Tlv

namespace Priot.Asn01

open Octets List

/-! ## headers -/

/-- A length above `0x7f`: what is left for its first octet, and the octets after that. -/
def lengthSplit : Nat → Nat → Nat × List UInt8
  | 0, n => (n, [])
  | fuel + 1, n =>
    if n > 0xff then
      ((lengthSplit fuel (n / 256)).1, (lengthSplit fuel (n / 256)).2 ++ [UInt8.ofNat (n % 256)])
    else (n, [])

def lengthOctets (n : Nat) : List UInt8 :=
  if n ≤ 0x7f then [UInt8.ofNat n]
  else
    UInt8.ofNat (((lengthSplit 8 n).2.length + 1) ||| 0x80)
      :: UInt8.ofNat ((lengthSplit 8 n).1 % 256) :: (lengthSplit 8 n).2

def headerOctets (type : UInt8) (n : Nat) : List UInt8 := type :: lengthOctets n

/-- A whole encoding: the header and the content it announces. -/
def tlv (type : UInt8) (content : List UInt8) : List UInt8 :=
  headerOctets type content.length ++ content

theorem lengthSplit_length_le (fuel : Nat) {n k : Nat} (h : n < 256 ^ (k + 1)) : (lengthSplit fuel n).2.length ≤ k := by
  induction fuel generalizing n k with
  | zero => simp [lengthSplit]
  | succ fuel ih =>
    simp only [lengthSplit]
    split
    · cases k with
      | zero => omega
      | succ k =>
        have hrec := ih (n := n / 256) (k := k) (by
          rw [Nat.div_lt_iff_lt_mul (by norm_num), ← pow_succ]
          exact h)
        simp only [length_append, length_singleton]
        omega
    · simp

theorem lengthSplit_value (fuel : Nat) {n : Nat} (h : n < 256 ^ (fuel + 1)) : (lengthSplit fuel n).1 < 256 ∧
      (lengthSplit fuel n).1 * 256 ^ (lengthSplit fuel n).2.length + Octets.beNat (lengthSplit fuel n).2 = n := by
  induction fuel generalizing n with
  | zero => simpa [lengthSplit] using h
  | succ fuel ih =>
    simp only [lengthSplit]
    split
    · have hdiv : n / 256 < 256 ^ (fuel + 1) := by
        rw [Nat.div_lt_iff_lt_mul (by norm_num), ← pow_succ]
        exact h
      obtain ⟨hlt, hval⟩ := ih hdiv
      refine ⟨hlt, ?_⟩
      rw [length_append, Octets.beNat_append, length_singleton, Octets.beNat_singleton,
        Octets.toNat_ofNat_of_lt (by omega), pow_one, pow_succ, ← Nat.mul_assoc, ← Nat.add_assoc,
        ← Nat.add_mul, hval]
      omega
    · refine ⟨by omega, ?_⟩
      simp

theorem isLength_lengthOctets {n : Nat} (h : n < 2 ^ 63) : IsLength (lengthOctets n) n := by
  rw [lengthOctets]
  split
  · next hshort => exact isLength_short hshort
  · have hbound : n < 256 ^ (7 + 1) := lt_trans h (by norm_num)
    have hlen := lengthSplit_length_le 8 hbound
    obtain ⟨hlt, hval⟩ := lengthSplit_value 8 (lt_trans hbound (by norm_num))
    have hor : ∀ i : Fin 8, (i.val + 1) ||| 0x80 = 128 + (i.val + 1) := by decide
    have hcount : ((lengthSplit 8 n).2.length + 1) ||| 0x80 = 128 + ((lengthSplit 8 n).2.length + 1) :=
      hor ⟨(lengthSplit 8 n).2.length, by omega⟩
    rw [Nat.mod_eq_of_lt hlt]
    have hbe : Octets.beNat (UInt8.ofNat (lengthSplit 8 n).1 :: (lengthSplit 8 n).2) = n := by
      rw [Octets.beNat_cons, Octets.toNat_ofNat_of_lt hlt, hval]
    have hlong := isLength_long (b := UInt8.ofNat (((lengthSplit 8 n).2.length + 1) ||| 0x80))
      (o := UInt8.ofNat (lengthSplit 8 n).1 :: (lengthSplit 8 n).2)
      (by rw [Octets.toNat_ofNat_of_lt (by omega), hcount, length_cons]) (by simp)
      (by rw [length_cons]; omega) (by rw [hbe]; exact h)
    rwa [hbe] at hlong

variable {content : List UInt8}

theorem isTlv_tlv {type : UInt8} (h : content.length < 2 ^ 63) : IsTlv type content (tlv type content) :=
  ⟨⟨lengthOctets content.length, isLength_lengthOctets h, rfl⟩⟩

theorem lengthOctets_length_le (n : Nat) : (lengthOctets n).length ≤ 10 := by
  have hfuel : ∀ fuel k, (lengthSplit fuel k).2.length ≤ fuel := by
    intro fuel
    induction fuel with
    | zero => simp [lengthSplit]
    | succ fuel ih =>
      intro k
      simp only [lengthSplit]
      split
      · have := ih (k / 256)
        simp only [length_append, length_singleton]
        omega
      · simp
  rw [lengthOctets]
  split
  · simp
  · have := hfuel 8 n
    simp only [length_cons]
    omega

theorem tlv_length_le (type : UInt8) (content : List UInt8) : (tlv type content).length ≤ content.length + 11 := by
  have := lengthOctets_length_le content.length
  simp only [tlv, headerOctets, length_append, length_cons]
  omega

theorem emits_rbuildLengthLow (fuel n : Nat) :
    Emits 0 (rbuildLengthLow fuel n) (lengthSplit fuel n).1 (lengthSplit fuel n).2 0 := by
  induction fuel generalizing n with
  | zero => exact emits_pure
  | succ fuel ih =>
    simp only [rbuildLengthLow, lengthSplit]
    split
    · exact emits_room1_put _ (ih (n / 256))
    · exact emits_pure

theorem emits_reallocRbuildLength (n : Nat) : Emits 0 (reallocRbuildLength n) () (lengthOctets n) 0 := by
  refine emits_get fun s hs => ?_
  simp only [lengthOctets]
  split
  · exact (emits_room1.bind_nil (emits_put _)) s hs
  · refine (emits_rbuildLengthLow 8 n s hs).bind (c := [_, _]) fun s₁ hs₁ hout₁ => ?_
    refine (emits_roomFor 2 2 (by omega) s₁ hs₁).bind_nil fun s₂ hs₂ hout₂ => ?_
    refine (emits_put (k := 1) _ s₂ hs₂).bind (c := [_]) fun s₃ hs₃ hout₃ => EmitsAt.get ?_
    have hoff : s₃.offset - s.offset = (lengthSplit 8 n).2.length + 1 := by
      rw [hout₂, hout₁, ← append_assoc] at hout₃
      rw [offset_eq hs hs₃ hout₃, length_append, length_singleton]
      omega
    rw [hoff]
    exact emits_put _ s₃ hs₃

theorem emits_reallocBuildHeader (type : UInt8) (n : Nat) :
    Emits 0 (reallocBuildHeader type n) () (headerOctets type n) 0 :=
  (emits_reallocRbuildLength n).bind (f := fun _ => do room1; put type) (c := [type])
    (emits_room1.bind_nil (emits_put type))

theorem tlv_length_ge (type : UInt8) (content : List UInt8) : content.length + 2 ≤ (tlv type content).length := by
  have hpos : 1 ≤ (lengthOctets content.length).length := by
    rw [lengthOctets]
    split <;> simp
  simp only [tlv, headerOctets, length_append, length_cons]
  omega

theorem emitsAt_reallocBuildHeaderCheck {s : RBuf} {n : Nat} (hs : s.Room 0) (hn : n ≤ s.offset) :
    EmitsAt (reallocBuildHeaderCheck n) s () [] 0 := by
  refine EmitsAt.get ?_
  rw [RBuf.Room] at hs
  rw [if_neg (by omega)]
  exact emits_pure s hs

/-- A sequence header around what has been written since `s₀`. -/
theorem emitsAt_header {s s₀ : RBuf} (type : UInt8) (hs₀ : s₀.Room 0)
    (hs : s.Room 0) (hout : s.out = content ++ s₀.out) :
    EmitsAt (do reallocBuildHeader type ((← get).offset - s₀.offset)) s ()
      (headerOctets type content.length) 0 := by
  refine EmitsAt.get ?_
  rw [offset_eq hs₀ hs hout, Nat.add_sub_cancel_left]
  exact emits_reallocBuildHeader type _ s hs

theorem emitsAt_closeHeader {s s₀ : RBuf} {type : UInt8} (hs₀ : s₀.Room 0)
    (hs : s.Room 0) (hout : s.out = content ++ s₀.out) :
    EmitsAt (closeHeader type s₀.offset) s () (headerOctets type content.length) 0 := by
  refine EmitsAt.get ?_
  have hoff := offset_eq hs₀ hs hout
  rw [hoff, Nat.add_sub_cancel_left]
  refine (emits_reallocBuildHeader type content.length s hs).bind (c := []) fun s₁ hs₁ hout₁ => ?_
  exact EmitsAt.get (emitsAt_reallocBuildHeaderCheck hs₁ (by omega))

theorem emits_tlv {m : Rb Unit} {type : UInt8} (hm : Emits 0 m () content 0) :
    Emits 0 (do let startOffset := (← get).offset; m; closeHeader type startOffset) ()
      (tlv type content) 0 :=
  emits_get fun s hs => (hm s hs).bind fun _ hs' hout => emitsAt_closeHeader hs hs' hout

/-! ## integers -/

theorem emits_rbuildShift (t : Int) (fuel : Nat) (x : Int) :
    Emits 0 (rbuildShift t fuel x) () (shiftOut t fuel x) 0 := by
  induction fuel generalizing x with
  | zero => exact emits_pure
  | succ fuel ih =>
    simp only [rbuildShift, shiftOut]
    split
    · exact emits_pure
    · exact emits_room1_put _ (ih (x / 256))

theorem emitsAt_rbuildSign {s : RBuf} (t : Int) {bs rest : List UInt8} (hs : s.Room 0)
    (hne : bs ≠ []) (hout : s.out = bs ++ rest) : EmitsAt (rbuildSign t) s () (signOctets t bs) 0 := by
  obtain ⟨b, bs, rfl⟩ := exists_cons_of_ne_nil hne
  have hlast : s.pkt.getD (s.pkt.length - s.offset) 0 = b := by
    have h0 : s.out.getD 0 0 = b := by rw [hout]; rfl
    rw [RBuf.out] at h0
    rw [← h0]
    simp only [getD_eq_getElem?_getD, getElem?_drop, Nat.add_zero]
  have hget : lastPut.exec s = (.ok b, s) := by
    rw [lastPut, exec_bind_ok s s (exec_get s), exec_pure, hlast]
  have hsign : EmitsAt lastPut s b [] 0 := .of_ok hget hs rfl id
  refine hsign.bind_nil fun s' hs' _ => ?_
  simp only [signOctets]
  split
  · have htag : Emits 0 (do room1; put (lowOctet t)) () [lowOctet t] 0 :=
      emits_room1.bind_nil (emits_put _)
    exact htag s' hs'
  · exact emits_pure s' hs'

theorem Emits.sign {m : Rb Unit} {bs : List UInt8} (t : Int) (hm : Emits 0 m () bs 0) (hne : bs ≠ []) :
    Emits 0 (do m; rbuildSign t) () (signPad t bs) 0 :=
  fun s hs => (hm s hs).bind fun _ hs' hout => emitsAt_rbuildSign t hs' hne hout

theorem emits_rbuildInteger (t x : Int) : Emits 0 (rbuildInteger t x) () (writeSigned t 8 x) 0 := by
  have hbody : Emits 0 (do room1; put (lowOctet x); rbuildShift t 8 (x / 256)) ()
      (shiftOut t 8 (x / 256) ++ [lowOctet x]) 0 := emits_room1_put _ (emits_rbuildShift t 8 _)
  have h := hbody.sign t (by simp)
  simpa only [rbuildInteger, writeSigned, bind_assoc] using h

/-- The sign the signed encoders shift towards. -/
def signOf (x : Int) : Int := if x < 0 then -1 else 0

theorem emits_reallocRbuildInt (type : UInt8) (v : Int) : Emits 0 (reallocRbuildInt type v 8) ()
      (tlv type (writeSigned (signOf (checkOverflowSigned v)) 8 (checkOverflowSigned v))) 0 :=
  emits_tlv (emits_rbuildInteger _ _)

theorem emits_reallocRbuildUnsignedInt (type : UInt8) (v : Nat) : Emits 0 (reallocRbuildUnsignedInt type v 8) ()
      (tlv type (writeSigned 0 8 (checkOverflowUnsigned v))) 0 :=
  emits_tlv (emits_rbuildInteger _ _)

/-! ## 64-bit values and the Opaque around them -/

theorem emits_rbuildLow (t : Int) (fuel : Nat) (low : Int) (count : Nat) :
    Emits 0 (rbuildLow t fuel low count) (count + (shiftOut t fuel low).length) (shiftOut t fuel low) 0 := by
  induction fuel generalizing low count with
  | zero => exact emits_pure
  | succ fuel ih =>
    simp only [rbuildLow, shiftOut]
    split
    · exact emits_pure
    · have h := emits_room1_put (lowOctet low) (ih (low / 256) (count + 1))
      rw [length_append, length_singleton,
        show count + ((shiftOut t fuel (low / 256)).length + 1)
          = count + 1 + (shiftOut t fuel (low / 256)).length by omega]
      exact h

theorem emits_rbuildFill (pad : UInt8) (n : Nat) : Emits 0 (rbuildFill pad n) () (List.replicate n pad) 0 := by
  induction n with
  | zero => exact emits_pure
  | succ n ih =>
    rw [replicate_succ']
    exact emits_room1_put pad ih

/-- The octets of the low word, as far as they are written at first. -/
def lowWord (t low : Int) : List UInt8 := shiftOut t 3 (low / 256) ++ [lowOctet low]

def highWord (t high : Int) : List UInt8 := shiftOut t 4 (high / 256) ++ [lowOctet high]

/-- Both words: the low one alone when the high one is all sign, else filled up to four octets. -/
def wordsBody (t high low : Int) : List UInt8 :=
  if high ≠ t then
    highWord t high ++ List.replicate (4 - (lowWord t low).length) (lowOctet t) ++ lowWord t low
  else lowWord t low

def writeWords (t high low : Int) : List UInt8 := signPad t (wordsBody t high low)

theorem wordsBody_ne_nil (t high low : Int) : wordsBody t high low ≠ [] := by
  rw [wordsBody]
  split <;> simp [lowWord]

theorem emits_rbuildHigh (t high low : Int) {m : Rb Nat} (hm : Emits 0 m (lowWord t low).length (lowWord t low) 0) :
    Emits 0 (m >>= rbuildHigh t high) () (wordsBody t high low) 0 := by
  rw [wordsBody]
  split
  · next hne =>
    refine hm.bind ?_
    rw [rbuildHigh, if_pos hne]
    exact (emits_rbuildFill _ _).bind (f := fun _ => do room1; put _; rbuildShift t 4 (high / 256))
      (emits_room1_put _ (emits_rbuildShift t 4 _))
  · next heq =>
    refine hm.bind (c := []) ?_
    rw [rbuildHigh, if_neg heq]
    exact emits_pure

theorem emits_rbuildWords (t high low : Int) : Emits 0 (rbuildWords t high low) () (writeWords t high low) 0 := by
  have hlow : Emits 0 (do room1; put (lowOctet low); rbuildLow t 3 (low / 256) 1)
      (lowWord t low).length (lowWord t low) 0 := by
    have hlen : (lowWord t low).length = 1 + (shiftOut t 3 (low / 256)).length := by
      rw [lowWord, length_append, length_singleton, Nat.add_comm]
    rw [hlen]
    exact emits_room1_put _ (emits_rbuildLow t 3 _ 1)
  have h := (emits_rbuildHigh t high low hlow).sign t (wordsBody_ne_nil t high low)
  simpa only [rbuildWords, writeWords, bind_assoc] using h

/-- What `closeOpaque` writes in front of `n` octets. -/
def specialHeader (tag : UInt8) (n : Nat) : List UInt8 :=
  headerOctets asnOPAQUE (n + 3) ++ [asnOPAQUE_TAG1, tag, UInt8.ofNat n]

theorem specialHeader_append (tag : UInt8) (octets : List UInt8) :
    specialHeader tag octets.length ++ octets = tlv asnOPAQUE (special tag octets) := by
  simp [specialHeader, tlv, special]

theorem emitsAt_closeOpaque {s : RBuf} {n : Nat} (tag : UInt8) (hs : s.Room 3) (hn : n ≤ s.offset) :
    EmitsAt (closeOpaque tag n) s () (specialHeader tag n) 0 := by
  have hthree : Emits 3 (do put (UInt8.ofNat n); put tag; put asnOPAQUE_TAG1) ()
      [asnOPAQUE_TAG1, tag, UInt8.ofNat n] 0 :=
    (emits_put _).bind (c := [_, _]) ((emits_put _).bind (c := [_]) (emits_put _))
  have h := (hthree s hs).bind (f := fun _ => do
      reallocBuildHeader asnOPAQUE (n + 3); reallocBuildHeaderCheck (n + 3))
    (c := headerOctets asnOPAQUE (n + 3)) (b := ()) (i := 0) fun s₁ hs₁ hout₁ => by
      refine (emits_reallocBuildHeader asnOPAQUE _ s₁ hs₁).bind (c := []) fun s₂ hs₂ hout₂ => ?_
      have hoff₁ := offset_eq hs hs₁ hout₁
      have hoff₂ := offset_eq hs₁ hs₂ hout₂
      simp only [length_cons, length_nil] at hoff₁
      exact emitsAt_reallocBuildHeaderCheck hs₂ (by omega)
  simpa only [closeOpaque, specialHeader, bind_assoc] using h

theorem emits_opaque {m : Rb Unit} {octets : List UInt8} (tag : UInt8)
    (hm : Emits 0 m () octets 0) :
    Emits 0 (do
        let startOffset := (← get).offset
        m
        let intsize := (← get).offset - startOffset
        roomFor 5 5
        closeOpaque tag intsize) ()
      (tlv asnOPAQUE (special tag octets)) 0 := by
  refine emits_get fun s hs => ?_
  rw [← specialHeader_append]
  refine (hm s hs).bind fun s₁ hs₁ hout₁ => EmitsAt.get ?_
  have hoff := offset_eq hs hs₁ hout₁
  rw [hoff, Nat.add_sub_cancel_left]
  refine (emits_roomFor 5 5 (by omega) s₁ hs₁).bind_nil fun s₂ hs₂ hout₂ => ?_
  have hoff₂ := offset_eq hs₁ hs₂ (by rwa [nil_append])
  rw [length_nil] at hoff₂
  exact emitsAt_closeOpaque tag (hs₂.mono (by omega)) (by omega)

/-- What `Asn01_reallocRbuildUnsignedInt64` writes. -/
def unsigned64Octets (t : Unsigned64Type) (high low : UInt32) : List UInt8 :=
  let content := writeWords 0 high.toNat low.toNat
  match t with
  | .counter64 => tlv asnCOUNTER64 content
  | .opaqueCounter64 => tlv asnOPAQUE (special asnOPAQUE_COUNTER64 content)
  | .opaqueU64 => tlv asnOPAQUE (special asnOPAQUE_U64 content)

theorem emits_reallocRbuildUnsignedInt64 (t : Unsigned64Type) (high low : UInt32) :
    Emits 0 (reallocRbuildUnsignedInt64 t.tag high low 8) () (unsigned64Octets t high low) 0 := by
  cases t with
  | opaqueCounter64 => exact emits_opaque asnOPAQUE_COUNTER64 (emits_rbuildWords _ _ _)
  | opaqueU64 => exact emits_opaque asnOPAQUE_U64 (emits_rbuildWords _ _ _)
  | counter64 =>
    refine emits_get fun s hs => ?_
    refine (emits_rbuildWords _ _ _ s hs).bind fun s₁ hs₁ hout₁ => EmitsAt.get ?_
    have hoff := offset_eq hs hs₁ hout₁
    rw [hoff, Nat.add_sub_cancel_left]
    refine (emits_reallocBuildHeader asnCOUNTER64 _ s₁ hs₁).bind (c := []) fun s₂ hs₂ hout₂ => ?_
    have hoff₂ := offset_eq hs₁ hs₂ hout₂
    exact emitsAt_reallocBuildHeaderCheck hs₂ (by omega)

def signOfWord (high : UInt32) : Int := signOf high.toInt32.toInt

theorem emits_reallocRbuildSignedInt64 (high low : UInt32) : Emits 0 (reallocRbuildSignedInt64 high low 8) ()
      (tlv asnOPAQUE (special asnOPAQUE_I64 (writeWords (signOfWord high) high.toInt32.toInt low.toInt32.toInt))) 0 :=
  emits_opaque asnOPAQUE_I64 (emits_rbuildWords _ _ _)

/-! ## floating point, strings, NULL -/

theorem emits_rbuildFloating (tag : UInt8) {octets : List UInt8} {size : Nat}
    (hlen : octets.length = size) (hsize : size ≤ 122) :
    Emits 0 (rbuildFloating tag octets size) () (tlv asnOPAQUE (special tag octets)) 0 := by
  subst hlen
  intro s hs
  rw [rbuildFloating, if_neg (by omega), ← specialHeader_append]
  refine (emits_roomFor _ _ (by omega) s hs).bind_nil fun s₁ hs₁ hout₁ => ?_
  refine (emits_putBytes octets s₁ hs₁).bind fun s₂ hs₂ hout₂ => ?_
  have hoff := offset_eq hs₁ hs₂ hout₂
  exact emitsAt_closeOpaque tag hs₂ (by omega)

theorem wordOctets_length (n v : Nat) : (wordOctets n v).length = n := by
  induction n generalizing v with
  | zero => rfl
  | succ n ih => rw [wordOctets, length_append, ih, length_singleton]

theorem emits_reallocRbuildFloat (bits : UInt32) : Emits 0 (reallocRbuildFloat bits 4) ()
      (tlv asnOPAQUE (special asnOPAQUE_FLOAT (wordOctets 4 bits.toNat))) 0 :=
  emits_rbuildFloating _ (wordOctets_length 4 _) (by omega)

theorem emits_reallocRbuildDouble (bits : UInt64) : Emits 0 (reallocRbuildDouble bits 8) ()
      (tlv asnOPAQUE (special asnOPAQUE_DOUBLE (wordOctets 8 bits.toNat))) 0 :=
  emits_rbuildFloating _ (wordOctets_length 8 _) (by omega)

theorem emits_reallocRbuildString (type : UInt8) (str : List UInt8) :
    Emits 0 (reallocRbuildString type str) () (tlv type str) 0 := by
  intro s hs
  refine (emits_roomFor _ _ (by omega) s hs).bind_nil fun s₁ hs₁ hout₁ => ?_
  refine (emits_putBytes (k := 0) str s₁ hs₁).bind fun s₂ hs₂ hout₂ => ?_
  refine (emits_reallocBuildHeader type _ s₂ hs₂).bind (c := []) fun s₃ hs₃ hout₃ => ?_
  have hoff₂ := offset_eq hs₁ hs₂ hout₂
  have hoff₃ := offset_eq hs₂ hs₃ hout₃
  exact emitsAt_reallocBuildHeaderCheck hs₃ (by omega)

theorem emits_reallocRbuildNull (type : UInt8) : Emits 0 (reallocRbuildNull type) () (tlv type []) 0 := by
  have h := emits_reallocBuildHeader type 0
  rwa [show headerOctets type 0 = tlv type [] by rw [tlv, append_nil]; rfl] at h

/-! ## object identifiers -/

theorem emits_rbuildGroups (fuel v : Nat) : Emits 0 (rbuildGroups fuel v) () (Base128.leading fuel v) 0 := by
  induction fuel generalizing v with
  | zero => exact emits_pure
  | succ fuel ih =>
    simp only [rbuildGroups, Base128.leading]
    split
    · exact emits_pure
    · exact emits_room1_put _ (ih (v / 128))

theorem emits_rbuildSubid (v : Oid) : Emits 0 (rbuildSubid v) () (Base128.write 4 v.toNat) 0 :=
  emits_room1_put _ (emits_rbuildGroups 4 _)

/-- The encoded subidentifiers, one after the other. -/
def subidOctets (subids : List Oid) : List UInt8 := subids.flatMap fun v => Base128.write 4 v.toNat

theorem emits_rbuildSubids (subids : List Oid) : Emits 0 (rbuildSubids subids) () (subidOctets subids) 0 := by
  induction subids with
  | nil => exact emits_pure
  | cons v subids ih => exact ih.bind (emits_rbuildSubid v)

/-- The content `Asn01_reallocRbuildObjid` writes, `none` where it refuses. -/
def objidContent : ObjId → Option (List UInt8)
  | [] => some [0, 0]
  | [x] => if x > 2 then none else some [UInt8.ofNat (x.toNat % 256)]
  | x :: y :: rest =>
    if x > 2 ∨ (y > 40 ∧ x < 2) then none else some (subidOctets ((x * 40 + y) :: rest))

theorem emits_reallocRbuildObjid {objid : ObjId} (type : UInt8) (h : objidContent objid = some content) :
    Emits 0 (reallocRbuildObjid type objid) () (tlv type content) 0 := by
  match objid, h with
  | [], h =>
    simp only [objidContent, Option.some.injEq] at h
    subst h
    have hbody : Emits 0 (do roomFor 2 2; put 0; put 0) () [0, 0] 0 :=
      (emits_roomFor 2 2 (by omega)).bind_nil ((emits_put 0).bind (c := [_]) (emits_put 0))
    simpa only [reallocRbuildObjid, bind_assoc] using emits_tlv hbody
  | [x], h =>
    simp only [objidContent] at h
    split at h
    · contradiction
    · next hx =>
      rw [Option.some.injEq] at h
      subst h
      have hbody : Emits 0 (do room1; put (UInt8.ofNat (x.toNat % 256))) () [_] 0 :=
        emits_room1.bind_nil (emits_put _)
      simpa only [reallocRbuildObjid, bind_assoc, if_neg hx] using emits_tlv hbody
  | x :: y :: rest, h =>
    simp only [objidContent] at h
    split at h
    · contradiction
    · next hxy =>
      rw [not_or] at hxy
      rw [Option.some.injEq] at h
      subst h
      have hbody : Emits 0 (do rbuildSubids rest; rbuildSubid (x * 40 + y)) ()
          (subidOctets ((x * 40 + y) :: rest)) 0 :=
        (emits_rbuildSubids rest).bind (emits_rbuildSubid _)
      simpa only [reallocRbuildObjid, bind_assoc, if_neg hxy.1, if_neg hxy.2] using emits_tlv hbody

theorem refuses_reallocRbuildObjid {objid : ObjId} (type : UInt8) (h : objidContent objid = none) :
    Refuses (reallocRbuildObjid type objid) := by
  match objid, h with
  | [x], h =>
    simp only [objidContent, ite_eq_left_iff, reduceCtorEq, imp_false, not_not] at h
    refine refuses_bind fun s => ?_
    simp only [if_pos h]
    exact refuses_throw.bind
  | x :: y :: rest, h =>
    simp only [objidContent, ite_eq_left_iff, reduceCtorEq, imp_false, not_not] at h
    refine refuses_bind fun s => ?_
    by_cases hx : x > 2
    · simp only [if_pos hx]
      exact refuses_throw.bind
    · simp only [if_neg hx, if_pos (h.resolve_left hx)]
      exact refuses_bind fun _ => refuses_throw.bind

/-! ## values -/

/-- The octets of a value, `none` where its encoder refuses it. -/
def valueOctets : VarValue → Option (List UInt8)
  | .integer v size =>
    let v := checkOverflowSigned v
    if size = 8 then some (tlv asnINTEGER (writeSigned (signOf v) 8 v)) else none
  | .unsigned t v size =>
    if size = 8 then some (tlv t.tag (writeSigned 0 8 (checkOverflowUnsigned v))) else none
  | .unsigned64 t high low size => if size = 8 then some (unsigned64Octets t high low) else none
  | .string t s => some (tlv t.tag s)
  | .objectId o => (objidContent o).map (tlv asnOBJECT_ID)
  | .null t => some (tlv t.tag [])
  | .bitString s => some (tlv asnBIT_STR s)
  | .float bits size =>
    if size = 4 then some (tlv asnOPAQUE (special asnOPAQUE_FLOAT (wordOctets 4 bits.toNat)))
    else none
  | .double bits size =>
    if size = 8 then some (tlv asnOPAQUE (special asnOPAQUE_DOUBLE (wordOctets 8 bits.toNat)))
    else none
  | .signed64 high low size =>
    if size = 8 then
      some (tlv asnOPAQUE (special asnOPAQUE_I64
        (writeWords (signOfWord high) high.toInt32.toInt low.toInt32.toInt)))
    else none
  | .unknown _ => none

end Priot.Asn01
