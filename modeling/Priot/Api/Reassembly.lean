/-
# Messages of a stream

`ber` is the rule by which a stream is to be cut: a message is one SEQUENCE, with a length the decoder can take. The
read loop cuts so as long as the lengths it computes with are neither unset nor too large for an `int`.
-/
import Priot.Api.SessRead
import Priot.Lib.Framing

namespace Priot.Api

open Asn01 List Octets Framing

/-! ## the rule -/

/-- The length of the encoding in front, when its header is complete and has no more than eight length
octets. -/
def tlvLength : List UInt8 → Option Nat
  | _ :: b :: rest =>
    let count := b.toNat % 128
    if hiBit b then
      if count = 0 ∨ count > 8 ∨ rest.length < count then none
      else some (beNat (rest.take count) + 2 + count)
    else some (b.toNat + 2)
  | _ => none

/-- Where the first message ends. -/
def berNext (s : List UInt8) : Verdict :=
  match s with
  | tag :: _ :: _ =>
    if tag ≠ asnSEQUENCE_CONSTRUCTOR then .bad
    else match tlvLength s with
    | none => .wait
    | some n =>
      if n < 2 ^ 31 then if s.length < n then .wait else .frame n
      else if 2 ^ 31 ≤ n % 2 ^ 32 then .bad else .wait
  | _ => .wait

variable {s : List UInt8} {n : Nat}

theorem tlvLength_pos (h : tlvLength s = some n) : 2 ≤ n := by
  unfold tlvLength at h
  split at h
  · simp only [] at h
    split at h
    · split at h
      · cases h
      · cases h
        omega
    · cases h
      omega
  · cases h

theorem tlvLength_append (h : tlvLength s = some n) (y : List UInt8) : tlvLength (s ++ y) = some n := by
  match s, h with
  | tag :: b :: rest, h =>
    simp only [tlvLength, cons_append] at h ⊢
    split at h
    · next hb =>
      rw [if_pos hb]
      split at h
      · cases h
      · next hcount =>
        rw [if_neg (by rw [length_append]; omega), ← h,
          take_append_of_le_length (by omega)]
    · next hb =>
      rw [if_neg hb]
      exact h

theorem tlvLength_take {m : Nat} (h : tlvLength s = some n) (hm : n ≤ m ∨ 10 ≤ m) : tlvLength (s.take m) = some n := by
  match s, h with
  | tag :: b :: rest, h =>
    have hpos := tlvLength_pos h
    obtain ⟨k, rfl⟩ : ∃ k, m = k + 2 := ⟨m - 2, by omega⟩
    simp only [tlvLength, take_succ_cons] at h ⊢
    split at h
    · next hb =>
      rw [if_pos hb]
      split at h
      · cases h
      · next hcount =>
        have hk := Option.some.inj h
        rw [if_neg (by rw [length_take]; omega), take_take, Nat.min_eq_left (by omega), ← h]
    · next hb =>
      rw [if_neg hb]
      exact h

variable {rest : List UInt8}

theorem tlvLength_take_header {tag b : UInt8} {k : Nat} (hb : hiBit b = true)
    (hk : b.toNat % 128 ≤ k) (h : tlvLength (tag :: b :: rest) = some n) :
    tlvLength (tag :: b :: rest.take k) = some n := by
  simp only [tlvLength, if_pos hb, Option.ite_none_left_eq_some] at h ⊢
  refine ⟨by rw [length_take]; omega, ?_⟩
  rw [take_take, Nat.min_eq_left hk]
  exact h.2

theorem berNext_cons (tag b : UInt8) (rest : List UInt8) :
    berNext (tag :: b :: rest) =
      if tag ≠ asnSEQUENCE_CONSTRUCTOR then .bad
      else match tlvLength (tag :: b :: rest) with
      | none => .wait
      | some n =>
        if n < 2 ^ 31 then if (tag :: b :: rest).length < n then .wait else .frame n
        else if 2 ^ 31 ≤ n % 2 ^ 32 then .bad else .wait := rfl

theorem berNext_eq_frame : berNext s = .frame n ↔ s.head? = some asnSEQUENCE_CONSTRUCTOR ∧ tlvLength s = some n ∧
      n < 2 ^ 31 ∧ n ≤ s.length := by
  match s with
  | [] | [_] => simp [berNext, tlvLength]
  | tag :: b :: rest =>
    rw [berNext_cons, head?_cons, Option.some.injEq]
    by_cases htag : tag = asnSEQUENCE_CONSTRUCTOR
    · rw [if_neg (not_not.mpr htag)]
      cases h : tlvLength (tag :: b :: rest) with
      | none => simp
      | some m =>
        simp only [Option.some.injEq, htag, true_and]
        constructor
        · intro hframe
          split at hframe
          · split at hframe
            · cases hframe
            · cases hframe
              exact ⟨rfl, by assumption, by omega⟩
          · split at hframe <;> cases hframe
        · rintro ⟨rfl, hlt, hle⟩
          rw [if_pos hlt, if_neg (by omega)]
    · rw [if_pos htag]
      simp [htag]

theorem berNext_stable (x y : List UInt8) (h : berNext x ≠ .wait) : berNext (x ++ y) = berNext x := by
  match x with
  | [] | [_] => exact absurd rfl h
  | tag :: b :: rest =>
    rw [cons_append, cons_append]
    rw [berNext_cons] at h ⊢
    rw [berNext_cons]
    by_cases htag : tag ≠ asnSEQUENCE_CONSTRUCTOR
    · rw [if_pos htag, if_pos htag]
    · rw [if_neg htag] at h
      rw [if_neg htag, if_neg htag]
      cases hn : tlvLength (tag :: b :: rest) with
      | none =>
        rw [hn] at h
        exact absurd rfl h
      | some n =>
        have hn' : tlvLength (tag :: b :: (rest ++ y)) = some n := tlvLength_append hn y
        rw [hn] at h
        rw [hn']
        simp only [length_cons, length_append] at h ⊢
        split
        · next hlt =>
          rw [if_pos hlt] at h
          by_cases hshort : rest.length + 1 + 1 < n
          · rw [if_pos hshort] at h
            exact absurd rfl h
          · rw [if_neg hshort, if_neg (by omega)]
        · rfl

/-- Messages as they are to be cut. -/
def ber : Rule UInt8 where
  next := berNext
  next_nil := rfl
  stable := berNext_stable
  frame_pos h := by
    obtain ⟨-, hn, -, -⟩ := berNext_eq_frame.mp h
    have := tlvLength_pos hn
    omega
  frame_le h := (berNext_eq_frame.mp h).2.2.2
  frame_take := by
    intro x n h
    obtain ⟨hhead, hn, hlt, hle⟩ := berNext_eq_frame.mp h
    have hpos := tlvLength_pos hn
    refine berNext_eq_frame.mpr ⟨?_, tlvLength_take hn (.inl (Nat.le_refl n)), hlt, ?_⟩
    · rw [List.head?_take, if_neg (by omega)]
      exact hhead
    · rw [List.length_take]
      omega

/-! ## `Asn_checkPacket` and the rule -/

/-- What the loop does when `Asn_checkPacket` has returned `c`. -/
def codeVerdict (c : Int) (packetLen : Nat) : Verdict :=
  if c < 0 then .bad else if c.toNat > packetLen ∨ c = 0 then .wait else .frame c.toNat

theorem codeVerdict_natCast (hn : 0 < n) (packetLen : Nat) :
    codeVerdict n packetLen = if packetLen < n then .wait else .frame n := by
  unfold codeVerdict
  rw [if_neg (by omega), Int.toNat_natCast]
  by_cases h : packetLen < n
  · rw [if_pos h, if_pos (.inl h)]
  · rw [if_neg h, if_neg (by omega)]

theorem checkPacket_bounds (packet : List UInt8) (junk : UInt64) :
    -2 ^ 31 ≤ checkPacket packet junk ∧ checkPacket packet junk < 2 ^ 31 := by
  unfold checkPacket
  split
  · next tag b rest =>
    have hb := b.toNat_lt
    have hcast := castInt_bounds
    simp only []
    split_ifs
    · omega
    · omega
    · exact hcast _
    · omega
  · norm_num

theorem packetLoop_succ {fuel : Nat} {junk : Stream' UInt64} {packet : List UInt8} (hne : packet ≠ []) :
    packetLoop (fuel + 1) junk packet =
      match codeVerdict (checkPacket packet junk.head) packet.length with
      | .wait => ⟨[], false, packet, junk.tail⟩
      | .bad => ⟨[], true, packet, junk.tail⟩
      | .frame n =>
        let out := packetLoop fuel junk.tail (packet.drop n)
        { out with frames := packet.take n :: out.frames } := by
  obtain ⟨hlo, hhi⟩ := checkPacket_bounds packet junk.head
  rw [packetLoop, if_neg hne]
  simp only [MAX_PACKET_LENGTH, codeVerdict]
  generalize checkPacket packet junk.head = c at *
  by_cases hneg : c < 0
  · rw [if_pos hneg, if_pos (by omega)]
  · have hc : (c % 2 ^ 64).toNat = c.toNat := by omega
    rw [if_neg hneg, hc, if_neg (by omega)]
    by_cases hwait : c.toNat > packet.length ∨ c = 0
    · rw [if_pos hwait, if_pos (by omega)]
    · rw [if_neg hwait, if_neg (by omega)]

variable {x : List UInt8}

theorem packetLoop_drain (h : ∀ t, ber.Boundary x t → t ≠ [] → ∀ junk,
      codeVerdict (checkPacket t junk) t.length = ber.next t) (fuel : Nat) (junk : Stream' UInt64) :
    ∃ junk', packetLoop fuel junk x =
      ⟨(ber.drain fuel x).frames, (ber.drain fuel x).broken, (ber.drain fuel x).rest, junk'⟩ := by
  induction fuel generalizing x junk with
  | zero => exact ⟨junk, rfl⟩
  | succ fuel ih =>
    by_cases hne : x = []
    · subst hne
      exact ⟨junk, rfl⟩
    · rw [packetLoop_succ hne, h x .refl hne]
      conv => enter [1, junk', 2]; unfold Rule.drain
      cases hnext : ber.next x with
      | wait => exact ⟨_, rfl⟩
      | bad => exact ⟨_, rfl⟩
      | frame n =>
        obtain ⟨junk', hrec⟩ := ih (fun t ht => h t (.step hnext ht)) junk.tail
        exact ⟨junk', by simp only [hrec]⟩

/-- A length that is computed with as it should be, where `len` octets are to come in all: it fits
into an `int` even when it is checked one read late, or it is too large in a way that is noticed. -/
def LengthFine (n len : Nat) : Prop :=
  if n < 2 ^ 31 then len < 2 ^ 31 ∨ n + RXBUF_LEN ≤ 2 ^ 31
  else n % 2 ^ 32 = 0 ∨ 2 ^ 31 ≤ n % 2 ^ 32 ∨ len < n % 2 ^ 32

/-- The header in front is one `Asn01_parseLength` takes, unless it is not complete. -/
def HeadFine : List UInt8 → Prop
  | tag :: b :: rest =>
    tag = asnSEQUENCE_CONSTRUCTOR → hiBit b = true →
      b.toNat % 128 ≠ 0 ∧ (rest.length < b.toNat % 128 ∨ b.toNat % 128 ≤ 8 ∧
        ∀ n, tlvLength (tag :: b :: rest) = some n → LengthFine n (tag :: b :: rest).length)
  | _ => True

section head

variable {b : UInt8} {rest : List UInt8} (junk : UInt64)

theorem checkPacket_long (hb : hiBit b = true) : checkPacket (asnSEQUENCE_CONSTRUCTOR :: b :: rest) junk =
      if castInt (asnSEQUENCE_CONSTRUCTOR :: b :: rest).length < ((b.toNat % 128 : Nat) : Int) + 2 then 0
      else castInt (((parseLength (b :: rest ++ₛ Stream'.const 0)).length.getD junk.toNat + 2 + b.toNat % 128)) := by
  rw [checkPacket, if_neg (by simp)]
  simp only [if_pos hb, castInt_mod, Int.natCast_mod]

theorem checkPacket_short (hb : hiBit b = false) :
    checkPacket (asnSEQUENCE_CONSTRUCTOR :: b :: rest) junk = ((b.toNat + 2 : Nat) : Int) := by
  rw [checkPacket, if_neg (by simp)]
  simp only [hb, Bool.false_eq_true, if_false]
  rfl

theorem checkPacket_of_tlvLength {n : Nat} (hb : hiBit b = true)
    (h : tlvLength (asnSEQUENCE_CONSTRUCTOR :: b :: rest) = some n) :
    checkPacket (asnSEQUENCE_CONSTRUCTOR :: b :: rest) junk =
      if castInt (asnSEQUENCE_CONSTRUCTOR :: b :: rest).length < ((b.toNat % 128 : Nat) : Int) + 2 then 0
      else castInt n := by
  simp only [tlvLength, if_pos hb, Option.ite_none_left_eq_some, Option.some.injEq] at h
  obtain ⟨hcount, rfl⟩ := h
  have htake : ((b :: rest : List UInt8) ++ₛ Stream'.const 0).tail.take (b.toNat % 128)
      = rest.take (b.toNat % 128) :=
      Stream'.take_append_of_le_length _ rest _ (by omega)
  have hlength : (parseLength (b :: rest ++ₛ Stream'.const 0)).length
      = some (beNat (rest.take (b.toNat % 128))) := by
    simp only [parseLength, show ((b :: rest : List UInt8) ++ₛ Stream'.const 0).head = b from rfl,
      if_pos hb, htake]
    rw [if_neg (by omega), if_neg (by omega)]
    split <;> rfl
  rw [checkPacket_long junk hb, hlength, Option.getD_some]

end head

variable {w : List UInt8}

theorem berNext_of_take {c : List UInt8} (hx : x = w ++ c)
    (hhead : x.head? = some asnSEQUENCE_CONSTRUCTOR) (h : tlvLength x = some n)
    (hw : n < 2 ^ 31 ∧ n ≤ w.length ∨ 2 ^ 31 ≤ n % 2 ^ 32 ∧ 10 ≤ w.length) : berNext w ≠ .wait := by
  have hpos := tlvLength_pos h
  have hlen : tlvLength w = some n := by
    have htake := tlvLength_take h (show n ≤ w.length ∨ 10 ≤ w.length by omega)
    rwa [hx, take_left' rfl] at htake
  match w, hw, hlen with
  | tag :: b :: rest, hw, hlen =>
    rw [hx, cons_append, head?_cons, Option.some.injEq] at hhead
    rw [berNext_cons, if_neg (not_not.mpr hhead), hlen]
    simp only []
    rcases hw with ⟨hlt, hle⟩ | ⟨hmod, -⟩
    · rw [if_pos hlt, if_neg (by omega)]
      simp
    · rw [if_neg (by omega), if_pos hmod]
      simp

theorem codeVerdict_eq {c : List UInt8} (hx : x = w ++ c) (hw : berNext w = .wait)
    (hc : c.length ≤ RXBUF_LEN) {y : List UInt8} (hfine : HeadFine (x ++ y)) (junk : UInt64) :
    codeVerdict (checkPacket x junk) x.length = berNext x := by
  rw [RXBUF_LEN] at hc
  have hlenx := congrArg List.length hx
  rw [length_append] at hlenx
  match x, hx, hlenx, hfine with
  | [], _, _, _ | [_], _, _, _ => rfl
  | tag :: b :: rest, hx, hlenx, hfine =>
    rw [berNext_cons]
    by_cases htag : tag ≠ asnSEQUENCE_CONSTRUCTOR
    · rw [if_pos htag, checkPacket, if_pos htag]
      rfl
    rw [if_neg htag]
    rw [not_not] at htag
    subst htag
    have hhead : (asnSEQUENCE_CONSTRUCTOR :: b :: rest).head? = some asnSEQUENCE_CONSTRUCTOR := rfl
    cases hb : hiBit b with
    | false =>
      have hlt := b.toNat_lt
      have hn : tlvLength (asnSEQUENCE_CONSTRUCTOR :: b :: rest) = some (b.toNat + 2) := by
        simp [tlvLength, hb]
      rw [checkPacket_short junk hb, hn, codeVerdict_natCast (by omega)]
      simp only []
      rw [if_pos (show b.toNat + 2 < 2 ^ 31 by omega)]
    | true =>
      obtain ⟨hcount, hfine⟩ := hfine rfl hb
      have hlt := Nat.mod_lt b.toNat (show 0 < 128 by norm_num)
      cases hn : tlvLength (asnSEQUENCE_CONSTRUCTOR :: b :: rest) with
      | none =>
        -- the header is not complete
        have hshort : rest.length < b.toNat % 128 := by
          simp only [tlvLength, if_pos hb, ite_eq_left_iff, reduceCtorEq, imp_false, not_not] at hn
          rcases hfine with hfine | ⟨hle, -⟩
          · rw [append_eq, length_append] at hfine
            omega
          · omega
        rw [checkPacket_long junk hb, if_pos ?_]
        · rfl
        · rw [castInt_of_lt (by simp only [length_cons]; omega)]
          simp only [length_cons]
          omega
      | some n =>
        have hpos := tlvLength_pos hn
        have hready : b.toNat % 128 ≤ 8 ∧ b.toNat % 128 ≤ rest.length := by
          simp only [tlvLength, if_pos hb, Option.ite_none_left_eq_some] at hn
          omega
        have hlength : LengthFine n (asnSEQUENCE_CONSTRUCTOR :: b :: rest ++ y).length := by
          rcases hfine with hfine | ⟨-, hfine⟩
          · rw [append_eq, length_append] at hfine
            omega
          · exact hfine n (tlvLength_append hn y)
        rw [length_append] at hlength
        rw [checkPacket_of_tlvLength junk hb hn]
        simp only []
        have hrest : (asnSEQUENCE_CONSTRUCTOR :: b :: rest).length = rest.length + 2 := rfl
        have hwait : ¬ (n < 2 ^ 31 ∧ n ≤ w.length ∨ 2 ^ 31 ≤ n % 2 ^ 32 ∧ 10 ≤ w.length) :=
          fun h => berNext_of_take hx hhead hn h hw
        generalize (asnSEQUENCE_CONSTRUCTOR :: b :: rest).length = len at *
        have hint : len < 2 ^ 31 → ¬ castInt len < ((b.toNat % 128 : Nat) : Int) + 2 := by
          intro hlen
          rw [castInt_of_lt hlen]
          omega
        unfold LengthFine at hlength
        by_cases hn31 : n < 2 ^ 31
        · -- so large a buffer would have held the message before this read
          rw [if_pos hn31] at hlength ⊢
          rw [RXBUF_LEN] at hlength
          rw [if_neg (hint (by omega)), castInt_of_lt hn31, codeVerdict_natCast (by omega)]
        · rw [if_neg hn31] at hlength ⊢
          by_cases hbad : 2 ^ 31 ≤ n % 2 ^ 32
          · rw [if_pos hbad, if_neg (hint (by omega)), codeVerdict, if_pos]
            unfold castInt
            rw [if_neg (by omega)]
            omega
          · rw [if_neg hbad]
            have hcast : castInt n = (n % 2 ^ 32 : Nat) := by
              unfold castInt
              rw [if_pos (by omega)]
            by_cases hzero : n % 2 ^ 32 = 0
            · rw [hcast, hzero]
              split <;> rfl
            · rw [if_neg (hint (by omega)), hcast, codeVerdict_natCast (by omega), if_pos (by omega)]

/-! ## a read -/

/-- Every message begins in a way the code can deal with. -/
def Fine (s : List UInt8) : Prop := ∀ t, ber.Boundary s t → HeadFine t

variable {t : List UInt8}

theorem Fine.of_boundary (h : Fine s) (ht : ber.Boundary s t) : Fine t :=
  fun u hu => h u (ht.trans hu)

theorem packetLoop_fine {c y : List UInt8} (hw : ber.next w = .wait) (hc : c.length ≤ RXBUF_LEN)
    (hfine : Fine (w ++ c ++ y)) (junk : Stream' UInt64) : ∃ junk', packetLoop (w ++ c).length junk (w ++ c) =
      ⟨(ber.cut (w ++ c)).frames, (ber.cut (w ++ c)).broken, (ber.cut (w ++ c)).rest, junk'⟩ := by
  refine packetLoop_drain (fun t ht _ junk => ?_) _ junk
  have hhead := hfine _ (ht.append y)
  rcases ht.eq_or_le hw with rfl | hle
  · exact codeVerdict_eq rfl hw hc hhead junk
  · exact codeVerdict_eq (nil_append t).symm rfl (hle.trans hc) hhead junk

/-- A session that is waiting for the rest of the message that begins with `w`. -/
structure Waiting (s : StreamSession) (w : List UInt8) : Prop where
  connected : s.connected = true
  packet : s.packet.getD [] = w
  wait : ber.next w = .wait

theorem sessRead3_fine {s : StreamSession} {c y : List UInt8} (hs : Waiting s w)
    (hc : c.length ≤ RXBUF_LEN) (hfine : Fine (w ++ c ++ y)) : (sessRead3 s c).1 = (ber.cut (w ++ c)).frames ∧
      if (ber.cut (w ++ c)).broken then (sessRead3 s c).2.connected = false
      else Waiting (sessRead3 s c).2 (ber.cut (w ++ c)).rest := by
  obtain ⟨junk', hloop⟩ := packetLoop_fine hs.wait hc hfine s.junk
  have hrest := ber.next_cut_rest (w ++ c)
  have hle := Rule.cut_rest_le (c := c) hs.wait
  unfold sessRead3
  rw [if_neg (not_not.mpr hs.connected), hs.packet]
  simp only [hloop]
  cases hbroken : (ber.cut (w ++ c)).broken with
  | true => exact ⟨rfl, rfl⟩
  | false =>
    rw [hbroken] at hrest
    simp only [Bool.false_eq_true, if_false]
    by_cases hframes : (ber.cut (w ++ c)).frames = []
    · rw [if_pos hframes]
      exact ⟨rfl, hs.connected, rfl, hrest⟩
    · have hlen := hle hframes
      rw [RXBUF_LEN] at hc
      rw [if_neg hframes, if_neg (by rw [MAXIMUM_PACKET_SIZE]; omega)]
      by_cases hnil : (ber.cut (w ++ c)).rest = []
      · rw [if_pos hnil]
        exact ⟨rfl, hs.connected, hnil.symm, hrest⟩
      · rw [if_neg hnil]
        exact ⟨rfl, hs.connected, rfl, hrest⟩

theorem packetLoop_frames_nil {fuel : Nat} {junk : Stream' UInt64} {packet : List UInt8}
    (h : (packetLoop fuel junk packet).frames = []) : (packetLoop fuel junk packet).packet = packet := by
  cases fuel with
  | zero => rfl
  | succ fuel =>
    unfold packetLoop at h ⊢
    simp only [] at h ⊢
    split_ifs at h ⊢
    · rfl
    · rfl
    · rfl

/-- The buffer of a session has no room for a second read behind what is saved. -/
def Tight (s : StreamSession) : Prop :=
  ∀ p, s.packet = some p → s.packetSize < p.length + RXBUF_LEN

theorem Tight.rxbufLen {s : StreamSession} (h : Tight s) : s.rxbufLen = RXBUF_LEN := by
  unfold StreamSession.rxbufLen StreamSession.bufferSize
  cases hp : s.packet with
  | none => rfl
  | some p =>
    simp only [Option.getD_some]
    rw [if_pos (h p hp), Nat.add_sub_cancel_left]

theorem Tight.sessRead3 {s : StreamSession} (h : Tight s) {data : List UInt8} (hdata : data ≠ [])
    (hconn : (sessRead3 s data).2.connected = true) : Tight (sessRead3 s data).2 := by
  have hpos := length_pos_iff.mpr hdata
  have hroom := h.rxbufLen
  have hbuffer : s.bufferSize ≤ (s.packet.getD []).length + RXBUF_LEN := by
    unfold StreamSession.rxbufLen at hroom
    omega
  have hnil := @packetLoop_frames_nil (s.packet.getD [] ++ data).length s.junk (s.packet.getD [] ++ data)
  revert hconn
  unfold Api.sessRead3
  simp only []
  split_ifs with hclosed hdropped hframes hlarge hpacket
  · intro hconn
    cases hconn
  · intro _ p hp
    rw [Option.some.injEq, hnil hframes] at hp
    rw [← hp, length_append]
    show s.bufferSize < _
    omega
  · intro hconn
    cases hconn
  · intro _ p hp
    cases hp
  · intro _ p hp
    rw [Option.some.injEq] at hp
    rw [← hp, RXBUF_LEN]
    show List.length _ < _
    omega
  · exact fun _ => h

/-! ## many reads -/

theorem sessReads_closed {s : StreamSession} (h : s.connected = false) (chunks : List (List UInt8)) :
    sessReads s chunks = ([], s) := by
  induction chunks with
  | nil => rfl
  | cons c cs ih =>
    have hread : sessRead3 s c = ([], s) := by
      unfold sessRead3
      rw [h, if_pos (by simp)]
    simp only [sessReads, hread, ih, append_nil]

theorem rxbufLen_sessReads (junk : Stream' UInt64) {chunks : List (List UInt8)}
    (hne : ∀ c ∈ chunks, c ≠ []) (hconn : (sessReads (.start junk) chunks).2.connected = true) :
    (sessReads (.start junk) chunks).2.rxbufLen = RXBUF_LEN := by
  have hrun : ∀ (chunks : List (List UInt8)) (s : StreamSession), Tight s → (∀ c ∈ chunks, c ≠ []) →
      (sessReads s chunks).2.connected = true → Tight (sessReads s chunks).2 := by
    intro chunks
    induction chunks with
    | nil => exact fun s hs _ _ => hs
    | cons c cs ih =>
      intro s hs hne hconn
      cases hone : (Api.sessRead3 s c).2.connected with
      | true =>
        exact ih _ (hs.sessRead3 (hne c (by simp)) hone) (fun c hm => hne c (by simp [hm])) hconn
      | false =>
        have hclosed : (sessReads s (c :: cs)).2 = (Api.sessRead3 s c).2 := by
          simp only [sessReads, sessReads_closed hone]
        rw [hclosed, hone] at hconn
        cases hconn
  exact (hrun chunks _ (fun p hp => by cases hp) hne hconn).rxbufLen

theorem rxbufLen_sessReads_one :
    (sessReads (.start (Stream'.const 0)) [[0x30, 5, 2], [1, 0]]).2.rxbufLen = RXBUF_LEN :=
  rxbufLen_sessReads (Stream'.const 0) (by simp) (by decide)

theorem sessReads_fine {s : StreamSession} {chunks : List (List UInt8)}
    (hs : Waiting s w) (hc : ∀ c ∈ chunks, c.length ≤ RXBUF_LEN) {y : List UInt8}
    (hfine : Fine (w ++ chunks.flatten ++ y)) : (sessReads s chunks).1 = (ber.cut (w ++ chunks.flatten)).frames ∧
      if (ber.cut (w ++ chunks.flatten)).broken then (sessReads s chunks).2.connected = false
      else Waiting (sessReads s chunks).2 (ber.cut (w ++ chunks.flatten)).rest := by
  induction chunks generalizing s w with
  | nil =>
    rw [flatten_nil, append_nil, Rule.cut_of_wait hs.wait]
    exact ⟨rfl, hs⟩
  | cons c cs ih =>
    rw [flatten_cons, ← append_assoc] at hfine ⊢
    have hone := sessRead3_fine (y := cs.flatten ++ y) hs (hc c (by simp)) (by
      rw [← append_assoc]
      exact hfine)
    obtain ⟨hframes, hstate⟩ := hone
    simp only [sessReads]
    cases hbroken : (ber.cut (w ++ c)).broken with
    | true =>
      rw [hbroken, if_pos rfl] at hstate
      rw [sessReads_closed hstate, hframes, Rule.cut_append_of_broken hbroken]
      exact ⟨append_nil _, hstate⟩
    | false =>
      rw [hbroken, if_neg (by simp)] at hstate
      have hboundary := ber.boundary_rest (w ++ c) (cs.flatten ++ y)
      have hrec := ih hstate (fun c hm => hc c (by simp [hm])) (by
        rw [append_assoc]
        rw [append_assoc] at hfine
        exact hfine.of_boundary hboundary)
      rw [Rule.cut_append hbroken]
      exact ⟨by rw [hframes, hrec.1], hrec.2⟩

/-! ## every way of cutting the stream -/

/-- A way a stream can arrive: no read is empty, and none is longer than the buffer. -/
def Cutting (s : List UInt8) (chunks : List (List UInt8)) : Prop :=
  chunks.flatten = s ∧ ∀ c ∈ chunks, c ≠ [] ∧ c.length ≤ RXBUF_LEN

/-- The length octets of BER: the short form, or the long form with any number of octets but none. -/
inductive BerLength : List UInt8 → Nat → Prop
  | short {b : UInt8} : hiBit b = false → BerLength [b] b.toNat
  | long {b : UInt8} {os : List UInt8} : hiBit b = true → os.length = b.toNat % 128 → os ≠ [] →
    BerLength (b :: os) (beNat os)

/-- A tag, a length and as many octets. -/
def CompleteTlv (f : List UInt8) : Prop :=
  ∃ tag lo content, f = tag :: (lo ++ content) ∧ BerLength lo content.length

/-- What is promised for a stream: the same messages in the same order and the same end of the
connection however it arrives, and every message one encoding that begins where the last one ended. -/
def Reassembles (s : List UInt8) : Prop :=
  ∀ chunks₁ chunks₂ junk₁ junk₂, Cutting s chunks₁ → Cutting s chunks₂ →
    let r₁ := sessReads (.start junk₁) chunks₁
    let r₂ := sessReads (.start junk₂) chunks₂
    r₁.1 = r₂.1 ∧ r₁.2.connected = r₂.2.connected ∧ (∃ rest, s = r₁.1.flatten ++ rest) ∧
      ∀ f ∈ r₁.1, CompleteTlv f

theorem completeTlv_of_tlvLength {f : List UInt8} (h : tlvLength f = some f.length) : CompleteTlv f := by
  match f, h with
  | tag :: b :: rest, h =>
    simp only [tlvLength, length_cons] at h
    split at h
    · next hb =>
      simp only [Option.ite_none_left_eq_some, Option.some.injEq] at h
      obtain ⟨hcount, h⟩ := h
      have htake : (rest.take (b.toNat % 128)).length = b.toNat % 128 := by
        rw [length_take]
        omega
      refine ⟨tag, b :: rest.take (b.toNat % 128), rest.drop (b.toNat % 128), ?_, ?_⟩
      · rw [cons_append, take_append_drop]
      · have hlen : (rest.drop (b.toNat % 128)).length = beNat (rest.take (b.toNat % 128)) := by
          rw [length_drop]
          omega
        rw [hlen]
        refine .long hb htake fun hnil => ?_
        rw [hnil, length_nil] at htake
        omega
    · next hb =>
      rw [Option.some.injEq] at h
      refine ⟨tag, [b], rest, rfl, ?_⟩
      rw [show rest.length = b.toNat by omega]
      exact .short (by simpa using hb)

theorem CompleteTlv.length_eq {b : UInt8} {tag : UInt8} (h : CompleteTlv (tag :: b :: rest)) (hb : hiBit b = true) :
    b.toNat % 128 ≤ rest.length ∧
      (tag :: b :: rest).length = beNat (rest.take (b.toNat % 128)) + 2 + b.toNat % 128 := by
  obtain ⟨_, lo, content, heq, hlen⟩ := h
  rw [List.cons.injEq] at heq
  obtain ⟨rfl, heq⟩ := heq
  generalize hn : content.length = n at hlen
  cases hlen with
  | short hb' =>
    simp only [cons_append, nil_append, List.cons.injEq] at heq
    rw [← heq.1, hb] at hb'
    cases hb'
  | @long _ os _ hos hne =>
    simp only [cons_append, List.cons.injEq] at heq
    obtain ⟨rfl, rfl⟩ := heq
    rw [← hos, take_left' rfl]
    simp only [length_cons, length_append]
    omega

theorem Fine.reassembles (h : Fine s) : Reassembles s := by
  intro chunks₁ chunks₂ junk₁ junk₂ h₁ h₂
  have hstart : ∀ junk, Waiting (.start junk) [] := fun junk => ⟨rfl, rfl, rfl⟩
  have hrun : ∀ chunks junk, Cutting s chunks →
      (sessReads (.start junk) chunks).1 = (ber.cut s).frames ∧
        (sessReads (.start junk) chunks).2.connected = !(ber.cut s).broken := by
    intro chunks junk hc
    have hfine := sessReads_fine (y := []) (hstart junk) (fun c hm => (hc.2 c hm).2) (by
      rw [nil_append, append_nil, hc.1]
      exact h)
    rw [nil_append, hc.1] at hfine
    refine ⟨hfine.1, ?_⟩
    cases hbroken : (ber.cut s).broken with
    | true => simpa [hbroken] using hfine.2
    | false => simpa [hbroken] using (show Waiting _ _ by simpa [hbroken] using hfine.2).connected
  obtain ⟨hframes₁, hconn₁⟩ := hrun chunks₁ junk₁ h₁
  obtain ⟨hframes₂, hconn₂⟩ := hrun chunks₂ junk₂ h₂
  simp only [hframes₁, hframes₂, hconn₁, hconn₂]
  refine ⟨trivial, trivial, ⟨(ber.cut s).rest, (ber.cut_flatten s).symm⟩, fun f hf => ?_⟩
  exact completeTlv_of_tlvLength (berNext_eq_frame.mp (Rule.next_of_mem_frames hf)).2.1

/-! ## headers the code cannot deal with -/

/-- One octet at a time. -/
def singles (s : List UInt8) : List (List UInt8) := s.map fun b => [b]

theorem cutting_singles (s : List UInt8) : Cutting s (singles s) := by
  constructor
  · induction s with
    | nil => rfl
    | cons b s ih => rw [singles, map_cons, flatten_cons, ← singles, ih]; rfl
  · intro c hc
    obtain ⟨b, -, rfl⟩ := mem_map.mp hc
    exact ⟨by simp, by rw [RXBUF_LEN]; norm_num⟩

theorem Cutting.append {cs ds : List (List UInt8)} (h : Cutting s cs)
    (h' : Cutting t ds) : Cutting (s ++ t) (cs ++ ds) := by
  refine ⟨by rw [flatten_append, h.1, h'.1], fun c hc => ?_⟩
  rcases mem_append.mp hc with hc | hc
  · exact h.2 c hc
  · exact h'.2 c hc

theorem sessReads_append (s : StreamSession) (cs ds : List (List UInt8)) : sessReads s (cs ++ ds) =
      ((sessReads s cs).1 ++ (sessReads (sessReads s cs).2 ds).1, (sessReads (sessReads s cs).2 ds).2) := by
  induction cs generalizing s with
  | nil => rfl
  | cons c cs ih => simp only [cons_append, sessReads, ih, append_assoc]

theorem packetLoop_junk (fuel : Nat) (j : UInt64) (packet : List UInt8) :
    (packetLoop fuel (Stream'.const j) packet).junk = Stream'.const j := by
  induction fuel generalizing packet with
  | zero => rfl
  | succ fuel ih =>
    unfold packetLoop
    simp only []
    split_ifs
    · rfl
    · rfl
    · rfl
    · exact ih _

theorem sessReads_junk {s : StreamSession} {j : UInt64} (h : s.junk = Stream'.const j)
    (chunks : List (List UInt8)) : (sessReads s chunks).2.junk = Stream'.const j := by
  induction chunks generalizing s with
  | nil => exact h
  | cons c cs ih =>
    refine ih ?_
    have hjunk := packetLoop_junk (s.packet.getD [] ++ c).length j (s.packet.getD [] ++ c)
    unfold sessRead3
    simp only [h]
    split_ifs
    · exact hjunk
    · exact hjunk
    · exact hjunk
    · exact hjunk
    · exact hjunk
    · exact h

theorem sessRead3_first {s : StreamSession} {c : List UInt8} (hconn : s.connected = true)
    (hw : s.packet.getD [] = w) (hne : w ++ c ≠ []) :
    match codeVerdict (checkPacket (w ++ c) s.junk.head) (w ++ c).length with
    | .wait => (sessRead3 s c).1 = [] ∧ (sessRead3 s c).2.connected = true ∧
        (sessRead3 s c).2.packet.getD [] = w ++ c
    | .bad => (sessRead3 s c).1 = [] ∧ (sessRead3 s c).2.connected = false
    | .frame n => (w ++ c).take n ∈ (sessRead3 s c).1 := by
  obtain ⟨k, hk⟩ : ∃ k, (w ++ c).length = k + 1 :=
    ⟨(w ++ c).length - 1, by have := length_pos_iff.mpr hne; omega⟩
  have hloop := @packetLoop_succ k s.junk (w ++ c) hne
  unfold sessRead3
  rw [if_neg (not_not.mpr hconn), hw]
  simp only [hk]
  cases hverdict : codeVerdict (checkPacket (w ++ c) s.junk.head) (k + 1) with
  | wait =>
    rw [hk, hverdict] at hloop
    simp only [hloop]
    exact ⟨rfl, hconn, rfl⟩
  | bad =>
    rw [hk, hverdict] at hloop
    simp only [hloop]
    exact ⟨rfl, rfl⟩
  | frame n =>
    rw [hk, hverdict] at hloop
    simp only [hloop]
    split_ifs <;> simp

/-- A session that goes on waiting whatever it reads. -/
theorem sessReads_wait {s : StreamSession} {j : UInt64} (hconn : s.connected = true)
    (hw : s.packet.getD [] = w) (hjunk : s.junk = Stream'.const j) {chunks : List (List UInt8)}
    (hne : ∀ c ∈ chunks, c ≠ []) (h : ∀ v z, chunks.flatten = v ++ z → v ≠ [] → checkPacket (w ++ v) j = 0) :
    (sessReads s chunks).1 = [] ∧ (sessReads s chunks).2.connected = true := by
  induction chunks generalizing s w with
  | nil => exact ⟨rfl, hconn⟩
  | cons c cs ih =>
    have hc := hne c (by simp)
    have hfirst := sessRead3_first (c := c) hconn hw (by simp [hc])
    have hhead : s.junk.head = j := by
      rw [hjunk]
      rfl
    rw [hhead, h c cs.flatten (by simp) hc] at hfirst
    obtain ⟨hframes, hconn', hw'⟩ := hfirst
    have hjunk' := sessReads_junk hjunk [c]
    have hrec := ih hconn' hw' hjunk' (fun c hm => hne c (by simp [hm])) (by
      intro v z hv hvne
      rw [append_assoc]
      exact h (c ++ v) z (by rw [flatten_cons, hv, append_assoc]) (by simp [hc]))
    simp only [sessReads]
    rw [hframes, hrec.1]
    exact ⟨rfl, hrec.2⟩

theorem HeadFine.of_append {y : List UInt8} (h : HeadFine (x ++ y)) : HeadFine x := by
  match x, h with
  | [], _ | [_], _ => trivial
  | tag :: b :: rest, h =>
    intro htag hb
    obtain ⟨hcount, hfine⟩ := h htag hb
    refine ⟨hcount, ?_⟩
    rw [append_eq, length_append] at hfine
    rcases hfine with hshort | ⟨hle, hlength⟩
    · exact .inl (by omega)
    · refine .inr ⟨hle, fun n hn => ?_⟩
      have hfine := hlength n (tlvLength_append hn y)
      unfold LengthFine at hfine ⊢
      simp only [length_cons, length_append] at hfine ⊢
      split at hfine
      · next hlt =>
        rw [if_pos hlt]
        omega
      · next hlt =>
        rw [if_neg hlt]
        omega

theorem exists_first_unfine (ht : ber.Boundary s t) (hbad : ¬ HeadFine t) :
    ∃ x t, s = x ++ t ∧ ¬ HeadFine t ∧
      (∀ t', ber.cut (x ++ t') = { ber.cut t' with frames := (ber.cut x).frames ++ (ber.cut t').frames }) ∧
      ∀ t', Fine t' → ∀ y, t = t' ++ y → Fine (x ++ t') := by
  induction ht with
  | refl =>
    refine ⟨[], _, rfl, hbad, fun t' => ?_, fun t' hfine _ _ => hfine⟩
    rw [Rule.cut_of_wait ber.next_nil]
    rfl
  | @step s _ n hnext _ ih =>
    by_cases hhead : HeadFine s
    · obtain ⟨x, t, hs, hbad, hcut, hfine⟩ := ih hbad
      have hle := ber.frame_le hnext
      have hlen : (s.take n).length = n := by rw [length_take, Nat.min_eq_left hle]
      have hframes := fun y => Rule.cut_take_append (y := y) hnext
      have hsplit : s = s.take n ++ x ++ t := by rw [append_assoc, ← hs, take_append_drop]
      refine ⟨s.take n ++ x, t, hsplit, hbad, fun t' => ?_, fun t' ht' y hy u hu => ?_⟩
      · rw [append_assoc, hframes, hframes, hcut t']
        rfl
      · cases hu with
        | refl =>
          rw [hsplit, hy, ← append_assoc] at hhead
          exact hhead.of_append
        | step hnext' hrest =>
          rw [append_assoc, Rule.next_take_append hnext] at hnext'
          cases hnext'
          rw [append_assoc, drop_left' hlen] at hrest
          exact hfine t' ht' y hy u hrest
    · refine ⟨[], s, rfl, hhead, fun t' => ?_, fun t' hfine _ _ => hfine⟩
      rw [Rule.cut_of_wait ber.next_nil]
      rfl

theorem fine_of_wait (hhead : HeadFine t) (hwait : ber.next t = .wait) : Fine t := by
  intro u hu
  cases hu with
  | refl => exact hhead
  | step hnext _ =>
    rw [hwait] at hnext
    cases hnext

theorem sessReads_upto (hcut : ∀ t', ber.cut (x ++ t') =
      { ber.cut t' with frames := (ber.cut x).frames ++ (ber.cut t').frames })
    (hfine : Fine (x ++ t)) (hwait : ber.next t = .wait) (j : UInt64) :
    let r := sessReads (.start (Stream'.const j)) (singles (x ++ t))
    r.1 = (ber.cut x).frames ∧ Waiting r.2 t ∧ r.2.junk = Stream'.const j := by
  have hc := cutting_singles (x ++ t)
  have hstart : Waiting (.start (Stream'.const j)) [] := ⟨rfl, rfl, rfl⟩
  have hrun := sessReads_fine (y := []) hstart (fun c hm => (hc.2 c hm).2) (by
    rw [nil_append, append_nil, hc.1]
    exact hfine)
  rw [nil_append, hc.1, hcut t, Rule.cut_of_wait hwait] at hrun
  simp only [append_nil, Bool.false_eq_true, if_false] at hrun
  exact ⟨hrun.1, hrun.2, sessReads_junk rfl _⟩

/-- What the code takes for a message is one only if it is as long as its header says. -/
theorem not_completeTlv_take {b : UInt8} {r : Nat} (hb : hiBit b = true)
    (hn : tlvLength (asnSEQUENCE_CONSTRUCTOR :: b :: rest) = some n) (hr : r < n) :
    ¬ CompleteTlv ((asnSEQUENCE_CONSTRUCTOR :: b :: rest).take r) := by
  intro h
  simp only [tlvLength, if_pos hb, Option.ite_none_left_eq_some, Option.some.injEq] at hn
  obtain ⟨hcount, rfl⟩ := hn
  match r, h with
  | 0, h =>
    obtain ⟨_, _, _, heq, -⟩ := h
    cases heq
  | 1, h =>
    obtain ⟨_, lo, content, heq, hlen⟩ := h
    simp only [take_succ_cons, take_zero, List.cons.injEq, nil_eq,
      append_eq_nil_iff] at heq
    obtain ⟨-, rfl, rfl⟩ := heq
    cases hlen
  | r + 2, h =>
    simp only [take_succ_cons] at h
    obtain ⟨hle, hlength⟩ := h.length_eq hb
    rw [length_take] at hle
    rw [take_take, Nat.min_eq_left (by omega)] at hlength
    simp only [length_cons, length_take] at hlength
    omega

theorem take_drop_split {i k : Nat} (h : i + k ≤ t.length) (hk : 0 < k) :
    t = t.take i ++ (t.drop i).take k ++ t.drop (i + k) ∧ t.take i ++ (t.drop i).take k = t.take (i + k) ∧
      (t.drop i).take k ≠ [] ∧ ((t.drop i).take k).length = k := by
  have htake : t.take i ++ (t.drop i).take k = t.take (i + k) := (take_add ..).symm
  have hlen : ((t.drop i).take k).length = k := by
    rw [length_take, length_drop]
    omega
  refine ⟨by rw [htake, take_append_drop], htake, fun hnil => ?_, hlen⟩
  rw [hnil, length_nil] at hlen
  omega

theorem sessReads_place {i k : Nat} {j : UInt64} (h : i + k ≤ t.length) (hk : 0 < k)
    (hle : k ≤ RXBUF_LEN) (hcut : ∀ t', ber.cut (x ++ t') =
      { ber.cut t' with frames := (ber.cut x).frames ++ (ber.cut t').frames })
    (hfine : Fine (x ++ t.take i)) (hwait : ber.next (t.take i) = .wait) :
    let chunks := singles (x ++ t.take i) ++ ((t.drop i).take k :: singles (t.drop (i + k)))
    Cutting (x ++ t) chunks ∧
      match codeVerdict (checkPacket (t.take (i + k)) j) (i + k) with
      | .bad => (sessReads (.start (Stream'.const j)) chunks).2.connected = false
      | .frame r => (t.take (i + k)).take r ∈ (sessReads (.start (Stream'.const j)) chunks).1
      | .wait => (∀ m, i + k < m → m ≤ t.length → checkPacket (t.take m) j = 0) →
          (sessReads (.start (Stream'.const j)) chunks).1 = (ber.cut x).frames ∧
            (sessReads (.start (Stream'.const j)) chunks).2.connected = true := by
  obtain ⟨hsplit, htake, hne, hlen⟩ := take_drop_split h hk
  obtain ⟨hframes, hstate, hjunk⟩ := sessReads_upto hcut hfine hwait j
  have hfirst := sessRead3_first (c := (t.drop i).take k) hstate.connected hstate.packet (by simp [hne])
  have hhead : (sessReads (.start (Stream'.const j)) (singles (x ++ t.take i))).2.junk.head = j := by
    rw [hjunk]
    rfl
  have hlenTake : (t.take (i + k)).length = i + k := by
    rw [length_take]
    omega
  rw [hhead, htake, hlenTake] at hfirst
  refine ⟨?_, ?_⟩
  · have hone : Cutting ((t.drop i).take k) [(t.drop i).take k] := by
      refine ⟨by simp, fun c hc => ?_⟩
      rw [mem_singleton.mp hc]
      exact ⟨hne, hlen.le.trans hle⟩
    have hall := (cutting_singles (x ++ t.take i)).append (hone.append (cutting_singles (t.drop (i + k))))
    rw [← append_assoc, append_assoc x, append_assoc x, ← hsplit] at hall
    exact hall
  · rw [sessReads_append]
    simp only [sessReads, hframes]
    cases hverdict : codeVerdict (checkPacket (t.take (i + k)) j) (i + k) with
    | bad =>
      rw [hverdict] at hfirst
      simp only [sessReads_closed hfirst.2]
      exact hfirst.2
    | frame r =>
      rw [hverdict] at hfirst
      exact mem_append_right _ (mem_append_left _ hfirst)
    | wait =>
      rw [hverdict] at hfirst
      intro hzero
      obtain ⟨hnone, hconn, hpacket⟩ := hfirst
      have hjunk' := sessReads_junk hjunk [(t.drop i).take k]
      have hrest := sessReads_wait hconn hpacket hjunk'
        (fun c hm => ((cutting_singles (t.drop (i + k))).2 c hm).1) (by
          intro v z hv hvne
          have hpos := length_pos_iff.mpr hvne
          rw [(cutting_singles _).1] at hv
          have heq : t.take (i + k + v.length) = t.take (i + k) ++ (t.drop (i + k)).take v.length :=
            take_add ..
          rw [hv, take_left' rfl] at heq
          have hvlen := congrArg List.length hv
          rw [length_drop, length_append] at hvlen
          rw [← heq]
          exact hzero _ (by omega) (by omega))
      rw [hnone, hrest.1]
      exact ⟨by simp, hrest.2⟩

theorem checkPacket_junk {b : UInt8} (hb : hiBit b = true)
    (hcount : b.toNat % 128 = 0 ∨ 8 < b.toNat % 128) (j : UInt64) :
    checkPacket (asnSEQUENCE_CONSTRUCTOR :: b :: rest) j =
      if castInt (asnSEQUENCE_CONSTRUCTOR :: b :: rest).length < ((b.toNat % 128 : Nat) : Int) + 2 then 0
      else castInt (j.toNat + 2 + b.toNat % 128) := by
  have hlength : (parseLength (b :: rest ++ₛ Stream'.const 0)).length = none := by
    simp only [parseLength, show ((b :: rest : List UInt8) ++ₛ Stream'.const 0).head = b from rfl, if_pos hb]
    rcases hcount with hzero | hmany
    · rw [if_pos hzero]
    · rw [if_neg (by omega), if_pos hmany]
  rw [checkPacket_long j hb, hlength, Option.getD_none]

theorem not_headFine (h : ¬ HeadFine t) :
    ∃ b rest, t = asnSEQUENCE_CONSTRUCTOR :: b :: rest ∧ hiBit b = true ∧ b.toNat % 128 ≤ rest.length ∧
      ((b.toNat % 128 = 0 ∨ 8 < b.toNat % 128) ∨
        ∃ n, tlvLength t = some n ∧ b.toNat % 128 ≤ 8 ∧ ¬ LengthFine n t.length) := by
  match t, h with
  | [], h | [_], h => exact absurd trivial h
  | tag :: b :: rest, h =>
    simp only [HeadFine, Classical.not_imp, not_and_or, not_or, not_forall] at h
    obtain ⟨rfl, hb, h⟩ := h
    refine ⟨b, rest, rfl, hb, ?_⟩
    rcases h with hzero | ⟨hlen, h⟩
    · rw [ne_eq, not_not] at hzero
      exact ⟨by omega, .inl (.inl hzero)⟩
    · refine ⟨by omega, ?_⟩
      rcases h with hmany | ⟨n, hn, hfine⟩
      · exact .inl (.inr (by omega))
      · by_cases hmany : 8 < b.toNat % 128
        · exact .inl (.inr hmany)
        · exact .inr ⟨n, hn, by omega, hfine⟩

theorem wait_of_header {b : UInt8} (hb : hiBit b = true) {i : Nat}
    (hi : i < b.toNat % 128 + 2) (hi' : b.toNat % 128 ≠ 0 ∨ i < 2) :
    HeadFine ((asnSEQUENCE_CONSTRUCTOR :: b :: rest).take i) ∧
      ber.next ((asnSEQUENCE_CONSTRUCTOR :: b :: rest).take i) = .wait := by
  match i, hi, hi' with
  | 0, _, _ | 1, _, _ => exact ⟨trivial, rfl⟩
  | i + 2, hi, hi' =>
    simp only [take_succ_cons]
    have hlen : (rest.take i).length < b.toNat % 128 := by
      rw [length_take]
      omega
    refine ⟨fun _ _ => ⟨by omega, .inl hlen⟩, ?_⟩
    show berNext (asnSEQUENCE_CONSTRUCTOR :: b :: rest.take i) = .wait
    rw [berNext_cons, if_neg (by simp)]
    simp only [tlvLength, if_pos hb]
    rw [if_pos (by omega)]

section unfine

variable {x : List UInt8} {b : UInt8} {rest : List UInt8}
  (hr : Reassembles (x ++ asnSEQUENCE_CONSTRUCTOR :: b :: rest))
  (hcut : ∀ t', ber.cut (x ++ t') =
    { ber.cut t' with frames := (ber.cut x).frames ++ (ber.cut t').frames })
  (hfine : ∀ t', Fine t' → ∀ y, asnSEQUENCE_CONSTRUCTOR :: b :: rest = t' ++ y → Fine (x ++ t'))
  (hb : hiBit b = true)

include hr hcut hfine hb

theorem false_of_junk (hlen : b.toNat % 128 ≤ rest.length) (hcount : b.toNat % 128 = 0 ∨ 8 < b.toNat % 128) : False := by
  have hlt := Nat.mod_lt b.toNat (show 0 < 128 by norm_num)
  set t := asnSEQUENCE_CONSTRUCTOR :: b :: rest with ht
  have htlen : t.length = rest.length + 2 := rfl
  obtain ⟨hhead, hwait⟩ : HeadFine (t.take (b.toNat % 128 + 1)) ∧
      ber.next (t.take (b.toNat % 128 + 1)) = .wait := wait_of_header hb (by omega) (by omega)
  have hx := hfine _ (fine_of_wait hhead hwait) _ (take_append_drop _ t).symm
  have hplace := fun j => sessReads_place (j := j) (show b.toNat % 128 + 1 + 1 ≤ t.length by omega)
    (by norm_num) (by rw [RXBUF_LEN]; norm_num) hcut hx hwait
  have hcheck : ∀ j m, b.toNat % 128 + 2 ≤ m → m ≤ t.length → checkPacket (t.take m) j =
      if castInt m < ((b.toNat % 128 : Nat) : Int) + 2 then 0 else castInt (j.toNat + 2 + b.toNat % 128) := by
    intro j m hm hmt
    obtain ⟨k, rfl⟩ : ∃ k, m = k + 2 := ⟨m - 2, by omega⟩
    have hl : (t.take (k + 2)).length = k + 2 := by
      rw [length_take]
      omega
    simp only [ht, take_succ_cons] at hl ⊢
    rw [checkPacket_junk hb hcount j, hl]
  have hcast : castInt (b.toNat % 128 + 2) = ((b.toNat % 128 : Nat) : Int) + 2 := by
    rw [castInt_of_lt (by omega)]
    rfl
  obtain ⟨hcutting, hdrop⟩ := hplace (UInt64.ofNat (2 ^ 64 - 3 - b.toNat % 128))
  obtain ⟨-, hkeep⟩ := hplace (UInt64.ofNat (2 ^ 64 - 2 - b.toNat % 128))
  have hj₁ : (UInt64.ofNat (2 ^ 64 - 3 - b.toNat % 128)).toNat + 2 + b.toNat % 128 = 2 ^ 64 - 1 := by
    rw [UInt64.toNat_ofNat_of_lt' (by rw [UInt64.size]; omega)]
    omega
  have hj₂ : (UInt64.ofNat (2 ^ 64 - 2 - b.toNat % 128)).toNat + 2 + b.toNat % 128 = 2 ^ 64 := by
    rw [UInt64.toNat_ofNat_of_lt' (by rw [UInt64.size]; omega)]
    omega
  rw [hcheck _ _ (by omega) (by omega), hcast, if_neg (by omega), hj₁] at hdrop
  rw [hcheck _ _ (by omega) (by omega), hcast, if_neg (by omega), hj₂] at hkeep
  have hsame := (hr _ _ (Stream'.const (UInt64.ofNat (2 ^ 64 - 3 - b.toNat % 128)))
    (Stream'.const (UInt64.ofNat (2 ^ 64 - 2 - b.toNat % 128))) hcutting hcutting).2.1
  have hconn := (hkeep fun m hm hmt => by
    rw [hcheck _ m (by omega) hmt, hj₂]
    split <;> rfl).2
  rw [hconn, show _ = false from hdrop] at hsame
  cases hsame

theorem false_of_wrap (hlen : b.toNat % 128 ≤ rest.length) {n : Nat}
    (hn : tlvLength (asnSEQUENCE_CONSTRUCTOR :: b :: rest) = some n)
    (hlarge : 2 ^ 31 ≤ n) (hpos : 0 < n % 2 ^ 32) (hlow : n % 2 ^ 32 < 2 ^ 31)
    (hcome : n % 2 ^ 32 ≤ rest.length + 2) : False := by
  have hlt := Nat.mod_lt b.toNat (show 0 < 128 by norm_num)
  set t := asnSEQUENCE_CONSTRUCTOR :: b :: rest with ht
  have htlen : t.length = rest.length + 2 := rfl
  obtain ⟨m, hm⟩ : ∃ m, max (n % 2 ^ 32) (b.toNat % 128 + 2) = m + 1 :=
    ⟨max (n % 2 ^ 32) (b.toNat % 128 + 2) - 1, by omega⟩
  have hstart : HeadFine (t.take m) ∧ ber.next (t.take m) = .wait := by
    by_cases hheader : m < b.toNat % 128 + 2
    · refine wait_of_header hb hheader (.inl fun hzero => ?_)
      simp only [ht, tlvLength, if_pos hb, hzero, true_or, if_true] at hn
      cases hn
    · obtain ⟨k, rfl⟩ : ∃ k, m = k + 2 := ⟨m - 2, by omega⟩
      have hnk := tlvLength_take_header hb (show b.toNat % 128 ≤ k by omega) hn
      have hl : (t.take (k + 2)).length = k + 2 := by
        rw [length_take]
        omega
      simp only [ht, take_succ_cons] at hl ⊢
      constructor
      · intro _ _
        simp only [tlvLength, if_pos hb, Option.ite_none_left_eq_some, not_or] at hnk
        refine ⟨hnk.1.1, .inr ⟨by omega, fun n' hn' => ?_⟩⟩
        rw [tlvLength_take_header hb (show b.toNat % 128 ≤ k by omega) hn, Option.some.injEq] at hn'
        subst hn'
        unfold LengthFine
        rw [if_neg (by omega), hl]
        omega
      · show berNext (asnSEQUENCE_CONSTRUCTOR :: b :: rest.take k) = .wait
        rw [berNext_cons, if_neg (by simp), hnk]
        simp only []
        rw [if_neg (by omega), if_neg (by omega)]
  have hx := hfine _ (fine_of_wait hstart.1 hstart.2) _ (take_append_drop _ t).symm
  obtain ⟨hcutting, hframe⟩ := sessReads_place (j := 0) (show m + 1 ≤ t.length by omega)
    (by norm_num) (by rw [RXBUF_LEN]; norm_num) hcut hx hstart.2
  have hcheck : checkPacket (t.take (m + 1)) 0 = (n % 2 ^ 32 : Nat) := by
    obtain ⟨k, rfl⟩ : ∃ k, m = k + 1 := ⟨m - 1, by omega⟩
    have hnk := tlvLength_take_header hb (show b.toNat % 128 ≤ k by omega) hn
    have hl : (t.take (k + 2)).length = k + 2 := by
      rw [length_take]
      omega
    simp only [ht, take_succ_cons] at hl ⊢
    rw [checkPacket_of_tlvLength 0 hb hnk, hl, castInt_of_lt (by omega), if_neg (by omega)]
    unfold castInt
    rw [if_pos hlow]
  rw [hcheck, codeVerdict_natCast hpos, if_neg (by omega)] at hframe
  have htlv := (hr _ _ (Stream'.const 0) (Stream'.const 0) hcutting hcutting).2.2.2 _ hframe
  rw [take_take, Nat.min_eq_left (by omega)] at htlv
  exact not_completeTlv_take hb hn (by omega) htlv

theorem false_of_late {n : Nat} (hn : tlvLength (asnSEQUENCE_CONSTRUCTOR :: b :: rest) = some n)
    (hlt : n < 2 ^ 31) (hlate : 2 ^ 31 < n + RXBUF_LEN) (hcome : 2 ^ 31 ≤ rest.length + 2)
    (hmax : rest.length + 2 < 2 ^ 32) : False := by
  rw [RXBUF_LEN] at hlate
  have hcount := Nat.mod_lt b.toNat (show 0 < 128 by norm_num)
  set t := asnSEQUENCE_CONSTRUCTOR :: b :: rest with ht
  have htlen : t.length = rest.length + 2 := rfl
  obtain ⟨k, rfl⟩ : ∃ k, n = k + 3 := ⟨n - 3, by omega⟩
  have htake : ∀ m, k ≤ m → tlvLength (t.take (m + 2)) = some (k + 3) := fun m hm =>
    tlvLength_take_header hb (by omega) hn
  have hlenTake : ∀ m, m ≤ t.length → (t.take m).length = m := by
    intro m hm
    rw [length_take]
    omega
  have hheadFine : ∀ m, k ≤ m → m + 2 < 2 ^ 31 → HeadFine (t.take (m + 2)) := by
    intro m hm hm31
    have hl := hlenTake (m + 2) (by omega)
    have hlength := htake m hm
    simp only [ht, take_succ_cons] at hl hlength ⊢
    intro _ _
    have hready := hlength
    simp only [tlvLength, if_pos hb, Option.ite_none_left_eq_some, not_or] at hready
    refine ⟨hready.1.1, .inr ⟨by omega, fun n' hn' => ?_⟩⟩
    rw [hlength, Option.some.injEq] at hn'
    subst hn'
    unfold LengthFine
    rw [if_pos hlt, hl]
    omega
  -- one octet after the other: the message is handed over
  have hnext : ber.next (t.take (k + 3)) = .frame (k + 3) :=
    berNext_eq_frame.mpr ⟨rfl, htake (k + 1) (by omega), hlt, by rw [hlenTake _ (by omega)]⟩
  have hfineA : Fine (t.take (k + 3)) := by
    intro u hu
    cases hu with
    | refl => exact hheadFine (k + 1) (by omega) (by omega)
    | step hnext' hrest =>
      rw [hnext] at hnext'
      cases hnext'
      rw [drop_of_length_le (by rw [hlenTake _ (by omega)])] at hrest
      cases hrest with
      | refl => trivial
      | step hnil _ => cases hnil
  have hA := hfine _ hfineA _ (take_append_drop _ t).symm
  have hcA := cutting_singles (x ++ t.take (k + 3))
  have hrunA := (sessReads_fine (s := .start (Stream'.const 0)) (w := []) (y := []) ⟨rfl, rfl, rfl⟩
    (fun c hm => (hcA.2 c hm).2) (by
      rw [nil_append, append_nil, hcA.1]
      exact hA)).1
  rw [nil_append, hcA.1, hcut, Rule.cut_of_frame hnext] at hrunA
  have hallA : Cutting (x ++ t) (singles (x ++ t.take (k + 3)) ++ singles (t.drop (k + 3))) := by
    have hall := hcA.append (cutting_singles (t.drop (k + 3)))
    rwa [append_assoc, take_append_drop] at hall
  -- one octet after the other up to the last one but one, and then a long read
  have hhead := hheadFine k (le_refl k) (by omega)
  have hwait : ber.next (t.take (k + 2)) = .wait := by
    have hl := hlenTake (k + 2) (by omega)
    have hlength := htake k (le_refl k)
    simp only [ht, take_succ_cons] at hl hlength ⊢
    show berNext (asnSEQUENCE_CONSTRUCTOR :: b :: rest.take k) = .wait
    rw [berNext_cons, if_neg (by simp), hlength]
    simp only []
    rw [if_pos hlt, hl, if_pos (by omega)]
  have hx := hfine _ (fine_of_wait hhead hwait) _ (take_append_drop _ t).symm
  obtain ⟨hallB, hrunB⟩ := sessReads_place (j := 0) (show k + 2 + (2 ^ 31 - (k + 2)) ≤ t.length by omega)
    (by omega) (by rw [RXBUF_LEN]; omega) hcut hx hwait
  have hzero : ∀ m, 2 ^ 31 ≤ m → m ≤ t.length → checkPacket (t.take m) 0 = 0 := by
    intro m hm hmt
    obtain ⟨i, rfl⟩ : ∃ i, m = i + 2 := ⟨m - 2, by omega⟩
    have hl := hlenTake (i + 2) hmt
    simp only [ht, take_succ_cons] at hl ⊢
    rw [checkPacket_long 0 hb, hl, if_pos]
    unfold castInt
    rw [if_neg (by omega)]
    omega
  rw [hzero _ (by omega) (by omega)] at hrunB
  obtain ⟨hframesB, -⟩ := hrunB fun m hm hmt => hzero m (by omega) hmt
  have hsame := (hr _ _ (Stream'.const 0) (Stream'.const 0) hallA hallB).1
  rw [hframesB, sessReads_append, hrunA] at hsame
  have hlenFrames := congrArg List.length hsame
  simp only [length_append, length_cons] at hlenFrames
  omega

end unfine

/-! ## the read loop reassembles -/

/-- A stream whose messages all begin well is cut into its messages however it arrives. Of the streams
of less than `2 ^ 32` octets no other is. -/
theorem sessReads_reassembles (s : List UInt8) :
    (Fine s → Reassembles s) ∧ (s.length < 2 ^ 32 → Reassembles s → Fine s) := by
  refine ⟨Fine.reassembles, fun hmax hr => ?_⟩
  by_contra hfine
  obtain ⟨t, ht, hbad⟩ : ∃ t, ber.Boundary s t ∧ ¬ HeadFine t := by
    by_contra hall
    exact hfine fun t ht => by_contra fun hbad => hall ⟨t, ht, hbad⟩
  obtain ⟨x, t, rfl, hbad, hcut, hfine⟩ := exists_first_unfine ht hbad
  obtain ⟨b, rest, rfl, hb, hlen, hcases⟩ := not_headFine hbad
  rw [length_append, length_cons, length_cons] at hmax
  rcases hcases with hcount | ⟨n, hn, hcount, hlength⟩
  · exact false_of_junk hr hcut hfine hb hlen hcount
  · unfold LengthFine at hlength
    simp only [length_cons] at hlength
    by_cases hlt : n < 2 ^ 31
    · rw [if_pos hlt] at hlength
      exact false_of_late hr hcut hfine hb hn hlt (by omega) (by omega) (by omega)
    · rw [if_neg hlt] at hlength
      exact false_of_wrap hr hcut hfine hb hlen hn (by omega) (by omega) (by omega) (by omega)

/-- A header that announces `2 ^ 32` octets is handed over as a message of seven octets, and one of
indefinite length is dropped or waited for by chance. -/
theorem sessReads_not_reassembles :
    ¬ Reassembles [0x30, 0x85, 0x01, 0x00, 0x00, 0x00, 0x00] ∧ ¬ Reassembles [0x30, 0x80] := by
  constructor
  · intro h
    have hcutting : Cutting [0x30, 0x85, 0x01, 0x00, 0x00, 0x00, 0x00]
        [[0x30, 0x85, 0x01, 0x00, 0x00, 0x00, 0x00]] := ⟨rfl, by simp [RXBUF_LEN]⟩
    have htlv := (h _ _ (Stream'.const 0) (Stream'.const 0) hcutting hcutting).2.2.2
      [0x30, 0x85, 0x01, 0x00, 0x00, 0x00, 0x00] (by decide +kernel)
    have hlen := (htlv.length_eq (by decide)).2
    revert hlen
    decide
  · intro h
    have hcutting : Cutting [0x30, 0x80] [[0x30, 0x80]] := ⟨rfl, by simp [RXBUF_LEN]⟩
    have hsame := (h _ _ (Stream'.const 0xfffffffffffffffd) (Stream'.const 0xfffffffffffffffe) hcutting
      hcutting).2.1
    revert hsame
    decide +kernel

end Priot.Api
