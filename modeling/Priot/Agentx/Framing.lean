/-
# Cutting an AgentX stream into messages

The header of a message says how long its payload is, and the session follows it as long as the length of both can be
written with 32 bits. Where it cannot, what is left of the sum is taken.
-/
import Priot.Agentx.RoundTrip
import Priot.Api.Reassembly
import Priot.Lib.Outcome

namespace Priot.Agentx

open Framing List Api Octets

variable {x y w c : List UInt8} {n : Nat} {junk : Stream' UInt64} {s : StreamSession}

/-! ## the rule -/

/-- A message is the header and as much payload as it announces. -/
def agentxNext (packet : List UInt8) : Verdict :=
  if packet.length < 20 then .wait
  else if payloadLength packet + 20 > MAX_PACKET_LENGTH then .bad
  else if packet.length < payloadLength packet + 20 then .wait
  else .frame (payloadLength packet + 20)

theorem payloadLength_append (h : 20 ≤ x.length) (y : List UInt8) : payloadLength (x ++ y) = payloadLength x := by
  unfold payloadLength parseUInt
  have hflags : (x ++ y).getD 2 0 = x.getD 2 0 := by
    rw [getD_eq_getElem?_getD, getD_eq_getElem?_getD, getElem?_append_left (by omega)]
  have htake : ((x ++ y).drop 16).take 4 = (x.drop 16).take 4 := by
    rw [drop_append_of_le_length (by omega), take_append_of_le_length]
    rw [length_drop]
    omega
  rw [hflags, htake]

theorem payloadLength_take (h : 20 ≤ n) (hx : n ≤ x.length) : payloadLength (x.take n) = payloadLength x := by
  have hlen : 20 ≤ (x.take n).length := by
    rw [length_take]
    omega
  rw [← payloadLength_append hlen (x.drop n), take_append_drop]

theorem payloadLength_lt (x : List UInt8) : payloadLength x < 2 ^ 32 := by
  have hle : ∀ l : List UInt8, l.length ≤ 4 → beNat l < 2 ^ 32 :=
    fun l hl => beNat_lt_of_length hl (by norm_num)
  unfold payloadLength parseUInt
  apply hle
  split
  · exact length_take_le 4 _
  · rw [length_reverse]
    exact length_take_le 4 _

theorem agentxNext_eq_frame : agentxNext x = .frame n ↔
    20 ≤ x.length ∧ n = payloadLength x + 20 ∧ n ≤ MAX_PACKET_LENGTH ∧ n ≤ x.length := by
  unfold agentxNext
  by_cases hshort : x.length < 20
  · rw [if_pos hshort]
    exact iff_of_false (fun h => nomatch h) fun h => by omega
  · rw [if_neg hshort]
    by_cases hlong : payloadLength x + 20 > MAX_PACKET_LENGTH
    · rw [if_pos hlong]
      exact iff_of_false (fun h => nomatch h) fun h => by omega
    · rw [if_neg hlong]
      by_cases hwait : x.length < payloadLength x + 20
      · rw [if_pos hwait]
        exact iff_of_false (fun h => nomatch h) fun h => by omega
      · rw [if_neg hwait, Verdict.frame.injEq]
        constructor
        · rintro rfl
          omega
        · exact fun h => h.2.1.symm

theorem agentxNext_eq_bad : agentxNext x = .bad ↔ 20 ≤ x.length ∧ payloadLength x + 20 > MAX_PACKET_LENGTH := by
  unfold agentxNext
  by_cases hshort : x.length < 20
  · rw [if_pos hshort]
    exact iff_of_false (fun h => nomatch h) fun h => by omega
  · rw [if_neg hshort]
    by_cases hlong : payloadLength x + 20 > MAX_PACKET_LENGTH
    · rw [if_pos hlong]
      exact iff_of_true rfl ⟨by omega, hlong⟩
    · rw [if_neg hlong]
      refine iff_of_false (fun h => ?_) fun h => hlong h.2
      split at h <;> exact nomatch h

theorem agentxNext_stable (x y : List UInt8) (h : agentxNext x ≠ .wait) : agentxNext (x ++ y) = agentxNext x := by
  cases hx : agentxNext x with
  | wait => exact absurd hx h
  | bad =>
    obtain ⟨hlen, hlong⟩ := agentxNext_eq_bad.mp hx
    exact agentxNext_eq_bad.mpr ⟨by rw [length_append]; omega, by rwa [payloadLength_append hlen]⟩
  | frame n =>
    obtain ⟨hlen, hn, hmax, hle⟩ := agentxNext_eq_frame.mp hx
    exact agentxNext_eq_frame.mpr ⟨by rw [length_append]; omega, by rw [payloadLength_append hlen, hn], hmax,
      by rw [length_append]; omega⟩

def agentx : Rule UInt8 where
  next := agentxNext
  next_nil := rfl
  stable := agentxNext_stable
  frame_pos := fun h => by
    obtain ⟨-, hn, -, -⟩ := agentxNext_eq_frame.mp h
    omega
  frame_le := fun h => (agentxNext_eq_frame.mp h).2.2.2
  frame_take := fun {x n} h => by
    obtain ⟨hlen, hn, hmax, hle⟩ := agentxNext_eq_frame.mp h
    have hl : (x.take n).length = n := by rw [List.length_take, Nat.min_eq_left hle]
    exact agentxNext_eq_frame.mpr ⟨by omega, by rw [payloadLength_take (by omega) hle, hn], hmax, by omega⟩

/-! ## the rule and the code -/

/-- The header and the payload that it announces have a length of more than 32 bits. -/
def Wraps (packet : List UInt8) : Prop := 20 ≤ packet.length ∧ 2 ^ 32 ≤ payloadLength packet + 20

theorem Wraps.bad (h : Wraps x) : agentx.next x = .bad :=
  agentxNext_eq_bad.mpr ⟨h.1, by rw [MAX_PACKET_LENGTH]; have := h.2; omega⟩

theorem Wraps.append_iff (h : 20 ≤ x.length) : Wraps (x ++ y) ↔ Wraps x := by
  unfold Wraps
  rw [payloadLength_append h, length_append]
  exact and_congr_left fun _ => ⟨fun _ => h, fun _ => by omega⟩

theorem Wraps.checkPacket (h : Wraps x) : checkPacket x = (payloadLength x + 20 - 2 ^ 32 : Nat) := by
  have hlt := payloadLength_lt x
  obtain ⟨hlen, hwrap⟩ := h
  rw [Agentx.checkPacket, if_neg (by omega)]
  unfold castInt
  rw [if_pos (by omega)]
  omega

theorem checkPacket_bounds (x : List UInt8) : -2 ^ 31 ≤ checkPacket x ∧ checkPacket x < 2 ^ 31 := by
  unfold checkPacket
  split
  · norm_num
  · exact castInt_bounds _

theorem codeVerdict_eq (h : ¬ Wraps x) : codeVerdict (checkPacket x) x.length = agentx.next x := by
  show _ = agentxNext x
  unfold checkPacket agentxNext
  by_cases hshort : x.length < 20
  · rw [if_pos hshort, if_pos hshort, codeVerdict, if_neg (by omega), if_pos (.inr rfl)]
  · rw [if_neg hshort, if_neg hshort]
    have hlt : payloadLength x + 20 < 2 ^ 32 := Nat.lt_of_not_le fun hle => h ⟨by omega, hle⟩
    rw [MAX_PACKET_LENGTH]
    by_cases hlong : payloadLength x + 20 > 0x7fffffff
    · rw [if_pos hlong, codeVerdict, if_pos]
      unfold castInt
      rw [Nat.mod_eq_of_lt hlt, if_neg (by omega)]
      omega
    · rw [if_neg hlong, castInt_of_lt (by omega), codeVerdict_natCast (by omega)]

theorem hookLoop_succ {fuel : Nat} (hne : x ≠ []) : hookLoop checkPacket junk (fuel + 1) x =
    match codeVerdict (checkPacket x) x.length with
    | .wait => ⟨[], false, x, junk⟩
    | .bad => ⟨[], true, x, junk⟩
    | .frame n =>
      let out := hookLoop checkPacket junk fuel (x.drop n)
      { out with frames := x.take n :: out.frames } := by
  obtain ⟨hlo, hhi⟩ := checkPacket_bounds x
  rw [hookLoop, if_neg hne]
  simp only [MAX_PACKET_LENGTH, codeVerdict]
  generalize checkPacket x = c at *
  by_cases hneg : c < 0
  · rw [if_pos hneg, if_pos (by omega)]
  · have hc : (c % 2 ^ 64).toNat = c.toNat := by omega
    rw [if_neg hneg, hc, if_neg (by omega)]
    by_cases hwait : c.toNat > x.length ∨ c = 0
    · rw [if_pos hwait, if_pos (by omega)]
    · rw [if_neg hwait, if_neg (by omega)]

/-- How the loop ends on what has been received: as the rule says, or behind the last message that the rule cuts off
there is a header whose length wraps. Then either it waits, or it hands over fewer octets than a header has. -/
inductive Ends (x : List UInt8) (junk : Stream' UInt64) (out : LoopOut) : Prop
  | same (h : ¬ Wraps (agentx.cut x).rest)
      (hout : out = ⟨(agentx.cut x).frames, (agentx.cut x).broken, (agentx.cut x).rest, junk⟩)
  | stuck (h : Wraps (agentx.cut x).rest) (hzero : checkPacket (agentx.cut x).rest = 0)
      (hout : out = ⟨(agentx.cut x).frames, false, (agentx.cut x).rest, junk⟩)
  | cutShort (h : Wraps (agentx.cut x).rest) (hshort : ∃ f ∈ out.frames, f.length < 20)

theorem hookLoop_ends (junk : Stream' UInt64) (x : List UInt8) {fuel : Nat} (hfuel : x.length ≤ fuel) :
    Ends x junk (hookLoop checkPacket junk fuel x) := by
  induction x using Rule.frame_induction agentx generalizing fuel with
  | _ x ih =>
    cases fuel with
    | zero =>
      obtain rfl := length_eq_zero_iff.mp (Nat.le_zero.mp hfuel)
      exact .same (fun h => absurd h.1 (by decide)) rfl
    | succ fuel =>
      by_cases hne : x = []
      · subst hne
        exact .same (fun h => absurd h.1 (by decide)) rfl
      rw [hookLoop_succ hne]
      by_cases hwraps : Wraps x
      · have hcut := Rule.cut_of_bad hwraps.bad
        have hlt := payloadLength_lt x
        have hlen := hwraps.1
        by_cases hzero : checkPacket x = 0
        · have hverdict : codeVerdict (checkPacket x) x.length = .wait := by
            rw [hzero, codeVerdict, if_neg (by omega), if_pos (.inr rfl)]
          rw [hverdict]
          refine .stuck ?_ ?_ ?_
          · rwa [hcut]
          · rwa [hcut]
          · rw [hcut]
        · have hcheck := hwraps.checkPacket
          have hverdict : codeVerdict (checkPacket x) x.length = .frame (payloadLength x + 20 - 2 ^ 32) := by
            rw [hcheck] at hzero ⊢
            rw [codeVerdict_natCast (by omega), if_neg (by omega)]
          rw [hverdict]
          refine .cutShort ?_ ⟨_, mem_cons_self, ?_⟩
          · rwa [hcut]
          · rw [length_take]
            omega
      · rw [codeVerdict_eq hwraps]
        cases hnext : agentx.next x with
        | wait =>
          have hcut := Rule.cut_of_wait hnext
          refine .same ?_ ?_
          · rwa [hcut]
          · rw [hcut]
        | bad =>
          have hcut := Rule.cut_of_bad hnext
          refine .same ?_ ?_
          · rwa [hcut]
          · rw [hcut]
        | frame n =>
          have hcut := Rule.cut_of_frame hnext
          have hlt := Rule.frame_drop_lt hnext
          have hrest : (agentx.cut x).rest = (agentx.cut (x.drop n)).rest := by rw [hcut]
          rcases ih n hnext (show (x.drop n).length ≤ fuel by omega) with ⟨h, hout⟩ | ⟨h, hzero, hout⟩ | ⟨h, f, hf, hshort⟩
          · refine .same (by rwa [hrest]) ?_
            show LoopOut.mk (x.take n :: (hookLoop checkPacket junk fuel (x.drop n)).frames) _ _ _ = _
            rw [hout, hcut]
          · refine .stuck (by rwa [hrest]) (by rwa [hrest]) ?_
            show LoopOut.mk (x.take n :: (hookLoop checkPacket junk fuel (x.drop n)).frames) _ _ _ = _
            rw [hout, hcut]
          · exact .cutShort (by rwa [hrest]) ⟨f, mem_cons_of_mem _ hf, hshort⟩

/-! ## a read -/

/-- A session that waits for the rest of the message that begins with `w`. -/
structure Waits (s : StreamSession) (w : List UInt8) : Prop where
  connected : s.connected = true
  packet : s.packet.getD [] = w
  wait : agentx.next w = .wait

/-- A session that takes the length of the message in front for zero. It will never be anything else. -/
structure Stuck (s : StreamSession) (t : List UInt8) : Prop where
  connected : s.connected = true
  packet : s.packet.getD [] = t
  wraps : Wraps t
  zero : checkPacket t = 0

/-- What a read leaves behind, when `x` is what the session has then received. -/
inductive After (x : List UInt8) (frames : List (List UInt8)) (s : StreamSession) : Prop
  | waits (hframes : frames = (agentx.cut x).frames) (h : Waits s (agentx.cut x).rest)
  | closed (h : (agentx.cut x).broken = true) (hwraps : ¬ Wraps (agentx.cut x).rest)
      (hframes : frames = (agentx.cut x).frames) (hclosed : s.connected = false)
  | stuck (hframes : frames = (agentx.cut x).frames) (h : Stuck s (agentx.cut x).rest)
  | cutShort (h : Wraps (agentx.cut x).rest) (hshort : ∃ f ∈ frames, f.length < 20)

theorem broken_of_wraps (h : Wraps (agentx.cut x).rest) : (agentx.cut x).broken = true := by
  have hrest := agentx.next_cut_rest x
  rw [h.bad] at hrest
  by_contra hbroken
  rw [if_neg hbroken] at hrest
  exact nomatch hrest

theorem afterLoop_kept {frames : List (List UInt8)} {rest : List UInt8} (hs : s.connected = true)
    (hle : frames ≠ [] → rest.length < MAXIMUM_PACKET_SIZE) (packet : List UInt8) (junk : Stream' UInt64) :
    (afterLoop s packet ⟨frames, false, rest, junk⟩).1 = frames ∧
      (afterLoop s packet ⟨frames, false, rest, junk⟩).2.connected = true ∧
      (afterLoop s packet ⟨frames, false, rest, junk⟩).2.packet.getD [] = rest := by
  unfold afterLoop
  simp only [Bool.false_eq_true, if_false]
  by_cases hframes : frames = []
  · rw [if_pos hframes]
    exact ⟨rfl, hs, rfl⟩
  · rw [if_neg hframes, if_neg (Nat.not_le.mpr (hle hframes))]
    by_cases hnil : rest = []
    · rw [if_pos hnil]
      exact ⟨rfl, hs, hnil.symm⟩
    · rw [if_neg hnil]
      exact ⟨rfl, hs, rfl⟩

theorem afterLoop_frames (packet : List UInt8) (out : LoopOut) : (afterLoop s packet out).1 = out.frames := by
  unfold afterLoop
  simp only []
  split_ifs <;> rfl

theorem hookRead3_of_connected (hs : s.connected = true) (hw : s.packet.getD [] = w) (c : List UInt8) :
    hookRead3 checkPacket s c = afterLoop s (w ++ c) (hookLoop checkPacket s.junk (w ++ c).length (w ++ c)) := by
  unfold hookRead3
  rw [if_neg (not_not.mpr hs), hw]

theorem hookRead3_after (hs : Waits s w) (hc : c.length ≤ RXBUF_LEN) :
    After (w ++ c) (hookRead3 checkPacket s c).1 (hookRead3 checkPacket s c).2 := by
  have hsmall : (agentx.cut (w ++ c)).frames ≠ [] → (agentx.cut (w ++ c)).rest.length < MAXIMUM_PACKET_SIZE := by
    intro hframes
    have hle := Rule.cut_rest_le hs.wait hframes
    rw [RXBUF_LEN] at hc
    rw [MAXIMUM_PACKET_SIZE]
    omega
  obtain ⟨hframes, hconn, hpacket⟩ := afterLoop_kept hs.connected hsmall (w ++ c) s.junk
  rw [hookRead3_of_connected hs.connected hs.packet]
  rcases hookLoop_ends s.junk (w ++ c) (Nat.le_refl _) with ⟨h, hout⟩ | ⟨h, hzero, hout⟩ | ⟨h, hshort⟩
  · rw [hout]
    cases hbroken : (agentx.cut (w ++ c)).broken with
    | true => exact .closed hbroken h rfl rfl
    | false =>
      have hrest := agentx.next_cut_rest (w ++ c)
      rw [hbroken] at hrest
      exact .waits hframes ⟨hconn, hpacket, hrest⟩
  · rw [hout]
    exact .stuck hframes ⟨hconn, hpacket, h, hzero⟩
  · refine .cutShort h ?_
    rwa [afterLoop_frames]

theorem Stuck.hookRead3 {t : List UInt8} (hs : Stuck s t) (c : List UInt8) :
    (hookRead3 checkPacket s c).1 = [] ∧ Stuck (hookRead3 checkPacket s c).2 (t ++ c) := by
  have hne : t ++ c ≠ [] := by
    intro hnil
    have hlen := congrArg List.length hnil
    have hfull := hs.wraps.1
    rw [length_append, length_nil] at hlen
    omega
  have hcheck : checkPacket (t ++ c) = 0 := by
    have hwraps : Wraps (t ++ c) := (Wraps.append_iff hs.wraps.1).mpr hs.wraps
    rw [hwraps.checkPacket, payloadLength_append hs.wraps.1, ← hs.wraps.checkPacket, hs.zero]
  have hloop : hookLoop checkPacket s.junk (t ++ c).length (t ++ c) = ⟨[], false, t ++ c, s.junk⟩ := by
    obtain ⟨k, hk⟩ := Nat.exists_eq_succ_of_ne_zero (mt length_eq_zero_iff.mp hne)
    rw [hk, Nat.succ_eq_add_one, hookLoop_succ hne, hcheck]
    rfl
  rw [hookRead3_of_connected hs.connected hs.packet, hloop]
  have hkept : ([] : List (List UInt8)) ≠ [] → (t ++ c).length < MAXIMUM_PACKET_SIZE := fun h => absurd rfl h
  obtain ⟨hframes, hconn, hpacket⟩ := afterLoop_kept hs.connected hkept (t ++ c) s.junk
  exact ⟨hframes, hconn, hpacket, (Wraps.append_iff hs.wraps.1).mpr hs.wraps, hcheck⟩

/-! ## many reads -/

theorem hookReads_closed {check : List UInt8 → Int} (h : s.connected = false) (chunks : List (List UInt8)) :
    hookReads check s chunks = ([], s) := by
  induction chunks with
  | nil => rfl
  | cons c cs ih =>
    have hread : hookRead3 check s c = ([], s) := by
      unfold hookRead3
      rw [h, if_pos (by simp)]
    simp only [hookReads, hread, ih, append_nil]

theorem Stuck.hookReads {t : List UInt8} (hs : Stuck s t) (chunks : List (List UInt8)) :
    (hookReads checkPacket s chunks).1 = [] ∧ Stuck (hookReads checkPacket s chunks).2 (t ++ chunks.flatten) := by
  induction chunks generalizing s t with
  | nil => exact ⟨rfl, by rwa [flatten_nil, append_nil]⟩
  | cons c cs ih =>
    obtain ⟨hnone, hstuck⟩ := hs.hookRead3 c
    obtain ⟨hframes, hlast⟩ := ih hstuck
    rw [append_assoc] at hlast
    exact ⟨by rw [Agentx.hookReads, hnone, hframes, nil_append], hlast⟩

theorem not_broken_of_waits (h : Waits s (agentx.cut x).rest) : (agentx.cut x).broken = false := by
  have hrest := agentx.next_cut_rest x
  rw [h.wait] at hrest
  by_contra hbroken
  rw [if_pos (Bool.eq_true_of_not_eq_false hbroken)] at hrest
  exact nomatch hrest

/-- What is broken has got a whole header, so that what follows does not change what it announces. -/
theorem wraps_rest_append (h : (agentx.cut x).broken = true) (y : List UInt8) :
    Wraps ((agentx.cut x).rest ++ y) ↔ Wraps (agentx.cut x).rest := by
  have hrest := agentx.next_cut_rest x
  rw [if_pos h] at hrest
  exact Wraps.append_iff (agentxNext_eq_bad.mp hrest).1

theorem After.frames_append {fs : List (List UInt8)} (hbroken : (agentx.cut x).broken = false)
    (h : After ((agentx.cut x).rest ++ y) fs s) : After (x ++ y) ((agentx.cut x).frames ++ fs) s := by
  have hcut := Rule.cut_append hbroken y
  rcases h with ⟨rfl, hw⟩ | ⟨hbad, hwraps, rfl, hclosed⟩ | ⟨rfl, hstuck⟩ | ⟨hwraps, f, hf, hlt⟩
  · refine .waits ?_ ?_
    · rw [hcut]
    · rwa [hcut]
  · refine .closed ?_ ?_ ?_ hclosed
    · rwa [hcut]
    · rwa [hcut]
    · rw [hcut]
  · refine .stuck ?_ ?_
    · rw [hcut]
    · rwa [hcut]
  · refine .cutShort ?_ ⟨f, mem_append_right _ hf, hlt⟩
    rwa [hcut]

theorem hookReads_after {chunks : List (List UInt8)} (hs : Waits s w) (hc : ∀ c ∈ chunks, c.length ≤ RXBUF_LEN) :
    After (w ++ chunks.flatten) (hookReads checkPacket s chunks).1 (hookReads checkPacket s chunks).2 := by
  induction chunks generalizing s w with
  | nil =>
    have hcut := Rule.cut_of_wait hs.wait
    rw [flatten_nil, append_nil]
    refine .waits ?_ ?_
    · rw [hcut]
      rfl
    · rwa [hcut]
  | cons c cs ih =>
    have hone := hookRead3_after hs (hc c mem_cons_self)
    rw [flatten_cons, ← append_assoc]
    show After _ ((hookRead3 checkPacket s c).1 ++ _) (hookReads checkPacket (hookRead3 checkPacket s c).2 cs).2
    rcases hone with ⟨hframes, hw⟩ | ⟨hbroken, hwraps, hframes, hclosed⟩ | ⟨hframes, hstuck⟩ | ⟨hwraps, f, hf, hlt⟩
    · have hrest := ih hw fun d hd => hc d (mem_cons_of_mem _ hd)
      rw [hframes]
      exact hrest.frames_append (not_broken_of_waits hw)
    -- the session is closed, and nothing is read any more
    · have hcut := Rule.cut_append_of_broken hbroken cs.flatten
      rw [hookReads_closed hclosed, append_nil, hframes]
      refine .closed ?_ ?_ ?_ hclosed
      · rw [hcut]
      · rwa [hcut, wraps_rest_append hbroken]
      · rw [hcut]
    · have hbroken := broken_of_wraps hstuck.wraps
      have hcut := Rule.cut_append_of_broken hbroken cs.flatten
      obtain ⟨hnone, hlast⟩ := hstuck.hookReads cs
      rw [hnone, append_nil, hframes]
      refine .stuck ?_ ?_
      · rw [hcut]
      · rwa [hcut]
    · have hbroken := broken_of_wraps hwraps
      have hcut := Rule.cut_append_of_broken hbroken cs.flatten
      refine .cutShort ?_ ⟨f, mem_append_left _ hf, hlt⟩
      rwa [hcut, wraps_rest_append hbroken]

/-! ## exact framing -/

/-- What is handed over are the messages at the start of the stream `s`, one behind the other, and a message that is
too long closes the session. -/
structure Exact (s : List UInt8) (frames : List (List UInt8)) (connected : Bool) : Prop where
  consecutive : frames.flatten <+: s
  lengths : ∀ f ∈ frames, 20 ≤ f.length ∧ f.length = 20 + payloadLength f ∧ f.length ≤ MAX_PACKET_LENGTH
  overlong : ∀ t, s = frames.flatten ++ t → 20 ≤ t.length → 20 + payloadLength t > MAX_PACKET_LENGTH →
    connected = false

/-- No message announces a payload with which it has a length of more than 32 bits. -/
def Fine (s : List UInt8) : Prop := ∀ t, agentx.Boundary s t → 20 ≤ t.length → payloadLength t < 2 ^ 32 - 20

theorem not_wraps_of_fine {s : List UInt8} (h : Fine s) : ¬ Wraps (agentx.cut s).rest := by
  have hboundary := agentx.boundary_rest s []
  rw [append_nil, append_nil] at hboundary
  rintro ⟨hlen, hwrap⟩
  have hlt := h _ hboundary hlen
  omega

theorem fine_of_not_wraps {s : List UInt8} (h : ¬ Wraps (agentx.cut s).rest) : Fine s := by
  intro t ht hlen
  by_contra hle
  have hwraps : Wraps t := ⟨hlen, by omega⟩
  apply h
  clear h
  induction ht with
  | refl =>
    rw [Rule.cut_of_bad hwraps.bad]
    exact hwraps
  | step hnext _ ih =>
    rw [Rule.cut_of_frame hnext]
    exact ih hlen hle hwraps

theorem length_of_mem_frames {f : List UInt8} (hf : f ∈ (agentx.cut x).frames) :
    20 ≤ f.length ∧ f.length = 20 + payloadLength f ∧ f.length ≤ MAX_PACKET_LENGTH := by
  obtain ⟨hlen, heq, hmax, -⟩ := agentxNext_eq_frame.mp (Rule.next_of_mem_frames hf)
  exact ⟨hlen, by omega, hmax⟩

theorem exact_cut {s : List UInt8} {connected : Bool} (h : (agentx.cut s).broken = true → connected = false) :
    Exact s (agentx.cut s).frames connected where
  consecutive := ⟨(agentx.cut s).rest, agentx.cut_flatten s⟩
  lengths := fun _ hf => length_of_mem_frames hf
  overlong := fun t ht hlen hlong => by
    have hrest : (agentx.cut s).rest = t := append_cancel_left ((agentx.cut_flatten s).trans ht)
    have hbad : agentx.next t = .bad := agentxNext_eq_bad.mpr ⟨hlen, by omega⟩
    have hnext := agentx.next_cut_rest s
    rw [hrest, hbad] at hnext
    apply h
    by_contra hbroken
    rw [if_neg hbroken] at hnext
    exact nomatch hnext

/-- A stream is cut exactly into its messages if and only if none has a length of more than 32 bits. -/
theorem hookReads_exact (s : List UInt8) {chunks : List (List UInt8)} (hcut : Cutting s chunks)
    (junk : Stream' UInt64) :
    Exact s (hookReads checkPacket (.start junk) chunks).1 (hookReads checkPacket (.start junk) chunks).2.connected ↔
      Fine s := by
  have hstart : Waits (.start junk) [] := ⟨rfl, rfl, rfl⟩
  have hafter := hookReads_after hstart fun c hc => (hcut.2 c hc).2
  rw [nil_append, hcut.1] at hafter
  constructor
  · intro hexact
    refine fine_of_not_wraps fun hwraps => ?_
    rcases hafter with ⟨-, hw⟩ | ⟨-, hnot, -, -⟩ | ⟨hframes, hstuck⟩ | ⟨-, f, hf, hlt⟩
    · have hwait := hw.wait
      rw [hwraps.bad] at hwait
      cases hwait
    · exact hnot hwraps
    -- the session takes no more messages, but it is not closed
    · have hsplit := agentx.cut_flatten s
      rw [← hframes] at hsplit
      have hlong := hwraps.2
      have hclosed := hexact.overlong _ hsplit.symm hwraps.1 (by rw [MAX_PACKET_LENGTH]; omega)
      rw [hstuck.connected] at hclosed
      cases hclosed
    · have hlen := (hexact.lengths f hf).1
      omega
  · intro hfine
    have hnot := not_wraps_of_fine hfine
    rcases hafter with ⟨hframes, hw⟩ | ⟨-, -, hframes, hclosed⟩ | ⟨-, hstuck⟩ | ⟨hwraps, -⟩
    · rw [hframes]
      refine exact_cut fun hbroken => ?_
      rw [not_broken_of_waits hw] at hbroken
      cases hbroken
    · rw [hframes]
      exact exact_cut fun _ => hclosed
    · exact absurd hstuck.wraps hnot
    · exact absurd hwraps hnot

/-- A message without a payload. -/
def pingHeader : List UInt8 := [1, 13, 0x10, 0, 0, 0, 0, 0, 0, 0, 0, 0, 0, 0, 0, 0, 0, 0, 0, 0]

theorem hookReads_exact_ping :
    Exact pingHeader (hookReads checkPacket (.start (Stream'.const 0)) [pingHeader.take 7, pingHeader.drop 7]).1
      (hookReads checkPacket (.start (Stream'.const 0)) [pingHeader.take 7, pingHeader.drop 7]).2.connected ↔
    Fine pingHeader :=
  @hookReads_exact pingHeader [pingHeader.take 7, pingHeader.drop 7]
    ⟨rfl, by simp [pingHeader, RXBUF_LEN]⟩ (Stream'.const 0)

/-- A header with a payload of nine octets less than `2 ^ 32`. -/
def wrappingHeader : List UInt8 := [1, 1, 0x10, 0, 0, 0, 0, 0, 0, 0, 0, 0, 0, 0, 0, 0, 0xff, 0xff, 0xff, 0xf7]

/-- Its first eleven octets are handed over as a message. -/
theorem not_exact_wrappingHeader :
    ¬ ∀ (s : List UInt8) (chunks : List (List UInt8)) (junk : Stream' UInt64), Cutting s chunks →
      Exact s (hookReads checkPacket (.start junk) chunks).1
        (hookReads checkPacket (.start junk) chunks).2.connected := by
  intro h
  have hexact := h wrappingHeader [wrappingHeader] (Stream'.const 0) ⟨rfl, by simp [wrappingHeader, RXBUF_LEN]⟩
  have hlen := (hexact.lengths (wrappingHeader.take 11) (by decide +kernel)).1
  exact absurd hlen (by decide)

/-! ## a stream of messages -/

theorem networkByteOrder_flags (flags : UInt64) :
    networkByteOrder flags.toUInt8 = decide (flags &&& AGENTX_FLAGS_NETWORK_BYTE_ORDER ≠ 0) := by
  rw [← low_flags flags (m := AGENTX_FLAGS_NETWORK_BYTE_ORDER) (by decide), UInt64.zero_or]
  unfold networkByteOrder
  refine decide_eq_decide.mpr (not_congr ?_)
  rw [← UInt8.toUInt64_inj, UInt8.toUInt64_and]
  rfl

/-- What is built says its length. -/
theorem next_reallocBuild {pdu : AgentxPdu} {built : List UInt8} (h : reallocBuild pdu = .ok built)
    (hlen : built.length < 2 ^ 31) : agentx.next built = .frame built.length := by
  obtain ⟨sent, payload, rfl⟩ : ∃ (sent : AgentxPdu) (payload : List UInt8),
      built = header (decide (sent.flags &&& AGENTX_FLAGS_NETWORK_BYTE_ORDER ≠ 0)) sent
        (UInt32.ofNat payload.length) ++ payload := by
    obtain ⟨sent, -, h⟩ := Lib.exists_of_bind_ok h
    obtain ⟨body, -, h⟩ := Lib.exists_of_bind_ok h
    exact ⟨sent, _, (Except.ok.inj h).symm⟩
  rw [length_append, header_length] at hlen
  have hpayload : payloadLength (header (decide (sent.flags &&& AGENTX_FLAGS_NETWORK_BYTE_ORDER ≠ 0)) sent
      (UInt32.ofNat payload.length) ++ payload) = payload.length := by
    unfold payloadLength
    rw [(header_drop _ sent _ payload).2.2.2]
    show parseUInt (networkByteOrder sent.flags.toUInt8) _ = _
    rw [networkByteOrder_flags, parseUInt_build, UInt32.toNat_ofNat', Nat.mod_eq_of_lt (by omega)]
  refine agentxNext_eq_frame.mpr ?_
  rw [hpayload, length_append, header_length, MAX_PACKET_LENGTH]
  omega

/-- However the messages arrive, the first of them have been handed over, each once and in their order, and the session
holds the beginning of the others. Those that can be sent unchanged are read as they were built. -/
theorem hookReads_delivers {version : UInt64} (hversion : isAgentxVersion version)
    {sent : List (AgentxPdu × List UInt8)}
    (hsent : ∀ m ∈ sent, reallocBuild m.1 = .ok m.2 ∧ m.2.length < 2 ^ 31) {chunks : List (List UInt8)}
    (hchunks : ∀ c ∈ chunks, c.length ≤ RXBUF_LEN) {rest : List UInt8}
    (harrived : chunks.flatten ++ rest = (sent.map Prod.snd).flatten) (junk : Stream' UInt64) :
    (hookReads checkPacket (.start junk) chunks).2.connected = true ∧
      ∃ done later, sent = done ++ later ∧ (hookReads checkPacket (.start junk) chunks).1 = done.map Prod.snd ∧
        (hookReads checkPacket (.start junk) chunks).2.packet.getD [] ++ rest = (later.map Prod.snd).flatten ∧
        (rest = [] → later = []) ∧
        ∀ m ∈ done, m.1.Sendable →
          (∀ prepared s, m.1.prepare = .ok prepared → prepared.context = some s → s.length < API_MAX_MSG_SIZE) →
          ∃ got, parse version emptyPdu m.2 = .ok (.noError, got) ∧ Rebuilt m.1 got := by
  have hstart : Waits (.start junk) [] := ⟨rfl, rfl, rfl⟩
  have hafter := hookReads_after hstart hchunks
  have hnext : ∀ f ∈ sent.map Prod.snd, agentx.next f = .frame f.length := by
    intro f hf
    obtain ⟨m, hm, rfl⟩ := mem_map.mp hf
    exact next_reallocBuild (hsent m hm).1 (hsent m hm).2
  obtain ⟨hwhole, later, hframes, hrest⟩ := Rule.cut_part hnext harrived
  rw [nil_append] at hafter
  rcases hafter with ⟨hdone, hwaits⟩ | ⟨hbroken, -, -, -⟩ | ⟨-, hstuck⟩ | ⟨hwraps, -⟩
  · obtain ⟨done, later, rfl, hmap, rfl⟩ := map_eq_append_iff.mp hframes
    refine ⟨hwaits.connected, done, later, rfl, hdone.trans hmap.symm, hwaits.packet ▸ hrest, fun hnil => ?_,
      fun m hm hpdu hcontext => ?_⟩
    · -- the whole stream is cut into the messages
      rw [hnil, append_nil] at harrived
      rw [harrived, Rule.cut_frames hnext] at hframes
      exact map_eq_nil_iff.mp (append_cancel_left (hframes.symm.trans (append_nil _).symm))
    · obtain ⟨h, hlen⟩ := hsent m (mem_append_left _ hm)
      obtain ⟨prepared, hprepare, -⟩ := Lib.exists_of_bind_ok h
      obtain ⟨read, got, hgot, hpayload, hheader, hsame⟩ :=
        parse_built hversion hpdu hprepare (fun s hs => hcontext prepared s hprepare hs) h hlen
      obtain ⟨flags, community, rfl⟩ := prepare_eq hprepare
      exact ⟨got, hgot, hsame.command.trans hheader.command, hsame.sessid ▸ hheader.sessid,
        hsame.transid ▸ hheader.transid, hsame.reqid ▸ hheader.reqid, hpayload,
        fun _ hp => Except.ok.inj (hprepare.symm.trans hp) ▸ hsame.community⟩
  · rw [hwhole] at hbroken
    cases hbroken
  · rw [broken_of_wraps hstuck.wraps] at hwhole
    cases hwhole
  · rw [broken_of_wraps hwraps] at hwhole
    cases hwhole

/-- An `AgentX` Ping, for the network's order of the octets. -/
def ping : AgentxPdu := { emptyPdu with command := AGENTX_MSG_PING, flags := 0x10 }

theorem hookReads_delivers_ping : ∃ later, [pingHeader, pingHeader] =
    (hookReads checkPacket (.start (Stream'.const 0)) [pingHeader.take 7, pingHeader.drop 7 ++ [1, 13]]).1 ++ later := by
  obtain ⟨-, done, later, hsplit, hdone, -⟩ := @hookReads_delivers 192 (by decide) [(ping, pingHeader), (ping, pingHeader)]
    (forall_mem_cons.mpr ⟨⟨rfl, by decide⟩, forall_mem_singleton.mpr ⟨rfl, by decide⟩⟩)
    [pingHeader.take 7, pingHeader.drop 7 ++ [1, 13]] (by simp [pingHeader, RXBUF_LEN]) (pingHeader.drop 2) rfl
    (Stream'.const 0)
  exact ⟨later.map Prod.snd, by rw [hdone, ← map_append, ← hsplit]; rfl⟩

end Priot.Agentx
