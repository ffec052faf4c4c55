/-
# `Api_sessRead3` on a stream transport

What arrives is appended to what is left; `Asn_checkPacket` says how long the message in front is, and whole messages
go to `_Api_sessProcessPacket`. Allocations succeed, there is no `check_packet` hook, and the buffer is left alone.
-/
import Priot.Api.PduParse

namespace Priot.Api

open Asn01 Octets

/-! ## `Asn_checkPacket` (`Asn01.c`) -/

/-- `( int )n`. -/
def castInt (n : Nat) : Int :=
  if n % 2 ^ 32 < 2 ^ 31 then (n % 2 ^ 32 : Nat) else (n % 2 ^ 32 : Nat) - 2 ^ 32

theorem castInt_bounds (n : Nat) : -2 ^ 31 ≤ castInt n ∧ castInt n < 2 ^ 31 := by
  unfold castInt
  split <;> omega

theorem castInt_of_lt {n : Nat} (h : n < 2 ^ 31) : castInt n = n := by
  unfold castInt
  rw [Nat.mod_eq_of_lt (by omega), if_pos h]

theorem castInt_mod (n : Nat) : castInt (n % 2 ^ 64) = castInt n := by
  unfold castInt
  rw [Nat.mod_mod_of_dvd n (by norm_num)]

/-- `Asn_checkPacket`. What `asn_length` holds before it is set is `junk`: `Asn01_parseLength` does
not set it when it returns `NULL` at once, and its result is not looked at. -/
def checkPacket (packet : List UInt8) (junk : UInt64) : Int :=
  match packet with
  | tag :: b :: rest =>
    if tag ≠ asnSEQUENCE_CONSTRUCTOR then -1
    else
      let count := b.toNat % 128
      if hiBit b then
        if castInt packet.length < count + 2 then 0
        else
          let asnLength := (parseLength (b :: rest ++ₛ Stream'.const 0)).length.getD junk.toNat
          castInt ((asnLength + 2 + count) % 2 ^ 64)
      else b.toNat + 2
  | _ => 0

/-! ## the read loop (`Api.c`) -/

def MAXIMUM_PACKET_SIZE : Nat := 0x7fffffff

/-- How the loop ends: the messages handed to `_Api_sessProcessPacket`, whether the connection is
dropped, the octets from `pptr` on, and the junk not used up. -/
structure LoopOut where
  frames : List (List UInt8)
  dropped : Bool
  packet : List UInt8
  junk : Stream' UInt64

/-- `while ( isp->packet_len > 0 )`. Every round but the last steps past at least one octet.
`pdulen` is a `size_t`: a negative length is a large one. -/
def packetLoop : Nat → Stream' UInt64 → List UInt8 → LoopOut
  | 0, junk, packet => ⟨[], false, packet, junk⟩
  | fuel + 1, junk, packet =>
    if packet = [] then ⟨[], false, packet, junk⟩
    else
      let pdulen := (checkPacket packet junk.head % 2 ^ 64).toNat
      if pdulen > MAX_PACKET_LENGTH then ⟨[], true, packet, junk.tail⟩
      else if pdulen > packet.length ∨ pdulen = 0 then ⟨[], false, packet, junk.tail⟩
      else
        let out := packetLoop fuel junk.tail (packet.drop pdulen)
        { out with frames := packet.take pdulen :: out.frames }

/-- The members of a session that reads a stream: whether `transport->sock` is open, the first
`isp->packet_len` octets of `isp->packet`, and `isp->packet_size`. -/
structure StreamSession where
  connected : Bool
  packet : Option (List UInt8)
  packetSize : Nat
  junk : Stream' UInt64

/-- A session that has just been connected. -/
def StreamSession.start (junk : Stream' UInt64) : StreamSession := ⟨true, none, 0, junk⟩

/-- `rxbuf_len` when nothing is saved. -/
def RXBUF_LEN : Nat := 65536

/-- `isp->packet_size` when `Transport_recv` is called. -/
def StreamSession.bufferSize (s : StreamSession) : Nat :=
  match s.packet with
  | none => RXBUF_LEN
  | some p => if s.packetSize < p.length + RXBUF_LEN then p.length + RXBUF_LEN else s.packetSize

/-- `rxbuf_len` when `Transport_recv` is called: the octets it may return. -/
def StreamSession.rxbufLen (s : StreamSession) : Nat := s.bufferSize - (s.packet.getD []).length

/-- `Api_sessRead3` when `Transport_recv` has returned `data`, not empty: the messages handed over
and the session after the call. -/
def sessRead3 (s : StreamSession) (data : List UInt8) : List (List UInt8) × StreamSession :=
  if ¬ s.connected then ([], s)
  else
    let packet := s.packet.getD [] ++ data
    let out := packetLoop packet.length s.junk packet
    -- a connection is dropped before what is left is moved to the start of the buffer
    let closed : StreamSession := ⟨false, some (packet.take out.packet.length), s.bufferSize, out.junk⟩
    if out.dropped then (out.frames, closed)
    else if out.frames = [] then
      (out.frames, { s with packet := some out.packet, packetSize := s.bufferSize, junk := out.junk })
    else if out.packet.length ≥ MAXIMUM_PACKET_SIZE then (out.frames, closed)
    else if out.packet = [] then
      (out.frames, { s with packet := none, packetSize := 0, junk := out.junk })
    else
      (out.frames, { s with packet := some out.packet, packetSize := out.packet.length,
                            junk := out.junk })

/-- One read after the other. -/
def sessReads (s : StreamSession) : List (List UInt8) → List (List UInt8) × StreamSession
  | [] => ([], s)
  | data :: rest =>
    let r := sessRead3 s data
    let rs := sessReads r.2 rest
    (r.1 ++ rs.1, rs.2)

end Priot.Api
