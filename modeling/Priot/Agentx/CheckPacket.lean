/-
# AgentX messages on a stream

`Api_sessRead3` for a session with a `check_packet` hook, and the hook of the AgentX sessions, which takes the length
of a message from its header. The hosts are little-endian, and an `int` wraps when it overflows.
-/
import Priot.Api.SessRead

namespace Priot.Agentx

open Api Octets

/-! ## `Protocol_checkPacket` -/

/-- The four octets that `Protocol_parseInt` reads, as a `u_int`. -/
def parseUInt (networkByteOrder : Bool) (data : List UInt8) : Nat :=
  beNat (if networkByteOrder then data.take 4 else (data.take 4).reverse)

/-- `AGENTX_FLAGS_NETWORK_BYTE_ORDER` in the octet with the flags. -/
def networkByteOrder (flags : UInt8) : Bool := flags &&& 0x10 ≠ 0

/-- `h.payload_length`. -/
def payloadLength (packet : List UInt8) : Nat := parseUInt (networkByteOrder (packet.getD 2 0)) (packet.drop 16)

def checkPacket (packet : List UInt8) : Int :=
  if packet.length < 20 then 0 else castInt (payloadLength packet + 20)

/-! ## `Api_sessRead3` with a hook -/

/-- `while ( isp->packet_len > 0 )`. -/
def hookLoop (check : List UInt8 → Int) (junk : Stream' UInt64) : Nat → List UInt8 → LoopOut
  | 0, packet => ⟨[], false, packet, junk⟩
  | fuel + 1, packet =>
    if packet = [] then ⟨[], false, packet, junk⟩
    else
      let pdulen := (check packet % 2 ^ 64).toNat
      if pdulen > MAX_PACKET_LENGTH then ⟨[], true, packet, junk⟩
      else if pdulen > packet.length ∨ pdulen = 0 then ⟨[], false, packet, junk⟩
      else
        let out := hookLoop check junk fuel (packet.drop pdulen)
        { out with frames := packet.take pdulen :: out.frames }

/-- What `Api_sessRead3` does once its loop has ended. -/
def afterLoop (s : StreamSession) (packet : List UInt8) (out : LoopOut) : List (List UInt8) × StreamSession :=
  let closed : StreamSession := ⟨false, some (packet.take out.packet.length), s.bufferSize, out.junk⟩
  if out.dropped then (out.frames, closed)
  else if out.frames = [] then
    (out.frames, { s with packet := some out.packet, packetSize := s.bufferSize, junk := out.junk })
  else if out.packet.length ≥ MAXIMUM_PACKET_SIZE then (out.frames, closed)
  else if out.packet = [] then
    (out.frames, { s with packet := none, packetSize := 0, junk := out.junk })
  else
    (out.frames, { s with packet := some out.packet, packetSize := out.packet.length, junk := out.junk })

/-- `Api_sessRead3` when `Transport_recv` has returned `data`, not empty. -/
def hookRead3 (check : List UInt8 → Int) (s : StreamSession) (data : List UInt8) :
    List (List UInt8) × StreamSession :=
  if ¬ s.connected then ([], s)
  else
    let packet := s.packet.getD [] ++ data
    afterLoop s packet (hookLoop check s.junk packet.length packet)

/-- One read after the other. -/
def hookReads (check : List UInt8 → Int) (s : StreamSession) :
    List (List UInt8) → List (List UInt8) × StreamSession
  | [] => ([], s)
  | data :: rest =>
    let r := hookRead3 check s data
    let rs := hookReads check r.2 rest
    (r.1 ++ rs.1, rs.2)

end Priot.Agentx
