/-
# `Asn01.c`, the reverse encoders — `Asn01_realloc` … `Asn01_reallocRbuildDouble`

A reverse encoder fills a buffer from its end towards its start; when no room is left the buffer is made larger and
its contents move to the new end. An encoder that fails returns 0 and leaves what it has written, so failure keeps the
state.
-/
import Priot.Asn01.Parse

namespace Priot.Asn01

/-! ## the buffer -/

/-- `*pkt` with `*pkt_len = pkt.length`, `*offset`, the argument `r` (`allow_realloc`), which is the
same in all calls of one build, and the answers `malloc`/`realloc` will give. -/
structure RBuf where
  pkt : List UInt8
  offset : Nat
  r : Bool
  alloc : Stream' Bool

/-- The octets written so far, as they will be sent. -/
def RBuf.out (s : RBuf) : List UInt8 := s.pkt.drop (s.pkt.length - s.offset)

/-- A reverse encoder: `error` is the return value 0. -/
abbrev Rb (α : Type) := ExceptT Unit (StateM RBuf) α

/-- The new size `Memory_reallocIncrease` asks for. -/
def reallocIncrease (bufLen : Nat) : Nat :=
  if bufLen ≤ 255 then bufLen + 256 else if bufLen ≤ 8191 then bufLen * 2 else bufLen + 8192

/-- `Asn01_realloc`, guarded by `r`: the old contents move to the end, blanks fill the start. -/
def realloc : Rb Unit := do
  let s ← get
  if s.r then
    if s.alloc.head then
      let blank := List.replicate (reallocIncrease s.pkt.length - s.pkt.length) (0x20 : UInt8)
      set { s with pkt := blank ++ s.pkt, alloc := s.alloc.tail }
    else
      set { s with alloc := s.alloc.tail }
      throw ()
  else throw ()

/-- `if ( ( ( *pkt_len - *offset ) < 1 ) && !( r && Asn01_realloc( pkt, pkt_len ) ) ) return 0;` -/
def room1 : Rb Unit := do
  let s ← get
  if s.pkt.length - s.offset < 1 then realloc else pure ()

/-- `while ( ( *pkt_len - *offset ) < n ) if ( !( r && Asn01_realloc( pkt, pkt_len ) ) ) return 0;`
A request adds 256 octets or more, so `n` rounds are enough. -/
def roomFor (n : Nat) : Nat → Rb Unit
  | 0 => pure ()
  | fuel + 1 => do
    let s ← get
    if s.pkt.length - s.offset < n then
      realloc
      roomFor n fuel
    else pure ()

/-- `*( *pkt + *pkt_len - ( ++*offset ) ) = b`. -/
def put (b : UInt8) : Rb Unit :=
  modify fun s =>
    { s with offset := s.offset + 1, pkt := s.pkt.set (s.pkt.length - (s.offset + 1)) b }

/-- `*offset += n; memcpy( *pkt + *pkt_len - *offset, str, n )`. -/
def putBytes (bs : List UInt8) : Rb Unit :=
  modify fun s =>
    let start := s.pkt.length - (s.offset + bs.length)
    { s with offset := s.offset + bs.length,
             pkt := s.pkt.take start ++ bs ++ s.pkt.drop (start + bs.length) }

/-! ## headers -/

/-- `while ( length > 0xff )` of `Asn01_reallocRbuildLength`: the octets of the length below the
highest, the highest is returned. `size_t` has eight octets. -/
def rbuildLengthLow : Nat → Nat → Rb Nat
  | 0, length => pure length
  | fuel + 1, length =>
    if length > 0xff then do
      room1
      put (UInt8.ofNat (length % 256))
      rbuildLengthLow fuel (length / 256)
    else pure length

def reallocRbuildLength (length : Nat) : Rb Unit := do
  let startOffset := (← get).offset
  if length ≤ 0x7f then
    room1
    put (UInt8.ofNat length)
  else
    let length ← rbuildLengthLow 8 length
    roomFor 2 2
    put (UInt8.ofNat (length % 256))
    let tmpInt := (← get).offset - startOffset
    put (UInt8.ofNat (tmpInt ||| 0x80))

def reallocBuildHeaderCheck (typedLength : Nat) : Rb Unit := do
  if (← get).pkt.length < typedLength then throw ()

/-- `Asn01_reallocBuildHeader`, which is also `Asn01_reallocRbuildSequence`. -/
def reallocBuildHeader (type : UInt8) (length : Nat) : Rb Unit := do
  reallocRbuildLength length
  room1
  put type

/-- The end of every value encoder: the header around what lies behind `startOffset`. -/
def closeHeader (type : UInt8) (startOffset : Nat) : Rb Unit := do
  reallocBuildHeader type ((← get).offset - startOffset)
  -- `*offset` is read again here, so the header counts
  reallocBuildHeaderCheck ((← get).offset - startOffset)

/-! ## integers -/

/-- `while ( integer != testvalue )` with the octet written in front each round. A `long` has eight
octets. -/
def rbuildShift (testvalue : Int) : Nat → Int → Rb Unit
  | 0, _ => pure ()
  | fuel + 1, integer =>
    if integer = testvalue then pure ()
    else do
      room1
      put (Octets.lowOctet integer)
      rbuildShift testvalue fuel (integer / 256)

/-- The octet last written: `*( *pkt + *pkt_len - *offset )`. -/
def lastPut : Rb UInt8 := do
  let s ← get
  return s.pkt.getD (s.pkt.length - s.offset) 0

/-- Make the top bit stand for the bits that are not encoded. -/
def rbuildSign (testvalue : Int) : Rb Unit := do
  if Octets.hiBit (← lastPut) ≠ decide (testvalue = -1) then
    room1
    put (Octets.lowOctet testvalue)

/-- The octets of an integer: the first always, then as long as there is something left, then the
sign. -/
def rbuildInteger (testvalue integer : Int) : Rb Unit := do
  room1
  put (Octets.lowOctet integer)
  rbuildShift testvalue 8 (integer / 256)
  rbuildSign testvalue

def reallocRbuildInt (type : UInt8) (intp : Int) (intsize : Nat) : Rb Unit := do
  let startOffset := (← get).offset
  if intsize ≠ 8 then throw ()
  let integer := checkOverflowSigned intp
  let testvalue : Int := if integer < 0 then -1 else 0
  rbuildInteger testvalue integer
  closeHeader type startOffset

def reallocRbuildUnsignedInt (type : UInt8) (intp : Nat) (intsize : Nat) : Rb Unit := do
  let startOffset := (← get).offset
  if intsize ≠ 8 then throw ()
  rbuildInteger 0 (checkOverflowUnsigned intp)
  closeHeader type startOffset

/-- The special tag and the Opaque wrapper around the `intsize` octets just written. -/
def closeOpaque (special : UInt8) (intsize : Nat) : Rb Unit := do
  put (UInt8.ofNat intsize)
  put special
  put asnOPAQUE_TAG1
  reallocBuildHeader asnOPAQUE (intsize + 3)
  reallocBuildHeaderCheck (intsize + 3)

/-- The loop over `low`: the octets written are counted. -/
def rbuildLow (testvalue : Int) : Nat → Int → Nat → Rb Nat
  | 0, _, count => pure count
  | fuel + 1, low, count =>
    if low = testvalue then pure count
    else do
      room1
      put (Octets.lowOctet low)
      rbuildLow testvalue fuel (low / 256) (count + 1)

/-- `for ( ; count < 4; count++ )`: the rest of the low word. -/
def rbuildFill (pad : UInt8) : Nat → Rb Unit
  | 0 => pure ()
  | left + 1 => do
    room1
    put pad
    rbuildFill pad left

/-- The high word if it is more than sign, after the rest of the low word. -/
def rbuildHigh (testvalue high : Int) (count : Nat) : Rb Unit := do
  if high ≠ testvalue then
    rbuildFill (Octets.lowOctet testvalue) (4 - count)
    room1
    put (Octets.lowOctet high)
    rbuildShift testvalue 4 (high / 256)

/-- The octets of a 64-bit value given as two words, shared by the signed and the unsigned encoder:
`testvalue` is 0 or -1, and the words are shifted until they reach it. The low word is shifted four
times at most. -/
def rbuildWords (testvalue high low : Int) : Rb Unit := do
  room1
  put (Octets.lowOctet low)
  let count ← rbuildLow testvalue 3 (low / 256) 1
  rbuildHigh testvalue high count
  rbuildSign testvalue

def reallocRbuildUnsignedInt64 (type : UInt8) (high low : UInt32) (countersize : Nat) : Rb Unit := do
  let startOffset := (← get).offset
  if countersize ≠ 8 then throw ()
  rbuildWords 0 high.toNat low.toNat
  let intsize := (← get).offset - startOffset
  if type = asnOPAQUE_COUNTER64 then
    roomFor 5 5
    closeOpaque asnOPAQUE_COUNTER64 intsize
  else if type = asnOPAQUE_U64 then
    roomFor 5 5
    closeOpaque asnOPAQUE_U64 intsize
  else
    reallocBuildHeader type intsize
    reallocBuildHeaderCheck intsize

/-- `Asn01_reallocRbuildSignedInt64`; `high` and `low` are read as `int32_t`. -/
def reallocRbuildSignedInt64 (high low : UInt32) (countersize : Nat) : Rb Unit := do
  let startOffset := (← get).offset
  let high := high.toInt32.toInt
  let low := low.toInt32.toInt
  let testvalue : Int := if high < 0 then -1 else 0
  if countersize ≠ 8 then throw ()
  rbuildWords testvalue high low
  let intsize := (← get).offset - startOffset
  roomFor 5 5
  closeOpaque asnOPAQUE_I64 intsize

/-! ## floating point -/

/-- The shape shared by the two floating encoders, the bits in network order. -/
def rbuildFloating (special : UInt8) (octets : List UInt8) (size : Nat) : Rb Unit := do
  if octets.length ≠ size ∨ size > 122 then throw ()
  roomFor (size + 3) (size + 3)
  putBytes octets
  closeOpaque special size

/-- The octets of a word, most significant first. -/
def wordOctets : Nat → Nat → List UInt8
  | 0, _ => []
  | n + 1, v => wordOctets n (v / 256) ++ [UInt8.ofNat (v % 256)]

def reallocRbuildFloat (bits : UInt32) (floatsize : Nat) : Rb Unit :=
  rbuildFloating asnOPAQUE_FLOAT (wordOctets 4 bits.toNat) floatsize

def reallocRbuildDouble (bits : UInt64) (doublesize : Nat) : Rb Unit :=
  rbuildFloating asnOPAQUE_DOUBLE (wordOctets 8 bits.toNat) doublesize

/-! ## strings, NULL -/

/-- `Asn01_reallocRbuildString`, and with another tag `Asn01_reallocRbuildBitstring`. -/
def reallocRbuildString (type : UInt8) (str : List UInt8) : Rb Unit := do
  roomFor str.length str.length
  putBytes str
  reallocBuildHeader type str.length
  reallocBuildHeaderCheck str.length

/-- `Asn01_reallocRbuildBitstring`; unlike the forward encoder it does not call
`_Asn01_bitStringCheck`. -/
def reallocRbuildBitstring (type : UInt8) (str : List UInt8) : Rb Unit :=
  reallocRbuildString type str

def reallocRbuildNull (type : UInt8) : Rb Unit := reallocBuildHeader type 0

/-! ## object identifiers -/

/-- `while ( tmpint > 0 )`: the groups in front of the last one. An `oid` has 32 bits. -/
def rbuildGroups : Nat → Nat → Rb Unit
  | 0, _ => pure ()
  | fuel + 1, tmpint =>
    if tmpint = 0 then pure ()
    else do
      room1
      put (UInt8.ofNat (tmpint % 128 + 128))
      rbuildGroups fuel (tmpint / 128)

/-- One subidentifier, its last group first. -/
def rbuildSubid (tmpint : Oid) : Rb Unit := do
  room1
  put (UInt8.ofNat (tmpint.toNat % 128))
  rbuildGroups 4 (tmpint.toNat / 128)

/-- `for ( i = objidlength; i > 2; i-- )`. -/
def rbuildSubids : List Oid → Rb Unit
  | [] => pure ()
  | s :: rest => do
    rbuildSubids rest
    rbuildSubid s

def reallocRbuildObjid (type : UInt8) (objid : ObjId) : Rb Unit := do
  let startOffset := (← get).offset
  match objid with
  | [] => do
    roomFor 2 2
    put 0
    put 0
  | x :: rest => do
    if x > 2 then throw ()
    match rest with
    | [] => do
      room1
      put (UInt8.ofNat (x.toNat % 256))
    | y :: rest => do
      rbuildSubids rest
      if y > 40 ∧ x < 2 then throw ()
      -- `( objid[ 0 ] * 40 ) + objid[ 1 ]` in 32-bit arithmetic
      rbuildSubid (x * 40 + y)
  closeHeader type startOffset

end Priot.Asn01
