/-
# `Asn01.c`, the forward encoders — `Asn01_buildLength` … `Asn01_buildDouble`

A forward encoder writes at `data` and counts down `*datalength`, the room left in the buffer. It
returns the place behind what it has written, or `NULL`; then the message is given up, so failure
needs no state.
-/
import Priot.Asn01.Rbuild

namespace Priot.Asn01

/-! ## the buffer -/

/-- The octets written since the message was begun, and `*datalength`. -/
structure WBuf where
  out : List UInt8
  left : Nat

/-- A forward encoder: `none` is `NULL`. -/
abbrev Build (α : Type) := StateT WBuf Option α

/-- `*data++ = …` for each octet. -/
def emit (bs : List UInt8) : Build Unit := modify fun s => { s with out := s.out ++ bs }

/-- `*datalength -= n`. -/
def spend (n : Nat) : Build Unit := modify fun s => { s with left := s.left - n }

/-- `if ( *datalength < n ) return NULL;`, and `_Asn01_buildHeaderCheck`. -/
def buildHeaderCheck (n : Nat) : Build Unit := do
  guard (¬ (← get).left < n)

/-! ## headers -/

/-- `Asn01_buildLength`; a length above `0xffff` loses its high octets. -/
def buildLength (length : Nat) : Build Unit := do
  if length < 0x80 then
    buildHeaderCheck 1
    emit [UInt8.ofNat length]
    spend 1
  else if length ≤ 0xff then
    buildHeaderCheck 2
    emit [0x81, UInt8.ofNat length]
    spend 2
  else
    buildHeaderCheck 3
    emit [0x82, UInt8.ofNat (length / 256 % 256), UInt8.ofNat (length % 256)]
    spend 3

def buildHeader (type : UInt8) (length : Nat) : Build Unit := do
  buildHeaderCheck 1
  emit [type]
  spend 1
  buildLength length

/-- The four octets of `Asn01_buildSequence`. -/
def sequenceOctets (type : UInt8) (length : Nat) : List UInt8 :=
  [type, 0x82, UInt8.ofNat (length / 256 % 256), UInt8.ofNat (length % 256)]

def buildSequence (type : UInt8) (length : Nat) : Build Unit := do
  buildHeaderCheck 4
  spend 4
  emit (sequenceOctets type length)

/-- `Asn01_buildSequence` at an earlier place `h` of the message, with a length counter of its own.
Its result is not asked for. -/
def buildSequenceAt (h datalength : Nat) (type : UInt8) (length : Nat) : Build Unit := do
  if ¬ datalength < 4 then
    modify fun s => { s with out := s.out.take h ++ sequenceOctets type length ++ s.out.drop (h + 4) }

/-! ## integers -/

/-- `while ( ( ( integer & mask ) == 0 || ( integer & mask ) == mask ) && intSize > 1 )` on a
`u_long`, `mask` being its nine top bits: the integer moved up and the octets it keeps. -/
def trimLong (integer : Nat) : Nat → Nat × Nat
  | 0 => (integer, 0)
  | 1 => (integer, 1)
  | intSize + 2 =>
    if integer / 2 ^ 55 = 0 ∨ integer / 2 ^ 55 = 0x1ff then
      trimLong (integer * 256 % 2 ^ 64) (intSize + 1)
    else (integer, intSize + 2)

/-- `while ( intSize-- )` with the top octet of a `u_long` written each round. -/
def longOctets (integer : Nat) : Nat → List UInt8
  | 0 => []
  | intSize + 1 =>
    UInt8.ofNat (integer / 2 ^ 56) :: longOctets (integer * 256 % 2 ^ 64) intSize

def buildInt (type : UInt8) (intPointer : Int) (intSize : Nat) : Build Unit := do
  guard (intSize = 8)
  let integer := (checkOverflowSigned intPointer % 2 ^ 64).toNat
  let (integer, intSize) := trimLong integer intSize
  buildHeader type intSize
  buildHeaderCheck intSize
  spend intSize
  emit (longOctets integer intSize)

def buildUnsignedInt (type : UInt8) (intp : Nat) (intsize : Nat) : Build Unit := do
  guard (intsize = 8)
  let integer := checkOverflowUnsigned intp
  if integer / 2 ^ 63 = 1 then
    buildHeader type (intsize + 1)
    buildHeaderCheck (intsize + 1)
    spend (intsize + 1)
    emit (0 :: longOctets integer intsize)
  else
    let (integer, intsize) := trimLong integer intsize
    buildHeader type intsize
    buildHeaderCheck intsize
    spend intsize
    emit (longOctets integer intsize)

/-- One octet up in the pair `high`, `low`. -/
def shiftWords (w : Nat × Nat) : Nat × Nat :=
  (w.1 % 2 ^ 24 * 256 + w.2 % 2 ^ 32 / 2 ^ 24, w.2 % 2 ^ 24 * 256)

/-- The trimming loop on the pair; `mask2` is the nine top bits of the 32 of `high`. -/
def trimWords (w : Nat × Nat) : Nat → (Nat × Nat) × Nat
  | 0 => (w, 0)
  | 1 => (w, 1)
  | intsize + 2 =>
    if w.1 % 2 ^ 32 / 2 ^ 23 = 0 ∨ w.1 % 2 ^ 32 / 2 ^ 23 = 0x1ff then
      trimWords (shiftWords w) (intsize + 1)
    else (w, intsize + 2)

/-- The writing loop on the pair: `*data++ = ( u_char )( high >> 24 )`. -/
def wordsOctets (w : Nat × Nat) : Nat → List UInt8
  | 0 => []
  | intsize + 1 => UInt8.ofNat (w.1 / 2 ^ 24 % 256) :: wordsOctets (shiftWords w) intsize

/-- The header of a value inside an Opaque. -/
def buildOpaqueHeader (special : UInt8) (intsize : Nat) : Build Unit := do
  buildHeader asnOPAQUE (intsize + 3)
  buildHeaderCheck (intsize + 3)
  emit [asnOPAQUE_TAG1, special, UInt8.ofNat intsize]
  spend 3

/-- The three headers `Asn01_buildUnsignedInt64` chooses from. -/
def buildCounter64Header (type : UInt8) (intsize : Nat) : Build Unit := do
  if type = asnOPAQUE_COUNTER64 then buildOpaqueHeader asnOPAQUE_COUNTER64 intsize
  else if type = asnOPAQUE_U64 then buildOpaqueHeader asnOPAQUE_U64 intsize
  else
    buildHeader type intsize
    buildHeaderCheck intsize

def buildUnsignedInt64 (type : UInt8) (high low : UInt32) (countersize : Nat) : Build Unit := do
  guard (countersize = 8)
  let w := (checkOverflowUnsigned high.toNat, checkOverflowUnsigned low.toNat)
  if w.1 / 2 ^ 31 % 2 = 1 then
    buildCounter64Header type 9
    spend 9
    emit (0 :: wordsOctets w 8)
  else
    let (w, intsize) := trimWords w 8
    buildCounter64Header type intsize
    spend intsize
    emit (wordsOctets w intsize)

/-- `Asn01_buildSignedInt64`. `high` is a `long` here, but only its low 32 bits are looked at. -/
def buildSignedInt64 (high low : UInt32) (countersize : Nat) : Build Unit := do
  guard (countersize = 8)
  let w := ((checkOverflowSigned high.toNat % 2 ^ 32).toNat, checkOverflowUnsigned low.toNat)
  let (w, intsize) := trimWords w 8
  buildOpaqueHeader asnOPAQUE_I64 intsize
  spend intsize
  emit (wordsOctets w intsize)

/-! ## floating point, strings, NULL -/

/-- The shape shared by the two floating encoders, the bits in network order. -/
def buildFloating (special : UInt8) (octets : List UInt8) (size : Nat) : Build Unit := do
  guard (size = octets.length)
  buildOpaqueHeader special size
  spend size
  emit octets

def buildFloat (bits : UInt32) (floatsize : Nat) : Build Unit :=
  buildFloating asnOPAQUE_FLOAT (wordOctets 4 bits.toNat) floatsize

def buildDouble (bits : UInt64) (doublesize : Nat) : Build Unit :=
  buildFloating asnOPAQUE_DOUBLE (wordOctets 8 bits.toNat) doublesize

def buildString (type : UInt8) (str : List UInt8) : Build Unit := do
  buildHeader type str.length
  buildHeaderCheck str.length
  emit str
  spend str.length

def buildBitstring (type : UInt8) (str : List UInt8) : Build Unit := do
  -- `_Asn01_bitStringCheck`
  guard (¬ str.length < 1)
  buildString type str

def buildNull (type : UInt8) : Build Unit := buildHeader type 0

/-! ## object identifiers -/

/-- `objid_size[ i ]`. -/
def subidSize (objidVal : Nat) : Nat :=
  if objidVal < 0x80 then 1
  else if objidVal < 0x4000 then 2
  else if objidVal < 0x200000 then 3
  else if objidVal < 0x10000000 then 4
  else 5

/-- The groups `objid_val >> 7 * n & 0x7f` in front of the last one, with the top bit set. -/
def subidGroups (objidVal : Nat) : Nat → List UInt8
  | 0 => []
  | n + 1 => UInt8.ofNat (objidVal / 128 ^ (n + 1) % 128 + 128) :: subidGroups objidVal n

/-- `switch ( objid_size[ i ] )`. The highest group needs no mask, since the value has no more. -/
def buildSubid (objidVal : Nat) : List UInt8 :=
  subidGroups objidVal (subidSize objidVal - 1) ++ [UInt8.ofNat (objidVal % 128)]

/-- The values to encode: `first_objid_val`, then `op[ 2 ]`, `op[ 3 ]`, …; `none` for a refusal. The
first two are combined in 32-bit arithmetic. -/
def buildObjidValues : ObjId → Option (List Oid)
  | [] => some [0]
  | [x] => if x > 2 then none else some [x * 40]
  | x :: y :: rest =>
    if x > 2 then none
    else if y > 40 ∧ x < 2 then none
    else some ((x * 40 + y) :: rest)

def buildObjid (type : UInt8) (objid : ObjId) : Build Unit := do
  let values ← (buildObjidValues objid : Option (List Oid))
  guard (¬ objid.length > TYPES_MAX_OID_LEN)
  let asnlength := (values.map fun v => subidSize v.toNat).sum
  buildHeader type asnlength
  buildHeaderCheck asnlength
  emit (values.flatMap fun v => buildSubid v.toNat)
  spend asnlength

end Priot.Asn01
