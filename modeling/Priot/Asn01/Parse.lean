/-
# `Asn01.c`, the decoders — `Asn01_parseLength` … `Asn01_parseDouble`

Each decoder is given the memory at its data pointer and `*datalength`; the pointer it returns is `data` advanced by
`used` octets. `*type` is an output even when the decoder fails. The size arguments are `sizeof` the target at every
call and are put in as constants.
-/
import Priot.Asn01.Types
import Priot.Lib.Octets

namespace Priot.Asn01

open Octets

/-! ## lengths -/

/-- What `Asn01_parseLength` leaves: the value stored in `*length`, if any, and the octets up to the
pointer returned, `none` for `NULL`. -/
structure LengthOut where
  length : Option Nat
  next : Option Nat
  deriving DecidableEq

/-- `Asn01_parseLength`. The long form has at most `sizeof( long )` octets, so `<<= 8` loses no
bit. -/
def parseLength (data : Mem) : LengthOut :=
  let lengthbyte := data.head
  if hiBit lengthbyte then
    let count := lengthbyte.toNat % 128
    if count = 0 then ⟨none, none⟩
    else if count > 8 then ⟨none, none⟩
    else
      let length := Octets.beNat (data.tail.take count)
      -- `( long )*length < 0`
      if length ≥ 2 ^ 63 then ⟨some length, none⟩ else ⟨some length, some (1 + count)⟩
  else ⟨some lengthbyte.toNat, some 1⟩

/-- `_Asn01_parseLengthCheck`, `true` on error; `dataField` counts from `data`. -/
def parseLengthCheck (dataField : Option Nat) (length rightLength : Nat) : Bool :=
  match dataField with
  | none => true
  | some headerLen =>
    length > 0x7fffffff || headerLen > 0x7fffffff || length + headerLen > rightLength

/-- `bufp = Asn01_parseLength( bufp, &asn_length )` with `bufp = data + off`, followed by the check:
`asn_length` and the new `bufp - data`. -/
def parseLengthAt (data : Mem) (off rightLength : Nat) : Option (Nat × Nat) :=
  let out := parseLength (data.drop off)
  match out.length, out.next with
  | some length, some k =>
    if parseLengthCheck (some (off + k)) length rightLength then none else some (length, off + k)
  | _, _ => none

/-! ## results -/

/-- A decoded value, what is left of `*datalength`, and the octets up to the returned pointer. -/
structure Parsed (α : Type) where
  value : α
  datalength : Nat
  used : Nat
  deriving DecidableEq

/-- A decoder's `*type` and its result, `none` for `NULL`. -/
structure ParseOut (α : Type) where
  type : UInt8
  result : Option (Parsed α)
  deriving DecidableEq

def checkOverflowSigned (x : Int) : Int :=
  if x > 0x7fffffff then x % 2 ^ 32
  else if x < -0x80000000 then 0 - x % 2 ^ 32
  else x

def checkOverflowUnsigned (x : Nat) : Nat := if x > 0xffffffff then x % 2 ^ 32 else x

/-! ## integers -/

def parseInt (data : Mem) (dataLength : Nat) : ParseOut Int :=
  let type := data.head
  ⟨type, do
    guard (type = asnINTEGER)
    let (asnLength, bufp) ← parseLengthAt data 1 dataLength
    guard (¬ (asnLength > 8 ∨ asnLength = 0))
    let value := Octets.signed ((data.drop bufp).take asnLength)
    return ⟨checkOverflowSigned value, dataLength - (asnLength + bufp), bufp + asnLength⟩⟩

/-- The loop `value = ( value << 8 ) | *bufp++` on a `u_long`. -/
def shiftInUlong (value : Nat) (bs : List UInt8) : Nat :=
  bs.foldl (fun v b => (v * 256 + b.toNat) % 2 ^ 64) value

def parseUnsignedInt (data : Mem) (datalength : Nat) : ParseOut Nat :=
  let type := data.head
  ⟨type, do
    guard (type = asnCOUNTER ∨ type = asnGAUGE ∨ type = asnTIMETICKS ∨ type = asnUINTEGER)
    let (asnLength, bufp) ← parseLengthAt data 1 datalength
    let first := data.get bufp
    guard (¬ (asnLength > 9 ∨ asnLength = 0 ∨ (asnLength = 9 ∧ first ≠ 0)))
    let value := if hiBit first then 2 ^ 64 - 1 else 0
    let value := shiftInUlong value ((data.drop bufp).take asnLength)
    return ⟨checkOverflowUnsigned value, datalength - (asnLength + bufp), bufp + asnLength⟩⟩

/-- One round of the loop that shifts an octet into the pair `high`, `low` of 32-bit words. -/
def shiftIn64 (w : Nat × Nat) (b : UInt8) : Nat × Nat :=
  (w.1 % 2 ^ 24 * 256 + w.2 % 2 ^ 32 / 2 ^ 24, w.2 % 2 ^ 24 * 256 + b.toNat)

/-- `Asn01_parseUnsignedInt64`; the value is `cp->high`, `cp->low`. -/
def parseUnsignedInt64 (data : Mem) (datalength : Nat) : ParseOut (UInt32 × UInt32) :=
  let type := data.head
  if ¬ (type = asnCOUNTER64 ∨ type = asnOPAQUE) then ⟨type, none⟩
  else match parseLengthAt data 1 datalength with
  | none => ⟨type, none⟩
  | some (asnLength, bufp) =>
    let finish (type : UInt8) (asnLength bufp : Nat) : ParseOut (UInt32 × UInt32) :=
      if asnLength > 9 ∨ (asnLength = 9 ∧ data.get bufp ≠ 0) then ⟨type, none⟩
      else
        let w := ((data.drop bufp).take asnLength).foldl shiftIn64 (0, 0)
        ⟨type, some ⟨(UInt32.ofNat w.1, UInt32.ofNat w.2), datalength - (asnLength + bufp),
          bufp + asnLength⟩⟩
    if type = asnOPAQUE ∧ asnLength ≤ 12 ∧ data.get bufp = asnOPAQUE_TAG1 ∧
        (data.get (bufp + 1) = asnOPAQUE_COUNTER64 ∨ data.get (bufp + 1) = asnOPAQUE_U64) then
      let type := data.get (bufp + 1)
      match parseLengthAt data (bufp + 2) datalength with
      | none => ⟨type, none⟩
      | some (asnLength, bufp) => finish type asnLength bufp
    else finish type asnLength bufp

def parseSignedInt64 (data : Mem) (datalength : Nat) : ParseOut (UInt32 × UInt32) :=
  let type := data.head
  match parseLengthAt data 1 datalength with
  | none => ⟨type, none⟩
  | some (asnLength, bufp) =>
    if type = asnOPAQUE ∧ asnLength ≤ 12 ∧ data.get bufp = asnOPAQUE_TAG1 ∧
        data.get (bufp + 1) = asnOPAQUE_I64 then
      let type := data.get (bufp + 1)
      match parseLengthAt data (bufp + 2) datalength with
      | none => ⟨type, none⟩
      | some (asnLength, bufp) =>
        if asnLength > 9 ∨ (asnLength = 9 ∧ data.get bufp ≠ 0) then ⟨type, none⟩
        else
          -- the sign is taken from `*bufp` without asking whether the value has an octet
          let start := if hiBit (data.get bufp) then (0xffffff, 0xffffffff) else (0, 0)
          let w := ((data.drop bufp).take asnLength).foldl shiftIn64 start
          ⟨type, some ⟨(UInt32.ofNat w.1, UInt32.ofNat w.2), datalength - (asnLength + bufp),
            bufp + asnLength⟩⟩
    else ⟨type, none⟩

/-! ## floating point -/

/-- The common shape of `Asn01_parseFloat` and `Asn01_parseDouble`: the special type, the length of
the Opaque around it, and the size of the value. -/
def parseFloating (special : UInt8) (berLen size : Nat) (data : Mem) (datalength : Nat) :
    ParseOut (List UInt8) :=
  let type := data.head
  match parseLengthAt data 1 datalength with
  | none => ⟨type, none⟩
  | some (asnLength, bufp) =>
    let finish (type : UInt8) (asnLength bufp : Nat) : ParseOut (List UInt8) :=
      if type ≠ special then ⟨type, none⟩
      else if asnLength ≠ size then ⟨type, none⟩
      else ⟨type, some ⟨(data.drop bufp).take asnLength, datalength - (asnLength + bufp), bufp⟩⟩
    if type = asnOPAQUE ∧ asnLength = berLen ∧ data.get bufp = asnOPAQUE_TAG1 ∧
        data.get (bufp + 1) = special then
      match parseLengthAt data (bufp + 2) datalength with
      | none => ⟨type, none⟩
      | some (asnLength, bufp) => finish special asnLength bufp
    else finish type asnLength bufp

/-- `Asn01_parseFloat`: `ntohl` makes the four octets the bits of the float. -/
def parseFloat (data : Mem) (datalength : Nat) : ParseOut UInt32 :=
  let out := parseFloating asnOPAQUE_FLOAT 7 4 data datalength
  ⟨out.type, out.result.map fun r => ⟨UInt32.ofNat (Octets.beNat r.value), r.datalength, r.used⟩⟩

/-- `Asn01_parseDouble`: `ntohl` on both halves, then the halves change places. -/
def parseDouble (data : Mem) (datalength : Nat) : ParseOut UInt64 :=
  let out := parseFloating asnOPAQUE_DOUBLE 11 8 data datalength
  ⟨out.type, out.result.map fun r => ⟨UInt64.ofNat (Octets.beNat r.value), r.datalength, r.used⟩⟩

/-! ## strings -/

/-- `Asn01_parseString`; the value is what is copied to `str`, its length the new `*strlength`. -/
def parseString (data : Mem) (datalength strlength : Nat) : ParseOut (List UInt8) :=
  let type := data.head
  ⟨type, do
    guard (type = asnOCTET_STR ∨ type = asnIPADDRESS ∨ type = asnOPAQUE ∨ type = asnNSAP)
    let (asnLength, bufp) ← parseLengthAt data 1 datalength
    guard (¬ asnLength > strlength)
    return ⟨(data.drop bufp).take asnLength, datalength - (asnLength + bufp), bufp + asnLength⟩⟩

def parseBitstring (data : Mem) (datalength strlength : Nat) : ParseOut (List UInt8) :=
  let type := data.head
  ⟨type, do
    guard (type = asnBIT_STR)
    let (asnLength, bufp) ← parseLengthAt data 1 datalength
    guard (¬ asnLength > strlength)
    -- `_Asn01_bitStringCheck`
    guard (¬ asnLength < 1)
    return ⟨(data.drop bufp).take asnLength, datalength - (asnLength + bufp), bufp + asnLength⟩⟩

/-! ## headers -/

/-- What `Asn01_parseHeader` leaves: `*type` when it has been stored, and the new `*datalength` with
the octets up to the returned pointer. -/
structure HeaderOut where
  type : Option UInt8
  result : Option (Nat × Nat)
  deriving DecidableEq

def parseHeader (data : Mem) (datalength : Nat) : HeaderOut :=
  let type := data.head
  if asnIsExtensionId type then ⟨none, none⟩
  else match parseLengthAt data 1 datalength with
  | none => ⟨some type, none⟩
  | some (asnLength, bufp) =>
    -- both content octets are looked at before it is known that there are any
    if type = asnOPAQUE ∧ data.get bufp = asnOPAQUE_TAG1 ∧
        isOpaqueSpecial (data.get (bufp + 1)) then
      let type := data.get (bufp + 1)
      ⟨some type, parseLengthAt data (bufp + 2) datalength⟩
    else ⟨some type, some (asnLength, bufp)⟩

def parseSequence (data : Mem) (datalength : Nat) (expectedType : UInt8) : Option (Nat × Nat) :=
  let out := parseHeader data datalength
  if out.type = some expectedType then out.result else none

/-! ## object identifiers -/

/-- The inner loop of `Asn01_parseObjid`: one subidentifier off the content, with the octet it ends
on and the content after it. The `u_long` shift drops bits on the left. -/
def parseSubid (subidentifier : Nat) : List UInt8 → Nat × UInt8 × List UInt8
  | [] => (subidentifier, 0, [])
  | b :: bs =>
    let subidentifier := (subidentifier * 128 % 2 ^ 64 + b.toNat % 128) % 2 ^ 64
    if hiBit b ∧ bs ≠ [] then parseSubid subidentifier bs else (subidentifier, b, bs)

/-- The outer loop, `objidlength` rounds at most; `*objidlength` on return stands beside the
subidentifiers read. Out of rounds before the content ends, `*objidlength` is put back to
`original`. -/
def parseSubids (original : Nat) : Nat → List UInt8 → Nat × Option (List Oid)
  | objidlength, [] => (objidlength, some [])
  | 0, _ :: _ => (original, none)
  | objidlength + 1, content =>
    let (subidentifier, lastByte, rest) := parseSubid 0 content
    if rest = [] ∧ hiBit lastByte then (objidlength, none)
    else if subidentifier > 0xffffffff then (objidlength, none)
    else
      let (left, subids) := parseSubids original objidlength rest
      (left, subids.map (UInt32.ofNat subidentifier :: ·))

/-- The first two subidentifiers share one encoded value. -/
def splitFirst (subidentifier : Oid) : Oid × Oid :=
  if subidentifier = 0x2b then (1, 3)
  else if subidentifier < 40 then (0, subidentifier)
  else if subidentifier < 80 then (1, subidentifier - 40)
  else (2, subidentifier - 80)

/-- The subidentifiers `objid[ 0 ]`, `objid[ 1 ]`, … once the encoded ones are known. An empty
content leaves `objid[ 1 ]` unused and the length at 1. -/
def objidOfSubids : List Oid → ObjId
  | [] => [0]
  | s :: subids => (splitFirst s).1 :: (splitFirst s).2 :: subids

/-- `Asn01_parseObjid` with `*objidlength` on entry; beside the result stands `*objidlength` as a
failing call leaves it. -/
def parseObjid (data : Mem) (datalength objidlength : Nat) : ParseOut ObjId × Nat :=
  let type := data.head
  if type ≠ asnOBJECT_ID then (⟨type, none⟩, objidlength)
  else match parseLengthAt data 1 datalength with
  | none => (⟨type, none⟩, objidlength)
  | some (asnLength, bufp) =>
    match parseSubids objidlength (objidlength - 1) ((data.drop bufp).take asnLength) with
    | (left, none) => (⟨type, none⟩, left)
    | (_, some subids) =>
      let objid := objidOfSubids subids
      (⟨type, some ⟨objid, datalength - (asnLength + bufp), bufp + asnLength⟩⟩, objid.length)

end Priot.Asn01
