/-
# `ReadConfig.c` — values on a configuration line

`ReadConfig_storeDataPrefix` writes a value behind what the line holds, `ReadConfig_readData` reads one. A string that
is read is what is left of the line from a pointer on; `none` is `NULL`. The locale is `C`, allocations succeed.
-/
import Priot.Mib.ReadObjid

namespace Priot.ReadConfig

open Lib

/-! ## data -/

/-- The types of the two switches; `other` is every other type. -/
inductive DataType
  | integer | timeticks | unsigned | ipaddress | octetStr | bitStr | objectId | other
  deriving DecidableEq, Repr

/-- What `dataptr` and `len` stand for: a string is `none` where the pointer is `NULL`, and an address has its
octets in the order of the network. -/
inductive Data
  | integer (v : Int32)
  | timeticks (v : UInt32)
  | unsigned (v : UInt32)
  | ipaddress (a b c d : UInt8)
  | octetStr (s : Option (List UInt8))
  | bitStr (s : Option (List UInt8))
  | objectId (o : ObjId)
  deriving DecidableEq

def Data.type : Data → DataType
  | integer _ => .integer
  | timeticks _ => .timeticks
  | unsigned _ => .unsigned
  | ipaddress _ _ _ _ => .ipaddress
  | octetStr _ => .octetStr
  | bitStr _ => .bitStr
  | objectId _ => .objectId

def MAX_BUFFER : Nat := 4096

def SPRINT_MAX_LEN : Nat := 2560

/-! ## storing -/

def inetNtoa (a b c d : UInt8) : Text :=
  decimal a.toNat ++ 46 :: decimal b.toNat ++ 46 :: decimal c.toNat ++ 46 :: decimal d.toNat

/-- `isalpha( c ) || isdigit( c ) || c == ' '`. -/
def isPlain (c : UInt8) : Bool := isalpha c || isdigit c || c == 32

/-- What `ReadConfig_saveOctetString` writes. -/
def saveOctetString (s : Option (List UInt8)) : Text :=
  match s with
  | none => [34, 34]
  | some str =>
    if str.length ≠ 0 ∧ str.all isPlain = true then 34 :: str ++ [34] else 48 :: 120 :: str.flatMap hex2

/-- What is written for a value by a function that begins at `storeto`, behind the prefix. An OID without
subidentifiers is not such a value. -/
def Data.text : Data → Text
  | integer v => signedDecimal v.toInt
  | timeticks v | unsigned v => decimal v.toNat
  | ipaddress a b c d => inetNtoa a b c d
  | octetStr s | bitStr s => saveOctetString s
  | objectId o => Mib.dotted o

/-- Some octets and a zero written over the beginning of a buffer; the rest begins with that zero. Nothing
where the buffer is too short. -/
def write (t : Text) (buf : List UInt8) : Option (Text × List UInt8) :=
  if t.length + 1 ≤ buf.length then some (t, 0 :: buf.drop (t.length + 1)) else none

/-- `strcat` behind a first octet: what stands there is kept up to its zero, and must have one. -/
def strcatBehind (c : UInt8) (t : Text) (buf : List UInt8) : Option (Text × List UInt8) :=
  let old := (buf.drop 1).takeWhile (· != 0)
  if old.length < (buf.drop 1).length then write (c :: old ++ t) buf else none

/-- `ReadConfig_storeDataPrefix` from `storeto` on: what the line has got, and the buffer from the pointer that
is returned on. -/
def storeDataPrefix (pre : UInt8) (data : Data) (storeto : List UInt8) : Option (Text × List UInt8) :=
  match data with
  | .objectId [] => strcatBehind pre [78, 85, 76, 76] storeto
  | data => write (pre :: data.text) storeto

def storeData (data : Data) (storeto : List UInt8) : Option (Text × List UInt8) :=
  storeDataPrefix 32 data storeto

/-- Values stored one after the other: what each has added to the line. -/
def storeAll : List Data → List UInt8 → Option (List Text)
  | [], _ => some []
  | data :: rest, storeto =>
    match storeData data storeto with
    | none => none
    | some (piece, storeto) => (storeAll rest storeto).map (piece :: ·)

/-! ## tokens -/

/-- The end of the line, or a comment. -/
def orNull (ptr : Text) : Option Text := if ptr.head? = none ∨ ptr.head? = some 35 then none else some ptr

/-- `ReadConfig_skipWhiteConst`. -/
def skipWhite (ptr : Text) : Option Text := orNull (ptr.dropWhile isspace)

/-- `ReadConfig_skipNotWhiteConst`. -/
def skipNotWhite (ptr : Text) : Option Text := orNull (ptr.dropWhile fun c => !isspace c)

/-- `ReadConfig_skipTokenConst`. -/
def skipToken (ptr : Text) : Option Text := ((skipWhite ptr).bind skipNotWhite).bind skipWhite

/-- A token up to a character, with a backslash in front of one that is to be taken as it is: the token, and
the text from the character on. -/
def scanWord (stop : UInt8 → Bool) : Text → Text × Text
  | [] => ([], [])
  | [c] => if stop c then ([], [c]) else ([c], [])
  | c :: c' :: t =>
    if stop c then ([], c :: c' :: t)
    else if c = 92 then (c' :: (scanWord stop t).1, (scanWord stop t).2)
    else (c :: (scanWord stop (c' :: t)).1, (scanWord stop (c' :: t)).2)

/-- `ReadConfig_copyNwordConst` into `len` octets: the pointer that is returned, and the word up to its zero. -/
def copyNword (ptr : Text) (len : Nat) : Option Text × Text :=
  if ptr.head? = some 34 ∨ ptr.head? = some 39 then
    let (word, rest) := scanWord (fun c => some c == ptr.head?) (ptr.drop 1)
    (skipWhite (rest.drop 1), word.take (len - 1))
  else
    let (word, rest) := scanWord isspace ptr
    (skipWhite rest, word.take (len - 1))

/-! ## reading -/

/-- The loop over the pairs of hexadecimal digits. -/
def readHex : Nat → Text → Option (List UInt8 × Text)
  | 0, readfrom => some ([], readfrom)
  | n + 1, readfrom =>
    match sscanf2x readfrom with
    | none => none
    | some tmp => (readHex n (readfrom.drop 2)).map fun (s, rest) => (UInt8.ofNat tmp :: s, rest)

/-- `ilen`: how far it is to the next white space, or else to the end. -/
def hexLength (readfrom : Text) : Nat :=
  match skipNotWhite readfrom with
  | some cptr1 => readfrom.length - cptr1.length
  | none => readfrom.length

/-- `ReadConfig_readOctetStringConst` into a string of `len` octets, or one that is to be allocated. What is
returned, and the octets with their number where they are set. -/
def readOctetString (readfrom : Text) (len : Option Nat) : Option Text × Option (List UInt8) :=
  if readfrom.head? = some 48 ∧ ((readfrom.drop 1).head? = some 120 ∨ (readfrom.drop 1).head? = some 88) then
    let readfrom := readfrom.drop 2
    let ilen := hexLength readfrom
    if ilen % 2 ≠ 0 then (none, none)
    else if len.any (ilen / 2 ≥ ·) then ((skipNotWhite readfrom).bind skipWhite, some [])
    else
      match readHex (ilen / 2) readfrom with
      | none => (none, none)
      | some (s, rest) => (skipWhite rest, some s)
  else
    let (next, word) := copyNword readfrom (len.getD MAX_BUFFER)
    (next, some word)

/-- `ReadConfig_readObjidConst` into `len` subidentifiers, or an array that is to be allocated. -/
def readObjid (mib : Mib.MibState) (readfrom : Text) (len : Option Nat) : Option Text × Option ObjId :=
  if readfrom.take 4 = [78, 85, 76, 76] then (skipToken readfrom, some [])
  else
    match Mib.readObjid mib (copyNword readfrom SPRINT_MAX_LEN).2 (len.getD TYPES_MAX_OID_LEN) with
    | none => (none, some [])
    | some o => (skipToken readfrom, some o)

/-- The parts of an address: numbers with dots between them, up to an end or white space. -/
def inetParts : Nat → Text → Option (List Nat)
  | 0, _ => none
  | n + 1, t =>
    if (t.head?.any isdigit) = false then none
    else
      let (v, rest) := strtoul 0 t
      if v > 0xffffffff then none
      else
        match rest with
        | [] => some [v]
        | c :: rest =>
          if c = 46 then if v > 255 then none else (inetParts n rest).map (v :: ·)
          else if isspace c then some [v]
          else none

/-- The address of up to four parts; the last fills the octets that are left. -/
def inetValue (parts : List Nat) : Option Nat :=
  match parts with
  | [a] => some a
  | [a, b] => if b ≤ 0xffffff then some (a * 2 ^ 24 + b) else none
  | [a, b, c] => if c ≤ 0xffff then some (a * 2 ^ 24 + b * 2 ^ 16 + c) else none
  | [a, b, c, d] => if d ≤ 0xff then some (a * 2 ^ 24 + b * 2 ^ 16 + c * 2 ^ 8 + d) else none
  | _ => none

/-- `inet_addr`: the octets of the address, all of them 255 where the text is none. -/
def inetAddr (t : Text) : UInt8 × UInt8 × UInt8 × UInt8 :=
  let v := ((inetParts 4 t).bind inetValue).getD 0xffffffff
  (UInt8.ofNat (v / 2 ^ 24), UInt8.ofNat (v / 2 ^ 16), UInt8.ofNat (v / 2 ^ 8), UInt8.ofNat v)

/-- `255.255.255.255`. -/
def BROADCAST : Text := inetNtoa 255 255 255 255

/-- `ReadConfig_readData` at `readfrom`: the pointer that is returned, and the data where it is set. Strings and OIDs
are read into `len` elements, or into memory that is to be allocated. -/
def readData (mib : Mib.MibState) (type : DataType) (readfrom : Text) (len : Option Nat) :
    Option Text × Option Data :=
  match type with
  | .integer => (skipToken readfrom, some (.integer (atoi readfrom)))
  | .timeticks => (skipToken readfrom, some (.timeticks (UInt32.ofNat (strtoul 0 readfrom).1)))
  | .unsigned => (skipToken readfrom, some (.unsigned (UInt32.ofNat (strtoul 0 readfrom).1)))
  | .ipaddress =>
    let (a, b, c, d) := inetAddr readfrom
    (if (a, b, c, d) = (255, 255, 255, 255) ∧ readfrom.take 15 ≠ BROADCAST then none else skipToken readfrom,
      some (.ipaddress a b c d))
  | .octetStr =>
    let (next, s) := readOctetString readfrom len
    (next, s.map fun s => .octetStr (some s))
  | .bitStr =>
    let (next, s) := readOctetString readfrom len
    (next, s.map fun s => .bitStr (some s))
  | .objectId =>
    let (next, o) := readObjid mib readfrom len
    (next, o.map .objectId)
  | .other => (none, none)

end Priot.ReadConfig
