/-
# A message that comes in

`Usm_processInMsg` reads the security parameters, finds the engine and the user, checks the message and takes out the
scoped PDU. A pointer into the message is the number of octets in front of it. The library for the ciphers is a
parameter. Statistics, the state reference and the report are left out, and memory is got.
-/
import Priot.Usm.Timeliness
import Priot.Usm.Estimate
import Priot.Usm.KeyChange
import Priot.Usm.UserList
import Priot.Asn01.Parse
import Mathlib.Data.List.TakeWhile

namespace Priot.Usm

open Asn01

/-! ## `Usm_parseSecurityParameters` -/

/-- A value, where the next octet is, and what is left of the octets. -/
structure Read (α : Type) where
  value : α
  next : Nat
  remaining : Nat

/-- `Asn01_parseSequence` at `ptr`. -/
def sequenceAt (wholeMsg : Mem) (ptr remaining : Nat) (type : UInt8) : Option (Read Unit) :=
  (parseSequence (wholeMsg.drop ptr) remaining type).map fun r => ⟨(), ptr + r.2, r.1⟩

/-- `Asn01_parseString` at `ptr`, when it is an octet string that is found. -/
def octetsAt (wholeMsg : Mem) (ptr remaining length : Nat) : Option (Read (List UInt8)) :=
  let out := parseString (wholeMsg.drop ptr) remaining length
  if out.type = asnOCTET_STR then out.result.map fun r => ⟨r.value, ptr + r.used, r.datalength⟩ else none

/-- `Asn_parseInt` at `ptr`, as a `u_int`. -/
def uintAt (wholeMsg : Mem) (ptr remaining : Nat) : Option (Read Nat) :=
  (parseInt (wholeMsg.drop ptr) remaining).result.map fun r =>
    ⟨(r.value % 2 ^ 32).toNat, ptr + r.used, r.datalength⟩

/-- `memset( ptr, 0, length )`. -/
def blank (wholeMsg : Mem) (ptr length : Nat) : Mem :=
  (wholeMsg.take ptr ++ List.replicate length 0) ++ₛ wholeMsg.drop (ptr + length)

/-- What is returned when nothing has been read. -/
def orReturn {α ε : Type} (rc : ε) : Option α → Except ε α
  | some a => .ok a
  | none => .error rc

/-- What is returned unless the condition holds. -/
def check {ε : Type} (rc : ε) (condition : Prop) [Decidable condition] : Except ε Unit :=
  if condition then .ok () else .error rc

theorem orReturn_eq_ok {α ε : Type} {rc : ε} {o : Option α} {a : α} (h : orReturn rc o = .ok a) : o = some a := by
  cases o with
  | none => cases h
  | some b =>
    cases h
    rfl

theorem check_eq_ok {ε : Type} {rc : ε} {condition : Prop} [Decidable condition] {u : Unit}
    (h : check rc condition = .ok u) : condition := by
  unfold check at h
  split at h
  · assumption
  · cases h

/-- The security parameters, and the message with the signature blanked. -/
structure SecurityParameters where
  secEngineID : List UInt8
  boots : Nat
  time : Nat
  secName : List UInt8
  signature : List UInt8
  salt : List UInt8
  dataPtr : Nat
  wholeMsg : Mem

/-- `UTILITIES_BYTE_SIZE( USM_MAX_KEYEDHASH_LENGTH )`. -/
def MAX_KEYEDHASH_SIZE : Nat := 16

/-- `UTILITIES_BYTE_SIZE( USM_MAX_SALT_LENGTH )`. -/
def MAX_SALT_SIZE : Nat := 16

def parseSecurityParameters (wholeMsg : Mem) (secParams remaining secEngineIDLen secNameLen : Nat) :
    Except Int SecurityParameters := do
  let octetString ← orReturn (-1) (sequenceAt wholeMsg secParams remaining asnOCTET_STR)
  let sequence ← orReturn (-1) (sequenceAt wholeMsg octetString.next octetString.remaining asnSEQUENCE_CONSTRUCTOR)
  let engineID ← orReturn (-1) (octetsAt wholeMsg sequence.next sequence.remaining secEngineIDLen)
  let boots ← orReturn (-1) (uintAt wholeMsg engineID.next engineID.remaining)
  let time ← orReturn (-1) (uintAt wholeMsg boots.next boots.remaining)
  check (-1) (¬ (boots.value > ENGINEBOOT_MAX ∨ time.value > ENGINETIME_MAX))
  let name ← orReturn (-1) (octetsAt wholeMsg time.next time.remaining secNameLen)
  -- the room for the name is kept as a `u_int`
  check (-1) (¬ secNameLen % 2 ^ 32 < name.value.length + 1)
  check (-1) (¬ name.value.length > 32)
  let signature ← orReturn (-1) (octetsAt wholeMsg name.next name.remaining MAX_KEYEDHASH_SIZE)
  let blanked := blank wholeMsg (signature.next - signature.value.length) signature.value.length
  let salt ← orReturn (-2) (octetsAt blanked signature.next signature.remaining MAX_SALT_SIZE)
  return ⟨engineID.value, boots.value, time.value, name.value, signature.value, salt.value, salt.next, blanked⟩

/-! ## `Scapi.c` -/

/-- A cipher: a key, an initial vector and a text. -/
abbrev Cipher : Type := List UInt8 → List UInt8 → (text : List UInt8) → { plain : List UInt8 // plain.length = text.length }

/-- What is used of the library for the ciphers. -/
structure Crypto where
  scapiHash : List UInt8 → Option (List UInt8)
  hmacMd5 : List UInt8 → Digest 16
  hmacSha1 : List UInt8 → Digest 20
  desDecrypt : Cipher
  aesDecrypt : Cipher

def usm_noAuthProtocol : ObjId := [1, 3, 6, 1, 6, 3, 10, 1, 1, 1]

def usm_noPrivProtocol : ObjId := [1, 3, 6, 1, 6, 3, 10, 1, 2, 1]

def usm_dESPrivProtocol : ObjId := [1, 3, 6, 1, 6, 3, 10, 1, 2, 2]

def usm_aESPrivProtocol : ObjId := [1, 3, 6, 1, 6, 3, 10, 1, 2, 4]

def MD5_AND_SHA_AUTH_LEN : Nat := 12

def UTILITIES_MAX_BUFFER_SMALL : Nat := 512

/-- `HMAC`, with the digest that the protocol names. -/
def Crypto.hmac (crypto : Crypto) (authType : ObjId) (key message : List UInt8) : List UInt8 :=
  if isTransform authType usm_hMACMD5AuthProtocol then (crypto.hmacMd5 key message).1
  else (crypto.hmacSha1 key message).1

/-- `Scapi_generateKeyedHash`: what is written to `mac`, with room for `macLength` octets. -/
def generateKeyedHash (crypto : Crypto) (authType : ObjId) (key : Option (List UInt8)) (message : List UInt8)
    (macLength : Nat) : Option (List UInt8) :=
  match key with
  | none => none
  | some key =>
    if key = [] ∨ message = [] ∨ macLength = 0 ∨ authType.length ≠ USM_LENGTH_OID_TRANSFORM then none
    else match getProperLength authType with
    | none => none
    | some properlength =>
      if key.length < properlength then none else some ((crypto.hmac authType key message).take macLength)

/-- `Scapi_checkKeyedHash`. `Scapi_generateKeyedHash` refuses whatever the first check of it does. -/
def checkKeyedHash (crypto : Crypto) (authType : ObjId) (key : Option (List UInt8)) (message mac : List UInt8) : Bool :=
  if mac.length ≠ MD5_AND_SHA_AUTH_LEN then false
  else match generateKeyedHash crypto authType key message UTILITIES_MAX_BUFFER_SMALL with
  | none => false
  | some buf => mac.length ≤ message.length ∧ buf.take mac.length = mac

/-- `Scapi_decrypt`: what is written to `plainText`, with room for `plainTextLength` octets. -/
def scapiDecrypt (crypto : Crypto) (privType : ObjId) (key : Option Mem) (keyLength : Nat) (iv cipherText : List UInt8)
    (plainTextLength : Nat) : Option (List UInt8) :=
  match key with
  | none => none
  | some key =>
    if cipherText = [] ∨ plainTextLength = 0 ∨ plainTextLength < cipherText.length ∨
        privType.length ≠ USM_LENGTH_OID_TRANSFORM then none
    else if isTransform privType usm_dESPrivProtocol then
      if keyLength < 8 ∨ iv.length < 8 then none else some (crypto.desDecrypt (key.take 8) iv cipherText).1
    else if isTransform privType usm_aESPrivProtocol then
      if keyLength < 16 ∨ iv.length < 16 then none else some (crypto.aesDecrypt (key.take 16) iv cipherText).1
    else none

/-! ## users, sessions and messages -/

def tcROW_STATUS_ACTIVE : Int := 1

/-- `Usm_User_s`, with what a message is checked with. -/
structure Account extends User where
  userStatus : Int
  authProtocol : ObjId
  authKey : Option (List UInt8)
  privProtocol : ObjId
  privKey : Option Mem
  privKeyLen : Nat

/-- `_usm_userList` and `_usm_noNameUser`. -/
structure Accounts where
  userList : List Account
  noNameUser : Option Account

/-- The values of `isAuthoritative`. -/
inductive Authority
  | nonAuthoritative
  | authoritative
  | unknownAuth
  deriving DecidableEq

def SEC_LEVEL_AUTHNOPRIV : Int := 2

def SEC_LEVEL_AUTHPRIV : Int := 3

def MSG_FLAG_RPRT_BIT : UInt8 := 0x04

/-- The arguments of `Usm_processInMsg`. The message lies at the address `base`, and there is so much room for the
engine ID, the name and the scoped PDU. -/
structure InMsg where
  maxMsgSize : Nat
  wholeMsg : Mem
  base : Nat
  wholeMsgLen : Nat
  secParams : Nat
  secLevel : Int
  secEngineIDLen : Nat
  secNameLen : Nat
  scopedPduLen : Nat
  sess : Option Authority
  msgFlags : UInt8

/-- The scoped PDU: in the message as it is, or what has been decrypted. -/
inductive ScopedPdu
  | plain (ptr length : Nat)
  | decrypted (octets : List UInt8)

/-- What `Usm_processInMsg` leaves when it returns `ErrorCode_SUCCESS`. The protocols and the keys of the user are
kept for the response. -/
structure Accepted where
  secEngineID : List UInt8
  secName : List UInt8
  user : Account
  scopedPdu : ScopedPdu
  maxSizeResponse : Nat

/-! ## `Usm_processInMsg` -/

theorem zero_not_mem_takeWhile (s : List UInt8) : 0 ∉ s.takeWhile (· ≠ 0) := by
  intro h
  simpa using List.mem_takeWhile_imp h

/-- What `strcmp` sees of a name behind which a zero has been put. -/
def cString (s : List UInt8) : CString := ⟨s.takeWhile (· ≠ 0), zero_not_mem_takeWhile s⟩

/-- The message is authenticated. -/
def InMsg.Authenticates (msg : InMsg) : Prop := msg.secLevel = SEC_LEVEL_AUTHNOPRIV ∨ msg.secLevel = SEC_LEVEL_AUTHPRIV

instance (msg : InMsg) : Decidable msg.Authenticates := inferInstanceAs (Decidable (_ ∨ _))

/-- The first value of `remaining`: it is octets that are subtracted, not pointers. -/
def InMsg.remaining (msg : InMsg) : Nat :=
  let distance : Int := (msg.wholeMsg.get msg.secParams).toNat - (msg.wholeMsg.get 0).toNat
  ((msg.wholeMsgLen - distance % 2 ^ 32) % 2 ^ 64).toNat

/-- `wholeMsgLen - ( ptr - wholeMsg )`. -/
def InMsg.behind (msg : InMsg) (ptr : Nat) : Nat := (((msg.wholeMsgLen : Int) - ptr) % 2 ^ 64).toNat

/-- The security parameters, and the length of the salt. -/
def InMsg.parameters (msg : InMsg) : Except ErrorCode SecurityParameters :=
  match parseSecurityParameters msg.wholeMsg msg.secParams msg.remaining msg.secEngineIDLen msg.secNameLen with
  | .error rc => .error (if rc = -2 then .usmDecryptionError else .usmParseError)
  | .ok params =>
    if msg.secLevel = SEC_LEVEL_AUTHPRIV ∧ params.salt.length ≠ 8 then .error .usmDecryptionError else .ok params

/-- An engine that is not known is not learnt from the message. -/
def InMsg.engineMustBeKnown (msg : InMsg) : Bool :=
  match msg.sess with
  | some .authoritative => true
  | some .unknownAuth => msg.msgFlags &&& MSG_FLAG_RPRT_BIT ≠ 0
  | some .nonAuthoritative => false
  | none => msg.msgFlags &&& MSG_FLAG_RPRT_BIT ≠ 0

/-- `engineIS_ENGINE_KNOWN` or `engineENSURE_ENGINE_RECORD`. -/
def InMsg.locateEngine (msg : InMsg) (crypto : Crypto) (clock : Nat) (s : Clocks) (secEngineID : List UInt8) :
    ErrorCode × Clocks :=
  if msg.engineMustBeKnown then
    match get crypto.scapiHash clock s secEngineID true with
    | (none, s) => (.usmUnknownEngineId, s)
    | (some _, s) => (.success, s)
  else match set crypto.scapiHash clock s secEngineID 0 0 false with
  | (.success, s) => (.success, s)
  | (_, s) => (.usmGenericError, s)

/-- `Usm_getUserFromList`, where a name is given. -/
def Accounts.getUser (accounts : Accounts) (secEngineID : List UInt8) (secName : CString) (useDefault : Bool) :
    Option Account :=
  match accounts.userList.find? fun u => u.matches (some secEngineID) secName with
  | some u => some u
  | none => if useDefault ∧ secName.1 = [] then accounts.noNameUser else none

/-- The user of the message. -/
def InMsg.user (msg : InMsg) (accounts : Accounts) (params : SecurityParameters) : Option Account :=
  let useDefault : Bool := ¬ (msg.sess = some .authoritative ∨ msg.sess = none)
  accounts.getUser params.secEngineID (cString params.secName) useDefault

/-- `Usm_checkSecLevel`, for an active user. -/
def checkSecLevel (level : Int) (user : Account) : Bool :=
  ¬ (level = SEC_LEVEL_AUTHPRIV ∧ user.privProtocol = usm_noPrivProtocol) ∧
    ¬ ((level = SEC_LEVEL_AUTHPRIV ∨ level = SEC_LEVEL_AUTHNOPRIV) ∧ user.authProtocol = usm_noAuthProtocol)

/-- The user, when the message is what the user may send. The lengths are handed over as `u_int`. -/
def InMsg.authenticate (msg : InMsg) (crypto : Crypto) (accounts : Accounts) (params : SecurityParameters) :
    Except ErrorCode Account := do
  let user ← orReturn .usmUnknownSecurityName (msg.user accounts params)
  check .usmUnknownSecurityName (user.userStatus = tcROW_STATUS_ACTIVE)
  check .usmUnsupportedSecurityLevel (checkSecLevel msg.secLevel user = true)
  check .usmAuthenticationFailure (msg.Authenticates →
    checkKeyedHash crypto user.authProtocol (user.authKey.map fun key => key.take (key.length % 2 ^ 32))
      (params.wholeMsg.take (msg.wholeMsgLen % 2 ^ 32)) params.signature = true)
  return user

/-- The clocks, once the message is known to be what it says. -/
def InMsg.updateClocks (msg : InMsg) (crypto : Crypto) (clock : Nat) (s : Clocks) (params : SecurityParameters) :
    ErrorCode × Clocks :=
  if msg.Authenticates then
    checkAndUpdateTimeliness crypto.scapiHash clock s params.secEngineID params.boots params.time
  else (.success, (set crypto.scapiHash clock s params.secEngineID params.boots params.time false).2)

/-- Four octets of a `u_int`, the highest first. -/
def netOrder (n : Nat) : List UInt8 :=
  [UInt8.ofNat (n / 2 ^ 24), UInt8.ofNat (n / 2 ^ 16), UInt8.ofNat (n / 2 ^ 8), UInt8.ofNat n]

/-- The initial vector; for another protocol it is not looked at. -/
def initialVector (user : Account) (params : SecurityParameters) : List UInt8 :=
  if isTransform user.privProtocol usm_dESPrivProtocol then
    List.zipWith (· ^^^ ·) params.salt (user.privKey.elim [] fun key => (key.drop 8).take 8)
  else netOrder params.boots ++ netOrder params.time ++ params.salt

/-- The encrypted scoped PDU is taken out and decrypted: what it is, and `end_of_overhead`, if it is set. -/
def InMsg.decrypt (msg : InMsg) (crypto : Crypto) (params : SecurityParameters) (user : Account) :
    Except ErrorCode (List UInt8 × Option Nat) := do
  let sPDU ← orReturn .usmParseError
    (sequenceAt params.wholeMsg params.dataPtr (msg.behind params.dataPtr) asnOCTET_STR)
  let des : Bool := isTransform user.privProtocol usm_dESPrivProtocol
  check .usmDecryptionError (des = true → sPDU.remaining % 8 = 0 ∧ user.privKey.isSome = true)
  let cipherText := (params.wholeMsg.drop sPDU.next).take (sPDU.remaining % 2 ^ 32)
  let octets ← orReturn .usmDecryptionError
    (scapiDecrypt crypto user.privProtocol user.privKey user.privKeyLen (initialVector user params) cipherText
      msg.scopedPduLen)
  -- for another protocol than DES nobody says where the overhead ends
  return (octets, if des then some sPDU.next else none)

/-- `maxMsgSize - ( end_of_overhead - wholeMsg )`. A pointer that has not been set is `NULL`. -/
def InMsg.room (msg : InMsg) (endOfOverhead : Option Nat) : Nat :=
  let address : Int := endOfOverhead.elim 0 fun ptr => msg.base + ptr
  ((msg.maxMsgSize - (address - msg.base)) % 2 ^ 64).toNat

/-- What is left for the caller. -/
def InMsg.deliver (msg : InMsg) (crypto : Crypto) (params : SecurityParameters) (user : Account) :
    Except ErrorCode Accepted :=
  if msg.secLevel = SEC_LEVEL_AUTHPRIV then
    (msg.decrypt crypto params user).map fun r =>
      ⟨params.secEngineID, params.secName, user, .decrypted r.1, msg.room r.2⟩
  else .ok ⟨params.secEngineID, params.secName, user, .plain params.dataPtr (msg.behind params.dataPtr),
    msg.room (some params.dataPtr)⟩

def processInMsg (crypto : Crypto) (accounts : Accounts) (clock : Nat) (s : Clocks) (msg : InMsg) :
    Except ErrorCode Accepted × Clocks :=
  match msg.parameters with
  | .error code => (.error code, s)
  | .ok params =>
    match msg.locateEngine crypto clock s params.secEngineID with
    | (.success, s) =>
      match msg.authenticate crypto accounts params with
      | .error code => (.error code, s)
      | .ok user =>
        match msg.updateClocks crypto clock s params with
        | (.success, s) => (msg.deliver crypto params user, s)
        | (code, s) => (.error code, s)
    | (code, s) => (.error code, s)

/-! ## where the processing ends -/

/-- The places where the processing ends. -/
inductive Processed (crypto : Crypto) (accounts : Accounts) (clock : Nat) (s : Clocks) (msg : InMsg) :
    Except ErrorCode Accepted × Clocks → Prop
  | unread {code : ErrorCode} (hparams : msg.parameters = .error code) :
      Processed crypto accounts clock s msg (.error code, s)
  | unknown {params : SecurityParameters} {code : ErrorCode} {s₁ : Clocks} (hparams : msg.parameters = .ok params)
      (hengine : msg.locateEngine crypto clock s params.secEngineID = (code, s₁)) (hcode : code ≠ .success) :
      Processed crypto accounts clock s msg (.error code, s₁)
  | refused {params : SecurityParameters} {code : ErrorCode} {s₁ : Clocks} (hparams : msg.parameters = .ok params)
      (hengine : msg.locateEngine crypto clock s params.secEngineID = (.success, s₁))
      (huser : msg.authenticate crypto accounts params = .error code) :
      Processed crypto accounts clock s msg (.error code, s₁)
  | untimely {params : SecurityParameters} {user : Account} {code : ErrorCode} {s₁ s₂ : Clocks}
      (hparams : msg.parameters = .ok params)
      (hengine : msg.locateEngine crypto clock s params.secEngineID = (.success, s₁))
      (huser : msg.authenticate crypto accounts params = .ok user)
      (hclocks : msg.updateClocks crypto clock s₁ params = (code, s₂)) (hcode : code ≠ .success) :
      Processed crypto accounts clock s msg (.error code, s₂)
  | timely {params : SecurityParameters} {user : Account} {s₁ s₂ : Clocks} (hparams : msg.parameters = .ok params)
      (hengine : msg.locateEngine crypto clock s params.secEngineID = (.success, s₁))
      (huser : msg.authenticate crypto accounts params = .ok user)
      (hclocks : msg.updateClocks crypto clock s₁ params = (.success, s₂)) :
      Processed crypto accounts clock s msg (msg.deliver crypto params user, s₂)

theorem processInMsg_processed (crypto : Crypto) (accounts : Accounts) (clock : Nat) (s : Clocks) (msg : InMsg) :
    Processed crypto accounts clock s msg (processInMsg crypto accounts clock s msg) := by
  unfold processInMsg
  cases hparams : msg.parameters with
  | error code => exact .unread hparams
  | ok params =>
    simp only []
    rcases hengine : msg.locateEngine crypto clock s params.secEngineID with ⟨code, s₁⟩
    by_cases hcode : code = .success
    · subst hcode
      simp only []
      cases huser : msg.authenticate crypto accounts params with
      | error code => exact .refused hparams hengine huser
      | ok user =>
        simp only []
        rcases hclocks : msg.updateClocks crypto clock s₁ params with ⟨code, s₂⟩
        by_cases hcode : code = .success
        · subst hcode
          exact .timely hparams hengine huser hclocks
        · simp only []
          exact .untimely hparams hengine huser hclocks hcode
    · simp only []
      exact .unknown hparams hengine hcode

end Priot.Usm
