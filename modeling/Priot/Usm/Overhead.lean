/-
# The room for the response

A response may be as long as the message may be, less what lies in front of the scoped PDU. Where that ends is not
written down for AES, and the address of the message is added instead.
-/
import Priot.Usm.InMsg
import Priot.Lib.Outcome

namespace Priot.Usm

open Lib

/-! ## where the overhead ends -/

/-- The number of octets in front of the scoped PDU, or in front of the content of the octet string that is
encrypted. -/
def InMsg.overhead (msg : InMsg) : Option Nat :=
  match msg.parameters with
  | .error _ => none
  | .ok params =>
    if msg.secLevel = SEC_LEVEL_AUTHPRIV then
      (sequenceAt params.wholeMsg params.dataPtr (msg.behind params.dataPtr) asnOCTET_STR).map Read.next
    else some params.dataPtr

/-- The message is encrypted, and its user encrypts with AES. -/
def InMsg.EncryptedWithAes (msg : InMsg) (accounts : Accounts) : Prop :=
  msg.secLevel = SEC_LEVEL_AUTHPRIV ∧ ∃ params user, msg.parameters = .ok params ∧
    msg.user accounts params = some user ∧ isTransform user.privProtocol usm_aESPrivProtocol = true

variable {crypto : Crypto} {accounts : Accounts} {clock : Nat} {s : Clocks} {msg : InMsg} {params : SecurityParameters}
  {user : Account} {a : Accepted} {ptr : Nat}

theorem InMsg.room_some (hmax : msg.maxMsgSize < 2 ^ 64) (hle : ptr ≤ msg.maxMsgSize) :
    msg.room (some ptr) = msg.maxMsgSize - ptr := by
  unfold InMsg.room
  simp only [Option.elim_some]
  omega

theorem InMsg.room_none_ne (hmax : msg.maxMsgSize < 2 ^ 64) (hbase : 0 < msg.base) (hend : msg.base + ptr < 2 ^ 64)
    (hle : ptr ≤ msg.maxMsgSize) : msg.room none ≠ msg.maxMsgSize - ptr := by
  unfold InMsg.room
  simp only [Option.elim_none]
  omega

/-! ## messages that are accepted -/

theorem InMsg.authenticate_eq_ok (h : msg.authenticate crypto accounts params = .ok user) :
    msg.user accounts params = some user ∧ user.userStatus = tcROW_STATUS_ACTIVE ∧
      checkSecLevel msg.secLevel user = true ∧ (msg.Authenticates → checkKeyedHash crypto user.authProtocol
        (user.authKey.map fun key => key.take (key.length % 2 ^ 32))
        (params.wholeMsg.take (msg.wholeMsgLen % 2 ^ 32)) params.signature = true) := by
  unfold InMsg.authenticate at h
  obtain ⟨u, hfound, h⟩ := exists_of_bind_ok h
  obtain ⟨_, hactive, h⟩ := exists_of_bind_ok h
  obtain ⟨_, hlevel, h⟩ := exists_of_bind_ok h
  obtain ⟨_, hhash, h⟩ := exists_of_bind_ok h
  cases h
  exact ⟨orReturn_eq_ok hfound, check_eq_ok hactive, check_eq_ok hlevel, check_eq_ok hhash⟩

theorem scapiDecrypt_isTransform {privType : ObjId} {key : Option Mem} {keyLength room : Nat}
    {iv cipherText plain : List UInt8} (h : scapiDecrypt crypto privType key keyLength iv cipherText room = some plain) :
    isTransform privType usm_dESPrivProtocol = true ∨ isTransform privType usm_aESPrivProtocol = true := by
  by_contra hneither
  obtain ⟨hdes, haes⟩ := not_or.mp hneither
  unfold scapiDecrypt at h
  cases key with
  | none => cases h
  | some key =>
    simp only [if_neg hdes, if_neg haes] at h
    split at h
    · cases h
    · cases h

theorem isTransform_aes_iff {privType : ObjId}
    (h : isTransform privType usm_dESPrivProtocol = true ∨ isTransform privType usm_aESPrivProtocol = true) :
    isTransform privType usm_aESPrivProtocol = true ↔ isTransform privType usm_dESPrivProtocol = false := by
  constructor
  · intro haes
    rw [isTransform, decide_eq_true_eq] at haes
    rw [isTransform, haes]
    decide
  · intro hdes
    rcases h with hdes' | haes
    · rw [hdes] at hdes'
      cases hdes'
    · exact haes

theorem InMsg.decrypt_eq_ok {octets : List UInt8} {endOfOverhead : Option Nat}
    (h : msg.decrypt crypto params user = .ok (octets, endOfOverhead)) :
    ∃ ptr, (sequenceAt params.wholeMsg params.dataPtr (msg.behind params.dataPtr) asnOCTET_STR).map Read.next = some ptr ∧
      (isTransform user.privProtocol usm_aESPrivProtocol = true → endOfOverhead = none) ∧
      (isTransform user.privProtocol usm_aESPrivProtocol ≠ true → endOfOverhead = some ptr) := by
  unfold InMsg.decrypt at h
  obtain ⟨sPDU, hsPDU, h⟩ := exists_of_bind_ok h
  obtain ⟨_, _, h⟩ := exists_of_bind_ok h
  obtain ⟨plain, hplain, h⟩ := exists_of_bind_ok h
  cases h
  have haes := isTransform_aes_iff (scapiDecrypt_isTransform (orReturn_eq_ok hplain))
  refine ⟨sPDU.next, by rw [orReturn_eq_ok hsPDU, Option.map_some], fun h => ?_, fun h => ?_⟩
  · rw [haes.mp h]
    rfl
  · have hdes : isTransform user.privProtocol usm_dESPrivProtocol = true := by
      by_contra hdes
      exact h (haes.mpr (Bool.eq_false_of_not_eq_true hdes))
    rw [hdes]
    rfl

theorem InMsg.deliver_eq_ok (hparams : msg.parameters = .ok params) (huser : msg.user accounts params = some user)
    (h : msg.deliver crypto params user = .ok a) : ∃ ptr, msg.overhead = some ptr ∧
      (msg.EncryptedWithAes accounts → a.maxSizeResponse = msg.room none) ∧
      (¬ msg.EncryptedWithAes accounts → a.maxSizeResponse = msg.room (some ptr)) := by
  have hoverhead : msg.overhead = if msg.secLevel = SEC_LEVEL_AUTHPRIV then
      (sequenceAt params.wholeMsg params.dataPtr (msg.behind params.dataPtr) asnOCTET_STR).map Read.next
      else some params.dataPtr := by
    unfold InMsg.overhead
    rw [hparams]
  have haes : msg.EncryptedWithAes accounts ↔
      msg.secLevel = SEC_LEVEL_AUTHPRIV ∧ isTransform user.privProtocol usm_aESPrivProtocol = true := by
    refine and_congr_right fun _ => ⟨?_, fun h => ⟨params, user, hparams, huser, h⟩⟩
    rintro ⟨params', user', hparams', huser', h⟩
    rw [hparams] at hparams'
    cases hparams'
    rw [huser] at huser'
    cases huser'
    exact h
  unfold InMsg.deliver at h
  by_cases hlevel : msg.secLevel = SEC_LEVEL_AUTHPRIV
  · rw [if_pos hlevel] at h
    rw [hoverhead, if_pos hlevel]
    cases hdecrypt : msg.decrypt crypto params user with
    | error code =>
      rw [hdecrypt] at h
      cases h
    | ok r =>
      rw [hdecrypt] at h
      cases h
      obtain ⟨ptr, hptr, hnone, hsome⟩ := InMsg.decrypt_eq_ok hdecrypt
      refine ⟨ptr, hptr, fun h => ?_, fun h => ?_⟩
      · exact congrArg msg.room (hnone (haes.mp h).2)
      · exact congrArg msg.room (hsome fun h' => h (haes.mpr ⟨hlevel, h'⟩))
  · rw [if_neg hlevel] at h
    rw [hoverhead, if_neg hlevel]
    cases h
    exact ⟨params.dataPtr, rfl, fun h => absurd h.1 hlevel, fun _ => rfl⟩

theorem processInMsg_eq_ok (h : (processInMsg crypto accounts clock s msg).1 = .ok a) :
    ∃ params user, msg.parameters = .ok params ∧ msg.user accounts params = some user ∧
      msg.deliver crypto params user = .ok a := by
  have hprocessed := processInMsg_processed crypto accounts clock s msg
  generalize processInMsg crypto accounts clock s msg = r at h hprocessed
  cases hprocessed with
  | timely hparams hengine huser hclocks => exact ⟨_, _, hparams, (InMsg.authenticate_eq_ok huser).1, h⟩
  | unread hparams => cases h
  | unknown hparams hengine hcode => cases h
  | refused hparams hengine huser => cases h
  | untimely hparams hengine huser hclocks hcode => cases h

/-- The room for the response is what the overhead leaves, if and only if the message is not encrypted with AES. -/
theorem maxSizeResponse_eq_iff (h : (processInMsg crypto accounts clock s msg).1 = .ok a)
    (hmax : msg.maxMsgSize < 2 ^ 64) (hbase : 0 < msg.base) :
    ∃ overhead, msg.overhead = some overhead ∧ (overhead ≤ msg.maxMsgSize → msg.base + overhead < 2 ^ 64 →
      (a.maxSizeResponse = msg.maxMsgSize - overhead ↔ ¬ msg.EncryptedWithAes accounts)) := by
  obtain ⟨params, user, hparams, huser, hdeliver⟩ := processInMsg_eq_ok h
  obtain ⟨overhead, hoverhead, haes, hother⟩ := InMsg.deliver_eq_ok hparams huser hdeliver
  refine ⟨overhead, hoverhead, fun hle hend => ⟨fun heq hencrypted => ?_, fun hnot => ?_⟩⟩
  · rw [haes hencrypted] at heq
    exact InMsg.room_none_ne hmax hbase hend hle heq
  · rw [hother hnot]
    exact InMsg.room_some hmax hle

/-! ## one message, for two users -/

/-- A cipher that puts a mask over the text. -/
def maskWith (mask : List UInt8) : Cipher := fun _ _ text =>
  ⟨text.mapIdx fun i b => b ^^^ mask.getD i 0, List.length_mapIdx⟩

/-- A digest that is not asked for. -/
def unusedSha1 (_ _ : List UInt8) : { mac : List UInt8 // mac.length = 20 } := ⟨List.replicate 20 0, rfl⟩

/-- What the library computes of the message below. -/
def oneCrypto : Crypto where
  scapiHash _ := some [45, 155, 174, 82, 192, 245, 74, 82, 2, 105, 26, 173, 58, 136, 205, 121]
  hmacMd5 _ := fun _ => ⟨[1, 212, 216, 77, 91, 66, 133, 33, 87, 142, 187, 228, 219, 29, 106, 29], rfl⟩
  hmacSha1 := unusedSha1
  desDecrypt := maskWith [111, 248, 242, 50, 57, 154, 2, 133]
  aesDecrypt := maskWith [127, 230, 191, 44, 201, 159, 104, 3]

/-- A user with keys of 16 octets. -/
def oneUser (privProtocol : ObjId) : Account where
  engineID := some [0x80, 0, 0, 0, 1]
  name := cString [97]
  userStatus := tcROW_STATUS_ACTIVE
  authProtocol := usm_hMACMD5AuthProtocol
  authKey := some [1, 2, 3, 4, 5, 6, 7, 8, 9, 10, 11, 12, 13, 14, 15, 16]
  privProtocol := privProtocol
  privKey := some ([17, 18, 19, 20, 21, 22, 23, 24, 25, 26, 27, 28, 29, 30, 31, 32] ++ₛ Stream'.const 0)
  privKeyLen := 16

/-- The engine of the user is the local one. -/
def oneClocks : Clocks := ⟨⟨[0x80, 0, 0, 0, 1], 1, 0⟩, fun _ => []⟩

/-- 74 octets, of which the last 8 are encrypted. -/
def oneMsg : InMsg where
  maxMsgSize := 1472
  wholeMsg := [0x30, 72, 2, 1, 3, 0x30, 13, 2, 1, 1, 2, 2, 5, 192, 4, 1, 3, 2, 1, 3,
    4, 42, 0x30, 40, 4, 5, 0x80, 0, 0, 0, 1, 2, 1, 1, 2, 1, 0, 4, 1, 97,
    4, 12, 1, 212, 216, 77, 91, 66, 133, 33, 87, 142, 187, 228, 4, 8, 0, 0, 0, 0, 0, 0, 0, 0,
    4, 8, 1, 2, 3, 4, 5, 6, 7, 8] ++ₛ Stream'.const 0
  base := 4096
  wholeMsgLen := 74
  secParams := 20
  secLevel := SEC_LEVEL_AUTHPRIV
  secEngineIDLen := 32
  secNameLen := 256
  scopedPduLen := 1472
  sess := some .nonAuthoritative
  msgFlags := 3

def processOne (privProtocol : ObjId) : Except ErrorCode Accepted × Clocks :=
  processInMsg oneCrypto ⟨[oneUser privProtocol], none⟩ 5 oneClocks oneMsg

theorem exists_of_toOption {x : Except ErrorCode Accepted} {room : Nat}
    (h : x.toOption.map Accepted.maxSizeResponse = some room) : ∃ a, x = .ok a ∧ a.maxSizeResponse = room := by
  cases x with
  | error code => cases h
  | ok a => exact ⟨a, rfl, Option.some.inj h⟩

/-- With DES there is room for as much as the overhead leaves. -/
theorem maxSizeResponse_eq_iff_des : ∃ a, (processOne usm_dESPrivProtocol).1 = .ok a ∧ a.maxSizeResponse = 1406 ∧
    ∃ overhead, oneMsg.overhead = some overhead ∧ (overhead ≤ 1472 → 4096 + overhead < 2 ^ 64 →
      (a.maxSizeResponse = 1472 - overhead ↔
        ¬ oneMsg.EncryptedWithAes ⟨[oneUser usm_dESPrivProtocol], none⟩)) := by
  obtain ⟨a, ha, hroom⟩ := @exists_of_toOption (processOne usm_dESPrivProtocol).1 1406 (by decide +kernel)
  exact ⟨a, ha, hroom, maxSizeResponse_eq_iff ha (by decide) (by decide)⟩

/-- With AES the address of the message is added to the length of the message. -/
theorem maxSizeResponse_aes : ∃ a, (processOne usm_aESPrivProtocol).1 = .ok a ∧ oneMsg.overhead = some 66 ∧
    oneMsg.maxMsgSize = 1472 ∧ a.maxSizeResponse = 1472 + 4096 := by
  obtain ⟨a, ha, hroom⟩ := @exists_of_toOption (processOne usm_aESPrivProtocol).1 (1472 + 4096) (by decide +kernel)
  exact ⟨a, ha, by decide +kernel, rfl, hroom⟩

end Priot.Usm
