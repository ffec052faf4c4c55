/-
# Who may set a clock

Once a message of an engine has been found authentic, its clock is set only by messages that are authentic too: signed
with the key of the user that they name, up to its first zero.
-/
import Priot.Usm.Overhead
import Priot.Usm.Replay
import Priot.Usm.UserOrder

namespace Priot.Usm

open Asn01 Lib List

variable {crypto : Crypto} {accounts : Accounts} {clock : Nat} {s s₁ s₂ : Clocks} {msg : InMsg}
  {params : SecurityParameters} {user : Account} {id : List UInt8} {e : Engine} {code : ErrorCode}

/-! ## messages that are authentic -/

/-- The user is the first in the list with the engine ID and the name. Where it is asked for, an empty name that is not
in the list is that of the user without a name. -/
def Accounts.Named (accounts : Accounts) (secEngineID : List UInt8) (secName : CString) (useDefault : Prop)
    (user : Account) : Prop :=
  (∃ pre post, accounts.userList = pre ++ user :: post ∧ user.engineID = some secEngineID ∧ user.name = secName ∧
    ∀ u ∈ pre, ¬ (u.engineID = some secEngineID ∧ u.name = secName)) ∨
  useDefault ∧ secName.1 = [] ∧ accounts.noNameUser = some user

/-- The message says that it is authenticated, and its signature at `ptr` is the front of the keyed hash of the message
without it, under the key of the active user that it names. The lengths are taken as `u_int`. -/
structure InMsg.Signed (msg : InMsg) (crypto : Crypto) (accounts : Accounts) (params : SecurityParameters)
    (user : Account) (key : List UInt8) (ptr : Nat) : Prop where
  authenticates : msg.Authenticates
  parsed : msg.parameters = .ok params
  named : accounts.Named params.secEngineID (cString params.secName)
    (msg.sess = some .nonAuthoritative ∨ msg.sess = some .unknownAuth) user
  active : user.userStatus = tcROW_STATUS_ACTIVE
  keyed : user.authKey = some key
  field : params.signature = (msg.wholeMsg.drop ptr).take MD5_AND_SHA_AUTH_LEN
  hash : params.signature = (crypto.hmac user.authProtocol (key.take (key.length % 2 ^ 32))
    ((blank msg.wholeMsg ptr MD5_AND_SHA_AUTH_LEN).take (msg.wholeMsgLen % 2 ^ 32))).take MD5_AND_SHA_AUTH_LEN

/-- The message is an authentic one, of the engine `id`. -/
def InMsg.Authentic (msg : InMsg) (crypto : Crypto) (accounts : Accounts) (id : List UInt8) : Prop :=
  ∃ params user key ptr, params.secEngineID = id ∧ msg.Signed crypto accounts params user key ptr

theorem Accounts.getUser_eq_some {useDefault : Bool} {secName : CString}
    (h : accounts.getUser id secName useDefault = some user) : accounts.Named id secName (useDefault = true) user := by
  unfold Accounts.getUser at h
  cases hfind : accounts.userList.find? fun u => u.matches (some id) secName with
  | none =>
    simp only [hfind] at h
    split at h
    next hdefault => exact .inr ⟨hdefault.1, hdefault.2, h⟩
    next => cases h
  | some u =>
    simp only [hfind] at h
    cases h
    obtain ⟨hmatches, pre, post, heq, hpre⟩ := find?_eq_some_iff_append.mp hfind
    have hkey := matches_iff.mp hmatches
    rw [User.key, Prod.mk.injEq] at hkey
    refine .inl ⟨pre, post, heq, hkey.1, hkey.2, fun u hu heq => ?_⟩
    have hnot := hpre u hu
    rw [matches_iff.mpr (Prod.ext heq.1 heq.2)] at hnot
    cases hnot

theorem parseString_eq_some {data : Mem} {datalength strlength : Nat} {r : Asn01.Parsed (List UInt8)}
    (h : (parseString data datalength strlength).result = some r) :
    r.value.length ≤ r.used ∧ r.value = (data.drop (r.used - r.value.length)).take r.value.length := by
  obtain ⟨_, -, h⟩ := Option.bind_eq_some_iff.mp h
  obtain ⟨⟨asnLength, bufp⟩, -, h⟩ := Option.bind_eq_some_iff.mp h
  obtain ⟨_, -, h⟩ := Option.bind_eq_some_iff.mp h
  cases h
  show ((data.drop bufp).take asnLength).length ≤ bufp + asnLength ∧ _ = (data.drop (bufp + asnLength -
    ((data.drop bufp).take asnLength).length)).take ((data.drop bufp).take asnLength).length
  rw [Stream'.length_take, Nat.add_sub_cancel]
  exact ⟨Nat.le_add_left _ _, rfl⟩

theorem octetsAt_eq_some {wholeMsg : Mem} {ptr remaining length : Nat} {r : Read (List UInt8)}
    (h : octetsAt wholeMsg ptr remaining length = some r) :
    r.value = (wholeMsg.drop (r.next - r.value.length)).take r.value.length := by
  unfold octetsAt at h
  simp only [] at h
  split at h
  next =>
    obtain ⟨parsed, hparsed, rfl⟩ := Option.map_eq_some_iff.mp h
    obtain ⟨hle, hvalue⟩ := parseString_eq_some hparsed
    rw [Stream'.drop_drop] at hvalue
    rw [Nat.add_sub_assoc hle, Nat.add_comm]
    exact hvalue
  next => cases h

theorem parseSecurityParameters_eq_ok {wholeMsg : Mem} {secParams remaining secEngineIDLen secNameLen : Nat}
    (h : parseSecurityParameters wholeMsg secParams remaining secEngineIDLen secNameLen = .ok params) :
    ∃ ptr, params.signature = (wholeMsg.drop ptr).take params.signature.length ∧
      params.wholeMsg = blank wholeMsg ptr params.signature.length := by
  unfold parseSecurityParameters at h
  obtain ⟨octetString, _, h⟩ := exists_of_bind_ok h
  obtain ⟨sequence, _, h⟩ := exists_of_bind_ok h
  obtain ⟨engineID, _, h⟩ := exists_of_bind_ok h
  obtain ⟨boots, _, h⟩ := exists_of_bind_ok h
  obtain ⟨time, _, h⟩ := exists_of_bind_ok h
  obtain ⟨_, _, h⟩ := exists_of_bind_ok h
  obtain ⟨name, _, h⟩ := exists_of_bind_ok h
  obtain ⟨_, _, h⟩ := exists_of_bind_ok h
  obtain ⟨_, _, h⟩ := exists_of_bind_ok h
  obtain ⟨signature, hsignature, h⟩ := exists_of_bind_ok h
  obtain ⟨salt, _, h⟩ := exists_of_bind_ok h
  cases h
  exact ⟨_, octetsAt_eq_some (orReturn_eq_ok hsignature), rfl⟩

theorem InMsg.parameters_eq_ok (h : msg.parameters = .ok params) :
    ∃ ptr, params.signature = (msg.wholeMsg.drop ptr).take params.signature.length ∧
      params.wholeMsg = blank msg.wholeMsg ptr params.signature.length := by
  unfold InMsg.parameters at h
  split at h
  next => cases h
  next hparse =>
    split at h
    next => cases h
    next =>
      cases h
      exact parseSecurityParameters_eq_ok hparse

theorem checkKeyedHash_eq_true {authType : ObjId} {key : Option (List UInt8)} {message mac : List UInt8}
    (h : checkKeyedHash crypto authType key message mac = true) :
    ∃ k, key = some k ∧ mac.length = MD5_AND_SHA_AUTH_LEN ∧
      mac = (crypto.hmac authType k message).take MD5_AND_SHA_AUTH_LEN := by
  unfold checkKeyedHash at h
  split at h
  next => cases h
  next hlength =>
    rw [not_not] at hlength
    split at h
    next => cases h
    next buf hbuf =>
      obtain ⟨-, hmac⟩ := of_decide_eq_true h
      unfold generateKeyedHash at hbuf
      cases key with
      | none => cases hbuf
      | some key =>
        simp only [] at hbuf
        split at hbuf
        next => cases hbuf
        next =>
          split at hbuf
          next => cases hbuf
          next =>
            split at hbuf
            next => cases hbuf
            next =>
              cases hbuf
              rw [take_take, hlength] at hmac
              exact ⟨key, rfl, hlength, hmac.symm⟩

theorem InMsg.authentic_of_authenticate (hauth : msg.Authenticates) (hparams : msg.parameters = .ok params)
    (huser : msg.authenticate crypto accounts params = .ok user) :
    msg.Authentic crypto accounts params.secEngineID := by
  obtain ⟨hfound, hactive, -, hhash⟩ := InMsg.authenticate_eq_ok huser
  obtain ⟨key, hkey, hlength, hmac⟩ := checkKeyedHash_eq_true (hhash hauth)
  obtain ⟨k, hk, rfl⟩ := Option.map_eq_some_iff.mp hkey
  obtain ⟨ptr, hfield, hblank⟩ := InMsg.parameters_eq_ok hparams
  rw [hlength] at hfield hblank
  rw [hblank] at hmac
  refine ⟨params, user, k, ptr, rfl, hauth, hparams, ?_, hactive, hk, hfield, hmac⟩
  rcases Accounts.getUser_eq_some hfound with hlisted | ⟨hdefault, hnamed⟩
  · exact .inl hlisted
  · refine .inr ⟨?_, hnamed⟩
    have hsess := of_decide_eq_true hdefault
    cases hs : msg.sess with
    | none => exact absurd (.inr hs) hsess
    | some authority =>
      cases authority with
      | nonAuthoritative => exact .inl rfl
      | authoritative => exact absurd (.inl hs) hsess
      | unknownAuth => exact .inr rfl

theorem InMsg.deliver_secEngineID {a : Accepted} (h : msg.deliver crypto params user = .ok a) :
    a.secEngineID = params.secEngineID := by
  unfold InMsg.deliver at h
  split at h
  · cases hdecrypt : msg.decrypt crypto params user with
    | error code =>
      rw [hdecrypt] at h
      cases h
    | ok r =>
      rw [hdecrypt] at h
      cases h
      rfl
  · cases h
    rfl

/-! ## what a message does to a record -/

theorem get_engines (clock : Nat) (s : Clocks) (id : List UInt8) (authenticated : Bool) :
    (get crypto.scapiHash clock s id authenticated).2.engines = s.engines := by
  unfold get
  split
  · rfl
  · split
    · rfl
    · rfl

theorem InMsg.locateEngine_keeps (hengine : msg.locateEngine crypto clock s params.secEngineID = (code, s₁))
    (h : searchInList crypto.scapiHash s.engines id = some e) (hflag : e.authenticatedFlag = true) :
    searchInList crypto.scapiHash s₁.engines id = some e := by
  unfold InMsg.locateEngine at hengine
  split at hengine
  · have hget := @get_engines crypto clock s params.secEngineID true
    generalize get crypto.scapiHash clock s params.secEngineID true = r at hget hengine
    obtain ⟨known, s'⟩ := r
    cases known with
    | none =>
      cases hengine
      rwa [hget]
    | some known =>
      cases hengine
      rwa [hget]
  · have hset : searchInList crypto.scapiHash (set crypto.scapiHash clock s params.secEngineID 0 0 false).2.engines id =
        some e := set_unauthenticated h hflag
    generalize set crypto.scapiHash clock s params.secEngineID 0 0 false = r at hset hengine
    obtain ⟨code', s'⟩ := r
    have hs : s₁ = s' := by
      cases code' <;> cases hengine <;> rfl
    rwa [hs]

theorem InMsg.updateClocks_keeps (hclocks : msg.updateClocks crypto clock s params = (code, s₂))
    (h : searchInList crypto.scapiHash s.engines id = some e) (hflag : e.authenticatedFlag = true)
    (hother : ¬ (msg.Authenticates ∧ params.secEngineID = id)) :
    searchInList crypto.scapiHash s₂.engines id = some e := by
  unfold InMsg.updateClocks at hclocks
  split at hclocks
  next hauth =>
    have hne : id ≠ params.secEngineID := fun heq => hother ⟨hauth, heq.symm⟩
    have hkept : searchInList crypto.scapiHash (checkAndUpdateTimeliness crypto.scapiHash clock s params.secEngineID
        params.boots params.time).2.engines id = searchInList crypto.scapiHash s.engines id :=
      checkAndUpdateTimeliness_of_ne hne clock s params.boots params.time
    rw [hclocks] at hkept
    rw [hkept, h]
  next =>
    cases hclocks
    exact set_unauthenticated h hflag

theorem processInMsg_keeps (h : searchInList crypto.scapiHash s.engines id = some e) (hflag : e.authenticatedFlag = true)
    (hnot : ¬ msg.Authentic crypto accounts id) :
    searchInList crypto.scapiHash (processInMsg crypto accounts clock s msg).2.engines id = some e := by
  have hprocessed := processInMsg_processed crypto accounts clock s msg
  generalize processInMsg crypto accounts clock s msg = r at hprocessed ⊢
  have hother : ∀ {params user}, msg.parameters = .ok params → msg.authenticate crypto accounts params = .ok user →
      ¬ (msg.Authenticates ∧ params.secEngineID = id) := by
    rintro params user hparams huser ⟨hauth, rfl⟩
    exact hnot (InMsg.authentic_of_authenticate hauth hparams huser)
  cases hprocessed with
  | unread hparams => exact h
  | unknown hparams hengine hcode => exact InMsg.locateEngine_keeps hengine h hflag
  | refused hparams hengine huser => exact InMsg.locateEngine_keeps hengine h hflag
  | untimely hparams hengine huser hclocks hcode =>
    exact InMsg.updateClocks_keeps hclocks (InMsg.locateEngine_keeps hengine h hflag) hflag (hother hparams huser)
  | timely hparams hengine huser hclocks =>
    exact InMsg.updateClocks_keeps hclocks (InMsg.locateEngine_keeps hengine h hflag) hflag (hother hparams huser)

/-! ## runs -/

/-- A message that comes in, with the local clock and the users then. -/
structure Arrival where
  clock : Nat
  accounts : Accounts
  msg : InMsg

def Arrival.process (crypto : Crypto) (s : Clocks) (a : Arrival) : Except ErrorCode Accepted × Clocks :=
  processInMsg crypto a.accounts a.clock s a.msg

/-- What is known of the clocks when the messages have come in. -/
def receive (crypto : Crypto) (s : Clocks) (arrivals : List Arrival) : Clocks :=
  arrivals.foldl (fun s a => (a.process crypto s).2) s

variable {arrivals : List Arrival} {a : Accepted}

theorem receive_keeps (h : searchInList crypto.scapiHash s.engines id = some e) (hflag : e.authenticatedFlag = true)
    (hnot : ∀ a ∈ arrivals, ¬ a.msg.Authentic crypto a.accounts id) :
    searchInList crypto.scapiHash (receive crypto s arrivals).engines id = some e := by
  -- the record is the same in front of each message, so the step lemma applies again
  induction arrivals generalizing s with
  | nil => exact h
  | cons a rest ih =>
    have hstep : searchInList crypto.scapiHash (a.process crypto s).2.engines id = some e :=
      processInMsg_keeps h hflag (hnot a mem_cons_self)
    exact ih hstep fun a' ha' => hnot a' (mem_cons_of_mem a ha')

theorem authentic_of_accepted (h : (processInMsg crypto accounts clock s msg).1 = .ok a) (hauth : msg.Authenticates) :
    msg.Authentic crypto accounts a.secEngineID := by
  have hprocessed := processInMsg_processed crypto accounts clock s msg
  generalize processInMsg crypto accounts clock s msg = r at h hprocessed
  cases hprocessed with
  | timely hparams hengine huser hclocks =>
    have hid : a.secEngineID = _ := InMsg.deliver_secEngineID h
    rw [hid]
    exact InMsg.authentic_of_authenticate hauth hparams huser
  | unread hparams => cases h
  | unknown hparams hengine hcode => cases h
  | refused hparams hengine huser => cases h
  | untimely hparams hengine huser hclocks hcode => cases h

/-- In every sequence of messages a record that stands for an authentic message is changed only by authentic messages
of its engine, and a message that says that it is authenticated is accepted only if it is authentic. -/
theorem receive_changes_only_authentic (crypto : Crypto) (s : Clocks) (before : List Arrival) :
    (∀ after id e, searchInList crypto.scapiHash (receive crypto s before).engines id = some e →
      e.authenticatedFlag = true →
      searchInList crypto.scapiHash (receive crypto s (before ++ after)).engines id ≠ some e →
      ∃ a ∈ after, a.msg.Authentic crypto a.accounts id) ∧
    ∀ (a : Arrival) accepted, (a.process crypto (receive crypto s before)).1 = .ok accepted → a.msg.Authenticates →
      a.msg.Authentic crypto a.accounts accepted.secEngineID := by
  constructor
  · intro after id e hfind hflag hchanged
    by_contra hnone
    refine hchanged ?_
    have hsplit : receive crypto s (before ++ after) = receive crypto (receive crypto s before) after :=
      foldl_append
    rw [hsplit]
    exact receive_keeps hfind hflag fun a ha hauthentic => hnone ⟨a, ha, hauthentic⟩
  · intro a accepted haccepted hauth
    exact authentic_of_accepted haccepted hauth

/-! ## a name with a zero in it -/

/-- What the library computes of the message below. -/
def zeroCrypto : Crypto where
  scapiHash _ := some [251, 37, 158, 61, 212, 22, 166, 170, 241, 64, 246, 51, 87, 211, 114, 240]
  hmacMd5 _ := fun _ => ⟨[97, 158, 166, 9, 238, 211, 57, 113, 35, 108, 75, 126, 193, 235, 116, 135], rfl⟩
  hmacSha1 := unusedSha1
  desDecrypt := maskWith []
  aesDecrypt := maskWith []

/-- The engine of the user `a` showed 50 when its last authentic message was received. -/
def zeroClocks : Clocks :=
  ⟨⟨[0x80, 0, 0, 0, 1], 1, 0⟩, fun i => if i.val = 9 then [⟨[0x80, 0, 0, 0, 2], 1, 50, 4, true⟩] else []⟩

def zeroUser : Account := { oneUser usm_noPrivProtocol with engineID := some [0x80, 0, 0, 0, 2] }

/-- A message of the user `a`, a zero and `b`, at the time 100 of that engine. -/
def zeroMsg : InMsg where
  maxMsgSize := 1472
  wholeMsg := [0x30, 58, 2, 1, 3, 0x30, 13, 2, 1, 1, 2, 2, 5, 192, 4, 1, 1, 2, 1, 3,
    4, 36, 0x30, 34, 4, 5, 0x80, 0, 0, 0, 2, 2, 1, 1, 2, 1, 100, 4, 3, 97, 0, 98,
    4, 12, 97, 158, 166, 9, 238, 211, 57, 113, 35, 108, 75, 126, 4, 0, 0x30, 0] ++ₛ Stream'.const 0
  base := 4096
  wholeMsgLen := 60
  secParams := 20
  secLevel := SEC_LEVEL_AUTHNOPRIV
  secEngineIDLen := 32
  secNameLen := 256
  scopedPduLen := 1472
  sess := some .nonAuthoritative
  msgFlags := 1

def zeroArrival : Arrival := ⟨5, ⟨[zeroUser], none⟩, zeroMsg⟩

theorem zeroArrival_moves : searchInList zeroCrypto.scapiHash zeroClocks.engines [0x80, 0, 0, 0, 2] =
    some ⟨[0x80, 0, 0, 0, 2], 1, 50, 4, true⟩ ∧
    searchInList zeroCrypto.scapiHash (receive zeroCrypto zeroClocks [zeroArrival]).engines [0x80, 0, 0, 0, 2] =
      some ⟨[0x80, 0, 0, 0, 2], 1, 100, 5, true⟩ := by
  decide +kernel

/-- The message moves the clock, so it is authentic. -/
theorem receive_changes_only_authentic_zero :
    zeroArrival.msg.Authentic zeroCrypto zeroArrival.accounts [0x80, 0, 0, 0, 2] := by
  obtain ⟨hbefore, hafter⟩ := zeroArrival_moves
  obtain ⟨a, ha, hauthentic⟩ := (receive_changes_only_authentic zeroCrypto zeroClocks []).1 [zeroArrival]
    [0x80, 0, 0, 0, 2] ⟨[0x80, 0, 0, 0, 2], 1, 50, 4, true⟩ hbefore rfl (by
      intro heq
      have htimes := Option.some.inj (hafter.symm.trans heq)
      exact absurd (congrArg Engine.engineTime htimes) (by decide))
  rw [mem_singleton.mp ha] at hauthentic
  exact hauthentic

/-- No user has got the name that stands in the message, and yet it moves the clock. -/
theorem named_otherwise_moves : zeroMsg.parameters.toOption.map SecurityParameters.secName = some [97, 0, 98] ∧
    (∀ u ∈ zeroArrival.accounts.userList, u.name.1 ≠ [97, 0, 98]) ∧ zeroArrival.accounts.noNameUser = none ∧
    searchInList zeroCrypto.scapiHash zeroClocks.engines [0x80, 0, 0, 0, 2] =
      some ⟨[0x80, 0, 0, 0, 2], 1, 50, 4, true⟩ ∧
    searchInList zeroCrypto.scapiHash (receive zeroCrypto zeroClocks [zeroArrival]).engines [0x80, 0, 0, 0, 2] =
      some ⟨[0x80, 0, 0, 0, 2], 1, 100, 5, true⟩ := by
  refine ⟨by decide +kernel, ?_, rfl, zeroArrival_moves⟩
  intro u hu
  rw [mem_singleton.mp hu]
  decide

end Priot.Usm
