/-
# Keys that are changed

`KeyTools.c` hides a new key behind a hash of the old one and of random octets, and takes it out again. The hash is
`Scapi_hash` over one of two digests. Memory that is asked for is got.
-/
import Priot.Usm.Engine
import Priot.Asn01.Types
import Priot.Lib.Buffer

namespace Priot.Usm

open Lib List

/-! ## `Scapi_hash` -/

/-- The length of a string of octets is known. -/
abbrev Digest (n : Nat) : Type := List UInt8 → { mac : List UInt8 // mac.length = n }

/-- `EVP_md5` and `EVP_sha1`, where they are available. -/
structure Digests where
  md5 : Option (Digest 16)
  sha1 : Option (Digest 20)

def usm_hMACMD5AuthProtocol : ObjId := [1, 3, 6, 1, 6, 3, 10, 1, 1, 2]

def usm_hMACSHA1AuthProtocol : ObjId := [1, 3, 6, 1, 6, 3, 10, 1, 1, 3]

def USM_LENGTH_OID_TRANSFORM : Nat := 10

def isTransform (ttype toid : ObjId) : Bool := ttype.take USM_LENGTH_OID_TRANSFORM = toid

def getProperLength (hashType : ObjId) : Option Nat :=
  if isTransform hashType usm_hMACMD5AuthProtocol then some 16
  else if isTransform hashType usm_hMACSHA1AuthProtocol then some 20
  else none

/-- `Scapi_hash`: what is written to `mac`, with room for `macLength` octets. -/
def hash (digests : Digests) (hashType : ObjId) (message : List UInt8) (macLength : Nat) : Option (List UInt8) :=
  if message = [] then none
  else match getProperLength hashType with
  | none => none
  | some ret =>
    if macLength < ret then none
    else if isTransform hashType usm_hMACMD5AuthProtocol then digests.md5.map fun md5 => (md5 message).1
    else digests.sha1.map fun sha1 => (sha1 message).1

/-! ## `KeyTools.c` -/

def UTILITIES_MAX_BUFFER : Nat := 4096

/-- `memset( …, 0, length )` behind an error, with the length that is left in the variable of the caller. -/
def wiped {n : Nat} (buffer : Buffer UInt8 n) (length left : Nat) : Option (ErrorCode × Buffer UInt8 n × Nat) :=
  (buffer.write 0 (List.replicate length 0)).map fun buffer => (.genErr, buffer, left)

/-- `KeyTools_encodeKeyChange`, with what `Scapi_random` writes: the buffer and `*kcStringLength`. There is no result
when something is written outside the buffer. -/
def encodeKeyChange (digests : Digests) (random : Mem) (hashType : ObjId) (oldKey newKey : List UInt8) {n : Nat}
    (kcString : Buffer UInt8 n) : Option (ErrorCode × Buffer UInt8 n × Nat) :=
  if oldKey = [] ∨ newKey = [] ∨ n = 0 ∨ hashType.length ≠ USM_LENGTH_OID_TRANSFORM then wiped kcString n n
  else match getProperLength hashType with
  | none => wiped kcString n n
  | some iproperlength =>
    if oldKey.length ≠ newKey.length ∨ n < 2 * oldKey.length then wiped kcString n n
    else
      let properlength := min oldKey.length iproperlength
      (kcString.write 0 (random.take properlength)).bind fun kcString =>
        match hash digests hashType (oldKey.take properlength ++ kcString.read properlength) (n - properlength) with
        | none => wiped kcString (n - properlength) (n - properlength)
        | some mac =>
          (kcString.write properlength mac).bind fun kcString =>
            (kcString.write properlength
              (List.zipWith (· ^^^ ·) ((kcString.read (2 * properlength)).drop properlength) newKey)).map fun kcString =>
                (.success, kcString, properlength * 2)

/-- `KeyTools_decodeKeyChange`, with what lies behind the hash in `tmp_buf`: the buffer and `*newKeyLength`. -/
def decodeKeyChange (digests : Digests) (tmpBuf : Mem) (hashType : ObjId) (oldKey kcString : List UInt8) {n : Nat}
    (newKey : Buffer UInt8 n) : Option (ErrorCode × Buffer UInt8 n × Nat) :=
  if oldKey = [] ∨ kcString = [] ∨ n = 0 ∨ hashType.length ≠ USM_LENGTH_OID_TRANSFORM then wiped newKey 0 n
  else match getProperLength hashType with
  | none => wiped newKey 0 n
  | some iproperlength =>
    if oldKey.length * 2 ≠ kcString.length ∨ n < oldKey.length then wiped newKey iproperlength n
    else
      let properlength := oldKey.length
      match hash digests hashType (oldKey ++ kcString.take properlength) UTILITIES_MAX_BUFFER with
      | none => wiped newKey properlength properlength
      | some mac =>
        (newKey.write 0 ((mac ++ₛ tmpBuf).take properlength)).bind fun newKey =>
          (newKey.write 0 (List.zipWith (· ^^^ ·) (newKey.read properlength) (kcString.drop properlength))).map
            fun newKey => (.success, newKey, properlength)

/-! ## what the two have in common -/

variable {digests : Digests} {random tmpBuf : Mem} {hashType : ObjId} {oldKey newKey message mac : List UInt8}
  {n m len macLength p : Nat} {kc out : Buffer UInt8 n} {key : Buffer UInt8 m}

theorem zipWith_xor_cancel {mask xs : List UInt8} (h : mask.length = xs.length) :
    List.zipWith (· ^^^ ·) mask (List.zipWith (· ^^^ ·) mask xs) = xs := by
  induction mask generalizing xs with
  | nil =>
    rw [eq_nil_of_length_eq_zero h.symm]
    rfl
  | cons b mask ih =>
    cases xs with
    | nil => cases h
    | cons x xs =>
      rw [zipWith_cons_cons, zipWith_cons_cons, ih (Nat.succ.inj h), ← UInt8.xor_assoc, UInt8.xor_self,
        UInt8.zero_xor]

theorem getProperLength_le (h : getProperLength hashType = some p) : p ≤ 20 := by
  unfold getProperLength at h
  split at h
  · cases h
    decide
  · split at h
    · cases h
      decide
    · cases h

theorem hash_eq_some (hp : getProperLength hashType = some p) (h : hash digests hashType message macLength = some mac) :
    mac.length = p ∧ ∀ room, p ≤ room → hash digests hashType message room = some mac := by
  unfold hash at h ⊢
  by_cases hmessage : message = []
  · rw [if_pos hmessage] at h
    cases h
  rw [if_neg hmessage, hp] at h
  simp only [if_neg hmessage, hp] at h ⊢
  by_cases hroom : macLength < p
  · rw [if_pos hroom] at h
    cases h
  rw [if_neg hroom] at h
  refine ⟨?_, fun room hle => by rw [if_neg (Nat.not_lt.mpr hle), h]⟩
  unfold getProperLength at hp
  split at hp
  · rename_i hmd5
    cases hp
    rw [if_pos hmd5] at h
    obtain ⟨md5, -, rfl⟩ := Option.map_eq_some_iff.mp h
    exact (md5 message).2
  · rename_i hmd5
    split at hp
    · cases hp
      rw [if_neg hmd5] at h
      obtain ⟨sha1, -, rfl⟩ := Option.map_eq_some_iff.mp h
      exact (sha1 message).2
    · cases hp

theorem wiped_ne_success {buffer : Buffer UInt8 n} {length left : Nat} :
    wiped buffer length left ≠ some (.success, kc, len) := by
  intro h
  obtain ⟨_, -, heq⟩ := Option.map_eq_some_iff.mp h
  cases heq

theorem write_front {x : List UInt8} {b b' : Buffer UInt8 n} (h : b.write 0 x = some b') : b'.read x.length = x := by
  have hfits : 0 + x.length ≤ n := by
    by_contra hlong
    rw [Buffer.write, dif_neg hlong] at h
    cases h
  obtain ⟨b₁, hwrite, hread, -⟩ := Buffer.write_spec (b := b) hfits
  rw [hwrite] at h
  cases h
  rw [Nat.zero_add] at hread
  rw [hread, Buffer.read, take_zero, nil_append]

theorem write_behind {i : Nat} {x : List UInt8} {b b' : Buffer UInt8 n} (h : b.write i x = some b') :
    b'.read (i + x.length) = b.read i ++ x := by
  have hfits : i + x.length ≤ n := by
    by_contra hlong
    rw [Buffer.write, dif_neg hlong] at h
    cases h
  obtain ⟨b₁, hwrite, hread, -⟩ := Buffer.write_spec (b := b) hfits
  rw [hwrite] at h
  cases h
  exact hread

theorem take_of_append_stream (bs : List UInt8) (rest : Mem) {k : Nat} (h : k ≤ bs.length) :
    (bs ++ₛ rest).take k = bs.take k := by
  induction bs generalizing k with
  | nil =>
    obtain rfl := Nat.le_zero.mp h
    rfl
  | cons b bs ih =>
    cases k with
    | zero => rfl
    | succ k =>
      rw [Stream'.cons_append_stream, Stream'.take_succ_cons, take_succ_cons, ih (Nat.le_of_succ_le_succ h)]

/-! ## what an encoded key is -/

theorem encodeKeyChange_eq_success (hp : getProperLength hashType = some p)
    (h : encodeKeyChange digests random hashType oldKey newKey out = some (.success, kc, len)) :
    oldKey ≠ [] ∧ hashType.length = USM_LENGTH_OID_TRANSFORM ∧ oldKey.length = newKey.length ∧
      len = min oldKey.length p * 2 ∧
      ∃ mac, hash digests hashType (oldKey.take (min oldKey.length p) ++ random.take (min oldKey.length p))
            UTILITIES_MAX_BUFFER = some mac ∧ mac.length = p ∧ kc.read len = random.take (min oldKey.length p) ++
          List.zipWith (· ^^^ ·) (mac.take (min oldKey.length p)) newKey := by
  unfold encodeKeyChange at h
  by_cases hargs : oldKey = [] ∨ newKey = [] ∨ n = 0 ∨ hashType.length ≠ USM_LENGTH_OID_TRANSFORM
  · rw [if_pos hargs] at h
    exact absurd h wiped_ne_success
  rw [if_neg hargs, hp] at h
  simp only [] at h
  by_cases hlengths : oldKey.length ≠ newKey.length ∨ n < 2 * oldKey.length
  · rw [if_pos hlengths] at h
    exact absurd h wiped_ne_success
  rw [if_neg hlengths] at h
  generalize hk : min oldKey.length p = k at h ⊢
  obtain ⟨kc₁, hwrite₁, h⟩ := Option.bind_eq_some_iff.mp h
  have hrandom : (random.take k).length = k := Stream'.length_take _ _
  have hread₁ : kc₁.read k = random.take k := by
    have := write_front hwrite₁
    rwa [hrandom] at this
  rw [hread₁] at h
  cases hhash : hash digests hashType (oldKey.take k ++ random.take k) (n - k) with
  | none =>
    rw [hhash] at h
    exact absurd h wiped_ne_success
  | some mac =>
    rw [hhash] at h
    obtain ⟨hmac, hroom⟩ := hash_eq_some hp hhash
    obtain ⟨kc₂, hwrite₂, h⟩ := Option.bind_eq_some_iff.mp h
    obtain ⟨kc₃, hwrite₃, heq⟩ := Option.map_eq_some_iff.mp h
    cases heq
    have hread₂ : kc₂.read (k + p) = random.take k ++ mac := by
      have := write_behind hwrite₂
      rwa [hmac, hread₁] at this
    have hfirst : kc₂.read k = random.take k := by
      rw [← Buffer.take_read (Nat.le_add_right k p), hread₂, take_left' hrandom]
    have hmask : (kc₂.read (2 * k)).drop k = mac.take k := by
      rw [← Buffer.take_read (show 2 * k ≤ k + p by omega), hread₂, List.drop_take, drop_left' hrandom,
        show 2 * k - k = k by omega]
    have hmasked : (zipWith (· ^^^ ·) (mac.take k) newKey).length = k := by
      rw [length_zipWith, length_take, hmac]
      omega
    rw [hmask] at hwrite₃
    have hread₃ := write_behind hwrite₃
    rw [hmasked, hfirst] at hread₃
    refine ⟨fun hnil => hargs (.inl hnil), ?_, not_not.mp fun hne => hlengths (.inl hne), rfl, mac,
      hroom _ ((getProperLength_le hp).trans (by decide)), hmac, ?_⟩
    · exact not_not.mp fun hne => hargs (.inr (.inr (.inr hne)))
    · rw [Nat.mul_two]
      exact hread₃

/-! ## what a decoded key is -/

theorem length_of_decodeKeyChange {kcString : List UInt8} {key' : Buffer UInt8 m} (hp : getProperLength hashType = some p)
    (h : decodeKeyChange digests tmpBuf hashType oldKey kcString key = some (.success, key', len)) :
    oldKey.length * 2 = kcString.length := by
  unfold decodeKeyChange at h
  by_cases hargs : oldKey = [] ∨ kcString = [] ∨ m = 0 ∨ hashType.length ≠ USM_LENGTH_OID_TRANSFORM
  · rw [if_pos hargs] at h
    exact absurd h wiped_ne_success
  rw [if_neg hargs, hp] at h
  simp only [] at h
  by_cases hlengths : oldKey.length * 2 ≠ kcString.length ∨ m < oldKey.length
  · rw [if_pos hlengths] at h
    exact absurd h wiped_ne_success
  · exact not_not.mp fun hne => hlengths (.inl hne)

theorem decodeKeyChange_of_hash (tmpBuf : Mem) (key : Buffer UInt8 m) {kcString : List UInt8} (hkey : oldKey ≠ [])
    (htype : hashType.length = USM_LENGTH_OID_TRANSFORM) (hp : getProperLength hashType = some p)
    (hlen : oldKey.length * 2 = kcString.length) (hroom : oldKey.length ≤ m)
    (hhash : hash digests hashType (oldKey ++ kcString.take oldKey.length) UTILITIES_MAX_BUFFER = some mac)
    (hmac : oldKey.length ≤ mac.length) : ∃ key' : Buffer UInt8 m,
      decodeKeyChange digests tmpBuf hashType oldKey kcString key = some (.success, key', oldKey.length) ∧
        key'.read oldKey.length = List.zipWith (· ^^^ ·) (mac.take oldKey.length) (kcString.drop oldKey.length) := by
  have hpos : 0 < oldKey.length := length_pos_of_ne_nil hkey
  have hargs : ¬ (oldKey = [] ∨ kcString = [] ∨ m = 0 ∨ hashType.length ≠ USM_LENGTH_OID_TRANSFORM) := by
    rintro (hnil | hnil | hzero | hne)
    · exact hkey hnil
    · rw [hnil, length_nil] at hlen
      omega
    · omega
    · exact hne htype
  have hlengths : ¬ (oldKey.length * 2 ≠ kcString.length ∨ m < oldKey.length) := by
    rintro (hne | hlt)
    · exact hne hlen
    · omega
  have hmask : (mac ++ₛ tmpBuf).take oldKey.length = mac.take oldKey.length :=
    take_of_append_stream mac tmpBuf hmac
  have hmasklen : (mac.take oldKey.length).length = oldKey.length := by
    rw [length_take]
    omega
  have hmasked : (zipWith (· ^^^ ·) (mac.take oldKey.length) (kcString.drop oldKey.length)).length =
      oldKey.length := by
    rw [length_zipWith, hmasklen, length_drop]
    omega
  obtain ⟨key₁, hwrite₁, hread₁, -⟩ := Buffer.write_spec (b := key) (i := 0) (x := mac.take oldKey.length) (by omega)
  obtain ⟨key₂, hwrite₂, hread₂, -⟩ := Buffer.write_spec (b := key₁) (i := 0)
    (x := zipWith (· ^^^ ·) (mac.take oldKey.length) (kcString.drop oldKey.length)) (by omega)
  have hfirst : key₁.read oldKey.length = mac.take oldKey.length := by
    have := write_front hwrite₁
    rwa [hmasklen] at this
  refine ⟨key₂, ?_, ?_⟩
  · unfold decodeKeyChange
    rw [if_neg hargs, hp]
    simp only []
    rw [if_neg hlengths, hhash]
    simp only [hmask, hwrite₁, Option.bind_some, hfirst, hwrite₂, Option.map_some]
  · have := write_front hwrite₂
    rwa [hmasked] at this

/-! ## there and back -/

/-- A new key that was encoded is decoded if and only if it is not longer than the hash. -/
theorem decodeKeyChange_encoded_iff
    (h : encodeKeyChange digests random hashType oldKey newKey out = some (.success, kc, len))
    (hroom : oldKey.length ≤ m) :
    (∃ key', decodeKeyChange digests tmpBuf hashType oldKey (kc.read len) key =
          some (.success, key', newKey.length) ∧ key'.read newKey.length = newKey) ↔
      ∀ p, getProperLength hashType = some p → oldKey.length ≤ p := by
  cases hp : getProperLength hashType with
  | none =>
    -- A hash type that is not known is not encoded.
    exfalso
    unfold encodeKeyChange at h
    rw [hp] at h
    split at h <;> exact wiped_ne_success h
  | some p =>
    obtain ⟨hkey, htype, hlengths, rfl, mac, hhash, hmac, hread⟩ := encodeKeyChange_eq_success hp h
    have hrandom : (random.take (min oldKey.length p)).length = min oldKey.length p := Stream'.length_take _ _
    have hlen : (kc.read (min oldKey.length p * 2)).length = min oldKey.length p * 2 := by
      rw [hread, length_append, hrandom, length_zipWith, length_take, hmac]
      omega
    constructor
    · rintro ⟨key', hdecoded, -⟩ q hq
      cases hq
      have htwice := length_of_decodeKeyChange hp hdecoded
      omega
    · intro hshort
      have hle := hshort p rfl
      rw [Nat.min_eq_left hle] at hread hrandom hhash hlen ⊢
      rw [take_length] at hhash
      have hfront : (kc.read (oldKey.length * 2)).take oldKey.length = random.take oldKey.length := by
        rw [hread, take_left' hrandom]
      have hback : (kc.read (oldKey.length * 2)).drop oldKey.length =
          zipWith (· ^^^ ·) (mac.take oldKey.length) newKey := by
        rw [hread, drop_left' hrandom]
      rw [← hfront] at hhash
      obtain ⟨key', hdecoded, hfound⟩ := decodeKeyChange_of_hash tmpBuf key hkey htype hp hlen.symm hroom hhash (by omega)
      refine ⟨key', ?_, ?_⟩
      · rw [← hlengths]
        exact hdecoded
      · have hmask : (mac.take oldKey.length).length = newKey.length := by
          rw [length_take]
          omega
        rw [← hlengths, hfound, hback, zipWith_xor_cancel hmask]

/-- A buffer of so many zeros. -/
def zeros (n : Nat) : Buffer UInt8 n := ⟨List.replicate n 0, List.length_replicate⟩

/-- Two digests that give the first octet of a text, again and again. -/
def firstOctets : Digests where
  md5 := some fun message => ⟨List.replicate 16 (message.headD 0), List.length_replicate⟩
  sha1 := some fun message => ⟨List.replicate 20 (message.headD 0), List.length_replicate⟩

theorem decodeKeyChange_encoded_iff_two :
    ∃ kc : Buffer UInt8 32, ∃ len,
      encodeKeyChange firstOctets (Stream'.const 7) usm_hMACMD5AuthProtocol [1, 2] [3, 4] (zeros 32) =
          some (.success, kc, len) ∧
        ((∃ key', decodeKeyChange firstOctets (Stream'.const 0) usm_hMACMD5AuthProtocol [1, 2] (kc.read len) (zeros 2) =
              some (.success, key', [(3 : UInt8), 4].length) ∧ key'.read [(3 : UInt8), 4].length = [3, 4]) ↔
          ∀ p, getProperLength usm_hMACMD5AuthProtocol = some p → [(1 : UInt8), 2].length ≤ p) := by
  have hencoded : encodeKeyChange firstOctets (Stream'.const 7) usm_hMACMD5AuthProtocol [1, 2] [3, 4] (zeros 32) =
      some (.success, ⟨[7, 7, 2, 5] ++ replicate 14 1 ++ replicate 14 0, rfl⟩, 4) := rfl
  exact ⟨_, _, hencoded, decodeKeyChange_encoded_iff hencoded (by decide)⟩

/-- Keys of twenty octets are encoded with a hash of sixteen, and what comes of it is refused. -/
theorem decodeKeyChange_refuses :
    ∃ kc : Buffer UInt8 40,
      encodeKeyChange firstOctets (Stream'.const 7) usm_hMACMD5AuthProtocol (List.replicate 20 1) (List.replicate 20 2)
          (zeros 40) = some (.success, kc, 32) ∧
        decodeKeyChange firstOctets (Stream'.const 0) usm_hMACMD5AuthProtocol (List.replicate 20 1) (kc.read 32)
          (zeros 20) = some (.genErr, zeros 20, 20) := by
  refine ⟨⟨replicate 16 7 ++ replicate 16 3 ++ replicate 8 0, rfl⟩, ?_, ?_⟩
  · rfl
  · rfl

end Priot.Usm
