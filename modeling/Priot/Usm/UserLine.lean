/-
# A user on a line

`Usm_saveUser` writes what is known of a user on a line of the configuration, eleven fields with a space in front of
each, and `Usm_readUser` reads them again. The engine that is set for the user then is left out, and memory that is
asked for is got.
-/
import Priot.Usm.InMsg
import Priot.ReadConfig.RoundTrip

namespace Priot.Usm

open Lib ReadConfig List

/-! ## data -/

/-- `Usm_User_s`. A string that is `NULL` has the length 0, and so has an object identifier. -/
structure Profile where
  userStatus : Int32
  userStorageType : Int32
  engineID : Option (List UInt8)
  name : Option CString
  secName : Option CString
  cloneFrom : Option ObjId
  authProtocol : Option ObjId
  authKey : Option (List UInt8)
  privProtocol : Option ObjId
  privKey : Option (List UInt8)
  userPublicString : Option (List UInt8)
  deriving DecidableEq

/-- A string that is `NULL` counts as empty. -/
def Profile.value (u : Profile) : Profile where
  userStatus := u.userStatus
  userStorageType := u.userStorageType
  engineID := some (u.engineID.getD [])
  name := some (nameOf u.name)
  secName := some (nameOf u.secName)
  cloneFrom := some (u.cloneFrom.getD [])
  authProtocol := some (u.authProtocol.getD [])
  authKey := some (u.authKey.getD [])
  privProtocol := some (u.privProtocol.getD [])
  privKey := some (u.privKey.getD [])
  userPublicString := some (u.userPublicString.getD [])

/-! ## `Usm_saveUser` -/

/-- `ReadConfig_saveObjid`, where a zero has been written before. -/
def saveObjid (objid : ObjId) : Text := if objid = [] then [78, 85, 76, 76] else Mib.dotted objid

def Profile.fields (u : Profile) : List Text :=
  [signedDecimal u.userStatus.toInt, signedDecimal u.userStorageType.toInt, saveOctetString u.engineID,
    saveOctetString (u.name.map Subtype.val), saveOctetString (u.secName.map Subtype.val),
    saveObjid (u.cloneFrom.getD []), saveObjid (u.authProtocol.getD []), saveOctetString u.authKey,
    saveObjid (u.privProtocol.getD []), saveOctetString u.privKey, saveOctetString u.userPublicString]

/-- The fields with a space in front of each. -/
def spaced (fields : List Text) : Text := fields.flatMap (32 :: ·)

/-- The length of `line`. -/
def USER_LINE_SIZE : Nat := 4096

/-- `Usm_saveUser`: the line that is stored. There is no result when something is written outside `line`. -/
def saveUser (u : Profile) (token : Text) : Option Text :=
  let line := token ++ spaced u.fields
  if line.length < USER_LINE_SIZE then some line else none

/-! ## `Usm_readUser` -/

/-- `ReadConfig_readOctetString` into a string that is to be allocated. -/
def readOctets : Option Text → Option Text × Option (List UInt8)
  | none => (none, none)
  | some readfrom => readOctetString readfrom none

/-- `ReadConfig_readObjidConst` into an array that is to be allocated. -/
def readOid (mib : Mib.MibState) : Option Text → Option Text × Option ObjId
  | none => (none, none)
  | some readfrom => readObjid mib readfrom none

def expectedPrivKeyLen (privProtocol : ObjId) : Nat :=
  if isTransform privProtocol usm_dESPrivProtocol then 16
  else if isTransform privProtocol usm_aESPrivProtocol then 16
  else 0

/-- The calls of the readers in their order, behind the status. -/
def readFields (mib : Mib.MibState) (userStatus : Int32) (line : Text) : Profile :=
  let engineID := readOctets (skipToken line)
  let name := readOctets engineID.1
  let secName := readOctets name.1
  let cloneFrom := readOid mib secName.1
  let authProtocol := readOid mib cloneFrom.1
  let authKey := readOctets authProtocol.1
  let privProtocol := readOid mib authKey.1
  let privKey := readOctets privProtocol.1
  let userPublicString := readOctets privKey.1
  ⟨userStatus, atoi line, engineID.2, name.2.map cString, secName.2.map cString, cloneFrom.2, authProtocol.2,
    authKey.2, privProtocol.2, privKey.2, userPublicString.2⟩

/-- `Usm_readUser`, with what lies behind the subidentifiers that have been read. There is no result when a pointer is
followed that is `NULL`. -/
def readUser (mib : Mib.MibState) (behind : ObjId) (line : Text) : Option Profile :=
  (skipToken line).bind fun rest =>
    let user := readFields mib (atoi line) rest
    user.privProtocol.map fun privProtocol =>
      { user with privKey := user.privKey.map (List.take (expectedPrivKeyLen (privProtocol ++ behind))) }

/-! ## one field -/

/-- The pointer to the first of the fields that are left. -/
def nextOf : List Text → Option Text
  | [] => none
  | field :: rest => some (field ++ spaced rest)

/-- What is written for a field begins a token. -/
def Field (field : Text) : Prop := ∀ rest, Starts (field ++ rest)

variable {rest : List Text} {mib : Mib.MibState} {behind : ObjId}

theorem follows_spaced (h : ∀ field ∈ rest, Field field) : Follows (spaced rest) (nextOf rest) := by
  cases rest with
  | nil => exact .inl ⟨rfl, rfl⟩
  | cons field rest => exact .inr ⟨field ++ spaced rest, rfl, h field mem_cons_self _, rfl⟩

theorem field_saveObjid (o : ObjId) : Field (saveObjid o) := by
  intro rest
  unfold saveObjid
  split
  · exact ⟨78, 85 :: 76 :: 76 :: rest, rfl, by decide, by decide⟩
  · exact ReadConfig.dotted_starts (by assumption) rest

theorem Profile.field_fields (u : Profile) : ∀ field ∈ u.fields, Field field := by
  unfold Profile.fields
  simp only [mem_cons, not_mem_nil, or_false]
  rintro field (rfl | rfl | rfl | rfl | rfl | rfl | rfl | rfl | rfl | rfl | rfl)
  · exact ReadConfig.signedDecimal_starts _
  · exact ReadConfig.signedDecimal_starts _
  · exact ReadConfig.saveOctetString_starts _
  · exact ReadConfig.saveOctetString_starts _
  · exact ReadConfig.saveOctetString_starts _
  · exact field_saveObjid _
  · exact field_saveObjid _
  · exact ReadConfig.saveOctetString_starts _
  · exact field_saveObjid _
  · exact ReadConfig.saveOctetString_starts _
  · exact ReadConfig.saveOctetString_starts _

theorem read_signedDecimal (v : Int32) (h : ∀ field ∈ rest, Field field) :
    atoi (signedDecimal v.toInt ++ spaced rest) = v ∧ skipToken (signedDecimal v.toInt ++ spaced rest) = nextOf rest :=
  ⟨Lib.atoi_signedDecimal v (follows_spaced h).stops, ReadConfig.skipToken_signedDecimal v.toInt (follows_spaced h)⟩

theorem readOctets_field (s : Option (List UInt8)) (hlen : (s.getD []).length < ReadConfig.MAX_BUFFER)
    (h : ∀ field ∈ rest, Field field) :
    readOctets (nextOf (saveOctetString s :: rest)) = (nextOf rest, some (s.getD [])) := by
  have hread := ReadConfig.readOctetString_save s (follows_spaced h)
  rw [(ReadConfig.readString_eq_iff s).mpr fun _ => hlen] at hread
  exact hread

/-- The reader takes an object identifier: it is empty, or the loaded MIBs accept it. -/
def Taken (mib : Mib.MibState) (o : ObjId) : Prop := o ≠ [] → Mib.Accepts mib o

theorem readOid_field {o : ObjId} (hlen : o.length ≤ TYPES_MAX_OID_LEN) (h : ∀ field ∈ rest, Field field) :
    (Taken mib o → readOid mib (nextOf (saveObjid o :: rest)) = (nextOf rest, some o)) ∧
      (¬ Taken mib o → readOid mib (nextOf (saveObjid o :: rest)) = (none, some [])) := by
  by_cases hnil : o = []
  · subst hnil
    refine ⟨fun _ => ?_, fun hnot => absurd (fun hne => absurd rfl hne) hnot⟩
    have hskip : skipToken ([78, 85, 76, 76] ++ spaced rest) = nextOf rest :=
      ReadConfig.skipToken_word ReadConfig.null_word ⟨78, 85 :: 76 :: 76 :: spaced rest, rfl, by decide, by decide⟩
        (follows_spaced h)
    show (skipToken ([78, 85, 76, 76] ++ spaced rest), some []) = _
    rw [hskip]
  · obtain ⟨hread, hfail⟩ := ReadConfig.readObjid_dotted mib hnil hlen (follows_spaced h)
    have hsave : saveObjid o = Mib.dotted o := if_neg hnil
    have hnext : readOid mib (nextOf (saveObjid o :: rest)) = readObjid mib (Mib.dotted o ++ spaced rest) none := by
      rw [hsave]
      rfl
    rw [hnext]
    exact ⟨fun htaken => hread (htaken hnil), fun hnot => hfail fun haccepts => hnot fun _ => haccepts⟩

/-! ## all fields -/

variable {u : Profile} {token line : Text}

theorem takeWhile_of_not_mem {s : List UInt8} (h : 0 ∉ s) : s.takeWhile (· ≠ 0) = s := by
  rw [takeWhile_eq_self_iff]
  intro b hb
  refine decide_eq_true fun heq => ?_
  rw [heq] at hb
  exact h hb

theorem cString_val (s : CString) : cString s.1 = s := Subtype.ext (takeWhile_of_not_mem s.2)

theorem cString_getD (name : Option CString) : cString ((name.map Subtype.val).getD []) = nameOf name := by
  cases name with
  | none => rfl
  | some s => exact cString_val s

def Profile.strings (u : Profile) : List (Option (List UInt8)) :=
  [u.engineID, u.name.map Subtype.val, u.secName.map Subtype.val, u.authKey, u.privKey, u.userPublicString]

/-- The object identifiers of a user. -/
def Profile.oids (u : Profile) : List ObjId := [u.cloneFrom.getD [], u.authProtocol.getD [], u.privProtocol.getD []]

/-- The strings and the object identifiers are not too long for the readers. -/
structure Profile.Short (u : Profile) : Prop where
  strings : ∀ s ∈ u.strings, (s.getD []).length < ReadConfig.MAX_BUFFER
  oids : ∀ o ∈ u.oids, o.length ≤ TYPES_MAX_OID_LEN

theorem Profile.Short.readOctets_eq (h : u.Short) :
    readOctets (nextOf (u.fields.drop 2)) = (nextOf (u.fields.drop 3), some (u.engineID.getD [])) ∧
    readOctets (nextOf (u.fields.drop 3)) = (nextOf (u.fields.drop 4), some ((u.name.map Subtype.val).getD [])) ∧
    readOctets (nextOf (u.fields.drop 4)) = (nextOf (u.fields.drop 5), some ((u.secName.map Subtype.val).getD [])) ∧
    readOctets (nextOf (u.fields.drop 7)) = (nextOf (u.fields.drop 8), some (u.authKey.getD [])) ∧
    readOctets (nextOf (u.fields.drop 9)) = (nextOf (u.fields.drop 10), some (u.privKey.getD [])) ∧
    readOctets (nextOf (u.fields.drop 10)) = (nextOf (u.fields.drop 11), some (u.userPublicString.getD [])) := by
  have hread : ∀ s ∈ u.strings, ∀ k, readOctets (nextOf (saveOctetString s :: u.fields.drop k)) =
      (nextOf (u.fields.drop k), some (s.getD [])) := fun s hs k =>
    readOctets_field s (h.strings s hs) fun field hf => u.field_fields field (mem_of_mem_drop hf)
  exact ⟨hread _ (by simp [Profile.strings]) 3, hread _ (by simp [Profile.strings]) 4,
    hread _ (by simp [Profile.strings]) 5, hread _ (by simp [Profile.strings]) 8,
    hread _ (by simp [Profile.strings]) 10, hread _ (by simp [Profile.strings]) 11⟩

/-- What becomes of an object identifier behind which there are the fields `rest`. -/
def OidRead (mib : Mib.MibState) (o : ObjId) (readfrom : Option Text) (rest : List Text) : Prop :=
  (Taken mib o → readOid mib readfrom = (nextOf rest, some o)) ∧ (¬ Taken mib o → readOid mib readfrom = (none, some []))

theorem Profile.Short.readOid_eq (h : u.Short) (mib : Mib.MibState) :
    OidRead mib (u.cloneFrom.getD []) (nextOf (u.fields.drop 5)) (u.fields.drop 6) ∧
    OidRead mib (u.authProtocol.getD []) (nextOf (u.fields.drop 6)) (u.fields.drop 7) ∧
    OidRead mib (u.privProtocol.getD []) (nextOf (u.fields.drop 8)) (u.fields.drop 9) := by
  have hread : ∀ o ∈ u.oids, ∀ k, OidRead mib o (nextOf (saveObjid o :: u.fields.drop k)) (u.fields.drop k) :=
    fun o ho k => readOid_field (h.oids o ho) fun field hf => u.field_fields field (mem_of_mem_drop hf)
  exact ⟨hread _ (by simp [Profile.oids]) 6, hread _ (by simp [Profile.oids]) 7, hread _ (by simp [Profile.oids]) 9⟩

theorem read_storageType (u : Profile) :
    atoi (signedDecimal u.userStorageType.toInt ++ spaced (u.fields.drop 2)) = u.userStorageType ∧
      skipToken (signedDecimal u.userStorageType.toInt ++ spaced (u.fields.drop 2)) = nextOf (u.fields.drop 2) :=
  read_signedDecimal u.userStorageType fun field hf => u.field_fields field (mem_of_mem_drop hf)

theorem readFields_eq (hshort : u.Short) (htaken : ∀ o ∈ u.oids, Taken mib o) :
    readFields mib u.userStatus (signedDecimal u.userStorageType.toInt ++ spaced (u.fields.drop 2)) = u.value := by
  obtain ⟨hstorage, hskip⟩ := read_storageType u
  obtain ⟨hengineID, hname, hsecName, hauthKey, hprivKey, hpublic⟩ := hshort.readOctets_eq
  obtain ⟨hcloneFrom, hauthProtocol, hprivProtocol⟩ := hshort.readOid_eq mib
  have hcloneFrom := hcloneFrom.1 (htaken _ (by simp [Profile.oids]))
  have hauthProtocol := hauthProtocol.1 (htaken _ (by simp [Profile.oids]))
  have hprivProtocol := hprivProtocol.1 (htaken _ (by simp [Profile.oids]))
  unfold readFields
  rw [hstorage, hskip]
  simp only [hengineID, hname, hsecName, hcloneFrom, hauthProtocol, hauthKey, hprivProtocol, hprivKey, hpublic,
    Option.map_some, cString_getD]
  rfl

theorem readFields_privProtocol (hshort : u.Short) (hnot : ∃ o ∈ u.oids, ¬ Taken mib o) :
    (readFields mib u.userStatus (signedDecimal u.userStorageType.toInt ++ spaced (u.fields.drop 2))).privProtocol ≠
      some (u.privProtocol.getD []) := by
  obtain ⟨-, hskip⟩ := read_storageType u
  obtain ⟨hengineID, hname, hsecName, hauthKey, -, -⟩ := hshort.readOctets_eq
  obtain ⟨hcloneFrom, hauthProtocol, hprivProtocol⟩ := hshort.readOid_eq mib
  unfold readFields
  rw [hskip]
  simp only [hengineID, hname, hsecName]
  by_cases hclone : Taken mib (u.cloneFrom.getD [])
  · rw [hcloneFrom.1 hclone]
    simp only []
    by_cases hauth : Taken mib (u.authProtocol.getD [])
    · rw [hauthProtocol.1 hauth]
      simp only [hauthKey]
      have hpriv : ¬ Taken mib (u.privProtocol.getD []) := by
        intro hpriv
        obtain ⟨o, ho, hnot⟩ := hnot
        simp only [Profile.oids, mem_cons, not_mem_nil, or_false] at ho
        rcases ho with rfl | rfl | rfl
        · exact hnot hclone
        · exact hnot hauth
        · exact hnot hpriv
      rw [hprivProtocol.2 hpriv]
      intro heq
      exact hpriv fun hne => absurd (Option.some.inj heq).symm hne
    · -- the reader returns `NULL`, and so do those behind it
      rw [hauthProtocol.2 hauth]
      show none ≠ some (u.privProtocol.getD [])
      exact (Option.some_ne_none _).symm
  · rw [hcloneFrom.2 hclone]
    show none ≠ some (u.privProtocol.getD [])
    exact (Option.some_ne_none _).symm

/-- What a user comes back with: the object identifiers are taken, and a key for privacy has got a protocol that asks
for it. -/
structure Profile.Restorable (mib : Mib.MibState) (u : Profile) : Prop where
  taken : ∀ o ∈ u.oids, Taken mib o
  keyed : u.privKey.getD [] = [] ∨ isTransform (u.privProtocol.getD []) usm_dESPrivProtocol = true ∨
    isTransform (u.privProtocol.getD []) usm_aESPrivProtocol = true

theorem isTransform_append {o toid : ObjId} (h : isTransform o toid = true) (hlen : toid.length = USM_LENGTH_OID_TRANSFORM) :
    isTransform (o ++ behind) toid = true := by
  unfold isTransform at h ⊢
  rw [decide_eq_true_eq] at h ⊢
  have hle : USM_LENGTH_OID_TRANSFORM ≤ o.length := by
    have htake := congrArg List.length h
    rw [length_take, hlen] at htake
    omega
  rw [take_append_of_le_length hle, h]

theorem expectedPrivKeyLen_of_keyed (h : isTransform (u.privProtocol.getD []) usm_dESPrivProtocol = true ∨
    isTransform (u.privProtocol.getD []) usm_aESPrivProtocol = true) (behind : ObjId) :
    expectedPrivKeyLen (u.privProtocol.getD [] ++ behind) = 16 := by
  unfold expectedPrivKeyLen
  rcases h with hdes | haes
  · rw [if_pos (isTransform_append hdes rfl)]
  · split
    · rfl
    · rw [if_pos (isTransform_append haes rfl)]

theorem saveUser_eq_some (h : saveUser u token = some line) :
    line.drop (token.length + 1) = signedDecimal u.userStatus.toInt ++ spaced (u.fields.drop 1) ∧
      (spaced u.fields).length < USER_LINE_SIZE := by
  unfold saveUser at h
  simp only [] at h
  split at h
  next hlen =>
    cases h
    rw [length_append] at hlen
    refine ⟨?_, by omega⟩
    rw [drop_length_add_append]
    rfl
  next => cases h

theorem length_le_spaced {field : Text} {fields : List Text} (h : field ∈ fields) :
    field.length ≤ (spaced fields).length := by
  obtain ⟨pre, post, rfl⟩ := append_of_mem h
  unfold spaced
  rw [flatMap_append, flatMap_cons, length_append, length_append, length_cons]
  omega

theorem short_of_saveUser (h : saveUser u token = some line) (hoids : ∀ o ∈ u.oids, o.length ≤ TYPES_MAX_OID_LEN) :
    u.Short := by
  obtain ⟨-, hlen⟩ := saveUser_eq_some h
  have hfields : ∀ s ∈ u.strings, saveOctetString s ∈ u.fields := by
    simp only [Profile.strings, Profile.fields, mem_cons, not_mem_nil, or_false]
    rintro s (rfl | rfl | rfl | rfl | rfl | rfl) <;> simp
  refine ⟨fun s hs => ?_, hoids⟩
  have hfield := length_le_spaced (hfields s hs)
  have hstring := ReadConfig.length_le_saveOctetString s
  have hsize : USER_LINE_SIZE = ReadConfig.MAX_BUFFER := rfl
  omega

/-- A user that has been written on a line comes back from it as it was, whatever lies behind what is read, if and
only if the loaded MIBs accept its object identifiers, and its key for privacy is empty or its protocol is DES or
AES. -/
theorem readUser_saveUser_iff (mib : Mib.MibState) (hline : saveUser u token = some line)
    (hoids : ∀ o ∈ u.oids, o.length ≤ TYPES_MAX_OID_LEN) (hkey : (u.privKey.getD []).length ≤ 16) :
    (∀ behind, readUser mib behind (line.drop (token.length + 1)) = some u.value) ↔ u.Restorable mib := by
  have hshort := short_of_saveUser hline hoids
  obtain ⟨hstatus, hskip⟩ := @read_signedDecimal (u.fields.drop 1) u.userStatus
    fun field hf => u.field_fields field (mem_of_mem_drop hf)
  have hread : ∀ behind, readUser mib behind (line.drop (token.length + 1)) =
      let user := readFields mib u.userStatus (signedDecimal u.userStorageType.toInt ++ spaced (u.fields.drop 2))
      user.privProtocol.map fun privProtocol =>
        { user with privKey := user.privKey.map (List.take (expectedPrivKeyLen (privProtocol ++ behind))) } := by
    intro behind
    rw [(saveUser_eq_some hline).1]
    unfold readUser
    rw [hstatus, hskip]
    rfl
  constructor
  · intro hback
    have htaken : ∀ o ∈ u.oids, Taken mib o := by
      by_contra hnot
      obtain ⟨o, ho, hnot⟩ := not_forall₂.mp hnot
      have hne := readFields_privProtocol hshort ⟨o, ho, hnot⟩
      have heq := hback []
      rw [hread] at heq
      obtain ⟨privProtocol, hprivProtocol, hvalue⟩ := Option.map_eq_some_iff.mp heq
      have hsame := congrArg Profile.privProtocol hvalue
      exact hne hsame
    refine ⟨htaken, ?_⟩
    have heq := hback []
    rw [hread, readFields_eq hshort htaken] at heq
    have hkeys := congrArg Profile.privKey (Option.some.inj heq)
    have htake : (u.privKey.getD []).take (expectedPrivKeyLen (u.privProtocol.getD [] ++ [])) = u.privKey.getD [] :=
      Option.some.inj hkeys
    rw [append_nil] at htake
    by_contra hnone
    obtain ⟨hnonempty, hother⟩ := not_or.mp hnone
    obtain ⟨hdes, haes⟩ := not_or.mp hother
    rw [expectedPrivKeyLen, if_neg hdes, if_neg haes, take_zero] at htake
    exact hnonempty htake.symm
  · rintro ⟨htaken, hkeyed⟩ behind
    rw [hread, readFields_eq hshort htaken]
    have htake : (u.privKey.getD []).take (expectedPrivKeyLen (u.privProtocol.getD [] ++ behind)) =
        u.privKey.getD [] := by
      rcases hkeyed with hempty | hkeyed
      · rw [hempty, take_nil]
      · rw [expectedPrivKeyLen_of_keyed hkeyed, take_of_length_le hkey]
    show some { u.value with
      privKey := some ((u.privKey.getD []).take (expectedPrivKeyLen (u.privProtocol.getD [] ++ behind))) } = _
    rw [htake]
    rfl

/-! ## users that come back, and users that do not -/

def USM_USER : Text := [117, 115, 109, 85, 115, 101, 114]

/-- A user of `DES`, whose keys hold a quote, a blank and a `#`. -/
def desUser : Profile where
  userStatus := 1
  userStorageType := 3
  engineID := some [0x80, 0, 0, 0, 1]
  name := some (cString [117, 115, 114])
  secName := some (cString [117, 115, 114])
  cloneFrom := some [0, 0]
  authProtocol := some usm_hMACMD5AuthProtocol
  authKey := some [34, 32, 35, 92, 48, 120, 0, 7, 8, 9, 10, 11, 12, 13, 14, 15]
  privProtocol := some usm_dESPrivProtocol
  privKey := some [97, 32, 98, 32, 99, 32, 100, 32, 97, 32, 98, 32, 99, 32, 100, 32]
  userPublicString := none

/-- A user of a protocol for privacy that is neither DES nor AES. -/
def otherUser : Profile := { desUser with privProtocol := some [1, 3, 6, 1, 4], privKey := some [1] }

/-- A user that has been cloned from a row of a table. -/
def clonedUser : Profile := { desUser with cloneFrom := some [1, 1, 3] }

/-- A table at the top of the tree whose index is 1 or 2. -/
def tableTree : Mib.MibState :=
  { ReadConfig.isoTree with
    root := some (.mk [] 0 [.mk [105, 115, 111] 1 [.mk [97] 1 [] []] [⟨some ⟨.integer, [], [(1, 2)]⟩, false⟩]] []) }

/-- The line behind its token and a space. -/
def argumentsOf (u : Profile) : Option Text := (saveUser u USM_USER).map (List.drop 8)

theorem saveUser_desUser : saveUser desUser USM_USER = some (USM_USER ++ spaced desUser.fields) := by decide +kernel

theorem readUser_saveUser_iff_des :
    readUser ReadConfig.isoTree [] ((USM_USER ++ spaced desUser.fields).drop 8) = some desUser.value := by
  refine (readUser_saveUser_iff ReadConfig.isoTree saveUser_desUser (by decide) (by decide)).mpr
    ⟨?_, .inr (.inl (by decide))⟩ []
  simp only [Profile.oids, mem_cons, not_mem_nil, or_false]
  rintro o (rfl | rfl | rfl) _
  · exact ⟨_, rfl, by decide +kernel⟩
  · exact ⟨_, rfl, by decide +kernel⟩
  · exact ⟨_, rfl, by decide +kernel⟩

/-- A key of another protocol is lost, and behind an object identifier that the loaded MIBs refuse, `NULL` is
followed. -/
theorem not_readUser_saveUser :
    (argumentsOf otherUser).bind (readUser ReadConfig.isoTree []) = some { otherUser.value with privKey := some [] } ∧
      (argumentsOf clonedUser).map (readUser tableTree []) = some none := by
  decide +kernel

end Priot.Usm
