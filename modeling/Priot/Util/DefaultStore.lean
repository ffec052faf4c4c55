/-
# `DefaultStore.c` — variables set by lines of a configuration

A variable is registered for a token, and a line with the token should set it. The token is kept twice: with the
handlers of its type of file, which are found without regard to case, and in one list for all of them, which is
searched for the token as it stands on the line.
-/
import Priot.Convert.HexStrings
import Priot.Usm.EngineBoots

namespace Priot.DefaultStore

open Lib ReadConfig Priot.Convert Usm

/-! ## the variables -/

/-- The types of variables. -/
inductive AsnType
  | boolean | integer | octetString
  deriving DecidableEq

structure Variable where
  asnType : AsnType
  storeId : Int
  registryId : Int
  deriving DecidableEq

/-- `DefaultStoreConfig`. -/
structure Config extends Variable where
  storeName : Text
  token : Text

/-- `{NORMAL,PREMIB,EITHER}_CONFIG`. -/
inductive When
  | normal | premib | either
  deriving DecidableEq

/-- `ReadConfig_ConfigLine_s`; the parser is `_DefaultStore_handlerConfig`. -/
structure ConfigLine where
  configToken : Text
  configTime : When
  deriving DecidableEq

structure ConfigFile where
  fileHeader : Text
  start : List ConfigLine

/-- `configs` is `none` where `_defaultStore_configs` points to what has been freed. Of the booleans there are eight in
an octet. -/
structure State where
  configs : Option (List Config)
  configFiles : List ConfigFile
  booleans : Int → Int → BitVec 8
  integers : Int → Int → Int32
  strings : Int → Int → Option Text

def MAX_IDS : Int := 3

def MAX_SUBIDS : Int := 48

def LIBRARY_ID : Int := 0

/-- `DsStr_APPTYPE`. -/
def APPTYPE : Int := 6

def isParamsOk (storeId registryId : Int) : Prop :=
  0 ≤ storeId ∧ storeId < MAX_IDS ∧ 0 ≤ registryId ∧ registryId < MAX_SUBIDS

instance (storeId registryId : Int) : Decidable (isParamsOk storeId registryId) :=
  inferInstanceAs (Decidable (_ ∧ _))

def place {α : Type} (table : Int → Int → α) (i j : Int) (x : α) : Int → Int → α :=
  fun i' j' => if i' = i ∧ j' = j then x else table i' j'

namespace State

def setBoolean (s : State) (storeId registryId : Int) (value : Int32) : State :=
  if isParamsOk storeId registryId then
    let bit := (registryId % 8).toNat
    let octet := s.booleans storeId (registryId / 8)
    let octet := if value > 0 then octet ||| 1#8 <<< bit else octet &&& (0xff7f#16 >>> (7 - bit)).setWidth 8
    { s with booleans := place s.booleans storeId (registryId / 8) octet }
  else s

def setInt (s : State) (storeId registryId : Int) (value : Int32) : State :=
  if isParamsOk storeId registryId then { s with integers := place s.integers storeId registryId value } else s

def setString (s : State) (storeId registryId : Int) (value : Text) : State :=
  if isParamsOk storeId registryId then { s with strings := place s.strings storeId registryId (some value) } else s

end State

/-! ## the handler -/

/-- `String_equalsIgnoreCase`. -/
def equalsIgnoreCase (s₁ s₂ : Text) : Prop := s₁.map toLower = s₂.map toLower

instance (s₁ s₂ : Text) : Decidable (equalsIgnoreCase s₁ s₂) := inferInstanceAs (Decidable (_ = _))

/-- `strtok_r( line, " \t\n", … )`. -/
def strtok (line : Text) : Option Text :=
  let delimiter (c : UInt8) : Bool := c == 32 || c == 9 || c == 10
  let word := (line.dropWhile delimiter).takeWhile (!delimiter ·)
  if word = [] then none else some word

/-- Where `strtol` in base 10 stops. -/
def endptr (t : Text) : Text := ((convert 10 t).map fun r => r.2.2).getD t

def YES : Text := [121, 101, 115]

def TRUE : Text := [116, 114, 117, 101]

def NO : Text := [110, 111]

def FALSE : Text := [102, 97, 108, 115, 101]

/-- `_DefaultStore_parseBoolean`, where the line has a word. -/
def parseBoolean (line : Text) : Option Int32 :=
  (strtok line).map fun value =>
    if equalsIgnoreCase value YES ∨ equalsIgnoreCase value TRUE then 1
    else if equalsIgnoreCase value NO ∨ equalsIgnoreCase value FALSE then 0
    else if endptr value ≠ [] ∨ atoi value < 0 ∨ atoi value > 1 then -1
    else atoi value

/-- The switch of `_DefaultStore_handlerConfig`. -/
def State.assign (s : State) (element : Variable) (line : Text) : Option State :=
  match element.asnType with
  | .boolean => (parseBoolean line).map fun itmp =>
    if itmp ≠ -1 then s.setBoolean element.storeId element.registryId itmp else s
  | .integer => (strtok line).map fun value =>
    if endptr value ≠ [] then s else s.setInt element.storeId element.registryId (atoi value)
  | .octetString => some (s.setString element.storeId element.registryId
      (if line.head? = some 34 then (copyNword line MAX_BUFFER).2 else line))

def State.handlerConfig (s : State) (token line : Text) : Option State :=
  s.configs.bind fun configs =>
    match configs.find? (fun element => token = element.token) with
    | none => some s
    | some element => s.assign element.toVariable line

/-! ## the handlers of a type of file -/

/-- The end of `_ReadConfig_internalRegisterConfigHandler`. -/
def registerLine (token : Text) : List ConfigLine → List ConfigLine
  | [] => [⟨token, .normal⟩]
  | l :: rest => if l.configToken = token then l :: rest else l :: registerLine token rest

/-- `ReadConfig_registerConfigHandler`, for one type. -/
def registerConfigHandler (type token : Text) : List ConfigFile → List ConfigFile
  | [] => [⟨type, registerLine token []⟩]
  | file :: rest =>
    if file.fileHeader = type then { file with start := registerLine token file.start } :: rest
    else file :: registerConfigHandler type token rest

def unregisterConfigHandler (type token : Text) : List ConfigFile → List ConfigFile
  | [] => []
  | file :: rest =>
    if file.fileHeader = type then { file with start := file.start.eraseP (·.configToken = token) } :: rest
    else file :: unregisterConfigHandler type token rest

def getHandlers (type : Text) : List ConfigFile → List ConfigLine
  | [] => []
  | file :: rest => if file.fileHeader = type then file.start else getHandlers type rest

def findHandler (lineHandlers : List ConfigLine) (token : Text) : Option ConfigLine :=
  lineHandlers.find? fun l => equalsIgnoreCase token l.configToken

namespace State

def runConfigHandler (s : State) (lptr : List ConfigLine) (token cptr : Text) (time : When) : Option State :=
  match findHandler lptr token with
  | none => some s
  | some l => if time = .either ∨ l.configTime = time then s.handlerConfig token (stomp cptr) else some s

/-- The type of a store name that has no colon; `none` where it is `NULL`. -/
def typeOf (s : State) (storeName : Text) : Option Text :=
  if storeName = [] then s.strings LIBRARY_ID APPTYPE else some storeName

def registerConfig (s : State) (c : Config) : Option State :=
  if isParamsOk c.storeId c.registryId then
    s.configs.bind fun configs => (s.typeOf c.storeName).map fun type =>
      { s with configs := some (configs ++ [c]), configFiles := registerConfigHandler type c.token s.configFiles }
  else some s

/-- `_List_freeFunction`. -/
def freeConfig (s : State) (c : Config) : Option State :=
  (s.typeOf c.storeName).map fun type =>
    { s with configFiles := unregisterConfigHandler type c.token s.configFiles }

/-- The pointer to the list stays what it is. -/
def clear (s : State) : Option State :=
  s.configs.bind fun configs => (configs.foldlM freeConfig s).map fun s =>
    { s with configs := if configs.isEmpty then some [] else none, strings := fun _ _ => none }

end State

/-! ## runs -/

inductive Call
  | registerConfig (c : Config)
  | line (type token : Text) (time : When) (value : Text)
  | clear

def State.step (s : State) : Call → Option State
  | .registerConfig c => s.registerConfig c
  | .line type token time value => s.runConfigHandler (getHandlers type s.configFiles) token value time
  | .clear => s.clear

/-! ## what is meant -/

/-- A variable registered for a token of a type of file. -/
structure Registration where
  type : Text
  config : Config

/-- Whether a token, in whichever case, is the one that is registered. -/
def Registration.Means (r : Registration) (type token : Text) : Prop :=
  r.type = type ∧ equalsIgnoreCase token r.config.token

/-- The registrations that there should be behind a call. -/
def registered (s : State) (regs : List Registration) : Call → List Registration
  | .registerConfig c => regs ++ (s.typeOf c.storeName).toList.map (⟨·, c⟩)
  | .line _ _ _ _ => regs
  | .clear => []

inductive Value
  | boolean (b : Bool)
  | integer (v : Int32)
  | string (t : Option Text)
  deriving DecidableEq

/-- What is held for a variable. -/
def State.read (s : State) (v : Variable) : Value :=
  match v.asnType with
  | .boolean => .boolean ((s.booleans v.storeId (v.registryId / 8)).getLsbD (v.registryId % 8).toNat)
  | .integer => .integer (s.integers v.storeId v.registryId)
  | .octetString => .string (s.strings v.storeId v.registryId)

/-- The well-formed values, and what they say: `(1|yes|true|0|no|false)`, a numeral in the range of `int`, and a string,
which may be quoted where the buffer has room for it. -/
inductive Says : AsnType → Text → Value → Prop
  | yes {w : Text} : equalsIgnoreCase w YES ∨ equalsIgnoreCase w TRUE ∨ w = [49] → Says .boolean w (.boolean true)
  | no {w : Text} : equalsIgnoreCase w NO ∨ equalsIgnoreCase w FALSE ∨ w = [48] → Says .boolean w (.boolean false)
  | integer {w : Text} {negative : Bool} {n : Nat} {v : Int32} : (∀ c ∈ w, isspace c = false) →
      convert 10 w = some (negative, n, []) → v.toInt = (if negative then -(n : Int) else n) → Says .integer w (.integer v)
  | string {w : Text} : w.head? ≠ some 34 → (∀ h : w ≠ [], isspace (w.getLast h) = false) →
      Says .octetString w (.string (some w))
  | quoted {w : Text} : (∀ c ∈ w, c ≠ 34 ∧ c ≠ 92) → w.length < MAX_BUFFER →
      Says .octetString (34 :: w ++ [34]) (.string (some w))

/-- A variable has been set to a value, and no other variable. -/
structure Sets (s s' : State) (v : Variable) (x : Value) : Prop where
  value : s'.read v = x
  others : ∀ w, w ≠ v → s'.read w = s.read w

namespace Call

/-- A call as it is promised: no token twice for a type, and lines for what is registered. -/
def Proper (s : State) (regs : List Registration) : Call → Prop
  | registerConfig c => isParamsOk c.storeId c.registryId ∧ c.token ≠ [] ∧
      ∀ type, s.typeOf c.storeName = some type → 58 ∉ type ∧
        ∀ r ∈ regs, r.type = type → ¬ equalsIgnoreCase r.config.token c.token
  | line type token time value => time ≠ .premib ∧
      ∃ r ∈ regs, r.Means type token ∧ ∃ x, Says r.config.asnType value x
  | clear => True

/-- Nothing is registered or cleared behind a clearing of registrations, the application's type is known where it is
asked for, and the first registration with the token as it stands on the line is for the variable that is meant. -/
def Reaches (s : State) (regs : List Registration) : Call → Prop
  | registerConfig c => s.configs.isSome ∧ (s.typeOf c.storeName).isSome
  | line type token _ _ => ∀ r ∈ regs, r.Means type token →
      (regs.find? (fun r => token = r.config.token)).map (·.config.toVariable) = some r.config.toVariable
  | clear => s.configs.isSome ∧ ∀ r ∈ regs, (s.typeOf r.config.storeName).isSome

/-- What is due to a call: a line sets the variable that is registered for it. -/
def Right (s s' : State) (regs : List Registration) : Call → Prop
  | line type token _ value => ∀ r ∈ regs, r.Means type token → ∀ x, Says r.config.asnType value x →
      Sets s s' r.config.toVariable x
  | _ => True

end Call

/-- What is so for each call of a run. -/
def Along (P : State → List Registration → Call → Prop) : State → List Registration → List Call → Prop
  | _, _, [] => True
  | s, regs, call :: calls =>
    P s regs call ∧ ∀ s', s.step call = some s' → Along P s' (registered s regs call) calls

/-- Each call of a run returns, and does what is due. -/
def Conforms : State → List Registration → List Call → Prop :=
  Along fun s regs call => ∃ s', s.step call = some s' ∧ call.Right s s' regs

/-! ## one variable is set -/

variable {s s' : State} {v : Variable} {value : Text} {x : Value} {regs : List Registration} {call : Call}

theorem place_self {α : Type} (table : Int → Int → α) (i j : Int) (x : α) : place table i j x i j = x :=
  if_pos ⟨rfl, rfl⟩

theorem place_of_ne {α : Type} (table : Int → Int → α) {i j i' j' : Int} (x : α) (h : ¬ (i' = i ∧ j' = j)) :
    place table i j x i' j' = table i' j' :=
  if_neg h

theorem octet_bit : ∀ i, i < 8 → ∀ j, j < 8 → (1#8 <<< i).getLsbD j = (j == i) ∧
    ((0xff7f#16 >>> (7 - i)).setWidth 8).getLsbD j = (j != i) := by decide

theorem sets_setBoolean {i j : Int} (hok : isParamsOk i j) (n : Int32) :
    Sets s (s.setBoolean i j n) ⟨.boolean, i, j⟩ (.boolean (n > 0)) := by
  have hbit : (j % 8).toNat < 8 := by omega
  unfold State.setBoolean
  rw [if_pos hok]
  constructor
  · show Value.boolean _ = _
    simp only [place_self]
    obtain ⟨hset, hmask⟩ := octet_bit _ hbit _ hbit
    split
    · next hn => rw [BitVec.getLsbD_or, hset]; simp [hn]
    · next hn => rw [BitVec.getLsbD_and, hmask]; simp [hn]
  · rintro ⟨type, i', j'⟩ hne
    cases type with
    | integer => rfl
    | octetString => rfl
    | boolean =>
      have hbit' : (j' % 8).toNat < 8 := by omega
      show Value.boolean _ = Value.boolean _
      congr 1
      by_cases hplace : i' = i ∧ j' / 8 = j / 8
      · -- another bit of the same octet
        have hother : (j' % 8).toNat ≠ (j % 8).toNat := by
          intro heq
          obtain ⟨rfl, hdiv⟩ := hplace
          exact hne (by rw [show j' = j by omega])
        obtain ⟨hset, hmask⟩ := octet_bit _ hbit _ hbit'
        obtain ⟨rfl, hdiv⟩ := hplace
        simp only [hdiv, place_self]
        split
        · rw [BitVec.getLsbD_or, hset]; simp [hother]
        · rw [BitVec.getLsbD_and, hmask]; simp [hother]
      · simp only [place_of_ne _ _ hplace]

theorem sets_setInt {i j : Int} (hok : isParamsOk i j) (n : Int32) :
    Sets s (s.setInt i j n) ⟨.integer, i, j⟩ (.integer n) := by
  unfold State.setInt
  rw [if_pos hok]
  constructor
  · exact congrArg Value.integer (place_self _ _ _ _)
  · rintro ⟨type, i', j'⟩ hne
    cases type with
    | boolean => rfl
    | octetString => rfl
    | integer => exact congrArg Value.integer (place_of_ne _ _ fun ⟨hi, hj⟩ => hne (by subst hi hj; rfl))

theorem sets_setString {i j : Int} (hok : isParamsOk i j) (t : Text) :
    Sets s (s.setString i j t) ⟨.octetString, i, j⟩ (.string (some t)) := by
  unfold State.setString
  rw [if_pos hok]
  constructor
  · exact congrArg Value.string (place_self _ _ _ _)
  · rintro ⟨type, i', j'⟩ hne
    cases type with
    | boolean => rfl
    | integer => rfl
    | octetString => exact congrArg Value.string (place_of_ne _ _ fun ⟨hi, hj⟩ => hne (by subst hi hj; rfl))

/-! ## what a line says is what the handler reads -/

theorem isWord_of_equals {w word : Text} (hne : word ≠ []) (hword : ∀ c ∈ word.map toLower, isspace c = false)
    (h : equalsIgnoreCase w word) : w ≠ [] ∧ ∀ c ∈ w, isspace c = false := by
  refine ⟨?_, fun c hc => ?_⟩
  · rintro rfl
    exact hne (List.map_eq_nil_iff.mp h.symm)
  · by_contra hspace
    have hlower : toLower c = c := by
      unfold toLower
      rw [if_neg]
      rintro ⟨hge, -⟩
      revert hspace
      simp only [isspace, Bool.not_eq_false, Bool.or_eq_true, beq_iff_eq, Bool.and_eq_true, decide_eq_true_eq]
      rintro (rfl | ⟨-, hle⟩)
      · revert hge
        decide
      · exact absurd (UInt8.le_trans hge hle) (by decide)
    refine hspace (hword c ?_)
    rw [← h, ← hlower]
    exact List.mem_map_of_mem hc

/-- A value that is no string is a word. -/
theorem Says.isWord {type : AsnType} (h : Says type value x) (htype : type ≠ .octetString) :
    value ≠ [] ∧ ∀ c ∈ value, isspace c = false := by
  cases h with
  | yes h =>
    rcases h with h | h | rfl
    · exact isWord_of_equals (List.cons_ne_nil _ _) (by simp [toLower, isspace]) h
    · exact isWord_of_equals (List.cons_ne_nil _ _) (by simp [toLower, isspace]) h
    · exact ⟨List.cons_ne_nil _ _, by simp [isspace]⟩
  | no h =>
    rcases h with h | h | rfl
    · exact isWord_of_equals (List.cons_ne_nil _ _) (by simp [toLower, isspace]) h
    · exact isWord_of_equals (List.cons_ne_nil _ _) (by simp [toLower, isspace]) h
    · exact ⟨List.cons_ne_nil _ _, by simp [isspace]⟩
  | integer hspace hconvert =>
    refine ⟨?_, hspace⟩
    rintro rfl
    cases hconvert
  | string => exact absurd rfl htype
  | quoted => exact absurd rfl htype

theorem Says.stomp {type : AsnType} (h : Says type value x) : Usm.stomp value = value := by
  refine stomp_of_last fun hne => ?_
  by_cases htype : type = .octetString
  · subst htype
    cases h with
    | string _ hlast => exact hlast hne
    | quoted =>
      rw [List.getLast_append_of_ne_nil _ (List.cons_ne_nil _ _)]
      rfl
  · exact (h.isWord htype).2 _ (List.getLast_mem hne)

theorem strtok_word (hne : value ≠ []) (h : ∀ c ∈ value, isspace c = false) : strtok value = some value := by
  have hdelimiter : ∀ c ∈ value, (c == 32 || c == 9 || c == 10) = false := by
    intro c hc
    have hspace := h c hc
    by_contra hd
    simp only [Bool.not_eq_false, Bool.or_eq_true, beq_iff_eq] at hd
    rcases hd with (rfl | rfl) | rfl <;> revert hspace <;> decide
  unfold strtok
  simp only []
  rw [List.dropWhile_eq_self_iff.mpr fun hlt => by simp [hdelimiter _ (List.getElem_mem hlt)],
    List.takeWhile_eq_self_iff.mpr fun c hc => by simp [hdelimiter c hc], if_neg hne]

theorem atoi_of_convert {negative : Bool} {n : Nat} {rest : Text} {i : Int32}
    (h : convert 10 value = some (negative, n, rest)) (hi : i.toInt = if negative then -(n : Int) else n) : atoi value = i := by
  have hlower := i.le_toInt
  have hupper := i.toInt_lt
  unfold atoi strtol
  rw [h]
  cases negative with
  | true =>
    simp only [if_true] at hi ⊢
    rw [max_eq_left (by omega), ← hi, Int32.ofInt_toInt]
  | false =>
    simp only [Bool.false_eq_true, if_false] at hi ⊢
    rw [min_eq_left (by omega), ← hi, Int32.ofInt_toInt]

theorem copyNword_quoted (h : ∀ c ∈ value, c ≠ 34 ∧ c ≠ 92) (hlen : value.length < MAX_BUFFER) :
    (copyNword (34 :: value ++ [34]) MAX_BUFFER).2 = value := by
  have hscan : scanWord (fun c => some c == some 34) (value ++ [34]) = (value, [34]) := by
    refine scanWord_append (fun c hc => ⟨by simp [(h c hc).1], (h c hc).2⟩) ?_
    rintro c ⟨⟩
    rfl
  unfold copyNword
  rw [if_pos (.inl rfl)]
  simp only [List.cons_append, List.head?_cons, List.drop_succ_cons, List.drop_zero, hscan]
  exact List.take_of_length_le (by omega)

/-- The variable is set to what the value says. -/
theorem assign_sets (hok : isParamsOk v.storeId v.registryId) (h : Says v.asnType value x) :
    ∃ s', s.assign v value = some s' ∧ Sets s s' v x := by
  obtain ⟨type, i, j⟩ := v
  have htok (htype : type ≠ .octetString) : strtok value = some value :=
    strtok_word (h.isWord htype).1 (h.isWord htype).2
  cases h with
  | yes h =>
    have hparse : parseBoolean value = some 1 := by
      rcases h with h | h | rfl
      · simp [parseBoolean, htok, h]
      · simp [parseBoolean, htok, h]
      · decide
    exact ⟨s.setBoolean i j 1, by simp [State.assign, hparse], sets_setBoolean hok 1⟩
  | no h =>
    have hparse : parseBoolean value = some 0 := by
      have hother (h : equalsIgnoreCase value NO ∨ equalsIgnoreCase value FALSE) :
          ¬ (equalsIgnoreCase value YES ∨ equalsIgnoreCase value TRUE) := by
        unfold equalsIgnoreCase at h ⊢
        rcases h with h | h <;> rw [h] <;> decide
      rcases h with h | h | rfl
      · simp [parseBoolean, htok, hother (.inl h), h]
      · simp [parseBoolean, htok, hother (.inr h), h]
      · decide
    exact ⟨s.setBoolean i j 0, by simp [State.assign, hparse], sets_setBoolean hok 0⟩
  | integer _ hconvert hv =>
    refine ⟨_, ?_, sets_setInt hok _⟩
    simp [State.assign, htok, endptr, hconvert, atoi_of_convert hconvert hv]
  | string hhead => exact ⟨_, by simp [State.assign, hhead], sets_setString hok _⟩
  | quoted hw hlen =>
    refine ⟨_, ?_, sets_setString hok _⟩
    unfold State.assign
    show some (s.setString i j (if some (34 : UInt8) = some 34 then _ else _)) = _
    rw [if_pos rfl, copyNword_quoted hw hlen]

/-! ## runs -/

theorem getHandlers_register (type token name : Text) (files : List ConfigFile) :
    getHandlers name (registerConfigHandler type token files) =
      if type = name then registerLine token (getHandlers name files) else getHandlers name files := by
  induction files with
  | nil =>
    unfold registerConfigHandler getHandlers
    split <;> rfl
  | cons file rest ih =>
    unfold registerConfigHandler
    by_cases hfile : file.fileHeader = type
    · subst hfile
      rw [if_pos rfl]
      unfold getHandlers
      split <;> rfl
    · rw [if_neg hfile]
      unfold getHandlers
      by_cases hname : file.fileHeader = name
      · rw [if_pos hname, if_pos hname, if_neg fun h => hfile (hname.trans h.symm)]
      · rw [if_neg hname, if_neg hname, ih]

theorem registerLine_new {token : Text} {lines : List ConfigLine} (h : ∀ l ∈ lines, l.configToken ≠ token) :
    registerLine token lines = lines ++ [⟨token, .normal⟩] := by
  induction lines with
  | nil => rfl
  | cons l rest ih =>
    rw [registerLine, if_neg (h l List.mem_cons_self), ih fun l hl => h l (List.mem_cons_of_mem _ hl)]
    rfl

/-- The registries are left as they are. -/
theorem assign_frame (h : s.assign v value = some s') : s'.configs = s.configs ∧ s'.configFiles = s.configFiles := by
  unfold State.assign at h
  split at h
  · obtain ⟨n, -, rfl⟩ := Option.map_eq_some_iff.mp h
    split
    · unfold State.setBoolean
      split <;> exact ⟨rfl, rfl⟩
    · exact ⟨rfl, rfl⟩
  · obtain ⟨w, -, rfl⟩ := Option.map_eq_some_iff.mp h
    split
    · exact ⟨rfl, rfl⟩
    · unfold State.setInt
      split <;> exact ⟨rfl, rfl⟩
  · obtain rfl := Option.some.inj h
    unfold State.setString
    split <;> exact ⟨rfl, rfl⟩

/-- Both registries hold the registrations, one after the other. -/
structure Held (s : State) (regs : List Registration) : Prop where
  configs : s.configs = some (regs.map (·.config))
  handlers : ∀ type, getHandlers type s.configFiles =
    (regs.filter (·.type = type)).map fun r => ⟨r.config.token, .normal⟩
  ok : ∀ r ∈ regs, isParamsOk r.config.storeId r.config.registryId

/-- Nothing is registered any more once registrations have been cleared. -/
def Inv (s : State) (regs : List Registration) : Prop := s.configs = none ∧ regs = [] ∨ Held s regs

theorem Held.register (h : Held s regs) {c : Config} (hp : Call.Proper s regs (.registerConfig c)) {type : Text}
    (htype : s.typeOf c.storeName = some type) :
    ∃ s', s.registerConfig c = some s' ∧ Held s' (regs ++ [⟨type, c⟩]) := by
  obtain ⟨hok, -, hnew⟩ := hp
  obtain ⟨-, hnew⟩ := hnew type htype
  refine ⟨_, by unfold State.registerConfig; rw [if_pos hok, h.configs, htype]; rfl, ?_, ?_, ?_⟩
  · show some _ = some _
    rw [List.map_append]
    rfl
  · intro name
    show getHandlers name (registerConfigHandler type c.token s.configFiles) = _
    rw [getHandlers_register, h.handlers, List.filter_append, List.map_append]
    by_cases hname : type = name
    · subst hname
      rw [if_pos rfl, registerLine_new]
      · simp
      · intro l hl
        obtain ⟨r, hr, rfl⟩ := List.mem_map.mp hl
        obtain ⟨hr, htype⟩ := List.mem_filter.mp hr
        intro heq
        exact hnew r hr (of_decide_eq_true htype) (congrArg (List.map toLower) heq)
    · rw [if_neg hname]
      simp [hname]
  · intro r hr
    rcases List.mem_append.mp hr with hr | hr
    · exact h.ok r hr
    · obtain rfl := List.mem_singleton.mp hr
      exact hok

theorem Held.line (h : Held s regs) {type token : Text} {time : When}
    (hp : Call.Proper s regs (.line type token time value)) (hr : Call.Reaches s regs (.line type token time value)) :
    ∃ s', s.step (.line type token time value) = some s' ∧ Call.Right s s' regs (.line type token time value) ∧
      Held s' regs := by
  obtain ⟨htime, r, hmem, hmeans, x, hsays⟩ := hp
  have hhandlers := h.handlers type
  -- the handler is found without regard to case
  obtain ⟨l, hfind, hl⟩ : ∃ l, findHandler (getHandlers type s.configFiles) token = some l ∧ l.configTime = .normal := by
    have hsome : (findHandler (getHandlers type s.configFiles) token).isSome := by
      rw [findHandler, List.find?_isSome, hhandlers]
      exact ⟨⟨r.config.token, .normal⟩, List.mem_map_of_mem (List.mem_filter.mpr ⟨hmem, decide_eq_true hmeans.1⟩),
        decide_eq_true hmeans.2⟩
    obtain ⟨l, hl⟩ := Option.isSome_iff_exists.mp hsome
    refine ⟨l, hl, ?_⟩
    have := List.mem_of_find?_eq_some hl
    rw [hhandlers] at this
    obtain ⟨r', -, rfl⟩ := List.mem_map.mp this
    rfl
  -- the variable is found with the token as it stands
  obtain ⟨r', hfound, hvar⟩ := Option.map_eq_some_iff.mp (hr r hmem hmeans)
  have hstep : s.step (.line type token time value) = s.assign r.config.toVariable value := by
    show s.runConfigHandler (getHandlers type s.configFiles) token value time = _
    unfold State.runConfigHandler
    rw [hfind]
    simp only [hl]
    rw [if_pos (by cases time <;> simp_all), hsays.stomp]
    have hconfig : (regs.map (·.config)).find? (fun element => token = element.token) = some r'.config := by
      rw [List.find?_map]
      exact congrArg (Option.map (·.config)) hfound
    unfold State.handlerConfig
    rw [h.configs, Option.bind_some, hconfig]
    exact congrArg (s.assign · value) hvar
  obtain ⟨s', hs', -⟩ := assign_sets (h.ok r hmem) hsays
  refine ⟨s', hstep.trans hs', fun r₂ hmem₂ hmeans₂ x₂ hsays₂ => ?_, ?_⟩
  · have hvar₂ : r₂.config.toVariable = r.config.toVariable :=
      Option.some.inj ((hr r₂ hmem₂ hmeans₂).symm.trans (hr r hmem hmeans))
    obtain ⟨s₂, hs₂, hsets⟩ := assign_sets (h.ok r₂ hmem₂) hsays₂
    rw [hvar₂, hs'] at hs₂
    rwa [Option.some.inj hs₂]
  · obtain ⟨hconfigs, hfiles⟩ := assign_frame hs'
    exact ⟨hconfigs ▸ h.configs, hfiles ▸ h.handlers, h.ok⟩

theorem foldlM_freeConfig {configs : List Config} (h : ∀ c ∈ configs, (s.typeOf c.storeName).isSome) :
    ∃ s', configs.foldlM State.freeConfig s = some s' := by
  induction configs generalizing s with
  | nil => exact ⟨s, rfl⟩
  | cons c configs ih =>
    obtain ⟨type, htype⟩ := Option.isSome_iff_exists.mp (h c List.mem_cons_self)
    obtain ⟨s', hs'⟩ := ih (s := { s with configFiles := unregisterConfigHandler type c.token s.configFiles })
      fun c hc => h c (List.mem_cons_of_mem _ hc)
    refine ⟨s', ?_⟩
    rw [List.foldlM_cons, State.freeConfig, htype]
    exact hs'

theorem Held.clear (h : Held s regs) (hr : Call.Reaches s regs .clear) : ∃ s', s.clear = some s' ∧ Inv s' [] := by
  have hfree : ∀ c ∈ regs.map (·.config), (s.typeOf c.storeName).isSome := by
    intro c hc
    obtain ⟨r, hmem, rfl⟩ := List.mem_map.mp hc
    exact hr.2 r hmem
  obtain ⟨s', hs'⟩ := foldlM_freeConfig hfree
  refine ⟨_, by unfold State.clear; rw [h.configs, Option.bind_some, hs']; rfl, ?_⟩
  cases regs with
  | nil =>
    obtain rfl := Option.some.inj hs'
    exact .inr ⟨rfl, h.handlers, h.ok⟩
  | cons r regs => exact .inl ⟨rfl, rfl⟩

/-- A call that reaches its variable does what is due. -/
theorem Inv.step (h : Inv s regs) (hp : call.Proper s regs) (hr : call.Reaches s regs) :
    ∃ s', s.step call = some s' ∧ call.Right s s' regs ∧ Inv s' (registered s regs call) := by
  cases call with
  | registerConfig c =>
    obtain ⟨hsome, htype⟩ := hr
    obtain ⟨type, htype⟩ := Option.isSome_iff_exists.mp htype
    rcases h with ⟨hnone, -⟩ | h
    · rw [hnone] at hsome
      cases hsome
    · obtain ⟨s', hs', hheld⟩ := h.register hp htype
      refine ⟨s', hs', trivial, .inr ?_⟩
      rw [registered, htype]
      exact hheld
  | line type token time value =>
    rcases h with ⟨-, rfl⟩ | h
    · obtain ⟨-, r, hmem, -⟩ := hp
      cases hmem
    · obtain ⟨s', hs', hright, hheld⟩ := h.line hp hr
      exact ⟨s', hs', hright, .inr hheld⟩
  | clear =>
    rcases h with ⟨hnone, -⟩ | h
    · have hsome := hr.1
      rw [hnone] at hsome
      cases hsome
    · obtain ⟨s', hs', hinv⟩ := h.clear hr
      exact ⟨s', hs', trivial, hinv⟩

theorem Inv.conforms {calls : List Call} (h : Inv s regs) (hp : Along (fun s regs call => call.Proper s regs) s regs calls)
    (hr : Along (fun s regs call => call.Reaches s regs) s regs calls) : Conforms s regs calls := by
  induction calls generalizing s regs with
  | nil => trivial
  | cons call calls ih =>
    obtain ⟨hp, hproper⟩ := hp
    obtain ⟨hr, hreaches⟩ := hr
    obtain ⟨s', hs', hright, hinv⟩ := h.step hp hr
    refine ⟨⟨s', hs', hright⟩, fun s'' hs'' => ?_⟩
    obtain rfl := Option.some.inj (hs'.symm.trans hs'')
    exact ih hinv (hproper s' hs') (hreaches s' hs')

/-- The state of the program before the first call, with some values in the variables. -/
def State.init (booleans : Int → Int → BitVec 8) (integers : Int → Int → Int32) (strings : Int → Int → Option Text) :
    State := ⟨some [], [], booleans, integers, strings⟩

/-- Lines set their variables, and no others, in each run whose calls reach them. -/
theorem run_conforms (booleans : Int → Int → BitVec 8) (integers : Int → Int → Int32)
    (strings : Int → Int → Option Text) (calls : List Call)
    (hp : Along (fun s regs call => call.Proper s regs) (.init booleans integers strings) [] calls)
    (hr : Along (fun s regs call => call.Reaches s regs) (.init booleans integers strings) [] calls) :
    Conforms (.init booleans integers strings) [] calls :=
  Inv.conforms (.inr ⟨rfl, fun _ => rfl, fun _ hr => by cases hr⟩) hp hr

/-! ## a run -/

/-- A program before its first call. -/
def blank : State := .init (fun _ _ => 0) (fun _ _ => 0) fun _ _ => none

def aPort : Registration := ⟨[97], ⟨⟨.integer, 1, 3⟩, [97], [112]⟩⟩

/-- A variable for the token `p`, and a line that sets it to 7. -/
def aRun (token : Text) : List Call := [.registerConfig aPort.config, .line aPort.type token .normal [55]]

def registeredPort : State := { blank with configs := some [aPort.config], configFiles := [⟨[97], [⟨[112], .normal⟩]⟩] }

theorem register_port {s' : State} (h : blank.step (.registerConfig aPort.config) = some s') : registeredPort = s' :=
  Option.some.inj h

theorem seven : Says .integer [55] (.integer 7) := .integer (List.forall_mem_singleton.mpr rfl) rfl rfl

theorem aRun_proper {token : Text} (h : equalsIgnoreCase token [112]) :
    Along (fun s regs call => call.Proper s regs) blank [] (aRun token) := by
  refine ⟨⟨by decide, List.cons_ne_nil _ _, ?_⟩, fun s' hs' => ?_⟩
  · rintro type htype
    obtain rfl := Option.some.inj htype
    exact ⟨by decide, fun r hr => by cases hr⟩
  · obtain rfl := register_port hs'
    exact ⟨⟨by decide, aPort, List.mem_singleton_self _, ⟨rfl, h⟩, _, seven⟩, fun _ _ => trivial⟩

theorem run_conforms_port : Conforms blank [] (aRun [112]) := by
  refine run_conforms _ _ _ _ (aRun_proper rfl) ⟨⟨rfl, rfl⟩, fun s' hs' => ?_⟩
  obtain rfl := register_port hs'
  refine ⟨fun r hr _ => ?_, fun _ _ => trivial⟩
  obtain rfl := List.mem_singleton.mp hr
  rfl

/-- The same line with the token in capitals sets nothing. -/
theorem not_run_conforms : ¬ ∀ calls, Along (fun s regs call => call.Proper s regs) blank [] calls →
    Conforms blank [] calls := by
  intro h
  obtain ⟨-, hline⟩ := h (aRun [80]) (aRun_proper rfl)
  obtain ⟨⟨s', hs', hright⟩, -⟩ := hline registeredPort rfl
  obtain rfl : registeredPort = s' := Option.some.inj hs'
  have hvalue := (hright aPort (List.mem_singleton_self _) ⟨rfl, rfl⟩ _ seven).value
  cases hvalue

end Priot.DefaultStore
