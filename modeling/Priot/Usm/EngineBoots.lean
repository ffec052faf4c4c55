/-
# How often the local engine has started

`V3.c` stores how often the engine has started and its engine ID. Of the configuration file only the two lines that
`V3_store` writes are read here, and of the engines only the local one is set.
-/
import Priot.Usm.LocalClock
import Priot.ReadConfig.RoundTrip
import Mathlib.Data.List.DropRight
import Mathlib.Data.Prod.Lex

namespace Priot.Usm

open Lib ReadConfig List

/-! ## `V3_store` -/

/-- `UTILITIES_MAX_BUFFER_SMALL`, the length of `line` and of `c_engineID`. -/
def LINE_SIZE : Nat := 512

def ENGINE_BOOTS : Text := [101, 110, 103, 105, 110, 101, 66, 111, 111, 116, 115]

def OLD_ENGINE_ID : Text := [111, 108, 100, 69, 110, 103, 105, 110, 101, 73, 68]

/-- A `u_long` that is taken as a `long`. -/
def asLong (n : Nat) : Int := if n < 2 ^ 63 then n else n - 2 ^ 64

/-- `V3_store`: the lines that are stored. There is no result when something is written outside `line`. -/
def V3.store (v : V3) : Option (List Text) :=
  let boots := ENGINE_BOOTS ++ 32 :: signedDecimal (asLong v.engineBoots)
  let engineID := v.getEngineID LINE_SIZE
  if engineID = [] then some [boots]
  else
    let line := OLD_ENGINE_ID ++ 32 :: saveOctetString (some engineID)
    if line.length < LINE_SIZE then some [boots, line] else none

/-! ## the start of the program -/

/-- The variables of `V3.c`, with `_v3_oldEngineID`. -/
structure Starting where
  v3 : V3
  oldEngineID : Option (List UInt8)

/-- `V3_engineBootsConf`: an `int` that becomes a `u_long`. -/
def engineBootsConf (s : Starting) (cptr : Text) : Starting :=
  { s with v3 := { s.v3 with engineBoots := ((atoi cptr + 1).toInt % 2 ^ 64).toNat } }

def oldengineIDConf (s : Starting) (cptr : Text) : Starting :=
  match (readOctetString cptr (s.oldEngineID.map List.length)).2 with
  | none => s
  | some engineID => { s with oldEngineID := some engineID }

def READCONFIG_STRINGMAX : Nat := 1024

/-- Trailing white space is stomped on, but not the first character. -/
def stomp (cptr : Text) : Text := cptr.take 1 ++ (cptr.drop 1).rdropWhile isspace

/-- `ReadConfig_readConfig` for one line: its token and what is handed over to the handler. -/
def splitLine (line : Text) : Option (Text × Text) :=
  (skipWhite line).bind fun cptr =>
    (copyNword cptr READCONFIG_STRINGMAX).1.map fun rest => ((copyNword cptr READCONFIG_STRINGMAX).2, stomp rest)

/-- `ReadConfig_runConfigHandler` with the handlers of `V3_initV3`. -/
def runConfigHandler (s : Starting) (line : Text) : Starting :=
  match splitLine line with
  | none => s
  | some (token, cptr) =>
    if token = ENGINE_BOOTS then engineBootsConf s cptr
    else if token = OLD_ENGINE_ID then oldengineIDConf s cptr
    else s

/-- `V3_initPostConfig`. The engine ID is compared with the old one, and the clock is read to be set. -/
def initPostConfig (s : Starting) (clock : Nat) : V3 :=
  if s.v3.engineID = [] then s.v3
  else
    let v3 := if s.oldEngineID = some s.v3.engineID then s.v3 else { s.v3 with engineBoots := 1 }
    v3.read clock

/-- The engine once the lines that are stored have been read. -/
def start (engineID : List UInt8) (lines : List Text) (clock : Nat) : V3 :=
  initPostConfig (lines.foldl runConfigHandler ⟨⟨engineID, 1, 0⟩, none⟩) clock

/-! ## lives -/

/-- A run of the program: when `V3_initPostConfig` is called, and when `V3_localEngineTime` is. -/
structure Life where
  init : Nat
  calls : List Nat

/-- What the engine shows after each of the calls. -/
def V3.observe (v : V3) : List Nat → List (Nat ×ₗ Nat)
  | [] => []
  | clock :: rest => toLex (v.read clock).shown :: (v.read clock).observe rest

/-- What the engine shows in a life. -/
def Life.observed (l : Life) (engineID : List UInt8) (lines : List Text) : List (Nat ×ₗ Nat) :=
  toLex (start engineID lines l.init).shown :: (start engineID lines l.init).observe l.calls

/-- The engine at the end of a life. -/
def Life.last (l : Life) (engineID : List UInt8) (lines : List Text) : V3 :=
  (start engineID lines l.init).reads l.calls

/-- What the engine shows in one life after the other. -/
def history (engineID : List UInt8) : List Text → List Life → Option (List (List (Nat ×ₗ Nat)))
  | _, [] => some []
  | lines, l :: rest => (l.last engineID lines).store.bind fun stored =>
    (history engineID stored rest).map (l.observed engineID lines :: ·)

/-! ## what is stored is restored -/

variable {engineID : List UInt8} {lines stored : List Text} {v : V3} {l : Life} {lives : List Life} {clock b : Nat}

theorem stomp_of_last {t : Text} (h : ∀ hne : t ≠ [], isspace (t.getLast hne) = false) : stomp t = t := by
  unfold stomp
  cases t with
  | nil => rfl
  | cons c t =>
    rw [drop_succ_cons, drop_zero, rdropWhile_eq_self_iff.mpr]
    · rfl
    · intro hne
      have hlast := h (cons_ne_nil c t)
      rw [getLast_cons hne] at hlast
      rw [hlast]
      exact Bool.false_ne_true

theorem splitLine_token {token body : Text} (htoken : ∀ c ∈ token, isspace c = false ∧ c ≠ 92 ∧ c ≠ 34 ∧ c ≠ 39 ∧ c ≠ 35)
    (hne : token ≠ []) (hlen : token.length < READCONFIG_STRINGMAX) (hbody : Starts body)
    (hlast : ∀ h : body ≠ [], isspace (body.getLast h) = false) : splitLine (token ++ 32 :: body) = some (token, body) := by
  have hfollows : Follows (32 :: body) (some body) := .inr ⟨body, rfl, hbody, rfl⟩
  obtain ⟨c, t, rfl⟩ := exists_cons_of_ne_nil hne
  obtain ⟨hspace, -, hquote, hquote', hcomment⟩ := htoken c mem_cons_self
  have hstarts : Starts (c :: t ++ 32 :: body) := ⟨c, t ++ 32 :: body, rfl, hspace, hcomment⟩
  have hscan : ReadConfig.scanWord isspace (c :: t ++ 32 :: body) = (c :: t, 32 :: body) :=
    ReadConfig.scanWord_append (fun c hc => ⟨(htoken c hc).1, (htoken c hc).2.1⟩) hfollows.stopsWord
  have hcopy : copyNword (c :: t ++ 32 :: body) READCONFIG_STRINGMAX = (some body, c :: t) := by
    unfold copyNword
    rw [if_neg, hscan]
    · simp only []
      rw [hfollows.skipWhite, take_of_length_le (by omega)]
    · rintro (h | h)
      · exact hquote (Option.some.inj h)
      · exact hquote' (Option.some.inj h)
  unfold splitLine
  rw [ReadConfig.skipWhite_of_starts hstarts, Option.bind_some, hcopy, Option.map_some, stomp_of_last hlast]

theorem getLast_signedDecimal (n : Int) (h : signedDecimal n ≠ []) : isspace ((signedDecimal n).getLast h) = false :=
  ReadConfig.signedDecimal_word n _ (getLast_mem h)

theorem getLast_saveOctetString (s : List UInt8) (h : saveOctetString (some s) ≠ []) :
    isspace ((saveOctetString (some s)).getLast h) = false := by
  have hmem : (saveOctetString (some s)).getLast h = 34 ∨
      (saveOctetString (some s)).getLast h ∈ 48 :: 120 :: s.flatMap Lib.hex2 := by
    unfold saveOctetString at h ⊢
    simp only []
    split
    · left
      exact getLast_concat
    · right
      exact getLast_mem _
  rcases hmem with heq | hmem
  · rw [heq]
    decide
  · rcases mem_cons.mp hmem with heq | hmem
    · rw [heq]
      decide
    · rcases mem_cons.mp hmem with heq | hmem
      · rw [heq]
        decide
      · obtain ⟨b, -, hb⟩ := mem_flatMap.mp hmem
        exact (ReadConfig.hex2_facts hb).1

theorem splitLine_engineBoots (n : Int) :
    splitLine (ENGINE_BOOTS ++ 32 :: signedDecimal n) = some (ENGINE_BOOTS, signedDecimal n) := by
  have hstarts : Starts (signedDecimal n) := by
    have h := ReadConfig.signedDecimal_starts n []
    rwa [append_nil] at h
  exact splitLine_token (by decide +kernel) (by decide) (by decide) hstarts (getLast_signedDecimal n)

theorem splitLine_oldEngineID (s : List UInt8) :
    splitLine (OLD_ENGINE_ID ++ 32 :: saveOctetString (some s)) = some (OLD_ENGINE_ID, saveOctetString (some s)) := by
  have hstarts : Starts (saveOctetString (some s)) := by
    have h := ReadConfig.saveOctetString_starts (some s) []
    rwa [append_nil] at h
  exact splitLine_token (by decide +kernel) (by decide) (by decide) hstarts (getLast_saveOctetString s)

/-- The line with the engine ID is not too long for `line`. -/
def LineFits (engineID : List UInt8) : Prop :=
  engineID = [] ∨ (OLD_ENGINE_ID ++ 32 :: saveOctetString (some engineID)).length < LINE_SIZE

theorem V3.store_eq (hfits : LineFits v.engineID) : v.store = some
    ((ENGINE_BOOTS ++ 32 :: signedDecimal (asLong v.engineBoots)) ::
      if v.engineID = [] then [] else [OLD_ENGINE_ID ++ 32 :: saveOctetString (some v.engineID)]) := by
  have hlen : v.engineID.length ≤ LINE_SIZE := by
    rcases hfits with hnil | hfits
    · rw [hnil]
      exact Nat.zero_le _
    · have hle := ReadConfig.length_le_saveOctetString (some v.engineID)
      rw [Option.getD_some] at hle
      rw [length_append, length_cons] at hfits
      omega
  have hid : v.getEngineID LINE_SIZE = v.engineID := if_neg (Nat.not_lt.mpr hlen)
  unfold V3.store
  simp only [hid]
  by_cases hnil : v.engineID = []
  · rw [if_pos hnil, if_pos hnil]
  · rw [if_neg hnil, if_neg hnil, if_pos (hfits.resolve_left hnil)]

theorem readOctetString_saved (s : List UInt8) (hfits : (saveOctetString (some s)).length < LINE_SIZE) :
    (readOctetString (saveOctetString (some s)) none).2 = some s := by
  have hread := @ReadConfig.readOctetString_save [] none (some s) (.inl ⟨rfl, rfl⟩)
  rw [append_nil] at hread
  rw [hread]
  have hle := ReadConfig.length_le_saveOctetString (some s)
  rw [Option.getD_some] at hle
  unfold LINE_SIZE at hfits
  show some (ReadConfig.readString s) = some s
  unfold ReadConfig.readString ReadConfig.MAX_BUFFER
  split
  · rw [take_of_length_le (by omega)]
  · rfl

/-- The number of starts that is read: one more, as an `int`. -/
def counted (boots : Nat) : Nat := ((Int32.ofNat boots + 1).toInt % 2 ^ 64).toNat

theorem atoi_stored (hb : b ≤ ENGINEBOOT_MAX) : atoi (signedDecimal (asLong b)) = Int32.ofNat b := by
  unfold ENGINEBOOT_MAX at hb
  have hmod : asLong b = (Int32.ofNat b).toInt := by
    rw [asLong, if_pos (by omega), Int32.toInt_ofNat_of_lt (by omega)]
  have hread := Lib.atoi_signedDecimal (Int32.ofNat b) Mib.stops_nil
  rw [append_nil] at hread
  rw [hmod, hread]

theorem runConfigHandler_of_boots {s : Starting} {line cptr : Text} (h : splitLine line = some (ENGINE_BOOTS, cptr)) :
    runConfigHandler s line = engineBootsConf s cptr := by
  unfold runConfigHandler
  rw [h]
  exact if_pos rfl

theorem runConfigHandler_of_engineID {s : Starting} {line cptr : Text}
    (h : splitLine line = some (OLD_ENGINE_ID, cptr)) : runConfigHandler s line = oldengineIDConf s cptr := by
  unfold runConfigHandler
  rw [h]
  simp only []
  rw [if_neg (by decide)]
  exact if_pos trivial

theorem runConfigHandler_engineBoots (s : Starting) (hb : b ≤ ENGINEBOOT_MAX) :
    runConfigHandler s (ENGINE_BOOTS ++ 32 :: signedDecimal (asLong b)) =
      ⟨⟨s.v3.engineID, counted b, s.v3.lastEngineTime⟩, s.oldEngineID⟩ := by
  rw [runConfigHandler_of_boots (splitLine_engineBoots _), engineBootsConf, atoi_stored hb, counted]

theorem runConfigHandler_oldEngineID (v3 : V3) (s : List UInt8)
    (hfits : (OLD_ENGINE_ID ++ 32 :: saveOctetString (some s)).length < LINE_SIZE) :
    runConfigHandler ⟨v3, none⟩ (OLD_ENGINE_ID ++ 32 :: saveOctetString (some s)) = ⟨v3, some s⟩ := by
  have hread : (readOctetString (saveOctetString (some s)) none).2 = some s := by
    refine readOctetString_saved s ?_
    rw [length_append, length_cons] at hfits
    omega
  rw [runConfigHandler_of_engineID (splitLine_oldEngineID s)]
  unfold oldengineIDConf
  simp only [Option.map_none, hread]

theorem foldl_runConfigHandler_store (hid : v.engineID = engineID) (hfits : LineFits engineID)
    (hboots : v.engineBoots ≤ ENGINEBOOT_MAX) (h : v.store = some lines) :
    lines.foldl runConfigHandler ⟨⟨engineID, 1, 0⟩, none⟩ =
      ⟨⟨engineID, counted v.engineBoots, 0⟩, if engineID = [] then none else some engineID⟩ := by
  subst hid
  rw [V3.store_eq hfits] at h
  cases h
  rw [foldl_cons, runConfigHandler_engineBoots _ hboots]
  by_cases hnil : v.engineID = []
  · rw [if_pos hnil, if_pos hnil, foldl_nil]
  · rw [if_neg hnil, if_neg hnil, foldl_cons, foldl_nil,
      runConfigHandler_oldEngineID _ _ (hfits.resolve_left hnil)]

theorem start_store (hid : v.engineID = engineID) (hfits : LineFits engineID) (hboots : v.engineBoots ≤ ENGINEBOOT_MAX)
    (h : v.store = some lines) (clock : Nat) : start engineID lines clock =
      ⟨engineID, counted v.engineBoots, if engineID = [] then 0 else clock % 2 ^ 31⟩ := by
  unfold start
  rw [foldl_runConfigHandler_store hid hfits hboots h]
  unfold initPostConfig
  by_cases hnil : engineID = []
  · subst hnil
    rfl
  · rw [if_neg hnil, if_neg hnil, if_neg hnil, if_pos rfl]
    rfl

theorem start_nil (engineID : List UInt8) (clock : Nat) :
    start engineID [] clock = ⟨engineID, 1, if engineID = [] then 0 else clock % 2 ^ 31⟩ := by
  unfold start initPostConfig
  by_cases hnil : engineID = []
  · rw [foldl_nil, if_pos hnil, if_pos hnil]
  · rw [foldl_nil, if_neg hnil, if_neg hnil, if_neg (by simp)]
    rfl

theorem counted_of_lt (h : b < ENGINEBOOT_MAX) : counted b = b + 1 := by
  unfold ENGINEBOOT_MAX at h
  have hsum : (Int32.ofNat b + 1).toInt = (b : Int) + 1 := by
    have hone : (1 : Int32).toInt = 1 := by decide
    rw [Int32.toInt_add, Int32.toInt_ofNat_of_lt (by omega), hone]
    exact Int.bmod_eq_of_le_mul_two (by omega) (by omega)
  unfold counted
  rw [hsum]
  omega

/-! ## within a life -/

/-- No call counts a start more when there are as many as there may be. -/
def V3.CallsFit (v : V3) : List Nat → Prop
  | [] => True
  | clock :: rest => ¬ (v.engineBoots = ENGINEBOOT_MAX ∧ clock % 2 ^ 31 < v.lastEngineTime) ∧ (v.read clock).CallsFit rest

theorem V3.shown_le_read (v : V3) (clock : Nat) : toLex v.shown ≤ toLex (v.read clock).shown := by
  rw [Prod.Lex.le_iff]
  show v.engineBoots < (v.read clock).engineBoots ∨
    v.engineBoots = (v.read clock).engineBoots ∧ v.lastEngineTime ≤ clock % 2 ^ 31
  rw [V3.engineBoots_read]
  by_cases hwrap : clock % 2 ^ 31 < v.lastEngineTime
  · rw [if_pos hwrap]
    exact .inl (Nat.lt_succ_self _)
  · rw [if_neg hwrap]
    exact .inr ⟨rfl, Nat.not_lt.mp hwrap⟩

theorem V3.engineBoots_le_read (v : V3) (clock : Nat) : v.engineBoots ≤ (v.read clock).engineBoots := by
  rw [V3.engineBoots_read]
  split
  · exact Nat.le_succ _
  · exact Nat.le_refl _

theorem V3.observe_spec (v : V3) (calls : List Nat) :
    (∀ p ∈ v.observe calls, toLex v.shown ≤ p ∧ (ofLex p).1 ≤ (v.reads calls).engineBoots) ∧
      (v.observe calls).Pairwise (· ≤ ·) ∧ v.engineBoots ≤ (v.reads calls).engineBoots ∧
      (v.reads calls).engineID = v.engineID := by
  induction calls generalizing v with
  | nil =>
    refine ⟨fun p hp => absurd hp not_mem_nil, List.Pairwise.nil, Nat.le_refl _, rfl⟩
  | cons clock rest ih =>
    obtain ⟨hbetween, hpairwise, hboots, hid⟩ := ih (v.read clock)
    have hstep := v.shown_le_read clock
    refine ⟨?_, pairwise_cons.mpr ⟨fun p hp => (hbetween p hp).1, hpairwise⟩,
      Nat.le_trans (v.engineBoots_le_read clock) hboots, hid⟩
    intro p hp
    rcases mem_cons.mp hp with rfl | hp
    · exact ⟨hstep, hboots⟩
    · exact ⟨hstep.trans (hbetween p hp).1, (hbetween p hp).2⟩

theorem V3.CallsFit.le {v : V3} {calls : List Nat} (h : v.CallsFit calls) (hv : v.engineBoots ≤ ENGINEBOOT_MAX) :
    (v.reads calls).engineBoots ≤ ENGINEBOOT_MAX := by
  induction calls generalizing v with
  | nil => exact hv
  | cons clock rest ih =>
    obtain ⟨hfits, hrest⟩ := h
    refine ih hrest ?_
    rw [V3.engineBoots_read]
    by_cases hwrap : clock % 2 ^ 31 < v.lastEngineTime
    · rw [if_pos hwrap]
      have hne : v.engineBoots ≠ ENGINEBOOT_MAX := fun heq => hfits ⟨heq, hwrap⟩
      omega
    · rwa [if_neg hwrap]

/-! ## from life to life -/

/-- The clock goes on: it does not go back in a life, it has gone on from one life to the next, and the number of
starts is not larger than it may be. -/
structure GoesOn (h : List (List (Nat ×ₗ Nat))) : Prop where
  within : ∀ o ∈ h, o.Pairwise (· ≤ ·)
  between : h.Pairwise fun o o' => ∀ p ∈ o, ∀ q ∈ o', p < q
  bounded : ∀ o ∈ h, ∀ p ∈ o, (ofLex p).1 ≤ ENGINEBOOT_MAX

/-- No call and no start counts a start more when there are as many as there may be. -/
def Fits (engineID : List UInt8) : List Text → List Life → Prop
  | _, [] => True
  | lines, l :: rest => (start engineID lines l.init).CallsFit l.calls ∧
    (rest ≠ [] → (l.last engineID lines).engineBoots ≠ ENGINEBOOT_MAX) ∧
    ∀ stored, (l.last engineID lines).store = some stored → Fits engineID stored rest

/-- What is stored says that there were `b` starts: nothing when there were none. -/
def Stores (engineID : List UInt8) (b : Nat) (lines : List Text) : Prop :=
  (b = 0 ∧ lines = []) ∨ ∃ v : V3, v.engineID = engineID ∧ v.engineBoots = b ∧ v.store = some lines

theorem Stores.start (h : Stores engineID b lines) (hfits : LineFits engineID) (hb : b < ENGINEBOOT_MAX) (clock : Nat) :
    Usm.start engineID lines clock = ⟨engineID, b + 1, if engineID = [] then 0 else clock % 2 ^ 31⟩ := by
  rcases h with ⟨rfl, rfl⟩ | ⟨v, hid, rfl, hstore⟩
  · exact start_nil engineID clock
  · rw [start_store hid hfits (Nat.le_of_lt hb) hstore, counted_of_lt hb]

theorem Life.spec (l : Life) (h : Stores engineID b lines) (hfits : LineFits engineID) (hb : b < ENGINEBOOT_MAX)
    (hcalls : (start engineID lines l.init).CallsFit l.calls) : (l.observed engineID lines).Pairwise (· ≤ ·) ∧
      (∀ p ∈ l.observed engineID lines, b < (ofLex p).1 ∧ (ofLex p).1 ≤ (l.last engineID lines).engineBoots) ∧
      (l.last engineID lines).engineBoots ≤ ENGINEBOOT_MAX ∧ ∃ stored, (l.last engineID lines).store = some stored ∧
        Stores engineID (l.last engineID lines).engineBoots stored := by
  have hstart := h.start hfits hb l.init
  obtain ⟨hbetween, hpairwise, hboots, hid⟩ := (start engineID lines l.init).observe_spec l.calls
  have hfirst : (start engineID lines l.init).engineBoots = b + 1 := by rw [hstart]
  have hengineID : (l.last engineID lines).engineID = engineID := by
    show ((start engineID lines l.init).reads l.calls).engineID = engineID
    rw [hid, hstart]
  refine ⟨pairwise_cons.mpr ⟨fun p hp => (hbetween p hp).1, hpairwise⟩, ?_, ?_, ?_⟩
  · intro p hp
    rcases mem_cons.mp hp with rfl | hp
    · exact ⟨by rw [ofLex_toLex, V3.shown, hfirst]; exact Nat.lt_succ_self b, hboots⟩
    · obtain ⟨hle, hlast⟩ := hbetween p hp
      refine ⟨?_, hlast⟩
      have hfst : (start engineID lines l.init).engineBoots ≤ (ofLex p).1 := by
        rcases Prod.Lex.le_iff.mp hle with hlt | ⟨heq, -⟩
        · exact Nat.le_of_lt hlt
        · exact Nat.le_of_eq heq
      omega
  · exact hcalls.le (by omega)
  · exact ⟨_, V3.store_eq (by rwa [hengineID]), .inr ⟨_, hengineID, rfl, V3.store_eq (by rwa [hengineID])⟩⟩

theorem history_of_stores (hfits : LineFits engineID) : ∀ (lives : List Life) (b : Nat) (lines : List Text),
    Stores engineID b lines → (lives ≠ [] → b < ENGINEBOOT_MAX) → Fits engineID lines lives →
    ∃ h, history engineID lines lives = some h ∧ h.length = lives.length ∧ GoesOn h ∧
      ∀ o ∈ h, ∀ p ∈ o, b < (ofLex p).1 := by
  intro lives
  induction lives with
  | nil =>
    intro b lines hstores hb hfit
    refine ⟨[], rfl, rfl, ⟨fun o ho => ?_, List.Pairwise.nil, fun o ho => ?_⟩, fun o ho => ?_⟩
    all_goals exact absurd ho not_mem_nil
  | cons l rest ih =>
    intro b lines hstores hb hfit
    obtain ⟨hcalls, hmax, hrest⟩ := hfit
    obtain ⟨hwithin, hshown, hlast, stored, hstore, hstores'⟩ :=
      l.spec hstores hfits (hb (cons_ne_nil l rest)) hcalls
    -- the next life counts from where this one ends
    obtain ⟨h, hhistory, hlength, hgoes, hlater⟩ := ih _ stored hstores'
      (fun hne => Nat.lt_of_le_of_ne hlast (hmax hne)) (hrest stored hstore)
    refine ⟨l.observed engineID lines :: h, ?_, ?_, ⟨?_, ?_, ?_⟩, ?_⟩
    · rw [history, hstore, Option.bind_some, hhistory, Option.map_some]
    · rw [length_cons, length_cons, hlength]
    · exact forall_mem_cons.mpr ⟨hwithin, hgoes.within⟩
    · refine pairwise_cons.mpr ⟨fun o ho p hp q hq => ?_, hgoes.between⟩
      exact Prod.Lex.lt_iff.mpr (.inl (Nat.lt_of_le_of_lt (hshown p hp).2 (hlater o ho q hq)))
    · exact forall_mem_cons.mpr ⟨fun p hp => (hshown p hp).2.trans hlast, hgoes.bounded⟩
    · refine forall_mem_cons.mpr ⟨fun p hp => (hshown p hp).1, fun o ho p hp => ?_⟩
      have hfirst := hshown _ (mem_cons_self (a := toLex (start engineID lines l.init).shown))
      exact Nat.lt_trans (Nat.lt_of_lt_of_le hfirst.1 hfirst.2) (hlater o ho p hp)

/-- The clock of the local engine goes on over all lives, as long as no start is counted beyond the maximum and the
engine ID fits into its line. -/
theorem history_goesOn (engineID : List UInt8) (lives : List Life) (hfits : LineFits engineID)
    (hfit : Fits engineID [] lives) :
    ∃ h, history engineID [] lives = some h ∧ h.length = lives.length ∧ GoesOn h := by
  obtain ⟨h, hhistory, hlength, hgoes, -⟩ := history_of_stores hfits lives 0 [] (.inl ⟨rfl, rfl⟩)
    (fun _ => by decide) hfit
  exact ⟨h, hhistory, hlength, hgoes⟩

def fiveOctets : List UInt8 := [0x80, 0, 0, 0, 1]

theorem lineFits_five : LineFits fiveOctets := .inr (by decide +kernel)

/-- Two lives; in the first one the time starts again. -/
theorem history_goesOn_two :
    ∃ h, history fiveOctets [] [⟨0, [5, 2147483647, 2147483651]⟩, ⟨2, []⟩] = some h ∧ h.length = 2 ∧ GoesOn h :=
  history_goesOn fiveOctets [⟨0, [5, 2147483647, 2147483651]⟩, ⟨2, []⟩] lineFits_five
    ⟨⟨by decide +kernel, by decide +kernel, by decide +kernel, trivial⟩, fun _ => by decide +kernel,
      fun _ _ => ⟨trivial, fun h => absurd rfl h, fun _ _ => trivial⟩⟩

theorem history_idle : ∀ (n b : Nat) (lines : List Text), Stores fiveOctets b lines → b + n = ENGINEBOOT_MAX →
    b ≠ 0 → ∃ h, history fiveOctets lines (List.replicate (n + 1) ⟨0, []⟩) = some h ∧
      [toLex (2 ^ 64 - 2 ^ 31, 0)] ∈ h := by
  intro n
  induction n with
  | zero =>
    intro b lines hstores hb hne
    obtain ⟨v, hid, rfl, hstore⟩ := hstores.resolve_left fun hzero => hne hzero.1
    have hcounted : counted v.engineBoots = 2 ^ 64 - 2 ^ 31 := by
      rw [show v.engineBoots = ENGINEBOOT_MAX from hb]
      decide +kernel
    have hstart : start fiveOctets lines 0 = ⟨fiveOctets, 2 ^ 64 - 2 ^ 31, 0⟩ := by
      rw [start_store hid lineFits_five (Nat.le_of_eq hb) hstore, hcounted, if_neg (by decide), Nat.zero_mod]
    have hlast : (Life.last ⟨0, []⟩ fiveOctets lines).store = (V3.mk fiveOctets (2 ^ 64 - 2 ^ 31) 0).store := by
      rw [Life.last, hstart, V3.reads_nil]
    refine ⟨[Life.observed ⟨0, []⟩ fiveOctets lines], ?_, ?_⟩
    · show history fiveOctets lines [⟨0, []⟩] = _
      rw [history, hlast, V3.store_eq lineFits_five, Option.bind_some]
      rfl
    · rw [Life.observed, hstart]
      exact mem_cons_self
  | succ n ih =>
    intro b lines hstores hb hne
    have hlt : b < ENGINEBOOT_MAX := by omega
    obtain ⟨-, -, -, stored, hstore, hstores'⟩ :=
      Life.spec ⟨0, []⟩ hstores lineFits_five hlt trivial
    have hboots : (Life.last ⟨0, []⟩ fiveOctets lines).engineBoots = b + 1 := by
      rw [Life.last, hstores.start lineFits_five hlt, V3.reads_nil]
    rw [hboots] at hstores'
    obtain ⟨h, hhistory, hmem⟩ := ih (b + 1) stored hstores' (by omega) (Nat.succ_ne_zero b)
    refine ⟨Life.observed ⟨0, []⟩ fiveOctets lines :: h, ?_, mem_cons_of_mem _ hmem⟩
    rw [replicate_succ, history, hstore, Option.bind_some, hhistory, Option.map_some]

/-- After so many starts as may be the number of starts does not stay, and where the engine ID does not fit into its
line, a life shows what the one before it has shown. -/
theorem not_goesOn : (∃ lives h, (∀ l ∈ lives, Steady 0 (l.init :: l.calls)) ∧
      history fiveOctets [] lives = some h ∧ ∃ o ∈ h, ∃ p ∈ o, ENGINEBOOT_MAX < (ofLex p).1) ∧
    history (List.replicate 513 97) [] [⟨0, []⟩, ⟨0, []⟩] = some [[toLex (1, 0)], [toLex (1, 0)]] := by
  refine ⟨?_, by decide +kernel⟩
  obtain ⟨-, -, -, stored, hstore, hstores⟩ :=
    @Life.spec fiveOctets [] 0 ⟨0, []⟩ (.inl ⟨rfl, rfl⟩) lineFits_five (by decide) trivial
  have hboots : (Life.last ⟨0, []⟩ fiveOctets []).engineBoots = 1 := by
    rw [Life.last, start_nil, V3.reads_nil]
  rw [hboots] at hstores
  obtain ⟨h, hhistory, hmem⟩ := history_idle 2147483646 1 stored hstores rfl (by decide)
  refine ⟨⟨0, []⟩ :: replicate (2147483646 + 1) ⟨0, []⟩, Life.observed ⟨0, []⟩ fiveOctets [] :: h, ?_, ?_,
    _, mem_cons_of_mem _ hmem, _, mem_cons_self, by decide⟩
  · intro l hl
    have hidle : l = ⟨0, []⟩ := by
      rcases mem_cons.mp hl with rfl | hl
      · rfl
      · exact eq_of_mem_replicate hl
    rw [hidle]
    exact ⟨Nat.le_refl 0, by decide, trivial⟩
  · rw [history, hstore, Option.bind_some, hhistory, Option.map_some]

end Priot.Usm
