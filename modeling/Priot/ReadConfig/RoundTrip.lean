/-
# Storing and reading a line

A line is read back, except for strings in quotes that do not fit the reader's buffer, OIDs that the loaded MIBs
refuse, and OIDs without subidentifiers, which are appended to whatever the buffer held before.
-/
import Priot.ReadConfig.Spec

namespace Priot.ReadConfig

open Lib List

/-! ## values -/

/-- The values that can be stored: an OID has no subidentifiers, or two to 128 with a first arc of at most 2. -/
def Data.Valid : Data → Prop
  | .objectId o => o = [] ∨ (2 ≤ o.length ∧ o.length ≤ TYPES_MAX_OID_LEN ∧ ∀ arc ∈ o.head?, arc ≤ 2)
  | _ => True

/-- A value that can be stored. -/
abbrev Item := { data : Data // data.Valid }

/-- What a value counts as: a string that is `NULL` has no octets. -/
def Data.value : Data → Data
  | .octetStr s => .octetStr (some (s.getD []))
  | .bitStr s => .bitStr (some (s.getD []))
  | data => data

/-- What is written for a value where the buffer holds a zero. -/
def Data.written : Data → Text
  | .objectId [] => [78, 85, 76, 76]
  | data => data.text

/-- A string of letters, digits and spaces, which is written in quotes, fits the reader's buffer. -/
def FitsBuffer (s : Option (List UInt8)) : Prop :=
  (s.getD []).all isPlain = true → (s.getD []).length < MAX_BUFFER

/-- The reader takes the value as it is written. -/
def Fine (mib : Mib.MibState) : Data → Prop
  | .octetStr s | .bitStr s => FitsBuffer s
  | .objectId o => o ≠ [] → Mib.Accepts mib o
  | _ => True

theorem readString_eq_iff (s : Option (List UInt8)) : readString (s.getD []) = s.getD [] ↔ FitsBuffer s := by
  have hbuf : MAX_BUFFER = 4096 := rfl
  unfold readString FitsBuffer
  generalize s.getD [] = str
  split
  · next hplain =>
    refine ⟨fun h _ => ?_, fun h => take_of_length_le ?_⟩
    · have := congrArg List.length h
      rw [length_take] at this
      omega
    · have := h hplain.2
      omega
  · next hplain =>
    refine ⟨fun _ hall => ?_, fun _ => rfl⟩
    have h0 : str.length = 0 := by
      by_contra hne
      exact hplain ⟨hne, hall⟩
    omega

/-! ## one value -/

theorem saveOctetString_starts (s : Option (List UInt8)) (rest : Text) : Starts (saveOctetString s ++ rest) := by
  unfold saveOctetString
  cases s with
  | none => exact ⟨34, 34 :: rest, rfl, by decide, by decide⟩
  | some str =>
    simp only
    split
    · exact ⟨34, str ++ [34] ++ rest, by simp, by decide, by decide⟩
    · exact ⟨48, 120 :: str.flatMap hex2 ++ rest, rfl, by decide, by decide⟩

theorem dotted_starts {o : ObjId} (hne : o ≠ []) (rest : Text) : Starts (Mib.dotted o ++ rest) := by
  cases o with
  | nil => exact absurd rfl hne
  | cons subid o => exact ⟨46, _, rfl, by decide, by decide⟩

theorem written_objectId {o : ObjId} (hne : o ≠ []) : (Data.objectId o).written = Mib.dotted o := by
  cases o with
  | nil => exact absurd rfl hne
  | cons subid o => rfl

theorem written_starts (data : Data) (rest : Text) : Starts (data.written ++ rest) := by
  cases data with
  | integer v => exact signedDecimal_starts _ _
  | timeticks v => exact decimal_starts _ _
  | unsigned v => exact decimal_starts _ _
  | ipaddress a b c d =>
    show Starts (inetNtoa a b c d ++ rest)
    unfold inetNtoa
    simp only [append_assoc]
    exact decimal_starts _ _
  | octetStr s => exact saveOctetString_starts s rest
  | bitStr s => exact saveOctetString_starts s rest
  | objectId o =>
    cases o with
    | nil => exact ⟨78, 85 :: 76 :: 76 :: rest, rfl, by decide, by decide⟩
    | cons subid o => exact dotted_starts (by simp) rest

theorem length_dotted_le (o : ObjId) : (Mib.dotted o).length ≤ 11 * o.length := by
  induction o with
  | nil => exact Nat.le_refl 0
  | cons subid o ih =>
    have hlen := length_decimal_le subid.toNat_lt
    show (46 :: decimal subid.toNat ++ Mib.dotted o).length ≤ _
    rw [length_append, length_cons, length_cons]
    omega

theorem readObjid_dotted (mib : Mib.MibState) {o : ObjId} (hne : o ≠ []) (hlen : o.length ≤ TYPES_MAX_OID_LEN)
    {rest : Text} {next : Option Text} (h : Follows rest next) :
    (Mib.Accepts mib o → readObjid mib (Mib.dotted o ++ rest) none = (next, some o)) ∧
    (¬ Mib.Accepts mib o → readObjid mib (Mib.dotted o ++ rest) none = (none, some [])) := by
  have hword : ∀ c ∈ Mib.dotted o, isspace c = false := fun c hc => (Mib.dotted_facts hc).1
  have hhead : (Mib.dotted o ++ rest).head? = some 46 := by
    cases o with
    | nil => exact absurd rfl hne
    | cons subid o => rfl
  have hnull : (Mib.dotted o ++ rest).take 4 ≠ [78, 85, 76, 76] := by
    intro heq
    have := congrArg head? heq
    rw [head?_take, hhead] at this
    simp at this
  have hcopy : (copyNword (Mib.dotted o ++ rest) SPRINT_MAX_LEN).2 = Mib.dotted o := by
    have hscan : scanWord isspace (Mib.dotted o ++ rest) = (Mib.dotted o, rest) :=
      scanWord_append (fun c hc => ⟨hword c hc, (Mib.dotted_facts hc).2.2.2.1⟩) h.stopsWord
    have hmax : TYPES_MAX_OID_LEN = 128 := rfl
    have hbuf : SPRINT_MAX_LEN = 2560 := rfl
    have := length_dotted_le o
    unfold copyNword
    rw [if_neg (by rw [hhead]; simp), hscan]
    exact take_of_length_le (by omega)
  obtain ⟨hread, hfail⟩ := Mib.readObjid_dotted mib hne
  unfold readObjid
  rw [if_neg hnull, hcopy, Option.getD_none]
  constructor
  · intro haccept
    rw [hread haccept]
    simp only [skipToken_word hword (dotted_starts hne rest) h]
  · intro hnot
    rw [hfail hnot]

theorem inetNtoa_broadcast {a b c d : UInt8} (h : (a, b, c, d) = (255, 255, 255, 255)) (rest : Text) :
    (inetNtoa a b c d ++ rest).take 15 = BROADCAST := by
  simp only [Prod.mk.injEq] at h
  obtain ⟨rfl, rfl, rfl, rfl⟩ := h
  exact take_left' (by decide)

theorem null_word : ∀ c ∈ ([78, 85, 76, 76] : Text), isspace c = false := by
  intro c hc
  simp only [mem_cons, not_mem_nil, or_false] at hc
  rcases hc with rfl | rfl | rfl | rfl <;> rfl

/-- A value is read from what has been written for it, and the pointer behind it is returned, exactly if the reader takes
it as it is. -/
theorem readData_written_iff (mib : Mib.MibState) (item : Item) {rest : Text} {next : Option Text}
    (h : Follows rest next) :
    readData mib item.1.type (item.1.written ++ rest) none = (next, some item.1.value) ↔ Fine mib item.1 := by
  obtain ⟨data, hvalid⟩ := item
  cases data with
  | integer v =>
    have hskip := skipToken_signedDecimal v.toInt h
    refine iff_of_true ?_ trivial
    show (skipToken (signedDecimal v.toInt ++ rest), some (Data.integer (atoi (signedDecimal v.toInt ++ rest)))) = _
    rw [hskip, atoi_signedDecimal v h.stops]
    rfl
  | timeticks v | unsigned v =>
    have hskip := skipToken_word (w := decimal v.toNat) (fun c hc => (decimal_facts hc).1)
      (decimal_starts v.toNat rest) h
    refine iff_of_true ?_ trivial
    simp only [readData, Data.type, Data.written, Data.text, Data.value]
    rw [hskip, strtoul_decimal v.toNat_lt h.stops, UInt32.ofNat_toNat]
  | ipaddress a b c d =>
    have hskip := skipToken_word (inetNtoa_word a b c d) (written_starts (.ipaddress a b c d) rest) h
    refine iff_of_true ?_ trivial
    show readData mib .ipaddress (inetNtoa a b c d ++ rest) none = (next, some (.ipaddress a b c d))
    unfold readData
    simp only [inetAddr_inetNtoa a b c d h]
    rw [if_neg (fun hall => hall.2 (inetNtoa_broadcast hall.1 rest))]
    exact Prod.ext hskip rfl
  | octetStr s | bitStr s =>
    simp only [readData, Data.type, Data.written, Data.text, Data.value, Fine]
    rw [readOctetString_save s h, ← readString_eq_iff]
    simp
  | objectId o =>
    cases o with
    | nil =>
      refine iff_of_true ?_ (fun hne => absurd rfl hne)
      have hskip : skipToken ([78, 85, 76, 76] ++ rest) = next :=
        skipToken_word null_word ⟨78, 85 :: 76 :: 76 :: rest, rfl, by decide, by decide⟩ h
      show (skipToken ([78, 85, 76, 76] ++ rest), some (Data.objectId [])) = _
      rw [hskip]
      rfl
    | cons subid o =>
      have hne : subid :: o ≠ [] := by simp
      have hlen : (subid :: o).length ≤ TYPES_MAX_OID_LEN := by
        rcases hvalid with hnil | ⟨-, hlen, -⟩
        · exact absurd hnil hne
        · exact hlen
      obtain ⟨hread, hfail⟩ := readObjid_dotted mib hne hlen h
      rw [written_objectId hne]
      simp only [readData, Data.type, Data.value, Fine]
      constructor
      · intro heq _
        by_contra hnot
        rw [hfail hnot] at heq
        simp at heq
      · intro haccept
        rw [hread (haccept hne)]
        rfl

/-! ## the buffer -/

/-- The octets a list of values takes on a line. -/
def lineLength (vs : List Item) : Nat := (vs.map fun v => v.1.written.length + 1).sum

/-- The buffer has room for the line and the zero behind it. -/
def LargeEnough (vs : List Item) (buf : List UInt8) : Prop := lineLength vs + 1 ≤ buf.length

/-- Where an OID without subidentifiers is written, the buffer holds a zero. -/
def Clean : List Item → List UInt8 → Prop
  | [], _ => True
  | v :: vs, buf => (v.1 = .objectId [] → (buf.drop 1).head? = some 0) ∧ Clean vs (buf.drop (v.1.written.length + 1))

/-- The values on a line, each with what has been added to the line for it. -/
abbrev Pieces := List (Item × Text)

/-- The line from a value on, without the white space in front of it. -/
def start (ps : Pieces) : Text := (ps.flatMap Prod.snd).dropWhile isspace

/-- The pointer that is returned in front of the values that are left. -/
def nextStart (ps : Pieces) : Option Text := if ps.isEmpty then none else some (start ps)

/-- Each value is read where it starts, and the pointer to the next is returned, or `NULL` behind the last. -/
def ReadsPieces (mib : Mib.MibState) : Pieces → Prop
  | [] => True
  | p :: ps =>
    readData mib p.1.1.type (start (p :: ps)) none = (nextStart ps, some p.1.1.value) ∧ ReadsPieces mib ps

/-- A line is stored into a buffer and read back. -/
def ReadsBack (mib : Mib.MibState) (vs : List Item) (buf : List UInt8) : Prop :=
  ∃ pieces, storeAll (vs.map Subtype.val) buf = some pieces ∧ ReadsPieces mib (vs.zip pieces)

theorem storeData_nil (buf : List UInt8) : storeData (.objectId []) buf = strcatBehind 32 [78, 85, 76, 76] buf := rfl

theorem storeData_written (v : Item) {buf : List UInt8} (hlen : v.1.written.length + 2 ≤ buf.length)
    (hclean : v.1 = .objectId [] → (buf.drop 1).head? = some 0) :
    storeData v.1 buf = some (32 :: v.1.written, 0 :: buf.drop (v.1.written.length + 2)) := by
  have hwrite : ∀ t : Text, t.length + 2 ≤ buf.length →
      write (32 :: t) buf = some (32 :: t, 0 :: buf.drop (t.length + 2)) := fun t ht => if_pos ht
  obtain ⟨data, hvalid⟩ := v
  cases data with
  | objectId o =>
    cases o with
    | nil =>
      have hzero := hclean rfl
      have hold : (buf.drop 1).takeWhile (· != 0) = [] := by
        cases hb : buf.drop 1 with
        | nil => rfl
        | cons b bs =>
          rw [hb] at hzero
          cases hzero
          rfl
      show storeData (.objectId []) buf = _
      rw [storeData_nil]
      unfold strcatBehind
      simp only [hold]
      have hlen' : 6 ≤ buf.length := hlen
      rw [if_pos (by rw [length_drop, length_nil]; omega)]
      exact hwrite [78, 85, 76, 76] hlen
    | cons subid o => exact hwrite _ hlen
  | _ => exact hwrite _ hlen

theorem drop_succ (l : List UInt8) (k : Nat) : l.drop (k + 1) = (l.drop 1).drop k := by
  rw [drop_drop, Nat.add_comm]

theorem clean_congr {vs : List Item} {buf buf' : List UInt8} (h : buf.drop 1 = buf'.drop 1) :
    Clean vs buf ↔ Clean vs buf' := by
  cases vs with
  | nil => exact Iff.rfl
  | cons v vs =>
    unfold Clean
    rw [h, drop_succ buf v.1.written.length, drop_succ buf' v.1.written.length, h]

theorem storeAll_written {vs : List Item} {buf : List UInt8} (hlarge : LargeEnough vs buf) (hclean : Clean vs buf) :
    storeAll (vs.map Subtype.val) buf = some (vs.map fun v => 32 :: v.1.written) := by
  induction vs generalizing buf with
  | nil => rfl
  | cons v vs ih =>
    unfold LargeEnough lineLength at hlarge
    rw [map_cons, sum_cons] at hlarge
    obtain ⟨hzero, hrest⟩ := hclean
    have hdrop : (0 :: buf.drop (v.1.written.length + 2)).drop 1 = (buf.drop (v.1.written.length + 1)).drop 1 := by
      rw [drop_drop]
      rfl
    have hlarge' : LargeEnough vs (0 :: buf.drop (v.1.written.length + 2)) := by
      unfold LargeEnough lineLength
      rw [length_cons, length_drop]
      omega
    have hih := ih hlarge' ((clean_congr hdrop).mpr hrest)
    rw [map_cons, storeAll, storeData_written v (by omega) hzero]
    simp only [hih, Option.map_some, map_cons]

/-- The pieces of a clean line. -/
def pieces (vs : List Item) : Pieces := vs.map fun v => (v, 32 :: v.1.written)

theorem zip_pieces (vs : List Item) : vs.zip (vs.map fun v => 32 :: v.1.written) = pieces vs := by
  unfold pieces
  induction vs with
  | nil => rfl
  | cons v vs ih => rw [map_cons, zip_cons_cons, ih, map_cons]

theorem start_pieces (v : Item) (vs : List Item) :
    start (pieces (v :: vs)) = v.1.written ++ (pieces vs).flatMap Prod.snd := by
  show (32 :: (v.1.written ++ (pieces vs).flatMap Prod.snd)).dropWhile isspace = _
  rw [dropWhile_cons_of_pos (by decide), dropWhile_of_starts (written_starts v.1 _)]

theorem follows_pieces (vs : List Item) : Follows ((pieces vs).flatMap Prod.snd) (nextStart (pieces vs)) := by
  cases vs with
  | nil => exact .inl ⟨rfl, rfl⟩
  | cons v vs =>
    refine .inr ⟨v.1.written ++ (pieces vs).flatMap Prod.snd, rfl, written_starts v.1 _, ?_⟩
    rw [← start_pieces]
    rfl

/-- A clean line is read back exactly if the reader takes each of its values as it is. -/
theorem readsPieces_iff (mib : Mib.MibState) (vs : List Item) :
    ReadsPieces mib (pieces vs) ↔ ∀ v ∈ vs, Fine mib v.1 := by
  induction vs with
  | nil => simp [pieces, ReadsPieces]
  | cons v vs ih =>
    show readData mib v.1.type (start (pieces (v :: vs))) none = (nextStart (pieces vs), some v.1.value) ∧
      ReadsPieces mib (pieces vs) ↔ _
    rw [start_pieces, readData_written_iff mib v (follows_pieces vs), ih]
    simp

theorem readsBack_of_clean (mib : Mib.MibState) {vs : List Item} {buf : List UInt8} (hlarge : LargeEnough vs buf)
    (hclean : Clean vs buf) : ReadsBack mib vs buf ↔ ∀ v ∈ vs, Fine mib v.1 := by
  unfold ReadsBack
  rw [storeAll_written hlarge hclean, ← readsPieces_iff]
  constructor
  · rintro ⟨ps, hps, h⟩
    rw [Option.some.injEq] at hps
    subst hps
    rwa [zip_pieces] at h
  · intro h
    refine ⟨_, rfl, ?_⟩
    rwa [zip_pieces]

theorem clean_of_nonempty {vs : List Item} (h : ∀ v ∈ vs, v.1 ≠ .objectId []) (buf : List UInt8) : Clean vs buf := by
  induction vs generalizing buf with
  | nil => trivial
  | cons v vs ih => exact ⟨fun hv => absurd hv (h v (by simp)), ih (fun w hw => h w (by simp [hw])) _⟩

/-! ## OIDs without subidentifiers -/

/-- What a buffer may hold where an OID without subidentifiers is written. -/
def OLD : List UInt8 := [78, 85, 76, 76, 32, 120]

theorem not_readsPieces_old (mib : Mib.MibState) (v : Item) (hv : v.1 = .objectId []) (ps : Pieces) :
    ¬ ReadsPieces mib ((v, 32 :: OLD ++ [78, 85, 76, 76]) :: ps) := by
  rintro ⟨hread, -⟩
  rw [hv] at hread
  have hstart : start ((v, 32 :: OLD ++ [78, 85, 76, 76]) :: ps) =
      78 :: 85 :: 76 :: 76 :: 32 :: 120 :: 78 :: 85 :: 76 :: 76 :: ps.flatMap Prod.snd := rfl
  have hnext : (readData mib .objectId (start ((v, 32 :: OLD ++ [78, 85, 76, 76]) :: ps)) none).1 =
      some (120 :: 78 :: 85 :: 76 :: 76 :: ps.flatMap Prod.snd) := by
    rw [hstart]
    rfl
  have heq := hnext.symm.trans (congrArg Prod.fst hread)
  unfold nextStart at heq
  split at heq
  · cases heq
  · have hlen := congrArg List.length (Option.some.inj heq)
    have hle : (start ps).length ≤ (ps.flatMap Prod.snd).length := (dropWhile_sublist _).length_le
    simp only [length_cons] at hlen
    omega

theorem exists_not_readsBack (mib : Mib.MibState) {vs : List Item} (h : ∃ v ∈ vs, v.1 = .objectId []) :
    ∃ bs : List UInt8, LargeEnough vs (0 :: bs) ∧ ¬ ReadsBack mib vs (0 :: bs) := by
  induction vs with
  | nil =>
    obtain ⟨v, hv, -⟩ := h
    cases hv
  | cons v vs ih =>
    by_cases hv : v.1 = .objectId []
    · refine ⟨OLD ++ 0 :: replicate (lineLength (v :: vs) + 4) 0, ?_, ?_⟩
      · unfold LargeEnough
        rw [length_cons, length_append, length_cons, length_replicate]
        omega
      · rintro ⟨ps, hps, hread⟩
        have hstore : storeData v.1 (0 :: (OLD ++ 0 :: replicate (lineLength (v :: vs) + 4) 0)) =
            some (32 :: OLD ++ [78, 85, 76, 76], 0 :: replicate (lineLength (v :: vs)) 0) := by
          rw [hv, storeData_nil]
          have hold : (OLD ++ 0 :: replicate (lineLength (v :: vs) + 4) 0).takeWhile (· != 0) = OLD := rfl
          unfold strcatBehind
          simp only [drop_succ_cons, drop_zero, hold]
          rw [if_pos (by simp)]
          unfold write
          rw [if_pos (by simp [OLD])]
          rfl
        rw [map_cons, storeAll, hstore] at hps
        simp only [Option.map_eq_some_iff] at hps
        obtain ⟨ps', -, rfl⟩ := hps
        rw [zip_cons_cons] at hread
        exact not_readsPieces_old mib v hv _ hread
    · obtain ⟨bs, hlarge, hnot⟩ := ih (by
        obtain ⟨w, hw, hw0⟩ := h
        rcases mem_cons.mp hw with rfl | hw
        · exact absurd hw0 hv
        · exact ⟨w, hw, hw0⟩)
      refine ⟨replicate (v.1.written.length + 1) 0 ++ bs, ?_, ?_⟩
      · unfold LargeEnough lineLength at hlarge ⊢
        rw [map_cons, sum_cons, length_cons, length_append, length_replicate]
        rw [length_cons] at hlarge
        omega
      · rintro ⟨ps, hps, hread⟩
        refine hnot ?_
        have hroom : v.1.written.length + 2 ≤ (0 :: (replicate (v.1.written.length + 1) (0 : UInt8) ++ bs)).length := by
          rw [length_cons, length_append, length_replicate]
          omega
        have hstore := storeData_written v hroom fun h0 => absurd h0 hv
        have hdrop : (0 :: (replicate (v.1.written.length + 1) (0 : UInt8) ++ bs)).drop
            (v.1.written.length + 2) = bs := by
          rw [drop_succ_cons]
          exact drop_left' length_replicate
        rw [hdrop] at hstore
        rw [map_cons, storeAll, hstore] at hps
        simp only [Option.map_eq_some_iff] at hps
        obtain ⟨ps', hps', rfl⟩ := hps
        rw [zip_cons_cons] at hread
        exact ⟨ps', hps', hread.2⟩

/-- On a clean buffer a line is read back exactly if no quoted string exceeds the reader's buffer and no OID is
refused by the loaded MIBs; on every buffer, if there is no OID without subidentifiers besides. -/
theorem readsBack_iff (mib : Mib.MibState) (vs : List Item) :
    (∀ buf, LargeEnough vs buf → Clean vs buf → (ReadsBack mib vs buf ↔ ∀ v ∈ vs, Fine mib v.1)) ∧
    ((∀ buf, LargeEnough vs buf → ReadsBack mib vs buf) ↔ ∀ v ∈ vs, Fine mib v.1 ∧ v.1 ≠ .objectId []) := by
  refine ⟨fun buf hlarge hclean => readsBack_of_clean mib hlarge hclean, fun h v hv => ?_, fun h buf hlarge => ?_⟩
  · have hne : ∀ w ∈ vs, w.1 ≠ .objectId [] := by
      intro w hw hw0
      obtain ⟨bs, hlarge, hnot⟩ := exists_not_readsBack mib ⟨w, hw, hw0⟩
      exact hnot (h _ hlarge)
    have hlarge : LargeEnough vs (replicate (lineLength vs + 1) 0) := by
      unfold LargeEnough
      rw [length_replicate]
    have hall := (readsBack_of_clean mib hlarge (clean_of_nonempty hne _)).mp (h _ hlarge)
    exact ⟨hall v hv, hne v hv⟩
  · exact (readsBack_of_clean mib hlarge (clean_of_nonempty (fun v hv => (h v hv).2) buf)).mpr
      fun v hv => (h v hv).1

/-- A tree with one node below its root, `iso`, that has no children. -/
def isoTree : Mib.MibState where
  root := some (.mk [] 0 [.mk [105, 115, 111] 1 [] []] [])
  checkRange := true
  ucdPrefix := none
  getNode := fun _ => none
  quoted := fun _ => none

/-- An OID without subidentifiers, in front of a number. -/
def emptyThenFive : List Item := [⟨.objectId [], .inl rfl⟩, ⟨.integer 5, trivial⟩]

/-- On a buffer that holds `xxxx` where the OID is written, the number behind the OID is not found. -/
theorem not_readsBack : LargeEnough emptyThenFive (List.replicate 5 120 ++ List.replicate 20 0) ∧
    ¬ ReadsBack isoTree emptyThenFive (List.replicate 5 120 ++ List.replicate 20 0) := by
  refine ⟨show lineLength emptyThenFive + 1 ≤ _ by decide, ?_⟩
  rintro ⟨ps, hps, hread⟩
  have hstore : storeAll (emptyThenFive.map Subtype.val) (replicate 5 120 ++ replicate 20 0) =
      some [[32, 120, 120, 120, 120, 78, 85, 76, 76], [32, 53]] := by decide
  rw [hstore, Option.some.injEq] at hps
  subst hps
  have hfirst : (readData isoTree .objectId [120, 120, 120, 120, 78, 85, 76, 76, 32, 53] none).1 = none := by decide
  have heq := hfirst.symm.trans (congrArg Prod.fst hread.1)
  cases heq

end Priot.ReadConfig
