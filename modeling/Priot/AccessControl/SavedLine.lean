/-
# A saved line is read back

The line of an entry is read with its status, storage type, index and context match, and its views. To load it is to
write these to the entry that the lookup finds for the index, or to a new one.
-/
import Mathlib.Tactic.FinCases
import Priot.ReadConfig.Spec
import Priot.AccessControl.AccessDecision
import Priot.AccessControl.VacmSave

namespace Priot.AccessControl

open Lib ReadConfig List

variable {e f : StoredEntry} {table : List StoredEntry} {rest : Text} {next : Option Text}

/-! ## loading, without the text -/

/-- The message that the lookup is made for. -/
def StoredEntry.query (e : StoredEntry) : Query :=
  ⟨e.groupName.text, e.contextPrefix.text, e.securityModel.toInt, e.securityLevel.toInt⟩

/-- The entry of a line, and the list that it is in. -/
def place (e : StoredEntry) (table : List StoredEntry) : Nat × List StoredEntry :=
  match getStoredEntry e.query table with
  | some (_, i) => (i, table)
  | none =>
    let vp := newStoredEntry e.groupName e.contextPrefix e.securityModel e.securityLevel
    let i := table.findIdx fun lp => stopsAt vp.entry lp.entry
    (i, table.insertIdx i vp)

/-- What a line of `e` writes behind the names. -/
def StoredEntry.onto (e f : StoredEntry) : StoredEntry :=
  { f with
    status := e.status
    storageType := e.storageType
    securityModel := e.securityModel
    securityLevel := e.securityLevel
    contextMatch := e.contextMatch }

/-- Some views of `e`. -/
def StoredEntry.viewsOnto (e : StoredEntry) (part : List (Fin VACM_MAX_VIEWS)) (f : StoredEntry) : StoredEntry :=
  { f with views := fun i => if i ∈ part then e.views i else f.views i }

/-- A line of `e` for some of its views. -/
def loadPart (e : StoredEntry) (table : List StoredEntry) (part : List (Fin VACM_MAX_VIEWS)) : List StoredEntry :=
  (place e table).2.modify (place e table).1 fun f => e.viewsOnto part (e.onto f)

/-- The views of each line. -/
def parts (e : StoredEntry) : List (List (Fin VACM_MAX_VIEWS)) :=
  (if e.views VACM_VIEW_READ ≠ [] ∨ e.views VACM_VIEW_WRITE ≠ [] ∨ e.views VACM_VIEW_NOTIFY ≠ [] then
    [[VACM_VIEW_READ, VACM_VIEW_WRITE, VACM_VIEW_NOTIFY]] else []) ++
  (List.finRange VACM_MAX_VIEWS).filterMap fun i =>
    if VACM_VIEW_NOTIFY < i ∧ e.views i ≠ [] then some [i] else none

/-- An entry whose names are C strings, in use, and with a view. -/
structure Storable (e : StoredEntry) : Prop where
  nonvolatile : e.storageType = tcSTORAGE_TYPE_NONVOLATILE
  group : 0 ∉ e.groupName.text
  context : 0 ∉ e.contextPrefix.text
  views : ∀ i, (e.views i).length ≤ VACM_MAX_STRING ∧ 0 ∉ e.views i
  view : ∃ i, e.views i ≠ []

/-! ## names and numbers -/

theorem saveName_eq (name : Text) : saveName name = 48 :: 120 :: (name ++ [0]).flatMap hex2 := by
  unfold saveName saveOctetString
  have hplain : ¬ (name ++ [0]).all ReadConfig.isPlain = true := by
    intro h
    exact absurd (all_eq_true.mp h 0 (mem_append_right _ mem_cons_self)) (by decide)
  simp only
  rw [if_neg fun h => hplain h.2]

theorem saveName_starts (name rest : Text) : Starts (saveName name ++ rest) := by
  rw [saveName_eq]
  exact ⟨48, 120 :: (name ++ [0]).flatMap hex2 ++ rest, rfl, by decide, by decide⟩

theorem cstr_terminated {name : Text} (h : 0 ∉ name) : cstr (name ++ [0]) = name := by
  unfold cstr
  rw [takeWhile_append_of_pos]
  swap
  · intro c hc
    refine decide_eq_true ?_
    rintro rfl
    exact h hc
  show name ++ [] = name
  rw [append_nil]

theorem readArray_saveName {name : Text} (hfits : name.length ≤ VACM_MAX_STRING) (hzero : 0 ∉ name)
    (h : ReadConfig.Follows rest next) : readArray (some (saveName name ++ rest)) = (next, .written name) := by
  have hlen : (name ++ [0]).length < VACM_VACMSTRINGLEN := by
    rw [length_append, VACM_VACMSTRINGLEN]
    rw [VACM_MAX_STRING] at hfits
    exact Nat.lt_of_le_of_lt (Nat.add_le_add_right hfits 1) (by decide)
  have hread := @ReadConfig.readOctetString_hex_into rest next (name ++ [0]) (some VACM_VACMSTRINGLEN)
    (by rw [Option.any_some, decide_eq_false_iff_not]; omega) h
  have hhex : hexLength ((name ++ [0]).flatMap hex2 ++ rest) = 2 * (name ++ [0]).length :=
    ReadConfig.hexLength_hexes (name ++ [0]) h
  unfold readArray
  rw [saveName_eq]
  simp only [hread]
  simp only [cons_append, drop_succ_cons, drop_zero, hhex]
  rw [if_neg (by omega), cstr_terminated hzero]

theorem atoi_number (v : Int32) (body : Text) : atoi (signedDecimal v.toInt ++ 32 :: body) = v := by
  refine Lib.atoi_signedDecimal v ?_
  intro c hc
  cases hc
  decide

theorem skipToken_number (v : Int) {body : Text} (h : Starts body) :
    skipToken (signedDecimal v ++ 32 :: body) = some body :=
  ReadConfig.skipToken_signedDecimal v (.inr ⟨body, rfl, h, rfl⟩)

theorem skipToken_number_blank (v : Int) {body : Text} (h : Starts body) :
    skipToken (signedDecimal v ++ 32 :: 32 :: body) = some body := by
  have hdrop : ∀ w : Text, (∀ c ∈ w, Lib.isspace c = false) →
      (w ++ 32 :: 32 :: body).dropWhile (fun c => !Lib.isspace c) = 32 :: 32 :: body := by
    intro w hw
    induction w with
    | nil => rfl
    | cons c w ih =>
      rw [cons_append, dropWhile_cons_of_pos (by rw [hw c (by simp)]; rfl)]
      exact ih fun c hc => hw c (by simp [hc])
  unfold skipToken
  rw [ReadConfig.skipWhite_of_starts (ReadConfig.signedDecimal_starts v _), Option.bind_some]
  unfold ReadConfig.skipNotWhite
  rw [hdrop _ (ReadConfig.signedDecimal_word v)]
  show ReadConfig.skipWhite (32 :: 32 :: body) = some body
  unfold ReadConfig.skipWhite
  rw [dropWhile_cons_of_pos (by decide), dropWhile_cons_of_pos (by decide),
    ReadConfig.dropWhile_of_starts h, ReadConfig.orNull_of_starts h]

theorem Int32.toInt_ofNat_fin (i : Fin VACM_MAX_VIEWS) : (Int32.ofNat i.val).toInt = i.val := by
  revert i
  decide

/-! ## one line -/

theorem saveIndex_append (e : StoredEntry) (rest : Text) : saveIndex e ++ rest =
    signedDecimal e.status.toInt ++ 32 :: (signedDecimal e.storageType.toInt ++
      32 :: (signedDecimal e.securityModel.toInt ++ 32 :: (signedDecimal e.securityLevel.toInt ++
      32 :: (signedDecimal e.contextMatch.toInt ++ 32 :: (saveName e.groupName.text ++
      32 :: (saveName e.contextPrefix.text ++ rest)))))) := by
  unfold saveIndex
  simp only [append_assoc, cons_append]

theorem createStoredEntry_eq (e : StoredEntry) (table : List StoredEntry) :
    createStoredEntry e.groupName.text e.contextPrefix.text e.securityModel e.securityLevel table =
      some (table.findIdx fun lp =>
          stopsAt (newStoredEntry e.groupName e.contextPrefix e.securityModel e.securityLevel).entry lp.entry,
        table.insertIdx (table.findIdx fun lp =>
          stopsAt (newStoredEntry e.groupName e.contextPrefix e.securityModel e.securityLevel).entry lp.entry)
          (newStoredEntry e.groupName e.contextPrefix e.securityModel e.securityLevel)) := by
  unfold createStoredEntry
  rw [dif_pos e.groupName.fits, dif_pos e.contextPrefix.fits]

theorem parseConfigAccessCommon_saveIndex (he : Storable e) (h : ReadConfig.Follows rest next) :
    parseConfigAccessCommon (saveIndex e ++ rest) table =
      some (some ((place e table).1, next, (place e table).2.modify (place e table).1 e.onto)) := by
  have hcontext : ReadConfig.Follows (32 :: (saveName e.contextPrefix.text ++ rest))
      (some (saveName e.contextPrefix.text ++ rest)) := .inr ⟨_, rfl, saveName_starts _ _, rfl⟩
  have hgroupRead := readArray_saveName e.groupName.fits he.group hcontext
  have hcontextRead := readArray_saveName e.contextPrefix.fits he.context h
  unfold parseConfigAccessCommon
  rw [saveIndex_append, skipToken_number _ (ReadConfig.signedDecimal_starts _ _)]
  simp only [Option.bind_eq_bind, Option.bind_some]
  rw [skipToken_number _ (ReadConfig.signedDecimal_starts _ _)]
  simp only [Option.bind_some]
  rw [skipToken_number _ (ReadConfig.signedDecimal_starts _ _)]
  simp only [Option.bind_some]
  rw [skipToken_number _ (ReadConfig.signedDecimal_starts _ _)]
  simp only [Option.bind_some]
  rw [skipToken_number _ (saveName_starts _ _), hgroupRead]
  simp only [hcontextRead, atoi_number]
  unfold place
  show some (Option.map _ (match getStoredEntry e.query table with
    | some (_, i) => some (i, table)
    | none => _)) = _
  rw [createStoredEntry_eq]
  cases getStoredEntry e.query table with
  | none => rfl
  | some found => rfl

theorem modify_onto_viewsOnto (e : StoredEntry) (table : List StoredEntry) (i : Nat) (part : List (Fin VACM_MAX_VIEWS)) :
    (table.modify i e.onto).modify i (e.viewsOnto part) = table.modify i fun f => e.viewsOnto part (e.onto f) :=
  modify_modify_eq e.onto (e.viewsOnto part) i table

theorem loadLine_authAccess (he : Storable e) (i : Fin VACM_MAX_VIEWS) :
    loadLine table (.authAccess (saveAuthAccess e i)) = some (loadPart e table [i]) := by
  have hview := readArray_saveName (he.views i).1 (he.views i).2 (.inl ⟨rfl, rfl⟩)
  have hi := Int32.toInt_ofNat_fin i
  have hbody : saveAuthAccess e i = saveIndex e ++
      32 :: (signedDecimal (Int32.ofNat i.val).toInt ++ 32 :: 32 :: (saveName (e.views i) ++ [])) := by
    unfold saveAuthAccess
    rw [hi]
    simp only [append_assoc, cons_append, append_nil]
  have hfollows : ReadConfig.Follows
      (32 :: (signedDecimal (Int32.ofNat i.val).toInt ++ 32 :: 32 :: (saveName (e.views i) ++ [])))
      (some (signedDecimal (Int32.ofNat i.val).toInt ++ 32 :: 32 :: (saveName (e.views i) ++ []))) :=
    .inr ⟨_, rfl, ReadConfig.signedDecimal_starts _ _, rfl⟩
  show parseConfigAuthAccess (saveAuthAccess e i) table = _
  unfold parseConfigAuthAccess
  rw [hbody, parseConfigAccessCommon_saveIndex he hfollows]
  have hatoi : (atoi (signedDecimal i.val ++ 32 :: 32 :: (saveName (e.views i) ++ []))).toInt = i.val := by
    rw [← hi, atoi_number]
  simp only [Option.bind_eq_bind, Option.bind_some, hi, hatoi, Int.toNat_natCast]
  rw [dif_pos ⟨by omega, i.isLt⟩, skipToken_number_blank _ (saveName_starts _ _), hview]
  simp only [storeView]
  unfold loadPart
  rw [← modify_onto_viewsOnto]
  congr 2
  funext f
  unfold StoredEntry.viewsOnto
  congr 1
  funext j
  by_cases hj : j = i
  · rw [hj, if_pos mem_cons_self]
    exact Function.update_self i _ _
  · rw [if_neg (by simpa using hj)]
    exact Function.update_of_ne hj _ _

theorem loadLine_access (he : Storable e) : loadLine table (.access (saveAccess e)) =
    some (loadPart e table [VACM_VIEW_READ, VACM_VIEW_WRITE, VACM_VIEW_NOTIFY]) := by
  have hnotify := readArray_saveName (he.views VACM_VIEW_NOTIFY).1 (he.views VACM_VIEW_NOTIFY).2 (.inl ⟨rfl, rfl⟩)
  have hwrite := readArray_saveName (he.views VACM_VIEW_WRITE).1 (he.views VACM_VIEW_WRITE).2
    (.inr ⟨_, rfl, saveName_starts (e.views VACM_VIEW_NOTIFY) [], rfl⟩)
  have hread := readArray_saveName (he.views VACM_VIEW_READ).1 (he.views VACM_VIEW_READ).2
    (.inr ⟨_, rfl, saveName_starts (e.views VACM_VIEW_WRITE)
      (32 :: (saveName (e.views VACM_VIEW_NOTIFY) ++ [])), rfl⟩)
  have hbody : saveAccess e = saveIndex e ++ 32 :: (saveName (e.views VACM_VIEW_READ) ++
      32 :: (saveName (e.views VACM_VIEW_WRITE) ++ 32 :: (saveName (e.views VACM_VIEW_NOTIFY) ++ []))) := by
    unfold saveAccess
    simp only [append_assoc, cons_append, append_nil]
  have hfollows : ReadConfig.Follows
      (32 :: (saveName (e.views VACM_VIEW_READ) ++
        32 :: (saveName (e.views VACM_VIEW_WRITE) ++ 32 :: (saveName (e.views VACM_VIEW_NOTIFY) ++ []))))
      (some (saveName (e.views VACM_VIEW_READ) ++
        32 :: (saveName (e.views VACM_VIEW_WRITE) ++ 32 :: (saveName (e.views VACM_VIEW_NOTIFY) ++ [])))) :=
    .inr ⟨_, rfl, saveName_starts _ _, rfl⟩
  show parseConfigAccess (saveAccess e) table = _
  unfold parseConfigAccess
  rw [hbody, parseConfigAccessCommon_saveIndex he hfollows]
  simp only [Option.bind_eq_bind, Option.bind_some, hread, hwrite, hnotify, storeView]
  unfold loadPart
  rw [← modify_onto_viewsOnto, modify_modify_eq, modify_modify_eq]
  congr 2
  funext f
  unfold StoredEntry.viewsOnto
  simp only [Function.comp_apply]
  congr 1
  funext j
  fin_cases j <;> rfl

/-! ## all lines -/

/-- The lines of one entry. -/
def loadEntry (table : List StoredEntry) (e : StoredEntry) : List StoredEntry := (parts e).foldl (loadPart e) table

theorem foldlM_saveEntry (he : Storable e) (table : List StoredEntry) :
    (saveEntry e).foldlM loadLine table = some (loadEntry table e) := by
  have hother : ∀ (ids : List (Fin VACM_MAX_VIEWS)) (table : List StoredEntry),
      (ids.filterMap fun i => if VACM_VIEW_NOTIFY < i ∧ e.views i ≠ [] then
        some (SavedLine.authAccess (saveAuthAccess e i)) else none).foldlM loadLine table =
      some ((ids.filterMap fun i => if VACM_VIEW_NOTIFY < i ∧ e.views i ≠ [] then some [i] else none).foldl
        (loadPart e) table) := by
    intro ids
    induction ids with
    | nil => exact fun _ => rfl
    | cons i ids ih =>
      intro table
      by_cases hi : VACM_VIEW_NOTIFY < i ∧ e.views i ≠ []
      · simp only [filterMap_cons, if_pos hi, foldlM_cons, loadLine_authAccess he, foldl_cons]
        exact ih _
      · simp only [filterMap_cons, if_neg hi]
        exact ih table
  unfold saveEntry loadEntry parts
  rw [foldlM_append, foldl_append]
  by_cases hstandard : e.views VACM_VIEW_READ ≠ [] ∨ e.views VACM_VIEW_WRITE ≠ [] ∨ e.views VACM_VIEW_NOTIFY ≠ []
  · rw [if_pos hstandard, if_pos hstandard, foldlM_cons, loadLine_access he]
    exact hother _ _
  · rw [if_neg hstandard, if_neg hstandard]
    exact hother _ table

theorem restore_save (h : ∀ e ∈ table, Storable e) : restore (save table) = some (table.foldl loadEntry []) := by
  have hall : table.filter (fun aptr => aptr.storageType = tcSTORAGE_TYPE_NONVOLATILE) = table :=
    filter_eq_self.mpr fun e he => decide_eq_true (h e he).nonvolatile
  have hrun : ∀ (es start : List StoredEntry), (∀ e ∈ es, Storable e) →
      (es.flatMap saveEntry).foldlM loadLine start = some (es.foldl loadEntry start) := by
    intro es
    induction es with
    | nil => exact fun _ _ => rfl
    | cons e es ih =>
      intro start hes
      rw [flatMap_cons, foldlM_append, foldlM_saveEntry (hes e mem_cons_self), foldl_cons]
      exact ih _ fun e' he' => hes e' (mem_cons_of_mem e he')
  unfold restore save
  rw [hall]
  exact hrun table [] h

end Priot.AccessControl
