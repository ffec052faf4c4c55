/-
# The row that a SET changes

A SET changes the row of its index and no other exactly if the row that decides about a message with this index, or
about the OIDs below this subtree, is the row itself.
-/
import Mathlib.Data.List.TakeWhile
import Priot.AccessControl.SubtreeVerdict
import Priot.AccessControl.AccessDecision
import Priot.AccessControl.VacmVars

namespace Priot.AccessControl

open Asn01 Api Lib
open List hiding choose

variable {accessList : List AccessRow} {viewList : List ViewEntry} {q : Query} {k : Index} {row : AccessRow}
  {vp : ViewEntry} {i : Nat} {name : ObjId}

/-! ## indexes in an OID -/

/-- The subidentifiers of a name behind its length. -/
def nameOid (s : VacmString) : ObjId := UInt32.ofNat s.text.length :: s.text.map fun c => UInt32.ofNat c.toNat

/-- The index of an access entry in an OID. -/
def accessOid (k : Index) : ObjId :=
  nameOid k.1 ++ (nameOid k.2.1 ++ [UInt32.ofNat k.2.2.1.toNat, UInt32.ofNat k.2.2.2.toNat])

/-- The name of a view and a subtree. -/
abbrev ViewIndex := VacmString × ObjId

def ViewEntry.index (vp : ViewEntry) : ViewIndex := (vp.viewName, vp.viewSubtree)

def viewOid (k : ViewIndex) : ObjId := nameOid k.1 ++ (UInt32.ofNat k.2.length :: k.2)

/-- A request names a row of the access table. -/
structure NamesAccess (name : ObjId) (k : Index) : Prop where
  oid : name.drop ACCESS_MIB_LENGTH = accessOid k
  model : 0 ≤ k.2.2.1 ∧ k.2.2.1 < 2 ^ 31
  level : 0 ≤ k.2.2.2 ∧ k.2.2.2 < 2 ^ 31

/-- A request names a row of the view table. -/
def NamesView (name : ObjId) (k : ViewIndex) : Prop := name.drop VIEW_MIB_LENGTH = viewOid k

theorem parseOctets_map (t : Text) : parseOctets (t.map fun c => UInt32.ofNat c.toNat) = some t := by
  have hback : ∀ c : UInt8, (UInt32.ofNat c.toNat).toNat = c.toNat := by
    intro c
    have hlt := c.toNat_lt
    exact UInt32.toNat_ofNat_of_lt' (by rw [UInt32.size]; omega)
  unfold parseOctets
  rw [if_neg, map_map]
  · have hid : (fun subid : UInt32 => UInt8.ofNat subid.toNat) ∘ (fun c : UInt8 => UInt32.ofNat c.toNat) = id := by
      funext c
      simp only [Function.comp_apply, hback, UInt8.ofNat_toNat, id_eq]
    rw [hid, map_id]
  · rintro ⟨subid, hmem, hlarge⟩
    obtain ⟨c, -, rfl⟩ := mem_map.mp hmem
    have hlt := c.toNat_lt
    rw [hback] at hlarge
    omega

theorem toNat_nameLength (s : VacmString) : (UInt32.ofNat s.text.length).toNat = s.text.length := by
  have hfits : s.text.length ≤ 32 := s.fits
  exact UInt32.toNat_ofNat_of_lt' (by rw [UInt32.size]; omega)

theorem accessParseOid_accessOid (hmodel : 0 ≤ k.2.2.1 ∧ k.2.2.1 < 2 ^ 31) (hlevel : 0 ≤ k.2.2.2 ∧ k.2.2.2 < 2 ^ 31) :
    accessParseOid (accessOid k) = some (k.1.text, k.2.1.text, k.2.2.1, k.2.2.2) := by
  obtain ⟨g, c, m, l⟩ := k
  have hg : (g.text.map fun c => UInt32.ofNat c.toNat).length = g.text.length := length_map ..
  have hc : (c.text.map fun c => UInt32.ofNat c.toNat).length = c.text.length := length_map ..
  have hm : castInt (UInt32.ofNat m.toNat).toNat = m := by
    simp only [] at hmodel
    rw [UInt32.toNat_ofNat_of_lt' (by rw [UInt32.size]; omega), castInt_of_lt (by omega), Int.toNat_of_nonneg hmodel.1]
  have hl : castInt (UInt32.ofNat l.toNat).toNat = l := by
    simp only [] at hlevel
    rw [UInt32.toNat_ofNat_of_lt' (by rw [UInt32.size]; omega), castInt_of_lt (by omega), Int.toNat_of_nonneg hlevel.1]
  unfold accessParseOid accessOid nameOid
  simp only [cons_append, toNat_nameLength]
  rw [getElem?_append_right (by omega), hg, Nat.sub_self, getElem?_cons_zero]
  simp only [toNat_nameLength]
  rw [if_neg (by simp only [length_cons, length_append, length_map, length_nil]; omega),
    take_left' hg, drop_append, drop_of_length_le (by omega), hg, nil_append,
    show g.text.length + 1 - g.text.length = 1 from by omega, drop_succ_cons, drop_zero, take_left' hc,
    parseOctets_map, parseOctets_map]
  have hlast : ∀ n, (UInt32.ofNat g.text.length :: (g.text.map (fun c => UInt32.ofNat c.toNat) ++
      (UInt32.ofNat c.text.length :: (c.text.map (fun c => UInt32.ofNat c.toNat) ++
        [UInt32.ofNat m.toNat, UInt32.ofNat l.toNat]))))[g.text.length + c.text.length + 2 + n]? =
      [UInt32.ofNat m.toNat, UInt32.ofNat l.toNat][n]? := by
    intro n
    rw [show g.text.length + c.text.length + 2 + n = (g.text.length + (c.text.length + n + 1)) + 1 from by omega,
      getElem?_cons_succ, getElem?_append_right (by omega), hg, Nat.add_sub_cancel_left,
      getElem?_cons_succ, getElem?_append_right (by omega), hc, Nat.add_sub_cancel_left]
  have hmodel' := hlast 0
  have hlevel' := hlast 1
  rw [Nat.add_zero] at hmodel'
  rw [Nat.add_assoc _ 2 1] at hlevel'
  rw [hmodel', hlevel']
  show some (g.text, c.text, castInt (UInt32.ofNat m.toNat).toNat, castInt (UInt32.ofNat l.toNat).toNat) = _
  rw [hm, hl]

theorem viewParseOid_viewOid (k : ViewIndex) : viewParseOid (viewOid k) = some (k.1.text, k.2) := by
  obtain ⟨n, s⟩ := k
  have hn : (n.text.map fun c => UInt32.ofNat c.toNat).length = n.text.length := length_map ..
  unfold viewParseOid viewOid nameOid
  simp only [cons_append, toNat_nameLength]
  rw [if_neg (by rw [length_append, hn]; omega), take_left' hn, drop_left' hn, parseOctets_map]
  rfl

/-! ## which row is found -/

theorem getAccessRow_fst (q : Query) (accessList : List AccessRow) :
    (getAccessRow q accessList).map (fun found => found.1.entry) = getAccessEntry q (accessList.map AccessRow.entry) := by
  unfold getAccessRow getAccessEntry
  split
  · rfl
  · split
    · rfl
    · rw [show (fun found : AccessRow × Nat => found.1.entry) = AccessRow.entry ∘ Prod.fst from rfl, ← Option.map_map,
        keepAt_fst]
      exact keep_map_entry AccessRow.entry q accessList

theorem getAccessRow_spec (h : getAccessRow q accessList = some (row, i)) : accessList[i]? = some row ∧
    selects q.groupName q.contextName q.securityModel q.securityLevel row.entry = true := by
  unfold getAccessRow at h
  split at h
  · exact nomatch h
  · split at h
    · exact nomatch h
    · obtain ⟨hrow, kept, htakes⟩ := keepAt_spec h
      exact ⟨hrow, (Bool.and_eq_true_iff.mp htakes).1⟩

theorem accessParseAccessEntry_of_names (h : NamesAccess name k) (accessList : List AccessRow) :
    accessParseAccessEntry accessList name =
      getAccessRow ⟨cstr k.1.text, cstr k.2.1.text, k.2.2.1, k.2.2.2⟩ accessList := by
  unfold accessParseAccessEntry
  rw [h.oid, accessParseOid_accessOid h.model h.level]

theorem viewParseViewEntry_of_names {k : ViewIndex} (h : NamesView name k) (viewList : List ViewEntry) :
    viewParseViewEntry viewList name = getViewRow (cstr k.1.text) k.2 viewList := by
  unfold viewParseViewEntry
  rw [h, viewParseOid_viewOid]

theorem matchLoop_ignoreMask {mask : UInt8} {maskpos : Nat} {x y : ObjId} (h : y.length ≤ x.length) :
    matchLoop vp true mask maskpos x y = true ↔ y <+: x := by
  induction x generalizing y mask maskpos with
  | nil =>
    obtain rfl := length_eq_zero_iff.mp (Nat.le_zero.mp h)
    exact iff_of_true rfl (prefix_refl [])
  | cons v x ih =>
    cases y with
    | nil => exact iff_of_true rfl nil_prefix
    | cons w y =>
      have hy : y.length ≤ x.length := Nat.succ_le_succ_iff.mp h
      rw [matchLoop, cons_prefix_cons]
      by_cases hvw : v = w
      · rw [if_neg fun hand => hand.2 hvw, and_iff_right hvw.symm]
        split
        · exact ih hy
        · exact ih hy
      · rw [if_pos ⟨.inl rfl, hvw⟩]
        exact iff_of_false Bool.false_ne_true fun hand => hvw hand.1.symm

theorem inView_iff {viewName : Text} (hname : viewName.length ≤ VACM_MAX_STRING) :
    vp.inView viewName = true ↔ vp.viewName.text = viewName := by
  unfold ViewEntry.inView
  rw [decide_eq_true_eq, (Lib.memcmp_total (viewName.length + 1)).eq_comm]
  exact memcmp_lengthPrefixed vp.viewName.fits hname

theorem viewSelects_ignoreMask_iff {viewName : Text} {x : ObjId} (hname : viewName.length ≤ VACM_MAX_STRING) :
    viewSelects viewName x .ignoreMask vp = true ↔ vp.viewName.text = viewName ∧ vp.viewSubtree <+: x := by
  unfold viewSelects
  rw [Bool.and_eq_true, Bool.and_eq_true, decide_eq_true_eq, inView_iff hname]
  constructor
  · rintro ⟨⟨hview, hlen⟩, hfound⟩
    exact ⟨hview, (matchLoop_ignoreMask hlen).mp hfound⟩
  · rintro ⟨hview, hprefix⟩
    exact ⟨⟨hview, hprefix.length_le⟩, (matchLoop_ignoreMask hprefix.length_le).mpr hprefix⟩

theorem getViewRow_spec (viewList : List ViewEntry) {viewName : Text} (hname : viewName.length ≤ VACM_MAX_STRING)
    (x : ObjId) :
    (∀ vp i, getViewRow viewName x viewList = some (vp, i) → viewList[i]? = some vp ∧ vp.viewName.text = viewName ∧
      vp.viewSubtree <+: x ∧ ∀ other ∈ viewList, other.viewName.text = viewName → other.viewSubtree <+: x →
        other.viewSubtree.length ≤ vp.viewSubtree.length) ∧
    (getViewRow viewName x viewList = none → ∀ other ∈ viewList, other.viewName.text = viewName →
      ¬ other.viewSubtree <+: x) := by
  have hkeep : (getViewRow viewName x viewList).map Prod.fst =
      (viewList.filter (viewSelects viewName x .ignoreMask)).foldl (choose longer) none := by
    rw [getViewRow, if_neg (Nat.not_lt.mpr hname), keepAt_fst]
    exact Lib.keep_eq_choose _ _ _
  constructor
  · intro vp i h
    rw [h, Option.map_some] at hkeep
    have hrow : viewList[i]? = some vp := by
      rw [getViewRow, if_neg (Nat.not_lt.mpr hname)] at h
      exact (keepAt_spec h).1
    have hmem := mem_of_first hkeep.symm
    obtain ⟨hview, hprefix⟩ := (viewSelects_ignoreMask_iff hname).mp (mem_filter.mp hmem).2
    refine ⟨hrow, hview, hprefix, fun other hother hview' hprefix' => ?_⟩
    exact length_le_of_first hkeep.symm other
      (mem_filter.mpr ⟨hother, (viewSelects_ignoreMask_iff hname).mpr ⟨hview', hprefix'⟩⟩)
  · intro h other hother hview hprefix
    rw [h, Option.map_none] at hkeep
    have hnil := Lib.foldl_choose_eq_none_iff.mp hkeep.symm
    have hmem : other ∈ viewList.filter (viewSelects viewName x .ignoreMask) :=
      mem_filter.mpr ⟨hother, (viewSelects_ignoreMask_iff hname).mpr ⟨hview, hprefix⟩⟩
    rw [hnil] at hmem
    exact absurd hmem not_mem_nil

/-! ## only the row that is named -/

/-- The entry that decides about a message with the index is one with the index, if there is any. -/
def AccessOwn (k : Index) (accessList : List AccessRow) : Prop :=
  ∀ e, getAccessEntry ⟨cstr k.1.text, cstr k.2.1.text, k.2.2.1, k.2.2.2⟩ (accessList.map AccessRow.entry) = some e →
    e.index = k

/-- The view has got a row with the subtree, and its name has got no zero in it, or it has got no row with a subtree
around it. -/
def ViewOwn (k : ViewIndex) (viewList : List ViewEntry) : Prop :=
  (0 ∉ k.1.text ∧ ∃ vp ∈ viewList, vp.index = k) ∨
    ∀ vp ∈ viewList, vp.viewName.text = cstr k.1.text → ¬ vp.viewSubtree <+: k.2

/-- A function of a column changes only the row that is named, in every phase. It refuses to when there is none,
in the phase `checked`. -/
def Frames {Static Row Key : Type} (key : Row → Key) (k : Key) (table : List Row) (found : Option (Row × Nat))
    (checked : Action) (write : Action → SetValue → Static → Option Row → Written Static Row) : Prop :=
  ∀ action v s, OnlyRow key k table (onRow table found (write action v s)).2
    (action = checked ∧ (onRow table found (write action v s)).1.code = PRIOT_ERR_NOERROR)

section

variable {Static Row Key : Type} {key : Row → Key} {key₀ : Key} {table : List Row} {found : Option (Row × Nat)}
  {checked : Action} {write : Action → SetValue → Static → Option Row → Written Static Row}

theorem Frames.of_own (hnone : ∀ action v s, (write action v s none).row = none ∧
      (action = checked → (write action v s none).code ≠ PRIOT_ERR_NOERROR))
    (hown : ∀ row i, found = some (row, i) → table[i]? = some row ∧ key row = key₀) :
    Frames key key₀ table found checked write := by
  intro action v s
  cases hfound : found with
  | none =>
    obtain ⟨hrow, hcode⟩ := hnone action v s
    exact OnlyRow.of_none (write action v s none).row fun h => hcode h.1 h.2
  | some found =>
    obtain ⟨row, i⟩ := found
    obtain ⟨hrow, hkey⟩ := hown row i hfound
    exact OnlyRow.of_found hrow hkey (write action v s (some row)).row

theorem Frames.own (h : Frames key key₀ table found checked write)
    (hrow : ∀ row i, found = some (row, i) → table[i]? = some row)
    (hstray : ∀ row i, found = some (row, i) → ∃ action v s new, (write action v s (some row)).row = some new ∧ new ≠ row) :
    ∀ row i, found = some (row, i) → key row = key₀ := by
  intro row i hfound
  by_contra hkey
  obtain ⟨action, v, s, new, hnew, hne⟩ := hstray row i hfound
  have honly := h action v s
  subst hfound
  unfold onRow at honly
  simp only [Option.map_some, hnew] at honly
  exact OnlyRow.not_of_changed (hrow row i rfl) hkey hne honly

end

/-! ## the columns -/

theorem accessOwn_iff (h : NamesAccess name k) (accessList : List AccessRow) :
    AccessOwn k accessList ↔ ∀ row i, accessParseAccessEntry accessList name = some (row, i) → row.entry.index = k := by
  unfold AccessOwn
  rw [← getAccessRow_fst, ← accessParseAccessEntry_of_names h]
  constructor
  · intro hown row i hfound
    exact hown row.entry (by rw [hfound]; rfl)
  · intro hown e he
    obtain ⟨⟨row, i⟩, hfound, rfl⟩ := Option.map_eq_some_iff.mp he
    exact hown row i hfound

/-- A column of the access table frames if and only if the row itself is found. -/
theorem accessFrames_iff {Static : Type} {checked : Action}
    {write : Action → SetValue → Static → Option AccessRow → Written Static AccessRow} (h : NamesAccess name k)
    (accessList : List AccessRow) (hnone : ∀ action v s, (write action v s none).row = none ∧
      (action = checked → (write action v s none).code ≠ PRIOT_ERR_NOERROR))
    (hstray : ∀ row : AccessRow, row.contextMatch = CONTEXT_MATCH_EXACT ∨ row.contextMatch = CONTEXT_MATCH_PREFIX →
      ∃ action v s new, (write action v s (some row)).row = some new ∧ new ≠ row) :
    Frames (fun row : AccessRow => row.entry.index) k accessList (accessParseAccessEntry accessList name) checked write ↔
      AccessOwn k accessList := by
  have hrow : ∀ row i, accessParseAccessEntry accessList name = some (row, i) → accessList[i]? = some row ∧
      (row.contextMatch = CONTEXT_MATCH_EXACT ∨ row.contextMatch = CONTEXT_MATCH_PREFIX) := by
    intro row i hfound
    rw [accessParseAccessEntry_of_names h] at hfound
    obtain ⟨hrow, hselects⟩ := getAccessRow_spec hfound
    unfold selects at hselects
    rw [decide_eq_true_eq] at hselects
    exact ⟨hrow, hselects.2.2.2.imp And.left And.left⟩
  rw [accessOwn_iff h]
  constructor
  · exact fun hframes => hframes.own (fun row i hfound => (hrow row i hfound).1)
      fun row i hfound => hstray row (hrow row i hfound).2
  · exact fun hown => Frames.of_own hnone fun row i hfound => ⟨(hrow row i hfound).1, hown row i hfound⟩

theorem none_of_phases {Static Row : Type} {write : Action → SetValue → Static → Option Row → Written Static Row}
    (hcheck : ∀ v s, (write .reserve1 v s none).row = none) (hrefuse : ∀ v s, (write .reserve2 v s none).row = none ∧
      (write .reserve2 v s none).code = PRIOT_ERR_INCONSISTENTNAME)
    (hlate : ∀ v s, (write .act v s none).row = none ∧ (write .commit v s none).row = none ∧
      (write .free v s none).row = none ∧ (write .undo v s none).row = none) (action : Action) (v : SetValue) (s : Static) :
    (write action v s none).row = none ∧ (action = .reserve2 → (write action v s none).code ≠ PRIOT_ERR_NOERROR) := by
  obtain ⟨hact, hcommit, hfree, hundo⟩ := hlate v s
  cases action with
  | reserve1 => exact ⟨hcheck v s, fun h => nomatch h⟩
  | reserve2 =>
    refine ⟨(hrefuse v s).1, fun _ => ?_⟩
    rw [(hrefuse v s).2]
    decide
  | act => exact ⟨hact, fun h => nomatch h⟩
  | commit => exact ⟨hcommit, fun h => nomatch h⟩
  | free => exact ⟨hfree, fun h => nomatch h⟩
  | undo => exact ⟨hundo, fun h => nomatch h⟩

theorem writeViewName_none (view : Fin VACM_MAX_VIEWS) (action : Action) (v : SetValue) (s : ViewNameStatic) :
    (writeViewName view action v s none).row = none ∧
      (action = .reserve2 → (writeViewName view action v s none).code ≠ PRIOT_ERR_NOERROR) := by
  refine @none_of_phases _ _ (writeViewName view) (fun v s => ?_) (fun _ _ => ⟨rfl, rfl⟩) (fun _ _ => ⟨rfl, rfl, rfl, rfl⟩) action v s
  unfold writeViewName
  simp only []
  split_ifs <;> rfl

theorem writeViewName_stray (view : Fin VACM_MAX_VIEWS) (row : AccessRow) :
    ∃ action v s new, (writeViewName view action v s (some row)).row = some new ∧ new ≠ row := by
  have hhead : ∀ octets : List UInt8, octets.length ≤ 32 →
      (overwrite (row.views view) (octets ++ [0])).cells.head? = (octets ++ [0]).head? := by
    intro octets hlen
    have hfits : 0 + (octets ++ [0]).length ≤ VACM_VACMSTRINGLEN := by
      rw [length_append, length_singleton, VACM_VACMSTRINGLEN]
      omega
    unfold overwrite Buffer.write
    rw [dif_pos hfits, Option.getD_some]
    show (List.take 0 _ ++ ((octets ++ [0]) ++ _)).head? = _
    rw [take_zero, nil_append, head?_append_of_ne_nil]
    exact append_ne_nil_of_right_ne_nil _ (cons_ne_nil 0 [])
  obtain ⟨octets, hlen, hne⟩ : ∃ octets : List UInt8, octets.length ≤ 32 ∧
      (octets ++ [0]).head? ≠ (row.views view).cells.head? := by
    by_cases hzero : (row.views view).cells.head? = some 0
    · exact ⟨[1], by decide, by rw [hzero]; decide⟩
    · exact ⟨[], by decide, fun h => hzero h.symm⟩
  refine ⟨.reserve2, ⟨octets, 0, asnOCTET_STR⟩, ⟨row.views view, false⟩, _, rfl, fun hsame => hne ?_⟩
  have hviews := congrFun (congrArg AccessRow.views hsame) view
  simp only [Function.update_self] at hviews
  rw [← hhead octets hlen, hviews]

theorem writeVacmAccessContextMatch_none (action : Action) (v : SetValue) :
    (writeVacmAccessContextMatch action v none).row = none ∧
      (action = .commit → (writeVacmAccessContextMatch action v none).code ≠ PRIOT_ERR_NOERROR) := by
  unfold writeVacmAccessContextMatch
  split
  · exact ⟨rfl, fun _ => show PRIOT_ERR_WRONGTYPE ≠ PRIOT_ERR_NOERROR by decide⟩
  · split
    · exact ⟨rfl, fun _ => show PRIOT_ERR_WRONGLENGTH ≠ PRIOT_ERR_NOERROR by decide⟩
    · cases action with
      | commit => exact ⟨rfl, fun _ => show PRIOT_ERR_NOSUCHNAME ≠ PRIOT_ERR_NOERROR by decide⟩
      | reserve1 | reserve2 | act | free | undo => exact ⟨rfl, fun h => nomatch h⟩

theorem writeVacmAccessContextMatch_stray (row : AccessRow)
    (h : row.contextMatch = CONTEXT_MATCH_EXACT ∨ row.contextMatch = CONTEXT_MATCH_PREFIX) :
    ∃ action v new, (writeVacmAccessContextMatch action v (some row)).row = some new ∧ new ≠ row := by
  have hother : ∀ long, (long = CONTEXT_MATCH_EXACT ∨ long = CONTEXT_MATCH_PREFIX) → long ≠ row.contextMatch →
      ∃ action v new, (writeVacmAccessContextMatch action v (some row)).row = some new ∧ new ≠ row := by
    intro long hlong hne
    refine ⟨.commit, ⟨[], long, asnINTEGER⟩, { row with contextMatch := long }, ?_, fun hsame => ?_⟩
    · unfold writeVacmAccessContextMatch
      rw [if_neg (by simp), if_neg (by simp)]
      simp only []
      rw [if_pos hlong]
    · exact hne (congrArg AccessRow.contextMatch hsame)
  rcases h with h | h
  · exact hother CONTEXT_MATCH_PREFIX (.inr rfl) (by rw [h]; decide)
  · exact hother CONTEXT_MATCH_EXACT (.inl rfl) (by rw [h]; decide)

theorem cstr_length_le (s : VacmString) : (cstr s.text).length ≤ VACM_MAX_STRING :=
  (takeWhile_sublist _).length_le.trans s.fits

theorem cstr_eq_iff {t : Text} : cstr t = t ↔ 0 ∉ t := by
  unfold cstr
  rw [takeWhile_eq_self_iff]
  constructor
  · intro h hzero
    exact absurd (h 0 hzero) (by decide)
  · intro h c hc
    rw [decide_eq_true_eq]
    exact fun hzero => h (hzero ▸ hc)

theorem viewOwn_iff {kv : ViewIndex} (h : NamesView name kv) (viewList : List ViewEntry) :
    ViewOwn kv viewList ↔ ∀ vp i, viewParseViewEntry viewList name = some (vp, i) → vp.index = kv := by
  rw [viewParseViewEntry_of_names h]
  obtain ⟨hfound, hnone⟩ := getViewRow_spec viewList (cstr_length_le kv.1) kv.2
  constructor
  · rintro (⟨hzero, own, hown, rfl⟩ | hno) vp i hvp
    · obtain ⟨-, hview, hprefix, hlongest⟩ := hfound vp i hvp
      rw [cstr_eq_iff.mpr hzero] at hview hlongest
      have hle := hlongest own hown rfl (prefix_refl _)
      have hsubtree : vp.viewSubtree = own.viewSubtree := hprefix.eq_of_length_le hle
      exact Prod.ext (VacmString.ext hview) hsubtree
    · obtain ⟨hrow, hview, hprefix, -⟩ := hfound vp i hvp
      exact absurd hprefix (hno vp (mem_of_getElem? hrow) hview)
  · intro hall
    cases hget : getViewRow (cstr kv.1.text) kv.2 viewList with
    | none => exact .inr (hnone hget)
    | some found =>
      obtain ⟨vp, i⟩ := found
      obtain ⟨hrow, hview, -, -⟩ := hfound vp i hget
      have hindex := hall vp i hget
      refine .inl ⟨?_, vp, mem_of_getElem? hrow, hindex⟩
      rw [← cstr_eq_iff, ← hview, ← hindex]
      rfl

/-- A column of the view table frames if and only if the row itself is found. -/
theorem viewFrames_iff {Static : Type} {write : Action → SetValue → Static → Option ViewEntry → Written Static ViewEntry}
    {kv : ViewIndex} (h : NamesView name kv) (hnone : ∀ action v s, (write action v s none).row = none ∧
      (action = .reserve2 → (write action v s none).code ≠ PRIOT_ERR_NOERROR))
    (hstray : ∀ vp : ViewEntry, ∃ action v s new, (write action v s (some vp)).row = some new ∧ new ≠ vp) :
    Frames ViewEntry.index kv viewList (viewParseViewEntry viewList name) .reserve2 write ↔ ViewOwn kv viewList := by
  have hrow : ∀ vp i, viewParseViewEntry viewList name = some (vp, i) → viewList[i]? = some vp := by
    intro vp i hfound
    rw [viewParseViewEntry_of_names h] at hfound
    exact ((getViewRow_spec viewList (cstr_length_le kv.1) kv.2).1 vp i hfound).1
  rw [viewOwn_iff h]
  constructor
  · exact fun hframes => hframes.own hrow fun vp i _ => hstray vp
  · exact fun hown => Frames.of_own hnone fun vp i hfound => ⟨hrow vp i hfound, hown vp i hfound⟩

theorem writeVacmViewMask_none (action : Action) (v : SetValue) (string : List UInt8) :
    (writeVacmViewMask action v string none).row = none ∧
      (action = .reserve2 → (writeVacmViewMask action v string none).code ≠ PRIOT_ERR_NOERROR) := by
  refine @none_of_phases _ _ (writeVacmViewMask) (fun v s => ?_) (fun _ _ => ⟨rfl, rfl⟩) (fun _ _ => ⟨rfl, rfl, rfl, rfl⟩) action v string
  unfold writeVacmViewMask
  simp only []
  split_ifs <;> rfl

theorem writeVacmViewMask_stray (vp : ViewEntry) :
    ∃ action v string new, (writeVacmViewMask action v string (some vp)).row = some new ∧ new ≠ vp := by
  obtain ⟨octets, hne⟩ : ∃ octets : List UInt8, octets ≠ vp.viewMask := by
    by_cases hnil : vp.viewMask = []
    · exact ⟨[0], by rw [hnil]; decide⟩
    · exact ⟨[], fun h => hnil h.symm⟩
  exact ⟨.reserve2, ⟨octets, 0, asnOCTET_STR⟩, [], _, rfl, fun hsame => hne (congrArg ViewEntry.viewMask hsame)⟩

theorem writeVacmViewType_none (action : Action) (v : SetValue) (oldValue : Int) :
    (writeVacmViewType action v oldValue none).row = none ∧
      (action = .reserve2 → (writeVacmViewType action v oldValue none).code ≠ PRIOT_ERR_NOERROR) := by
  refine @none_of_phases _ _ (writeVacmViewType) (fun v s => ?_) (fun _ _ => ⟨rfl, rfl⟩) (fun _ _ => ⟨rfl, rfl, rfl, rfl⟩) action v oldValue
  unfold writeVacmViewType
  simp only []
  split_ifs <;> rfl

theorem writeVacmViewType_stray (vp : ViewEntry) :
    ∃ action v oldValue new, (writeVacmViewType action v oldValue (some vp)).row = some new ∧ new ≠ vp := by
  have hother : ∀ long : Int, Int.bmod long (2 ^ 32) = long → long ≠ vp.viewType →
      ∃ action v oldValue new, (writeVacmViewType action v oldValue (some vp)).row = some new ∧ new ≠ vp := by
    intro long hlong hne
    refine ⟨.reserve2, ⟨[], long, asnINTEGER⟩, 0, _, rfl, fun hsame => hne ?_⟩
    have htype := congrArg ViewEntry.viewType hsame
    simp only [hlong] at htype
    exact htype
  by_cases hone : vp.viewType = 1
  · exact hother 2 (by decide) (by rw [hone]; decide)
  · exact hother 1 (by decide) fun h => hone h.symm

theorem writeVacmViewStorageType_none (action : Action) (v : SetValue) (oldValue : Int) :
    (writeVacmViewStorageType action v oldValue none).row = none ∧
      (action = .reserve2 → (writeVacmViewStorageType action v oldValue none).code ≠ PRIOT_ERR_NOERROR) := by
  refine @none_of_phases _ _ (writeVacmViewStorageType) (fun v s => ?_) (fun _ _ => ⟨rfl, rfl⟩) (fun _ _ => ⟨rfl, rfl, rfl, rfl⟩) action v oldValue
  unfold writeVacmViewStorageType
  simp only []
  split_ifs <;> rfl

theorem writeVacmViewStorageType_stray (vp : ViewEntry) :
    ∃ action v oldValue new, (writeVacmViewStorageType action v oldValue (some vp)).row = some new ∧ new ≠ vp := by
  have hother : ∀ old : Int, Int.bmod old (2 ^ 32) = old → old ≠ vp.viewStorageType →
      ∃ action v oldValue new, (writeVacmViewStorageType action v oldValue (some vp)).row = some new ∧ new ≠ vp := by
    intro old hold hne
    refine ⟨.undo, ⟨[], 0, asnINTEGER⟩, old, _, rfl, fun hsame => hne ?_⟩
    have htype := congrArg ViewEntry.viewStorageType hsame
    simp only [hold] at htype
    exact htype
  by_cases hzero : vp.viewStorageType = 0
  · exact hother STORAGE_TYPE_VOLATILE (by decide) (by rw [hzero]; decide)
  · exact hother 0 (by decide) fun h => hzero h.symm

/-- The columns of the two tables frame exactly where the row itself is found. -/
theorem vacmVars_frames_iff {accessName viewName : ObjId} {kv : ViewIndex} (ha : NamesAccess accessName k)
    (hv : NamesView viewName kv) (accessList : List AccessRow) (viewList : List ViewEntry) :
    ((Frames (fun row : AccessRow => row.entry.index) k accessList (accessParseAccessEntry accessList accessName)
        .reserve2 writeVacmAccessReadViewName ↔ AccessOwn k accessList) ∧
      (Frames (fun row : AccessRow => row.entry.index) k accessList (accessParseAccessEntry accessList accessName)
        .reserve2 writeVacmAccessWriteViewName ↔ AccessOwn k accessList) ∧
      (Frames (fun row : AccessRow => row.entry.index) k accessList (accessParseAccessEntry accessList accessName)
        .reserve2 writeVacmAccessNotifyViewName ↔ AccessOwn k accessList) ∧
      (Frames (fun row : AccessRow => row.entry.index) k accessList (accessParseAccessEntry accessList accessName)
        .commit (fun action v (_ : Unit) => writeVacmAccessContextMatch action v) ↔ AccessOwn k accessList)) ∧
    (Frames ViewEntry.index kv viewList (viewParseViewEntry viewList viewName) .reserve2 writeVacmViewMask ↔
        ViewOwn kv viewList) ∧
      (Frames ViewEntry.index kv viewList (viewParseViewEntry viewList viewName) .reserve2 writeVacmViewType ↔
        ViewOwn kv viewList) ∧
      (Frames ViewEntry.index kv viewList (viewParseViewEntry viewList viewName) .reserve2 writeVacmViewStorageType ↔
        ViewOwn kv viewList) := by
  have hviewName := fun view => accessFrames_iff ha accessList (writeViewName_none view)
    fun row _ => writeViewName_stray view row
  refine ⟨⟨hviewName _, hviewName _, hviewName _, ?_⟩, ?_, ?_, ?_⟩
  · refine accessFrames_iff ha accessList (fun action v _ => writeVacmAccessContextMatch_none action v) fun row hmatch => ?_
    obtain ⟨action, v, new, hnew⟩ := writeVacmAccessContextMatch_stray row hmatch
    exact ⟨action, v, (), new, hnew⟩
  · exact viewFrames_iff hv writeVacmViewMask_none writeVacmViewMask_stray
  · exact viewFrames_iff hv writeVacmViewType_none writeVacmViewType_stray
  · exact viewFrames_iff hv writeVacmViewStorageType_none writeVacmViewStorageType_stray

/-- An entry for every model and every context. -/
def anyModelRow : AccessRow where
  groupName := ⟨[103], by decide⟩
  contextPrefix := ⟨[], by decide⟩
  securityModel := PRIOT_SEC_MODEL_ANY
  securityLevel := 1
  contextMatch := CONTEXT_MATCH_PREFIX
  views := fun _ => ⟨List.replicate 34 0, rfl⟩
  status := 1

/-- An index that no row has. -/
def otherIndex : Index := (⟨[103], by decide⟩, ⟨[], by decide⟩, 3, 1)

def otherName : ObjId := List.replicate 11 1 ++ accessOid otherIndex

def someView : ViewIndex := (⟨[118], by decide⟩, [1, 3])

def someViewName : ObjId := List.replicate 12 1 ++ viewOid someView

theorem vacmVars_frames_iff_other :
    ((Frames (fun row : AccessRow => row.entry.index) otherIndex [anyModelRow]
          (accessParseAccessEntry [anyModelRow] otherName) .reserve2 writeVacmAccessReadViewName ↔
        AccessOwn otherIndex [anyModelRow]) ∧
      (Frames (fun row : AccessRow => row.entry.index) otherIndex [anyModelRow]
          (accessParseAccessEntry [anyModelRow] otherName) .reserve2 writeVacmAccessWriteViewName ↔
        AccessOwn otherIndex [anyModelRow]) ∧
      (Frames (fun row : AccessRow => row.entry.index) otherIndex [anyModelRow]
          (accessParseAccessEntry [anyModelRow] otherName) .reserve2 writeVacmAccessNotifyViewName ↔
        AccessOwn otherIndex [anyModelRow]) ∧
      (Frames (fun row : AccessRow => row.entry.index) otherIndex [anyModelRow]
          (accessParseAccessEntry [anyModelRow] otherName) .commit
          (fun action v (_ : Unit) => writeVacmAccessContextMatch action v) ↔ AccessOwn otherIndex [anyModelRow])) ∧
    (Frames ViewEntry.index someView [] (viewParseViewEntry [] someViewName) .reserve2 writeVacmViewMask ↔
        ViewOwn someView []) ∧
      (Frames ViewEntry.index someView [] (viewParseViewEntry [] someViewName) .reserve2 writeVacmViewType ↔
        ViewOwn someView []) ∧
      (Frames ViewEntry.index someView [] (viewParseViewEntry [] someViewName) .reserve2 writeVacmViewStorageType ↔
        ViewOwn someView []) :=
  vacmVars_frames_iff ⟨rfl, by decide, by decide⟩ (show NamesView someViewName someView from rfl) [anyModelRow] []

/-- The view names of the entry are changed although it has got another index. -/
theorem not_frames_anyModelRow : ¬ Frames (fun row : AccessRow => row.entry.index) otherIndex [anyModelRow]
    (accessParseAccessEntry [anyModelRow] otherName) .reserve2 writeVacmAccessReadViewName := by
  intro h
  have honly := h .reserve2 ⟨[1], 0, asnOCTET_STR⟩ ⟨⟨replicate 34 0, rfl⟩, false⟩
  have hindex : ∀ row ∈ [anyModelRow], row.entry.index ≠ otherIndex := by
    intro row hrow
    rw [mem_singleton.mp hrow]
    decide
  exact (honly.absent hindex).2 ⟨rfl, by decide⟩

end Priot.AccessControl
