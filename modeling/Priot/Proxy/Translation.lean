/-
# The buffers and the names in them

The handler and the function for the response compute the names that the abstract account gives, and never leave a
buffer. Only cells behind the stored base are written to.
-/
import Priot.Proxy.Image

namespace Priot.Proxy

open Agent Lib Registry List

/-- What is in the buffers of an entry. -/
structure Entry (sp : SimpleProxy) (name base : ObjId) : Prop where
  nameLen : sp.nameLen = name.length
  readName : sp.name.read sp.nameLen = name
  baseLen : sp.baseLen = base.length
  readBase : sp.base.read sp.baseLen = base
  name_le : name.length ≤ maxOidLen
  base_le : base.length ≤ maxOidLen

/-- An entry with a local name and a remote base, which may be empty. -/
structure Configured (sp : SimpleProxy) (name base : ObjId) : Prop where
  nameLen : sp.nameLen = name.length
  readName : sp.name.read sp.nameLen = name
  baseLen : sp.baseLen = base.length
  readBase : sp.base.read sp.baseLen = base
  name_pos : 1 ≤ name.length
  name_le : name.length ≤ 100
  base_le : base.length ≤ 100
  sess : sp.sess = true

variable {sp sp' : SimpleProxy} {name base : ObjId} {mode : Mode} {v : RequestVar} {stack : OidBuffer}

theorem Configured.entry (h : Configured sp name base) : Entry sp name base :=
  ⟨h.nameLen, h.readName, h.baseLen, h.readBase, Nat.le_trans h.name_le (by decide), Nat.le_trans h.base_le (by decide)⟩

theorem Configured.of_entry (h : Configured sp name base) (h' : Entry sp' name base) (hsess : sp'.sess = sp.sess) :
    Configured sp' name base :=
  ⟨h'.nameLen, h'.readName, h'.baseLen, h'.readBase, h.name_pos, h.name_le, h.base_le, hsess.trans h.sess⟩

theorem length_lastBefore_le (base : ObjId) : (lastBefore base).length ≤ base.length + 1 := by
  unfold lastBefore
  split
  · exact Nat.zero_le _
  · next last hlast =>
    have hpos : 0 < base.length := length_pos_iff.mpr fun hnil => by
      rw [hnil] at hlast
      cases hlast
    split
    · rw [length_dropLast]
      omega
    · rw [length_append, length_dropLast]
      show base.length - 1 + 2 ≤ base.length + 1
      omega

theorem Configured.lastBefore_le (h : Configured sp name base) : (lastBefore base).length ≤ maxOidLen := by
  have hle := h.base_le
  have hlast := length_lastBefore_le base
  show _ ≤ 128
  omega

/-! ## on the way out -/

theorem getLast?_read {b : OidBuffer} {k : Nat} (hk : k < maxOidLen) : (b.read (k + 1)).getLast? = b.cells[k]? := by
  rw [getLast?_eq_getElem?, Buffer.length_read (by omega), Nat.add_sub_cancel, Buffer.getElem?_read (by omega)]

theorem restart_eq (h : Entry sp name base) (hbase : base ≠ []) :
    ∃ k last b, base.length = k + 1 ∧ base.getLast? = some last ∧ b.read k = base.dropLast ∧
      restart sp v = if last ≤ 1 then some (.ask sp { v with nameLoc := b } (b.read k)) else
        (b.write k [last - 1]).bind fun b => (b.write (k + 1) [maxSubid]).bind fun b =>
          some (.ask sp { v with nameLoc := b } (b.read (k + 2))) := by
  have hpos : 0 < base.length := length_pos_iff.mpr hbase
  have hle : base.length ≤ 128 := h.base_le
  have hmax : maxOidLen = 128 := rfl
  obtain ⟨k, hk⟩ : ∃ k, base.length = k + 1 := Nat.exists_eq_succ_of_ne_zero (by omega)
  obtain ⟨b₁, hb₁, hread₁, -⟩ := Buffer.write_spec (b := v.nameLoc) (i := 0) (x := base) (by omega)
  have hread₁ : b₁.read (k + 1) = base := by
    rw [Nat.zero_add, hk] at hread₁
    exact hread₁
  have hlast : b₁.cells[k]? = base.getLast? := by rw [← getLast?_read (by omega), hread₁]
  have hinit : b₁.read k = base.dropLast := by
    rw [dropLast_eq_take, hk, Nat.add_sub_cancel, ← hread₁, Buffer.take_read (Nat.le_succ k)]
  obtain ⟨last, hl⟩ : ∃ last, base.getLast? = some last := ⟨_, getLast?_eq_some_getLast hbase⟩
  refine ⟨k, last, b₁, hk, hl, hinit, ?_⟩
  have hk' : sp.baseLen = k + 1 := h.baseLen.trans hk
  unfold restart
  rw [h.readBase, hk', Nat.add_sub_cancel, hb₁]
  show (b₁.cells[k]?).bind _ = _
  rw [hlast, hl]
  show (if last ≤ 1 then _ else _) = _
  rfl

theorem lastBefore_of_getLast? {last : Oid} (hl : base.getLast? = some last) :
    lastBefore base = if last ≤ 1 then base.dropLast else base.dropLast ++ [last - 1, maxSubid] := by
  rw [lastBefore, hl]

theorem restart_spec (h : Entry sp name base) (hbase : base ≠ []) (hfits : (lastBefore base).length ≤ maxOidLen) :
    ∃ v', restart sp v = some (.ask sp v' (lastBefore base)) ∧ v'.value = v.value := by
  obtain ⟨k, last, b₁, hk, hl, hinit, hstep⟩ := @restart_eq sp name base v h hbase
  have hname := lastBefore_of_getLast? hl
  rw [hstep]
  by_cases hsmall : last ≤ 1
  · rw [if_pos hsmall, hname, if_pos hsmall, ← hinit]
    exact ⟨_, rfl, rfl⟩
  · have hroom : k + 2 ≤ maxOidLen := by
      rw [hname, if_neg hsmall, length_append, length_dropLast, hk] at hfits
      exact hfits
    obtain ⟨b₂, hb₂, hread₂, -⟩ := Buffer.write_spec (b := b₁) (i := k) (x := [last - 1])
      (by rw [length_singleton]; omega)
    obtain ⟨b₃, hb₃, hread₃, -⟩ := Buffer.write_spec (b := b₂) (i := k + 1) (x := [maxSubid])
      (by rw [length_singleton]; omega)
    rw [if_neg hsmall, hname, if_neg hsmall, hb₂]
    show ∃ v', (b₂.write (k + 1) [maxSubid]).bind _ = _ ∧ _
    rw [hb₃]
    refine ⟨{ v with nameLoc := b₃ }, ?_, rfl⟩
    have hread₂ : b₂.read (k + 1) = base.dropLast ++ [last - 1] := by rw [← hinit]; exact hread₂
    have hread₃ : b₃.read (k + 2) = base.dropLast ++ [last - 1] ++ [maxSubid] := by rw [← hread₂]; exact hread₃
    show some (Translated.ask sp _ (b₃.read (k + 2))) = _
    rw [hread₃, append_assoc]
    rfl

theorem translatedLength_eq (h : Entry sp name base) {k : Nat} (hk : k ≤ maxOidLen) :
    translatedLength sp k = if name.length ≤ k + base.length then k + base.length - name.length
      else 2 ^ 64 + k + base.length - name.length := by
  have hk : k ≤ 128 := hk
  have hname : name.length ≤ 128 := h.name_le
  have hbound : base.length ≤ 128 := h.base_le
  unfold translatedLength
  rw [h.nameLen, h.baseLen]
  by_cases hle : name.length ≤ k + base.length
  · rw [if_pos hle]
    omega
  · rw [if_neg hle]
    omega

theorem restarts_iff (h : Entry sp name base) :
    (sp.baseLen ≠ 0 ∧ mode = .getNext ∧ oidCompare v.name (sp.base.read sp.baseLen) = .lt) ↔
      (base ≠ [] ∧ mode = .getNext ∧ v.name < base) := by
  rw [h.readBase, oidCompare_lt, h.baseLen, Ne, length_eq_zero_iff]

theorem length_name (hlen : v.nameLength ≤ maxOidLen) : v.name.length = v.nameLength := Buffer.length_read hlen

theorem sendable_iff (h : Entry sp name base) (hlen : v.nameLength ≤ maxOidLen)
    (hr : ¬ (base ≠ [] ∧ mode = .getNext ∧ v.name < base)) (hbase : base ≠ []) :
    Sendable name base mode v.name ↔ translatedLength sp v.nameLength ≤ maxOidLen := by
  have hlen' : v.nameLength ≤ 128 := hlen
  have hname : name.length ≤ 128 := h.name_le
  have hbound : base.length ≤ 128 := h.base_le
  unfold Sendable
  rw [translatedLength_eq h hlen, length_name hlen]
  have hnot : ¬ (mode = .getNext ∧ v.name < base) := fun h' => hr ⟨hbase, h'⟩
  rw [or_iff_right hbase, or_iff_right hnot]
  by_cases hle : name.length ≤ v.nameLength + base.length
  · rw [if_pos hle]
    omega
  · rw [if_neg hle]
    show _ ↔ _ ≤ 128
    omega

theorem translate_of_sendable (h : Entry sp name base) (hlen : v.nameLength ≤ maxOidLen)
    (hs : Sendable name base mode v.name)
    (hfits : mode = .getNext → v.name < base → (lastBefore base).length ≤ maxOidLen) :
    ∃ sp' v', translate sp mode v = some (.ask sp' v' (asked name base mode v.name)) ∧ Entry sp' name base ∧
      sp'.sess = sp.sess ∧ v'.value = v.value := by
  unfold translate
  by_cases hr : base ≠ [] ∧ mode = .getNext ∧ v.name < base
  · obtain ⟨v', hv', hvalue⟩ := restart_spec (v := v) h hr.1 (hfits hr.2.1 hr.2.2)
    rw [if_pos ((restarts_iff h).mpr hr), asked, if_pos hr, hv']
    exact ⟨sp, v', rfl, h, rfl, hvalue⟩
  rw [if_neg fun h' => hr ((restarts_iff h).mp h'), asked, if_neg hr]
  by_cases hbase : base = []
  · have hzero : sp.baseLen = 0 := by rw [h.baseLen, hbase]; rfl
    rw [if_neg (by omega), if_pos hbase]
    exact ⟨sp, v, rfl, h, rfl, rfl⟩
  have hpos : 0 < sp.baseLen := by rw [h.baseLen]; exact length_pos_iff.mpr hbase
  have hfits : translatedLength sp v.nameLength ≤ 128 := (sendable_iff h hlen hr hbase).mp hs
  have hname : name.length ≤ 128 := h.name_le
  have hbound : base.length ≤ 128 := h.base_le
  have hmax : maxOidLen = 128 := rfl
  have hlen' : v.nameLength ≤ 128 := hlen
  have heq := translatedLength_eq h hlen
  rw [if_pos hpos, if_neg hbase]
  show ∃ sp' v', (if translatedLength sp v.nameLength > 128 then _ else _) = _ ∧ _
  rw [if_neg (by omega), length_name hlen]
  by_cases hlt : name.length < v.nameLength
  · rw [if_pos (by rw [h.nameLen]; exact hlt), if_pos hlt, h.nameLen]
    rw [if_pos (by omega)] at heq
    have hd : (v.name.drop name.length).length = v.nameLength - name.length := by
      rw [length_drop, length_name hlen]
    obtain ⟨b, hb, hread, hbefore⟩ := Buffer.write_spec (b := sp.base) (i := sp.baseLen)
      (x := v.name.drop name.length) (by rw [hd, h.baseLen]; omega)
    rw [hb]
    refine ⟨{ sp with base := b }, v, ?_, ⟨h.nameLen, h.readName, h.baseLen, ?_, h.name_le, h.base_le⟩, rfl, rfl⟩
    · have hl : translatedLength sp v.nameLength = sp.baseLen + (v.name.drop name.length).length := by
        rw [heq, hd, h.baseLen]
        omega
      show some (Translated.ask _ v (b.read (translatedLength sp v.nameLength))) = _
      rw [hl, hread, h.readBase, h.nameLen]
    · rw [hbefore sp.baseLen (Nat.le_refl _), h.readBase]
  · rw [if_neg (by rw [h.nameLen]; exact hlt), if_neg hlt]
    have hle : translatedLength sp v.nameLength ≤ sp.baseLen := by
      rw [h.baseLen]
      split at heq <;> omega
    have hval : translatedLength sp v.nameLength = v.nameLength + base.length - name.length := by
      split at heq <;> omega
    refine ⟨sp, v, ?_, h, rfl, rfl⟩
    rw [← Buffer.take_read hle, h.readBase, hval]

theorem translate_of_not_sendable (h : Entry sp name base) (hlen : v.nameLength ≤ maxOidLen)
    (hs : ¬ Sendable name base mode v.name) : translate sp mode v = some .tooLong := by
  have hbase : base ≠ [] := fun hnil => hs (.inl hnil)
  have hr : ¬ (base ≠ [] ∧ mode = .getNext ∧ v.name < base) := fun hr => hs (.inr (.inl hr.2))
  have hpos : 0 < sp.baseLen := by rw [h.baseLen]; exact length_pos_iff.mpr hbase
  have hlong : translatedLength sp v.nameLength > maxOidLen := by
    have := mt (sendable_iff h hlen hr hbase).mpr hs
    omega
  rw [translate, if_neg fun h' => hr ((restarts_iff h).mp h'), if_pos hpos]
  exact if_pos hlong

/-! ## on the way back -/

theorem setVarObjid_spec (v : RequestVar) {x : ObjId} (hx : x.length ≤ maxOidLen) :
    ∃ v', setVarObjid v x = some v' ∧ v'.name = x ∧ v'.value = v.value := by
  obtain ⟨b, hb, hread, -⟩ := Buffer.write_spec (b := v.nameLoc) (i := 0) (x := x) (by omega)
  refine ⟨{ v with nameLoc := b, nameLength := x.length }, ?_, ?_, rfl⟩
  · rw [setVarObjid, hb]
    rfl
  · rw [Nat.zero_add] at hread
    exact hread

theorem outOfRange_iff {b : OidBuffer} {k : Nat} {y x : ObjId} (hy : b.read k = y) (hk : k = y.length) :
    outOfRange b k x = true ↔ ¬ y <+: x := by
  unfold outOfRange
  rw [hy, Bool.or_eq_true, decide_eq_true_eq, decide_eq_true_eq, Ne, oidCompare_eq, hk, prefix_iff_eq_take]
  constructor
  · rintro (hlt | hne) heq
    · have := congrArg List.length heq
      rw [length_take] at this
      omega
    · exact hne heq.symm
  · exact fun hne => .inr fun heq => hne heq.symm

theorem rewriteBack_spec (h : Entry sp name base) {x : ObjId} (hpre : base <+: x) : rewriteBack stack sp x =
      some (if (name ++ x.drop base.length).length ≤ maxOidLen then some (name ++ x.drop base.length) else none) := by
  have hle : base.length ≤ x.length := hpre.length_le
  have hname : name.length ≤ 128 := h.name_le
  obtain ⟨b₁, hb₁, hread₁, -⟩ := Buffer.write_spec (b := stack) (i := 0) (x := name) (by show _ ≤ 128; omega)
  have hread₁ : b₁.read name.length = name := by
    rw [Nat.zero_add] at hread₁
    exact hread₁
  have hlen : (name ++ x.drop base.length).length = name.length + x.length - base.length := by
    rw [length_append, length_drop]
    omega
  unfold rewriteBack
  rw [h.readName, hb₁, hlen, h.nameLen, h.baseLen]
  show (if name.length + x.length - base.length > maxOidLen then _ else _) = _
  by_cases hlong : name.length + x.length - base.length ≤ maxOidLen
  · rw [if_neg (by omega), if_pos hlong]
    by_cases hlt : base.length < x.length
    · rw [if_pos hlt]
      have hd : (x.drop base.length).length = x.length - base.length := length_drop
      obtain ⟨b₂, hb₂, hread₂, -⟩ := Buffer.write_spec (b := b₁) (i := name.length) (x := x.drop base.length)
        (by rw [hd]; omega)
      rw [hb₂]
      show some (some (b₂.read (name.length + x.length - base.length))) = _
      rw [Nat.add_sub_assoc hle, ← hd, hread₂, hread₁]
    · have heq : x.length = base.length := by omega
      rw [if_neg hlt, heq, Nat.add_sub_cancel, hread₁, ← heq, drop_length, append_nil]
      rfl
  · rw [if_pos (by omega), if_neg hlong]
    rfl

end Priot.Proxy
