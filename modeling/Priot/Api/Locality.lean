/-
# What `Api_pduParse` reads outside the message

Behind the message lies what earlier packets left in the buffer. Where the decoder looks past the end and does not
reject is collected in `staleHeader`, `staleSign` and the type octet of a varbind that ends with its name; `stalePdu`
says when a message reaches one of them.
-/
import Priot.Api.Decode
import Priot.Asn01.Local

namespace Priot.Api

open Asn01
open Stream' (AgreeOn)

variable {m₁ m₂ : Mem} {a dl length : Nat}

/-! ## the fields -/

/-- Two cursors at the same place of two buffers that agree on the message; `slack` octets of it lie
behind the PDU. -/
structure Cursor.Agree (m₁ m₂ : Mem) (n slack : Nat) (c d : Cursor) : Prop where
  pdu : c.pdu = d.pdu
  length : c.length = d.length
  message : AgreeOn n m₁ m₂
  place : ∃ j, c.data = m₁.drop j ∧ d.data = m₂.drop j ∧ j + c.length + slack = n

/-- The same outcome of a decoding step. -/
inductive AgreeOut (m₁ m₂ : Mem) (n slack : Nat) :
    Except (Pdu ParsedVar) Cursor → Except (Pdu ParsedVar) Cursor → Prop
  | error (p : Pdu ParsedVar) : AgreeOut m₁ m₂ n slack (.error p) (.error p)
  | ok {c d : Cursor} : c.Agree m₁ m₂ n slack d → AgreeOut m₁ m₂ n slack (.ok c) (.ok d)

variable {n slack : Nat} {c d : Cursor}

theorem Cursor.Agree.data (h : c.Agree m₁ m₂ n slack d) : AgreeOn (c.length + slack) c.data d.data := by
  obtain ⟨j, h₁, h₂, hj⟩ := h.place
  rw [h₁, h₂]
  exact (h.message.drop j).mono (by omega)

theorem AgreeOut.bind {x y : Except (Pdu ParsedVar) Cursor}
    {f g : Cursor → Except (Pdu ParsedVar) Cursor} (h : AgreeOut m₁ m₂ n slack x y)
    (hf : ∀ {c d : Cursor}, c.Agree m₁ m₂ n slack d → AgreeOut m₁ m₂ n slack (f c) (g d)) :
    AgreeOut m₁ m₂ n slack (x >>= f) (y >>= g) := by
  cases h with
  | error p => exact .error p
  | ok hc => exact hf hc

theorem Cursor.Agree.field {α : Type} {parse : Mem → Nat → ParseOut α} (h : c.Agree m₁ m₂ n slack d)
    (hp : LocalResult parse) (store : Pdu ParsedVar → α → Pdu ParsedVar) :
    AgreeOut m₁ m₂ n slack (c.field parse store) (d.field parse store) := by
  have hres := hp.agree (h.data.mono (Nat.le_add_right c.length slack))
  unfold Cursor.field
  rw [← h.length, ← h.pdu, ← hres]
  cases hr : (parse c.data c.length).result with
  | none => exact .error c.pdu
  | some r =>
    have hused := hp.used_add hr
    apply AgreeOut.ok
    obtain ⟨j, h₁, h₂, hj⟩ := h.place
    refine ⟨rfl, rfl, h.message, j + r.used, ?_, ?_, ?_⟩
    · rw [h₁, Stream'.drop_drop]
    · rw [h₂, Stream'.drop_drop]
    · show j + r.used + r.datalength + slack = n
      omega

/-- The enterprise is decoded before its length is stored, so the decoder's output is already there. -/
theorem Cursor.Agree.enterprise (h : c.Agree m₁ m₂ n slack d) (store : Pdu ParsedVar → ObjId → Pdu ParsedVar) :
    AgreeOut m₁ m₂ n slack
      (Cursor.field { c with pdu := { c.pdu with
          enterpriseLength := (parseObjid c.data c.length TYPES_MAX_OID_LEN).2 } }
        (fun _ _ => (parseObjid c.data c.length TYPES_MAX_OID_LEN).1) store)
      (Cursor.field { d with pdu := { d.pdu with
          enterpriseLength := (parseObjid d.data d.length TYPES_MAX_OID_LEN).2 } }
        (fun _ _ => (parseObjid d.data d.length TYPES_MAX_OID_LEN).1) store) := by
  have hlen := parseObjid_length_agree (h.data.mono (Nat.le_add_right c.length slack))
    TYPES_MAX_OID_LEN
  have h' : Cursor.Agree m₁ m₂ n slack
      { c with pdu := { c.pdu with
        enterpriseLength := (parseObjid c.data c.length TYPES_MAX_OID_LEN).2 } }
      { d with pdu := { d.pdu with
        enterpriseLength := (parseObjid d.data d.length TYPES_MAX_OID_LEN).2 } } := by
    refine ⟨?_, h.length, h.message, h.place⟩
    simp only [h.pdu, ← h.length, hlen]
  exact h'.field (localResult_parseObjid TYPES_MAX_OID_LEN) store

theorem parseTrapFields_agree (h : c.Agree m₁ m₂ n slack d) :
    AgreeOut m₁ m₂ n slack (parseTrapFields c) (parseTrapFields d) := by
  unfold parseTrapFields
  apply (h.enterprise fun p o => { p with enterprise := o }).bind
  intro c d h
  apply (h.field (localResult_parseString 4) _).bind
  intro c d h
  apply (h.field localResult_parseInt _).bind
  intro c d h
  apply (h.field localResult_parseInt _).bind
  intro c d h
  exact h.field localResult_parseUnsignedInt _

theorem parseRequestFields_agree (h : c.Agree m₁ m₂ n slack d) :
    AgreeOut m₁ m₂ n slack (parseRequestFields c) (parseRequestFields d) := by
  unfold parseRequestFields
  apply (h.field localResult_parseInt _).bind
  intro c d h
  apply (h.field localResult_parseInt _).bind
  intro c d h
  exact h.field localResult_parseInt _

theorem parseFields_agree (h : c.Agree m₁ m₂ n slack d) : AgreeOut m₁ m₂ n slack (parseFields c) (parseFields d) := by
  unfold parseFields
  rw [← h.pdu]
  split
  · exact parseTrapFields_agree h
  · split
    · split
      · apply parseRequestFields_agree
        refine ⟨?_, h.length, h.message, h.place⟩
        simp only [h.pdu]
      · exact parseRequestFields_agree h
    · exact .error c.pdu

/-! ## one varbind -/

/-- What the decoder reads of a value outside the `a` octets of the message that are left: its type
octet when there are none, the special tags, the sign of a 64-bit value without octets. -/
def staleValue (value : Mem) (datalength a : Nat) : Bool :=
  a == 0 || staleHeader value datalength a || staleSign value datalength a

/-- The value of the varbind is reached, and with it one of these octets. -/
def staleVarBind (data : Mem) (length a : Nat) : Bool :=
  match parseSequence data length asnSEQUENCE_CONSTRUCTOR with
  | none => false
  | some (varOpLen, start) =>
    match (parseObjid (data.drop start) varOpLen TYPES_MAX_OID_LEN).1.result with
    | none => false
    | some name =>
      let varVal := start + name.used
      staleValue (data.drop varVal) name.datalength (a - varVal)

theorem parseVarValue_agree {t : UInt8} {n k : Nat} (hm : AgreeOn a m₁ m₂) (hdl : dl ≤ a)
    (hmax : dl ≤ MAX_PACKET_LENGTH) (hs : staleSign m₁ dl a = false) (h : parseHeader m₁ dl = ⟨some t, some (n, k)⟩) :
    parseVarValue t n m₁ = parseVarValue t n m₂ := by
  have hdlm := hm.mono hdl
  rcases parseHeader_eq_special h with ⟨rfl, hlen⟩ | ⟨hop, hspecial, n₀, k₀, hlen₀, htag, rfl, hlen⟩
  · -- an ordinary value
    have hstring : parseStringValue m₁.head n m₁ = parseStringValue m₁.head n m₂ := by
      unfold parseStringValue
      rw [parseString_agree hdlm hmax hlen]
    by_cases hop : m₁.head = asnOPAQUE
    · rw [hop] at hstring ⊢
      exact hstring
    · unfold parseVarValue
      simp only [parseInt_agree hdlm hmax hlen, parseUnsignedInt_agree hdlm hmax hlen,
        parseUnsignedInt64_agree hdlm hmax hlen hop, parseSignedInt64_agree hdlm hmax hlen hop,
        parseFloat, parseDouble, parseFloating_agree hdlm hmax _ _ _ hlen hop, hstring,
        parseObjid_agree hdlm hmax hlen, parseBitstring_agree hdlm hmax hlen]
  · -- a value inside an Opaque
    have hunsigned := parseUnsignedInt64_agree_special hdlm hmax hlen₀ hlen
    have hsigned := parseSignedInt64_agree_special hm hdl hmax hlen₀ hlen hs
    have hfloating := parseFloating_agree_special hdlm hmax hlen₀ hlen
    generalize m₁.get (k₀ + 1) = t at hspecial ⊢
    rcases isOpaqueSpecial_iff.mp hspecial with rfl | rfl | rfl | rfl | rfl
    · exact congrArg (fun out => ValueOut.ofParse out 8 fun t v =>
        VarValue.unsigned64 (unsigned64TypeOf t) v.1 v.2 8) hunsigned
    · exact congrArg (fun out => ValueOut.ofParse out 8 fun t v =>
        VarValue.unsigned64 (unsigned64TypeOf t) v.1 v.2 8) hunsigned
    · rw [parseVarValue_float, parseVarValue_float, parseFloat, parseFloat, hfloating]
    · rw [parseVarValue_double, parseVarValue_double, parseDouble, parseDouble, hfloating]
    · rw [parseVarValue_signed64, parseVarValue_signed64, hsigned]

/-- The rest of a round once the name is decoded: the header of the value, `datalength` octets of
which are left in the varbind, and the value. -/
def parseVarBindValue (name : ObjId) (nameLength varVal length : Nat) (value : Mem)
    (datalength : Nat) : ParsedVar × Option (Nat × Nat) :=
  let header := parseHeader value datalength
  match header.result with
  | none => (⟨none, nameLength, header.type, none, none⟩, none)
  | some (valLength, k) =>
    let v := parseVarValue (header.type.getD 0) valLength value
    (⟨some name, nameLength, some v.type, some v.valueLength, v.value⟩,
      if v.failed then none else some (varVal + k + valLength, length - (varVal + k + valLength)))

theorem parseVarBind_eq {data : Mem} {varOpLen start : Nat} {name : Parsed ObjId}
    (hseq : parseSequence data length asnSEQUENCE_CONSTRUCTOR = some (varOpLen, start))
    (hname : (parseObjid (data.drop start) varOpLen TYPES_MAX_OID_LEN).1.result = some name) :
    parseVarBind data length = parseVarBindValue name.value (parseObjid (data.drop start) varOpLen TYPES_MAX_OID_LEN).2
        (start + name.used) length (data.drop (start + name.used)) name.datalength := by
  simp only [parseVarBind, parseVarOp, hseq, hname, parseVarBindValue]
  cases (parseHeader (data.drop (start + name.used)) name.datalength).result with
  | none => rfl
  | some r => rfl

theorem parseVarBindValue_agree {name : ObjId} {nameLength varVal : Nat} (hm : AgreeOn a m₁ m₂)
    (hdl : dl ≤ a) (hmax : dl ≤ MAX_PACKET_LENGTH) (hs : staleValue m₁ dl a = false) :
    parseVarBindValue name nameLength varVal length m₁ dl = parseVarBindValue name nameLength varVal length m₂ dl := by
  simp only [staleValue, Bool.or_eq_false_iff, beq_eq_false_iff_ne] at hs
  obtain ⟨⟨ha, hheader⟩, hsign⟩ := hs
  have hagree := parseHeader_agree hm hdl (by omega) hheader
  simp only [parseVarBindValue, ← hagree]
  rcases h : parseHeader m₁ dl with ⟨type, _ | ⟨n, k⟩⟩
  · rfl
  · obtain ⟨t, rfl⟩ := parseHeader_type_of_result h
    have hvalue := parseVarValue_agree hm hdl hmax hsign h
    simp only [Option.getD_some, hvalue]

theorem parseVarBind_agree (hm : AgreeOn a m₁ m₂) (hl : length ≤ a)
    (hs : staleVarBind m₁ length a = false) : parseVarBind m₁ length = parseVarBind m₂ length := by
  have hseq := parseSequence_agree (hm.mono hl)
  unfold staleVarBind at hs
  cases hopen : parseSequence m₁ length asnSEQUENCE_CONSTRUCTOR with
  | none =>
    rw [hopen] at hseq
    simp only [parseVarBind, parseVarOp, hopen, ← hseq]
  | some r =>
    obtain ⟨varOpLen, start⟩ := r
    rw [hopen] at hseq
    obtain ⟨-, hopenLength⟩ := parseSequence_eq_some.mp hopen
    have hbounds := parseLengthAt_bounds hopenLength
    obtain ⟨-, -, -, -, hopenMax, -⟩ := parseLengthAt_eq_some hopenLength
    have hwindow : AgreeOn varOpLen (m₁.drop start) (m₂.drop start) :=
      (hm.drop start).mono (by omega)
    have hobjid := (localResult_parseObjid TYPES_MAX_OID_LEN).agree hwindow
    have hlength := parseObjid_length_agree hwindow TYPES_MAX_OID_LEN
    cases hname : (parseObjid (m₁.drop start) varOpLen TYPES_MAX_OID_LEN).1.result with
    | none =>
      rw [hname] at hobjid
      simp only [parseVarBind, parseVarOp, hopen, ← hseq, hname, ← hobjid, hlength]
    | some name =>
      rw [hname] at hobjid
      simp only [hopen, hname] at hs
      have hused := (localResult_parseObjid TYPES_MAX_OID_LEN).used_add hname
      rw [parseVarBind_eq hopen hname, parseVarBind_eq hseq.symm hobjid.symm, hlength]
      apply parseVarBindValue_agree (hm.drop (start + name.used)) (by omega) _ hs
      rw [MAX_PACKET_LENGTH]
      omega

/-! ## the varbind list and the PDU -/

/-- One of the varbinds reached is stale. -/
def staleVarBinds : Nat → Mem → Nat → Nat → Bool
  | 0, _, _, _ => false
  | fuel + 1, data, length, a =>
    if length = 0 then false
    else staleVarBind data length a ||
      match parseVarBind data length with
      | (_, none) => false
      | (_, some (used, length)) => staleVarBinds fuel (data.drop used) length (a - used)

theorem parseVarBind_used {data : Mem} {vp : ParsedVar} {used length' : Nat}
    (h : parseVarBind data length = (vp, some (used, length'))) : used + length' = length := by
  cases hopen : parseSequence data length asnSEQUENCE_CONSTRUCTOR with
  | none =>
    simp only [parseVarBind, parseVarOp, hopen, Prod.mk.injEq, reduceCtorEq, and_false] at h
  | some r =>
    obtain ⟨varOpLen, start⟩ := r
    have hbounds := parseLengthAt_bounds (parseSequence_eq_some.mp hopen).2
    cases hname : (parseObjid (data.drop start) varOpLen TYPES_MAX_OID_LEN).1.result with
    | none =>
      simp only [parseVarBind, parseVarOp, hopen, hname, Prod.mk.injEq, reduceCtorEq, and_false] at h
    | some name =>
      have hused := (localResult_parseObjid TYPES_MAX_OID_LEN).used_add hname
      rw [parseVarBind_eq hopen hname] at h
      simp only [parseVarBindValue] at h
      rcases hheader : parseHeader (data.drop (start + name.used)) name.datalength with
        ⟨type, _ | ⟨n, k⟩⟩
      · simp only [hheader, Prod.mk.injEq, reduceCtorEq, and_false] at h
      · have hvalue := parseHeader_bounds hheader
        simp only [hheader, Prod.mk.injEq] at h
        obtain ⟨-, h⟩ := h
        split at h
        · cases h
        · simp only [Option.some.injEq, Prod.mk.injEq] at h
          omega

theorem parseVarBinds_agree {fuel : Nat} {badtype : Int} (hm : AgreeOn a m₁ m₂) (hl : length ≤ a)
    (hs : staleVarBinds fuel m₁ length a = false) :
    parseVarBinds fuel m₁ length badtype = parseVarBinds fuel m₂ length badtype := by
  induction fuel generalizing m₁ m₂ length a badtype with
  | zero => rfl
  | succ fuel ih =>
    unfold staleVarBinds at hs
    unfold parseVarBinds
    split
    · rfl
    · next hpos =>
      rw [if_neg hpos, Bool.or_eq_false_iff] at hs
      rw [← parseVarBind_agree hm hl hs.1]
      rcases h : parseVarBind m₁ length with ⟨vp, _ | ⟨used, length'⟩⟩
      · rfl
      · have hused := parseVarBind_used h
        have htail := hs.2
        simp only [h] at htail ⊢
        rw [ih (hm.drop used) (by omega) htail]

/-- `pdu->command` and the flag cleared, once the header is accepted. -/
def storeCommand (pdu : Pdu ParsedVar) (tag : UInt8) : Pdu ParsedVar :=
  { pdu with
    command := tag.toNat
    flags := pdu.flags &&& ~~~PRIOT_UCD_MSG_FLAG_RESPONSE_PDU }

/-- `Api_pduParse` up to the first varbind: the decoder there, and the octets of the message that
are left. -/
def parsePduHead (pdu : Pdu ParsedVar) (data : Mem) (length : Nat) :
    Except (Pdu ParsedVar) (Cursor × Nat) :=
  let header := parseHeader data length
  match header.result with
  | none => .error pdu
  | some (len, k) =>
    match parseFields ⟨storeCommand pdu (header.type.getD 0), data.drop k, len⟩ with
    | .error pdu => .error pdu
    | .ok c =>
      match parseSequence c.data c.length asnSEQUENCE_CONSTRUCTOR with
      | none => .error c.pdu
      | some (len', k') =>
        .ok (⟨c.pdu, c.data.drop k', len'⟩, c.length + (length - (k + len)) - k')

theorem pduParse_eq (pdu : Pdu ParsedVar) (data : Mem) (length : Nat) :
    pduParse pdu data length =
      match parsePduHead pdu data length with
      | .error pdu => (-1, pdu)
      | .ok (c, _) =>
        match parseVarBinds c.length c.data c.length 0 with
        | (rc, []) => (rc, c.pdu)
        | (rc, vars) => (rc, { c.pdu with vars := vars }) := by
  unfold pduParse parsePduHead
  simp only [storeCommand]
  cases (parseHeader data length).result with
  | none => rfl
  | some r =>
    simp only []
    cases parseFields _ with
    | error p => rfl
    | ok c =>
      simp only []
      cases parseSequence c.data c.length asnSEQUENCE_CONSTRUCTOR with
      | none => rfl
      | some r => rfl

theorem parsePduHead_agree (pdu : Pdu ParsedVar) (hm : AgreeOn length m₁ m₂)
    (hs : staleHeader m₁ length length = false) :
    (∃ p, parsePduHead pdu m₁ length = .error p ∧ parsePduHead pdu m₂ length = .error p) ∨
      ∃ c d a, parsePduHead pdu m₁ length = .ok (c, a) ∧ parsePduHead pdu m₂ length = .ok (d, a) ∧
        c.pdu = d.pdu ∧ c.length = d.length ∧ c.length ≤ a ∧
        ∃ j, c.data = m₁.drop j ∧ d.data = m₂.drop j ∧ j + a = length := by
  have hheader : parseHeader m₁ length = parseHeader m₂ length ∨
      ((parseHeader m₁ length).result = none ∧ (parseHeader m₂ length).result = none) := by
    rcases Nat.eq_zero_or_pos length with rfl | hpos
    · rw [parseHeader_zero, parseHeader_zero]
      exact Or.inr ⟨rfl, rfl⟩
    · exact Or.inl (parseHeader_agree hm le_rfl hpos hs)
  unfold parsePduHead
  rcases hheader with hheader | ⟨h₁, h₂⟩
  · rw [← hheader]
    rcases h : parseHeader m₁ length with ⟨type, _ | ⟨len, k⟩⟩
    · exact Or.inl ⟨pdu, rfl, rfl⟩
    · have hbounds := parseHeader_bounds h
      simp only []
      have hc : Cursor.Agree m₁ m₂ length (length - (k + len))
          ⟨storeCommand pdu (type.getD 0), m₁.drop k, len⟩
          ⟨storeCommand pdu (type.getD 0), m₂.drop k, len⟩ :=
        ⟨rfl, rfl, hm, k, rfl, rfl, by show k + len + _ = _; omega⟩
      have hfields := parseFields_agree hc
      generalize parseFields _ = x at hfields ⊢
      generalize parseFields _ = y at hfields ⊢
      cases hfields with
      | error p => exact Or.inl ⟨p, rfl, rfl⟩
      | @ok c d hcd =>
        simp only []
        rw [← hcd.pdu, ← hcd.length,
          ← parseSequence_agree (hcd.data.mono (Nat.le_add_right c.length _))]
        cases hseq : parseSequence c.data c.length asnSEQUENCE_CONSTRUCTOR with
        | none => exact Or.inl ⟨c.pdu, rfl, rfl⟩
        | some r =>
          have hbounds := parseLengthAt_bounds (k := r.2) (n := r.1) (parseSequence_eq_some.mp hseq).2
          obtain ⟨j, hj₁, hj₂, hj⟩ := hcd.place
          refine Or.inr ⟨_, _, _, rfl, rfl, rfl, rfl, ?_, j + r.2, ?_, ?_, ?_⟩
          · show r.1 ≤ _
            omega
          · rw [hj₁, Stream'.drop_drop]
          · rw [hj₂, Stream'.drop_drop]
          · omega
  · simp only [h₁, h₂]
    exact Or.inl ⟨pdu, rfl, rfl⟩

/-- A message reaches an octet outside itself. The first case is a PDU tag that is an Opaque's: it is
refused in any case, but as a special Opaque only before the command is stored. -/
def stalePdu (pdu : Pdu ParsedVar) (data : Mem) (length : Nat) : Bool :=
  (staleHeader data length length &&
      (pdu.command != asnOPAQUE.toNat ||
        pdu.flags &&& ~~~PRIOT_UCD_MSG_FLAG_RESPONSE_PDU != pdu.flags)) ||
    match parsePduHead pdu data length with
    | .error _ => false
    | .ok (c, a) => staleVarBinds c.length c.data c.length a

theorem pduParse_of_opaqueTag {m : Mem} {n k : Nat} (pdu : Pdu ParsedVar)
    (h : parseHeader m length = ⟨some asnOPAQUE, some (n, k)⟩) :
    parsePduHead pdu m length = .error (storeCommand pdu asnOPAQUE) := by
  simp only [parsePduHead, h]
  rfl

theorem parsePduHead_staleHeader (pdu : Pdu ParsedVar) (hs : staleHeader m₁ length length = true) :
    parsePduHead pdu m₁ length = .error pdu ∨ parsePduHead pdu m₁ length = .error (storeCommand pdu asnOPAQUE) := by
  obtain ⟨hop, n, k, hlen, hk⟩ := staleHeader_iff.mp hs
  have hheader := parseHeader_of_opaqueTag hop hlen
  split at hheader
  · rw [parseLengthAt_eq_none (by omega)] at hheader
    left
    simp only [parsePduHead, hheader]
  · right
    exact pduParse_of_opaqueTag pdu hheader

theorem pduParse_agree (pdu : Pdu ParsedVar) (hm : AgreeOn length m₁ m₂) (hs : stalePdu pdu m₁ length = false) :
    pduParse pdu m₁ length = pduParse pdu m₂ length := by
  unfold stalePdu at hs
  rw [Bool.or_eq_false_iff] at hs
  obtain ⟨hheader, hvars⟩ := hs
  rw [pduParse_eq, pduParse_eq]
  cases hsh : staleHeader m₁ length length with
  | false =>
    rcases parsePduHead_agree pdu hm hsh with
      ⟨p, h₁, h₂⟩ | ⟨c, d, a, h₁, h₂, hpdu, hlen, hle, j, hj₁, hj₂, hj⟩
    · rw [h₁, h₂]
    · have hcd : AgreeOn a c.data d.data := by
        rw [hj₁, hj₂]
        exact (hm.drop j).mono (by omega)
      rw [h₁] at hvars ⊢
      rw [h₂]
      simp only []
      rw [← hpdu, ← hlen, ← parseVarBinds_agree hcd hle hvars]
  | true =>
    -- the PDU has the Opaque's tag already, so storing it changes nothing
    rw [hsh, Bool.true_and, Bool.or_eq_false_iff, bne_eq_false_iff_eq, bne_eq_false_iff_eq] at hheader
    have hsame : storeCommand pdu asnOPAQUE = pdu := by
      rw [storeCommand, hheader.2, ← hheader.1]
    have hsh₂ := staleHeader_agree hm le_rfl hsh
    have h₁ := parsePduHead_staleHeader pdu hsh
    have h₂ := parsePduHead_staleHeader pdu hsh₂
    rw [hsame, or_self] at h₁ h₂
    rw [h₁, h₂]

/-! ## each of these octets matters -/

theorem parseVarBindValue_ne (name : ObjId) (nameLength varVal length : Nat) (hdl : dl ≤ a)
    (hmax : dl ≤ MAX_PACKET_LENGTH) (hzero : m₁.get a = 0) (hs : staleValue m₁ dl a = true) :
    ∃ x, ∀ m₂, AgreeOn a m₁ m₂ → m₂.get a = x → m₂.get (a + 1) = asnOPAQUE_COUNTER64 →
      (parseVarBindValue name nameLength varVal length m₁ dl).1 ≠
        (parseVarBindValue name nameLength varVal length m₂ dl).1 := by
  simp only [staleValue, Bool.or_eq_true, beq_iff_eq] at hs
  rcases hs with (rfl | hheader) | hsign
  · -- the type octet
    obtain rfl : dl = 0 := by omega
    refine ⟨asnOPAQUE_COUNTER64, fun m₂ _ hx _ heq => ?_⟩
    have hhead₁ : m₁.head = 0 := hzero
    have hhead₂ : m₂.head = asnOPAQUE_COUNTER64 := hx
    have htype := congrArg ParsedVar.type heq
    simp only [parseVarBindValue, parseHeader_zero, hhead₁, hhead₂] at htype
    revert htype
    decide
  · -- the special tags
    obtain ⟨-, n, k, -, h₁⟩ := parseHeader_stale_plain hheader (by rw [hzero]; decide)
      (by rw [hzero]; decide)
    obtain ⟨x, hx⟩ := parseHeader_stale hdl hheader
    refine ⟨x, fun m₂ hm hget htag heq => ?_⟩
    have h₂ := hx m₂ hm hget htag
    have hname := congrArg ParsedVar.name heq
    simp only [parseVarBindValue, h₁, h₂] at hname
    cases hname
  · -- the sign
    refine ⟨0x80, fun m₂ hm hget _ heq => ?_⟩
    have hsign₂ := staleSign_agree hm hdl hsign
    have hvalue := congrArg ParsedVar.value heq
    simp only [parseVarBindValue, parseHeader_staleSign hsign, parseHeader_staleSign hsign₂,
      Option.getD_some, parseVarValue_signed64, parseSignedInt64_stale hmax hsign,
      parseSignedInt64_stale hmax hsign₂, ValueOut.ofParse, hzero, hget] at hvalue
    revert hvalue
    decide

theorem parseVarBind_ne (hl : length ≤ a) (hzero : m₁.get a = 0) (hs : staleVarBind m₁ length a = true) :
    ∃ x, ∀ m₂, AgreeOn a m₁ m₂ → m₂.get a = x → m₂.get (a + 1) = asnOPAQUE_COUNTER64 →
      (parseVarBind m₁ length).1 ≠ (parseVarBind m₂ length).1 := by
  unfold staleVarBind at hs
  cases hopen : parseSequence m₁ length asnSEQUENCE_CONSTRUCTOR with
  | none =>
    rw [hopen] at hs
    cases hs
  | some r =>
    obtain ⟨varOpLen, start⟩ := r
    obtain ⟨-, hopenLength⟩ := parseSequence_eq_some.mp hopen
    have hbounds := parseLengthAt_bounds hopenLength
    obtain ⟨-, -, -, -, hopenMax, -⟩ := parseLengthAt_eq_some hopenLength
    simp only [hopen] at hs
    cases hname : (parseObjid (m₁.drop start) varOpLen TYPES_MAX_OID_LEN).1.result with
    | none =>
      rw [hname] at hs
      cases hs
    | some name =>
      simp only [hname] at hs
      have hused := (localResult_parseObjid TYPES_MAX_OID_LEN).used_add hname
      have hget : (m₁.drop (start + name.used)).get (a - (start + name.used)) = 0 := by
        rw [Stream'.get_drop, Nat.add_sub_cancel' (by omega), hzero]
      obtain ⟨x, hx⟩ := parseVarBindValue_ne name.value
        (parseObjid (m₁.drop start) varOpLen TYPES_MAX_OID_LEN).2 (start + name.used) length
        (by omega) (by rw [MAX_PACKET_LENGTH]; omega) hget hs
      refine ⟨x, fun m₂ hm hgetx htag => ?_⟩
      have hseq := parseSequence_agree (hm.mono hl)
      rw [hopen] at hseq
      have hwindow : AgreeOn varOpLen (m₁.drop start) (m₂.drop start) :=
        (hm.drop start).mono (by omega)
      have hobjid := (localResult_parseObjid TYPES_MAX_OID_LEN).agree hwindow
      rw [hname] at hobjid
      rw [parseVarBind_eq hopen hname, parseVarBind_eq hseq.symm hobjid.symm,
        ← parseObjid_length_agree hwindow TYPES_MAX_OID_LEN]
      apply hx _ (hm.drop _)
      · rw [Stream'.get_drop, Nat.add_sub_cancel' (by omega), hgetx]
      · rw [Stream'.get_drop, ← Nat.add_assoc, Nat.add_sub_cancel' (by omega), htag]

theorem parseVarBinds_head (fuel : Nat) (data : Mem) (badtype : Int) (hpos : ¬ length = 0) :
    (parseVarBinds (fuel + 1) data length badtype).2.head? = some (parseVarBind data length).1 := by
  unfold parseVarBinds
  rw [if_neg hpos]
  rcases parseVarBind data length with ⟨vp, _ | ⟨used, length'⟩⟩
  · rfl
  · rfl

theorem parseVarBinds_ne {fuel : Nat} (hl : length ≤ a) (hzero : m₁.get a = 0)
    (hs : staleVarBinds fuel m₁ length a = true) :
    ∃ x, ∀ m₂, AgreeOn a m₁ m₂ → m₂.get a = x → m₂.get (a + 1) = asnOPAQUE_COUNTER64 →
      ∀ badtype, (parseVarBinds fuel m₁ length badtype).2 ≠ (parseVarBinds fuel m₂ length badtype).2 := by
  induction fuel generalizing m₁ length a with
  | zero => cases hs
  | succ fuel ih =>
    unfold staleVarBinds at hs
    split at hs
    · cases hs
    · next hpos =>
      cases hstale : staleVarBind m₁ length a with
      | true =>
        obtain ⟨x, hx⟩ := parseVarBind_ne hl hzero hstale
        refine ⟨x, fun m₂ hm hget htag badtype heq => hx m₂ hm hget htag ?_⟩
        have hhead := congrArg List.head? heq
        rw [parseVarBinds_head fuel m₁ badtype hpos, parseVarBinds_head fuel m₂ badtype hpos] at hhead
        exact Option.some.inj hhead
      | false =>
        rw [hstale, Bool.false_or] at hs
        rcases hround : parseVarBind m₁ length with ⟨vp, _ | ⟨used, length'⟩⟩
        · rw [hround] at hs
          cases hs
        · have hused := parseVarBind_used hround
          simp only [hround] at hs
          have hzero' : (m₁.drop used).get (a - used) = 0 := by
            rw [Stream'.get_drop, Nat.add_sub_cancel' (by omega), hzero]
          obtain ⟨x, hx⟩ := ih (by omega) hzero' hs
          refine ⟨x, fun m₂ hm hget htag badtype heq => ?_⟩
          have hround₂ := parseVarBind_agree hm hl hstale
          rw [hround] at hround₂
          refine hx (m₂.drop used) (hm.drop used) ?_ ?_ (if ParsedVar.isBadType vp then -1 else badtype) ?_
          · rw [Stream'.get_drop, Nat.add_sub_cancel' (by omega), hget]
          · rw [Stream'.get_drop, ← Nat.add_assoc, Nat.add_sub_cancel' (by omega), htag]
          · simp only [parseVarBinds, if_neg hpos, hround, ← hround₂, List.cons.injEq,
              true_and] at heq
            exact heq

theorem parseVarBinds_ne_nil {data : Mem} {badtype : Int} (hpos : length ≠ 0) :
    (parseVarBinds length data length badtype).2 ≠ [] := by
  obtain ⟨fuel, rfl⟩ := Nat.exists_eq_succ_of_ne_zero hpos
  intro hnil
  have hhead := parseVarBinds_head fuel data badtype hpos
  rw [hnil] at hhead
  cases hhead

theorem staleVarBinds_pos {data : Mem} (h : staleVarBinds length data length a = true) : length ≠ 0 := by
  rintro rfl
  cases h

theorem linkVars_vars {p : Pdu ParsedVar} {r : Int × List ParsedVar} (h : r.2 ≠ []) :
    (match r with
      | (rc, []) => (rc, p)
      | (rc, vars) => (rc, { p with vars := vars })).2.vars = r.2 := by
  obtain ⟨rc, _ | ⟨vp, vars⟩⟩ := r
  · contradiction
  · rfl

theorem pduParse_ne (pdu : Pdu ParsedVar) (hzero : m₁.get length = 0) (hs : stalePdu pdu m₁ length = true) :
    ∃ x, ∀ m₂, AgreeOn length m₁ m₂ → m₂.get length = x →
      m₂.get (length + 1) = asnOPAQUE_COUNTER64 → pduParse pdu m₁ length ≠ pduParse pdu m₂ length := by
  unfold stalePdu at hs
  cases hsh : staleHeader m₁ length length with
  | true =>
    -- such a PDU has no varbinds
    have hvars : (match parsePduHead pdu m₁ length with
        | .error _ => false
        | .ok (c, a) => staleVarBinds c.length c.data c.length a) = false := by
      rcases parsePduHead_staleHeader pdu hsh with h | h <;> rw [h]
    rw [hvars, Bool.or_false, hsh, Bool.true_and, Bool.or_eq_true, bne_iff_ne, bne_iff_ne] at hs
    obtain ⟨-, n, k, -, h₁⟩ := parseHeader_stale_plain hsh (by rw [hzero]; decide)
      (by rw [hzero]; decide)
    obtain ⟨x, hx⟩ := parseHeader_stale le_rfl hsh
    refine ⟨x, fun m₂ hm hget htag heq => ?_⟩
    have h₂ : parsePduHead pdu m₂ length = .error pdu := by
      simp only [parsePduHead, hx m₂ hm hget htag]
    rw [pduParse_eq, pduParse_eq, pduParse_of_opaqueTag pdu h₁, h₂] at heq
    have hpdu : storeCommand pdu asnOPAQUE = pdu := congrArg Prod.snd heq
    rcases hs with hcommand | hflags
    · exact hcommand (congrArg Pdu.command hpdu).symm
    · exact hflags (congrArg Pdu.flags hpdu)
  | false =>
    rw [hsh, Bool.false_and, Bool.false_or] at hs
    cases h₁ : parsePduHead pdu m₁ length with
    | error p =>
      rw [h₁] at hs
      cases hs
    | ok r =>
      obtain ⟨c, a⟩ := r
      simp only [h₁] at hs
      rcases parsePduHead_agree pdu (AgreeOn.refl length m₁) hsh with
        ⟨p, h, -⟩ | ⟨c', -, a', h, -, -, -, hle, j, hj, -, hja⟩
      · rw [h₁] at h
        cases h
      · rw [h₁, Except.ok.injEq, Prod.mk.injEq] at h
        obtain ⟨rfl, rfl⟩ := h
        have hget : c.data.get a = 0 := by
          rw [hj, Stream'.get_drop, hja, hzero]
        obtain ⟨x, hx⟩ := parseVarBinds_ne hle hget hs
        refine ⟨x, fun m₂ hm hgetx htag heq => ?_⟩
        rcases parsePduHead_agree pdu hm hsh with
          ⟨p, h, -⟩ | ⟨c', d, a', h, h₂, hpdu, hlen, -, j', hj₁, hj₂, hja'⟩
        · rw [h₁] at h
          cases h
        · rw [h₁, Except.ok.injEq, Prod.mk.injEq] at h
          obtain ⟨rfl, rfl⟩ := h
          have hdata : AgreeOn a c.data d.data := by
            rw [hj₁, hj₂]
            exact (hm.drop j').mono (by omega)
          rw [pduParse_eq, pduParse_eq, h₁, h₂] at heq
          have hvars := congrArg (fun r => r.2.vars) heq
          simp only [linkVars_vars (parseVarBinds_ne_nil (staleVarBinds_pos hs)),
            linkVars_vars (parseVarBinds_ne_nil (hlen ▸ staleVarBinds_pos hs))] at hvars
          rw [← hlen] at hvars
          refine hx d.data hdata ?_ ?_ 0 hvars
          · rw [hj₂, Stream'.get_drop, hja', hgetx]
          · rw [hj₂, Stream'.get_drop, ← Nat.add_assoc, hja', htag]

/-! ## independence of what lies behind the message -/

/-- The octets of a message, and zeros behind them. -/
def padded (b : List UInt8) : Mem := b ++ₛ Stream'.const 0

/-- `Api_pduParse` on a message does not depend on what lies behind it in the buffer exactly when the
message reaches none of the octets that are looked at too early. -/
theorem pduParse_local_iff (pdu : Pdu ParsedVar) (b : List UInt8) :
    (∀ t₁ t₂ : Mem, pduParse pdu (b ++ₛ t₁) b.length = pduParse pdu (b ++ₛ t₂) b.length) ↔
      stalePdu pdu (padded b) b.length = false := by
  constructor
  · intro h
    by_contra hs
    rw [Bool.not_eq_false] at hs
    obtain ⟨x, hx⟩ := pduParse_ne pdu (Stream'.get_append_length b (Stream'.const 0)) hs
    exact hx (b ++ₛ Stream'.cons x (Stream'.const asnOPAQUE_COUNTER64))
      (Stream'.agreeOn_append b _ _) (Stream'.get_append_length b _)
      (Stream'.get_append_right 1 b _) (h _ _)
  · intro hs t₁ t₂
    rw [← pduParse_agree pdu (Stream'.agreeOn_append b (Stream'.const 0) t₁) hs,
      ← pduParse_agree pdu (Stream'.agreeOn_append b (Stream'.const 0) t₂) hs]

/-- A GET whose only varbind, with the name `1.3`, ends the message; `value` is its value's encoding,
of `n` octets. -/
def getMessage (n : UInt8) (value : List UInt8) : List UInt8 :=
  [0xa0, 16 + n, 0x02, 0x01, 0x01, 0x02, 0x01, 0x00, 0x02, 0x01, 0x00, 0x30, 5 + n, 0x30, 3 + n,
    0x06, 0x01, 0x2b] ++ value

/-- An empty Opaque at the end of the message is accepted or refused, and a signed 64-bit value
without octets is one value or another, as the octets behind the message say. -/
theorem pduParse_not_local :
    (let b := getMessage 2 [0x44, 0x00]
     (pduParse freshPdu (b ++ₛ Stream'.const 0) b.length).1 = 0 ∧
      (pduParse freshPdu (b ++ₛ ([0x9f, 0x76] ++ₛ Stream'.const 0)) b.length).1 = -1) ∧
    (let b := getMessage 5 [0x44, 0x03, 0x9f, 0x7a, 0x00]
     let decoded (rest : Mem) := (pduParse freshPdu (b ++ₛ rest) b.length).2.vars.map (·.value)
     decoded (Stream'.const 0) = [some (.signed64 0 0 8)] ∧
      decoded (Stream'.const 0xff) = [some (.signed64 0xffffff 0xffffffff 8)]) := by
  refine ⟨⟨?_, ?_⟩, ?_, ?_⟩ <;> decide +kernel

end Priot.Api
