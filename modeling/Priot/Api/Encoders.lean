/-
# `Api_pduBuild` and `Api_pduReallocRbuild` agree

What comes back of both encodings is the same except for object identifiers with less than two subidentifiers, `0`
alone excepted: the forward encoder takes those that are missing for zeros.
-/
import Priot.Api.BuildSpec

namespace Priot.Api

open Asn01

/-! ## the octets of the reverse encoder -/

theorem objidContent_length_le {o : ObjId} {c : List UInt8} (h : objidContent o = some c) :
    c.length ≤ 5 * o.length + 2 := by
  match o, h with
  | [], h =>
    cases h
    simp
  | [x], h =>
    simp only [objidContent, Option.ite_none_left_eq_some, Option.some.injEq] at h
    obtain ⟨-, rfl⟩ := h
    simp
  | x :: y :: rest, h =>
    simp only [objidContent, Option.ite_none_left_eq_some, Option.some.injEq] at h
    obtain ⟨-, rfl⟩ := h
    have := subidOctets_length_le ((x * 40 + y) :: rest)
    simp only [List.length_cons] at this ⊢
    omega

theorem tlv_objidContent_length_le {o : ObjId} (ho : o.length ≤ 128) {c : List UInt8}
    (h : objidContent o = some c) : (tlv asnOBJECT_ID c).length ≤ 700 := by
  have hc := objidContent_length_le h
  have hlen := tlv_length_le asnOBJECT_ID c
  omega

theorem tlv_special_length_le (tag : UInt8) {c : List UInt8} (h : c.length ≤ 9) :
    (tlv asnOPAQUE (special tag c)).length ≤ 700 := by
  have hlen := tlv_length_le asnOPAQUE (special tag c)
  rw [special_length] at hlen
  omega

variable {bs : List UInt8}

theorem wire_valueOctets {v : VarValue} (hv : BuildAccepted v) {fs : List UInt8}
    (hf : Wire (builtValue v) fs) (hfs : fs.length ≤ 0xffff)
    (h : valueOctets v = some bs) : Wire (sentValue v) bs ∧ bs.length ≤ 400 * fs.length := by
  have hge := hf.length_ge
  -- short values need no comparison with the other encoder
  have hshort : bs.length ≤ 700 → ValueAccepted v → (Encodes (sentValue v) bs → Wire (sentValue v) bs) →
      Wire (sentValue v) bs ∧ bs.length ≤ 400 * fs.length := by
    intro hlen haccepted hwire
    exact ⟨hwire (encodes_valueOctets haccepted h (by rw [MAX_PACKET_LENGTH]; omega)), by omega⟩
  cases v with
  | string t s =>
    obtain rfl : fs = tlv t.tag s := hf
    cases h
    exact ⟨rfl, by omega⟩
  | bitString s =>
    cases h
    have hlen := tlv_length_le asnBIT_STR s
    cases hf with
    | bitString htlv hne =>
      have hbounds := htlv.length_bounds
      exact ⟨.bitString (isTlv_tlv (by omega)) hne, by omega⟩
  | integer v size =>
    refine hshort ?_ trivial id
    obtain ⟨-, rfl⟩ := of_sized h
    have hlen := intContent_length_le v
    exact (tlv_length_le _ _).trans (by omega)
  | unsigned t v size =>
    refine hshort ?_ trivial id
    obtain ⟨-, rfl⟩ := of_sized h
    have hlen := (unsignedContent (checkOverflowUnsigned_lt v)).1.length_le
    exact (tlv_length_le _ _).trans (by omega)
  | unsigned64 t high low size =>
    refine hshort ?_ trivial id
    obtain ⟨-, rfl⟩ := of_sized h
    have hlen := (wordsContent_unsigned64 high low).length_le
    cases t with
    | counter64 => exact (tlv_length_le _ _).trans (by omega)
    | opaqueCounter64 => exact tlv_special_length_le _ hlen
    | opaqueU64 => exact tlv_special_length_le _ hlen
  | objectId o =>
    refine hshort ?_ hv id
    simp only [valueOctets, Option.map_eq_some_iff] at h
    obtain ⟨c, hc, rfl⟩ := h
    exact tlv_objidContent_length_le hv hc
  | null t =>
    refine hshort ?_ trivial id
    cases h
    exact (tlv_length_le _ _).trans (by simp)
  | float bits size =>
    refine hshort ?_ trivial id
    obtain ⟨-, rfl⟩ := of_sized h
    exact tlv_special_length_le _ (by rw [wordOctets_length]; norm_num)
  | double bits size =>
    refine hshort ?_ trivial id
    obtain ⟨-, rfl⟩ := of_sized h
    exact tlv_special_length_le _ (by rw [wordOctets_length]; norm_num)
  | signed64 high low size =>
    refine hshort ?_ trivial id
    obtain ⟨-, rfl⟩ := of_sized h
    exact tlv_special_length_le _ (wordsContent_signed64 high low).length_le
  | unknown t => cases hv

theorem wire_varOpOctets {vp : VariableList} (hname : vp.name.length ≤ 128)
    (hvalue : BuildAccepted vp.value) {fs : List UInt8} (hf : WireVarBind (builtVar vp) fs)
    (hfs : fs.length ≤ 0xffff) (h : varOpOctets vp = some bs) :
    WireVarBind (sentVar vp) bs ∧ bs.length ≤ 400 * fs.length := by
  obtain ⟨value, hv, name, hn, rfl⟩ := varOpOctets_eq_some h
  obtain ⟨fname, fvalue, ⟨_, _, hfname, -⟩, hfvalue, hseq⟩ := hf
  have hlen := hseq.length_bounds
  have hlenName := hfname.length_bounds
  rw [List.length_append] at hlen
  obtain ⟨hwire, hle⟩ := wire_valueOctets hvalue hfvalue (by omega) hv
  have hleName := tlv_objidContent_length_le hname hn
  have hle' := tlv_length_le asnSEQUENCE_CONSTRUCTOR (tlv asnOBJECT_ID name ++ value)
  rw [List.length_append] at hle'
  refine ⟨⟨_, _, encodesObjid_objidContent hname hn ?_, hwire, isTlv_tlv ?_⟩, by omega⟩
  · rw [MAX_PACKET_LENGTH]
    omega
  · rw [List.length_append]
    omega

theorem wire_varBindsOctets {vars : List VariableList}
    (hvars : ∀ vp ∈ vars, vp.name.length ≤ 128 ∧ BuildAccepted vp.value) {fs : List UInt8}
    (hf : WireVarBinds (vars.map builtVar) fs) (hfs : fs.length ≤ 0xffff) (h : varBindsOctets vars = some bs) :
    WireVarBinds (vars.map sentVar) bs ∧ bs.length ≤ 400 * fs.length := by
  induction vars generalizing fs bs with
  | nil =>
    cases h
    exact ⟨.nil, by simp⟩
  | cons vp rest ih =>
    obtain ⟨octets, hv, others, hr, rfl⟩ := varBindsOctets_cons_eq_some h
    obtain ⟨hname, hvalue⟩ := hvars vp (by simp)
    cases hf with
    | cons hone hall =>
      rw [List.length_append] at hfs
      obtain ⟨hwire, hle⟩ := wire_varOpOctets hname hvalue hone (by omega) hv
      obtain ⟨hwire', hle'⟩ := ih (fun v hm => hvars v (by simp [hm])) hall (by omega) hr
      refine ⟨.cons hwire hwire', ?_⟩
      simp only [List.length_append]
      omega

theorem intOctets_length_le (v : Int) : (intOctets v).length ≤ 16 := by
  have hlen := intContent_length_le v
  exact (tlv_length_le _ _).trans (by omega)

variable {pdu : Pdu VariableList}

theorem fieldOctets_length_le (henterprise : pdu.command = PRIOT_MSG_TRAP →
      (pdu.enterprise.take pdu.enterpriseLength).length ≤ 128) (h : fieldOctets pdu = some bs) : bs.length ≤ 800 := by
  rw [fieldOctets] at h
  split at h
  · next hc =>
    cases h
    have h₁ := intOctets_length_le pdu.reqid
    have h₂ := intOctets_length_le pdu.errstat
    have h₃ := intOctets_length_le pdu.errindex
    simp only [List.length_append]
    omega
  · next hc =>
    rw [ne_eq, not_not] at hc
    simp only [Option.bind_eq_bind, Option.bind_eq_some_iff, Option.pure_def,
      Option.some.injEq] at h
    obtain ⟨enterprise, he, rfl⟩ := h
    have h₁ := tlv_objidContent_length_le (henterprise hc) he
    have h₂ := tlv_length_le asnIPADDRESS pdu.agentAddr.toList
    have h₃ := intOctets_length_le pdu.trapType
    have h₄ := intOctets_length_le pdu.specificType
    have h₅ := tlv_length_le asnTIMETICKS (Octets.writeSigned 0 8 (checkOverflowUnsigned pdu.time))
    have h₆ := (unsignedContent (checkOverflowUnsigned_lt pdu.time)).1.length_le
    rw [Vector.length_toList] at h₂
    simp only [List.length_append]
    omega

theorem wire_pduContent (hfits : BuildFits pdu) {fields varBinds seq : List UInt8}
    (hf : WirePdu pdu.command (builtPdu pdu) fields varBinds seq bs) (hbs : bs.length ≤ 0xffff)
    {content : List UInt8} (h : pduContent pdu = some content) : ∃ fields varBinds seq,
      WirePdu pdu.command (sentPdu pdu) fields varBinds seq (tlv (commandOctet pdu.command) content) := by
  obtain ⟨rvarBinds, hv, rfields, hrf, rfl⟩ := pduContent_eq_some h
  have hlen := hf.tlv.length_bounds
  have hlen' := hf.seq_tlv.length_bounds
  rw [List.length_append] at hlen
  obtain ⟨hwire, hle⟩ := wire_varBindsOctets hfits.vars_le hf.vars_wire (by omega) hv
  have hfle := fieldOctets_length_le hfits.enterprise_le hrf
  have hseq := tlv_length_le asnSEQUENCE_CONSTRUCTOR rvarBinds
  have hall := tlv_length_le (commandOctet pdu.command) (rfields ++ tlv asnSEQUENCE_CONSTRUCTOR rvarBinds)
  rw [List.length_append] at hall
  exact ⟨rfields, rvarBinds, _, rfl,
    encodesFields_fieldOctets hfits.enterprise_le hrf (by rw [MAX_PACKET_LENGTH]; omega), hwire,
    isTlv_tlv (by omega), isTlv_tlv (by rw [List.length_append]; omega), by rw [MAX_WIRE]; omega⟩

/-! ## object identifiers -/

/-- Both encoders mean the same by an object identifier. -/
def ObjidAgree (o : ObjId) : Prop := 2 ≤ o.length ∨ o = [0]

instance (o : ObjId) : Decidable (ObjidAgree o) := inferInstanceAs (Decidable (_ ∨ _))

/-- The object identifiers of a PDU that are sent. -/
def OidsAgree (pdu : Pdu VariableList) : Prop :=
  (pdu.command = PRIOT_MSG_TRAP → ObjidAgree (pdu.enterprise.take pdu.enterpriseLength)) ∧
    ∀ vp ∈ pdu.vars, ObjidAgree vp.name ∧ ∀ o, vp.value = .objectId o → ObjidAgree o

theorem builtObjid_eq_iff {o : ObjId} {c : List UInt8} (h : objidContent o = some c) :
    builtObjid o = sentObjid o ↔ ObjidAgree o := by
  match o, h with
  | [], _ =>
    show objidOfSubids [0] = objidOfSubids [0, 0] ↔ ObjidAgree []
    decide
  | [x], h =>
    simp only [objidContent, Option.ite_none_left_eq_some] at h
    have hx : x = 0 ∨ x = 1 ∨ x = 2 := by
      have hle := UInt32.le_iff_toNat_le.mp (UInt32.not_lt.mp h.1)
      have hcases : x.toNat = 0 ∨ x.toNat = 1 ∨ x.toNat = 2 := by
        have : (2 : UInt32).toNat = 2 := rfl
        omega
      rcases hcases with h0 | h1 | h2
      · exact .inl (UInt32.toNat_inj.mp h0)
      · exact .inr (.inl (UInt32.toNat_inj.mp h1))
      · exact .inr (.inr (UInt32.toNat_inj.mp h2))
    show objidOfSubids [x * 40] = objidOfSubids [x] ↔ ObjidAgree [x]
    rcases hx with rfl | rfl | rfl <;> decide
  | x :: y :: rest, _ => exact iff_of_true rfl (.inl (by simp))

theorem builtValue_eq_iff {v : VarValue} (h : valueOctets v = some bs) :
    builtValue v = sentValue v ↔ ∀ o, v = .objectId o → ObjidAgree o := by
  cases v with
  | objectId o =>
    simp only [valueOctets, Option.map_eq_some_iff] at h
    obtain ⟨c, hc, -⟩ := h
    show VarValue.objectId (builtObjid o) = .objectId (sentObjid o) ↔ _
    rw [VarValue.objectId.injEq, builtObjid_eq_iff hc]
    refine ⟨fun hagree o' ho => ?_, fun hall => hall o rfl⟩
    cases ho
    exact hagree
  | _ => exact iff_of_true rfl (by simp)

theorem builtVar_eq_iff {vp : VariableList} (h : varOpOctets vp = some bs) : builtVar vp = sentVar vp ↔
      ObjidAgree vp.name ∧ ∀ o, vp.value = .objectId o → ObjidAgree o := by
  obtain ⟨value, hv, name, hn, -⟩ := varOpOctets_eq_some h
  rw [builtVar, sentVar, VariableList.mk.injEq, builtObjid_eq_iff hn, builtValue_eq_iff hv]

/-! ## what the decoder makes of both -/

/-- Both calls fail, or both leave the same. -/
def SameResult (p q : Int × Pdu ParsedVar) : Prop := (p.1 ≠ 0 ∧ q.1 ≠ 0) ∨ p = q

instance (p q : Int × Pdu ParsedVar) : Decidable (SameResult p q) :=
  inferInstanceAs (Decidable (_ ∨ _))

/-- The decoder refuses the PDU, whoever has encoded it. -/
def Rejected (pdu : Pdu VariableList) : Prop :=
  ¬ CommandOk pdu.command ∨ ∃ vp ∈ pdu.vars, refused vp.value = true

section lists

variable {vars : List VariableList} {f g : VariableList → VariableList}

theorem decodedVars_fst_congr
    (h : ∀ vp ∈ vars, ∀ next, (decodedVar (f vp) next).2 = (decodedVar (g vp) next).2) (rest : Mem) :
    (decodedVars (vars.map f) rest).1 = (decodedVars (vars.map g) rest).1 := by
  induction vars with
  | nil => rfl
  | cons vp vars ih =>
    have hrec := ih fun v hm => h v (by simp [hm])
    have hone := h vp (by simp) (if vars = [] then rest else Stream'.const asnSEQUENCE_CONSTRUCTOR)
    simp only [List.map_cons, decodedVars, List.map_eq_nil_iff]
    rcases hf : decodedVar (f vp) (if vars = [] then rest else Stream'.const asnSEQUENCE_CONSTRUCTOR)
      with ⟨p, _ | _⟩ <;>
    rcases hg : decodedVar (g vp) (if vars = [] then rest else Stream'.const asnSEQUENCE_CONSTRUCTOR)
      with ⟨q, _ | _⟩ <;>
    rw [hf, hg] at hone
    · exact hrec
    · cases hone
    · cases hone

theorem eq_of_decodedVars_eq (h : ∀ vp ∈ vars, ∀ next, (decodedVar (f vp) next).2 = false →
      (decodedVar (f vp) next).1 = (decodedVar (g vp) next).1 → f vp = g vp) {rest : Mem}
    (hrc : (decodedVars (vars.map f) rest).1 = 0)
    (heq : decodedVars (vars.map f) rest = decodedVars (vars.map g) rest) : ∀ vp ∈ vars, f vp = g vp := by
  induction vars with
  | nil => simp
  | cons vp vars ih =>
    simp only [List.map_cons, decodedVars, List.map_eq_nil_iff] at hrc heq
    have hone := h vp (by simp) (if vars = [] then rest else Stream'.const asnSEQUENCE_CONSTRUCTOR)
    rcases hf : decodedVar (f vp) (if vars = [] then rest else Stream'.const asnSEQUENCE_CONSTRUCTOR)
      with ⟨p, _ | _⟩
    · rcases hg : decodedVar (g vp) (if vars = [] then rest else Stream'.const asnSEQUENCE_CONSTRUCTOR)
        with ⟨q, _ | _⟩
      · rw [hf] at hrc heq hone
        rw [hg] at heq hone
        simp only [Prod.mk.injEq, List.cons.injEq] at hrc heq
        obtain ⟨hfst, rfl, hsnd⟩ := heq
        rintro v (_ | ⟨_, hv⟩)
        · exact hone rfl rfl
        · exact ih (fun v hm => h v (by simp [hm])) hrc (Prod.ext hfst hsnd) v hv
      · rw [hf, hg] at heq
        rw [hf] at hrc
        simp only [Prod.mk.injEq] at hrc heq
        omega
    · rw [hf] at hrc
      cases hrc

theorem decodedVars_of_refused {vars : List VariableList} (hfits : ∀ vp ∈ vars, StringFits vp.value)
    (h : ∃ vp ∈ vars, refused vp.value = true) (rest : Mem) : (decodedVars vars rest).1 = -1 := by
  induction vars with
  | nil =>
    obtain ⟨vp, hvp, -⟩ := h
    cases hvp
  | cons vp vars ih =>
    simp only [decodedVars]
    rcases hdec : decodedVar vp (if vars = [] then rest else Stream'.const asnSEQUENCE_CONSTRUCTOR)
      with ⟨p, _ | _⟩
    · refine ih (fun v hm => hfits v (by simp [hm])) ?_
      obtain ⟨v, hv, hrefused⟩ := h
      rcases hv with _ | ⟨_, hv⟩
      · have hone := decodedVar_of_refused (hfits vp (by simp)) hrefused
          (if vars = [] then rest else Stream'.const asnSEQUENCE_CONSTRUCTOR)
        rw [hdec] at hone
        cases hone
      · exact ⟨v, hv, hrefused⟩
    · rfl

theorem decodedVars_of_not_refused {vars : List VariableList}
    (hfits : ∀ vp ∈ vars, StringFits vp.value) (h : ∀ vp ∈ vars, refused vp.value = false) :
    (decodedVars vars (Stream'.const 0)).1 = 0 := by
  induction vars with
  | nil => rfl
  | cons vp vars ih =>
    have hvp := h vp (by simp)
    have hone : (decodedVar vp (if vars = [] then Stream'.const 0
        else Stream'.const asnSEQUENCE_CONSTRUCTOR)).2 = false := by
      split
      · rw [decodedVar_snd_name vp.name []]
        exact hvp
      · exact decodedVar_of_not_refused (hfits vp (by simp)) hvp
    have hrec := ih (fun v hm => hfits v (by simp [hm])) (fun v hm => h v (by simp [hm]))
    simp only [decodedVars]
    rcases hdec : decodedVar vp (if vars = [] then Stream'.const 0
        else Stream'.const asnSEQUENCE_CONSTRUCTOR) with ⟨p, _ | _⟩
    · exact hrec
    · rw [hdec] at hone
      cases hone

end lists

theorem decodedVar_snd_built_sent (vp : VariableList) (next : Mem) :
    (decodedVar (builtVar vp) next).2 = (decodedVar (sentVar vp) next).2 := by
  obtain ⟨name, v⟩ := vp
  cases v with
  | string t s => exact decodedVar_snd_name (builtObjid name) (sentObjid name) (.string t s) next
  | _ => rfl

theorem decodedVar_name {vp : VariableList} {next : Mem} (h : (decodedVar vp next).2 = false) :
    (decodedVar vp next).1.name = some vp.name := by
  obtain ⟨name, v⟩ := vp
  cases v with
  | string t s =>
    simp only [decodedVar, parseVarBindValue] at h ⊢
    rcases hheader : parseHeader (tlv t.tag s ++ₛ next) (tlv t.tag s).length with ⟨type, _ | ⟨n, k⟩⟩
    · rw [hheader] at h
      cases h
    · rfl
  | _ => rfl

theorem built_eq_sent_of_decodedVar {vp : VariableList} {next : Mem} (hread : (decodedVar (builtVar vp) next).2 = false)
    (h : (decodedVar (builtVar vp) next).1 = (decodedVar (sentVar vp) next).1) : builtVar vp = sentVar vp := by
  have hname : some (builtVar vp).name = some (sentVar vp).name := by
    rw [← decodedVar_name hread, h, decodedVar_name (decodedVar_snd_built_sent vp next ▸ hread)]
  obtain ⟨name, v⟩ := vp
  rw [Option.some.injEq] at hname
  cases v with
  | objectId o =>
    have hvalue := congrArg ParsedVar.value h
    simp only [decodedVar, builtVar, sentVar, builtValue, sentValue, ParsedVar.ofVar,
      Option.some.injEq] at hvalue
    simp only [builtVar, sentVar, builtValue, sentValue] at hname ⊢
    rw [hname, hvalue]
  | _ =>
    show VariableList.mk (builtObjid name) _ = VariableList.mk (sentObjid name) _
    rw [show builtObjid name = sentObjid name from hname]
    rfl

theorem refused_builtValue (v : VarValue) : refused (builtValue v) = refused v := by
  cases v <;> rfl

theorem sealed_builtValue {v : VarValue} (h : Sealed v) : Sealed (builtValue v) := by
  cases v <;> exact h

theorem sealed_sentValue {v : VarValue} (h : Sealed v) : Sealed (sentValue v) := by
  cases v <;> exact h

theorem BuildAccepted.known {v : VarValue} (h : BuildAccepted v) :
    (∀ t, builtValue v ≠ .unknown t) ∧ ∀ t, sentValue v ≠ .unknown t := by
  cases v with
  | unknown t => cases h
  | _ => exact ⟨by simp [builtValue, Api.sentValue], by simp [Api.sentValue]⟩

theorem WireVarBinds.stringFits {vars : List VariableList} (h : WireVarBinds vars bs)
    (hmax : bs.length ≤ 0xffff) : ∀ vp ∈ vars, StringFits vp.value := by
  induction h with
  | nil => simp
  | @cons vp vars bs content hvp hvars ih =>
    rw [List.length_append] at hmax
    rintro v (_ | ⟨_, hv⟩)
    · obtain ⟨name, value, -, hvalue, hseq⟩ := hvp
      have hlen := hseq.length_bounds
      rw [List.length_append] at hlen
      obtain ⟨vname, v⟩ := vp
      cases v with
      | string t s =>
        obtain rfl : value = tlv t.tag s := hvalue
        show (tlv t.tag s).length ≤ 0xffff
        omega
      | _ => exact trivial
    · exact ih (by omega) v hv

theorem varOpOctets_of_mem {vars : List VariableList}
    (h : varBindsOctets vars = some bs) : ∀ vp ∈ vars, ∃ octets, varOpOctets vp = some octets := by
  induction vars generalizing bs with
  | nil => simp
  | cons vp vars ih =>
    obtain ⟨octets, hone, others, hrest, -⟩ := varBindsOctets_cons_eq_some h
    rintro v (_ | ⟨_, hv⟩)
    · exact ⟨octets, hone⟩
    · exact ih hrest v hv

/-! ## the encoders agree -/

/-- Two encodings of one PDU that both encoders take. -/
structure BothEncoded (pdu : Pdu VariableList) (f r : List UInt8) : Prop where
  forward : ∃ fields varBinds seq, WirePdu pdu.command (builtPdu pdu) fields varBinds seq f
  reverse : ∃ fields varBinds seq, WirePdu pdu.command (sentPdu pdu) fields varBinds seq r
  fits : ∀ vp ∈ pdu.vars, StringFits (builtValue vp.value)
  known : ∀ vp ∈ pdu.vars, BuildAccepted vp.value
  enterprise_eq_iff : pdu.command = PRIOT_MSG_TRAP →
    (builtObjid (pdu.enterprise.take pdu.enterpriseLength)
        = sentObjid (pdu.enterprise.take pdu.enterpriseLength) ↔
      ObjidAgree (pdu.enterprise.take pdu.enterpriseLength))
  vars_eq_iff : ∀ vp ∈ pdu.vars, builtVar vp = sentVar vp ↔
    ObjidAgree vp.name ∧ ∀ o, vp.value = .objectId o → ObjidAgree o

theorem bothEncoded {size : Nat} (hsize : size ≤ 0xffff) {b : WBuf}
    (hf : (pduBuild pdu).run ⟨[], size⟩ = some ((), b)) {s s' : RBuf} (hs : s.Room 0)
    (hr : (pduReallocRbuild pdu).exec s = (.ok (), s')) (hheader : VarBindHeaderWritten pdu s)
    {r : List UInt8} (hout : s'.out = r ++ s.out) : BothEncoded pdu b.out r := by
  obtain ⟨hfits, hlen, fields, varBinds, seq, hwire⟩ := pduBuild_wire hsize hf
  obtain ⟨content, hcontent, hout'⟩ := pduReallocRbuild_ok hs hr hheader
  obtain rfl : r = tlv (commandOctet pdu.command) content :=
    List.append_cancel_right (hout.symm.trans hout')
  have hseq := hwire.tlv.length_bounds
  have hseq' := hwire.seq_tlv.length_bounds
  rw [List.length_append] at hseq
  have hstrings := hwire.vars_wire.stringFits (by omega)
  refine ⟨⟨_, _, _, hwire⟩, wire_pduContent hfits hwire hlen hcontent, fun vp hm => ?_,
    fun vp hm => (hfits.vars_le vp hm).2, fun hc => ?_, fun vp hm => ?_⟩
  · exact hstrings (builtVar vp) (List.mem_map_of_mem hm)
  · simp only [pduContent, Option.bind_eq_bind, Option.bind_eq_some_iff, Option.pure_def,
      fieldOctets, hc, ne_eq, not_true_eq_false, if_false] at hcontent
    obtain ⟨_, -, _, ⟨c, he, -⟩, -⟩ := hcontent
    exact builtObjid_eq_iff he
  · obtain ⟨_, hv, -⟩ := pduContent_eq_some hcontent
    obtain ⟨octets, hone⟩ := varOpOctets_of_mem hv vp hm
    exact builtVar_eq_iff hone

theorem BothEncoded.receivedHead_eq {f r : List UInt8} (h : BothEncoded pdu f r) (hc : CommandOk pdu.command)
    (hoids : pdu.command = PRIOT_MSG_TRAP → ObjidAgree (pdu.enterprise.take pdu.enterpriseLength))
    (old : Pdu ParsedVar) : receivedHead old (builtPdu pdu) = receivedHead old (sentPdu pdu) := by
  by_cases htrap : pdu.command % 256 = PRIOT_MSG_TRAP
  · have hcommand := hc.2 htrap
    have heq := (h.enterprise_eq_iff hcommand).mpr (hoids hcommand)
    unfold receivedHead builtPdu
    rw [heq]
    rfl
  · have hbuilt : (builtPdu pdu).command ≠ PRIOT_MSG_TRAP := htrap
    have hsent : (sentPdu pdu).command ≠ PRIOT_MSG_TRAP := htrap
    unfold receivedHead storeFields
    rw [if_neg hbuilt, if_neg hsent]
    rfl

theorem linkVars_fresh (pdu : Pdu VariableList) (vars : List ParsedVar) :
    (linkVars (receivedHead freshPdu pdu) vars).vars = vars := by
  unfold linkVars
  split
  · next hnil =>
    rw [receivedHead, storeFields_vars, hnil]
    rfl
  · rfl

section both

variable {pdu : Pdu VariableList} {f r : List UInt8} (h : BothEncoded pdu f r)
  (hsealed : ∀ vp ∈ pdu.vars, Sealed vp.value)

include h hsealed

theorem BothEncoded.parse_forward (hc : CommandOk pdu.command) (old : Pdu ParsedVar) (rest : Mem) :
    pduParse old (f ++ₛ rest) f.length = ((decodedVars (pdu.vars.map builtVar) rest).1,
      linkVars (receivedHead old (builtPdu pdu)) (decodedVars (pdu.vars.map builtVar) rest).2) := by
  obtain ⟨_, _, _, hwire⟩ := h.forward
  refine hwire.pduParse hc ?_ ?_ old rest
  · intro v hv
    obtain ⟨vp, hm, rfl⟩ := List.mem_map.mp hv
    exact sealed_builtValue (hsealed vp hm)
  · intro v hv
    obtain ⟨vp, hm, rfl⟩ := List.mem_map.mp hv
    exact (h.known vp hm).known.1

theorem BothEncoded.parse_reverse (hc : CommandOk pdu.command) (old : Pdu ParsedVar) (rest : Mem) :
    pduParse old (r ++ₛ rest) r.length = ((decodedVars (pdu.vars.map sentVar) rest).1,
      linkVars (receivedHead old (sentPdu pdu)) (decodedVars (pdu.vars.map sentVar) rest).2) := by
  obtain ⟨_, _, _, hwire⟩ := h.reverse
  refine hwire.pduParse hc ?_ ?_ old rest
  · intro v hv
    obtain ⟨vp, hm, rfl⟩ := List.mem_map.mp hv
    exact sealed_sentValue (hsealed vp hm)
  · intro v hv
    obtain ⟨vp, hm, rfl⟩ := List.mem_map.mp hv
    exact (h.known vp hm).known.2

theorem BothEncoded.rejected (hrejected : Rejected pdu) (old : Pdu ParsedVar) (rest : Mem) :
    (pduParse old (f ++ₛ rest) f.length).1 ≠ 0 ∧ (pduParse old (r ++ₛ rest) r.length).1 ≠ 0 := by
  by_cases hc : CommandOk pdu.command
  · obtain ⟨vp, hm, hvalue⟩ := hrejected.resolve_left (not_not.mpr hc)
    rw [h.parse_forward hsealed hc, h.parse_reverse hsealed hc]
    have hbuilt : (decodedVars (pdu.vars.map builtVar) rest).1 = -1 := by
      refine decodedVars_of_refused ?_ ⟨builtVar vp, List.mem_map_of_mem hm, ?_⟩ rest
      · intro v hv
        obtain ⟨vp, hm, rfl⟩ := List.mem_map.mp hv
        exact h.fits vp hm
      · exact (refused_builtValue vp.value).trans hvalue
    have hsame : (decodedVars (pdu.vars.map builtVar) rest).1
        = (decodedVars (pdu.vars.map sentVar) rest).1 :=
      decodedVars_fst_congr (fun vp _ => decodedVar_snd_built_sent vp) rest
    rw [hbuilt] at hsame ⊢
    rw [← hsame]
    exact ⟨by decide, by decide⟩
  · obtain ⟨_, _, _, hwire⟩ := h.forward
    obtain ⟨_, _, _, hwire'⟩ := h.reverse
    rw [hwire.pduParse_refused hc, hwire'.pduParse_refused hc]
    exact ⟨by decide, by decide⟩

/-- Where the object identifiers agree, so do the encodings. -/
theorem BothEncoded.same_of_oids (hc : CommandOk pdu.command) (hoids : OidsAgree pdu)
    (old : Pdu ParsedVar) (rest : Mem) : pduParse old (f ++ₛ rest) f.length = pduParse old (r ++ₛ rest) r.length := by
  have hvars : pdu.vars.map builtVar = pdu.vars.map sentVar :=
    List.map_congr_left fun vp hm => (h.vars_eq_iff vp hm).mpr (hoids.2 vp hm)
  rw [h.parse_forward hsealed hc, h.parse_reverse hsealed hc, hvars, h.receivedHead_eq hc hoids.1]

theorem BothEncoded.oids_of_same (hrejected : ¬ Rejected pdu)
    (hsame : SameResult (pduParse freshPdu (f ++ₛ Stream'.const 0) f.length)
      (pduParse freshPdu (r ++ₛ Stream'.const 0) r.length)) : OidsAgree pdu := by
  obtain ⟨hc, hvalues⟩ := not_or.mp hrejected
  rw [not_not] at hc
  rw [h.parse_forward hsealed hc, h.parse_reverse hsealed hc] at hsame
  have hrc : (decodedVars (pdu.vars.map builtVar) (Stream'.const 0)).1 = 0 := by
    refine decodedVars_of_not_refused ?_ ?_
    · intro v hv
      obtain ⟨vp, hm, rfl⟩ := List.mem_map.mp hv
      exact h.fits vp hm
    · intro v hv
      obtain ⟨vp, hm, rfl⟩ := List.mem_map.mp hv
      rw [builtVar, refused_builtValue, ← Bool.not_eq_true]
      exact fun hvalue => hvalues ⟨vp, hm, hvalue⟩
  rcases hsame with hfail | heq
  · exact absurd hrc hfail.1
  rw [Prod.mk.injEq] at heq
  obtain ⟨hfst, hpdu⟩ := heq
  refine ⟨fun hcommand => ?_, fun vp hm => (h.vars_eq_iff vp hm).mp ?_⟩
  · have hent := congrArg Pdu.enterprise hpdu
    have htrap : pdu.command % 256 = PRIOT_MSG_TRAP := by
      rw [hcommand]
      rfl
    have hhead : ∀ p : Pdu VariableList, p.command = PRIOT_MSG_TRAP →
        ∀ vars, (linkVars (receivedHead freshPdu p) vars).enterprise = p.enterprise := by
      intro p hp vars
      unfold linkVars receivedHead storeFields
      rw [if_pos hp]
      split <;> rfl
    rw [hhead _ htrap, hhead _ htrap] at hent
    exact (h.enterprise_eq_iff hcommand).mp hent
  · have hvars := congrArg Pdu.vars hpdu
    rw [linkVars_fresh, linkVars_fresh] at hvars
    exact eq_of_decodedVars_eq (fun vp _ _ hread => built_eq_sent_of_decodedVar hread) hrc
      (Prod.ext hfst hvars) vp hm

end both

/-- A GET with one varbind that has no value. -/
def namePdu (name : ObjId) : Pdu VariableList := samplePdu PRIOT_MSG_GET [⟨name, .null .null⟩]

end Priot.Api
