/-
# Varbinds as two encoders write them

`Wire` is `Encodes` with the strings that `Api_pduParse` refuses or reads as something else, and `decodedVars` what
the decoder makes of a list of varbinds, up to the strings it is left with.
-/
import Priot.Api.Locality
import Priot.Api.PduBuild
import Priot.Asn01.RbuildSpec

namespace Priot.Api

open Asn01 List
open Stream' (AgreeOn)

/-! ## values -/

/-- A value on the wire. Strings have the shortest length octets. -/
def Wire (v : VarValue) (bs : List UInt8) : Prop :=
  match v with
  | .string t s => bs = tlv t.tag s
  | v => Encodes v bs

theorem Wire.length_ge {v : VarValue} {bs : List UInt8} (h : Wire v bs) : 2 ≤ bs.length := by
  have hencodes : ∀ {v : VarValue}, Encodes v bs → 2 ≤ bs.length := by
    intro v h
    obtain ⟨tag, c, htlv⟩ : ∃ tag c, IsTlv tag c bs := by
      cases h <;> exact ⟨_, _, by assumption⟩
    have := htlv.length_bounds
    omega
  cases v with
  | string t s =>
    obtain rfl : bs = tlv t.tag s := h
    have := tlv_length_ge t.tag s
    omega
  | _ => exact hencodes h

/-- The content of an Opaque is not the beginning of a special value that ends before the Opaque
does: behind the special tags stand a length and as many octets, or no length that fits. -/
def SealedContent (s : List UInt8) : Prop :=
  ∀ t c, s = asnOPAQUE_TAG1 :: t :: c → isOpaqueSpecial t = true →
    ∀ n k, parseLengthAt (padded c) 0 c.length = some (n, k) → k + n = c.length

/-- No value hides the beginning of something else behind a special value. -/
def Sealed : VarValue → Prop
  | .string .opaqueStr s => SealedContent s
  | _ => True

/-- The varbind the decoder makes of `vp` when its value is followed by `next`, and whether the call
fails there. -/
def decodedVar (vp : VariableList) (next : Mem) : ParsedVar × Bool :=
  match vp.value with
  | .string t s =>
    let r := parseVarBindValue vp.name vp.name.length 0 0 (tlv t.tag s ++ₛ next) (tlv t.tag s).length
    (r.1, r.2.isNone)
  | _ => (ParsedVar.ofVar vp, false)

/-- The decoder refuses the value wherever it stands. -/
def refused (v : VarValue) : Bool := (decodedVar ⟨[], v⟩ (Stream'.const 0)).2

section string

variable {t : StringType} {s : List UInt8} {name : ObjId} {nameLength : Nat} (next : Mem)

theorem stringTag_eq_opaqueStr {t : StringType} (h : t.tag = asnOPAQUE) : t = .opaqueStr := by
  revert h
  cases t <;> decide

theorem parseHeader_sealed (hs : Sealed (.string t s)) (hmax : s.length ≤ 0x7fffffef) {type : Option UInt8} {n k : Nat}
    (h : parseHeader (tlv t.tag s ++ₛ next) (tlv t.tag s).length = ⟨type, some (n, k)⟩) :
    k + n = (tlv t.tag s).length := by
  have htlv : IsTlv t.tag s (tlv t.tag s) := isTlv_tlv (by omega)
  have hlen := htlv.length_bounds
  have houter := htlv.parseLengthAt next (by omega) (le_refl _)
  obtain ⟨ty, rfl⟩ := parseHeader_type_of_result h
  rcases parseHeader_eq_special h with ⟨-, hlength⟩ | ⟨hop, hspecial, n₀, k₀, hlen₀, htag, htag', hin⟩
  · rw [houter, Option.some.injEq, Prod.mk.injEq] at hlength
    omega
  · rw [houter, Option.some.injEq, Prod.mk.injEq] at hlen₀
    obtain ⟨rfl, rfl⟩ := hlen₀
    rw [htlv.head] at hop
    obtain rfl := stringTag_eq_opaqueStr hop
    have hbounds := parseLengthAt_bounds hin
    -- the two tags lie in the content
    match s with
    | [] | [_] => simp only [length_cons, length_nil] at hbounds hlen; omega
    | b :: b' :: c =>
      rw [htlv.get next] at htag
      rw [htlv.get_succ next] at htag'
      subst htag htag'
      simp only [length_cons] at hbounds hlen hmax hin ⊢
      obtain ⟨j, hread, rfl, hle, hn, hk⟩ := parseLengthAt_eq_some hin
      have hdrop : (tlv StringType.opaqueStr.tag (asnOPAQUE_TAG1 :: b' :: c) ++ₛ next).drop
          ((tlv StringType.opaqueStr.tag (asnOPAQUE_TAG1 :: b' :: c)).length - (c.length + 1 + 1) + 2)
          = c ++ₛ next := by
        rw [← Stream'.drop_drop, show c.length + 1 + 1 = (asnOPAQUE_TAG1 :: b' :: c).length from rfl,
          htlv.drop next]
        rfl
      rw [hdrop] at hread
      have hj : j ≤ c.length := by omega
      have hagree := (Stream'.agreeOn_append c next (Stream'.const 0)).mono hj
      have hread' := parseLength_agree (by rw [hread]) hagree
      have hfits : parseLengthAt (padded c) 0 c.length = some (n, j) := by
        have hcheck : parseLengthCheck (some (0 + j)) n c.length = false := by
          simp only [parseLengthCheck, Bool.or_eq_false_iff, decide_eq_false_iff_not]
          omega
        simp only [parseLengthAt, Stream'.drop_zero, padded, hread', hread, hcheck,
          Bool.false_eq_true, if_false]
        rw [Nat.zero_add]
      have hend := hs _ _ rfl hspecial n j hfits
      omega

theorem parseVarBindValue_place (varVal length : Nat) (m : Mem) (dl : Nat) :
    parseVarBindValue name nameLength varVal length m dl = ((parseVarBindValue name nameLength 0 0 m dl).1,
        (parseVarBindValue name nameLength 0 0 m dl).2.map fun r => (varVal + r.1, length - (varVal + r.1))) := by
  simp only [parseVarBindValue]
  rcases parseHeader m dl with ⟨type, _ | ⟨n, k⟩⟩
  · rfl
  · simp only []
    split
    · rfl
    · simp only [Option.map_some, Nat.zero_add, Nat.add_assoc]

theorem parseVarBindValue_sealed (hs : Sealed (.string t s)) (hmax : s.length ≤ 0x7fffffef) {r : Nat × Nat}
    (h : (parseVarBindValue name nameLength 0 0 (tlv t.tag s ++ₛ next) (tlv t.tag s).length).2 = some r) :
    r.1 = (tlv t.tag s).length := by
  simp only [parseVarBindValue] at h
  rcases hheader : parseHeader (tlv t.tag s ++ₛ next) (tlv t.tag s).length with ⟨type, _ | ⟨n, k⟩⟩
  · rw [hheader] at h
    cases h
  · have hend := parseHeader_sealed next hs hmax hheader
    simp only [hheader] at h
    split at h
    · cases h
    · rw [Option.some.injEq] at h
      rw [← h, Nat.zero_add, hend]

end string

theorem staleValue_next {m : Mem} {dl : Nat} (h : m.get dl ≠ asnOPAQUE_TAG1) : staleValue m dl (dl + 1) = false := by
  simp only [staleValue, Bool.or_eq_false_iff]
  refine ⟨⟨by simp, ?_⟩, ?_⟩
  · by_contra hs
    rw [Bool.not_eq_false] at hs
    obtain ⟨-, n, k, hlen, hk⟩ := staleHeader_iff.mp hs
    have hbounds := parseLengthAt_bounds hlen
    rcases hk with rfl | ⟨hk, htag⟩
    · omega
    · obtain rfl : k = dl := by omega
      exact h htag
  · by_contra hs
    rw [Bool.not_eq_false] at hs
    obtain ⟨-, n, k, -, -, -, -, hinner⟩ := staleSign_iff.mp hs
    have hbounds := parseLengthAt_bounds hinner
    omega

theorem decodedVar_sequence (vp : VariableList) (m : Mem) (hmax : ∀ t s, vp.value = .string t s →
    (tlv t.tag s).length ≤ MAX_PACKET_LENGTH) : decodedVar vp (Stream'.cons asnSEQUENCE_CONSTRUCTOR m)
      = decodedVar vp (Stream'.const asnSEQUENCE_CONSTRUCTOR) := by
  unfold decodedVar
  cases hv : vp.value with
  | string t s =>
    simp only []
    have hnext : ∀ m : Mem, (tlv t.tag s ++ₛ Stream'.cons asnSEQUENCE_CONSTRUCTOR m).get
        (tlv t.tag s).length ≠ asnOPAQUE_TAG1 := by
      intro m
      rw [Stream'.get_append_length]
      show asnSEQUENCE_CONSTRUCTOR ≠ asnOPAQUE_TAG1
      decide
    have hagree : AgreeOn ((tlv t.tag s).length + 1)
        (tlv t.tag s ++ₛ Stream'.cons asnSEQUENCE_CONSTRUCTOR m)
        (tlv t.tag s ++ₛ Stream'.const asnSEQUENCE_CONSTRUCTOR) := by
      have h := Stream'.agreeOn_append (tlv t.tag s ++ [asnSEQUENCE_CONSTRUCTOR]) m
        (Stream'.const asnSEQUENCE_CONSTRUCTOR)
      have hconst : [asnSEQUENCE_CONSTRUCTOR] ++ₛ Stream'.const asnSEQUENCE_CONSTRUCTOR
          = Stream'.const asnSEQUENCE_CONSTRUCTOR := (Stream'.const_eq _).symm
      rw [length_append, Stream'.append_append_stream, Stream'.append_append_stream,
        hconst] at h
      exact h
    rw [parseVarBindValue_agree hagree (Nat.le_succ _) (hmax t s hv) (staleValue_next (hnext m))]
  | _ => rfl

/-! ## refusal -/

theorem decodedVar_snd_name (name name' : ObjId) (v : VarValue) (next : Mem) :
    (decodedVar ⟨name, v⟩ next).2 = (decodedVar ⟨name', v⟩ next).2 := by
  cases v with
  | string t s =>
    simp only [decodedVar, parseVarBindValue]
    rcases parseHeader (tlv t.tag s ++ₛ next) (tlv t.tag s).length with ⟨type, _ | ⟨n, k⟩⟩
    · rfl
    · rfl
  | _ => rfl

theorem parseVarValue_plainOpaque {m : Mem} {dl n k : Nat} (hop : m.head = asnOPAQUE)
    (hmax : dl ≤ MAX_PACKET_LENGTH) (hlen : parseLengthAt m 1 dl = some (n, k)) :
    (parseVarValue asnOPAQUE n m).failed = false := by
  have hlen' := parseLengthAt_mono hlen hmax
  show (parseStringValue asnOPAQUE n m).failed = false
  simp only [parseStringValue, parseString, hop, hlen', Option.bind_eq_bind, Option.bind_some, guard,
    gt_iff_lt, Nat.lt_irrefl, not_false_eq_true, if_true, true_or, or_true, ValueOut.ofParse]
  rfl

theorem decodedVar_of_stale {t : StringType} {s : List UInt8} {name : ObjId} {next : Mem}
    (hmax : (tlv t.tag s).length ≤ MAX_PACKET_LENGTH) (hnext : next.head ≠ asnOPAQUE_TAG1)
    (hspecial : isOpaqueSpecial next.head = false)
    (hs : staleValue (tlv t.tag s ++ₛ next) (tlv t.tag s).length (tlv t.tag s).length = true) :
    (decodedVar ⟨name, .string t s⟩ next).2 = false := by
  have hget : (tlv t.tag s ++ₛ next).get (tlv t.tag s).length = next.head :=
    Stream'.get_append_length _ _
  simp only [staleValue, Bool.or_eq_true, beq_iff_eq] at hs
  simp only [decodedVar, parseVarBindValue]
  rcases hs with (hzero | hheader) | hsign
  · simp [tlv, headerOctets] at hzero
  · obtain ⟨hop, n, k, hlen, hplain⟩ :=
      parseHeader_stale_plain hheader (hget ▸ hnext) (hget ▸ hspecial)
    have hvalue := parseVarValue_plainOpaque hop hmax hlen
    simp only [hplain, Option.getD_some, hvalue, Bool.false_eq_true, if_false, Option.isNone_some]
  · simp only [parseHeader_staleSign hsign, Option.getD_some, parseVarValue_signed64,
      parseSignedInt64_stale hmax hsign, ValueOut.ofParse, Bool.false_eq_true, if_false,
      Option.isNone_some]

theorem decodedVar_agree {t : StringType} {s : List UInt8} {name : ObjId} {next next' : Mem}
    (hmax : (tlv t.tag s).length ≤ MAX_PACKET_LENGTH)
    (hs : staleValue (tlv t.tag s ++ₛ next) (tlv t.tag s).length (tlv t.tag s).length = false) :
    decodedVar ⟨name, .string t s⟩ next = decodedVar ⟨name, .string t s⟩ next' := by
  simp only [decodedVar]
  rw [parseVarBindValue_agree (Stream'.agreeOn_append (tlv t.tag s) next next') (le_refl _) hmax hs]

/-- The lengths of strings a buffer of `0xffff` octets holds. -/
def StringFits : VarValue → Prop
  | .string t s => (tlv t.tag s).length ≤ 0xffff
  | _ => True

theorem decodedVar_of_refused {vp : VariableList} (hfits : StringFits vp.value)
    (h : refused vp.value = true) (next : Mem) : (decodedVar vp next).2 = true := by
  obtain ⟨name, v⟩ := vp
  unfold refused at h
  rw [decodedVar_snd_name [] name] at h
  cases v with
  | string t s =>
    have hmax : (tlv t.tag s).length ≤ MAX_PACKET_LENGTH := hfits.trans (by decide)
    cases hstale : staleValue (tlv t.tag s ++ₛ Stream'.const 0) (tlv t.tag s).length
        (tlv t.tag s).length with
    | false => rw [← h, decodedVar_agree hmax hstale]
    | true =>
      rw [decodedVar_of_stale hmax (by decide) (by decide) hstale] at h
      cases h
  | _ => cases h

theorem decodedVar_of_not_refused {vp : VariableList} (hfits : StringFits vp.value) (h : refused vp.value = false) :
    (decodedVar vp (Stream'.const asnSEQUENCE_CONSTRUCTOR)).2 = false := by
  obtain ⟨name, v⟩ := vp
  unfold refused at h
  rw [decodedVar_snd_name [] name] at h
  cases v with
  | string t s =>
    have hmax : (tlv t.tag s).length ≤ MAX_PACKET_LENGTH := hfits.trans (by decide)
    cases hstale : staleValue (tlv t.tag s ++ₛ Stream'.const asnSEQUENCE_CONSTRUCTOR)
        (tlv t.tag s).length (tlv t.tag s).length with
    | false => rw [← h, decodedVar_agree hmax hstale]
    | true => exact decodedVar_of_stale hmax (by decide) (by decide) hstale
  | _ => rfl

/-! ## the varbind list -/

/-- One varbind on the wire. -/
def WireVarBind (vp : VariableList) (bs : List UInt8) : Prop :=
  ∃ name value, EncodesObjid vp.name name ∧ Wire vp.value value ∧
    IsTlv asnSEQUENCE_CONSTRUCTOR (name ++ value) bs

/-- A list of varbinds on the wire. -/
inductive WireVarBinds : List VariableList → List UInt8 → Prop
  | nil : WireVarBinds [] []
  | cons {vp : VariableList} {vars : List VariableList} {bs content : List UInt8} :
    WireVarBind vp bs → WireVarBinds vars content → WireVarBinds (vp :: vars) (bs ++ content)

/-- A bound for what either encoder makes of a PDU that fits into `0xffff` octets. -/
def MAX_WIRE : Nat := 0x2000000

/-- What the decoder makes of a list of varbinds that ends the PDU, `rest` being what follows. -/
def decodedVars : List VariableList → Mem → Int × List ParsedVar
  | [], _ => (0, [])
  | vp :: vars, rest =>
    match decodedVar vp (if vars = [] then rest else Stream'.const asnSEQUENCE_CONSTRUCTOR) with
    | (p, true) => (-1, [p])
    | (p, false) => ((decodedVars vars rest).1, p :: (decodedVars vars rest).2)

theorem WireVarBind.parseVarBind {vp : VariableList} {bs : List UInt8} (h : WireVarBind vp bs)
    (hsealed : Sealed vp.value) (rest : Mem) (length : Nat) (hl : bs.length ≤ length) (hmax : bs.length ≤ MAX_WIRE) :
    parseVarBind (bs ++ₛ rest) length = ((decodedVar vp rest).1,
        if (decodedVar vp rest).2 then none else some (bs.length, length - bs.length)) := by
  obtain ⟨name, value, hname, hvalue, hseq⟩ := h
  have hmax' : bs.length ≤ MAX_PACKET_LENGTH := hmax.trans (by decide)
  rw [MAX_WIRE] at hmax
  obtain ⟨vname, v⟩ := vp
  cases v with
  | string t s =>
    obtain rfl : value = tlv t.tag s := hvalue
    have hlen := hseq.length_bounds
    rw [length_append] at hlen
    have hsequence := parseSequence_tlv hseq (by decide) (by decide) rest hl (by
      rw [length_append]
      omega)
    have hstart := hseq.drop rest
    set start := bs.length - (name ++ tlv t.tag s).length with hstartdef
    rw [length_append] at hstartdef hsequence
    rw [Stream'.append_append_stream] at hstart
    have hobjid := hname.parseObjid (tlv t.tag s ++ₛ rest) (name.length + (tlv t.tag s).length)
      (by omega) (by rw [MAX_PACKET_LENGTH]; omega)
    rw [← hstart] at hobjid
    have hval : (bs ++ₛ rest).drop (start + name.length) = tlv t.tag s ++ₛ rest := by
      rw [← Stream'.drop_drop, hstart, Stream'.drop_append_stream]
    rw [parseVarBind_eq hsequence (congrArg (fun o => o.1.result) hobjid), hobjid]
    simp only []
    rw [hval, Nat.add_sub_cancel_left, parseVarBindValue_place]
    simp only [decodedVar]
    have hge := tlv_length_ge t.tag s
    have hplace : ∀ o : Option (Nat × Nat), (∀ r, o = some r → r.1 = (tlv t.tag s).length) →
        o.map (fun r => (start + name.length + r.1, length - (start + name.length + r.1)))
          = if o.isNone then none else some (bs.length, length - bs.length) := by
      intro o ho
      cases o with
      | none => rfl
      | some r =>
        simp only [Option.map_some, Option.isNone_some, Bool.false_eq_true, if_false, ho r rfl]
        rw [show start + name.length + (tlv t.tag s).length = bs.length by omega]
    exact congrArg (Prod.mk _) (hplace _ fun r hr => parseVarBindValue_sealed rest hsealed (by omega) hr)
  | _ => exact EncodesVarBind.parseVarBind ⟨name, value, hname, hvalue, hseq⟩ rest length hl hmax'

theorem ValueOut.ofParse_not_unknown {α : Type} (out : ParseOut α) (n : Nat)
    {f : UInt8 → α → VarValue} (hf : ∀ t a u, f t a ≠ .unknown u) (u : { t : UInt8 // t ∉ varTypes }) :
    (ValueOut.ofParse out n f).value ≠ some (.unknown u) := by
  unfold ValueOut.ofParse
  cases out.result with
  | none => simp
  | some r => simpa using hf _ _ u

theorem ite_cases {c : Prop} [Decidable c] {v : VarValue} {a b : ValueOut}
    (ha : a.value ≠ some v) (hb : b.value ≠ some v) : (if c then a else b).value ≠ some v := by
  split
  · exact ha
  · exact hb

theorem parseVarValue_not_unknown {type : UInt8} (htype : type ∈ varTypes) (vl : Nat) (m : Mem)
    (u : { t : UInt8 // t ∉ varTypes }) : (parseVarValue type vl m).value ≠ some (.unknown u) := by
  have hstring : (parseStringValue type vl m).value ≠ some (.unknown u) :=
    ValueOut.ofParse_not_unknown _ _ (by simp) u
  have hofParse : ∀ {α : Type} (out : ParseOut α) (n : Nat) (f : UInt8 → α → VarValue),
      (∀ t a u, f t a ≠ .unknown u) → (ValueOut.ofParse out n f).value ≠ some (.unknown u) :=
    fun out n f hf => ValueOut.ofParse_not_unknown out n hf u
  unfold parseVarValue
  refine ite_cases (hofParse _ _ _ (by simp)) (ite_cases (hofParse _ _ _ (by simp))
    (ite_cases (hofParse _ _ _ (by simp)) (ite_cases (hofParse _ _ _ (by simp))
      (ite_cases (hofParse _ _ _ (by simp)) (ite_cases (hofParse _ _ _ (by simp))
        (ite_cases (ite_cases (by simp) hstring) (ite_cases hstring
          (ite_cases (hofParse _ _ _ (by simp)) (ite_cases (by simp)
            (ite_cases (hofParse _ _ _ (by simp)) ?_))))))))))
  rw [dif_neg (not_not.mpr htype)]
  simp

theorem ParsedVar.not_badType {p : ParsedVar} (h : ∀ u, p.value ≠ some (.unknown u)) :
    ParsedVar.isBadType p = false := by
  unfold ParsedVar.isBadType
  split
  · next u hu => exact absurd hu (h u)
  · rfl

theorem decodedVar_not_badType (vp : VariableList) (hknown : ∀ t, vp.value ≠ .unknown t)
    (next : Mem) : ParsedVar.isBadType (decodedVar vp next).1 = false := by
  obtain ⟨name, v⟩ := vp
  cases v with
  | string t s =>
    simp only [decodedVar, parseVarBindValue]
    rcases h : parseHeader (tlv t.tag s ++ₛ next) (tlv t.tag s).length with ⟨type, _ | ⟨n, k⟩⟩
    · rfl
    · obtain ⟨ty, rfl⟩ := parseHeader_type_of_result h
      have htype : ty ∈ varTypes := by
        rcases parseHeader_eq_special h with ⟨rfl, -⟩ | ⟨-, hspecial, -⟩
        · show t.tag ∈ varTypes
          cases t <;> decide
        · rcases isOpaqueSpecial_iff.mp hspecial with rfl | rfl | rfl | rfl | rfl <;> decide
      exact ParsedVar.not_badType (parseVarValue_not_unknown htype n _)
  | unknown t => exact absurd rfl (hknown t)
  | _ => rfl

/-- The list of varbinds, whatever follows it. -/
theorem WireVarBinds.parseVarBinds {vars : List VariableList} {bs : List UInt8}
    (h : WireVarBinds vars bs) (hsealed : ∀ vp ∈ vars, Sealed vp.value)
    (hknown : ∀ vp ∈ vars, ∀ t, vp.value ≠ .unknown t) (rest : Mem) {fuel : Nat}
    (hfuel : bs.length ≤ fuel) (hmax : bs.length ≤ MAX_WIRE) :
    parseVarBinds fuel (bs ++ₛ rest) bs.length 0 = decodedVars vars rest := by
  induction h generalizing fuel with
  | nil => cases fuel <;> rfl
  | @cons vp vars bs content hvp hvars ih =>
    have hpos : 0 < bs.length := by
      obtain ⟨name, value, -, -, hseq⟩ := hvp
      have := hseq.length_bounds
      omega
    rw [length_append] at hfuel hmax ⊢
    obtain ⟨fuel, rfl⟩ : ∃ k, fuel = k + 1 := ⟨fuel - 1, by omega⟩
    have hone := hvp.parseVarBind (hsealed vp (by simp)) (content ++ₛ rest)
      (bs.length + content.length) (by omega) (by omega)
    have hrec := @ih (fun v hm => hsealed v (by simp [hm])) (fun v hm => hknown v (by simp [hm]))
      fuel (by omega) (by omega)
    -- behind the varbind the next one begins, or the list ends
    have hnext : decodedVar vp (content ++ₛ rest)
        = decodedVar vp (if vars = [] then rest else Stream'.const asnSEQUENCE_CONSTRUCTOR) := by
      cases hvars with
      | nil => rfl
      | cons hvp' hvars' =>
        obtain ⟨name, value, -, -, ⟨⟨lo, -, rfl⟩⟩⟩ := hvp'
        rw [if_neg (by simp)]
        refine decodedVar_sequence vp _ fun t s hv => ?_
        obtain ⟨name', value', -, hvalue, hseq⟩ := hvp
        rw [hv] at hvalue
        obtain rfl : value' = tlv t.tag s := hvalue
        have := hseq.length_bounds
        rw [length_append] at this
        rw [MAX_WIRE] at hmax
        rw [MAX_PACKET_LENGTH]
        omega
    have hbad := decodedVar_not_badType vp (hknown vp (by simp)) (content ++ₛ rest)
    rw [Stream'.append_append_stream]
    simp only [Api.parseVarBinds, hone, decodedVars, ← hnext]
    rw [if_neg (by omega)]
    rcases hdec : decodedVar vp (content ++ₛ rest) with ⟨p, _ | _⟩
    · rw [hdec] at hbad
      simp only [Bool.false_eq_true, if_false, hbad, Nat.add_sub_cancel_left,
        Stream'.drop_append_stream, hrec]
    · simp only [if_true]

/-! ## PDUs -/

/-- The command octet is known and belongs to the fields that are sent. -/
def CommandOk (command : Int) : Prop :=
  (command % 256 = PRIOT_MSG_TRAP ∨ command % 256 ∈ requestCommands) ∧
    (command % 256 = PRIOT_MSG_TRAP → command = PRIOT_MSG_TRAP)

instance (command : Int) : Decidable (CommandOk command) :=
  inferInstanceAs (Decidable (_ ∧ _))

/-- A PDU on the wire, as it comes back. The fields are chosen by the command, of which one octet is
sent. -/
structure WirePdu (command : Int) (pdu : Pdu VariableList) (fields varBinds seq bs : List UInt8) :
    Prop where
  command_eq : pdu.command = command % 256
  fields_wire : EncodesFields { pdu with command := command } fields
  vars_wire : WireVarBinds pdu.vars varBinds
  seq_tlv : IsTlv asnSEQUENCE_CONSTRUCTOR varBinds seq
  tlv : IsTlv (commandOctet command) (fields ++ seq) bs
  length_le : bs.length ≤ MAX_WIRE

section pdus

variable {command : Int} {pdu : Pdu VariableList} {fields varBinds seq bs : List UInt8}

theorem WirePdu.pduParse (h : WirePdu command pdu fields varBinds seq bs) (hc : CommandOk command)
    (hsealed : ∀ vp ∈ pdu.vars, Sealed vp.value) (hknown : ∀ vp ∈ pdu.vars, ∀ t, vp.value ≠ .unknown t)
    (old : Pdu ParsedVar) (rest : Mem) : Api.pduParse old (bs ++ₛ rest) bs.length =
      ((decodedVars pdu.vars rest).1, linkVars (receivedHead old pdu) (decodedVars pdu.vars rest).2) := by
  have hiff : pdu.command = PRIOT_MSG_TRAP ↔ command = PRIOT_MSG_TRAP := by
    rw [h.command_eq]
    refine ⟨hc.2, fun h0 => ?_⟩
    rw [h0]
    rfl
  have hlen := h.tlv.length_bounds
  have hlen' := h.seq_tlv.length_bounds
  have hle := h.length_le
  rw [length_append] at hlen
  rw [MAX_WIRE] at hle
  have hvars := h.vars_wire.parseVarBinds hsealed hknown rest (le_refl _) (by
    rw [MAX_WIRE]
    omega)
  rw [(h.fields_wire.of_command hiff).pduParse (h.command_eq ▸ hc.1)
    (h.command_eq ▸ Octets.lowOctet_toNat command) h.tlv h.seq_tlv (by
      rw [length_append, MAX_PACKET_LENGTH]
      omega) old rest, hvars]

theorem WirePdu.pduParse_refused (h : WirePdu command pdu fields varBinds seq bs)
    (hc : ¬ CommandOk command) (old : Pdu ParsedVar) (rest : Mem) :
    (Api.pduParse old (bs ++ₛ rest) bs.length).1 = -1 := by
  have hcommand := Octets.lowOctet_toNat command
  have hlen := h.tlv.length_bounds
  have hle := h.length_le
  rw [MAX_WIRE] at hle
  -- a command without a case goes to the default branch
  have herror : ∀ c : Cursor, ¬ (c.pdu.command = PRIOT_MSG_TRAP ∨ c.pdu.command ∈ requestCommands) →
      parseFields c = .error c.pdu := by
    intro c hc
    unfold parseFields
    rw [if_neg fun h0 => hc (.inl h0), if_neg fun h0 => hc (.inr h0)]
  by_cases hknown : command % 256 = PRIOT_MSG_TRAP ∨ command % 256 ∈ requestCommands
  · obtain ⟨htrap, hne⟩ : command % 256 = PRIOT_MSG_TRAP ∧ command ≠ PRIOT_MSG_TRAP := by
      by_contra h0
      exact hc ⟨hknown, fun ht => by_contra fun hne => h0 ⟨ht, hne⟩⟩
    have htag : ((commandOctet command).toNat : Int) = PRIOT_MSG_TRAP := hcommand.trans htrap
    obtain ⟨hext, hnotOpq⟩ := commandTag htag (.inl rfl)
    have hheader := parseHeader_tlv rest h.tlv hext (fun h0 => absurd h0 hnotOpq) (by omega)
      (le_refl _)
    -- what should be the enterprise is an INTEGER
    have hfields := h.fields_wire
    rw [EncodesFields, if_neg hne] at hfields
    obtain ⟨b₁, b₂, b₃, ⟨c₁, hint, -⟩, -, -, hfields⟩ := hfields
    have hhead : ((bs ++ₛ rest).drop (bs.length - (fields ++ seq).length)).head ≠ asnOBJECT_ID := by
      rw [h.tlv.drop rest, hfields, append_assoc, Stream'.append_append_stream, hint.head]
      decide
    simp only [Api.pduParse, hheader, Option.getD_some, htag, parseFields, if_true, parseTrapFields,
      parseObjid, hhead, ne_eq, not_false_eq_true, Cursor.field, bind, Except.bind]
  · rcases hheader : parseHeader (bs ++ₛ rest) bs.length with ⟨type, _ | ⟨n, k⟩⟩
    · simp only [Api.pduParse, hheader]
    · obtain ⟨ty, rfl⟩ := parseHeader_type_of_result hheader
      have htype : ¬ ((ty.toNat : Int) = PRIOT_MSG_TRAP ∨ (ty.toNat : Int) ∈ requestCommands) := by
        rcases parseHeader_eq_special hheader with ⟨rfl, -⟩ | ⟨-, hspecial, -⟩
        · rw [h.tlv.head rest]
          exact hcommand ▸ hknown
        · rcases isOpaqueSpecial_iff.mp hspecial with rfl | rfl | rfl | rfl | rfl <;> decide
      simp only [Api.pduParse, hheader, Option.getD_some]
      rw [herror _ htype]

end pdus

end Priot.Api
