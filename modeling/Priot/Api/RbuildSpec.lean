/-
# The octets of `Api_pduReallocRbuild`

The varbinds come out last first from the cache and are written back to front, so the message has
them in the order of the list, at any length of it.
-/
import Priot.Api.PduBuild
import Priot.Asn01.RbuildSpec

namespace Priot.Api

open Asn01 List Octets

/-! ## values and varbinds -/

/-- A value whose size is that of its type. -/
theorem of_sized {α : Type} {p : Prop} [Decidable p] {x y : α} (h : (if p then some x else none) = some y) :
    p ∧ x = y := by
  rw [Option.ite_none_right_eq_some, Option.some.injEq] at h
  exact h

variable {bs : List UInt8}

theorem emits_reallocRbuildValue {v : VarValue} (h : valueOctets v = some bs) :
    Emits 0 (reallocRbuildValue v) () bs 0 := by
  cases v with
  | integer v size =>
    obtain ⟨rfl, rfl⟩ := of_sized h
    exact emits_reallocRbuildInt _ _
  | unsigned t v size =>
    obtain ⟨rfl, rfl⟩ := of_sized h
    exact emits_reallocRbuildUnsignedInt _ _
  | unsigned64 t high low size =>
    obtain ⟨rfl, rfl⟩ := of_sized h
    exact emits_reallocRbuildUnsignedInt64 t high low
  | string t s =>
    simp only [valueOctets, Option.some.injEq] at h
    subst h
    exact emits_reallocRbuildString _ _
  | objectId o =>
    simp only [valueOctets, Option.map_eq_some_iff] at h
    obtain ⟨content, hc, rfl⟩ := h
    exact emits_reallocRbuildObjid _ hc
  | null t =>
    simp only [valueOctets, Option.some.injEq] at h
    subst h
    exact emits_reallocRbuildNull _
  | bitString s =>
    simp only [valueOctets, Option.some.injEq] at h
    subst h
    exact emits_reallocRbuildString _ _
  | float bits size =>
    obtain ⟨rfl, rfl⟩ := of_sized h
    exact emits_reallocRbuildFloat bits
  | double bits size =>
    obtain ⟨rfl, rfl⟩ := of_sized h
    exact emits_reallocRbuildDouble bits
  | signed64 high low size =>
    obtain ⟨rfl, rfl⟩ := of_sized h
    exact emits_reallocRbuildSignedInt64 high low
  | unknown t => contradiction

theorem refuses_reallocRbuildValue {v : VarValue} (h : valueOctets v = none) : Refuses (reallocRbuildValue v) := by
  cases v with
  | integer v size | unsigned t v size | unsigned64 t high low size | signed64 high low size =>
    simp only [valueOctets, ite_eq_right_iff, reduceCtorEq, imp_false] at h
    refine refuses_bind fun s => ?_
    simp only [ne_eq, h, not_false_eq_true, if_true]
    exact refuses_throw.bind
  | string t s | null t | bitString s => simp [valueOctets] at h
  | objectId o =>
    simp only [valueOctets, Option.map_eq_none_iff] at h
    exact refuses_reallocRbuildObjid _ h
  | float bits size | double bits size =>
    simp only [valueOctets, ite_eq_right_iff, reduceCtorEq, imp_false] at h
    simp only [reallocRbuildValue, reallocRbuildFloat, reallocRbuildDouble, rbuildFloating,
      wordOctets_length]
    rw [if_pos (Or.inl fun hs => h hs.symm)]
    exact refuses_throw.bind
  | unknown t => exact refuses_throw

def varOpOctets (vp : VariableList) : Option (List UInt8) := do
  let value ← valueOctets vp.value
  let name ← objidContent vp.name
  return tlv asnSEQUENCE_CONSTRUCTOR (tlv asnOBJECT_ID name ++ value)

theorem varOpOctets_eq_some {vp : VariableList} (h : varOpOctets vp = some bs) :
    ∃ value, valueOctets vp.value = some value ∧ ∃ name, objidContent vp.name = some name ∧
      tlv asnSEQUENCE_CONSTRUCTOR (tlv asnOBJECT_ID name ++ value) = bs := by
  simpa only [varOpOctets, Option.bind_eq_bind, Option.bind_eq_some_iff, Option.pure_def, Option.some.injEq] using h

theorem emits_reallocRbuildVarOp {vp : VariableList} (h : varOpOctets vp = some bs) :
    Emits 0 (reallocRbuildVarOp vp) () bs 0 := by
  obtain ⟨value, hv, name, hn, rfl⟩ := varOpOctets_eq_some h
  refine emits_get fun s hs => ?_
  have hbody : Emits 0 (do
      reallocRbuildValue vp.value; reallocRbuildObjid asnOBJECT_ID vp.name) ()
      (tlv asnOBJECT_ID name ++ value) 0 :=
    (emits_reallocRbuildValue hv).bind (emits_reallocRbuildObjid _ hn)
  have h := (hbody s hs).seq fun s₁ hs₁ hout =>
    emitsAt_header asnSEQUENCE_CONSTRUCTOR hs hs₁ hout
  simpa only [bind_assoc, tlv] using h

theorem refuses_reallocRbuildVarOp {vp : VariableList} (h : varOpOctets vp = none) :
    Refuses (reallocRbuildVarOp vp) := by
  refine refuses_bind fun s => ?_
  rcases hv : valueOctets vp.value with - | value
  · exact (refuses_reallocRbuildValue hv).bind
  · simp only [varOpOctets, hv, Option.bind_eq_bind, Option.bind_some, Option.pure_def,
      Option.bind_eq_none_iff, reduceCtorEq, imp_false] at h
    have hn := Option.eq_none_iff_forall_not_mem.mpr fun a ha => h a ha
    exact refuses_bind fun _ => (refuses_reallocRbuildObjid _ hn).bind

/-! ## the cache -/

/-- The cache after the varbinds before position `n` have been stored: the last fifty of them are in
it, each in the slot its position counts down to. -/
structure Filled (c : VpCache) (n : Nat) : Prop where
  next_zero : n = 0 → c.next = 50
  next_pos : 0 < n → c.next + (n - 1) % 50 = 49
  wrapped_eq : c.wrapped = decide (50 < n)
  slot_eq : ∀ k < n, n ≤ k + 50 → c.slot (49 - k % 50) = k

theorem filled_start (slot : Nat → Nat) : Filled (VpCache.start slot) 0 :=
  ⟨fun _ => rfl, fun h => absurd h (by omega), rfl, fun _ h => absurd h (by omega)⟩

theorem Filled.push {c : VpCache} {n : Nat} (h : Filled c n) : Filled (c.push n) (n + 1) := by
  have hzero := h.next_zero
  have hpos := h.next_pos
  have hslot : ∀ k < n + 1, n + 1 ≤ k + 50 →
      Function.update c.slot (49 - n % 50) n (49 - k % 50) = k := by
    intro k hk hkn
    by_cases heq : k = n
    · subst heq
      exact Function.update_self ..
    · rw [Function.update_of_ne (by omega)]
      exact h.slot_eq k (by omega) (by omega)
  by_cases h0 : c.next = 0
  · -- the fifty slots are used up: start again from the last one
    have hwrite : VPCACHE_SIZE - 1 = 49 - n % 50 := by rw [VPCACHE_SIZE]; omega
    simp only [VpCache.push, if_pos h0, hwrite]
    refine ⟨fun _ => by omega, fun _ => ?_, (decide_eq_true (by omega)).symm, hslot⟩
    simp only [Nat.add_sub_cancel]
    omega
  · have hwrite : c.next - 1 = 49 - n % 50 := by omega
    simp only [VpCache.push, if_neg h0, hwrite]
    refine ⟨fun _ => by omega, fun _ => ?_, ?_, hslot⟩
    · simp only [Nat.add_sub_cancel]
      omega
    · simp only [h.wrapped_eq, decide_eq_decide]
      omega

theorem filled_fill (slot : Nat → Nat) (n : Nat) : Filled (VpCache.fill slot n) n := by
  induction n with
  | zero => exact filled_start slot
  | succ n ih =>
    rw [VpCache.fill, range_succ, foldl_append]
    exact ih.push

/-- Write a list of varbinds, the last one first. -/
def rbuildReverse : List VariableList → Rb Unit
  | [] => pure ()
  | vp :: rest => do
    rbuildReverse rest
    reallocRbuildVarOp vp

theorem rbuildReverse_append (front back : List VariableList) :
    rbuildReverse (front ++ back) = (do rbuildReverse back; rbuildReverse front) := by
  induction front with
  | nil => simp [rbuildReverse]
  | cons vp front ih => simp [rbuildReverse, ih]

/-- The varbinds at the positions `lo ≤ k < hi`. -/
def segment (vars : List VariableList) (lo hi : Nat) : List VariableList := (vars.take hi).drop lo

variable {vars : List VariableList}

theorem segment_succ {lo hi : Nat} (hlo : lo ≤ hi)
    (hhi : hi < vars.length) : segment vars lo (hi + 1) = segment vars lo hi ++ [vars[hi]] := by
  rw [segment, take_succ_eq_append_getElem hhi, drop_append_of_le_length (by simp; omega)]
  rfl

theorem segment_append {lo mid hi : Nat} (hlo : lo ≤ mid)
    (hmid : mid ≤ hi) : segment vars lo mid ++ segment vars mid hi = segment vars lo hi := by
  have htake : vars.take mid = (vars.take hi).take mid := by rw [take_take, Nat.min_eq_left hmid]
  rw [segment, segment, segment, htake, ← take_append_drop (mid - lo) ((vars.take hi).drop lo),
    drop_drop, ← List.drop_take]
  congr 2
  omega

theorem rbuildSlots_eq {slot : Nat → Nat} {first top count : Nat}
    (hslot : ∀ i < count, slot (first + i) = top - 1 - i) (hcount : count ≤ top) (htop : top ≤ vars.length) :
    rbuildSlots vars slot first count = rbuildReverse (segment vars (top - count) top) := by
  induction count generalizing first top with
  | zero => simp [rbuildSlots, segment, rbuildReverse]
  | succ count ih =>
    obtain ⟨top, rfl⟩ : ∃ t, top = t + 1 := ⟨top - 1, by omega⟩
    have h0 : slot first = top := hslot 0 (by omega)
    have hrec := @ih (first + 1) top
      (fun i hi => by rw [Nat.add_right_comm]; exact (hslot (i + 1) (by omega)).trans (by omega))
      (by omega) (by omega)
    rw [rbuildSlots, h0, getElem?_eq_getElem (by omega), hrec,
      segment_succ (by omega) (by omega), rbuildReverse_append, Nat.add_sub_add_right]
    simp [rbuildReverse]

theorem rbuildRounds_eq {fuel n : Nat} {c : VpCache} (hc : Filled c n) (hn : n ≤ vars.length) (hfuel : n < fuel) :
    rbuildRounds vars fuel c = rbuildReverse (segment vars 0 n) := by
  induction fuel generalizing n c with
  | zero => contradiction
  | succ fuel ih =>
    have hzero := hc.next_zero
    have hpos := hc.next_pos
    -- `mid` is where the last lap around the cache began
    obtain ⟨mid, hmid, hlap⟩ : ∃ mid, n = mid + (50 - c.next) ∧ mid % 50 = 0 := by
      refine ⟨n - (50 - c.next), ?_⟩
      omega
    have hfirst : rbuildSlots vars c.slot c.next (VPCACHE_SIZE - c.next)
        = rbuildReverse (segment vars mid n) := by
      rw [VPCACHE_SIZE, show mid = n - (50 - c.next) by omega]
      refine rbuildSlots_eq (fun i hi => ?_) (by omega) hn
      rw [← hc.slot_eq (n - 1 - i) (by omega) (by omega)]
      congr 1
      omega
    rw [rbuildRounds, hfirst]
    by_cases hw : 50 < n
    · have hwr : c.wrapped = true := by rw [hc.wrapped_eq]; exact decide_eq_true hw
      have hsecond : rbuildSlots vars c.slot 0 c.next
          = rbuildReverse (segment vars (n - 50) mid) := by
        rw [show n - 50 = mid - c.next by omega]
        refine rbuildSlots_eq (fun i hi => ?_) (by omega) (by omega)
        rw [← hc.slot_eq (mid - 1 - i) (by omega) (by omega)]
        congr 1
        omega
      have htmp : (if c.next = 0 then c.slot (VPCACHE_SIZE - 1) else c.slot (c.next - 1))
          = n - 50 := by
        rw [← hc.slot_eq (n - 50) (by omega) (by omega), VPCACHE_SIZE]
        split <;> congr 1 <;> omega
      rw [if_pos hwr, hsecond, htmp, ih (filled_fill c.slot _) (by omega) (by omega),
        ← rbuildReverse_append, ← rbuildReverse_append, segment_append (by omega) (by omega),
        segment_append (by omega) (by omega)]
    · have hwr : ¬ c.wrapped = true := by rw [hc.wrapped_eq]; simpa using hw
      have hmid0 : mid = 0 := by omega
      rw [if_neg hwr, hmid0]
      exact bind_pure _

theorem rbuildVarBinds_eq (vars : List VariableList) : rbuildVarBinds vars = rbuildReverse vars := by
  rw [rbuildVarBinds, rbuildRounds_eq (filled_fill _ _) (le_refl _) (by omega), segment,
    take_length, drop_zero]

/-! ## the PDU -/

/-- The octets of a list of varbinds. -/
def varBindsOctets : List VariableList → Option (List UInt8)
  | [] => some []
  | vp :: rest => do
    let octets ← varOpOctets vp
    let others ← varBindsOctets rest
    return octets ++ others

theorem varBindsOctets_cons_eq_some {vp : VariableList} {rest : List VariableList}
    (h : varBindsOctets (vp :: rest) = some bs) :
    ∃ octets, varOpOctets vp = some octets ∧ ∃ others, varBindsOctets rest = some others ∧ octets ++ others = bs := by
  simpa only [varBindsOctets, Option.bind_eq_bind, Option.bind_eq_some_iff, Option.pure_def, Option.some.injEq] using h

theorem emits_rbuildReverse (h : varBindsOctets vars = some bs) : Emits 0 (rbuildReverse vars) () bs 0 := by
  induction vars generalizing bs with
  | nil =>
    rw [varBindsOctets, Option.some.injEq] at h
    subst h
    exact emits_pure
  | cons vp rest ih =>
    obtain ⟨octets, hv, others, hr, rfl⟩ := varBindsOctets_cons_eq_some h
    exact (ih hr).bind (emits_reallocRbuildVarOp hv)

theorem refuses_rbuildReverse (h : varBindsOctets vars = none) : Refuses (rbuildReverse vars) := by
  induction vars with
  | nil => contradiction
  | cons vp rest ih =>
    rcases hv : varOpOctets vp with - | octets
    · exact refuses_bind fun _ => refuses_reallocRbuildVarOp hv
    · simp only [varBindsOctets, hv, Option.bind_eq_bind, Option.bind_some, Option.pure_def,
        Option.bind_eq_none_iff, reduceCtorEq, imp_false] at h
      exact (ih (Option.eq_none_iff_forall_not_mem.mpr fun a ha => h a ha)).bind

def intOctets (v : Int) : List UInt8 :=
  tlv asnINTEGER (writeSigned (signOf (checkOverflowSigned v)) 8 (checkOverflowSigned v))

/-- The fields of a PDU, in the order they are sent. -/
def fieldOctets (pdu : Pdu VariableList) : Option (List UInt8) :=
  if pdu.command ≠ PRIOT_MSG_TRAP then
    some (intOctets pdu.reqid ++ intOctets pdu.errstat ++ intOctets pdu.errindex)
  else do
    let enterprise ← objidContent (pdu.enterprise.take pdu.enterpriseLength)
    return tlv asnOBJECT_ID enterprise ++ tlv asnIPADDRESS pdu.agentAddr.toList
      ++ intOctets pdu.trapType ++ intOctets pdu.specificType
      ++ tlv asnTIMETICKS (writeSigned 0 8 (checkOverflowUnsigned pdu.time))

def pduContent (pdu : Pdu VariableList) : Option (List UInt8) := do
  let varBinds ← varBindsOctets pdu.vars
  let fields ← fieldOctets pdu
  return fields ++ tlv asnSEQUENCE_CONSTRUCTOR varBinds

variable {pdu : Pdu VariableList}

theorem pduContent_eq_some {content : List UInt8} (h : pduContent pdu = some content) :
    ∃ varBinds, varBindsOctets pdu.vars = some varBinds ∧ ∃ fields, fieldOctets pdu = some fields ∧
      fields ++ tlv asnSEQUENCE_CONSTRUCTOR varBinds = content := by
  simpa only [pduContent, Option.bind_eq_bind, Option.bind_eq_some_iff, Option.pure_def, Option.some.injEq] using h

theorem emits_fields (h : fieldOctets pdu = some bs) : Emits 0 (rbuildFields pdu) () bs 0 := by
  rw [fieldOctets] at h
  rw [rbuildFields]
  split at h
  · next hc =>
    rw [Option.some.injEq] at h
    subst h
    rw [if_pos hc]
    exact (emits_reallocRbuildInt _ _).seq
      ((emits_reallocRbuildInt _ _).seq (emits_reallocRbuildInt _ _))
  · next hc =>
    simp only [Option.bind_eq_bind, Option.bind_eq_some_iff, Option.pure_def,
      Option.some.injEq] at h
    obtain ⟨enterprise, he, rfl⟩ := h
    rw [if_neg hc]
    exact (emits_reallocRbuildUnsignedInt _ _).seq ((emits_reallocRbuildInt _ _).seq
      ((emits_reallocRbuildInt _ _).seq ((emits_reallocRbuildString _ _).seq
        (emits_reallocRbuildObjid _ he))))

theorem refuses_fields (h : fieldOctets pdu = none) : Refuses (rbuildFields pdu) := by
  rw [fieldOctets] at h
  rw [rbuildFields]
  split at h
  · contradiction
  · next hc =>
    simp only [Option.bind_eq_bind, Option.pure_def, Option.bind_eq_none_iff, reduceCtorEq,
      imp_false] at h
    rw [if_neg hc]
    have he := Option.eq_none_iff_forall_not_mem.mpr fun a ha => h a ha
    exact refuses_bind fun _ => refuses_bind fun _ => refuses_bind fun _ => refuses_bind fun _ =>
      refuses_reallocRbuildObjid _ he

/-- The header of the varbind list gets the memory it needs. -/
def VarBindHeaderWritten (pdu : Pdu VariableList) (s : RBuf) : Prop :=
  ∀ s₁, (rbuildVarBinds pdu.vars).exec s = (.ok (), s₁) →
    ∃ s₂, (reallocBuildHeader asnSEQUENCE_CONSTRUCTOR (s₁.offset - s.offset)).exec s₁ = (.ok (), s₂)

theorem rbuildVarBindHeader_exec (start : Nat) (s : RBuf) : (rbuildVarBindHeader start).exec s
      = (.ok (), ((reallocBuildHeader asnSEQUENCE_CONSTRUCTOR (s.offset - start)).exec s).2) := rfl

theorem pduReallocRbuild_ok {s s' : RBuf} (hs : s.Room 0)
    (h : (pduReallocRbuild pdu).exec s = (.ok (), s')) (hheader : VarBindHeaderWritten pdu s) :
    ∃ content, pduContent pdu = some content ∧ s'.out = tlv (commandOctet pdu.command) content ++ s.out := by
  rw [pduReallocRbuild, exec_bind_ok s s (exec_get s)] at h
  obtain ⟨⟨⟩, s₁, hs₁, h₁⟩ := exec_bind_eq_ok _ _ h
  obtain ⟨⟨⟩, s₂', hs₂', h₂⟩ := exec_bind_eq_ok _ _ h₁
  obtain ⟨⟨⟩, s₃, hs₃, h₃⟩ := exec_bind_eq_ok _ _ h₂
  rw [exec_bind_ok s₃ s₃ (exec_get s₃)] at h₃
  obtain ⟨s₂, hs₂⟩ := hheader s₁ hs₁
  obtain rfl : s₂ = s₂' := by
    rw [rbuildVarBindHeader_exec, hs₂, Prod.mk.injEq] at hs₂'
    exact hs₂'.2
  rcases hv : varBindsOctets pdu.vars with - | varBinds
  · rw [rbuildVarBinds_eq] at hs₁
    exact absurd hs₁ (refuses_rbuildReverse hv).not_ok
  rcases hf : fieldOctets pdu with - | fields
  · exact absurd hs₃ (refuses_fields hf).not_ok
  obtain ⟨-, hroom₁, hout₁⟩ := (emits_rbuildReverse hv).of_exec hs (rbuildVarBinds_eq _ ▸ hs₁)
  obtain ⟨-, hroom₂, hout₂⟩ := (emits_reallocBuildHeader _ _).of_exec hroom₁ hs₂
  obtain ⟨-, hroom₃, hout₃⟩ := (emits_fields hf).of_exec hroom₂ hs₃
  obtain ⟨-, -, hout⟩ := (emits_reallocBuildHeader _ _).of_exec hroom₃ h₃
  rw [offset_eq hs hroom₁ hout₁, Nat.add_sub_cancel_left, hout₁, ← append_assoc] at hout₂
  rw [hout₂, ← append_assoc] at hout₃
  rw [offset_eq hs hroom₃ hout₃, Nat.add_sub_cancel_left, hout₃, ← append_assoc] at hout
  exact ⟨fields ++ tlv asnSEQUENCE_CONSTRUCTOR varBinds, by simp [pduContent, hv, hf], hout⟩

theorem varBindHeaderWritten_of_granted {s : RBuf} (hs : s.Room 0) (hg : s.Granted) : VarBindHeaderWritten pdu s := by
  intro s₁ h₁
  rw [rbuildVarBinds_eq] at h₁
  rcases hv : varBindsOctets pdu.vars with - | varBinds
  · exact absurd h₁ (refuses_rbuildReverse hv).not_ok
  obtain ⟨s₁', hs₁', hroom, -, hg'⟩ := (emits_rbuildReverse hv).granted hs hg
  obtain rfl : s₁ = s₁' := by
    rw [h₁, Prod.mk.injEq] at hs₁'
    exact hs₁'.2
  obtain ⟨s₂, hs₂, -⟩ := (emits_reallocBuildHeader asnSEQUENCE_CONSTRUCTOR _).granted hroom hg'
  exact ⟨s₂, hs₂⟩

theorem pduReallocRbuild_granted {content : List UInt8} {s : RBuf}
    (hs : s.Room 0) (hg : s.Granted) (h : pduContent pdu = some content) :
    ∃ s', (pduReallocRbuild pdu).exec s = (.ok (), s') ∧ s'.out = tlv (commandOctet pdu.command) content ++ s.out := by
  obtain ⟨varBinds, hv, fields, hf, rfl⟩ := pduContent_eq_some h
  obtain ⟨s₁, hs₁, hroom₁, hout₁, hg₁⟩ := (emits_rbuildReverse hv).granted hs hg
  obtain ⟨s₂, hs₂, hroom₂, hout₂, hg₂⟩ :=
    (emits_reallocBuildHeader asnSEQUENCE_CONSTRUCTOR varBinds.length).granted hroom₁ hg₁
  obtain ⟨s₃, hs₃, hroom₃, hout₃, hg₃⟩ := (emits_fields hf).granted hroom₂ hg₂
  rw [hout₁, ← append_assoc] at hout₂
  rw [hout₂, ← append_assoc] at hout₃
  obtain ⟨s₄, hs₄, -, hout₄, -⟩ := (emits_reallocBuildHeader (commandOctet pdu.command)
    (fields ++ tlv asnSEQUENCE_CONSTRUCTOR varBinds).length).granted hroom₃ hg₃
  rw [hout₃, ← append_assoc] at hout₄
  refine ⟨s₄, ?_, hout₄⟩
  rw [pduReallocRbuild, exec_bind_ok s s (exec_get s), rbuildVarBinds_eq, exec_bind_ok s s₁ hs₁,
    exec_bind_ok s₁ s₂ (by
      rw [rbuildVarBindHeader_exec, offset_eq hs hroom₁ hout₁, Nat.add_sub_cancel_left, hs₂]),
    exec_bind_ok s₂ s₃ hs₃, exec_bind_ok s₃ s₃ (exec_get s₃), offset_eq hs hroom₃ hout₃,
    Nat.add_sub_cancel_left]
  exact hs₄

end Priot.Api
