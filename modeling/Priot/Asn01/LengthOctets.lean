/-
# The three encoders of a length

`Asn01_buildLength` and `Asn01_buildSequence` write two octets of a length at most and do not ask whether it has more,
while `Asn01_reallocRbuildLength` writes as many as there are.
-/
import Priot.Asn01.BuildSpec

namespace Priot.Asn01

/-- The encoders of a length: in its shortest form up to two octets, in two octets, and from the end. -/
inductive LengthEncoder
  | buildLength
  | buildSequence (type : UInt8)
  | reallocRbuildLength

variable {enc : LengthEncoder} {n : Nat} {bs : List UInt8}

/-- The encoder reports success for a length, and these are its length octets. -/
def Produces : LengthEncoder → Nat → List UInt8 → Prop
  | .buildLength, n, bs => ∃ s s' u, (buildLength n).run s = some (u, s') ∧ s'.out = s.out ++ bs
  | .buildSequence type, n, bs => ∃ s s' u, (buildSequence type n).run s = some (u, s') ∧ s'.out = s.out ++ type :: bs
  | .reallocRbuildLength, n, bs =>
    ∃ s s' : RBuf, s.Room 0 ∧ (reallocRbuildLength n).exec s = (.ok (), s') ∧ s'.out = bs ++ s.out

/-- Two octets of a length. -/
def twoOctets (n : Nat) : List UInt8 := [0x82, UInt8.ofNat (n / 256 % 256), UInt8.ofNat (n % 256)]

/-! ## what the octets are read as -/

theorem isLength_twoOctets (n : Nat) : IsLength (twoOctets n) (n % 65536) := by
  have hvalue : Octets.beNat [UInt8.ofNat (n / 256 % 256), UInt8.ofNat (n % 256)] = n % 65536 := by
    rw [Octets.beNat_cons, Octets.beNat_singleton, Octets.toNat_ofNat_of_lt (by omega),
      Octets.toNat_ofNat_of_lt (by omega), List.length_singleton]
    omega
  rw [← hvalue]
  refine isLength_long rfl (List.cons_ne_nil _ _) ?_ ?_
  · show 2 ≤ 8
    decide
  · rw [hvalue]
    omega

theorem IsLength.unique {m : Nat} (h : IsLength bs n) (h' : IsLength bs m) : n = m := by
  have heq := (h (Stream'.const 0)).symm.trans (h' (Stream'.const 0))
  exact Option.some.inj (LengthOut.mk.inj heq).1

/-! ## which octets there are -/

theorem produces_buildSequence {type : UInt8} (h : Produces (.buildSequence type) n bs) : bs = twoOctets n := by
  obtain ⟨s, s', u, hrun, hout⟩ := h
  unfold buildSequence at hrun
  simp only [run_bind_eq_some, run_buildHeaderCheck_eq_some, run_emit_eq_some, run_spend_eq_some] at hrun
  obtain ⟨-, _, ⟨-, rfl⟩, -, _, rfl, rfl⟩ := hrun
  exact ((List.cons.inj (List.append_cancel_left hout)).2).symm

theorem produces_rbuildLength (h : Produces .reallocRbuildLength n bs) : bs = lengthOctets n := by
  obtain ⟨s, s', hs, hrun, hout⟩ := h
  obtain ⟨-, -, hout'⟩ := (emits_reallocRbuildLength n).of_exec hs hrun
  exact List.append_cancel_right (hout.symm.trans hout')

theorem produces_buildLength (hn : n ≤ 0xffff) (h : Produces .buildLength n bs) : bs = lengthOctets n := by
  obtain ⟨s, s', u, hrun, hout⟩ := h
  exact List.append_cancel_left (hout.symm.trans (buildLength_wrote hn hrun).out)

theorem produces_twoOctets (hn : 0xffff < n) (henc : enc ≠ .reallocRbuildLength) : Produces enc n (twoOctets n) := by
  cases enc with
  | buildLength =>
    refine ⟨⟨[], 3⟩, ⟨twoOctets n, 0⟩, (), ?_, rfl⟩
    unfold buildLength
    rw [if_neg (by omega), if_neg (by omega)]
    rfl
  | buildSequence type => exact ⟨⟨[], 4⟩, ⟨type :: twoOctets n, 0⟩, (), rfl, rfl⟩
  | reallocRbuildLength => exact absurd rfl henc

/-! ## round trips -/

/-- What an encoder writes for a length is read as the length, up to two octets or by the encoder that writes from
the end. -/
theorem lengthOctets_read_iff (hn : n < 2 ^ 63) (enc : LengthEncoder) :
    (∀ bs, Produces enc n bs → IsLength bs n) ↔ n ≤ 0xffff ∨ enc = .reallocRbuildLength := by
  constructor
  · intro hall
    by_contra hnot
    rw [not_or, Nat.not_le] at hnot
    have hread := hall _ (produces_twoOctets hnot.1 hnot.2)
    have hlow := hread.unique (isLength_twoOctets n)
    omega
  · intro hcond bs h
    cases enc with
    | buildLength =>
      have hle : n ≤ 0xffff := hcond.resolve_right nofun
      rw [produces_buildLength hle h]
      exact isLength_lengthOctets hn
    | buildSequence type =>
      have hle : n ≤ 0xffff := hcond.resolve_right nofun
      have hlow := isLength_twoOctets n
      rw [Nat.mod_eq_of_lt (Nat.lt_succ_of_le hle)] at hlow
      rw [produces_buildSequence h]
      exact hlow
    | reallocRbuildLength =>
      rw [produces_rbuildLength h]
      exact isLength_lengthOctets hn

theorem lengthOctets_read_iff_sequence :
    (∀ bs, Produces (.buildSequence 0x30) 300 bs → IsLength bs 300) ↔
      300 ≤ 0xffff ∨ LengthEncoder.buildSequence 0x30 = .reallocRbuildLength :=
  lengthOctets_read_iff (by norm_num) (.buildSequence 0x30)

/-- 65536 is written as 0. -/
theorem not_lengthOctets_read :
    ¬ ∀ (enc : LengthEncoder) (n : Nat) (bs : List UInt8), n < 2 ^ 63 → Produces enc n bs → IsLength bs n := by
  intro hall
  have hread := hall .buildLength 65536 (twoOctets 65536) (by norm_num) (produces_twoOctets (by norm_num) nofun)
  exact absurd (hread.unique (isLength_twoOctets 65536)) (by norm_num)

end Priot.Asn01
