/-
# Responses that arrive

What the parser leaves of a response is a message as the master takes it: its error status has two octets, and storing
a variable another time changes nothing.
-/
import Priot.Agentx.Inside
import Priot.Agentx.Master

namespace Priot.Agentx

open Api Octets List

variable {order : Bool} {data rest : List UInt8} {code : Returned}

theorem parseUInt_lt (order : Bool) (data : List UInt8) : parseUInt order data < 2 ^ 32 := by
  unfold parseUInt
  refine beNat_lt_of_length (n := 4) ?_ (by norm_num)
  split
  · exact length_take_le 4 _
  · rw [length_reverse]
    exact length_take_le 4 _

theorem parseShort_lt (order : Bool) (data : List UInt8) : parseShort order data < 2 ^ 16 := by
  unfold parseShort
  refine beNat_lt_of_length (n := 2) ?_ (by norm_num)
  split
  · exact length_take_le 2 _
  · rw [length_reverse]
    exact length_take_le 2 _

theorem opaqueValue_stored (s : List UInt8) : setVarTypedValue (opaqueValue s) = opaqueValue s := by
  unfold opaqueValue
  split
  · split_ifs <;> rfl
  · rfl

theorem parseValue_stored {c : Case} {value : Value} (h : parseValue order c data = .ok (some (value, rest))) :
    setVarTypedValue value = value := by
  have hread : ∀ {β : Type} {read : Except Fault (Option β)} {g : β → Value × List UInt8},
      (∀ y, setVarTypedValue (g y).1 = (g y).1) →
      (do let x ← read; return x.map g : Except Fault (Option (Value × List UInt8))) = .ok (some (value, rest)) →
      setVarTypedValue value = value := by
    intro β read g hg h
    cases read with
    | error fault => cases h
    | ok x =>
      obtain ⟨y, -, hy⟩ := Option.map_eq_some_iff.mp (Except.ok.inj h)
      have hvalue : (g y).1 = value := congrArg Prod.fst hy
      rw [← hvalue]
      exact hg y
  cases c with
  | integer =>
    simp only [parseValue, bind, Except.bind] at h
    split at h
    · cases h
    · next v _ =>
      cases h
      rw [setVarTypedValue, parseInt, if_neg]
      have hbound := (castInt_bounds (parseUInt order v.1)).2
      omega
  | unsigned t =>
    simp only [parseValue, bind, Except.bind] at h
    split at h
    · cases h
    · next v _ =>
      cases h
      rw [setVarTypedValue, if_neg]
      have hbound := parseUInt_lt order v.1
      omega
  | string t => exact hread (fun _ => rfl) h
  | opaqueStr => exact hread (fun y => opaqueValue_stored y.1) h
  | objectId => exact hread (fun _ => rfl) h
  | range inclusive => exact hread (fun _ => rfl) h
  | counter64 =>
    simp only [parseValue, bind, Except.bind] at h
    split at h
    · cases h
    · cases h
      unfold counter64Of
      dsimp only
      split <;> rfl
  | null t =>
    cases h
    rfl

theorem parseVarbind_stored {v : Variable} (h : parseVarbind order data = .ok (some (v, rest))) :
    setVarTypedValue v.value = v.value := by
  simp only [parseVarbind, bind, Except.bind] at h
  split at h
  · cases h
  · split at h
    · cases h
    · split at h
      · cases h
      · split at h
        · cases h
        · split at h
          · cases h
          · next hvalue =>
            obtain ⟨y, rfl, hy⟩ := Option.map_eq_some_iff.mp (Except.ok.inj h)
            cases hy
            exact parseValue_stored hvalue

/-- All variables of a list are stored as they are, by induction on the octets that are left. -/
theorem parseVarbinds_stored {vars vars' : List Variable} (hvars : ∀ x ∈ vars, setVarTypedValue x.value = x.value)
    (h : parseVarbinds order data vars = .ok (code, vars')) : ∀ x ∈ vars', setVarTypedValue x.value = x.value := by
  induction hn : data.length using Nat.strong_induction_on generalizing data vars with
  | _ n ih =>
    by_cases hmore : data = []
    · rw [parseVarbinds, if_pos hmore] at h
      cases h
      exact hvars
    · cases hread : parseVarbind order data with
      | error f =>
        rw [parseVarbinds_fault hmore hread] at h
        cases h
      | ok read =>
        cases read with
        | none =>
          rw [parseVarbinds_refused hmore hread] at h
          cases h
          exact hvars
        | some x =>
          obtain ⟨v, rest⟩ := x
          rw [parseVarbinds_more hmore hread] at h
          refine ih rest.length (hn ▸ parseVarbind_length hread) ?_ h rfl
          intro x hx
          rcases mem_append.mp hx with hx | hx
          · exact hvars x hx
          · rw [mem_singleton.mp hx]
            exact parseVarbind_stored hread

theorem parseBody_message {pdu pdu' : AgentxPdu} (hcommand : pdu.command = AGENTX_MSG_RESPONSE) (hvars : pdu.vars = [])
    (h : parseBody order pdu data = .ok (code, pdu')) : ∃ message : Message, message.pdu = pdu' := by
  have hother : ∀ command ∈ [AGENTX_MSG_OPEN, AGENTX_MSG_CLOSE, AGENTX_MSG_UNREGISTER, AGENTX_MSG_REGISTER,
      AGENTX_MSG_GETBULK, AGENTX_MSG_GETNEXT, AGENTX_MSG_GET], AGENTX_MSG_RESPONSE ≠ command := by decide
  simp only [mem_cons, not_mem_nil, or_false, forall_eq_or_imp, forall_eq] at hother
  obtain ⟨h₁, h₂, h₃, h₄, h₅, h₆, h₇⟩ := hother
  simp only [parseBody, hcommand, h₁, h₂, h₃, h₄, h₅, h₆, h₇, or_self, if_false, if_true, bind, Except.bind] at h
  split at h
  · cases h
  · split at h
    · cases h
    · next errors _ =>
      rw [AgentxPdu.withVars, hvars] at h
      cases hlist : parseVarbinds order errors.2 [] with
      | error f =>
        rw [hlist] at h
        cases h
      | ok read =>
        rw [hlist] at h
        cases h
        refine ⟨⟨_, ?_, ?_, parseVarbinds_stored (fun x hx => ?_) hlist⟩, rfl⟩
        · show (0 : Int) ≤ (parseShort order errors.1 : Nat)
          exact Int.natCast_nonneg _
        · show ((parseShort order errors.1 : Nat) : Int) < 2 ^ 16
          exact_mod_cast parseShort_lt order errors.1
        · cases hx

theorem parseBody_message_empty : ∃ code got, parseBody true { emptyPdu with command := AGENTX_MSG_RESPONSE }
    [0, 0, 0, 0, 0, 5, 0, 1] = .ok (code, got) ∧ ∃ message : Message, message.pdu = got := by
  obtain ⟨⟨code, got⟩, hread⟩ := (@parseBody_ok_iff true [0, 0, 0, 0, 0, 5, 0, 1]
    { emptyPdu with command := AGENTX_MSG_RESPONSE }).mpr ⟨by decide, .nil⟩
  exact ⟨code, got, hread, parseBody_message rfl rfl hread⟩

end Priot.Agentx
