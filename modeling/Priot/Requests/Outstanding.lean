/-
# Requests end once

The loops over the list keep its invariant whatever callbacks do. How often a request is transmitted depends on the
reports that come in: one that says notInTimeWindow has the request sent again without end.
-/
import Priot.Requests.Invariant

namespace Priot.Requests

open Lib InternalSession List

variable {sp : Sess} {B : Nat} {s : InternalSession} {l pre post suf : List (Ptr × Request)} {p : Ptr} {d : Request}
  {pdu : Message} {resend : Resend} {calls : List Call}

/-! ## the loops -/

/-- The request of a list that a message is accepted for: callbacks that return 0 are passed by, and what they have
appended is part of the list. -/
inductive Accepts (sp : Sess) (pdu : Message) : Nat → List Call → List Request → Request → Prop
  | here {n : Nat} {calls : List Call} {rp : Request} {rps : List Request} :
      scan pdu rp = .callback → (answer sp n rp calls).2.1 = true → Accepts sp pdu n calls (rp :: rps) rp
  | skip {n : Nat} {calls : List Call} {rp r : Request} {rps : List Request} :
      scan pdu rp = .skip → Accepts sp pdu n calls rps r → Accepts sp pdu n calls (rp :: rps) r
  | refused {n : Nat} {calls : List Call} {rp r : Request} {rps : List Request} :
      scan pdu rp = .callback → (answer sp n rp calls).2.1 = false →
      Accepts sp pdu (n + (answer sp n rp calls).1.length) (answer sp n rp calls).2.2
        (rps ++ (answer sp n rp calls).1) r →
      Accepts sp pdu n calls (rp :: rps) r

theorem scan_callback (h : scan pdu d = .callback) :
    if pdu.fields.version = versionThree then d.messageId = pdu.msgid else d.requestId = pdu.fields.reqid := by
  unfold scan at h
  split at h
  · next hv =>
    rw [if_pos hv]
    split at h
    · cases h
    · next hid => exact not_not.mp hid
  · next hv =>
    rw [if_neg hv]
    split at h
    · cases h
    · next hid => exact not_not.mp hid

theorem accept_spec (hs : Inv sp B s (pre ++ (p, d) :: post)) (hscan : scan pdu d = .callback)
    (hlog : (d.callback || sp.callback) → .callback .receivedMessage d.serial true ∈ s.log)
    (hB : pdu.report → pdu.notInTimeWindow → d.retries ≤ sp.retries → d.retries < B) :
    Ends (fun _ => False) (fun s' => ∃ l', Inv sp B s' l') (accept sp pdu resend s (pre.getLast?.map Prod.fst) p) := by
  unfold accept
  rw [hs.deref]
  show Ends _ _ (if pdu.report ∧ pdu.notInTimeWindow ∧ d.retries ≤ sp.retries then _ else _)
  by_cases hre : pdu.report ∧ pdu.notInTimeWindow ∧ d.retries ≤ sp.retries
  · rw [if_pos hre]
    exact (resendRequest_spec hs (hB hre.1 hre.2.1 hre.2.2) resend).bind fun x ⟨d', hx⟩ => ⟨_, hx⟩
  rw [if_neg hre]
  show Ends _ _ (if pdu.report ∧ pdu.noEngineMemory then _ else _)
  by_cases hmem : pdu.report ∧ pdu.noEngineMemory
  · rw [if_pos hmem]
    exact ⟨_, hs⟩
  rw [if_neg hmem]
  have hcause : (Cause.message pdu d).Justified sp d.serial s.log := ⟨rfl, scan_callback hscan, hlog⟩
  refine (unlinkRequest_spec hs hcause).bind fun s' ⟨h, hout, _⟩ => ⟨pre ++ post, ?_⟩
  exact h.freeme (q := some p) fun q hq => by
    cases hq
    exact hout

/-! One round of the loop, at a request that is in use. -/

section Round

variable {c : Cell Request} {n : Nat} {orp : Option Ptr}

theorem packetLoop_stop (hc : s.deref p = .ok c) (h : scan pdu c.data = .stop) :
    packetLoop sp pdu resend (n + 1) s calls orp (some p) = .ok s := by
  unfold packetLoop
  simp only [hc, bind, Except.bind, h]

theorem packetLoop_skip (hc : s.deref p = .ok c) (h : scan pdu c.data = .skip) :
    packetLoop sp pdu resend (n + 1) s calls orp (some p) = packetLoop sp pdu resend n s calls (some p) c.next := by
  conv => lhs; unfold packetLoop
  simp only [hc, bind, Except.bind, h]

theorem packetLoop_callback (hc : s.deref p = .ok c) (h : scan pdu c.data = .callback) :
    packetLoop sp pdu resend (n + 1) s calls orp (some p) = runCallback sp s .receivedMessage c.data calls >>= fun r =>
        if r.2.1 then accept sp pdu resend r.1 orp p
        else r.1.deref p >>= fun c => packetLoop sp pdu resend n r.1 r.2.2 (some p) c.next := by
  conv => lhs; unfold packetLoop
  simp only [hc, bind, Except.bind, h]

variable {now : Nat} {resends : Nat → Resend} {q : Option Ptr}

theorem timeoutLoop_waiting (hc : (s.freeme q).deref p = .ok c) (h : ¬c.data.expireM < now) :
    timeoutLoop sp now resends (n + 1) s calls orp q (some p) =
      timeoutLoop sp now resends n (s.freeme q) calls (some p) none c.next := by
  conv => lhs; unfold timeoutLoop
  simp only [hc, bind, Except.bind, if_neg h]

theorem timeoutLoop_resend (hc : (s.freeme q).deref p = .ok c) (h : c.data.expireM < now)
    (hr : ¬sp.retries ≤ c.data.retries) : timeoutLoop sp now resends (n + 1) s calls orp q (some p) =
      resendRequest (s.freeme q) p (resends c.data.serial) >>= fun r => if r.2 then .ok r.1
        else r.1.deref p >>= fun c => timeoutLoop sp now resends n r.1 calls (some p) none c.next := by
  conv => lhs; unfold timeoutLoop
  simp only [hc, bind, Except.bind, if_pos h, if_neg hr]

theorem timeoutLoop_finish (hc : (s.freeme q).deref p = .ok c) (h : c.data.expireM < now)
    (hr : sp.retries ≤ c.data.retries) : timeoutLoop sp now resends (n + 1) s calls orp q (some p) =
      runCallback sp (s.freeme q) .timedOut c.data calls >>= fun r => unlinkRequest r.1 orp p >>= fun s =>
          (s.record (.finish c.data.serial (.timeout now c.data))).deref p >>= fun c' =>
            timeoutLoop sp now resends n (s.record (.finish c.data.serial (.timeout now c.data))) r.2.2 orp (some p)
              c'.next := by
  conv => lhs; unfold timeoutLoop
  simp only [hc, bind, Except.bind, if_pos h, if_pos hr]

end Round

theorem place_next (pre : List (Ptr × Request)) (p : Ptr) (d : Request) :
    (pre ++ [(p, d)]).getLast?.map Prod.fst = some p := by
  rw [getLast?_append]
  rfl

theorem packetLoop_spec (n : Nat) (hs : Inv sp B s (pre ++ suf)) (hn : suf.length + sendsLeft calls ≤ n)
    (hB : pdu.report → pdu.notInTimeWindow → ∀ rp, Accepts sp pdu s.serial calls (suf.map Prod.snd) rp →
      rp.retries ≤ sp.retries → rp.retries < B) : Ends (· = .inUse) (fun s' => ∃ l', Inv sp B s' l')
      (packetLoop sp pdu resend n s calls (pre.getLast?.map Prod.fst) (suf.head?.map Prod.fst)) := by
  induction n generalizing s pre suf calls with
  | zero =>
    obtain rfl : suf = [] := length_eq_zero_iff.mp (by omega)
    exact ⟨_, hs⟩
  | succ n ih =>
    match suf with
    | [] => exact ⟨_, hs⟩
    | (p, d) :: post =>
      rw [length_cons] at hn
      show Ends _ _ (packetLoop sp pdu resend (n + 1) s calls _ (some p))
      cases hscan : scan pdu d with
      | stop =>
        rw [packetLoop_stop hs.deref hscan]
        exact ⟨_, hs⟩
      | skip =>
        rw [packetLoop_skip hs.deref hscan, ← place_next pre p d]
        rw [append_cons] at hs
        exact ih hs (by omega) fun hr hw rp hacc => hB hr hw rp (.skip hscan hacc)
      | callback =>
        rw [packetLoop_callback hs.deref hscan]
        refine (runCallback_spec hs .receivedMessage d calls).bind fun r ⟨new, hr⟩ => ?_
        have hs' := hr.posted.inv
        rw [append_assoc, cons_append] at hs'
        cases hret : r.2.1 with
        | true =>
          rw [if_pos rfl]
          refine (accept_spec hs' hscan (fun h => hret ▸ hr.logged h) fun hrep hw hle => ?_).of_never
          exact hB hrep hw d (.here hscan (hr.returned ▸ hret)) hle
        | false =>
          rw [if_neg Bool.false_ne_true, hs'.deref]
          show Ends _ _ (packetLoop sp pdu resend n r.1 r.2.2 (some p) _)
          have hleft := answer_sendsLeft sp s.serial d calls
          rw [← hr.requests, ← hr.returned, length_map] at hleft
          rw [← place_next pre p d]
          rw [append_cons] at hs'
          refine ih hs' (by rw [length_append]; omega) fun hrep hw rp hacc => hB hrep hw rp ?_
          rw [map_append, hr.posted.serial, hr.requests, hr.returned, ← length_map Prod.snd, hr.requests] at hacc
          exact .refused hscan (hr.returned ▸ hret) hacc

theorem timeoutLoop_spec {now : Nat} {resends : Nat → Resend} {q : Option Ptr} (n : Nat) (hB : sp.retries ≤ B)
    (hs : Inv sp B s (pre ++ suf)) (hq : ∀ p, q = some p → p ∉ (pre ++ suf).map Prod.fst)
    (hn : suf.length + sendsLeft calls ≤ n) : Ends (· = .inUse) (fun s' => ∃ l', Inv sp B s' l')
      (timeoutLoop sp now resends n s calls (pre.getLast?.map Prod.fst) q (suf.head?.map Prod.fst)) := by
  induction n generalizing s pre suf calls q with
  | zero =>
    obtain rfl : suf = [] := length_eq_zero_iff.mp (by omega)
    exact ⟨_, hs.freeme hq⟩
  | succ n ih =>
    match suf with
    | [] => exact ⟨_, hs.freeme hq⟩
    | (p, d) :: post =>
      rw [length_cons] at hn
      show Ends _ _ (timeoutLoop sp now resends (n + 1) s calls _ q (some p))
      have hnone : ∀ xs : List (Ptr × Request), ∀ p, none = some p → p ∉ xs.map Prod.fst := fun _ _ h => nomatch h
      replace hs := hs.freeme hq
      by_cases hexp : d.expireM < now
      · by_cases hret : sp.retries ≤ d.retries
        · rw [timeoutLoop_finish hs.deref hexp hret]
          refine (runCallback_spec hs .timedOut d calls).bind fun r ⟨new, hr⟩ => ?_
          have hs' := hr.posted.inv
          rw [append_assoc, cons_append] at hs'
          have hcause : (Cause.timeout now d).Justified sp d.serial r.1.log :=
            ⟨rfl, hexp, hret, fun h => ⟨_, hr.logged h⟩⟩
          refine (unlinkRequest_spec hs' hcause).of_never.bind fun s' ⟨h, hout, hderef⟩ => ?_
          show Ends _ _ ((s'.deref p) >>= _)
          rw [hderef]
          have hleft := answer_sendsLeft sp (s.freeme q).serial d calls
          rw [← hr.requests, ← hr.returned, length_map] at hleft
          refine ih h (fun p' hp' => ?_) (by rw [length_append]; omega)
          cases hp'
          exact hout
        · rw [timeoutLoop_resend hs.deref hexp hret]
          refine (resendRequest_spec hs (by omega) _).of_never.bind fun r ⟨d', hr⟩ => ?_
          cases r.2 with
          | true => exact ⟨_, hr⟩
          | false =>
            rw [if_neg Bool.false_ne_true, hr.deref, ← place_next pre p d']
            rw [append_cons] at hr
            exact ih hr (hnone _) (by omega)
      · rw [timeoutLoop_waiting hs.deref hexp, ← place_next pre p d]
        rw [append_cons] at hs
        exact ih hs (hnone _) (by omega)

/-! ## runs -/

/-- A report that says notInTimeWindow is accepted only for a request that has not been sent again as often as the
session says. -/
def WithinBudget (sp : Sess) (s : InternalSession) : Action → Prop
  | .packet pdu _ calls =>
    pdu.report → pdu.notInTimeWindow → ∀ l, Linked s.heap s.requests s.requestsEnd l →
      ∀ rp, Accepts sp pdu s.serial calls (l.map Prod.snd) rp → rp.retries ≠ sp.retries
  | .send _ => True
  | .timeout _ _ _ => True

theorem step_spec (hs : Inv sp B s l) (hle : sp.retries ≤ B) (a : Action)
    (hB : B = sp.retries + 1 ∨ (B = sp.retries ∧ WithinBudget sp s a)) :
    Ends (· = .inUse) (fun s' => ∃ l', Inv sp B s' l') (step sp s a) := by
  have hn (calls : List Call) : l.length + sendsLeft calls ≤ s.serial + sendsLeft calls :=
    Nat.add_le_add_right hs.length_le _
  have hs₀ : Inv sp B s ([] ++ l) := hs
  cases a with
  | send x => exact (sessAsyncSend_spec hs x).mono fun s' ⟨new, h, _⟩ => ⟨_, h.inv⟩
  | packet pdu resend calls =>
    show Ends _ _ (packetLoop sp pdu resend (s.serial + sendsLeft calls) s calls none s.requests)
    rw [hs.linked.seg.start]
    refine packetLoop_spec _ hs₀ (hn calls) fun hr hw rp hacc hle => ?_
    rcases hB with rfl | ⟨rfl, hin⟩
    · omega
    · have := hin hr hw l hs.linked rp hacc
      omega
  | timeout now resends calls =>
    show Ends _ _ (timeoutLoop sp now resends (s.serial + sendsLeft calls) s calls none none s.requests)
    rw [hs.linked.seg.start]
    exact timeoutLoop_spec _ hle hs₀ (fun _ h => nomatch h) (hn calls)

theorem Reachable.inv {A : InternalSession → Action → Prop} (h : Reachable sp A s) (hle : sp.retries ≤ B)
    (hB : ∀ s a, A s a → B = sp.retries + 1 ∨ (B = sp.retries ∧ WithinBudget sp s a)) : ∃ l, Inv sp B s l := by
  induction h with
  | opened heap => exact ⟨[], .opened heap⟩
  | step _ ha hstep ih =>
    obtain ⟨l, hs⟩ := ih
    exact (step_spec hs hle _ (hB _ _ ha)).of_ok hstep

/-- In every run the list is sound, and no operation follows a pointer to a node that is not there or goes on for
ever. Where notInTimeWindow is only accepted for a request with a try left, every request is transmitted at most
once more than the session retries. -/
theorem requests_end_once (sp : Sess) :
    (∀ s, Reachable sp (fun _ _ => True) s →
      Sound sp s ∧ ∀ a e, step sp s a = .error e → e = .inUse) ∧
    (∀ s, Reachable sp (WithinBudget sp) s →
      Sound sp s ∧ ∀ i, transmissions i s.log ≤ 1 + sp.retries) := by
  constructor
  · intro s hs
    obtain ⟨l, hinv⟩ := hs.inv (Nat.le_succ sp.retries) fun _ _ _ => .inl rfl
    exact ⟨hinv.sound, fun a e he => (step_spec hinv (Nat.le_succ _) a (.inl rfl)).of_error he⟩
  · intro s hs
    obtain ⟨l, hinv⟩ := hs.inv le_rfl fun _ _ h => .inr ⟨rfl, h⟩
    exact ⟨hinv.sound, hinv.bound⟩

/-! One request in a session without retries, and a report that says notInTimeWindow. -/

def discoveryPdu : PduFields :=
  { reqid := 1, version := 3, securityModel := 3, securityLevel := 1, contextEngineID := [], contextName := [],
    securityEngineID := [], securityName := [] }

def discovery : Send :=
  { sent := true, node := some 100, pdu := discoveryPdu, msgid := 7, callback := true, timeout := 1000000, now := 0 }

def notInTimeWindow : Message :=
  { fields := discoveryPdu, msgid := 7, report := true, notInTimeWindow := true, noEngineMemory := false }

/-- The request is transmitted twice. -/
theorem not_requests_end_once :
    ¬∀ sp s, Reachable sp (fun _ _ => True) s → Sound sp s ∧ ∀ i, transmissions i s.log ≤ 1 + sp.retries := by
  intro h
  have hrun : Reachable ⟨0, true⟩ (fun _ _ => True) _ :=
    .step (a := .packet notInTimeWindow (.sent 8 discoveryPdu 5) [])
      (.step (a := .send discovery) (.opened fun _ => none) trivial rfl) trivial rfl
  have hlog := (h _ _ hrun).2 0
  exact absurd hlog (by decide)

end Priot.Requests
