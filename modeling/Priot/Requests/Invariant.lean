/-
# The list of outstanding requests

The list holds the requests that have been sent and have not left it. Every operation keeps this, with the reasons for
which requests have left and a bound `B` on how often a request is sent again.
-/
import Priot.Requests.Session
import Mathlib.Data.List.Range

namespace Priot.Requests

open Lib InternalSession List

/-! ## what the log says -/

/-- The requests sent, in order. -/
def sentOf : List Event → List Nat
  | [] => []
  | .send i :: log => sentOf log ++ [i]
  | .transmit _ :: log => sentOf log
  | .callback _ _ _ :: log => sentOf log
  | .finish _ _ :: log => sentOf log

/-- How often a request has been transmitted. -/
def transmissions (i : Nat) (log : List Event) : Nat := log.count (.transmit i)

def Event.isFinish (i : Nat) : Event → Bool
  | .finish j _ => j = i
  | .send _ => false
  | .transmit _ => false
  | .callback _ _ _ => false

/-- How often a request has left the list. -/
def departures (i : Nat) (log : List Event) : Nat := log.countP (Event.isFinish i)

/-- A request may leave the list for a message with its id that was accepted, or after a timeout when it has been
sent again often enough. -/
def Cause.Justified (sp : Sess) (i : Nat) (log : List Event) : Cause → Prop
  | .message pdu rp =>
    rp.serial = i ∧
      (if pdu.fields.version = versionThree then rp.messageId = pdu.msgid else rp.requestId = pdu.fields.reqid) ∧
      ((rp.callback || sp.callback) → .callback .receivedMessage i true ∈ log)
  | .timeout now rp =>
    rp.serial = i ∧ rp.expireM < now ∧ sp.retries ≤ rp.retries ∧
      ((rp.callback || sp.callback) → ∃ accepted, .callback .timedOut i accepted ∈ log)

/-- Every request that has left the list had a reason to. -/
def AllJustified (sp : Sess) : List Event → Prop
  | [] => True
  | .send _ :: log => AllJustified sp log
  | .transmit _ :: log => AllJustified sp log
  | .callback _ _ _ :: log => AllJustified sp log
  | .finish i cause :: log => cause.Justified sp i log ∧ AllJustified sp log

/-- The list holds the requests that are outstanding, in the order in which they were sent, and `requestsEnd` is
its last node; each request leaves it once, and for a reason. -/
structure Sound (sp : Sess) (s : InternalSession) : Prop where
  list : ∃ l, Linked s.heap s.requests s.requestsEnd l ∧
    l.map (fun x => x.2.serial) = (sentOf s.log).filter fun i => departures i s.log = 0
  once : ∀ i, departures i s.log ≤ 1
  justified : AllJustified sp s.log

section Log

variable {i j : Nat} {log : List Event} {cause : Cause}

@[simp] theorem transmissions_transmit :
    transmissions i (.transmit j :: log) = transmissions i log + if j = i then 1 else 0 := by
  unfold transmissions
  rw [count_cons]
  simp

@[simp] theorem transmissions_send : transmissions i (.send j :: log) = transmissions i log := by
  simp [transmissions]

@[simp] theorem transmissions_finish : transmissions i (.finish j cause :: log) = transmissions i log := by
  simp [transmissions]

@[simp] theorem departures_finish :
    departures i (.finish j cause :: log) = departures i log + if j = i then 1 else 0 := by
  simp [departures, countP_cons, Event.isFinish]

end Log

/-! ## the invariant -/

/-- `l` is the list in memory. `B` bounds how often a request is sent again. -/
structure Inv (sp : Sess) (B : Nat) (s : InternalSession) (l : List (Ptr × Request)) : Prop where
  linked : Linked s.heap s.requests s.requestsEnd l
  sent : sentOf s.log = List.range s.serial
  outstanding : l.map (fun x => x.2.serial) = (List.range s.serial).filter fun i => departures i s.log = 0
  once : ∀ i, departures i s.log ≤ 1
  unsent : ∀ i, s.serial ≤ i → departures i s.log = 0 ∧ transmissions i s.log = 0
  justified : AllJustified sp s.log
  budget : ∀ x ∈ l, transmissions x.2.serial s.log ≤ 1 + x.2.retries ∧ x.2.retries ≤ B
  bound : ∀ i, transmissions i s.log ≤ 1 + B

variable {sp : Sess} {B : Nat} {s : InternalSession} {l pre post new : List (Ptr × Request)} {p : Ptr} {d : Request}

theorem Inv.opened (heap : Heap Request) : Inv sp B (.opened heap) [] where
  linked := .empty heap
  sent := rfl
  outstanding := rfl
  once _ := Nat.zero_le _
  unsent _ _ := ⟨rfl, rfl⟩
  justified := trivial
  budget _ hx := absurd hx not_mem_nil
  bound _ := Nat.zero_le _

theorem Inv.sound (hs : Inv sp B s l) : Sound sp s where
  list := ⟨l, hs.linked, by rw [hs.sent]; exact hs.outstanding⟩
  once := hs.once
  justified := hs.justified

theorem Inv.length_le (hs : Inv sp B s l) : l.length ≤ s.serial := by
  have h := congrArg List.length hs.outstanding
  rw [length_map] at h
  rw [h]
  exact (length_filter_le _ _).trans_eq length_range

theorem Inv.serial_of_mem (hs : Inv sp B s l) {x : Ptr × Request} (hx : x ∈ l) :
    x.2.serial < s.serial ∧ departures x.2.serial s.log = 0 := by
  have h : x.2.serial ∈ l.map fun x => x.2.serial := mem_map.mpr ⟨x, hx, rfl⟩
  rw [hs.outstanding, mem_filter, mem_range] at h
  exact ⟨h.1, of_decide_eq_true h.2⟩

theorem Inv.serials_nodup (hs : Inv sp B s l) : (l.map fun x => x.2.serial).Nodup := by
  rw [hs.outstanding]
  exact nodup_range.filter _

theorem deref_of_heap {c : Cell Request} (h : s.heap p = some c) : s.deref p = .ok c := by
  unfold InternalSession.deref
  rw [h]

theorem Inv.deref (hs : Inv sp B s (pre ++ (p, d) :: post)) : s.deref p = .ok ⟨post.head?.map Prod.fst, d⟩ :=
  deref_of_heap hs.linked.cell

theorem Inv.callback (hs : Inv sp B s l) (op : CallbackOp) (i : Nat) (accepted : Bool) :
    Inv sp B (s.record (.callback op i accepted)) l :=
  { hs with }

theorem Inv.freeme (hs : Inv sp B s l) {q : Option Ptr} (hq : ∀ p, q = some p → p ∉ l.map Prod.fst) :
    Inv sp B (s.freeme q) l := by
  cases q with
  | none => exact hs
  | some p => exact { hs with linked := hs.linked.update (hq p rfl) none }

/-! ## sending -/

/-- The requests that sending makes, when `serial` is the number of the first. -/
def Send.requests (x : Send) (serial : Nat) : List Request :=
  if x.sent ∧ x.node.isSome then [x.request serial] else []

def posted : Nat → List Send → List Request
  | _, [] => []
  | serial, x :: xs => x.requests serial ++ posted (serial + (x.requests serial).length) xs

/-- `s'` is `s` after some sending: `new` is appended. -/
structure Posted (sp : Sess) (B : Nat) (s s' : InternalSession) (l new : List (Ptr × Request)) : Prop where
  inv : Inv sp B s' (l ++ new)
  serial : s'.serial = s.serial + new.length

theorem range_filter_succ {n : Nat} {q q' : Nat → Bool} (h : ∀ i < n, q i = q' i) (hn : q n = true) :
    (List.range (n + 1)).filter q = (List.range n).filter q' ++ [n] := by
  rw [range_succ, filter_append, filter_cons_of_pos hn, filter_nil]
  congr 1
  exact filter_congr fun i hi => h i (mem_range.mp hi)

/-- A request is appended, whatever was done to the memory for it. -/
theorem Inv.append (hs : Inv sp B s l) (x : Send) {heap : Heap Request} {requests requestsEnd : Option Ptr}
    (hl : Linked heap requests requestsEnd (l ++ [(p, x.request s.serial)])) :
    Inv sp B ⟨heap, requests, requestsEnd, s.serial + 1, .transmit s.serial :: .send s.serial :: s.log⟩
      (l ++ [(p, x.request s.serial)]) where
  linked := hl
  sent := by
    show sentOf s.log ++ [s.serial] = _
    rw [hs.sent, range_succ]
  outstanding := by
    show _ = (List.range (s.serial + 1)).filter fun i => departures i s.log = 0
    rw [map_append, hs.outstanding]
    exact (range_filter_succ (fun _ _ => rfl) (decide_eq_true (hs.unsent _ le_rfl).1)).symm
  once := hs.once
  unsent i hi := by
    have hi : s.serial + 1 ≤ i := hi
    obtain ⟨h₁, h₂⟩ := hs.unsent i (by omega)
    refine ⟨h₁, ?_⟩
    rw [transmissions_transmit, transmissions_send, h₂, if_neg (by omega)]
  justified := hs.justified
  budget y hy := by
    rw [transmissions_transmit, transmissions_send]
    rcases mem_append.mp hy with hy | hy
    · obtain ⟨hlt, -⟩ := hs.serial_of_mem hy
      rw [if_neg (by omega)]
      exact hs.budget y hy
    · rw [mem_singleton] at hy
      subst hy
      have h := (hs.unsent s.serial le_rfl).2
      show transmissions s.serial s.log + (if s.serial = s.serial then 1 else 0) ≤ 1 + 0 ∧ 0 ≤ B
      rw [h, if_pos rfl]
      omega
  bound i := by
    rw [transmissions_transmit, transmissions_send]
    by_cases hi : s.serial = i
    · subst hi
      rw [(hs.unsent s.serial le_rfl).2, if_pos rfl]
      omega
    · rw [if_neg hi]
      exact hs.bound i

theorem sessAsyncSend_spec (hs : Inv sp B s l) (x : Send) :
    Ends (· = .inUse) (fun s' => ∃ new, Posted sp B s s' l new ∧ new.map Prod.snd = x.requests s.serial)
      (sessAsyncSend s x) := by
  have hsame (h : ¬(x.sent ∧ x.node.isSome)) :
      ∃ new, Posted sp B s s l new ∧ new.map Prod.snd = x.requests s.serial := by
    refine ⟨[], ⟨by rw [append_nil]; exact hs, rfl⟩, ?_⟩
    rw [Send.requests, if_neg h]
    rfl
  unfold sessAsyncSend
  match hsent : x.sent, hnode : x.node with
  | false, _ => exact hsame (by simp [hsent])
  | true, none => exact hsame (by simp [hnode])
  | true, some p =>
    simp only
    by_cases hp : (s.heap p).isSome
    · rw [if_pos hp]
      rfl
    rw [if_neg hp]
    have hp : s.heap p = none := by simpa using hp
    have hreq : [(p, x.request s.serial)].map Prod.snd = x.requests s.serial := by
      rw [Send.requests, if_pos (by simp [hsent, hnode])]
      rfl
    cases hend : s.requestsEnd with
    | none =>
      have hl := hs.linked
      rw [hend] at hl
      obtain ⟨-, hfirst, hl⟩ := hl.pushFirst p (x.request s.serial)
      exact ⟨_, ⟨hs.append x hl, rfl⟩, hreq⟩
    | some e =>
      have hl := hs.linked
      rw [hend] at hl
      obtain ⟨c, hc⟩ := hl.last_cell
      obtain ⟨-, hl⟩ := hl.pushBack hc hp (x.request s.serial)
      have hderef : ∀ q r n log, InternalSession.deref ⟨s.heap, q, r, n, log⟩ e = .ok c :=
        fun _ _ _ _ => deref_of_heap hc
      simp only []
      rw [hderef]
      exact ⟨_, ⟨hs.append x hl, rfl⟩, hreq⟩

theorem sendAll_spec (xs : List Send) (hs : Inv sp B s l) :
    Ends (· = .inUse) (fun s' => ∃ new, Posted sp B s s' l new ∧ new.map Prod.snd = posted s.serial xs)
      (sendAll s xs) := by
  induction xs generalizing s l with
  | nil => exact ⟨[], ⟨by rw [append_nil]; exact hs, rfl⟩, rfl⟩
  | cons x xs ih =>
    refine (sessAsyncSend_spec hs x).bind fun s₁ ⟨new₁, h₁, hreq₁⟩ => ?_
    refine (ih h₁.inv).mono fun s₂ ⟨new₂, h₂, hreq₂⟩ => ⟨new₁ ++ new₂, ⟨?_, ?_⟩, ?_⟩
    · rw [← append_assoc]
      exact h₂.inv
    · rw [h₂.serial, h₁.serial, length_append, Nat.add_assoc]
    · have hlen : new₁.length = (x.requests s.serial).length := by rw [← hreq₁, length_map]
      rw [map_append, hreq₁, hreq₂, h₁.serial, hlen]
      rfl

/-- How a callback of `rp` answers: what it appends, whether it returns 1, and the calls that are left. -/
def answer (sp : Sess) (serial : Nat) (rp : Request) (calls : List Call) : List Request × Bool × List Call :=
  if rp.callback || sp.callback then
    match calls with
    | call :: calls => (posted serial call.sends, call.accepted, calls)
    | [] => ([], true, [])
  else ([], true, calls)

theorem posted_length_le (serial : Nat) (xs : List Send) : (posted serial xs).length ≤ xs.length := by
  induction xs generalizing serial with
  | nil => exact le_rfl
  | cons x xs ih =>
    have hx : (x.requests serial).length ≤ 1 := by
      unfold Send.requests
      split <;> simp
    have := ih (serial + (x.requests serial).length)
    rw [posted, length_append, length_cons]
    omega

theorem answer_sendsLeft (sp : Sess) (serial : Nat) (rp : Request) (calls : List Call) :
    (answer sp serial rp calls).1.length + sendsLeft (answer sp serial rp calls).2.2 ≤ sendsLeft calls := by
  unfold answer
  split
  · cases calls with
    | nil => exact le_rfl
    | cons call calls =>
      have := posted_length_le serial call.sends
      show (posted serial call.sends).length + sendsLeft calls ≤ sendsLeft (call :: calls)
      unfold sendsLeft
      rw [map_cons, sum_cons]
      omega
  · exact (Nat.zero_add _).le

/-- After a callback, the list has grown by what it sent, and the log says what it returned. -/
structure Called (sp : Sess) (B : Nat) (s : InternalSession) (l : List (Ptr × Request)) (op : CallbackOp)
    (rp : Request) (calls : List Call) (r : InternalSession × Bool × List Call) (new : List (Ptr × Request)) :
    Prop where
  posted : Posted sp B s r.1 l new
  requests : new.map Prod.snd = (answer sp s.serial rp calls).1
  returned : r.2 = (answer sp s.serial rp calls).2
  logged : (rp.callback || sp.callback) → .callback op rp.serial r.2.1 ∈ r.1.log

theorem runCallback_spec (hs : Inv sp B s l) (op : CallbackOp) (rp : Request) (calls : List Call) :
    Ends (· = .inUse) (fun r => ∃ new, Called sp B s l op rp calls r new) (runCallback sp s op rp calls) := by
  have hsame : Posted sp B s s l [] := ⟨by rw [append_nil]; exact hs, rfl⟩
  unfold runCallback
  by_cases hcb : (rp.callback || sp.callback) = true
  · rw [if_pos hcb]
    cases calls with
    | nil =>
      have hans : answer sp s.serial rp [] = ([], true, []) := if_pos hcb
      exact ⟨[], ⟨hsame.inv.callback .., rfl⟩, by rw [hans]; rfl, by rw [hans], fun _ => mem_cons_self⟩
    | cons call calls =>
      have hans : answer sp s.serial rp (call :: calls) = (posted s.serial call.sends, call.accepted, calls) :=
        if_pos hcb
      refine (sendAll_spec call.sends hs).bind fun s₁ ⟨new, h, hreq⟩ => ?_
      exact ⟨new, ⟨h.inv.callback .., h.serial⟩, by rw [hans, hreq], by rw [hans], fun _ => mem_cons_self⟩
  · rw [if_neg hcb]
    have hans : answer sp s.serial rp calls = ([], true, calls) := if_neg hcb
    exact ⟨[], hsame, by rw [hans]; rfl, by rw [hans], fun h => absurd h hcb⟩

/-! ## sending again, and leaving the list -/

theorem serials_replace {d' : Request} (h : d'.serial = d.serial) :
    (pre ++ (p, d') :: post).map (fun x => x.2.serial) = (pre ++ (p, d) :: post).map fun x => x.2.serial := by
  rw [map_append, map_append, map_cons, map_cons, h]

theorem Inv.retry (hs : Inv sp B s (pre ++ (p, d) :: post)) (d' : Request) (hserial : d'.serial = d.serial)
    (hretries : d'.retries = d.retries + 1) (hB : d'.retries ≤ B) {more : List Event}
    (hmore : more = [] ∨ more = [.transmit d'.serial]) :
    Inv sp B { s.store p ⟨post.head?.map Prod.fst, d'⟩ with log := more ++ s.log } (pre ++ (p, d') :: post) := by
  have hsent : sentOf (more ++ s.log) = sentOf s.log := by
    rcases hmore with rfl | rfl <;> rfl
  have hdep (i : Nat) : departures i (more ++ s.log) = departures i s.log := by
    rcases hmore with rfl | rfl <;> rfl
  have htrans (i : Nat) (hi : i ≠ d.serial) : transmissions i (more ++ s.log) = transmissions i s.log := by
    rcases hmore with rfl | rfl
    · rfl
    · rw [singleton_append, transmissions_transmit, if_neg (by omega), Nat.add_zero]
  have htrans' : transmissions d.serial (more ++ s.log) ≤ transmissions d.serial s.log + 1 := by
    rcases hmore with rfl | rfl
    · exact Nat.le_succ _
    · rw [singleton_append, transmissions_transmit]
      split <;> omega
  have hmem : (p, d) ∈ pre ++ (p, d) :: post := mem_append_right _ mem_cons_self
  have hd := (hs.budget _ hmem).1
  have hlt := (hs.serial_of_mem hmem).1
  simp only [] at hd hlt
  refine ⟨hs.linked.setData d', ?_, ?_, fun i => ?_, fun i hi => ?_, ?_, fun x hx => ?_, fun i => ?_⟩
  · exact hsent.trans hs.sent
  · show _ = (List.range s.serial).filter fun i => departures i (more ++ s.log) = 0
    rw [serials_replace hserial, hs.outstanding]
    exact filter_congr fun i _ => by rw [hdep]
  · exact (hdep i).trans_le (hs.once i)
  · have hi : s.serial ≤ i := hi
    show departures i (more ++ s.log) = 0 ∧ transmissions i (more ++ s.log) = 0
    rw [hdep, htrans i (by omega)]
    exact hs.unsent i hi
  · rcases hmore with rfl | rfl <;> exact hs.justified
  · show transmissions x.2.serial (more ++ s.log) ≤ _ ∧ _
    by_cases hxp : x = (p, d')
    · subst hxp
      show transmissions d'.serial (more ++ s.log) ≤ 1 + d'.retries ∧ d'.retries ≤ B
      rw [hserial]
      omega
    · have hx' : x ∈ pre ++ (p, d) :: post := by
        rw [mem_append, mem_cons] at hx ⊢
        tauto
      have hne : x.2.serial ≠ d.serial := by
        intro heq
        have hnd := hs.serials_nodup
        have hxd := inj_on_of_nodup_map hnd hx' hmem heq
        subst hxd
        rw [mem_append, mem_cons] at hx
        obtain ⟨h₁, h₂⟩ := hs.linked.place_nodup
        rcases hx with hx | hx | hx
        · exact h₁ (mem_map.mpr ⟨_, hx, rfl⟩)
        · exact hxp hx
        · exact h₂ (mem_map.mpr ⟨_, hx, rfl⟩)
      rw [htrans _ hne]
      exact hs.budget x hx'
  · show transmissions i (more ++ s.log) ≤ 1 + B
    by_cases hi : i = d.serial
    · subst hi
      omega
    · rw [htrans i hi]
      exact hs.bound i

theorem resendRequest_spec (hs : Inv sp B s (pre ++ (p, d) :: post)) (hd : d.retries < B) (r : Resend) :
    Ends (fun _ => False) (fun x => ∃ d', Inv sp B x.1 (pre ++ (p, d') :: post)) (resendRequest s p r) := by
  cases r with
  | noBuffer => exact ⟨d, hs⟩
  | notSent msgid pdu =>
    show Ends _ _ (s.deref p >>= _)
    rw [hs.deref]
    exact ⟨_, hs.retry { d with retries := d.retries + 1, messageId := msgid, pdu } rfl rfl hd (.inl rfl)⟩
  | sent msgid pdu now =>
    show Ends _ _ (s.deref p >>= _)
    rw [hs.deref]
    exact ⟨_, hs.retry { d with retries := d.retries + 1, messageId := msgid, pdu, expireM := now + d.timeout } rfl rfl hd
      (.inr rfl)⟩

theorem filter_erase {xs : List Nat} {a b : List Nat} {k : Nat} {q q' : Nat → Bool} (hxs : xs.Nodup)
    (h : a ++ k :: b = xs.filter q) (hq : ∀ i, q' i = (q i && decide (i ≠ k))) : a ++ b = xs.filter q' := by
  have hnd : (a ++ k :: b).Nodup := h ▸ hxs.filter _
  obtain ⟨-, hkb, hdisj⟩ := nodup_append.mp hnd
  have ha : a.filter (fun i => decide (i ≠ k)) = a :=
    filter_eq_self.mpr fun i hi => decide_eq_true (hdisj i hi k mem_cons_self)
  have hb : b.filter (fun i => decide (i ≠ k)) = b :=
    filter_eq_self.mpr fun i hi => decide_eq_true fun heq => (nodup_cons.mp hkb).1 (heq ▸ hi)
  calc a ++ b = (a ++ k :: b).filter fun i => decide (i ≠ k) := by
        rw [filter_append, filter_cons_of_neg (by simp), ha, hb]
    _ = xs.filter q' := by
        rw [h, filter_filter]
        exact filter_congr fun i _ => by rw [hq, Bool.and_comm]

/-- A request leaves the list, whatever was done to the memory for it. -/
theorem Inv.depart (hs : Inv sp B s (pre ++ (p, d) :: post)) {cause : Cause}
    (hcause : cause.Justified sp d.serial s.log) {heap : Heap Request} {requests requestsEnd : Option Ptr}
    (hl : Linked heap requests requestsEnd (pre ++ post)) :
    Inv sp B ⟨heap, requests, requestsEnd, s.serial, .finish d.serial cause :: s.log⟩ (pre ++ post) := by
  have hmem : (p, d) ∈ pre ++ (p, d) :: post := mem_append_right _ mem_cons_self
  have hlt : d.serial < s.serial := (hs.serial_of_mem hmem).1
  have hdep : departures d.serial s.log = 0 := (hs.serial_of_mem hmem).2
  refine ⟨hl, hs.sent, ?_, fun i => ?_, fun i hi => ?_, ⟨hcause, hs.justified⟩, fun x hx => ?_, fun i => ?_⟩
  · have h := hs.outstanding
    rw [map_append, map_cons] at h
    have h : pre.map _ ++ d.serial :: post.map _ = _ := h
    rw [map_append]
    refine filter_erase nodup_range h fun i => ?_
    rw [departures_finish, ← Bool.decide_and]
    refine decide_eq_decide.mpr ?_
    split <;> omega
  · rw [departures_finish]
    split
    · next h =>
      rw [← h, hdep]
    · exact hs.once i
  · have hi : s.serial ≤ i := hi
    rw [departures_finish, if_neg (by omega), transmissions_finish]
    exact hs.unsent i hi
  · rw [transmissions_finish]
    refine hs.budget x ?_
    rw [mem_append, mem_cons]
    exact (mem_append.mp hx).imp_right .inr
  · rw [transmissions_finish]
    exact hs.bound i

theorem unlinkRequest_spec (hs : Inv sp B s (pre ++ (p, d) :: post)) {cause : Cause}
    (hcause : cause.Justified sp d.serial s.log) : Ends (fun _ => False)
      (fun s' => Inv sp B (s'.record (.finish d.serial cause)) (pre ++ post) ∧ p ∉ (pre ++ post).map Prod.fst ∧
        s'.deref p = .ok ⟨post.head?.map Prod.fst, d⟩) (unlinkRequest s (pre.getLast?.map Prod.fst) p) := by
  obtain ⟨hpre, hpost⟩ := hs.linked.place_nodup
  have hout : p ∉ (pre ++ post).map Prod.fst := by
    rw [map_append, mem_append, not_or]
    exact ⟨hpre, hpost⟩
  unfold unlinkRequest
  rw [hs.deref]
  rcases eq_nil_or_concat pre with rfl | ⟨pre', ⟨o, e⟩, rfl⟩
  · refine ⟨hs.depart hcause hs.linked.unlinkFirst, hout, ?_⟩
    exact deref_of_heap hs.linked.cell
  · rw [concat_eq_append] at hs hpre hout ⊢
    rw [append_assoc] at hs
    have hne : p ≠ o := by
      rintro rfl
      exact hpre (by simp)
    have hcell : s.deref o = .ok ⟨some p, e⟩ := hs.deref
    have hset (next : Option Ptr) : setNext s (some o) next = .ok (s.store o ⟨next, e⟩) := by
      show s.deref o >>= _ = _
      rw [hcell]
      rfl
    rw [getLast?_append]
    show Ends _ _ (setNext s (some o) _ >>= _)
    rw [hset]
    have hl := hs.linked.unlinkNext
    rw [append_cons] at hl
    rw [← append_assoc] at hs
    refine ⟨hs.depart hcause hl, hout, deref_of_heap ?_⟩
    show Function.update s.heap o _ p = _
    rw [Function.update_of_ne hne]
    exact hs.linked.cell

end Priot.Requests
