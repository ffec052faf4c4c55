/-
# Replayed messages

The clock in the record of an engine never goes back. So a message that is delivered again is not newer than the
record, and it is a matter of the time window whether it is accepted.
-/
import Priot.Usm.Timeliness

namespace Priot.Usm

open List

/-! ## runs -/

/-- What a message says of the clock of an engine, and the time of the local clock when it is processed. -/
structure Message where
  clock : Nat
  id : List UInt8
  boots : Nat
  time : Nat

/-- A message that has been found authentic, or one that need not be. -/
inductive Event
  | authentic (m : Message)
  | unauthenticated (m : Message)

/-- The clocks, with the time of the local clock when the clock of an engine was received last. -/
structure Observed where
  clocks : Clocks
  received : List UInt8 → Nat

section

variable (scapiHash : List UInt8 → Option (List UInt8))

def Observed.receive (o : Observed) (m : Message) : ErrorCode × Observed :=
  let r := checkAndUpdateTimeliness scapiHash m.clock o.clocks m.id m.boots m.time
  let moved : Bool := r.1 = .success ∧
    searchInList scapiHash r.2.engines m.id = some ⟨m.id, m.boots, m.time, m.clock % 2 ^ 31, true⟩
  (r.1, ⟨r.2, if moved then Function.update o.received m.id m.clock else o.received⟩)

def Observed.step (o : Observed) : Event → Observed
  | .authentic m => (o.receive scapiHash m).2
  | .unauthenticated m => ⟨(set scapiHash m.clock o.clocks m.id m.boots m.time false).2, o.received⟩

def Observed.run (o : Observed) : List Event → Observed
  | [] => o
  | ev :: rest => (o.step scapiHash ev).run rest

/-- The message of an engine, if it is accepted. -/
def Observed.acceptedOf (o : Observed) (id : List UInt8) : Event → List Message
  | .authentic m => if m.id = id ∧ (o.receive scapiHash m).1 = .success then [m] else []
  | .unauthenticated _ => []

/-- The messages of an engine that are accepted. -/
def Observed.accepted (o : Observed) (id : List UInt8) : List Event → List Message
  | [] => []
  | ev :: rest => o.acceptedOf scapiHash id ev ++ (o.step scapiHash ev).accepted id rest

end

variable {scapiHash : List UInt8 → Option (List UInt8)} {o : Observed} {m : Message} {id : List UInt8} {e : Engine}

/-! ## a step -/

theorem getEx_snd (scapiHash : List UInt8 → Option (List UInt8)) (clock : Nat) (s : Clocks) (id : List UInt8) (authenticated : Bool) :
    (getEx scapiHash clock s id authenticated).2.engines = s.engines ∧
      (getEx scapiHash clock s id authenticated).2.v3.engineID = s.v3.engineID := by
  unfold getEx
  split
  · exact ⟨rfl, rfl⟩
  · split
    · exact ⟨rfl, rfl⟩
    · exact ⟨rfl, rfl⟩

theorem set_engineID (clock : Nat) (s : Clocks) (id : List UInt8) (boots time : Nat) (authenticated : Bool) :
    (set scapiHash clock s id boots time authenticated).2.v3.engineID = s.v3.engineID := by
  unfold set
  split
  · rfl
  · split
    · rfl
    · simp only []
      split
      · rfl
      · rfl

theorem checkAndUpdateTimeliness_shape (scapiHash : List UInt8 → Option (List UInt8)) (clock : Nat) (s : Clocks) (id : List UInt8) (boots time : Nat) :
    ∃ v3 : V3, v3.engineID = s.v3.engineID ∧
      ((checkAndUpdateTimeliness scapiHash clock s id boots time).2 = ⟨v3, s.engines⟩ ∨
        (checkAndUpdateTimeliness scapiHash clock s id boots time).2 =
          (set scapiHash clock ⟨v3, s.engines⟩ id boots time true).2) := by
  unfold checkAndUpdateTimeliness
  simp only []
  split
  · exact ⟨s.v3, rfl, .inl rfl⟩
  · split
    · split
      · exact ⟨(s.v3.localEngineTime clock).2, rfl, .inl rfl⟩
      · exact ⟨(s.v3.localEngineTime clock).2, rfl, .inl rfl⟩
    · obtain ⟨hengines, hid⟩ := getEx_snd scapiHash clock
        ⟨(s.v3.localEngineTime clock).2, s.engines⟩ id true
      generalize getEx scapiHash clock ⟨(s.v3.localEngineTime clock).2, s.engines⟩ id true = r at hengines hid ⊢
      obtain ⟨known, v3, engines⟩ := r
      obtain rfl : engines = s.engines := hengines
      refine ⟨v3, hid, ?_⟩
      cases known with
      | none => exact .inl rfl
      | some known =>
        obtain ⟨theirBoots, theirTime, theirLastTime⟩ := known
        rw [judge]
        split
        · exact .inl rfl
        · split
          · split
            · exact .inl rfl
            · exact .inl rfl
          · right
            generalize set scapiHash clock ⟨v3, s.engines⟩ id boots time true = r
            obtain ⟨code, s'⟩ := r
            cases code <;> rfl

theorem checkAndUpdateTimeliness_engineID (clock : Nat) (s : Clocks) (id : List UInt8) (boots time : Nat) :
    (checkAndUpdateTimeliness scapiHash clock s id boots time).2.v3.engineID = s.v3.engineID := by
  obtain ⟨v3, hid, hkept | hset⟩ := checkAndUpdateTimeliness_shape scapiHash clock s id boots time
  · rw [hkept]
    exact hid
  · rw [hset, set_engineID]
    exact hid

theorem checkAndUpdateTimeliness_of_ne {other : List UInt8} (hne : other ≠ id) (clock : Nat) (s : Clocks)
    (boots time : Nat) :
    searchInList scapiHash (checkAndUpdateTimeliness scapiHash clock s id boots time).2.engines other =
      searchInList scapiHash s.engines other := by
  obtain ⟨v3, -, hkept | hset⟩ := checkAndUpdateTimeliness_shape scapiHash clock s id boots time
  · rw [hkept]
  · rw [hset, set_of_ne hne]

theorem checkAndUpdateTimeliness_unauthenticated {s : Clocks} (hr : Remote s id)
    (hfind : searchInList scapiHash s.engines id = some e) (hauth : e.authenticatedFlag = false)
    (clock boots time : Nat) : ∃ v3 : V3, checkAndUpdateTimeliness scapiHash clock s id boots time =
      (.success, (set scapiHash clock ⟨v3, s.engines⟩ id boots time true).2) := by
  refine ⟨(s.v3.localEngineTime clock).2, ?_⟩
  have hset : (set scapiHash clock ⟨(s.v3.localEngineTime clock).2, s.engines⟩ id boots time true).1 = .success :=
    (set_of_found (s := ⟨(s.v3.localEngineTime clock).2, s.engines⟩) hfind (.inl rfl)).1
  have hzero : extrapolate 0 0 0 = (0, 0) := rfl
  rw [checkAndUpdateTimeliness_of_remote hr]
  unfold getEx
  simp only [hfind, hauth, hzero]
  rw [if_neg (by simp)]
  unfold judge
  simp only []
  rw [if_neg (by simp [ENGINEBOOT_MAX]), if_neg (by simp)]
  generalize set scapiHash clock ⟨(s.v3.localEngineTime clock).2, s.engines⟩ id boots time true = r at hset ⊢
  obtain ⟨code, s'⟩ := r
  obtain rfl : code = .success := hset
  rfl

theorem estimate_fst_ge (clock : Nat) (e : Engine) : e.engineBoot ≤ (e.estimate clock).1 := by
  unfold Engine.estimate extrapolate
  split
  · simp only []
    split <;> omega
  · exact Nat.le_refl _

theorem not_newer_of_moves {clock boots time : Nat} (h : e.Moves clock boots time) :
    e.engineBoot < boots ∨ e.engineBoot = boots ∧ e.engineTime ≤ time := by
  have hge := estimate_fst_ge clock e
  have hle := h.2
  omega

/-- What a message of another engine does: it moves the clock of the engine, or it changes nothing and is accepted
only if it is tolerated. -/
theorem receive_cases (hr : Remote o.clocks m.id) : ((o.receive scapiHash m).1 = .success ∧
      searchInList scapiHash (o.receive scapiHash m).2.clocks.engines m.id =
        some ⟨m.id, m.boots, m.time, m.clock % 2 ^ 31, true⟩ ∧
      (o.receive scapiHash m).2.received = Function.update o.received m.id m.clock ∧
      ∀ e, searchInList scapiHash o.clocks.engines m.id = some e → e.authenticatedFlag = true →
        e.Moves m.clock m.boots m.time) ∨ ((o.receive scapiHash m).2.clocks.engines = o.clocks.engines ∧
      (o.receive scapiHash m).2.received = o.received ∧
      ((o.receive scapiHash m).1 = .success → ∃ e, searchInList scapiHash o.clocks.engines m.id = some e ∧
        e.authenticatedFlag = true ∧ e.Tolerates m.clock m.boots m.time)) := by
  unfold Observed.receive
  simp only []
  cases hfind : searchInList scapiHash o.clocks.engines m.id with
  | none =>
    have hcheck : checkAndUpdateTimeliness scapiHash m.clock o.clocks m.id m.boots m.time =
        (.usmGenericError, ⟨(o.clocks.v3.localEngineTime m.clock).2, o.clocks.engines⟩) := by
      rw [checkAndUpdateTimeliness_of_remote hr]
      unfold getEx
      simp only [hfind]
      rfl
    rw [hcheck]
    exact .inr ⟨rfl, rfl, fun h => nomatch h⟩
  | some e =>
    have hmoved : ∀ v3 : V3, checkAndUpdateTimeliness scapiHash m.clock o.clocks m.id m.boots m.time =
        (.success, (set scapiHash m.clock ⟨v3, o.clocks.engines⟩ m.id m.boots m.time true).2) →
      searchInList scapiHash (checkAndUpdateTimeliness scapiHash m.clock o.clocks m.id m.boots m.time).2.engines m.id =
        some ⟨m.id, m.boots, m.time, m.clock % 2 ^ 31, true⟩ := by
      intro v3 hcheck
      rw [hcheck]
      exact (set_of_found (s := ⟨v3, o.clocks.engines⟩) hfind (.inl rfl)).2
    cases hauth : e.authenticatedFlag with
    | false =>
      obtain ⟨v3, hcheck⟩ := checkAndUpdateTimeliness_unauthenticated hr hfind hauth m.clock m.boots m.time
      have hfound := hmoved v3 hcheck
      have hsuccess := congrArg Prod.fst hcheck
      refine .inl ⟨hsuccess, hfound, ?_, fun e' he' hauth' => ?_⟩
      · rw [if_pos (by simpa using ⟨hsuccess, hfound⟩)]
      · rw [Option.some.injEq] at he'
        rw [← he', hauth] at hauth'
        exact nomatch hauth'
    | true =>
      obtain ⟨v3, -, hmoves, htolerates, hnone⟩ :=
        checkAndUpdateTimeliness_remote hr hfind hauth m.clock m.boots m.time
      by_cases h : e.Moves m.clock m.boots m.time
      · have hcheck := hmoves h
        have hfound := hmoved v3 hcheck
        have hsuccess := congrArg Prod.fst hcheck
        refine .inl ⟨hsuccess, hfound, ?_, fun e' he' _ => ?_⟩
        · rw [if_pos (by simpa using ⟨hsuccess, hfound⟩)]
        · rw [Option.some.injEq] at he'
          rwa [← he']
      · right
        by_cases h' : e.Tolerates m.clock m.boots m.time
        · rw [htolerates h']
          refine ⟨rfl, if_neg fun hmoved => ?_, fun _ => ⟨e, rfl, hauth, h'⟩⟩
          -- the record is newer than the message
          simp only [hfind, decide_eq_true_eq, Option.some.injEq] at hmoved
          have hlt := h'.2.2.1
          have htime := congrArg Engine.engineTime hmoved.2
          simp only [] at htime
          omega
        · rw [hnone h h']
          exact ⟨rfl, rfl, fun hcode => nomatch hcode⟩

/-! ## what is held -/

/-- What a message carries is in the range of the protocol. -/
def Message.InRange (m : Message) : Prop := m.boots ≤ ENGINEBOOT_MAX ∧ m.time ≤ ENGINETIME_MAX

def Event.message : Event → Message
  | .authentic m => m
  | .unauthenticated m => m

/-- The record of the engine of `m`, which was received at `o.received`, and which `m` is not newer than. -/
structure Held (scapiHash : List UInt8 → Option (List UInt8)) (o : Observed) (m : Message) (e : Engine) : Prop where
  found : searchInList scapiHash o.clocks.engines m.id = some e
  authenticated : e.authenticatedFlag = true
  boot_le : e.engineBoot ≤ ENGINEBOOT_MAX
  time_le : e.engineTime ≤ ENGINETIME_MAX
  received_eq : e.lastReceivedEngineTime = o.received m.id % 2 ^ 31
  notNewer : m.boots < e.engineBoot ∨ m.boots = e.engineBoot ∧ m.time ≤ e.engineTime

theorem remote_step (scapiHash : List UInt8 → Option (List UInt8)) (hr : Remote o.clocks id) (ev : Event) :
    Remote (o.step scapiHash ev).clocks id := by
  have hid : (o.step scapiHash ev).clocks.v3.engineID = o.clocks.v3.engineID := by
    cases ev with
    | authentic k => exact checkAndUpdateTimeliness_engineID _ _ _ _ _
    | unauthenticated k => exact set_engineID _ _ _ _ _ _
  obtain ⟨hknown, hle, hne⟩ := hr
  exact ⟨by rwa [hid], by rwa [hid], by rwa [hid]⟩

theorem Held.of_ne {k : Message} (h : Held scapiHash o m e) (hne : m.id ≠ k.id) :
    Held scapiHash (o.receive scapiHash k).2 m e ∧ (o.receive scapiHash k).2.received m.id = o.received m.id := by
  have hreceived : (o.receive scapiHash k).2.received m.id = o.received m.id := by
    unfold Observed.receive
    simp only []
    split
    · exact Function.update_of_ne hne _ _
    · rfl
  refine ⟨{ h with found := ?_, received_eq := ?_ }, hreceived⟩
  · exact (checkAndUpdateTimeliness_of_ne hne _ _ _ _).trans h.found
  · rw [hreceived, h.received_eq]

theorem Held.step {ev : Event} (h : Held scapiHash o m e) (hr : Remote o.clocks m.id) (hev : ev.message.InRange) :
    ∃ e', Held scapiHash (o.step scapiHash ev) m e' ∧ ((o.step scapiHash ev).received m.id = o.received m.id ∨
        ∃ k ∈ o.acceptedOf scapiHash m.id ev, (o.step scapiHash ev).received m.id = k.clock) := by
  cases ev with
  | unauthenticated k =>
    exact ⟨e, { h with found := set_unauthenticated h.found h.authenticated }, .inl rfl⟩
  | authentic k =>
    by_cases hid : k.id = m.id
    · have hrk : Remote o.clocks k.id := by rwa [hid]
      rcases receive_cases (m := k) hrk with ⟨hsuccess, hfound, hreceived, hmoves⟩ | ⟨hengines, hreceived, -⟩
      · rw [hid] at hfound hreceived hmoves
        have hclock : (o.step scapiHash (.authentic k)).received m.id = k.clock := by
          show (o.receive scapiHash k).2.received m.id = k.clock
          rw [hreceived, Function.update_self]
        have hnewer := not_newer_of_moves (hmoves e h.found h.authenticated)
        have hold := h.notNewer
        refine ⟨_, ⟨hfound, rfl, hev.1, hev.2, ?_, ?_⟩, .inr ⟨k, ?_, hclock⟩⟩
        · rw [hclock]
        · show m.boots < k.boots ∨ m.boots = k.boots ∧ m.time ≤ k.time
          omega
        · show k ∈ if k.id = m.id ∧ (o.receive scapiHash k).1 = .success then [k] else []
          rw [if_pos ⟨hid, hsuccess⟩]
          exact mem_singleton_self k
      · have hsame : (o.step scapiHash (.authentic k)).received m.id = o.received m.id := congrFun hreceived m.id
        refine ⟨e, { h with found := ?_, received_eq := ?_ }, .inl hsame⟩
        · show searchInList scapiHash (o.receive scapiHash k).2.clocks.engines m.id = some e
          rw [hengines, h.found]
        · rw [hsame, h.received_eq]
    · obtain ⟨hheld, hreceived⟩ := h.of_ne (k := k) fun heq => hid heq.symm
      exact ⟨e, hheld, .inl hreceived⟩

theorem Held.run {events : List Event} (h : Held scapiHash o m e) (hr : Remote o.clocks m.id)
    (hevents : ∀ ev ∈ events, ev.message.InRange) : ∃ e', Held scapiHash (o.run scapiHash events) m e' ∧
      ((o.run scapiHash events).received m.id = o.received m.id ∨
        ∃ k ∈ o.accepted scapiHash m.id events, (o.run scapiHash events).received m.id = k.clock) := by
  induction events generalizing o e with
  | nil => exact ⟨e, h, .inl rfl⟩
  | cons ev rest ih =>
    obtain ⟨e₁, h₁, hstep⟩ := h.step hr (hevents ev mem_cons_self)
    obtain ⟨e₂, h₂, hrest⟩ := ih h₁ (remote_step scapiHash hr ev) fun ev' hev' => hevents ev' (mem_cons_of_mem _ hev')
    refine ⟨e₂, h₂, ?_⟩
    rcases hrest with hsame | ⟨k, hk, hclock⟩
    · rcases hstep with hsame' | ⟨k, hk, hclock⟩
      · exact .inl (hsame.trans hsame')
      · exact .inr ⟨k, mem_append_left _ hk, hsame.trans hclock⟩
    · exact .inr ⟨k, mem_append_right _ hk, hclock⟩

/-! ## a message that is delivered again -/

/-- What is known of the engine of `m` when `m` is processed, if it is authentic. -/
structure Received (o : Observed) (m : Message) (e : Engine) : Prop where
  boot_le : e.engineBoot ≤ ENGINEBOOT_MAX
  time_le : e.engineTime ≤ ENGINETIME_MAX
  received_eq : e.lastReceivedEngineTime = o.received m.id % 2 ^ 31
  later : o.received m.id ≤ m.clock
  elapsed_lt : m.clock - o.received m.id < ENGINETIME_MAX - e.engineTime

theorem held_of_accepted (hr : Remote o.clocks m.id) (hm : m.InRange)
    (hknown : ∀ e, searchInList scapiHash o.clocks.engines m.id = some e → e.authenticatedFlag = true → Received o m e)
    (haccepted : (o.receive scapiHash m).1 = .success) :
    ∃ e, Held scapiHash (o.receive scapiHash m).2 m e ∧ (o.receive scapiHash m).2.received m.id ≤ m.clock := by
  rcases receive_cases hr with ⟨-, hfound, hreceived, -⟩ | ⟨hengines, hreceived, htolerates⟩
  · have hclock : (o.receive scapiHash m).2.received m.id = m.clock := by rw [hreceived, Function.update_self]
    refine ⟨_, ⟨hfound, rfl, hm.1, hm.2, ?_, .inr ⟨rfl, Nat.le_refl _⟩⟩, Nat.le_of_eq hclock⟩
    rw [hclock]
  · obtain ⟨e, hfind, hauth, -, heq, hlt, -⟩ := htolerates haccepted
    have hk := hknown e hfind hauth
    have hboot : (e.estimate m.clock).1 = e.engineBoot := by
      obtain ⟨hright, hwrong⟩ := estimate_eq hk.received_eq hk.later hk.time_le hk.elapsed_lt
      by_cases hwrapped : Wrapped (o.received m.id) m.clock
      · rw [hwrong hwrapped]
      · rw [hright hwrapped]
    have hfound : searchInList scapiHash (o.receive scapiHash m).2.clocks.engines m.id = some e := by
      rw [hengines, hfind]
    refine ⟨e, ⟨hfound, hauth, hk.boot_le, hk.time_le, ?_, ?_⟩, ?_⟩
    · rw [hreceived, hk.received_eq]
    · exact .inr ⟨by omega, by omega⟩
    · rw [hreceived]
      exact hk.later

/-- A run in which a message of another engine is accepted and, more than a time window after that and after every
other message of the engine that is accepted, delivered again. -/
structure Replay (scapiHash : List UInt8 → Option (List UInt8)) where
  start : Observed
  first : Message
  between : List Event
  again : Delivery scapiHash
  remote : Remote start.clocks first.id
  known : ∀ e, searchInList scapiHash start.clocks.engines first.id = some e → e.authenticatedFlag = true →
    Received start first e
  accepted : (start.receive scapiHash first).1 = .success
  first_inRange : first.InRange
  between_inRange : ∀ ev ∈ between, ev.message.InRange
  state : again.s = ((start.receive scapiHash first).2.run scapiHash between).clocks
  received : again.received = ((start.receive scapiHash first).2.run scapiHash between).received first.id
  same : again.id = first.id ∧ again.boots = first.boots ∧ again.time = first.time
  late : ∀ k ∈ first :: (start.receive scapiHash first).2.accepted scapiHash first.id between,
    k.clock + TIME_WINDOW < again.clock

namespace Replay

variable (r : Replay scapiHash)

theorem held : ∃ e, Held scapiHash ((r.start.receive scapiHash r.first).2.run scapiHash r.between) r.first e ∧
    ((r.start.receive scapiHash r.first).2.run scapiHash r.between).received r.first.id + TIME_WINDOW <
      r.again.clock := by
  obtain ⟨e, hheld, hle⟩ := held_of_accepted r.remote r.first_inRange r.known r.accepted
  have hremote := remote_step scapiHash r.remote (.authentic r.first)
  obtain ⟨e', hheld', hclock⟩ := hheld.run hremote r.between_inRange
  refine ⟨e', hheld', ?_⟩
  rcases hclock with hsame | ⟨k, hk, hclock⟩
  · have hlate := r.late r.first mem_cons_self
    omega
  · have hlate := r.late k (mem_cons_of_mem _ hk)
    omega

/-- It is rejected if and only if it does not repeat what was received last. -/
theorem rejected_iff : r.again.result.1 ≠ .success ↔ r.again.Plain := by
  obtain ⟨e, hheld, hlate⟩ := r.held
  obtain ⟨hid, hboots, htime⟩ := r.same
  have he : r.again.e = e := by
    have hfound := r.again.found
    rw [hid, r.state, hheld.found, Option.some.injEq] at hfound
    exact hfound.symm
  have hold := hheld.notNewer
  rw [← he, ← hboots, ← htime] at hold
  rw [← r.received] at hlate
  have helapsed : TIME_WINDOW < r.again.elapsed := by
    unfold Delivery.elapsed
    omega
  have hwindow : ∀ h : r.again.time < r.again.e.engineTime, ¬ r.again.InWindow := by
    rintro h ⟨-, -, hle⟩
    omega
  constructor
  · intro hrejected hmax heq
    refine ⟨fun hsame => ?_, fun _ hlt => ?_⟩
    · have hmoves := r.again.moves_iff.mpr ⟨hmax, .inr ⟨heq.symm, by omega⟩⟩
      rcases r.again.result_cases with ⟨-, hsuccess, -⟩ | ⟨hnot, -, -⟩
      · exact absurd hsuccess hrejected
      · exact absurd hmoves hnot
    · omega
  · intro hplain hsuccess
    rcases r.again.result_cases with ⟨hmoves, -, -⟩ | ⟨-, hiff, -⟩
    · obtain ⟨hmax, hle⟩ := r.again.moves_iff.mp hmoves
      have hzero := (hplain hmax (by omega)).1 (by omega)
      omega
    · obtain ⟨-, hin, hlt⟩ := r.again.tolerates_iff.mp (hiff.mp hsuccess)
      exact hwindow hlt hin

end Replay

/-- The time window is kept exactly for the messages that are plain, and of the messages that have been accepted before
those are rejected. -/
theorem timeliness_iff_plain (scapiHash : List UInt8 → Option (List UInt8)) :
    (∀ x : Delivery scapiHash, x.Exact ↔ x.Plain) ∧
      ∀ r : Replay scapiHash, r.again.result.1 ≠ .success ↔ r.again.Plain :=
  ⟨fun x => x.exact_iff, fun r => r.rejected_iff⟩

/-- A message that repeats what was received last, a quarter of an hour later. -/
def repeated : Delivery fun engineId => some engineId where
  s := ⟨⟨[1], 1, 0⟩, fun _ => [⟨[2], 5, 100, 10, true⟩]⟩
  id := [2]
  e := ⟨[2], 5, 100, 10, true⟩
  received := 10
  clock := 910
  boots := 5
  time := 100
  remote := ⟨by decide, by decide, by decide⟩
  found := by decide
  authenticated := rfl
  boot_le := by decide
  time_le := by decide
  received_eq := by decide
  later := by decide
  elapsed_lt := by decide
  boots_le := by decide
  message_time_le := by decide

/-- It is accepted. -/
theorem not_exact_repeated : repeated.result.1 = .success ∧
    ¬ ((∀ x : Delivery fun engineId => some engineId, x.Exact) ∧
      ∀ r : Replay fun engineId => some engineId, r.again.result.1 ≠ .success) := by
  refine ⟨by decide, fun h => ?_⟩
  have hplain := repeated.exact_iff.mp (h.1 repeated)
  exact absurd ((hplain (by decide) rfl).1 rfl) (by decide)

end Priot.Usm
