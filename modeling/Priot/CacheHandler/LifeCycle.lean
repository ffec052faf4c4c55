/-
# The life cycle of a cache

Caches with a root OID, a load hook and a free hook, the requests that pass the cache handler, the timers and the
alarms. The hooks leave the fields of a cache alone, and no time passes during a call. Allocations succeed, and alarm
numbers do not run out. The trace is not in the source.
-/
import Mathlib.Data.Fintype.Basic
import Mathlib.Data.List.FinRange
import Mathlib.Tactic.Cases
import Mathlib.Tactic.Ring

namespace Priot.CacheHandler

open List

/-! ## caches -/

def CACHE_RELEASE_FREQUENCY : Nat := 60

/-- `CacheOperation_e`, as far as the cache handler looks at it. -/
structure Flags where
  dontInvalidateOnSet : Bool
  dontFreeBeforeLoad : Bool
  dontFreeExpired : Bool
  dontAutoRelease : Bool
  preload : Bool
  autoReload : Bool
  resetTimerOnUse : Bool

/-- What `CacheHandler_create` is given. The timeout is in seconds, and for -1 the cache is always expired. -/
structure Cache where
  flags : Flags
  timeout : Int
  range : timeout = -1 ∨ 1 ≤ timeout ∧ timeout < 2 ^ 31

/-- The fields of a cache that change, with the one flag that does. -/
structure Live where
  autoReload : Bool
  valid : Bool
  expired : Bool
  timestampM : Option Nat
  timerId : Nat

def Cache.create (cache : Cache) : Live := ⟨cache.flags.autoReload, false, false, none, 0⟩

inductive Callback (n : Nat)
  | timerReload (c : Fin n)
  | releaseCachedResources
  deriving DecidableEq

structure Alarm (n : Nat) where
  id : Nat
  seconds : Nat
  repeats : Bool
  callback : Callback n

inductive Event (n : Nat)
  | load (c : Fin n) (ok : Bool) (time : Nat)
  | free (c : Fin n)
  | use (c : Fin n) (time : Nat)
  deriving DecidableEq

/-- The state of the agent. The clock is monotonic and counts microseconds. -/
structure State (n : Nat) where
  now : Nat
  live : Fin n → Live
  outstandingValid : Bool
  alarms : List (Alarm n)
  nextAlarm : Nat
  noted : List (Nat × Fin n)
  trace : List (Event n)

variable {n : Nat}

namespace State

variable (s : State n)

def record (e : Event n) : State n := { s with trace := s.trace ++ [e] }

def modify (c : Fin n) (f : Live → Live) : State n := { s with live := Function.update s.live c (f (s.live c)) }

def register (seconds : Nat) (repeats : Bool) (callback : Callback n) : State n :=
  { s with alarms := s.alarms ++ [⟨s.nextAlarm, seconds, repeats, callback⟩], nextAlarm := s.nextAlarm + 1 }

def unregister (id : Nat) : State n := { s with alarms := s.alarms.filter (·.id ≠ id) }

def free2 (c : Fin n) : State n := (s.record (.free c)).modify c fun l => { l with valid := false }

end State

/-! ## the cache handler -/

/-- `Time_readyMonotonic`, for a time that has been marked. -/
def readyMonotonic (now pm deltaMs : Int) : Bool :=
  let sec := (now - pm) / 1000000
  let usec := (now - pm) % 1000000
  if sec = deltaMs.tdiv 1000 then deltaMs.tmod 1000 * 1000 ≤ usec else deltaMs.tdiv 1000 ≤ sec

/-- `1000 * cache->timeout`, an `int`. -/
def Cache.timeoutMs (cache : Cache) : Int := Int.bmod (1000 * cache.timeout) (2 ^ 32)

/-- The value of `cache->expired` behind `CacheHandler_checkExpired`. -/
def expiry (cache : Cache) (now : Nat) (l : Live) : Bool :=
  if l.expired = true then true
  else if l.valid = false ∨ cache.timeout = -1 then true
  else l.timestampM.elim true fun pm => readyMonotonic now pm cache.timeoutMs

namespace State

variable (caches : Fin n → Cache) (s : State n)

def checkExpired (c : Fin n) : State n × Bool :=
  let expired := expiry (caches c) s.now (s.live c)
  (s.modify c fun l => { l with expired := expired }, expired)

/-- A pass of the auto-release routine is scheduled, if there is none. -/
def scheduleRelease (c : Fin n) : State n :=
  if s.outstandingValid = false ∧ (caches c).flags.dontFreeExpired = false then
    { s.register CACHE_RELEASE_FREQUENCY false .releaseCachedResources with outstandingValid := true }
  else s

/-- The end of `_CacheHandler_load`, behind a load that was successful. -/
def loaded (c : Fin n) : State n :=
  ((s.modify c fun l => { l with valid := true, expired := false }).scheduleRelease caches c).modify c fun l =>
    { l with timestampM := some s.now }

/-- `_CacheHandler_load`, for a load hook that returns `ret`. -/
def load (c : Fin n) (ret : Int) : State n × Int :=
  let s := if (s.live c).valid = true ∧ (caches c).flags.dontFreeBeforeLoad = false then s.free2 c else s
  let s := s.record (.load c (decide (0 ≤ ret)) s.now)
  if ret < 0 then (s.modify c fun l => { l with valid := false }, ret) else (s.loaded caches c, ret)

def checkAndReload (c : Fin n) (ret : Int) : State n × Int :=
  if (s.live c).valid = false then s.load caches c ret
  else
    let (s, expired) := s.checkExpired caches c
    if expired = true then s.load caches c ret else (s, 0)

/-- `Time_setMonotonicMarker` at the end of `CacheHandler_helperHandler`. -/
def resetTimer (c : Fin n) : State n :=
  if (caches c).flags.resetTimerOnUse = true then
    (s.record (.use c s.now)).modify c fun l => { l with timestampM := some s.now }
  else s

inductive Mode
  | get
  | getNext
  | getBulk
  | setReserve1
  | setReserve2
  | setAction
  | setCommit
  | setFree
  | setUndo
  | other

/-- `CacheHandler_helperHandler`, where caching may be disabled. The caches that a request has touched are noted with
it. -/
def helperHandler (c : Fin n) (noCaching : Bool) (reqinfo : Nat) (mode : Mode) (ret : Int) : State n :=
  if noCaching = true then s
  else
    let touch :=
      if (reqinfo, c) ∈ s.noted ∧ (s.live c).valid = true then s
      else
        let s := (s.checkAndReload caches c ret).1
        { s with noted := if (reqinfo, c) ∈ s.noted then s.noted else s.noted ++ [(reqinfo, c)] }
    match mode with
    | .get => touch.resetTimer caches c
    | .getNext => touch.resetTimer caches c
    | .getBulk => touch.resetTimer caches c
    | .setReserve1 => touch.resetTimer caches c
    | .setReserve2 => s.resetTimer caches c
    | .setFree => s.resetTimer caches c
    | .setAction => s.resetTimer caches c
    | .setUndo => s.resetTimer caches c
    | .setCommit =>
      let s :=
        if (s.live c).valid = true ∧ (caches c).flags.dontInvalidateOnSet = false then s.free2 c else s
      s.resetTimer caches c
    | .other => s

def timerReload (c : Fin n) (ret : Int) : State n :=
  ((s.modify c fun l => { l with expired := true }).load caches c ret).1

def timerStart (c : Fin n) : State n :=
  if (s.live c).timerId ≠ 0 then s
  else if (s.live c).autoReload = false then s
  else
    let id := s.nextAlarm
    (s.register ((caches c).timeout % 2 ^ 32).toNat true (.timerReload c)).modify c fun l =>
      { l with timerId := id, autoReload := false }

def timerStop (c : Fin n) : State n :=
  if (s.live c).timerId = 0 then s
  else (s.unregister (s.live c).timerId).modify c fun l => { l with autoReload := true }

def handlerGet (c : Fin n) (ret : Int) : State n :=
  let s := if (caches c).flags.preload = true ∧ (s.live c).valid = false then (s.load caches c ret).1 else s
  if (s.live c).autoReload = true then s.timerStart caches c else s

/-- What `CacheHandler_releaseCachedResources` does with one cache. -/
def visit (c : Fin n) : State n :=
  if (s.live c).valid = true ∧ (caches c).flags.dontAutoRelease = false then
    let (s, expired) := s.checkExpired caches c
    if expired = true then if (caches c).flags.dontFreeExpired = false then s.free2 c else s
    else { s with outstandingValid := true }
  else s

/-- `CacheHandler_releaseCachedResources`. The cache that was created last is the head of the list. -/
def releaseCachedResources : State n :=
  let s := (List.finRange n).reverse.foldl (visit caches) { s with outstandingValid := false }
  if s.outstandingValid = true then s.register CACHE_RELEASE_FREQUENCY false .releaseCachedResources else s

/-- An alarm fires. One that does not repeat is unregistered behind its callback. -/
def fire (id : Nat) (ret : Int) : State n :=
  match s.alarms.find? (·.id = id) with
  | none => s
  | some a =>
    let s :=
      match a.callback with
      | .timerReload c => s.timerReload caches c ret
      | .releaseCachedResources => s.releaseCachedResources caches
    if a.repeats = true then s else s.unregister id

end State

/-! ## runs -/

/-- What is done. The numbers `ret` are those that the load hook returns, if it is called. -/
inductive Op (n : Nat)
  | wait (us : Nat)
  | request (c : Fin n) (noCaching : Bool) (reqinfo : Nat) (mode : State.Mode) (ret : Int)
  | timerStart (c : Fin n)
  | timerStop (c : Fin n)
  | handlerGet (c : Fin n) (ret : Int)
  | fire (id : Nat) (ret : Int)

/-- The agent with all caches created. The alarm numbers start with 1. -/
def State.start (caches : Fin n → Cache) : State n := ⟨0, fun c => (caches c).create, false, [], 1, [], []⟩

def State.step (caches : Fin n → Cache) (s : State n) : Op n → State n
  | .wait us => { s with now := s.now + us }
  | .request c noCaching reqinfo mode ret => s.helperHandler caches c noCaching reqinfo mode ret
  | .timerStart c => s.timerStart caches c
  | .timerStop c => s.timerStop c
  | .handlerGet c ret => s.handlerGet caches c ret
  | .fire id ret => s.fire caches id ret

def State.run (caches : Fin n → Cache) (s : State n) (ops : List (Op n)) : State n := ops.foldl (State.step caches) s

/-! ## what is asked of the caches -/

/-- The time of the load whose data a cache holds behind an event. -/
def heldBehind (c : Fin n) (held : Option Nat) : Event n → Option Nat
  | .load d ok t => if d = c then (if ok = true then some t else none) else held
  | .free d => if d = c then none else held
  | .use _ _ => held

/-- The time of the load whose data a cache holds, if it holds any. -/
def held (c : Fin n) (trace : List (Event n)) : Option Nat := trace.foldl (heldBehind c) none

/-- The data of a cache, or its last use since, is no older than its timeout. -/
def Recent (cache : Cache) (now t : Nat) : Prop := (now : Int) - t ≤ cache.timeout * 1000000

/-- What holds of the caches in every state that is reached. -/
structure InStep (caches : Fin n → Cache) (s : State n) : Prop where
  /-- Only data that has been loaded is freed. -/
  freesLoaded : ∀ pre c post, s.trace = pre ++ .free c :: post → held c pre ≠ none
  /-- Between a load that was successful and the next one the data is freed once. -/
  freesOnce : ∀ c, (caches c).flags.dontFreeBeforeLoad = false → (caches c).flags.dontFreeExpired = false →
    ∀ pre t mid ok t' post, s.trace = pre ++ .load c true t :: (mid ++ .load c ok t' :: post) →
      (∀ ok t, .load c ok t ∉ mid) → mid.count (.free c) = 1
  /-- Data that is released in time waits for an alarm. -/
  releases : ∀ c, (s.live c).valid = true → (caches c).flags.dontAutoRelease = false →
    (caches c).flags.dontFreeExpired = false → ∃ a ∈ s.alarms, a.callback = .releaseCachedResources
  /-- A timer that has been stopped does not reload. -/
  stops : ∀ c, ∀ a ∈ (s.timerStop c).alarms, a.callback ≠ .timerReload c

/-- The data that a cache holds behind a successful check is recent. -/
def Fresh (caches : Fin n → Cache) (s : State n) : Prop :=
  ∀ c ret, 0 < (caches c).timeout → 0 ≤ (s.checkAndReload caches c ret).2 →
    ∃ t, held c (s.checkAndReload caches c ret).1.trace = some t ∧ Recent (caches c) s.now t

/-- A timer that was running and has been stopped runs again when it is started. -/
def Restarts (caches : Fin n → Cache) (s : State n) : Prop :=
  ∀ c, (∃ a ∈ s.alarms, a.callback = .timerReload c) → ∀ ops,
    ∃ a ∈ (((s.timerStop c).run caches ops).timerStart caches c).alarms, a.callback = .timerReload c

/-- The data that a cache holds behind a successful check is recent, or it has been used since and the last use is. -/
def FreshOrUsed (caches : Fin n → Cache) (s : State n) : Prop :=
  ∀ c ret, 0 < (caches c).timeout → 0 ≤ (s.checkAndReload caches c ret).2 →
    ∃ t, held c (s.checkAndReload caches c ret).1.trace = some t ∧
      (Recent (caches c) s.now t ∨
        (caches c).flags.resetTimerOnUse = true ∧ ∃ u, t ≤ u ∧ .use c u ∈ s.trace ∧ Recent (caches c) s.now u)

/-! ## traces -/

section Traces

variable {caches : Fin n → Cache} {c d : Fin n} {trace : List (Event n)}

theorem held_concat (c : Fin n) (trace : List (Event n)) (e : Event n) :
    held c (trace ++ [e]) = heldBehind c (held c trace) e := by
  rw [held, foldl_append, foldl_cons, foldl_nil, held]

/-- What may come behind a trace: data is freed if it is there, and else loaded. -/
def Allowed (caches : Fin n → Cache) (trace : List (Event n)) : Event n → Prop
  | .load c _ _ => (caches c).flags.dontFreeBeforeLoad = false → held c trace = none
  | .free c => held c trace ≠ none
  | .use _ _ => True

def AllAllowed (caches : Fin n → Cache) (trace : List (Event n)) : Prop :=
  ∀ pre e post, trace = pre ++ e :: post → Allowed caches pre e

theorem AllAllowed.concat {e : Event n} (h : AllAllowed caches trace) (he : Allowed caches trace e) :
    AllAllowed caches (trace ++ [e]) := by
  intro pre e' post heq
  rcases eq_nil_or_concat post with rfl | ⟨post', e'', rfl⟩
  · obtain ⟨rfl, hlast⟩ := append_inj' heq rfl
    rw [← (List.cons.inj hlast).1]
    exact he
  · rw [concat_eq_append, ← cons_append, ← append_assoc] at heq
    exact h pre e' post' (append_inj' heq rfl).1

/-- 1, if a cache holds data. -/
def holds (c : Fin n) (trace : List (Event n)) : Nat := if held c trace = none then 0 else 1

theorem count_free {mid post : List (Event n)} (h : AllAllowed caches (trace ++ (mid ++ post)))
    (hmid : ∀ ok t, .load c ok t ∉ mid) : mid.count (.free c) + holds c (trace ++ mid) = holds c trace := by
  induction mid generalizing trace with
  | nil => rw [count_nil, append_nil, Nat.zero_add]
  | cons e mid ih =>
    have hallowed : Allowed caches trace e := h trace e (mid ++ post) rfl
    have hrest : AllAllowed caches ((trace ++ [e]) ++ (mid ++ post)) := by
      rw [append_assoc]
      exact h
    have hstep := ih hrest fun ok t hload => hmid ok t (mem_cons_of_mem e hload)
    have hbehind : holds c (trace ++ [e]) = if heldBehind c (held c trace) e = none then 0 else 1 := by
      rw [holds, held_concat]
    rw [append_assoc, singleton_append, hbehind] at hstep
    cases e with
    | load d ok t =>
      -- a load of this cache is excluded
      have hne : d ≠ c := by
        rintro rfl
        exact hmid ok t mem_cons_self
      have hother : (Event.load d ok t : Event n) ≠ .free c := fun h => by cases h
      rw [heldBehind, if_neg hne] at hstep
      rw [count_cons_of_ne hother, hstep, holds]
    | free d =>
      by_cases heq : d = c
      · rw [heldBehind, if_pos heq, if_pos rfl] at hstep
        rw [heq] at hallowed hstep ⊢
        have hheld : holds c trace = 1 := if_neg hallowed
        rw [count_cons_self, hheld]
        omega
      · rw [heldBehind, if_neg heq] at hstep
        have hne : (Event.free d : Event n) ≠ .free c := fun h => heq (Event.free.inj h)
        rw [count_cons_of_ne hne, hstep, holds]
    | use d t =>
      have hother : (Event.use d t : Event n) ≠ .free c := by
        intro h
        cases h
      rw [heldBehind] at hstep
      rw [count_cons_of_ne hother, hstep, holds]

theorem AllAllowed.freesOnce (h : AllAllowed caches trace) (hflag : (caches c).flags.dontFreeBeforeLoad = false)
    {pre mid post : List (Event n)} {t t' : Nat} {ok : Bool}
    (htrace : trace = pre ++ .load c true t :: (mid ++ .load c ok t' :: post)) (hmid : ∀ ok t, .load c ok t ∉ mid) :
    mid.count (.free c) = 1 := by
  have hsplit : trace = (pre ++ [.load c true t]) ++ (mid ++ .load c ok t' :: post) := by
    rw [htrace, append_assoc, singleton_append]
  have hcount := @count_free _ _ c (pre ++ [.load c true t]) _ _ (hsplit ▸ h) hmid
  have hfirst : holds c (pre ++ [.load c true t]) = 1 := by
    rw [holds, held_concat, heldBehind, if_pos rfl, if_pos rfl, if_neg (Option.some_ne_none t)]
  -- the second load is allowed, so nothing is held before it
  have hlast : held c (pre ++ [.load c true t] ++ mid) = none := by
    refine h _ (.load c ok t') post ?_ hflag
    rw [hsplit, append_assoc, append_assoc, append_assoc]
  rw [hfirst, holds, if_pos hlast] at hcount
  exact hcount

end Traces

/-! ## the invariant -/

namespace State

@[simp] theorem modify_live_self (s : State n) (c : Fin n) (f : Live → Live) : (s.modify c f).live c = f (s.live c) :=
  Function.update_self c _ s.live

@[simp] theorem modify_live_of_ne (s : State n) {c d : Fin n} (h : d ≠ c) (f : Live → Live) :
    (s.modify c f).live d = s.live d := Function.update_of_ne h _ s.live

theorem modify_field {β : Type} (g : Live → β) (s : State n) (c d : Fin n) {f : Live → Live} (hf : ∀ l, g (f l) = g l) :
    g ((s.modify c f).live d) = g (s.live d) := by
  by_cases h : d = c
  · rw [h, modify_live_self, hf]
  · rw [modify_live_of_ne s h]

end State

section Invariant

variable {caches : Fin n → Cache} {s s' : State n} {c : Fin n}

/-- What a cache knows of its data: whether it is there, and a time from which on it is taken to be recent. -/
structure CacheInv (caches : Fin n → Cache) (s : State n) (c : Fin n) : Prop where
  valid : (s.live c).valid = true ↔ held c s.trace ≠ none
  stamped : ∀ t, held c s.trace = some t → ∃ m, (s.live c).timestampM = some m ∧ t ≤ m ∧ m ≤ s.now ∧
    (m = t ∨ (caches c).flags.resetTimerOnUse = true ∧ .use c m ∈ s.trace)

structure LogInv (caches : Fin n → Cache) (s : State n) : Prop where
  allowed : AllAllowed caches s.trace
  cache : ∀ c, CacheInv caches s c

/-- A reload alarm has the number of the timer of its cache, and no other alarm has it. -/
structure AlarmInv (s : State n) : Prop where
  reloads : ∀ a ∈ s.alarms, ∀ c, a.callback = .timerReload c → a.repeats = true ∧ a.id = (s.live c).timerId
  releases : ∀ a ∈ s.alarms, a.callback = .releaseCachedResources →
    a.repeats = false ∧ ∀ c, a.id ≠ (s.live c).timerId
  ids : ∀ a ∈ s.alarms, 0 < a.id ∧ a.id < s.nextAlarm
  timers : ∀ c, (s.live c).timerId < s.nextAlarm
  started : 0 < s.nextAlarm

/-- An auto-release alarm is pending. -/
def ReleasePending (s : State n) : Prop := ∃ a ∈ s.alarms, a.callback = .releaseCachedResources

/-- A cache is released in time. -/
def Released (cache : Cache) (l : Live) : Prop :=
  l.valid = true ∧ cache.flags.dontAutoRelease = false ∧ cache.flags.dontFreeExpired = false

structure Inv (caches : Fin n → Cache) (s : State n) : Prop where
  log : LogInv caches s
  alarm : AlarmInv s
  pending : s.outstandingValid = true → ReleasePending s
  outstanding : ∀ c, Released (caches c) (s.live c) → s.outstandingValid = true

theorem LogInv.congr (h : LogInv caches s) (htrace : s'.trace = s.trace) (hnow : s.now ≤ s'.now)
    (hlive : ∀ c, (s'.live c).valid = (s.live c).valid ∧ (s'.live c).timestampM = (s.live c).timestampM) :
    LogInv caches s' := by
  refine ⟨htrace ▸ h.allowed, fun c => ⟨?_, ?_⟩⟩
  · rw [(hlive c).1, htrace]
    exact (h.cache c).valid
  · intro t ht
    rw [htrace] at ht ⊢
    obtain ⟨m, hm, hle, hpast, hkind⟩ := (h.cache c).stamped t ht
    exact ⟨m, (hlive c).2.trans hm, hle, Nat.le_trans hpast hnow, hkind⟩

theorem LogInv.extend (h : LogInv caches s) {e : Event n} (htrace : s'.trace = s.trace ++ [e])
    (hnow : s'.now = s.now) (he : Allowed caches s.trace e)
    (hother : ∀ d, d ≠ c → heldBehind d (held d s.trace) e = held d s.trace ∧ s'.live d = s.live d)
    (hc : CacheInv caches s' c) : LogInv caches s' := by
  refine ⟨htrace ▸ h.allowed.concat he, fun d => ?_⟩
  by_cases hd : d = c
  · rw [hd]
    exact hc
  · obtain ⟨hheld, hlive⟩ := hother d hd
    refine ⟨?_, ?_⟩
    · rw [hlive, htrace, held_concat, hheld]
      exact (h.cache d).valid
    · intro t ht
      rw [htrace, held_concat, hheld] at ht
      obtain ⟨m, hm, hle, hpast, hkind⟩ := (h.cache d).stamped t ht
      refine ⟨m, by rw [hlive, hm], hle, by rw [hnow]; exact hpast, ?_⟩
      rw [htrace]
      exact hkind.imp_right fun huse => ⟨huse.1, mem_append_left _ huse.2⟩

theorem AlarmInv.congr (h : AlarmInv s) (halarms : s'.alarms = s.alarms) (hnext : s'.nextAlarm = s.nextAlarm)
    (htimers : ∀ c, (s'.live c).timerId = (s.live c).timerId) : AlarmInv s' where
  reloads a ha c hcallback := by
    rw [htimers]
    exact h.reloads a (halarms ▸ ha) c hcallback
  releases a ha hcallback := by
    refine (h.releases a (halarms ▸ ha) hcallback).imp_right fun hids c => ?_
    rw [htimers]
    exact hids c
  ids a ha := by
    rw [hnext]
    exact h.ids a (halarms ▸ ha)
  timers c := by
    rw [htimers, hnext]
    exact h.timers c
  started := by
    rw [hnext]
    exact h.started

theorem AlarmInv.register (h : AlarmInv s) (seconds : Nat) :
    AlarmInv (s.register seconds false .releaseCachedResources) where
  reloads a ha c hcallback := by
    rcases mem_append.1 ha with hold | hnew
    · exact h.reloads a hold c hcallback
    · rw [mem_singleton.1 hnew] at hcallback
      cases hcallback
  releases a ha hcallback := by
    rcases mem_append.1 ha with hold | hnew
    · exact h.releases a hold hcallback
    · rw [mem_singleton.1 hnew]
      exact ⟨rfl, fun c => Nat.ne_of_gt (h.timers c)⟩
  ids a ha := by
    rcases mem_append.1 ha with hold | hnew
    · exact ⟨(h.ids a hold).1, Nat.lt_succ_of_lt (h.ids a hold).2⟩
    · rw [mem_singleton.1 hnew]
      exact ⟨h.started, Nat.lt_succ_self _⟩
  timers c := Nat.lt_succ_of_lt (h.timers c)
  started := Nat.succ_pos _

theorem AlarmInv.unregister (h : AlarmInv s) (id : Nat) : AlarmInv (s.unregister id) where
  reloads a ha := h.reloads a (mem_of_mem_filter ha)
  releases a ha := h.releases a (mem_of_mem_filter ha)
  ids a ha := h.ids a (mem_of_mem_filter ha)
  timers := h.timers
  started := h.started

theorem ReleasePending.register (h : ReleasePending s) (seconds : Nat) (repeats : Bool) (callback : Callback n) :
    ReleasePending (s.register seconds repeats callback) := by
  obtain ⟨a, ha, hcallback⟩ := h
  exact ⟨a, mem_append_left _ ha, hcallback⟩

theorem Inv.congr (h : Inv caches s) (htrace : s'.trace = s.trace) (hnow : s.now ≤ s'.now)
    (halarms : s'.alarms = s.alarms) (hnext : s'.nextAlarm = s.nextAlarm)
    (houtstanding : s'.outstandingValid = s.outstandingValid)
    (hlive : ∀ c, (s'.live c).valid = (s.live c).valid ∧ (s'.live c).timestampM = (s.live c).timestampM ∧
      (s'.live c).timerId = (s.live c).timerId) : Inv caches s' where
  log := h.log.congr htrace hnow fun c => ⟨(hlive c).1, (hlive c).2.1⟩
  alarm := h.alarm.congr halarms hnext fun c => (hlive c).2.2
  pending hvalid := by
    rw [ReleasePending, halarms]
    exact h.pending (houtstanding ▸ hvalid)
  outstanding c hreleased := by
    rw [houtstanding]
    refine h.outstanding c ⟨?_, hreleased.2⟩
    rw [← (hlive c).1]
    exact hreleased.1

/-! ## loads and frees -/

theorem CacheInv.empty (hheld : held c s.trace = none) (hvalid : (s.live c).valid = false) : CacheInv caches s c := by
  refine ⟨?_, ?_⟩
  · rw [hheld, hvalid]
    exact iff_of_false Bool.false_ne_true fun hne => hne rfl
  · intro t ht
    rw [hheld] at ht
    exact absurd ht.symm (Option.some_ne_none t)

theorem CacheInv.full (hheld : held c s.trace = some s.now) (hvalid : (s.live c).valid = true)
    (hstamp : (s.live c).timestampM = some s.now) : CacheInv caches s c := by
  refine ⟨?_, ?_⟩
  · rw [hheld, hvalid]
    exact iff_of_true rfl (Option.some_ne_none _)
  · intro t ht
    rw [hheld] at ht
    exact ⟨s.now, hstamp, Nat.le_of_eq (Option.some.inj ht).symm, Nat.le_refl _, .inl (Option.some.inj ht)⟩

theorem LogInv.free2 (h : LogInv caches s) (hvalid : (s.live c).valid = true) : LogInv caches (s.free2 c) := by
  refine h.extend (e := .free c) (c := c) rfl rfl ((h.cache c).valid.1 hvalid) ?_ (CacheInv.empty ?_ ?_)
  · intro d hd
    exact ⟨if_neg (Ne.symm hd), State.modify_live_of_ne _ hd _⟩
  · exact (held_concat c s.trace (.free c)).trans (if_pos rfl)
  · rw [State.free2, State.modify_live_self]

theorem Inv.free2 (h : Inv caches s) (hvalid : (s.live c).valid = true) : Inv caches (s.free2 c) where
  log := h.log.free2 hvalid
  alarm := h.alarm.congr rfl rfl fun d => State.modify_field Live.timerId _ c d fun _ => rfl
  pending := h.pending
  outstanding d hreleased := by
    by_cases hd : d = c
    · rw [State.free2, hd, State.modify_live_self] at hreleased
      exact absurd hreleased.1 Bool.false_ne_true
    · rw [State.free2, State.modify_live_of_ne _ hd] at hreleased
      exact h.outstanding d hreleased

theorem Inv.failed (h : Inv caches s) (hallowed : Allowed caches s.trace (.load c false s.now)) :
    Inv caches ((s.record (.load c false s.now)).modify c fun l => { l with valid := false }) where
  log := by
    refine h.log.extend (e := .load c false s.now) (c := c) rfl rfl hallowed ?_ (CacheInv.empty ?_ ?_)
    · intro d hd
      exact ⟨if_neg (Ne.symm hd), State.modify_live_of_ne _ hd _⟩
    · exact (held_concat c s.trace _).trans ((if_pos rfl).trans (if_neg Bool.false_ne_true))
    · rw [State.modify_live_self]
  alarm := h.alarm.congr rfl rfl fun d => State.modify_field Live.timerId _ c d fun _ => rfl
  pending := h.pending
  outstanding d hreleased := by
    by_cases hd : d = c
    · rw [hd, State.modify_live_self] at hreleased
      exact absurd hreleased.1 Bool.false_ne_true
    · rw [State.modify_live_of_ne _ hd] at hreleased
      exact h.outstanding d hreleased

theorem scheduleRelease_spec (caches : Fin n → Cache) (s : State n) (c : Fin n) :
    (s.scheduleRelease caches c).live = s.live ∧ (s.scheduleRelease caches c).trace = s.trace ∧
      (s.scheduleRelease caches c).now = s.now ∧
      (s.outstandingValid = true → (s.scheduleRelease caches c).outstandingValid = true) ∧
      ((caches c).flags.dontFreeExpired = false → (s.scheduleRelease caches c).outstandingValid = true) := by
  rw [State.scheduleRelease]
  by_cases hnew : s.outstandingValid = false ∧ (caches c).flags.dontFreeExpired = false
  · rw [if_pos hnew]
    exact ⟨rfl, rfl, rfl, fun _ => rfl, fun _ => rfl⟩
  · rw [if_neg hnew]
    refine ⟨rfl, rfl, rfl, id, fun hflag => ?_⟩
    by_contra hfalse
    exact hnew ⟨Bool.not_eq_true _ ▸ hfalse, hflag⟩

theorem AlarmInv.scheduleRelease (h : AlarmInv s) : AlarmInv (s.scheduleRelease caches c) := by
  rw [State.scheduleRelease]
  split
  · exact (h.register CACHE_RELEASE_FREQUENCY).congr rfl rfl fun _ => rfl
  · exact h

theorem ReleasePending.scheduleRelease (h : s.outstandingValid = true → ReleasePending s)
    (houtstanding : (s.scheduleRelease caches c).outstandingValid = true) :
    ReleasePending (s.scheduleRelease caches c) := by
  rw [State.scheduleRelease] at houtstanding ⊢
  split at houtstanding
  · next hnew =>
    rw [if_pos hnew]
    exact ⟨_, mem_append_right _ (mem_singleton_self _), rfl⟩
  · next hnew =>
    rw [if_neg hnew]
    exact h houtstanding

theorem Inv.loaded (h : Inv caches s) (hallowed : Allowed caches s.trace (.load c true s.now)) :
    Inv caches ((s.record (.load c true s.now)).loaded caches c) := by
  obtain ⟨hlive, htrace, hnow, houtstanding, hflag⟩ := scheduleRelease_spec caches
    ((s.record (.load c true s.now)).modify c fun l => { l with valid := true, expired := false }) c
  have hfields (d : Fin n) := congrFun hlive d
  refine ⟨?_, ?_, ?_, ?_⟩
  · refine h.log.extend (e := .load c true s.now) (c := c) htrace hnow hallowed ?_ (CacheInv.full ?_ ?_ ?_)
    · intro d hd
      refine ⟨if_neg (Ne.symm hd), ?_⟩
      rw [State.loaded, State.modify_live_of_ne _ hd, hfields, State.modify_live_of_ne _ hd]
      rfl
    · rw [State.loaded]
      refine (congrArg (held c) htrace).trans ((held_concat c s.trace _).trans ?_)
      exact (if_pos rfl).trans ((if_pos rfl).trans (congrArg some hnow.symm))
    · rw [State.loaded, State.modify_live_self, hfields, State.modify_live_self]
    · rw [State.loaded, State.modify_live_self]
      exact congrArg some hnow.symm
  · have hrecorded : AlarmInv ((s.record (.load c true s.now)).modify c fun l =>
        { l with valid := true, expired := false }) :=
      h.alarm.congr rfl rfl fun d => State.modify_field Live.timerId _ c d fun _ => rfl
    exact hrecorded.scheduleRelease.congr rfl rfl fun d => State.modify_field Live.timerId _ c d fun _ => rfl
  · exact ReleasePending.scheduleRelease h.pending
  · intro d hreleased
    by_cases hd : d = c
    · rw [hd] at hreleased
      exact hflag hreleased.2.2
    · rw [State.loaded, State.modify_live_of_ne _ hd, hfields, State.modify_live_of_ne _ hd] at hreleased
      exact houtstanding (h.outstanding d hreleased)

theorem Inv.load (h : Inv caches s) (c : Fin n) (ret : Int) : Inv caches (s.load caches c ret).1 := by
  -- the data that may have to be freed first
  obtain ⟨s', hs', hinv, hempty⟩ : ∃ s', s' = (if (s.live c).valid = true ∧
      (caches c).flags.dontFreeBeforeLoad = false then s.free2 c else s) ∧ Inv caches s' ∧
      ((caches c).flags.dontFreeBeforeLoad = false → held c s'.trace = none) := by
    refine ⟨_, rfl, ?_, ?_⟩
    · split
      · next hfree => exact h.free2 hfree.1
      · exact h
    · intro hflag
      split
      · exact (held_concat c s.trace (.free c)).trans (if_pos rfl)
      · next hkeep =>
        by_contra hheld
        exact hkeep ⟨(h.log.cache c).valid.2 hheld, hflag⟩
  rw [State.load, ← hs']
  by_cases hret : ret < 0
  · have hfailed : decide (0 ≤ ret) = false := decide_eq_false (Int.not_le.2 hret)
    rw [if_pos hret, hfailed]
    exact hinv.failed hempty
  · have hok : decide (0 ≤ ret) = true := decide_eq_true (Int.not_lt.1 hret)
    rw [if_neg hret, hok]
    exact hinv.loaded hempty

theorem load_held {ret : Int} (hret : 0 ≤ (s.load caches c ret).2) :
    held c (s.load caches c ret).1.trace = some s.now := by
  have hreturn : (s.load caches c ret).2 = ret := by
    rw [State.load]
    split <;> rfl
  rw [hreturn] at hret
  have hfreed : (if (s.live c).valid = true ∧ (caches c).flags.dontFreeBeforeLoad = false then s.free2 c
      else s).now = s.now := by split <;> rfl
  rw [State.load, if_neg (Int.not_lt.2 hret), decide_eq_true hret, hfreed]
  refine (congrArg (held c) (scheduleRelease_spec caches _ c).2.1).trans ((held_concat c _ _).trans ?_)
  exact (if_pos rfl).trans (if_pos rfl)

/-! ## the other calls -/

theorem Inv.expired (h : Inv caches s) (c : Fin n) (expired : Bool) :
    Inv caches (s.modify c fun l => { l with expired := expired }) := by
  refine h.congr rfl (Nat.le_refl _) rfl rfl rfl fun d => ⟨?_, ?_, ?_⟩
  · exact State.modify_field Live.valid s c d fun _ => rfl
  · exact State.modify_field Live.timestampM s c d fun _ => rfl
  · exact State.modify_field Live.timerId s c d fun _ => rfl

theorem Inv.checkExpired (h : Inv caches s) (c : Fin n) : Inv caches (s.checkExpired caches c).1 := h.expired c _

theorem Inv.checkAndReload (h : Inv caches s) (c : Fin n) (ret : Int) :
    Inv caches (s.checkAndReload caches c ret).1 := by
  rw [State.checkAndReload]
  split
  · exact h.load c ret
  · dsimp only
    split
    · exact (h.checkExpired c).load c ret
    · exact h.checkExpired c

theorem Inv.resetTimer (h : Inv caches s) (c : Fin n) : Inv caches (s.resetTimer caches c) := by
  rw [State.resetTimer]
  split
  · next hreset =>
    refine ⟨?_, ?_, h.pending, ?_⟩
    · refine h.log.extend (e := .use c s.now) (c := c) rfl rfl trivial ?_ ⟨?_, ?_⟩
      · intro d hd
        exact ⟨rfl, State.modify_live_of_ne _ hd _⟩
      · rw [State.modify_live_self]
        refine (h.log.cache c).valid.trans ?_
        exact iff_of_eq (congrArg (· ≠ none) (held_concat c s.trace (.use c s.now)).symm)
      · intro t ht
        obtain ⟨m, -, hle, hpast, -⟩ := (h.log.cache c).stamped t ((held_concat c s.trace (.use c s.now)).symm.trans ht)
        refine ⟨s.now, ?_, Nat.le_trans hle hpast, Nat.le_refl _, .inr ⟨hreset, ?_⟩⟩
        · rw [State.modify_live_self]
        · exact mem_append_right _ (mem_singleton_self _)
    · exact h.alarm.congr rfl rfl fun d => State.modify_field Live.timerId _ c d fun _ => rfl
    · intro d hreleased
      refine h.outstanding d ⟨?_, hreleased.2⟩
      refine (Eq.symm ?_).trans hreleased.1
      exact State.modify_field Live.valid _ c d fun _ => rfl
  · exact h

theorem Inv.timerReload (h : Inv caches s) (c : Fin n) (ret : Int) : Inv caches (s.timerReload caches c ret) :=
  (h.expired c true).load c ret

theorem Inv.helperHandler (h : Inv caches s) (c : Fin n) (noCaching : Bool) (reqinfo : Nat) (mode : State.Mode)
    (ret : Int) : Inv caches (s.helperHandler caches c noCaching reqinfo mode ret) := by
  rw [State.helperHandler]
  split
  · exact h
  · have htouch : Inv caches (if (reqinfo, c) ∈ s.noted ∧ (s.live c).valid = true then s
        else { (s.checkAndReload caches c ret).1 with
          noted := if (reqinfo, c) ∈ (s.checkAndReload caches c ret).1.noted then
              (s.checkAndReload caches c ret).1.noted
            else (s.checkAndReload caches c ret).1.noted ++ [(reqinfo, c)] }) := by
      split
      · exact h
      · exact (h.checkAndReload c ret).congr rfl (Nat.le_refl _) rfl rfl rfl fun _ => ⟨rfl, rfl, rfl⟩
    cases mode with
    | get => exact htouch.resetTimer c
    | getNext => exact htouch.resetTimer c
    | getBulk => exact htouch.resetTimer c
    | setReserve1 => exact htouch.resetTimer c
    | setReserve2 => exact h.resetTimer c
    | setAction => exact h.resetTimer c
    | setFree => exact h.resetTimer c
    | setUndo => exact h.resetTimer c
    | setCommit =>
      refine Inv.resetTimer ?_ c
      split
      · next hfree => exact h.free2 hfree.1
      · exact h
    | other => exact h

theorem AlarmInv.timerStart (h : AlarmInv s) (hnone : (s.live c).timerId = 0) (seconds : Nat) :
    AlarmInv ((s.register seconds true (.timerReload c)).modify c fun l =>
      { l with timerId := s.nextAlarm, autoReload := false }) := by
  have hself : (((s.register seconds true (.timerReload c)).modify c fun l =>
      { l with timerId := s.nextAlarm, autoReload := false }).live c).timerId = s.nextAlarm := by
    rw [State.modify_live_self]
  have hother (d : Fin n) (hd : d ≠ c) : (((s.register seconds true (.timerReload c)).modify c fun l =>
      { l with timerId := s.nextAlarm, autoReload := false }).live d).timerId = (s.live d).timerId := by
    rw [State.modify_live_of_ne _ hd]
    rfl
  refine ⟨?_, ?_, ?_, ?_, Nat.succ_pos _⟩
  · intro a ha d hcallback
    rcases mem_append.1 ha with hold | hnew
    · obtain ⟨hrepeats, hid⟩ := h.reloads a hold d hcallback
      by_cases hd : d = c
      · -- the numbers of alarms are positive
        rw [hd, hnone] at hid
        exact absurd hid (Nat.ne_of_gt (h.ids a hold).1)
      · exact ⟨hrepeats, hid.trans (hother d hd).symm⟩
    · rw [mem_singleton.1 hnew] at hcallback ⊢
      rw [← Callback.timerReload.inj hcallback, hself]
      exact ⟨rfl, rfl⟩
  · intro a ha hcallback
    rcases mem_append.1 ha with hold | hnew
    · refine (h.releases a hold hcallback).imp_right fun hids d => ?_
      by_cases hd : d = c
      · rw [hd, hself]
        exact Nat.ne_of_lt (h.ids a hold).2
      · rw [hother d hd]
        exact hids d
    · rw [mem_singleton.1 hnew] at hcallback
      cases hcallback
  · intro a ha
    rcases mem_append.1 ha with hold | hnew
    · exact ⟨(h.ids a hold).1, Nat.lt_succ_of_lt (h.ids a hold).2⟩
    · rw [mem_singleton.1 hnew]
      exact ⟨h.started, Nat.lt_succ_self _⟩
  · intro d
    by_cases hd : d = c
    · rw [hd, hself]
      exact Nat.lt_succ_self _
    · rw [hother d hd]
      exact Nat.lt_succ_of_lt (h.timers d)

theorem Inv.timerStart (h : Inv caches s) (c : Fin n) : Inv caches (s.timerStart caches c) := by
  rw [State.timerStart]
  split
  · exact h
  · next hid =>
    split
    · exact h
    · refine ⟨?_, h.alarm.timerStart (not_not.1 hid) _, fun hvalid => (h.pending hvalid).register _ _ _, ?_⟩
      · refine h.log.congr rfl (Nat.le_refl _) fun d => ⟨?_, ?_⟩
        · exact State.modify_field Live.valid _ c d fun _ => rfl
        · exact State.modify_field Live.timestampM _ c d fun _ => rfl
      · intro d hreleased
        refine h.outstanding d ⟨?_, hreleased.2⟩
        refine (Eq.symm ?_).trans hreleased.1
        exact State.modify_field Live.valid _ c d fun _ => rfl

theorem ReleasePending.unregister (h : ReleasePending s) {id : Nat}
    (hid : ∀ a ∈ s.alarms, a.callback = .releaseCachedResources → a.id ≠ id) : ReleasePending (s.unregister id) := by
  obtain ⟨a, ha, hcallback⟩ := h
  exact ⟨a, mem_filter.2 ⟨ha, decide_eq_true (hid a ha hcallback)⟩, hcallback⟩

theorem Inv.unregister (h : Inv caches s) {id : Nat}
    (hid : ∀ a ∈ s.alarms, a.callback = .releaseCachedResources → a.id ≠ id) : Inv caches (s.unregister id) where
  log := h.log.congr rfl (Nat.le_refl _) fun _ => ⟨rfl, rfl⟩
  alarm := h.alarm.unregister id
  pending hvalid := (h.pending hvalid).unregister hid
  outstanding := h.outstanding

theorem Inv.timerStop (h : Inv caches s) (c : Fin n) : Inv caches (s.timerStop c) := by
  rw [State.timerStop]
  split
  · exact h
  · have hstopped := h.unregister fun a ha hcallback => (h.alarm.releases a ha hcallback).2 c
    refine hstopped.congr rfl (Nat.le_refl _) rfl rfl rfl fun d => ⟨?_, ?_, ?_⟩
    · exact State.modify_field Live.valid _ c d fun _ => rfl
    · exact State.modify_field Live.timestampM _ c d fun _ => rfl
    · exact State.modify_field Live.timerId _ c d fun _ => rfl

theorem Inv.stops (h : Inv caches s) (c : Fin n) : ∀ a ∈ (s.timerStop c).alarms, a.callback ≠ .timerReload c := by
  intro a ha hcallback
  rw [State.timerStop] at ha
  split at ha
  · next hnone =>
    -- an alarm would have the number 0
    have hid := (h.alarm.reloads a ha c hcallback).2
    rw [hnone] at hid
    exact absurd hid (Nat.ne_of_gt (h.alarm.ids a ha).1)
  · obtain ⟨hold, hne⟩ := mem_filter.1 ha
    exact of_decide_eq_true hne (h.alarm.reloads a hold c hcallback).2

theorem Inv.handlerGet (h : Inv caches s) (c : Fin n) (ret : Int) : Inv caches (s.handlerGet caches c ret) := by
  have hload : Inv caches (if (caches c).flags.preload = true ∧ (s.live c).valid = false then
      (s.load caches c ret).1 else s) := by
    split
    · exact h.load c ret
    · exact h
  have hstart (s' : State n) (h' : Inv caches s') :
      Inv caches (if (s'.live c).autoReload = true then s'.timerStart caches c else s') := by
    split
    · exact h'.timerStart c
    · exact h'
  exact hstart _ hload

/-! ## auto-release -/

/-- What a visit of a cache, or of several, keeps. -/
structure Visited (caches : Fin n → Cache) (s s' : State n) : Prop where
  log : LogInv caches s'
  alarms : s'.alarms = s.alarms
  nextAlarm : s'.nextAlarm = s.nextAlarm
  timers : ∀ d, (s'.live d).timerId = (s.live d).timerId
  outstanding : s.outstandingValid = true → s'.outstandingValid = true
  valid : ∀ d, (s'.live d).valid = true → (s.live d).valid = true

theorem Visited.trans {s'' : State n} (h : Visited caches s s') (h' : Visited caches s' s'') :
    Visited caches s s'' where
  log := h'.log
  alarms := h'.alarms.trans h.alarms
  nextAlarm := h'.nextAlarm.trans h.nextAlarm
  timers d := (h'.timers d).trans (h.timers d)
  outstanding hs := h'.outstanding (h.outstanding hs)
  valid d hd := h.valid d (h'.valid d hd)

theorem Visited.expired (h : LogInv caches s) (c : Fin n) (expired : Bool) :
    Visited caches s (s.modify c fun l => { l with expired := expired }) where
  log := by
    refine h.congr rfl (Nat.le_refl _) fun d => ⟨?_, ?_⟩
    · exact State.modify_field Live.valid s c d fun _ => rfl
    · exact State.modify_field Live.timestampM s c d fun _ => rfl
  alarms := rfl
  nextAlarm := rfl
  timers d := State.modify_field Live.timerId s c d fun _ => rfl
  outstanding := id
  valid d hd := by
    refine (Eq.symm ?_).trans hd
    exact State.modify_field Live.valid s c d fun _ => rfl

theorem Visited.free2 (h : LogInv caches s) (hvalid : (s.live c).valid = true) : Visited caches s (s.free2 c) where
  log := h.free2 hvalid
  alarms := rfl
  nextAlarm := rfl
  timers d := State.modify_field Live.timerId (s.record (.free c)) c d fun _ => rfl
  outstanding := id
  valid d hd := by
    by_cases hdc : d = c
    · rw [hdc]
      exact hvalid
    · rw [State.free2, State.modify_live_of_ne _ hdc] at hd
      exact hd

theorem visit_spec (h : LogInv caches s) (c : Fin n) : Visited caches s (s.visit caches c) ∧
    (Released (caches c) ((s.visit caches c).live c) → (s.visit caches c).outstandingValid = true) := by
  have hchecked := Visited.expired h c (expiry (caches c) s.now (s.live c))
  rw [State.visit]
  by_cases hvisit : (s.live c).valid = true ∧ (caches c).flags.dontAutoRelease = false
  · rw [if_pos hvisit]
    dsimp only [State.checkExpired]
    by_cases hexpired : expiry (caches c) s.now (s.live c) = true
    · rw [if_pos hexpired]
      by_cases hflag : (caches c).flags.dontFreeExpired = false
      · rw [if_pos hflag]
        -- the check of the time does not touch the data
        have hvalid : ((s.modify c fun l => { l with expired := expiry (caches c) s.now (s.live c) }).live c).valid =
            true := by
          rw [State.modify_live_self]
          exact hvisit.1
        refine ⟨hchecked.trans (Visited.free2 hchecked.log hvalid), fun hreleased => ?_⟩
        rw [State.free2, State.modify_live_self] at hreleased
        exact absurd hreleased.1 Bool.false_ne_true
      · rw [if_neg hflag]
        exact ⟨hchecked, fun hreleased => absurd hreleased.2.2 hflag⟩
    · rw [if_neg hexpired]
      refine ⟨⟨?_, rfl, rfl, hchecked.timers, fun _ => rfl, hchecked.valid⟩, fun _ => rfl⟩
      exact hchecked.log.congr rfl (Nat.le_refl _) fun _ => ⟨rfl, rfl⟩
  · rw [if_neg hvisit]
    refine ⟨⟨h, rfl, rfl, fun _ => rfl, id, fun _ => id⟩, fun hreleased => ?_⟩
    exact absurd ⟨hreleased.1, hreleased.2.1⟩ hvisit

theorem foldl_visit (h : LogInv caches s) (l : List (Fin n)) : Visited caches s (l.foldl (State.visit caches) s) ∧
    ∀ c ∈ l, Released (caches c) ((l.foldl (State.visit caches) s).live c) →
      (l.foldl (State.visit caches) s).outstandingValid = true := by
  induction l generalizing s with
  | nil => exact ⟨⟨h, rfl, rfl, fun _ => rfl, id, fun _ => id⟩, fun c hc => absurd hc not_mem_nil⟩
  | cons d l ih =>
    -- what one visit finds outstanding, the later ones leave so
    obtain ⟨hvisited, houtstanding⟩ := visit_spec h d
    obtain ⟨hrest, hall⟩ := ih hvisited.log
    refine ⟨hvisited.trans hrest, ?_⟩
    intro c hc hreleased
    rcases mem_cons.1 hc with rfl | hlater
    · exact hrest.outstanding (houtstanding ⟨hrest.valid c hreleased.1, hreleased.2⟩)
    · exact hall c hlater hreleased

theorem Inv.releaseCachedResources (h : Inv caches s) {id : Nat} (hid : id < s.nextAlarm) :
    Inv caches ((s.releaseCachedResources caches).unregister id) := by
  have hstart : LogInv caches { s with outstandingValid := false } :=
    h.log.congr rfl (Nat.le_refl _) fun _ => ⟨rfl, rfl⟩
  obtain ⟨hvisited, hall⟩ := foldl_visit hstart (finRange n).reverse
  rw [State.releaseCachedResources]
  generalize (finRange n).reverse.foldl (State.visit caches) { s with outstandingValid := false } = r
    at hvisited hall
  have halarm : AlarmInv r := h.alarm.congr hvisited.alarms hvisited.nextAlarm hvisited.timers
  have hreleased (c : Fin n) : Released (caches c) (r.live c) → r.outstandingValid = true :=
    hall c (mem_reverse.2 (mem_finRange c))
  by_cases houtstanding : r.outstandingValid = true
  · rw [if_pos houtstanding]
    refine ⟨?_, (halarm.register _).unregister id, fun _ => ?_, fun _ _ => houtstanding⟩
    · exact hvisited.log.congr rfl (Nat.le_refl _) fun _ => ⟨rfl, rfl⟩
    · have hnew : r.nextAlarm ≠ id := by
        rw [hvisited.nextAlarm]
        exact Nat.ne_of_gt hid
      refine ⟨_, mem_filter.2 ⟨mem_append_right _ (mem_singleton_self _), ?_⟩, rfl⟩
      exact decide_eq_true hnew
  · rw [if_neg houtstanding]
    refine ⟨?_, halarm.unregister id, fun hvalid => absurd hvalid houtstanding, hreleased⟩
    exact hvisited.log.congr rfl (Nat.le_refl _) fun _ => ⟨rfl, rfl⟩

theorem Inv.fire (h : Inv caches s) (id : Nat) (ret : Int) : Inv caches (s.fire caches id ret) := by
  rw [State.fire]
  cases hfind : s.alarms.find? (·.id = id) with
  | none => exact h
  | some a =>
    have ha := mem_of_find?_eq_some hfind
    have hid : decide (a.id = id) = true := find?_some (p := fun a : Alarm n => decide (a.id = id)) hfind
    dsimp only
    cases hcallback : a.callback with
    | timerReload c =>
      rw [if_pos (h.alarm.reloads a ha c hcallback).1]
      exact h.timerReload c ret
    | releaseCachedResources =>
      rw [if_neg (Bool.eq_false_iff.1 (h.alarm.releases a ha hcallback).1)]
      exact h.releaseCachedResources (of_decide_eq_true hid ▸ (h.alarm.ids a ha).2)

/-! ## runs -/

theorem Inv.start (caches : Fin n → Cache) : Inv caches (State.start caches) where
  log := by
    refine ⟨?_, fun c => CacheInv.empty rfl rfl⟩
    intro pre e post h
    exact absurd h.symm (append_ne_nil_of_right_ne_nil pre (cons_ne_nil e post))
  alarm :=
    { reloads := fun a ha => absurd ha not_mem_nil
      releases := fun a ha => absurd ha not_mem_nil
      ids := fun a ha => absurd ha not_mem_nil
      timers := fun _ => Nat.zero_lt_one
      started := Nat.zero_lt_one }
  pending h := absurd h Bool.false_ne_true
  outstanding c h := absurd h.1 Bool.false_ne_true

theorem Inv.step (h : Inv caches s) (op : Op n) : Inv caches (s.step caches op) := by
  cases op with
  | wait us => exact h.congr rfl (Nat.le_add_right _ _) rfl rfl rfl fun _ => ⟨rfl, rfl, rfl⟩
  | request c noCaching reqinfo mode ret => exact h.helperHandler c noCaching reqinfo mode ret
  | timerStart c => exact h.timerStart c
  | timerStop c => exact h.timerStop c
  | handlerGet c ret => exact h.handlerGet c ret
  | fire id ret => exact h.fire id ret

theorem Inv.run (h : Inv caches s) (ops : List (Op n)) : Inv caches (s.run caches ops) := by
  induction ops generalizing s with
  | nil => exact h
  | cons op ops ih => exact ih (h.step op)

/-! ## the results -/

theorem lt_of_not_ready {now pm deltaMs : Int} (hpast : pm ≤ now) (h : readyMonotonic now pm deltaMs = false) :
    now - pm < deltaMs * 1000 := by
  rw [readyMonotonic] at h
  rcases lt_or_ge deltaMs 0 with hneg | hnonneg
  · -- a negative difference is always over
    obtain ⟨k, rfl⟩ : ∃ k, deltaMs = -k := ⟨-deltaMs, (Int.neg_neg deltaMs).symm⟩
    have hk : 0 ≤ k := by omega
    rw [Int.neg_tdiv, Int.neg_tmod, Int.tdiv_eq_ediv_of_nonneg hk, Int.tmod_eq_emod_of_nonneg hk] at h
    split at h
    · rw [decide_eq_false_iff_not] at h
      omega
    · rw [decide_eq_false_iff_not] at h
      omega
  · rw [Int.tdiv_eq_ediv_of_nonneg hnonneg, Int.tmod_eq_emod_of_nonneg hnonneg] at h
    split at h
    · rw [decide_eq_false_iff_not] at h
      omega
    · rw [decide_eq_false_iff_not] at h
      omega

theorem timeoutMs_le {cache : Cache} (h : 0 < cache.timeout) : cache.timeoutMs ≤ 1000 * cache.timeout := by
  have hint : ((2 ^ 32 : Nat) : Int) = 4294967296 := rfl
  rw [Cache.timeoutMs, Int.bmod_def, hint]
  split <;> omega

theorem Recent.of_not_expired {cache : Cache} {now : Nat} {l : Live} (htimeout : 0 < cache.timeout)
    (h : expiry cache now l = false) {m : Nat} (hm : l.timestampM = some m) (hpast : m ≤ now) : Recent cache now m := by
  rw [expiry] at h
  split at h
  · exact absurd h.symm Bool.false_ne_true
  · split at h
    · exact absurd h.symm Bool.false_ne_true
    · rw [hm, Option.elim_some] at h
      have hready := lt_of_not_ready (Int.ofNat_le.2 hpast) h
      have hms := timeoutMs_le htimeout
      rw [Recent]
      omega

theorem Inv.freshOrUsed (h : Inv caches s) : FreshOrUsed caches s := by
  intro c ret htimeout hret
  -- the alarm that goes is an old one
  -- what is loaded now is recent
  have hnew (s' : State n) (hnow : s'.now = s.now) (hret : 0 ≤ (s'.load caches c ret).2) :
      ∃ t, held c (s'.load caches c ret).1.trace = some t ∧ Recent (caches c) s.now t := by
    refine ⟨s.now, hnow ▸ load_held hret, ?_⟩
    rw [Recent]
    omega
  rw [State.checkAndReload] at hret ⊢
  by_cases hvalid : (s.live c).valid = false
  · rw [if_pos hvalid] at hret ⊢
    obtain ⟨t, hheld, hrecent⟩ := hnew s rfl hret
    exact ⟨t, hheld, .inl hrecent⟩
  · rw [if_neg hvalid] at hret ⊢
    dsimp only [State.checkExpired] at hret ⊢
    by_cases hexpired : expiry (caches c) s.now (s.live c) = true
    · rw [if_pos hexpired] at hret ⊢
      obtain ⟨t, hheld, hrecent⟩ := hnew (s.checkExpired caches c).1 rfl hret
      exact ⟨t, hheld, .inl hrecent⟩
    · rw [if_neg hexpired] at hret ⊢
      -- the data that is there is still good
      obtain ⟨t, hheld⟩ := Option.ne_none_iff_exists'.1 ((h.log.cache c).valid.1 (Bool.not_eq_false _ ▸ hvalid))
      obtain ⟨m, hm, hle, hpast, hkind⟩ := (h.log.cache c).stamped t hheld
      have hrecent := Recent.of_not_expired htimeout (Bool.not_eq_true _ ▸ hexpired) hm hpast
      refine ⟨t, hheld, ?_⟩
      rcases hkind with rfl | ⟨hreset, huse⟩
      · exact .inl hrecent
      · exact .inr ⟨hreset, m, hle, huse, hrecent⟩

theorem Inv.inStep (h : Inv caches s) : InStep caches s where
  freesLoaded pre c post htrace := h.log.allowed pre (.free c) post htrace
  freesOnce _ hflag _ _ _ _ _ _ _ htrace hmid := h.log.allowed.freesOnce hflag htrace hmid
  releases c hvalid hauto hexpired := h.pending (h.outstanding c ⟨hvalid, hauto, hexpired⟩)
  stops c := h.stops c

/-- In every state that is reached, caches are in step with their timers and alarms, and their data is recent or in
use. -/
theorem keeps_inStep (caches : Fin n → Cache) (ops : List (Op n)) :
    InStep caches ((State.start caches).run caches ops) ∧ FreshOrUsed caches ((State.start caches).run caches ops) :=
  ⟨((Inv.start caches).run ops).inStep, ((Inv.start caches).run ops).freshOrUsed⟩

end Invariant

/-- A cache that is reset on use, with a timeout of one second. -/
def kept : Cache where
  flags := ⟨false, false, false, false, false, false, true⟩
  timeout := 1
  range := .inr ⟨by decide, by decide⟩

/-- Two requests, each 0.9 seconds after what was before. -/
def usedTwice : List (Op 1) :=
  [.request 0 false 0 .get 0, .wait 900000, .request 0 false 1 .get 0, .wait 900000]

/-- The data that is used is not loaded again. -/
theorem not_keeps_fresh : ¬ ∀ (n : Nat) (caches : Fin n → Cache) (ops : List (Op n)),
    InStep caches ((State.start caches).run caches ops) ∧ Fresh caches ((State.start caches).run caches ops) ∧
      Restarts caches ((State.start caches).run caches ops) := by
  intro h
  have hfresh := (h 1 (fun _ => kept) usedTwice).2.1
  obtain ⟨t, hheld, hrecent⟩ := hfresh 0 0 (by decide) (by decide)
  have hloaded : held 0 (((State.start fun _ => kept).run (fun _ => kept) usedTwice).checkAndReload
      (fun _ => kept) 0 0).1.trace = some 0 := by decide
  rw [hloaded] at hheld
  rw [← Option.some.inj hheld, Recent] at hrecent
  exact absurd hrecent (by decide)

end Priot.CacheHandler
