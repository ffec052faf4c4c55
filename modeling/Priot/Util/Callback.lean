/-
# Callbacks that change their list

The callbacks of one pair (major, minor) are a linked list with a lock count. A callback that is called may itself
register, unregister and call; what it does is part of the operation that calls it. To use a node that has been freed
is a fault. Allocations succeed, and a failed assertion is only logged.
-/
import Priot.Lib.LinkedList
import Priot.Lib.Memory

namespace Priot.Util

open Lib (Ptr Cell Memory Linked Seg)
open List hiding insert

/-! ## the list -/

/-- `struct Callback_s`, without `next`. A function that has been taken away is `none`. -/
structure Callback where
  callbackFun : Option Nat
  callbackFuncArg : Nat
  priority : Int

def PRIORITY_DEFAULT : Int := 0

/-- What can be seen of a run. -/
inductive Event where
  | registered (node : Ptr) (callbackFun callbackFuncArg : Nat)
  | unregister (callbackFun callbackFuncArg : Nat) (matchArg : Bool)
  | began
  | called (node : Ptr)
  | ended

/-- The list and the lock count of a pair. -/
structure CallbackState where
  heap : Memory (Cell Callback)
  theCallbacks : Option Ptr
  locks : Int
  trace : List Event

namespace CallbackState

def log (s : CallbackState) (event : Event) : CallbackState := { s with trace := s.trace ++ [event] }

/-- `_Callback_lock`. A lock that is held is waited for in vain. -/
def lock (s : CallbackState) : CallbackState := { s with locks := if s.locks ≥ 1 then s.locks else s.locks + 1 }

def unlock (s : CallbackState) : CallbackState := { s with locks := s.locks - 1 }

/-- More rounds than there are nodes. -/
def rounds (s : CallbackState) : Nat := s.heap.next + 1

/-- `*prevNext = scp`: the list begins with it, or a node is followed by it. -/
def setNext (s : CallbackState) (prev scp : Option Ptr) : Option CallbackState :=
  match prev with
  | none => some { s with theCallbacks := scp }
  | some q =>
    (s.heap.cell q).bind fun c => (s.heap.write q { c with next := scp }).map fun heap => { s with heap := heap }

/-- The loop that finds the place of a new node: the node before it and the one behind it. -/
def findPlace (heap : Memory (Cell Callback)) (priority : Int) :
    Nat → Option Ptr → Option Ptr → Option (Option Ptr × Option Ptr)
  | _, prev, none => some (prev, none)
  | 0, _, some _ => none
  | n + 1, prev, some scp =>
    (heap.cell scp).bind fun c =>
      if priority < c.data.priority then some (prev, some scp) else findPlace heap priority n (some scp) c.next

/-- `_Callback_register`, between lock and unlock. -/
def insert (s : CallbackState) (callbackFun callbackFuncArg : Nat) (priority : Int) : Option CallbackState :=
  (findPlace s.heap priority s.rounds none s.theCallbacks).bind fun (prev, next) =>
    let newscp := s.heap.next
    let node : Cell Callback := ⟨next, ⟨some callbackFun, callbackFuncArg, priority⟩⟩
    (setNext { s with heap := s.heap.alloc node } prev (some newscp)).map
      fun s => s.log (.registered newscp callbackFun callbackFuncArg)

def register (s : CallbackState) (callbackFun callbackFuncArg : Nat) : Option CallbackState :=
  (s.lock.insert callbackFun callbackFuncArg PRIORITY_DEFAULT).map unlock

/-- Whether a callback is one to be unregistered. -/
def matching (callbackFun callbackFuncArg : Nat) (matchArg : Bool) (f : Option Nat) (arg : Nat) : Bool :=
  f == some callbackFun && (!matchArg || arg == callbackFuncArg)

/-- The loop of `Callback_unregister`: a node is freed, or blanked while a call is under way. -/
def removeLoop (callbackFun callbackFuncArg : Nat) (matchArg : Bool) :
    Nat → Option Ptr → Option Ptr → CallbackState → Option CallbackState
  | _, _, none, s => some s
  | 0, _, some _, _ => none
  | n + 1, prev, some scp, s =>
    (s.heap.cell scp).bind fun c =>
      if matching callbackFun callbackFuncArg matchArg c.data.callbackFun c.data.callbackFuncArg then
        if s.locks = 1 then
          (s.setNext prev c.next).bind fun s => (s.heap.free scp).bind fun heap =>
            removeLoop callbackFun callbackFuncArg matchArg n prev c.next { s with heap := heap }
        else
          (s.heap.write scp { c with data := { c.data with callbackFun := none } }).bind fun heap =>
            removeLoop callbackFun callbackFuncArg matchArg n prev (some scp) { s with heap := heap }
      else removeLoop callbackFun callbackFuncArg matchArg n (some scp) c.next s

/-- `Callback_unregister`, for a function that is not `NULL`. A blanked node is looked at twice. -/
def unregister (s : CallbackState) (callbackFun callbackFuncArg : Nat) (matchArg : Bool) : Option CallbackState :=
  let s := (s.log (.unregister callbackFun callbackFuncArg matchArg)).lock
  (removeLoop callbackFun callbackFuncArg matchArg (2 * s.rounds) none s.theCallbacks s).map unlock

/-- The next node that has a function. -/
def seek (heap : Memory (Cell Callback)) : Nat → Option Ptr → Option (Option Ptr)
  | _, none => some none
  | 0, some _ => none
  | n + 1, some scp =>
    (heap.cell scp).bind fun c => if c.data.callbackFun = none then seek heap n c.next else some (some scp)

/-- The rest of a call, when no callback that is called does anything to the list. -/
def callRest : Nat → Option Ptr → CallbackState → Option CallbackState
  | 0, _, _ => none
  | n + 1, scp, s =>
    (seek s.heap s.rounds scp).bind fun
      | none => some s
      | some scp => (s.heap.cell scp).bind fun c => callRest n c.next (s.log (.called scp))

end CallbackState

/-! ## operations -/

open CallbackState

/-- An operation on a pair. A call has what the callbacks do that it calls, the first of them first; those behind do
nothing. -/
inductive CallbackOp where
  | register (callbackFun callbackFuncArg : Nat)
  | unregister (callbackFun callbackFuncArg : Nat) (matchArg : Bool)
  | call (bodies : List (List CallbackOp))

mutual

def exec : CallbackOp → CallbackState → Option CallbackState
  | .register callbackFun callbackFuncArg, s => s.register callbackFun callbackFuncArg
  | .unregister callbackFun callbackFuncArg matchArg, s => s.unregister callbackFun callbackFuncArg matchArg
  | .call bodies, s =>
    -- `Callback_call`
    (callLoop bodies s.theCallbacks (s.lock.log .began)).map fun s => (s.log .ended).unlock

def execAll : List CallbackOp → CallbackState → Option CallbackState
  | [], s => some s
  | op :: ops, s => (exec op s).bind fun s => execAll ops s

/-- The loop of `Callback_call`. The next node is read once a callback has returned. -/
def callLoop : List (List CallbackOp) → Option Ptr → CallbackState → Option CallbackState
  | [], scp, s => callRest s.rounds scp s
  | body :: bodies, scp, s =>
    (seek s.heap s.rounds scp).bind fun
      | none => some s
      | some scp =>
        (execAll body (s.log (.called scp))).bind fun s =>
          (s.heap.cell scp).bind fun c => callLoop bodies c.next s

end

/-- No callback is registered. -/
def CallbackState.init : CallbackState := ⟨⟨fun _ => none, 0, fun _ _ => rfl⟩, none, 0, []⟩

/-! ## what is to be seen -/

/-- A registration, with the node that it has got. -/
structure Registration where
  node : Ptr
  callbackFun : Nat
  callbackFuncArg : Nat

/-- A registration that is not to be unregistered. -/
def Registration.kept (f arg : Nat) (matchArg : Bool) (r : Registration) : Bool :=
  !matching f arg matchArg (some r.callbackFun) r.callbackFuncArg

/-- A call under way: what was registered when it began, and which of that has not had its turn. -/
structure Turn where
  snapshot : List Ptr
  todo : List Ptr

structure Observed where
  registered : List Registration
  turns : List Turn

namespace Observed

def nodes (o : Observed) : List Ptr := o.registered.map Registration.node

/-- A callback has its turn: it is registered, and those before it that were there when the call began are not. It may
have been registered since. -/
def called (o : Observed) (node : Ptr) : Option Observed :=
  match o.turns with
  | [] => none
  | turn :: turns =>
    if node ∉ o.nodes then none
    else if node ∉ turn.snapshot then some o
    else if node ∈ turn.todo ∧ ∀ q ∈ turn.todo.takeWhile (· ≠ node), q ∉ o.nodes then
      some { o with turns := { turn with todo := (turn.todo.dropWhile (· ≠ node)).tail } :: turns }
    else none

/-- A call ends: what has not had its turn is not registered any more. -/
def ended (o : Observed) : Option Observed :=
  match o.turns with
  | [] => none
  | turn :: turns => if ∀ q ∈ turn.todo, q ∉ o.nodes then some { o with turns := turns } else none

/-- What an event leads to, if it may happen. -/
def observe (o : Observed) : Event → Option Observed
  | .registered node f arg => some { o with registered := o.registered ++ [⟨node, f, arg⟩] }
  | .unregister f arg matchArg =>
    some { o with registered := o.registered.filter (Registration.kept f arg matchArg) }
  | .began => some { o with turns := ⟨o.nodes, o.nodes⟩ :: o.turns }
  | .called node => o.called node
  | .ended => o.ended

end Observed

/-- What a sequence of events leads to, if it may happen. -/
def observed (trace : List Event) : Option Observed := trace.foldlM Observed.observe ⟨[], []⟩

/-- After so many operations as have been made no node has been used that was freed, what has been called is what was
to be called, and the lock count is 0 again. -/
def CorrectFrom (s : CallbackState) (ops : List CallbackOp) : Prop :=
  ∀ n, ∃ s', execAll (ops.take n) s = some s' ∧ s'.locks = 0 ∧ (observed s'.trace).isSome

/-- No callback that is called does anything to the list; `registered` are those there are, with their arguments. -/
def Quiet : List (Nat × Nat) → List CallbackOp → Prop
  | _, [] => True
  | registered, .register f arg :: ops => Quiet (registered ++ [(f, arg)]) ops
  | registered, .unregister f arg matchArg :: ops =>
    Quiet (registered.filter fun r => !matching f arg matchArg (some r.1) r.2) ops
  | registered, .call bodies :: ops =>
    (∀ body ∈ bodies.take registered.length, body = []) ∧ Quiet registered ops

/-! ## the lock count -/

variable {s s' : CallbackState}

variable {scp : Option Ptr}

theorem setNext_locks {prev : Option Ptr} (h : s.setNext prev scp = some s') : s'.locks = s.locks := by
  unfold setNext at h
  cases prev with
  | none =>
    cases h
    rfl
  | some q =>
    obtain ⟨c, -, h⟩ := Option.bind_eq_some_iff.1 h
    obtain ⟨heap, -, rfl⟩ := Option.map_eq_some_iff.1 h
    rfl

theorem insert_locks {f arg : Nat} {priority : Int} (h : s.insert f arg priority = some s') : s'.locks = s.locks := by
  obtain ⟨⟨prev, next⟩, -, h⟩ := Option.bind_eq_some_iff.1 h
  obtain ⟨s₁, hset, rfl⟩ := Option.map_eq_some_iff.1 h
  have hlocks := setNext_locks hset
  exact hlocks

variable {n : Nat}

theorem removeLoop_locks {f arg : Nat} {matchArg : Bool} {prev : Option Ptr}
    (h : removeLoop f arg matchArg n prev scp s = some s') : s'.locks = s.locks := by
  induction n generalizing prev scp s with
  | zero =>
    cases scp with
    | none =>
      cases h
      rfl
    | some p => cases h
  | succ n ih =>
    cases scp with
    | none =>
      cases h
      rfl
    | some p =>
      obtain ⟨c, -, h⟩ := Option.bind_eq_some_iff.1 h
      split at h
      · split at h
        · obtain ⟨s₁, hset, h⟩ := Option.bind_eq_some_iff.1 h
          obtain ⟨heap, -, h⟩ := Option.bind_eq_some_iff.1 h
          have hlocks := ih h
          have hnext := setNext_locks hset
          exact Eq.trans hlocks hnext
        · obtain ⟨heap, -, h⟩ := Option.bind_eq_some_iff.1 h
          have hlocks := ih h
          exact hlocks
      · exact ih h

theorem callRest_locks (h : callRest n scp s = some s') : s'.locks = s.locks := by
  induction n generalizing scp s with
  | zero => cases h
  | succ n ih =>
    obtain ⟨found, -, h⟩ := Option.bind_eq_some_iff.1 h
    cases found with
    | none =>
      cases h
      rfl
    | some p =>
      obtain ⟨c, -, h⟩ := Option.bind_eq_some_iff.1 h
      have hlocks := ih h
      exact hlocks

theorem lock_locks (s : CallbackState) : s.lock.locks ≤ s.locks + 1 ∧ (s.locks ≥ 1 → s.lock.locks = s.locks) := by
  show (if s.locks ≥ 1 then s.locks else s.locks + 1) ≤ s.locks + 1 ∧
    (s.locks ≥ 1 → (if s.locks ≥ 1 then s.locks else s.locks + 1) = s.locks)
  split
  · next h => exact ⟨by omega, fun _ => rfl⟩
  · next h => exact ⟨Int.le_refl _, fun hge => absurd hge h⟩

mutual

theorem exec_locks (op : CallbackOp) {s s' : CallbackState} (h : exec op s = some s') :
    s'.locks ≤ s.locks ∧ (s.locks ≥ 1 → s'.locks < s.locks) := by
  have hlock := lock_locks s
  cases op with
  | register f arg =>
    rw [exec, register] at h
    obtain ⟨s₁, hinsert, rfl⟩ := Option.map_eq_some_iff.1 h
    have hlocks := insert_locks hinsert
    simp only [unlock]
    omega
  | unregister f arg matchArg =>
    rw [exec, unregister] at h
    obtain ⟨s₁, hremove, rfl⟩ := Option.map_eq_some_iff.1 h
    have hlocks := removeLoop_locks hremove
    have hlock := lock_locks (s.log (.unregister f arg matchArg))
    simp only [unlock]
    simp only [log] at hlock hlocks
    omega
  | call bodies =>
    rw [exec] at h
    obtain ⟨s₁, hloop, rfl⟩ := Option.map_eq_some_iff.1 h
    have hlocks := callLoop_locks bodies hloop
    simp only [unlock, log] at hlocks ⊢
    omega

theorem execAll_locks (ops : List CallbackOp) {s s' : CallbackState} (h : execAll ops s = some s') :
    s'.locks ≤ s.locks := by
  cases ops with
  | nil =>
    rw [execAll] at h
    cases h
    exact Int.le_refl _
  | cons op ops =>
    rw [execAll] at h
    obtain ⟨s₁, hop, hops⟩ := Option.bind_eq_some_iff.1 h
    exact Int.le_trans (execAll_locks ops hops) (exec_locks op hop).1

theorem callLoop_locks (bodies : List (List CallbackOp)) {scp : Option Ptr} {s s' : CallbackState}
    (h : callLoop bodies scp s = some s') : s'.locks ≤ s.locks := by
  cases bodies with
  | nil =>
    rw [callLoop] at h
    exact Int.le_of_eq (callRest_locks h)
  | cons body bodies =>
    rw [callLoop] at h
    obtain ⟨found, -, h⟩ := Option.bind_eq_some_iff.1 h
    cases found with
    | none =>
      cases h
      exact Int.le_refl _
    | some p =>
      obtain ⟨s₁, hbody, h⟩ := Option.bind_eq_some_iff.1 h
      obtain ⟨c, -, h⟩ := Option.bind_eq_some_iff.1 h
      have hlocks := execAll_locks body hbody
      exact Int.le_trans (callLoop_locks bodies h) hlocks

end

theorem execAll_locks_lt {ops : List CallbackOp} (hops : ops ≠ []) (hheld : s.locks ≥ 1)
    (h : execAll ops s = some s') : s'.locks < s.locks := by
  cases ops with
  | nil => exact absurd rfl hops
  | cons op ops =>
    rw [execAll] at h
    obtain ⟨s₁, hop, hrest⟩ := Option.bind_eq_some_iff.1 h
    exact Int.lt_of_le_of_lt (execAll_locks ops hrest) ((exec_locks op hop).2 hheld)

/-! ## the list between operations -/

variable {regs post : List Registration} {r : Registration} {last : Option Ptr}

/-- The node of a registration. -/
def Registration.entry (r : Registration) : Ptr × Callback :=
  (r.node, ⟨some r.callbackFun, r.callbackFuncArg, PRIORITY_DEFAULT⟩)

/-- The list holds some registrations. -/
def Listed (s : CallbackState) (regs : List Registration) : Prop :=
  ∃ last, Linked s.heap.cell s.theCallbacks last (regs.map Registration.entry)

theorem map_entry_fst (regs : List Registration) :
    (regs.map Registration.entry).map Prod.fst = regs.map Registration.node := by
  rw [map_map]
  rfl

theorem Listed.length_le (h : Listed s regs) : regs.length < s.rounds := by
  obtain ⟨last, hlinked⟩ := h
  have hle : ((regs.map Registration.entry).map Prod.fst).length ≤ s.heap.next := by
    refine Lib.length_le_of_below hlinked.nodup fun p hp => ?_
    obtain ⟨x, hx, rfl⟩ := mem_map.1 hp
    obtain ⟨next, hcell⟩ := hlinked.seg.mem_heap hx
    exact Memory.lt_next hcell
  rw [length_map, length_map] at hle
  exact Nat.lt_succ_of_le hle

theorem findPlace_last {heap : Memory (Cell Callback)} {prev : Option Ptr} (hn : post.length ≤ n)
    (hseg : Seg heap.cell scp (post.map Registration.entry) none) :
    findPlace heap PRIORITY_DEFAULT n prev scp = some ((post.getLast?.map Registration.node).or prev, none) := by
  induction post generalizing prev scp n with
  | nil =>
    obtain rfl : scp = none := hseg
    cases n <;> rfl
  | cons r post ih =>
    obtain ⟨rfl, next, hcell, hseg⟩ := hseg
    obtain ⟨n, rfl⟩ : ∃ k, n = k + 1 := ⟨n - 1, by rw [length_cons] at hn; omega⟩
    have hnot : ¬ PRIORITY_DEFAULT < PRIORITY_DEFAULT := Int.lt_irrefl _
    rw [findPlace, hcell, Option.bind_some, if_neg hnot, ih (by simpa using hn) hseg, getLast?_cons]
    cases post.getLast? <;> rfl

theorem Listed.insert (h : Listed s regs) (f arg : Nat) :
    ∃ s', s.insert f arg PRIORITY_DEFAULT = some s' ∧ Listed s' (regs ++ [⟨s.heap.next, f, arg⟩]) ∧
      s'.locks = s.locks ∧ s'.trace = s.trace ++ [.registered s.heap.next f arg] := by
  have hlength := h.length_le
  obtain ⟨last, hlinked⟩ := h
  have hfresh : s.heap.cell s.heap.next = none := s.heap.fresh _ (Nat.le_refl _)
  have hlast : regs.getLast?.map Registration.node = last := by
    rw [hlinked.last_eq, getLast?_map, Option.map_map]
    rfl
  have hmap : (regs ++ [(⟨s.heap.next, f, arg⟩ : Registration)]).map Registration.entry =
      regs.map Registration.entry ++ [(s.heap.next, ⟨some f, arg, PRIORITY_DEFAULT⟩)] := map_append
  rw [CallbackState.insert, findPlace_last (Nat.le_of_lt hlength) hlinked.seg, Option.bind_some, hlast]
  cases last with
  | none =>
    obtain ⟨-, hfirst, hnew⟩ := hlinked.pushFirst s.heap.next ⟨some f, arg, PRIORITY_DEFAULT⟩
    rw [hfirst] at hnew
    exact ⟨_, rfl, ⟨_, by rw [hmap]; exact hnew⟩, rfl, rfl⟩
  | some e =>
    obtain ⟨c, he⟩ := hlinked.last_cell
    obtain ⟨hnone, hnew⟩ := hlinked.pushBack he hfresh ⟨some f, arg, PRIORITY_DEFAULT⟩
    rw [hnone] at hnew
    have he' : (s.heap.alloc ⟨none, ⟨some f, arg, PRIORITY_DEFAULT⟩⟩).cell e = some c := Memory.alloc_live he
    obtain ⟨heap, hwrite, hcell⟩ := Memory.write_cell he' { c with next := some s.heap.next }
    simp only [setNext, Option.or_none, he', Option.bind_some, hwrite, Option.map_some]
    refine ⟨_, rfl, ⟨some s.heap.next, ?_⟩, rfl, rfl⟩
    rw [hmap]
    show Linked heap.cell s.theCallbacks _ _
    rw [hcell]
    exact hnew

theorem Listed.unlink {pre : List Registration} (h : Listed s (pre ++ r :: post)) :
    ∃ s₁ heap c, s.heap.cell r.node = some c ∧ c.data = r.entry.2 ∧
      s.setNext (pre.getLast?.map Registration.node) c.next = some s₁ ∧ s₁.heap.free r.node = some heap ∧
      c.next = post.head?.map Registration.node ∧ Listed { s₁ with heap := heap } (pre ++ post) ∧
      s₁.locks = s.locks ∧ s₁.trace = s.trace := by
  obtain ⟨last, hlinked⟩ := h
  rw [map_append, map_cons] at hlinked
  have hcell := Linked.cell hlinked
  have hhead : (post.map Registration.entry).head?.map Prod.fst = post.head?.map Registration.node := by
    rw [head?_map, Option.map_map]
    rfl
  obtain ⟨hpre, hpost⟩ := Linked.place_nodup hlinked
  have hout : r.node ∉ ((pre ++ post).map Registration.entry).map Prod.fst := by
    rw [map_append, map_append, mem_append]
    exact fun hmem => hmem.elim hpre hpost
  rcases eq_nil_or_concat pre with rfl | ⟨pre', o, rfl⟩
  · -- the first node
    obtain ⟨heap, hfree, hheap⟩ := Memory.free_cell hcell
    refine ⟨{ s with theCallbacks := post.head?.map Registration.node }, heap, _, hcell, rfl, ?_, hfree, hhead, ?_, rfl,
      rfl⟩
    · rw [← hhead]
      rfl
    · have hrest := (Linked.unlinkFirst hlinked).update hout none
      rw [← hheap, hhead] at hrest
      exact ⟨_, hrest⟩
  · -- a node behind another
    rw [concat_eq_append] at hlinked hout ⊢
    rw [map_append, append_assoc] at hlinked
    have ho := Linked.cell hlinked
    have hrest := Linked.unlinkNext hlinked
    obtain ⟨heap₁, hwrite, hheap₁⟩ := Memory.write_cell ho
      ⟨(post.map Registration.entry).head?.map Prod.fst, o.entry.2⟩
    have hne : r.node ≠ o.node := by
      intro heq
      refine hout ?_
      rw [heq, map_entry_fst]
      simp
    have hcell₁ : heap₁.cell r.node = s.heap.cell r.node := by
      rw [hheap₁]
      exact Function.update_of_ne hne _ _
    obtain ⟨heap, hfree, hheap⟩ := Memory.free_cell (hcell₁.trans hcell)
    refine ⟨{ s with heap := heap₁ }, heap, _, hcell, rfl, ?_, hfree, hhead, ?_, rfl, rfl⟩
    · rw [getLast?_concat, Option.map_some, setNext]
      have ho' : s.heap.cell o.node = _ := ho
      simp only [ho', Option.bind_some]
      exact congrArg (Option.map fun heap => { s with heap := heap }) hwrite
    · refine ⟨if last = some r.node then some o.node else last, ?_⟩
      show Linked heap.cell s.theCallbacks _ _
      rw [hheap, hheap₁]
      have hmap : (pre' ++ [o] ++ post).map Registration.entry =
          pre'.map Registration.entry ++ o.entry :: post.map Registration.entry := by simp
      rw [hmap] at hout ⊢
      exact hrest.update hout none

theorem removeLoop_spec {f arg : Nat} {matchArg : Bool} {pre : List Registration} {prev : Option Ptr}
    (h : Listed s (pre ++ post)) (hlocks : s.locks = 1) (hprev : prev = pre.getLast?.map Registration.node)
    (hscp : scp = post.head?.map Registration.node) (hn : post.length ≤ n) :
    ∃ s', removeLoop f arg matchArg n prev scp s = some s' ∧
      Listed s' (pre ++ post.filter (Registration.kept f arg matchArg)) ∧ s'.locks = 1 ∧ s'.trace = s.trace := by
  induction post generalizing pre prev scp n s with
  | nil =>
    subst hscp
    refine ⟨s, ?_, h, hlocks, rfl⟩
    cases n <;> rfl
  | cons r post ih =>
    obtain ⟨n, rfl⟩ : ∃ k, n = k + 1 := ⟨n - 1, by rw [length_cons] at hn; omega⟩
    have hn' : post.length ≤ n := by
      rw [length_cons] at hn
      omega
    obtain ⟨s₁, heap, c, hcell, hdata, hset, hfree, hnext, hlisted, hlocks₁, htrace₁⟩ := h.unlink
    subst hprev hscp
    show ∃ s', removeLoop f arg matchArg (n + 1) _ (some r.node) s = some s' ∧ _
    rw [removeLoop, hcell, Option.bind_some, hdata, filter_cons]
    by_cases hmatch : matching f arg matchArg r.entry.2.callbackFun r.entry.2.callbackFuncArg = true
    · have hkept : r.kept f arg matchArg = false := congrArg not hmatch
      rw [if_pos hmatch, if_pos hlocks, hset, Option.bind_some, hfree, Option.bind_some,
        if_neg (Bool.eq_false_iff.1 hkept)]
      obtain ⟨s', hloop, hlist, hlocks', htrace'⟩ := ih hlisted (hlocks₁.trans hlocks) rfl hnext hn'
      exact ⟨s', hloop, hlist, hlocks', htrace'.trans htrace₁⟩
    · have hkept : r.kept f arg matchArg = true := congrArg not (Bool.eq_false_iff.2 hmatch)
      rw [if_neg hmatch, if_pos hkept]
      have hbehind : Listed s ((pre ++ [r]) ++ post) := by
        rw [append_assoc]
        exact h
      have hlast : some r.node = (pre ++ [r]).getLast?.map Registration.node := by
        rw [getLast?_concat]
        rfl
      obtain ⟨s', hloop, hlist, hrest⟩ := ih hbehind hlocks hlast hnext hn'
      refine ⟨s', hloop, ?_, hrest⟩
      rw [append_assoc] at hlist
      exact hlist

/-! ## calls -/

theorem seek_cons {heap : Memory (Cell Callback)} {c : Cell Callback}
    (hcell : heap.cell r.node = some c) (hdata : c.data = r.entry.2) :
    seek heap (n + 1) (some r.node) = some (some r.node) := by
  rw [seek, hcell, Option.bind_some, hdata]
  rfl

theorem seek_none (heap : Memory (Cell Callback)) (n : Nat) : seek heap n none = some none := by
  cases n <;> rfl

theorem callRest_spec (hseg : Seg s.heap.cell scp (post.map Registration.entry) none)
    (hn : post.length < n) :
    callRest n scp s = some { s with trace := s.trace ++ post.map fun r => .called r.node } := by
  induction post generalizing n scp s with
  | nil =>
    obtain rfl : scp = none := hseg
    obtain ⟨n, rfl⟩ : ∃ k, n = k + 1 := ⟨n - 1, by omega⟩
    rw [callRest, seek_none, Option.bind_some, map_nil, append_nil]
  | cons r post ih =>
    obtain ⟨rfl, next, hcell, hseg⟩ := hseg
    obtain ⟨n, rfl⟩ : ∃ k, n = k + 1 := ⟨n - 1, by omega⟩
    rw [length_cons] at hn
    show callRest (n + 1) (some r.node) s = _
    rw [callRest, CallbackState.rounds, seek_cons hcell rfl, Option.bind_some]
    simp only [hcell, Option.bind_some]
    rw [ih (s := s.log (.called r.node)) hseg (by omega), CallbackState.log, map_cons, append_assoc]
    rfl

variable {bodies : List (List CallbackOp)}

theorem callLoop_quiet
    (hseg : Seg s.heap.cell scp (post.map Registration.entry) none) (hlength : post.length < s.rounds)
    (hquiet : ∀ body ∈ bodies.take post.length, body = []) :
    callLoop bodies scp s = some { s with trace := s.trace ++ post.map fun r => .called r.node } := by
  induction bodies generalizing post scp s with
  | nil =>
    rw [callLoop]
    exact callRest_spec hseg hlength
  | cons body bodies ih =>
    rw [callLoop]
    cases post with
    | nil =>
      obtain rfl : scp = none := hseg
      rw [seek_none, Option.bind_some, map_nil, append_nil]
    | cons r post =>
      obtain ⟨rfl, next, hcell, hseg⟩ := hseg
      rw [length_cons, take_succ_cons] at hquiet
      rw [length_cons] at hlength
      have hbody : body = [] := hquiet body mem_cons_self
      show ((seek s.heap s.rounds (some r.node)).bind _) = _
      rw [CallbackState.rounds, seek_cons hcell rfl, Option.bind_some]
      simp only [hbody, execAll, Option.bind_some]
      have hcell' : (s.log (.called r.node)).heap.cell r.node = some ⟨next, r.entry.2⟩ := hcell
      rw [hcell', Option.bind_some]
      have hrest := ih (s := s.log (.called r.node)) hseg (Nat.lt_of_succ_lt hlength)
        fun body hmem => hquiet body (mem_cons_of_mem _ hmem)
      rw [hrest, CallbackState.log, map_cons, append_assoc]
      rfl

theorem callLoop_noisy (hseg : Seg s.heap.cell scp (post.map Registration.entry) none) (hlocks : s.locks = 1)
    (hnoisy : ∃ body ∈ bodies.take post.length, body ≠ []) (h : callLoop bodies scp s = some s') : s'.locks < 1 := by
  induction bodies generalizing post scp s with
  | nil =>
    obtain ⟨body, hbody, -⟩ := hnoisy
    rw [take_nil] at hbody
    cases hbody
  | cons body bodies ih =>
    cases post with
    | nil =>
      obtain ⟨body, hbody, -⟩ := hnoisy
      cases hbody
    | cons r post =>
      obtain ⟨rfl, next, hcell, hseg⟩ := hseg
      rw [callLoop] at h
      have hseek : seek s.heap s.rounds (some r.node) = some (some r.node) := seek_cons hcell rfl
      rw [hseek, Option.bind_some] at h
      obtain ⟨s₁, hbody, h⟩ := Option.bind_eq_some_iff.1 h
      obtain ⟨c, hc, h⟩ := Option.bind_eq_some_iff.1 h
      by_cases hnil : body = []
      · -- nothing yet
        rw [hnil, execAll, Option.some.injEq] at hbody
        subst hbody
        have hc' : s.heap.cell r.node = some c := hc
        rw [hcell, Option.some.injEq] at hc'
        subst hc'
        refine ih (s := s.log (.called r.node)) hseg hlocks ?_ h
        obtain ⟨b, hb, hne⟩ := hnoisy
        rw [length_cons, take_succ_cons] at hb
        rcases mem_cons.1 hb with heq | hb
        · exact absurd (heq.trans hnil) hne
        · exact ⟨b, hb, hne⟩
      · have hheld : (s.log (.called r.node)).locks ≥ 1 := Int.le_of_eq hlocks.symm
        have hlt := execAll_locks_lt hnil hheld hbody
        have hle := callLoop_locks bodies h
        have hone : (s.log (.called r.node)).locks = 1 := hlocks
        omega

/-! ## runs -/

theorem observed_append (trace events : List Event) :
    observed (trace ++ events) = (observed trace).bind fun o => events.foldlM Observed.observe o :=
  foldlM_append

theorem observe_called {snapshot : List Ptr} (h : ∀ r ∈ post, r ∈ regs ∧ r.node ∈ snapshot) :
    (post.map fun r => Event.called r.node).foldlM Observed.observe ⟨regs, [⟨snapshot, post.map Registration.node⟩]⟩ =
      some ⟨regs, [⟨snapshot, []⟩]⟩ := by
  induction post with
  | nil => rfl
  | cons r post ih =>
    obtain ⟨hr, hpost⟩ := forall_mem_cons.1 h
    have hregistered : ¬ r.node ∉ Observed.nodes ⟨regs, [⟨snapshot, (r :: post).map Registration.node⟩]⟩ :=
      not_not_intro (mem_map_of_mem hr.1)
    have hnone : ((r :: post).map Registration.node).takeWhile (· ≠ r.node) = [] := by
      rw [map_cons, takeWhile_cons_of_neg (by simp)]
    have hrest : ((r :: post).map Registration.node).dropWhile (· ≠ r.node) = r.node :: post.map Registration.node := by
      rw [map_cons, dropWhile_cons_of_neg (by simp)]
    have hcalled : Observed.called ⟨regs, [⟨snapshot, (r :: post).map Registration.node⟩]⟩ r.node =
        some ⟨regs, [⟨snapshot, post.map Registration.node⟩]⟩ := by
      rw [Observed.called]
      simp only [if_neg hregistered, if_neg (not_not_intro hr.2), hnone, hrest]
      rw [if_pos ⟨mem_cons_self, fun q hq => absurd hq not_mem_nil⟩]
      rfl
    show ((Observed.called ⟨regs, [⟨snapshot, (r :: post).map Registration.node⟩]⟩ r.node).bind fun o =>
      (post.map fun r => Event.called r.node).foldlM Observed.observe o) = _
    rw [hcalled, Option.bind_some]
    exact ih hpost

/-- Between operations: the list holds what is registered, and the lock is free. -/
structure Idle (s : CallbackState) (regs : List Registration) : Prop where
  listed : Listed s regs
  locks : s.locks = 0
  seen : observed s.trace = some ⟨regs, []⟩

/-- The functions of some registrations, with their arguments. -/
def pairs (regs : List Registration) : List (Nat × Nat) := regs.map fun r => (r.callbackFun, r.callbackFuncArg)

theorem Idle.lock (h : Idle s regs) : s.lock.locks = 1 := by
  rw [CallbackState.lock, h.locks]
  rfl

theorem Idle.register (h : Idle s regs) (f arg : Nat) :
    ∃ s' regs', exec (.register f arg) s = some s' ∧ Idle s' regs' ∧ pairs regs' = pairs regs ++ [(f, arg)] := by
  have hlisted : Listed s.lock regs := h.listed
  obtain ⟨s₁, hinsert, hlist, hlocks, htrace⟩ := hlisted.insert f arg
  have hlist' : Listed s₁.unlock (regs ++ [⟨s.heap.next, f, arg⟩]) := hlist
  refine ⟨s₁.unlock, _, ?_, ⟨hlist', ?_, ?_⟩, map_append⟩
  · rw [exec, CallbackState.register, hinsert]
    rfl
  · rw [unlock, hlocks, h.lock]
    rfl
  · show observed s₁.trace = _
    rw [htrace, observed_append]
    show (observed s.trace).bind _ = _
    rw [h.seen]
    rfl

theorem pairs_filter (f arg : Nat) (matchArg : Bool) (regs : List Registration) :
    pairs (regs.filter (Registration.kept f arg matchArg)) =
      (pairs regs).filter fun r => !matching f arg matchArg (some r.1) r.2 := by
  rw [pairs, pairs, filter_map]
  rfl

theorem Idle.unregister (h : Idle s regs) (f arg : Nat) (matchArg : Bool) :
    ∃ s', exec (.unregister f arg matchArg) s = some s' ∧ Idle s' (regs.filter (Registration.kept f arg matchArg)) := by
  have hlisted : Listed (s.log (.unregister f arg matchArg)).lock ([] ++ regs) := h.listed
  have hlength := h.listed.length_le
  have hstart : s.theCallbacks = regs.head?.map Registration.node := by
    obtain ⟨last, hlinked⟩ := h.listed
    rw [hlinked.seg.start, head?_map, Option.map_map]
    rfl
  obtain ⟨s₁, hloop, hlist, hlocks, htrace⟩ := removeLoop_spec (f := f) (n := 2 * s.rounds) hlisted h.lock rfl hstart (by omega)
  refine ⟨s₁.unlock, ?_, hlist, ?_, ?_⟩
  · rw [exec, CallbackState.unregister]
    exact congrArg (Option.map unlock) hloop
  · rw [unlock, hlocks]
    rfl
  · show observed s₁.trace = _
    rw [htrace]
    show observed (s.trace ++ [_]) = _
    rw [observed_append, h.seen]
    rfl

theorem Idle.call (h : Idle s regs) (hquiet : ∀ body ∈ bodies.take regs.length, body = []) :
    ∃ s', exec (.call bodies) s = some s' ∧ Idle s' regs := by
  obtain ⟨last, hlinked⟩ := h.listed
  have hloop := callLoop_quiet (s := s.lock.log .began) hlinked.seg h.listed.length_le hquiet
  rw [exec, hloop]
  refine ⟨_, rfl, ⟨last, hlinked⟩, ?_, ?_⟩
  · show s.lock.locks - 1 = 0
    rw [h.lock]
    rfl
  · show observed (((s.trace ++ [.began]) ++ regs.map fun r => .called r.node) ++ [.ended]) = _
    rw [observed_append, observed_append, observed_append, h.seen]
    show ((_ : Option Observed).bind _) = _
    have hbegan : (some (⟨regs, []⟩ : Observed)).bind (fun o => [Event.began].foldlM Observed.observe o) =
        some ⟨regs, [⟨regs.map Registration.node, regs.map Registration.node⟩]⟩ := rfl
    rw [hbegan, Option.bind_some, observe_called fun r hr => ⟨hr, mem_map_of_mem hr⟩]
    rfl

theorem Idle.call_noisy (h : Idle s regs)
    (hnoisy : ∃ body ∈ bodies.take regs.length, body ≠ []) (hcall : exec (.call bodies) s = some s') : s'.locks < 0 := by
  obtain ⟨last, hlinked⟩ := h.listed
  rw [exec] at hcall
  obtain ⟨s₁, hloop, rfl⟩ := Option.map_eq_some_iff.1 hcall
  have hlt := callLoop_noisy (s := s.lock.log .began) hlinked.seg h.lock hnoisy hloop
  show s₁.locks - 1 < 0
  omega

theorem Idle.correctFrom_cons (h : Idle s regs) {op : CallbackOp} {ops : List CallbackOp} (hop : exec op s = some s') :
    CorrectFrom s (op :: ops) ↔ CorrectFrom s' ops := by
  constructor
  · intro hall n
    obtain ⟨s₁, hexec, hrest⟩ := hall (n + 1)
    rw [take_succ_cons, execAll, hop, Option.bind_some] at hexec
    exact ⟨s₁, hexec, hrest⟩
  · intro hall n
    cases n with
    | zero => exact ⟨s, by rw [take_zero, execAll], h.locks, by rw [h.seen]; rfl⟩
    | succ n =>
      obtain ⟨s₁, hexec, hrest⟩ := hall n
      refine ⟨s₁, ?_, hrest⟩
      rw [take_succ_cons, execAll, hop, Option.bind_some]
      exact hexec

theorem Idle.correctFrom_iff (h : Idle s regs) (ops : List CallbackOp) : CorrectFrom s ops ↔ Quiet (pairs regs) ops := by
  induction ops generalizing s regs with
  | nil =>
    rw [Quiet]
    exact iff_of_true (fun n => ⟨s, by rw [take_nil, execAll], h.locks, by rw [h.seen]; rfl⟩) trivial
  | cons op ops ih =>
    cases op with
    | register f arg =>
      obtain ⟨s₁, regs₁, hop, h₁, hpairs⟩ := h.register f arg
      rw [h.correctFrom_cons hop, ih h₁, hpairs, Quiet]
    | unregister f arg matchArg =>
      obtain ⟨s₁, hop, h₁⟩ := h.unregister f arg matchArg
      rw [h.correctFrom_cons hop, ih h₁, pairs_filter, Quiet]
    | call bodies =>
      rw [Quiet, pairs, length_map]
      by_cases hquiet : ∀ body ∈ bodies.take regs.length, body = []
      · obtain ⟨s₁, hop, h₁⟩ := h.call hquiet
        rw [h.correctFrom_cons hop, ih h₁, and_iff_right hquiet]
        rfl
      · refine iff_of_false (fun hall => ?_) fun hall => hquiet hall.1
        obtain ⟨s₁, hexec, hlocks, -⟩ := hall 1
        rw [take_succ_cons, take_zero, execAll, Option.bind_eq_some_iff] at hexec
        obtain ⟨s₂, hop, hnil⟩ := hexec
        rw [execAll, Option.some.injEq] at hnil
        have hnoisy : ∃ body ∈ bodies.take regs.length, body ≠ [] := by
          by_contra hnone
          exact hquiet fun body hbody => by_contra fun hne => hnone ⟨body, hbody, hne⟩
        have hlt := h.call_noisy hnoisy hop
        rw [hnil] at hlt
        omega

theorem idle_init : Idle CallbackState.init [] := ⟨⟨none, Linked.empty _⟩, rfl, rfl⟩

/-- For every sequence of operations, nested to any depth: they are correct, and leave the lock free, if and only if no
callback that is called performs an operation on the pair. -/
theorem callback_correct_iff (ops : List CallbackOp) : CorrectFrom CallbackState.init ops ↔ Quiet [] ops :=
  idle_init.correctFrom_iff ops

/-- A callback that registers another leaves the lock count at -1. -/
theorem not_callback_correct : ¬ ∀ ops, CorrectFrom CallbackState.init ops := by
  intro hall
  have hquiet := (idle_init.correctFrom_iff _).1 (hall [.register 1 0, .call [[.register 2 0]]])
  rw [pairs, map_nil, Quiet, Quiet] at hquiet
  exact absurd (hquiet.1 _ mem_cons_self) (cons_ne_nil _ _)

end Priot.Util
