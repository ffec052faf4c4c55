/-
# Index requests of subagents

A PDU asks for a list of index values or gives it back. The first that cannot be had or given back ends the request,
and what was done for the earlier ones is undone.
-/
import Priot.AgentIndex.Exclusive
import Mathlib.Data.Finset.Piecewise

namespace Priot.AgentIndex

open Lib List

/-! ## the requests -/

def AGENTX_ERR_NOERROR : Int := PRIOT_ERR_NOERROR

def AGENTX_ERR_NOT_OPEN : Int := 257

def AGENTX_ERR_INDEX_NONE_AVAILABLE : Int := 260

def AGENTX_ERR_INDEX_NOT_ALLOCATED : Int := 261

/-- The session of a connection, with the session ids of its subsessions. -/
structure Connection where
  session : Ptr
  subsession : List Nat

/-- An IndexAllocate PDU with its two flags, or an IndexDeallocate PDU. -/
inductive Command
  | indexAllocate (anyInstance newInstance : Bool)
  | indexDeallocate

structure Pdu where
  command : Command
  sessid : Nat
  varbinds : List VarBind

/-- The error of an answer and its varbinds. -/
structure Answer where
  err : Int
  varbinds : List VarBind
  deriving DecidableEq

def findAgentxSession (session : Connection) (sessid : Nat) : Option Nat := session.subsession.find? (· = sessid)

/-- The flags of an allocation. `ALLOCATE_NEW_INDEX` has the bit of `ALLOCATE_ANY_INDEX`. -/
def allocateFlags (anyInstance newInstance : Bool) : Flags :=
  if newInstance = true then .allocateNewIndex
  else if anyInstance = true then .allocateAnyIndex
  else .allocateThisIndex

/-- The earlier allocations are fully released. -/
def removeAll (ss : Option Ptr) (done : List VarBind) (s : IndexRegistry) : Option IndexRegistry :=
  done.foldlM (fun s vp2 => (removeIndex s vp2 ss).map Prod.snd) s

/-- The earlier releases are reinstated. -/
def reinstateAll (ss : Option Ptr) (done : List VarBind) (s : IndexRegistry) : Option IndexRegistry :=
  done.foldlM (fun s vp2 => (registerIndex s vp2 .allocateThisIndex ss).map Prod.snd) s

/-- The loop of `MasterAdmin_allocateIdxList`, behind varbinds that hold what they have been given. -/
def allocateLoop (flags : Flags) (ss : Option Ptr) :
    List VarBind → List VarBind → IndexRegistry → Option (Answer × IndexRegistry)
  | done, [], s => some (⟨AGENTX_ERR_NOERROR, done⟩, s)
  | done, vp :: rest, s => do
    let (res, s) ← registerIndex s vp flags ss
    match res with
    | none => do
      let s ← removeAll ss done s
      some (⟨AGENTX_ERR_INDEX_NONE_AVAILABLE, done ++ vp :: rest⟩, s)
    | some value => allocateLoop flags ss (done ++ [⟨vp.name, value⟩]) rest s

/-- The loop of `MasterAdmin_releaseIdxList`. -/
def releaseLoop (ss : Option Ptr) :
    List VarBind → List VarBind → IndexRegistry → Option (Answer × IndexRegistry)
  | done, [], s => some (⟨AGENTX_ERR_NOERROR, done⟩, s)
  | done, vp :: rest, s => do
    let (res, s) ← unregisterIndex s vp true ss
    if res ≠ PRIOT_ERR_NOERROR then do
      let s ← reinstateAll ss done s
      some (⟨AGENTX_ERR_INDEX_NOT_ALLOCATED, done ++ vp :: rest⟩, s)
    else releaseLoop ss (done ++ [vp]) rest s

/-- The loop that serves a PDU. -/
def serve (session : Connection) (pdu : Pdu) (s : IndexRegistry) : Option (Answer × IndexRegistry) :=
  match pdu.command with
  | .indexAllocate anyInstance newInstance =>
    allocateLoop (allocateFlags anyInstance newInstance) (some session.session) [] pdu.varbinds s
  | .indexDeallocate => releaseLoop (some session.session) [] pdu.varbinds s

/-- `MasterAdmin_allocateIdxList` and `MasterAdmin_releaseIdxList`. -/
def idxList (session : Connection) (pdu : Pdu) (s : IndexRegistry) : Option (Answer × IndexRegistry) :=
  if findAgentxSession session pdu.sessid = none then some (⟨AGENTX_ERR_NOT_OPEN, pdu.varbinds⟩, s)
  else serve session pdu s

/-! ## all or nothing -/

/-- A request that fails leaves the registry as it was. One that allocates and does not fail has given each varbind a
value of its own. -/
def AllOrNothing (session : Connection) (pdu : Pdu) (s : IndexRegistry) : Prop :=
  ∃ answer s', idxList session pdu s = some (answer, s') ∧
    (answer.err ≠ AGENTX_ERR_NOERROR → idxRegistry s' = idxRegistry s) ∧
    (pdu.command ≠ .indexDeallocate → answer.err = AGENTX_ERR_NOERROR →
      answer.varbinds.Nodup ∧ ∀ vp ∈ answer.varbinds, Held (idxRegistry s') vp.name vp.value (some session.session))

/-- Every registration of a request has what it needs. -/
def AllocateMeets (flags : Flags) (ss : Option Ptr) : List VarBind → IndexRegistry → Prop
  | [], _ => True
  | vp :: rest, s => Serves (idxRegistry s) vp flags ∧
    ∀ value s', registerIndex s vp flags ss = some (some value, s') → value.Requested ∧ AllocateMeets flags ss rest s'

/-- Every release of a request has what it needs. -/
def ReleaseMeets (ss : Option Ptr) : List VarBind → IndexRegistry → Prop
  | [], _ => True
  | vp :: rest, s => Releases (idxRegistry s) vp ss ∧
    ∀ s', unregisterIndex s vp true ss = some (PRIOT_ERR_NOERROR, s') → ReleaseMeets ss rest s'

/-- No varbind is refused behind one that has claimed a value that had been released. -/
def Cautious (flags : Flags) (ss : Option Ptr) : Prop → List VarBind → IndexRegistry → Prop
  | _, [], _ => True
  | claimed, vp :: rest, s => (Refuses (idxRegistry s) vp flags → ¬ claimed) ∧
    ∀ value s', registerIndex s vp flags ss = some (some value, s') →
      Cautious flags ss (claimed ∨ Claims (idxRegistry s) vp flags) rest s'

namespace Pdu

variable (session : Connection) (pdu : Pdu) (s : IndexRegistry)

def Meets : Prop :=
  findAgentxSession session pdu.sessid ≠ none →
    match pdu.command with
    | .indexAllocate anyInstance newInstance =>
      AllocateMeets (allocateFlags anyInstance newInstance) (some session.session) pdu.varbinds s
    | .indexDeallocate => ReleaseMeets (some session.session) pdu.varbinds s

def Cautious : Prop :=
  findAgentxSession session pdu.sessid ≠ none →
    match pdu.command with
    | .indexAllocate anyInstance newInstance =>
      AgentIndex.Cautious (allocateFlags anyInstance newInstance) (some session.session) False pdu.varbinds s
    | .indexDeallocate => True

end Pdu

/-- The registries that index requests come to, from the agent itself and in PDUs, if every call has what it needs. -/
inductive ReachedByPdus : IndexRegistry → Prop
  | fresh : ReachedByPdus fresh
  | step {s s' : IndexRegistry} {op : Op} {reply : Reply} (hs : ReachedByPdus s) (hmeets : Meets (idxRegistry s) op)
    (hstep : step s op = some (reply, s')) : ReachedByPdus s'
  | pdu {s s' : IndexRegistry} {session : Connection} {pdu : Pdu} {answer : Answer} (hs : ReachedByPdus s)
    (hmeets : pdu.Meets session s) (hrun : idxList session pdu s = some (answer, s')) : ReachedByPdus s'

/-! ## what is found after one request -/

variable {s : IndexRegistry} {m : VarBind → Option Index} {ss : Option Ptr} {k : VarBind} {flags : Flags}
  {done : List VarBind}

/-- The registry is in order, and this is what is found in it. -/
structure Shows (s : IndexRegistry) (m : VarBind → Option Index) : Prop where
  listed : ∃ rows, Listed s rows
  look_eq : look (idxRegistry s) = m

/-- The entry of a value that is allocated. -/
def granted (ss : Option Ptr) (k : VarBind) : Option Index := some ⟨k.name, k.value, true, ss⟩

/-- The entry of a value that has been released. -/
def freed (k : VarBind) : Option Index := some ⟨k.name, k.value, false, none⟩

theorem Listed.shows {rows : List (List (Ptr × Index))} (h : Listed s rows) (hlook : look (data rows) = m) :
    Shows s m :=
  ⟨⟨rows, h⟩, h.idxRegistry_eq ▸ hlook⟩

theorem Shows.ordered (h : Shows s m) : Ordered (idxRegistry s) := by
  obtain ⟨rows, hlisted⟩ := h.listed
  rw [hlisted.idxRegistry_eq]
  exact hlisted.ordered

theorem Listed.rows_ne {rows : List (List (Ptr × Index))} (h : Listed s rows) : ∀ row ∈ idxRegistry s, row ≠ [] := by
  rw [h.idxRegistry_eq]
  intro row hrow
  obtain ⟨items, hitems, rfl⟩ := mem_map.1 hrow
  exact fun hnil => h.linked.grid.rows_ne items hitems (map_eq_nil_iff.1 hnil)

theorem Shows.eq_iff {s' : IndexRegistry} {m' : VarBind → Option Index} (h : Shows s m) (h' : Shows s' m') :
    idxRegistry s' = idxRegistry s ↔ m' = m := by
  obtain ⟨rows, hlisted⟩ := h.listed
  obtain ⟨rows', hlisted'⟩ := h'.listed
  rw [← h.look_eq, ← h'.look_eq]
  constructor
  · exact congrArg look
  · exact h'.ordered.ext_look h.ordered hlisted'.rows_ne hlisted.rows_ne

theorem not_extends_self (v : IndexValue) : ¬ v.Extends v := by
  cases v with
  | octets v => exact fun h => h.1 rfl
  | integer v => exact id
  | objectId v => exact id

theorem Ordered.not_extends {L : List (List Index)} {e : Index} (h : Ordered L) (he : look L k = some e) :
    ∀ e' ∈ entriesOf L k.name, ¬ k.value.Extends e'.value := by
  obtain ⟨hlisted, rfl⟩ := h.look_eq_some.1 he
  intro e' he' hextends
  obtain ⟨he', hname⟩ := mem_filter.1 he'
  have hname : e'.name = e.name := of_decide_eq_true hname
  -- a text does not go on where it ends itself
  have hne : e ≠ e' := by
    rintro rfl
    exact not_extends_self _ hextends
  rcases h.before_or hlisted he' hne with (hlt | ⟨-, hlt⟩) | (hlt | ⟨-, hlt⟩)
  · exact Std.lt_irrefl (hname ▸ hlt)
  · exact (extends_not_below hextends).1 hlt
  · exact Std.lt_irrefl (hname ▸ hlt)
  · exact (extends_not_below hextends).2 hlt

theorem Ordered.fits {L : List (List Index)} {e : Index} (h : Ordered L) (he : look L k = some e) : Fits L k := by
  obtain ⟨hlisted, rfl⟩ := h.look_eq_some.1 he
  intro e' he'
  obtain ⟨he', hname⟩ := mem_filter.1 he'
  have hname : e'.name = e.name := of_decide_eq_true hname
  by_cases heq : e = e'
  · rw [heq]
    rfl
  · rcases h.before_or hlisted he' heq with (hlt | ⟨-, hlt⟩) | (hlt | ⟨-, hlt⟩)
    · exact absurd (hname ▸ hlt) Std.lt_irrefl
    · exact below_type_eq hlt
    · exact absurd (hname ▸ hlt) Std.lt_irrefl
    · exact (below_type_eq hlt).symm

theorem Ordered.held_iff {L : List (List Index)} (h : Ordered L) {t : Option Ptr} :
    Held L k.name k.value t ↔ look L k = granted t k := by
  constructor
  · rintro ⟨e, he, hname, hvalue, hall, ht⟩
    rw [h.look_eq_some.2 ⟨he, by rw [Index.key, hname, hvalue]⟩, granted, ← hname, ← hvalue, ← hall, ← ht]
  · intro hlook
    obtain ⟨he, -⟩ := h.look_eq_some.1 hlook
    exact ⟨_, he, rfl, rfl, rfl, rfl⟩

theorem Shows.registerIndex_spec (h : Shows s m) (hserves : Serves (idxRegistry s) k flags) (ss : Option Ptr) :
    ∃ rv s', registerIndex s k flags ss = some (rv, s') ∧
      (rv = none ↔ Refuses (idxRegistry s) k flags) ∧ (rv = none → Shows s' m) ∧
      ∀ w, rv = some w → (flags = .allocateThisIndex → w = k.value) ∧ (∀ t, m ⟨k.name, w⟩ ≠ granted t ⟨k.name, w⟩) ∧
        (m ⟨k.name, w⟩ ≠ none ↔ Claims (idxRegistry s) k flags) ∧
        Shows s' (Function.update m ⟨k.name, w⟩ (granted ss ⟨k.name, w⟩)) := by
  obtain ⟨rows, hlisted⟩ := h.listed
  have hm := h.look_eq
  have hord := h.ordered
  rw [hlisted.idxRegistry_eq] at hserves hm hord ⊢
  obtain ⟨rv, s', rows', hregister, h', hentered⟩ := hlisted.registerIndex_entered hserves ss
  refine ⟨rv, s', hregister, hentered.refuses, fun hnone => h'.shows ?_, fun w hw => ⟨?_, fun t ht => ?_, ?_, ?_⟩⟩
  · exact (hentered.refused hnone).trans hm
  · exact fun hthis => hentered.registered.this_exact hthis w hw
  · exact (hentered.registered.granted w hw).1 t (hord.held_iff.2 (hm ▸ ht))
  · rw [← hm]
    exact hentered.claims w hw
  · refine h'.shows ?_
    rw [hentered.granted w hw, hm]
    rfl

theorem Shows.unregisterIndex_spec (h : Shows s m) (hreleases : Releases (idxRegistry s) k ss) (remember : Bool) :
    ∃ rc s', unregisterIndex s k remember ss = some (rc, s') ∧
      (rc = PRIOT_ERR_NOERROR ↔ m k = granted ss k) ∧ (rc ≠ PRIOT_ERR_NOERROR → Shows s' m) ∧
      (rc = PRIOT_ERR_NOERROR → Shows s' (Function.update m k (if remember = true then freed k else none))) := by
  obtain ⟨rows, hlisted⟩ := h.listed
  have hm := h.look_eq
  have hord := h.ordered
  rw [hlisted.idxRegistry_eq] at hreleases hm hord
  obtain ⟨rc, s', rows', hunregister, h', hgiven⟩ := hlisted.unregisterIndex_givenUp hreleases remember
  refine ⟨rc, s', hunregister, ⟨fun hrc => hm ▸ (hgiven.freed hrc).1, fun hk => ?_⟩, fun hrc => h'.shows ?_,
    fun hrc => h'.shows ?_⟩
  · rcases hgiven.unregistered with ⟨hrc, -⟩ | ⟨-, hnot, -⟩
    · exact hrc
    · exact absurd (hord.held_iff.2 (hm.symm ▸ hk)) hnot
  · exact (hgiven.kept hrc).trans hm
  · rw [(hgiven.freed hrc).2, hm]
    rfl

theorem Shows.removeIndex_spec (h : Shows s m) (hk : k.value.Requested) (hgranted : m k = granted ss k) :
    ∃ s', (removeIndex s k ss).map Prod.snd = some s' ∧ Shows s' (Function.update m k none) := by
  have hlook : look (idxRegistry s) k = granted ss k := h.look_eq ▸ hgranted
  have hreleases : Releases (idxRegistry s) k ss :=
    ⟨hk, fun e he _ _ => h.ordered.not_extends hlook e he⟩
  obtain ⟨rc, s', hremove, hrc, -, h'⟩ := h.unregisterIndex_spec hreleases false
  refine ⟨s', ?_, h' (hrc.2 hgranted)⟩
  rw [removeIndex, hremove]
  rfl

theorem Shows.reinstate_spec (h : Shows s m) (hk : k.value.Requested) (hfreed : m k = freed k) (ss : Option Ptr) :
    ∃ s', (registerIndex s k .allocateThisIndex ss).map Prod.snd = some s' ∧
      Shows s' (Function.update m k (granted ss k)) := by
  have hlook : look (idxRegistry s) k = freed k := h.look_eq ▸ hfreed
  have hserves : Serves (idxRegistry s) k .allocateThisIndex := ⟨hk, h.ordered.not_extends hlook⟩
  obtain ⟨rv, s', hregister, hrefuses, -, h'⟩ := h.registerIndex_spec hserves ss
  -- what has been released is nobody's
  have hnot : ¬ Refuses (idxRegistry s) k .allocateThisIndex := by
    rintro (hnot | ⟨-, t, ht⟩)
    · exact hnot (h.ordered.fits hlook)
    · rw [h.ordered.held_iff, hlook] at ht
      exact absurd (congrArg Index.allocated (Option.some.inj ht)) Bool.false_ne_true
  cases rv with
  | none => exact absurd (hrefuses.1 rfl) hnot
  | some w =>
    obtain ⟨hexact, -, -, h'⟩ := h' w rfl
    rw [hexact rfl] at h'
    exact ⟨s', by rw [hregister]; rfl, h'⟩

/-! ## the loops -/

theorem update_piecewise_insert (f m : VarBind → Option Index) (done : Finset VarBind) (k : VarBind) :
    done.piecewise f (Function.update m k (f k)) = (insert k done).piecewise f m := by
  rw [Finset.piecewise_insert, Finset.update_piecewise, Function.update_eq_self]

theorem piecewise_eq_self_iff (f m : VarBind → Option Index) (done : List VarBind) :
    done.toFinset.piecewise f m = m ↔ ∀ k ∈ done, f k = m k := by
  constructor
  · intro h k hk
    rw [← congrFun h k, Finset.piecewise_eq_of_mem _ _ _ (mem_toFinset.2 hk)]
  · intro h
    funext k
    by_cases hk : k ∈ done
    · rw [Finset.piecewise_eq_of_mem _ _ _ (mem_toFinset.2 hk), h k hk]
    · rw [Finset.piecewise_eq_of_notMem _ _ _ (fun hmem => hk (mem_toFinset.1 hmem))]

theorem toFinset_append_singleton (done : List VarBind) (k : VarBind) :
    (done ++ [k]).toFinset = insert k done.toFinset := by
  rw [toFinset_append, toFinset_cons, toFinset_nil, Finset.union_insert, Finset.union_empty]

theorem nodup_append_singleton (hnodup : done.Nodup) (hk : k ∉ done) : (done ++ [k]).Nodup := by
  refine nodup_append.2 ⟨hnodup, nodup_singleton k, ?_⟩
  intro x hx y hy
  rw [mem_singleton.1 hy]
  exact fun heq => hk (heq ▸ hx)

theorem Shows.undo_spec {op : IndexRegistry → VarBind → Option IndexRegistry} {f g : VarBind → Option Index}
    (hop : ∀ s m k, Shows s m → k.value.Requested → m k = g k →
      ∃ s', op s k = some s' ∧ Shows s' (Function.update m k (f k)))
    (h : Shows s m) (hnodup : done.Nodup) (hrequested : ∀ k ∈ done, k.value.Requested) (hm : ∀ k ∈ done, m k = g k) :
    ∃ s', done.foldlM op s = some s' ∧ Shows s' (done.toFinset.piecewise f m) := by
  induction done generalizing s m with
  | nil => exact ⟨s, rfl, h⟩
  | cons k done ih =>
    obtain ⟨hk, hnodup⟩ := nodup_cons.1 hnodup
    obtain ⟨s₁, hrun, h₁⟩ := hop s m k h (hrequested k mem_cons_self) (hm k mem_cons_self)
    have hrequested' : ∀ x ∈ done, x.value.Requested := fun x hx => hrequested x (mem_cons_of_mem _ hx)
    -- the values are distinct, so that undoing one leaves the others
    have hm' : ∀ x ∈ done, Function.update m k (f k) x = g x := by
      intro x hx
      have hne : x ≠ k := fun heq => hk (heq ▸ hx)
      rw [Function.update_of_ne hne]
      exact hm x (mem_cons_of_mem _ hx)
    obtain ⟨s', hrest, h'⟩ := ih h₁ hnodup hrequested' hm'
    refine ⟨s', ?_, ?_⟩
    · rw [foldlM_cons, hrun]
      exact hrest
    · rw [toFinset_cons, ← update_piecewise_insert]
      exact h'

/-- The state of an allocation, before which `m` was found. -/
structure Allocating (ss : Option Ptr) (m : VarBind → Option Index) (done : List VarBind) (claimed : Prop)
    (s : IndexRegistry) : Prop where
  shows : Shows s (done.toFinset.piecewise (granted ss) m)
  nodup : done.Nodup
  requested : ∀ k ∈ done, k.value.Requested
  claimed_iff : claimed ↔ ∃ k ∈ done, m k ≠ none

theorem Allocating.push {claimed claims : Prop} {s' : IndexRegistry} (h : Allocating ss m done claimed s)
    (hk : k.value.Requested) (hfree : ∀ t, done.toFinset.piecewise (granted ss) m k ≠ granted t k)
    (hclaims : done.toFinset.piecewise (granted ss) m k ≠ none ↔ claims)
    (h' : Shows s' (Function.update (done.toFinset.piecewise (granted ss) m) k (granted ss k))) :
    Allocating ss m (done ++ [k]) (claimed ∨ claims) s' := by
  -- a value that this request has been given is not given again
  have hnot : k ∉ done := by
    intro hmem
    exact hfree ss (Finset.piecewise_eq_of_mem _ _ _ (mem_toFinset.2 hmem))
  have hmk : done.toFinset.piecewise (granted ss) m k = m k :=
    Finset.piecewise_eq_of_notMem _ _ _ fun hmem => hnot (mem_toFinset.1 hmem)
  refine ⟨?_, nodup_append_singleton h.nodup hnot, ?_, ?_⟩
  · rw [toFinset_append_singleton, Finset.piecewise_insert]
    exact h'
  · intro x hx
    rcases mem_append.1 hx with hx | hx
    · exact h.requested x hx
    · rw [mem_singleton.1 hx]
      exact hk
  · rw [h.claimed_iff, ← hclaims, hmk]
    simp only [mem_append, mem_singleton, or_and_right, exists_or, exists_eq_left]

theorem Allocating.removeAll_spec {claimed : Prop} (h : Allocating ss m done claimed s) :
    ∃ s' m', removeAll ss done s = some s' ∧ Shows s' m' ∧ (m' = m ↔ ¬ claimed) := by
  obtain ⟨s', hrun, h'⟩ := h.shows.undo_spec (f := fun _ => none) (g := granted ss)
    (fun s m k hs hk hm => hs.removeIndex_spec hk hm) h.nodup h.requested
    fun k hk => Finset.piecewise_eq_of_mem _ _ _ (mem_toFinset.2 hk)
  rw [Finset.piecewise_idem_right] at h'
  refine ⟨s', _, hrun, h', ?_⟩
  rw [piecewise_eq_self_iff, h.claimed_iff]
  simp only [not_exists, not_and, ne_eq, not_not]
  exact forall₂_congr fun k _ => eq_comm

/-- An allocation that fails leaves behind what was found before if and only if it has been cautious. -/
theorem Allocating.allocateLoop_spec {claimed : Prop} (rest : List VarBind) (h : Allocating ss m done claimed s)
    (hmeets : AllocateMeets flags ss rest s) :
    ∃ answer s' m', allocateLoop flags ss done rest s = some (answer, s') ∧ Shows s' m' ∧
      ((answer.err ≠ AGENTX_ERR_NOERROR → m' = m) ↔ Cautious flags ss claimed rest s) ∧
      (answer.err = AGENTX_ERR_NOERROR → answer.varbinds.Nodup ∧ ∀ k ∈ answer.varbinds, m' k = granted ss k) := by
  induction rest generalizing done claimed s with
  | nil =>
    refine ⟨_, s, _, rfl, h.shows, iff_of_true (fun herr => absurd rfl herr) trivial, fun _ => ⟨h.nodup, ?_⟩⟩
    exact fun k hk => Finset.piecewise_eq_of_mem _ _ _ (mem_toFinset.2 hk)
  | cons vp rest ih =>
    obtain ⟨hserves, hrest⟩ := hmeets
    obtain ⟨rv, s₁, hregister, hrefuses, hnone, hsome⟩ := h.shows.registerIndex_spec hserves ss
    cases rv with
    | none =>
      have h₁ : Allocating ss m done claimed s₁ := ⟨hnone rfl, h.nodup, h.requested, h.claimed_iff⟩
      obtain ⟨s', m', hremove, h', hm'⟩ := h₁.removeAll_spec
      -- the refused varbind is answered with an error
      have herr : AGENTX_ERR_INDEX_NONE_AVAILABLE ≠ AGENTX_ERR_NOERROR := by decide
      refine ⟨⟨AGENTX_ERR_INDEX_NONE_AVAILABLE, done ++ vp :: rest⟩, s', m', ?_, h', ?_, fun h => absurd h herr⟩
      · rw [allocateLoop, hregister]
        show (removeAll ss done s₁).bind _ = _
        rw [hremove]
        rfl
      · rw [Cautious, forall_prop_of_true herr, forall_prop_of_true (hrefuses.1 rfl), hm']
        refine (and_iff_left ?_).symm
        intro value s₂ heq
        rw [hregister] at heq
        exact absurd (Prod.mk.inj (Option.some.inj heq)).1 (Option.some_ne_none value).symm
    | some w =>
      obtain ⟨-, hfree, hclaims, hs₁⟩ := hsome w rfl
      obtain ⟨hw, hmeets⟩ := hrest w s₁ hregister
      obtain ⟨answer, s', m', hrun, h', hiff, hnoerror⟩ := ih (h.push hw hfree hclaims hs₁) hmeets
      refine ⟨answer, s', m', ?_, h', ?_, hnoerror⟩
      · rw [allocateLoop, hregister]
        exact hrun
      · rw [hiff, Cautious]
        have hnot : ¬ Refuses (idxRegistry s) vp flags := fun h => Option.some_ne_none w (hrefuses.2 h)
        constructor
        · intro hcautious
          refine ⟨fun h => absurd h hnot, fun value s₂ heq => ?_⟩
          rw [hregister] at heq
          obtain ⟨hvalue, rfl⟩ := Prod.mk.inj (Option.some.inj heq)
          exact hcautious
        · exact fun h => h.2 w s₁ hregister

/-- The state of a release, before which `m` was found. -/
structure Releasing (ss : Option Ptr) (m : VarBind → Option Index) (done : List VarBind) (s : IndexRegistry) :
    Prop where
  shows : Shows s (done.toFinset.piecewise freed m)
  nodup : done.Nodup
  requested : ∀ k ∈ done, k.value.Requested
  granted : ∀ k ∈ done, m k = granted ss k

theorem Releasing.reinstateAll_spec (h : Releasing ss m done s) :
    ∃ s', reinstateAll ss done s = some s' ∧ Shows s' m := by
  obtain ⟨s', hrun, h'⟩ := h.shows.undo_spec (f := AgentIndex.granted ss) (g := freed)
    (fun s m k hs hk hm => hs.reinstate_spec hk hm ss) h.nodup h.requested
    fun k hk => Finset.piecewise_eq_of_mem _ _ _ (mem_toFinset.2 hk)
  rw [Finset.piecewise_idem_right, (piecewise_eq_self_iff _ _ _).2 fun k hk => (h.granted k hk).symm] at h'
  exact ⟨s', hrun, h'⟩

theorem Releasing.releaseLoop_spec (rest : List VarBind) (h : Releasing ss m done s) (hmeets : ReleaseMeets ss rest s) :
    ∃ answer s' m', releaseLoop ss done rest s = some (answer, s') ∧ Shows s' m' ∧
      (answer.err ≠ AGENTX_ERR_NOERROR → m' = m) := by
  induction rest generalizing done s with
  | nil => exact ⟨_, s, _, rfl, h.shows, fun herr => absurd rfl herr⟩
  | cons vp rest ih =>
    obtain ⟨hreleases, hrest⟩ := hmeets
    obtain ⟨rc, s₁, hunregister, hgranted, hkept, hfreed⟩ := h.shows.unregisterIndex_spec hreleases true
    by_cases hrc : rc = PRIOT_ERR_NOERROR
    · subst hrc
      have hk := hgranted.1 rfl
      -- a value that has been released already cannot be released again
      have hnot : vp ∉ done := by
        intro hmem
        rw [Finset.piecewise_eq_of_mem _ _ _ (mem_toFinset.2 hmem)] at hk
        exact absurd (congrArg Index.allocated (Option.some.inj hk)) Bool.false_ne_true
      rw [Finset.piecewise_eq_of_notMem _ _ _ fun hmem => hnot (mem_toFinset.1 hmem)] at hk
      have hpush : Releasing ss m (done ++ [vp]) s₁ := by
        refine ⟨?_, nodup_append_singleton h.nodup hnot, ?_, ?_⟩
        · rw [toFinset_append_singleton, Finset.piecewise_insert]
          exact hfreed rfl
        · intro x hx
          rcases mem_append.1 hx with hx | hx
          · exact h.requested x hx
          · rw [mem_singleton.1 hx]
            exact hreleases.1
        · intro x hx
          rcases mem_append.1 hx with hx | hx
          · exact h.granted x hx
          · rw [mem_singleton.1 hx]
            exact hk
      obtain ⟨answer, s', m', hrun, h', herr⟩ := ih hpush (hrest s₁ hunregister)
      refine ⟨answer, s', m', ?_, h', herr⟩
      rw [releaseLoop, hunregister]
      exact hrun
    · have h₁ : Releasing ss m done s₁ := ⟨hkept hrc, h.nodup, h.requested, h.granted⟩
      obtain ⟨s', hreinstate, h'⟩ := h₁.reinstateAll_spec
      refine ⟨⟨AGENTX_ERR_INDEX_NOT_ALLOCATED, done ++ vp :: rest⟩, s', m, ?_, h', fun _ => rfl⟩
      rw [releaseLoop, hunregister]
      show (if rc ≠ PRIOT_ERR_NOERROR then _ else _) = _
      rw [if_pos hrc, hreinstate]
      rfl

/-! ## all or nothing, if cautious -/

variable {session : Connection} {pdu : Pdu}

theorem Shows.idxList_spec (h : Shows s m) (session : Connection) (pdu : Pdu) (hmeets : pdu.Meets session s) :
    ∃ answer s' m', idxList session pdu s = some (answer, s') ∧ Shows s' m' ∧
      ((answer.err ≠ AGENTX_ERR_NOERROR → m' = m) ↔ pdu.Cautious session s) ∧
      (pdu.command ≠ .indexDeallocate → answer.err = AGENTX_ERR_NOERROR →
        answer.varbinds.Nodup ∧ ∀ k ∈ answer.varbinds, m' k = granted (some session.session) k) := by
  by_cases hsession : findAgentxSession session pdu.sessid = none
  · have herr : AGENTX_ERR_NOT_OPEN ≠ AGENTX_ERR_NOERROR := by decide
    refine ⟨_, s, m, if_pos hsession, h, iff_of_true (fun _ => rfl) ?_, fun _ h => absurd h herr⟩
    exact fun hopen => absurd hsession hopen
  · have hserve : idxList session pdu s = serve session pdu s := if_neg hsession
    have hmeets := hmeets hsession
    obtain ⟨command, sessid, varbinds⟩ := pdu
    rw [hserve]
    cases command with
    | indexAllocate anyInstance newInstance =>
      have hstart : Allocating (some session.session) m [] False s :=
        ⟨h, nodup_nil, fun _ hk => absurd hk not_mem_nil, by simp⟩
      obtain ⟨answer, s', m', hrun, h', hiff, hnoerror⟩ := hstart.allocateLoop_spec varbinds hmeets
      exact ⟨answer, s', m', hrun, h', hiff.trans ⟨fun h _ => h, fun h => h hsession⟩, fun _ => hnoerror⟩
    | indexDeallocate =>
      have hstart : Releasing (some session.session) m [] s :=
        ⟨h, nodup_nil, fun _ hk => absurd hk not_mem_nil, fun _ hk => absurd hk not_mem_nil⟩
      obtain ⟨answer, s', m', hrun, h', herr⟩ := hstart.releaseLoop_spec varbinds hmeets
      exact ⟨answer, s', m', hrun, h', iff_of_true herr fun _ => trivial, fun hne => absurd rfl hne⟩

theorem ReachedByPdus.listed (h : ReachedByPdus s) : ∃ rows, Listed s rows := by
  induction h with
  | fresh => exact ⟨[], listed_fresh⟩
  | step _ hmeets hstep ih =>
    obtain ⟨rows, hlisted⟩ := ih
    rw [hlisted.idxRegistry_eq] at hmeets
    obtain ⟨reply, s', rows', e, h', -⟩ := hlisted.step_spec hmeets
    rw [hstep] at e
    obtain ⟨-, rfl⟩ := Prod.mk.inj (Option.some.inj e)
    exact ⟨rows', h'⟩
  | pdu _ hmeets hrun ih =>
    obtain ⟨answer, s', m', e, h', -⟩ := (Shows.mk ih rfl).idxList_spec _ _ hmeets
    rw [hrun] at e
    obtain ⟨-, rfl⟩ := Prod.mk.inj (Option.some.inj e)
    exact h'.listed

/-- In every registry that is reached a request is all or nothing if and only if it is cautious. One that gives
values back always is. -/
theorem allOrNothing_iff (h : ReachedByPdus s) (session : Connection) (pdu : Pdu) (hmeets : pdu.Meets session s) :
    AllOrNothing session pdu s ↔ pdu.Cautious session s := by
  have hs : Shows s (look (idxRegistry s)) := ⟨h.listed, rfl⟩
  obtain ⟨answer, s', m', hrun, h', hiff, hnoerror⟩ := hs.idxList_spec session pdu hmeets
  rw [← hiff]
  constructor
  · rintro ⟨answer', s'', hrun', hkept, -⟩ herr
    rw [hrun] at hrun'
    obtain ⟨rfl, rfl⟩ := Prod.mk.inj (Option.some.inj hrun')
    exact (hs.eq_iff h').1 (hkept herr)
  · intro hkept
    refine ⟨answer, s', hrun, fun herr => (hs.eq_iff h').2 (hkept herr), fun hne herr => ?_⟩
    obtain ⟨hnodup, hheld⟩ := hnoerror hne herr
    refine ⟨hnodup, fun vp hvp => h'.ordered.held_iff.2 ?_⟩
    rw [h'.look_eq]
    exact hheld vp hvp

theorem meets_fresh : Pdu.Meets ⟨1, [7]⟩ ⟨.indexAllocate false false, 7, [⟨[1, 3], .integer 5⟩]⟩ fresh := by
  intro _
  have hserves : Serves (idxRegistry fresh) ⟨[1, 3], .integer 5⟩ .allocateThisIndex :=
    ⟨⟨by decide, by decide⟩, fun _ he => absurd he not_mem_nil⟩
  refine ⟨hserves, ?_⟩
  intro value s' hregister
  have hvalue : some (IndexValue.integer 5) = some value := congrArg Prod.fst (Option.some.inj hregister)
  rw [← Option.some.inj hvalue]
  exact ⟨⟨by decide, by decide⟩, trivial⟩

/-- With the integer it is cautious. -/
theorem allOrNothing_iff_fresh :
    AllOrNothing ⟨1, [7]⟩ ⟨.indexAllocate false false, 7, [⟨[1, 3], .integer 5⟩]⟩ fresh ↔
      Pdu.Cautious ⟨1, [7]⟩ ⟨.indexAllocate false false, 7, [⟨[1, 3], .integer 5⟩]⟩ fresh :=
  allOrNothing_iff .fresh _ _ meets_fresh

/-- An integer was allocated and is released, and then is asked for together with a text. The registry forgets it. -/
theorem not_allOrNothing :
    ∃ s s', ReachedByPdus s ∧
      idxList ⟨1, [7]⟩ ⟨.indexAllocate false false, 7, [⟨[1, 3], .integer 5⟩, ⟨[1, 3], .octets [97]⟩]⟩ s =
        some (⟨AGENTX_ERR_INDEX_NONE_AVAILABLE, [⟨[1, 3], .integer 5⟩, ⟨[1, 3], .octets [97]⟩]⟩, s') ∧
      idxRegistry s = [[⟨[1, 3], .integer 5, false, none⟩]] ∧ idxRegistry s' = [] ∧
      ¬ AllOrNothing ⟨1, [7]⟩ ⟨.indexAllocate false false, 7, [⟨[1, 3], .integer 5⟩, ⟨[1, 3], .octets [97]⟩]⟩ s := by
  have hrelease (s : IndexRegistry) : Pdu.Meets ⟨1, [7]⟩ ⟨.indexDeallocate, 7, [⟨[1, 3], .integer 5⟩]⟩ s :=
    fun _ => ⟨⟨⟨by decide, by decide⟩, fun _ _ _ _ => id⟩, fun _ _ => trivial⟩
  -- the text is refused, and the integer, which was only claimed, is removed
  refine ⟨_, _, .pdu (.pdu .fresh meets_fresh rfl) (hrelease _) rfl, rfl, rfl, rfl, ?_⟩
  rintro ⟨answer, s', hrun, hkept, -⟩
  obtain ⟨rfl, rfl⟩ := Prod.mk.inj (Option.some.inj hrun)
  exact absurd (hkept (by decide)) (by decide)

end Priot.AgentIndex
