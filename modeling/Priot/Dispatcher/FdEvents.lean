/-
# Dispatching events of descriptors

Callbacks for descriptors are kept in arrays of 32 slots. The dispatcher calls those whose descriptors are ready; the
callbacks may edit the arrays meanwhile. A run is told what each callback does, and records what is called and in
which state.
-/
import Priot.Dispatcher.LargeFdSet

namespace Priot.Dispatcher

open List

/-! ## registrations -/

def NUMBER_OF_EXTERNAL_FDS : Nat := 32

def REGISTERED_OK : Int := 0
def REGISTRATION_FAILED : Int := -2
def UNREGISTERED_OK : Int := 0
def NO_SUCH_REGISTRATION : Int := -1

inductive Kind where
  | read
  | write
  | exception
  deriving DecidableEq

/-- What the three arrays of a kind hold at an index. -/
structure Entry where
  fd : Nat
  function : Nat
  data : Nat
  deriving DecidableEq

/-- The arrays of a kind. The slots from the length on hold what has been left there. -/
structure Slots where
  slot : Nat → Entry
  length : Nat
  le : length ≤ NUMBER_OF_EXTERNAL_FDS

/-- The arrays and `_isFdUnregistered`. -/
structure Manager where
  slots : Kind → Slots
  isFdUnregistered : Bool

namespace Manager

/-- A registration of a kind. -/
def register (kind : Kind) (m : Manager) (entry : Entry) : Int × Manager :=
  let s := m.slots kind
  if h : s.length < NUMBER_OF_EXTERNAL_FDS then
    (REGISTERED_OK,
      { m with slots := Function.update m.slots kind ⟨Function.update s.slot s.length entry, s.length + 1, h⟩ })
  else (REGISTRATION_FAILED, m)

def registerReadFD := register .read

def registerWriteFD := register .write

def registerExceptionFD := register .exception

/-- The loop that closes the gap at an index: slots are overwritten by those behind them. -/
def closeGap : Nat → Nat → (Nat → Entry) → Nat → Entry
  | 0, _, slot => slot
  | n + 1, j, slot => closeGap n (j + 1) (Function.update slot j (slot (j + 1)))

/-- The end of a registration of a kind: the first one of the descriptor. -/
def unregister (kind : Kind) (m : Manager) (fd : Nat) : Int × Manager :=
  let s := m.slots kind
  match (List.range s.length).find? fun i => (s.slot i).fd = fd with
  | some i =>
    let length := s.length - 1
    (UNREGISTERED_OK,
      { slots := Function.update m.slots kind
          ⟨closeGap (length - i) i s.slot, length, Nat.le_trans (Nat.sub_le _ _) s.le⟩
        isFdUnregistered := true })
  | none => (NO_SUCH_REGISTRATION, m)

def unregisterReadFD := unregister .read

def unregisterWriteFD := unregister .write

def unregisterExceptionFD := unregister .exception

end Manager

/-! ## the dispatcher -/

/-- What a callback may do. -/
inductive Edit where
  | register (kind : Kind) (entry : Entry)
  | unregister (kind : Kind) (fd : Nat)

def Manager.edit (m : Manager) : Edit → Manager
  | .register .read entry => (m.registerReadFD entry).2
  | .register .write entry => (m.registerWriteFD entry).2
  | .register .exception entry => (m.registerExceptionFD entry).2
  | .unregister .read fd => (m.unregisterReadFD fd).2
  | .unregister .write fd => (m.unregisterWriteFD fd).2
  | .unregister .exception fd => (m.unregisterExceptionFD fd).2

def Manager.edits (m : Manager) (edits : List Edit) : Manager := edits.foldl Manager.edit m

/-- A loop of `FdEventManager_largeFdSetEventInfo`, over the descriptors of a kind. -/
def eventInfoLoop (junk : Nat → Nat → BitVec 64) (s : Slots) :
    Nat → Nat → Nat × LargeFdSet → Option (Nat × LargeFdSet)
  | 0, _, r => some r
  | n + 1, i, r =>
    let fd := (s.slot i).fd
    (r.2.set junk fd).bind fun set => eventInfoLoop junk s n (i + 1) (if fd ≥ r.1 then fd + 1 else r.1, set)

def largeFdSetEventInfo (junk : Nat → Nat → BitVec 64) (m : Manager) (numfds : Nat) (sets : Kind → LargeFdSet) :
    Option (Manager × Nat × (Kind → LargeFdSet)) :=
  (eventInfoLoop junk (m.slots .read) (m.slots .read).length 0 (numfds, sets .read)).bind fun r =>
    (eventInfoLoop junk (m.slots .write) (m.slots .write).length 0 (r.1, sets .write)).bind fun w =>
      (eventInfoLoop junk (m.slots .exception) (m.slots .exception).length 0 (w.1, sets .exception)).map fun e =>
        ({ m with isFdUnregistered := false }, e.1, fun
          | .read => r.2
          | .write => w.2
          | .exception => e.2)

/-- A callback that was called: its arguments, when it was called and from which index, and what it did. -/
structure Call where
  kind : Kind
  entry : Entry
  manager : Manager
  place : Nat
  edits : List Edit

structure DispatchState where
  manager : Manager
  ready : Kind → LargeFdSet
  count : Int
  calls : List Call

/-- The call of the callback at an index, and what follows it in the loop: the descriptor is read again. -/
def callAt (script : Nat → List Edit) (kind : Kind) (i : Nat) (s : DispatchState) : Option DispatchState :=
  let entry := (s.manager.slots kind).slot i
  let edits := script s.calls.length
  let manager := s.manager.edits edits
  ((s.ready kind).clr ((manager.slots kind).slot i).fd).map fun set =>
    { manager := manager
      ready := Function.update s.ready kind set
      count := s.count - 1
      calls := s.calls ++ [⟨kind, entry, s.manager, i, edits⟩] }

/-- A loop of `FdEventManager_dispatchLargeFdSetEvents`, from an index on. There are no more rounds than slots. -/
def dispatchLoop (script : Nat → List Edit) (kind : Kind) : Nat → Nat → DispatchState → Option DispatchState
  | 0, _, s => some s
  | rounds + 1, i, s =>
    if s.count ≠ 0 ∧ i < (s.manager.slots kind).length ∧ s.manager.isFdUnregistered = false then
      ((s.ready kind).isSet ((s.manager.slots kind).slot i).fd).bind fun isSet =>
        (if isSet then callAt script kind i s else some s).bind (dispatchLoop script kind rounds (i + 1))
    else some s

def dispatchLargeFdSetEvents (script : Nat → List Edit) (s : DispatchState) : Option DispatchState :=
  (dispatchLoop script .read NUMBER_OF_EXTERNAL_FDS 0 s).bind fun s =>
    (dispatchLoop script .write NUMBER_OF_EXTERNAL_FDS 0 s).bind fun s =>
      dispatchLoop script .exception NUMBER_OF_EXTERNAL_FDS 0 s

/-- A set that calls have made. -/
def Valid (set : LargeFdSet) : Prop := ∃ a, Holds set a

/-- Registrations, the sets that are offered for them and those that come back ready, a count and what the callbacks do,
the first that is called at 0. -/
structure Scene where
  manager : Manager
  junk : Nat → Nat → BitVec 64
  numfds : Nat
  offered : Kind → LargeFdSet
  offered_valid : ∀ kind, Valid (offered kind)
  ready : Kind → LargeFdSet
  ready_valid : ∀ kind, Valid (ready kind)
  count : Int
  script : Nat → List Edit

/-- A dispatch after the sets have been offered. -/
def Scene.run (scene : Scene) : Option DispatchState :=
  (largeFdSetEventInfo scene.junk scene.manager scene.numfds scene.offered).bind fun r =>
    dispatchLargeFdSetEvents scene.script ⟨r.1, scene.ready, scene.count, []⟩

/-! ## exact dispatch -/

/-- A descriptor is in a set. -/
def IsReady (set : LargeFdSet) (fd : Nat) : Prop := set.isSet fd = some true

instance (set : LargeFdSet) (fd : Nat) : Decidable (IsReady set fd) := inferInstanceAs (Decidable (_ = _))

/-- A registration of a kind. -/
def Manager.Registered (m : Manager) (kind : Kind) (entry : Entry) : Prop :=
  ∃ i < (m.slots kind).length, (m.slots kind).slot i = entry

def Call.key (c : Call) : Kind × Nat := (c.kind, c.entry.fd)

/-- Only registered and ready descriptors are dispatched, each at most once; they are removed, and counted. -/
structure Exact (scene : Scene) (s : DispatchState) : Prop where
  registered : ∀ c ∈ s.calls, c.manager.Registered c.kind c.entry
  ready : ∀ c ∈ s.calls, IsReady (scene.ready c.kind) c.entry.fd
  once : (s.calls.map Call.key).Nodup
  removed : ∀ kind fd, IsReady (s.ready kind) fd ↔ IsReady (scene.ready kind) fd ∧ (kind, fd) ∉ s.calls.map Call.key
  count : s.count = scene.count - s.calls.length

/-- The registrations whose descriptors are ready. -/
def Scene.readyEntries (scene : Scene) : List (Kind × Nat) :=
  [Kind.read, .write, .exception].flatMap fun kind =>
    (((List.range (scene.manager.slots kind).length).map fun i => ((scene.manager.slots kind).slot i).fd).filter
      fun fd => IsReady (scene.ready kind) fd).map fun fd => (kind, fd)

/-- A callback has unregistered something. -/
def Call.Unregisters (c : Call) : Prop := (c.manager.edits c.edits).isFdUnregistered = true

/-- If nothing is unregistered and the count is large enough, everything that is ready is dispatched. -/
def Complete (scene : Scene) (s : DispatchState) : Prop :=
  (∀ c ∈ s.calls, ¬ c.Unregisters) → scene.readyEntries.length ≤ scene.count →
    ∀ key ∈ scene.readyEntries, key ∈ s.calls.map Call.key

/-- A callback leaves its own descriptor where it was called from. -/
def Call.Keeps (c : Call) : Prop := (((c.manager.edits c.edits).slots c.kind).slot c.place).fd = c.entry.fd

instance (c : Call) : Decidable c.Keeps := inferInstanceAs (Decidable (_ = _))

/-- The ready descriptors that an edit registers. -/
def Scene.adds (scene : Scene) : Edit → List (Kind × Nat)
  | .register kind entry => if IsReady (scene.ready kind) entry.fd then [(kind, entry.fd)] else []
  | .unregister _ _ => []

/-- The ready descriptors that callbacks have registered. -/
def Scene.added (scene : Scene) (calls : List Call) : List (Kind × Nat) :=
  calls.flatMap fun c => c.edits.flatMap scene.adds

/-! ## edits -/

variable {m : Manager}

theorem edit_register (m : Manager) (kind : Kind) (entry : Entry) :
    m.edit (.register kind entry) = (m.register kind entry).2 := by
  cases kind <;> rfl

theorem edit_unregister (m : Manager) (kind : Kind) (fd : Nat) :
    m.edit (.unregister kind fd) = (m.unregister kind fd).2 := by
  cases kind <;> rfl

/-- Nothing but registrations that have been added by some edits. -/
structure Extends (m m' : Manager) (edits : List Edit) : Prop where
  length : ∀ kind, (m.slots kind).length ≤ (m'.slots kind).length
  old : ∀ kind, ∀ i < (m.slots kind).length, (m'.slots kind).slot i = (m.slots kind).slot i
  new : ∀ kind, ∀ i < (m'.slots kind).length,
    i < (m.slots kind).length ∨ Edit.register kind ((m'.slots kind).slot i) ∈ edits

theorem Extends.refl (m : Manager) (edits : List Edit) : Extends m m edits where
  length _ := Nat.le_refl _
  old _ _ _ := rfl
  new _ _ hi := .inl hi

theorem Extends.trans {m₁ m₂ m₃ : Manager} {edits edits' : List Edit} (h : Extends m₁ m₂ edits)
    (h' : Extends m₂ m₃ edits') : Extends m₁ m₃ (edits ++ edits') where
  length kind := Nat.le_trans (h.length kind) (h'.length kind)
  old kind i hi := (h'.old kind i (Nat.lt_of_lt_of_le hi (h.length kind))).trans (h.old kind i hi)
  new kind i hi := by
    rcases h'.new kind i hi with hi | hi
    · rw [h'.old kind i hi]
      exact (h.new kind i hi).imp_right (mem_append_left edits')
    · exact .inr (mem_append_right edits hi)

theorem register_extends (m : Manager) (kind : Kind) (entry : Entry) :
    (m.register kind entry).2.isFdUnregistered = m.isFdUnregistered ∧
      Extends m (m.register kind entry).2 [.register kind entry] := by
  unfold Manager.register
  simp only []
  split
  · next hroom =>
    refine ⟨rfl, ?_, ?_, ?_⟩
    · intro k
      by_cases hk : k = kind
      · subst hk
        simp only [Function.update_self]
        exact Nat.le_succ _
      · simp only [Function.update_of_ne hk, Nat.le_refl]
    · intro k i hi
      by_cases hk : k = kind
      · subst hk
        simp only [Function.update_self, Function.update_of_ne (Nat.ne_of_lt hi)]
      · simp only [Function.update_of_ne hk]
    · intro k i hi
      by_cases hk : k = kind
      · subst hk
        simp only [Function.update_self] at hi ⊢
        by_cases hlast : i = (m.slots k).length
        · rw [hlast, Function.update_self]
          exact .inr mem_cons_self
        · exact .inl (by omega)
      · simp only [Function.update_of_ne hk] at hi
        exact .inl hi
  · exact ⟨rfl, Extends.refl m _⟩

theorem edit_spec (m : Manager) (e : Edit) : (m.edit e).isFdUnregistered = true ∨
      (m.edit e).isFdUnregistered = m.isFdUnregistered ∧ Extends m (m.edit e) [e] := by
  cases e with
  | register kind entry =>
    rw [edit_register]
    exact .inr (register_extends m kind entry)
  | unregister kind fd =>
    rw [edit_unregister, Manager.unregister]
    simp only []
    split
    · exact .inl rfl
    · exact .inr ⟨rfl, Extends.refl m _⟩

theorem edits_flagged (h : m.isFdUnregistered = true) (es : List Edit) : (m.edits es).isFdUnregistered = true := by
  induction es generalizing m with
  | nil => exact h
  | cons e es ih =>
    refine ih (m := m.edit e) ?_
    rcases edit_spec m e with hflag | ⟨hflag, -⟩
    · exact hflag
    · rw [hflag, h]

theorem edits_extends {es : List Edit} (h : (m.edits es).isFdUnregistered = false) : Extends m (m.edits es) es := by
  induction es generalizing m with
  | nil => exact Extends.refl m []
  | cons e es ih =>
    have hrest : Extends (m.edit e) (m.edits (e :: es)) es := ih (m := m.edit e) h
    rcases edit_spec m e with hflag | ⟨-, hext⟩
    · have hend : (m.edits (e :: es)).isFdUnregistered = true := edits_flagged hflag es
      rw [hend] at h
      cases h
    · exact hext.trans hrest

/-! ## ready sets -/

theorem isReady_iff {set : LargeFdSet} {a : Members} (h : Holds set a) (fd : Nat) : IsReady set fd ↔ fd ∈ a.members := by
  unfold IsReady
  rw [isSet_spec h, Option.some.injEq, decide_eq_true_iff]

theorem Valid.isSet {set : LargeFdSet} (h : Valid set) (fd : Nat) : set.isSet fd = some (decide (IsReady set fd)) := by
  obtain ⟨a, ha⟩ := h
  rw [isSet_spec ha, decide_eq_decide.2 (isReady_iff ha fd)]

theorem Valid.clr {set : LargeFdSet} (h : Valid set) (fd : Nat) :
    ∃ set', set.clr fd = some set' ∧ Valid set' ∧ ∀ g, IsReady set' g ↔ IsReady set g ∧ g ≠ fd := by
  obtain ⟨a, ha⟩ := h
  obtain ⟨set', hclr, ha'⟩ := clr_spec ha fd
  refine ⟨set', hclr, ⟨_, ha'⟩, fun g => ?_⟩
  rw [isReady_iff ha', isReady_iff ha]
  exact Finset.mem_erase.trans and_comm

theorem Valid.set {set : LargeFdSet} (h : Valid set) (junk : Nat → Nat → BitVec 64) (fd : Nat) :
    ∃ set', set.set junk fd = some set' ∧ Valid set' := by
  obtain ⟨a, ha⟩ := h
  obtain ⟨set', hset, ha'⟩ := set_spec ha junk fd
  exact ⟨set', hset, _, ha'⟩

theorem eventInfoLoop_isSome (junk : Nat → Nat → BitVec 64) (s : Slots) (n i : Nat) {r : Nat × LargeFdSet}
    (h : Valid r.2) : ∃ r', eventInfoLoop junk s n i r = some r' := by
  induction n generalizing i r with
  | zero => exact ⟨r, rfl⟩
  | succ n ih =>
    obtain ⟨set', hset, hvalid⟩ := h.set junk (s.slot i).fd
    rw [eventInfoLoop, hset, Option.bind_some]
    exact ih (i + 1) (r := (_, set')) hvalid

theorem largeFdSetEventInfo_spec (junk : Nat → Nat → BitVec 64) (m : Manager) (numfds : Nat) {sets : Kind → LargeFdSet}
    (h : ∀ kind, Valid (sets kind)) :
    ∃ r, largeFdSetEventInfo junk m numfds sets = some r ∧ r.1 = { m with isFdUnregistered := false } := by
  obtain ⟨r, hr⟩ := eventInfoLoop_isSome junk (m.slots .read) (m.slots .read).length 0
    (r := (numfds, sets .read)) (h .read)
  obtain ⟨w, hw⟩ := eventInfoLoop_isSome junk (m.slots .write) (m.slots .write).length 0
    (r := (r.1, sets .write)) (h .write)
  obtain ⟨e, he⟩ := eventInfoLoop_isSome junk (m.slots .exception) (m.slots .exception).length 0
    (r := (w.1, sets .exception)) (h .exception)
  rw [largeFdSetEventInfo, hr, Option.bind_some, hw, Option.bind_some, he]
  exact ⟨_, rfl, rfl⟩

/-! ## runs -/

variable {scene : Scene} {s s' : DispatchState} {kind : Kind} {i : Nat}

/-- What holds at every moment of a dispatch. Once a callback has not kept its descriptor, nothing more is called. -/
structure Inv (scene : Scene) (s : DispatchState) : Prop where
  valid : ∀ kind, Valid (s.ready kind)
  registered : ∀ c ∈ s.calls, c.manager.Registered c.kind c.entry
  ready : ∀ c ∈ s.calls, IsReady (scene.ready c.kind) c.entry.fd
  once : (s.calls.map Call.key).Nodup
  removed : (∀ c ∈ s.calls, c.Keeps) →
    ∀ kind fd, IsReady (s.ready kind) fd ↔ IsReady (scene.ready kind) fd ∧ (kind, fd) ∉ s.calls.map Call.key
  left : (∃ c ∈ s.calls, ¬ c.Keeps) →
    s.manager.isFdUnregistered = true ∧ ∃ c ∈ s.calls, IsReady (s.ready c.kind) c.entry.fd
  count : s.count = scene.count - s.calls.length
  extended : s.manager.isFdUnregistered = false → Extends scene.manager s.manager (s.calls.flatMap Call.edits)
  source : ∀ c ∈ s.calls, c.key ∈ scene.readyEntries ++ scene.added s.calls
  flagged : s.manager.isFdUnregistered = true → ∃ c ∈ s.calls, c.Unregisters

theorem Inv.keeps (h : Inv scene s) (hflag : s.manager.isFdUnregistered = false) : ∀ c ∈ s.calls, c.Keeps := by
  intro c hc
  by_contra hkeeps
  rw [(h.left ⟨c, hc, hkeeps⟩).1] at hflag
  cases hflag

theorem mem_readyEntries (kind : Kind) {i : Nat} (hi : i < (scene.manager.slots kind).length)
    (hready : IsReady (scene.ready kind) ((scene.manager.slots kind).slot i).fd) :
    (kind, ((scene.manager.slots kind).slot i).fd) ∈ scene.readyEntries := by
  refine mem_flatMap.2 ⟨kind, by cases kind <;> decide, mem_map.2 ⟨_, mem_filter.2 ⟨?_, ?_⟩, rfl⟩⟩
  · exact mem_map.2 ⟨i, mem_range.2 hi, rfl⟩
  · exact decide_eq_true hready

theorem of_mem_readyEntries {key : Kind × Nat} (h : key ∈ scene.readyEntries) : IsReady (scene.ready key.1) key.2 ∧
      ∃ i < (scene.manager.slots key.1).length, ((scene.manager.slots key.1).slot i).fd = key.2 := by
  obtain ⟨kind, -, h⟩ := mem_flatMap.1 h
  obtain ⟨fd, hfilter, rfl⟩ := mem_map.1 h
  obtain ⟨hmap, hready⟩ := mem_filter.1 hfilter
  obtain ⟨i, hi, hfd⟩ := mem_map.1 hmap
  exact ⟨of_decide_eq_true hready, i, mem_range.1 hi, hfd⟩

theorem Inv.mem_source (h : Inv scene s) (hflag : s.manager.isFdUnregistered = false)
    (hi : i < (s.manager.slots kind).length) (hready : IsReady (scene.ready kind) ((s.manager.slots kind).slot i).fd) :
    (kind, ((s.manager.slots kind).slot i).fd) ∈ scene.readyEntries ++ scene.added s.calls := by
  rcases (h.extended hflag).new kind i hi with hold | hnew
  · rw [(h.extended hflag).old kind i hold] at hready ⊢
    exact mem_append_left _ (mem_readyEntries kind hold hready)
  · obtain ⟨c, hc, hedit⟩ := mem_flatMap.1 hnew
    refine mem_append_right _ (mem_flatMap.2 ⟨c, hc, mem_flatMap.2 ⟨_, hedit, ?_⟩⟩)
    rw [Scene.adds, if_pos hready]
    exact mem_cons_self

/-- The call at an index. -/
def nextCall (script : Nat → List Edit) (kind : Kind) (i : Nat) (s : DispatchState) : Call :=
  ⟨kind, (s.manager.slots kind).slot i, s.manager, i, script s.calls.length⟩

/-- The state after a call, with what is left of its set. -/
def afterCall (script : Nat → List Edit) (kind : Kind) (i : Nat) (s : DispatchState) (set : LargeFdSet) :
    DispatchState :=
  { manager := s.manager.edits (script s.calls.length)
    ready := Function.update s.ready kind set
    count := s.count - 1
    calls := s.calls ++ [nextCall script kind i s] }

theorem afterCall_ready_self (script : Nat → List Edit) (kind : Kind) (i : Nat) (s : DispatchState)
    (set : LargeFdSet) : (afterCall script kind i s set).ready kind = set := by
  simp only [afterCall, Function.update_self]

theorem afterCall_ready_of_ne (script : Nat → List Edit) {k kind : Kind} (h : k ≠ kind) (i : Nat) (s : DispatchState)
    (set : LargeFdSet) : (afterCall script kind i s set).ready k = s.ready k := by
  simp only [afterCall, Function.update_of_ne h]

theorem nextCall_keeps {script : Nat → List Edit} (hi : i < (s.manager.slots kind).length)
    (h : (s.manager.edits (script s.calls.length)).isFdUnregistered = false) : (nextCall script kind i s).Keeps :=
  congrArg Entry.fd ((edits_extends h).old kind i hi)

theorem added_append (calls : List Call) (c : Call) :
    scene.added (calls ++ [c]) = scene.added calls ++ c.edits.flatMap scene.adds := by
  rw [Scene.added, flatMap_append, flatMap_singleton]
  rfl

theorem Inv.removed_step (h : Inv scene s) (hkept : ∀ c ∈ s.calls, c.Keeps) {set : LargeFdSet}
    (hset : ∀ g, IsReady set g ↔ IsReady (s.ready kind) g ∧ g ≠ ((s.manager.slots kind).slot i).fd) (k : Kind)
    (fd : Nat) : IsReady ((afterCall scene.script kind i s set).ready k) fd ↔
      IsReady (scene.ready k) fd ∧ (k, fd) ∉ (s.calls ++ [nextCall scene.script kind i s]).map Call.key := by
  have hremoved := h.removed hkept k fd
  have hkey : (k, fd) ∈ (s.calls ++ [nextCall scene.script kind i s]).map Call.key ↔
      (k, fd) ∈ s.calls.map Call.key ∨ k = kind ∧ fd = ((s.manager.slots kind).slot i).fd := by
    rw [map_append, mem_append, map_singleton, mem_singleton]
    exact or_congr_right Prod.mk_inj
  rw [hkey]
  by_cases hk : k = kind
  · subst hk
    rw [afterCall_ready_self, hset, hremoved]
    tauto
  · rw [afterCall_ready_of_ne scene.script hk, hremoved]
    tauto

theorem Inv.step (h : Inv scene s) (hflag : s.manager.isFdUnregistered = false)
    (hi : i < (s.manager.slots kind).length) (hready : IsReady (s.ready kind) ((s.manager.slots kind).slot i).fd)
    {set : LargeFdSet} (hvalid : Valid set) (hset : ∀ g, IsReady set g ↔ IsReady (s.ready kind) g ∧
      g ≠ (((s.manager.edits (scene.script s.calls.length)).slots kind).slot i).fd) :
    Inv scene (afterCall scene.script kind i s set) := by
  have hkept := h.keeps hflag
  obtain ⟨hinitial, hfresh⟩ := (h.removed hkept kind _).1 hready
  have hcalls : ∀ {P : Call → Prop}, (∀ c ∈ s.calls, P c) → P (nextCall scene.script kind i s) →
      ∀ c ∈ s.calls ++ [nextCall scene.script kind i s], P c := by
    intro P hold hnew c hc
    rcases mem_append.1 hc with hc | hc
    · exact hold c hc
    · rw [mem_singleton.1 hc]
      exact hnew
  have hmem : nextCall scene.script kind i s ∈ s.calls ++ [nextCall scene.script kind i s] :=
    mem_append_right _ mem_cons_self
  exact {
    valid := fun k => by
      by_cases hk : k = kind
      · subst hk
        rw [afterCall_ready_self]
        exact hvalid
      · rw [afterCall_ready_of_ne scene.script hk]
        exact h.valid k
    registered := hcalls h.registered ⟨i, hi, rfl⟩
    ready := hcalls h.ready hinitial
    once := by
      rw [afterCall, map_append]
      exact h.once.append (nodup_singleton _) (disjoint_singleton.2 hfresh)
    removed := fun hkeeps => by
      have hown : (((s.manager.edits (scene.script s.calls.length)).slots kind).slot i).fd =
        ((s.manager.slots kind).slot i).fd := hkeeps _ hmem
      rw [hown] at hset
      exact h.removed_step hkept hset
    left := fun ⟨c, hc, hkeeps⟩ => by
      have hnew : ¬ (nextCall scene.script kind i s).Keeps := fun hown => hkeeps (hcalls hkept hown c hc)
      refine ⟨?_, nextCall scene.script kind i s, hmem, ?_⟩
      · by_contra hfalse
        exact hnew (nextCall_keeps hi (Bool.eq_false_iff.2 hfalse))
      · show IsReady ((afterCall scene.script kind i s set).ready kind) _
        rw [afterCall_ready_self]
        exact (hset _).2 ⟨hready, fun hown => hnew hown.symm⟩
    count := by
      have hcount := h.count
      simp only [afterCall, length_append, length_singleton]
      omega
    extended := fun hfalse => by
      rw [afterCall, flatMap_append, flatMap_singleton]
      exact (h.extended hflag).trans (edits_extends hfalse)
    source := by
      rw [afterCall, added_append, ← append_assoc]
      refine hcalls (fun c hc => mem_append_left _ (h.source c hc)) ?_
      exact mem_append_left _ (h.mem_source hflag hi hinitial)
    flagged := fun htrue => ⟨_, hmem, htrue⟩ }

def Shrinks (s s' : DispatchState) : Prop := ∀ kind fd, IsReady (s'.ready kind) fd → IsReady (s.ready kind) fd

theorem callAt_spec (h : Inv scene s) (hflag : s.manager.isFdUnregistered = false)
    (hi : i < (s.manager.slots kind).length) (hready : IsReady (s.ready kind) ((s.manager.slots kind).slot i).fd) :
    ∃ s', callAt scene.script kind i s = some s' ∧ Inv scene s' ∧ Shrinks s s' ∧
      (s'.manager.isFdUnregistered = false → ¬ IsReady (s'.ready kind) ((s.manager.slots kind).slot i).fd) := by
  obtain ⟨set, hclr, hvalid, hset⟩ := (h.valid kind).clr
    (((s.manager.edits (scene.script s.calls.length)).slots kind).slot i).fd
  refine ⟨afterCall scene.script kind i s set, ?_, h.step hflag hi hready hvalid hset, ?_, ?_⟩
  · unfold callAt
    simp only [hclr]
    rfl
  · intro k fd hfd
    by_cases hk : k = kind
    · subst hk
      rw [afterCall_ready_self] at hfd
      exact ((hset fd).1 hfd).1
    · rwa [afterCall_ready_of_ne scene.script hk] at hfd
  · intro hfalse hstill
    rw [afterCall_ready_self] at hstill
    exact ((hset _).1 hstill).2 (nextCall_keeps hi hfalse).symm

/-- Nothing more is called. -/
def Stopped (s : DispatchState) : Prop := s.count = 0 ∨ s.manager.isFdUnregistered = true

/-- No registration of a kind that was there from the beginning is still ready. -/
def Done (scene : Scene) (s : DispatchState) (kind : Kind) : Prop :=
  ∀ i < (scene.manager.slots kind).length, ¬ IsReady (s.ready kind) ((scene.manager.slots kind).slot i).fd

theorem Done.shrinks (h : Done scene s kind) (hs : Shrinks s s') : Done scene s' kind :=
  fun i hi hready => h i hi (hs kind _ hready)

theorem dispatchLoop_stopped (h : Stopped s) (script : Nat → List Edit) (kind : Kind) (rounds i : Nat) :
    dispatchLoop script kind rounds i s = some s := by
  cases rounds with
  | zero => rfl
  | succ rounds =>
    rw [dispatchLoop, if_neg]
    rintro ⟨hcount, -, hflag⟩
    rcases h with hzero | htrue
    · exact hcount hzero
    · rw [hflag] at htrue
      cases htrue

theorem round_spec (h : Inv scene s) (hflag : s.manager.isFdUnregistered = false)
    (hi : i < (s.manager.slots kind).length) :
    ∃ s', (if decide (IsReady (s.ready kind) ((s.manager.slots kind).slot i).fd) = true then
        callAt scene.script kind i s else some s) = some s' ∧ Inv scene s' ∧ Shrinks s s' ∧
      (s'.manager.isFdUnregistered = false → ¬ IsReady (s'.ready kind) ((s.manager.slots kind).slot i).fd) := by
  by_cases hready : IsReady (s.ready kind) ((s.manager.slots kind).slot i).fd
  · rw [if_pos (decide_eq_true hready)]
    exact callAt_spec h hflag hi hready
  · rw [if_neg fun htrue => hready (of_decide_eq_true htrue)]
    exact ⟨s, rfl, h, fun _ _ hfd => hfd, fun _ => hready⟩

theorem dispatchLoop_spec (h : Inv scene s) {rounds : Nat} (hrounds : i + rounds = NUMBER_OF_EXTERNAL_FDS)
    (hbelow : ∀ j < i, j < (scene.manager.slots kind).length →
      ¬ IsReady (s.ready kind) ((scene.manager.slots kind).slot j).fd) :
    ∃ s', dispatchLoop scene.script kind rounds i s = some s' ∧ Inv scene s' ∧ Shrinks s s' ∧
      (Stopped s' ∨ Done scene s' kind) := by
  induction rounds generalizing s i with
  | zero =>
    have hle := (scene.manager.slots kind).le
    exact ⟨s, rfl, h, fun _ _ hfd => hfd, .inr fun j hj => hbelow j (by omega) hj⟩
  | succ rounds ih =>
    rw [dispatchLoop]
    by_cases hgo : s.count ≠ 0 ∧ i < (s.manager.slots kind).length ∧ s.manager.isFdUnregistered = false
    · rw [if_pos hgo, (h.valid kind).isSet, Option.bind_some]
      obtain ⟨-, hi, hflag⟩ := hgo
      obtain ⟨s₁, hround, h₁, hshrinks₁, hown⟩ := round_spec h hflag hi
      rw [hround, Option.bind_some]
      by_cases hflag₁ : s₁.manager.isFdUnregistered = true
      · have hstop : Stopped s₁ := .inr hflag₁
        exact ⟨s₁, dispatchLoop_stopped hstop scene.script kind rounds (i + 1), h₁, hshrinks₁, .inl hstop⟩
      · obtain ⟨s₂, hloop, h₂, hshrinks₂, hend⟩ := ih h₁ (by omega : i + 1 + rounds = _) fun j hj hlength => by
          by_cases hji : j = i
          · subst hji
            rw [← (h.extended hflag).old kind j hlength]
            exact hown (Bool.eq_false_iff.2 hflag₁)
          · exact fun hready => hbelow j (by omega) hlength (hshrinks₁ kind _ hready)
        exact ⟨s₂, hloop, h₂, fun k fd hfd => hshrinks₁ k fd (hshrinks₂ k fd hfd), hend⟩
    · rw [if_neg hgo]
      refine ⟨s, rfl, h, fun _ _ hfd => hfd, ?_⟩
      by_cases hstop : Stopped s
      · exact .inl hstop
      · -- the loop has come to the end of the registrations
        have hflag : s.manager.isFdUnregistered = false := Bool.eq_false_iff.2 fun htrue => hstop (.inr htrue)
        have hle := (h.extended hflag).length kind
        have hi : (s.manager.slots kind).length ≤ i := by
          by_contra hlt
          exact hgo ⟨fun hzero => hstop (.inl hzero), Nat.not_le.1 hlt, hflag⟩
        exact .inr fun j hj => hbelow j (by omega) hj

theorem dispatch_spec (h : Inv scene s) : ∃ s', dispatchLargeFdSetEvents scene.script s = some s' ∧ Inv scene s' ∧
      (Stopped s' ∨ ∀ kind, Done scene s' kind) := by
  have hnone : ∀ (s : DispatchState) (kind : Kind), ∀ j < 0, j < (scene.manager.slots kind).length →
      ¬ IsReady (s.ready kind) ((scene.manager.slots kind).slot j).fd := fun _ _ j hj => absurd hj (Nat.not_lt_zero j)
  obtain ⟨s₁, hread, h₁, -, hend₁⟩ := dispatchLoop_spec h (Nat.zero_add _) (hnone s .read)
  obtain ⟨s₂, hwrite, h₂, hshrinks₂, hend₂⟩ := dispatchLoop_spec h₁ (Nat.zero_add _) (hnone s₁ .write)
  obtain ⟨s₃, hexception, h₃, hshrinks₃, hend₃⟩ := dispatchLoop_spec h₂ (Nat.zero_add _) (hnone s₂ .exception)
  refine ⟨s₃, ?_, h₃, ?_⟩
  · rw [dispatchLargeFdSetEvents, hread, Option.bind_some, hwrite, Option.bind_some, hexception]
  have hstay : ∀ {s s' : DispatchState} {kind : Kind},
      dispatchLoop scene.script kind NUMBER_OF_EXTERNAL_FDS 0 s = some s' → Stopped s → Stopped s' := by
    intro s s' kind hloop hstop
    rw [dispatchLoop_stopped hstop, Option.some.injEq] at hloop
    rwa [← hloop]
  rcases hend₁ with hstop | hdone₁
  · exact .inl (hstay hexception (hstay hwrite hstop))
  rcases hend₂ with hstop | hdone₂
  · exact .inl (hstay hexception hstop)
  rcases hend₃ with hstop | hdone₃
  · exact .inl hstop
  refine .inr fun kind => ?_
  cases kind with
  | read => exact (hdone₁.shrinks hshrinks₂).shrinks hshrinks₃
  | write => exact hdone₂.shrinks hshrinks₃
  | exception => exact hdone₃

theorem inv_start (scene : Scene) :
    Inv scene ⟨{ scene.manager with isFdUnregistered := false }, scene.ready, scene.count, []⟩ where
  valid := scene.ready_valid
  registered _ hc := absurd hc not_mem_nil
  ready _ hc := absurd hc not_mem_nil
  once := nodup_nil
  removed _ _ _ := (and_iff_left not_mem_nil).symm
  left := fun ⟨_, hc, _⟩ => absurd hc not_mem_nil
  count := (Int.sub_zero scene.count).symm
  extended _ := ⟨fun _ => Nat.le_refl _, fun _ _ _ => rfl, fun _ _ hi => .inl hi⟩
  source _ hc := absurd hc not_mem_nil
  flagged h := (nomatch h)

theorem run_spec (scene : Scene) : ∃ s, scene.run = some s ∧ Inv scene s ∧ (Stopped s ∨ ∀ kind, Done scene s kind) := by
  obtain ⟨r, hinfo, hr⟩ := largeFdSetEventInfo_spec scene.junk scene.manager scene.numfds scene.offered_valid
  obtain ⟨s, hdispatch, h⟩ := dispatch_spec (inv_start scene)
  refine ⟨s, ?_, h⟩
  rw [Scene.run, hinfo, Option.bind_some, hr, hdispatch]

theorem Inv.exact_iff (h : Inv scene s) : Exact scene s ↔ ∀ c ∈ s.calls, c.Keeps := by
  constructor
  · intro hexact
    by_contra hsome
    obtain ⟨c, hc, hkeeps⟩ : ∃ c ∈ s.calls, ¬ c.Keeps := by
      by_contra hnone
      exact hsome fun c hc => by_contra fun hkeeps => hnone ⟨c, hc, hkeeps⟩
    -- something that was called is still in its set
    obtain ⟨-, d, hd, hready⟩ := h.left ⟨c, hc, hkeeps⟩
    exact ((hexact.removed _ _).1 hready).2 (mem_map_of_mem hd)
  · intro hkeeps
    exact ⟨h.registered, h.ready, h.once, h.removed hkeeps, h.count⟩

theorem Inv.complete (h : Inv scene s) (hend : Stopped s ∨ ∀ kind, Done scene s kind)
    (hcovers : (scene.readyEntries ++ scene.added s.calls).length ≤ scene.count) : Complete scene s := by
  intro hunregisters _ key hkey
  have hflag : s.manager.isFdUnregistered = false := by
    refine Bool.eq_false_iff.2 fun htrue => ?_
    obtain ⟨c, hc, hown⟩ := h.flagged htrue
    exact hunregisters c hc hown
  rcases hend with (hzero | htrue) | hdone
  · have hsub : s.calls.map Call.key ⊆ scene.readyEntries ++ scene.added s.calls := by
      intro k hk
      obtain ⟨c, hc, rfl⟩ := mem_map.1 hk
      exact h.source c hc
    have hcount := h.count
    have hperm : (s.calls.map Call.key).Perm (scene.readyEntries ++ scene.added s.calls) := by
      refine (h.once.subperm hsub).perm_of_length_le ?_
      rw [length_map]
      omega
    exact hperm.mem_iff.2 (mem_append_left _ hkey)
  · rw [hflag] at htrue
    cases htrue
  · obtain ⟨hready, i, hi, hfd⟩ := of_mem_readyEntries hkey
    by_contra hnot
    refine hdone key.1 i hi ?_
    rw [hfd]
    exact (h.removed (h.keeps hflag) key.1 key.2).2 ⟨hready, hnot⟩

theorem valid_pair : Valid ⟨5, .embedded, 24 :: List.replicate 15 0⟩ :=
  ⟨⟨5, {3, 4}, true⟩, .placed _ rfl rfl (.embedded rfl (by decide) rfl rfl) (by decide) (by decide)⟩

/-- The descriptors 3 and 4 are ready, and the callback of 3 unregisters it. -/
def unregistering : Scene where
  manager := ⟨fun _ => ⟨fun i => ⟨i + 3, i, i⟩, 2, by decide⟩, true⟩
  junk _ _ := 0
  numfds := 0
  offered _ := ⟨5, .embedded, 24 :: List.replicate 15 0⟩
  offered_valid _ := valid_pair
  ready _ := ⟨5, .embedded, 24 :: List.replicate 15 0⟩
  ready_valid _ := valid_pair
  count := 6
  script _ := [.unregister .read 3]

end Priot.Dispatcher
