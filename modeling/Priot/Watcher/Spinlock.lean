/-
# Watched spin locks

The watcher compares the length of a new value with the size of the `int`; an INTEGER from the network is a `long`, so
that its length is never the right one. The memory of the `int` is the octets from its address on, least significant
first. The scalar and the instance helper pass on what is asked. Allocations succeed.
-/
import Priot.Api.PduParse
import Priot.Containers.BinarySearch

namespace Priot.Watcher

open Api Asn01 Containers Octets

/-! ## watched memory -/

def PRIOT_ERR_WRONGTYPE : Int := 7

def PRIOT_ERR_WRONGLENGTH : Int := 8

def PRIOT_ERR_WRONGVALUE : Int := 10

/-- `sizeof( oid )` and `sizeof( int )`. -/
def sizeofOid : Nat := 4

def sizeofInt : Nat := 4

/-- `WATCHER_FIXED_SIZE` and the flags that follow it. -/
structure Flags where
  fixedSize : Bool
  maxSize : Bool
  sizeIsPtr : Bool
  sizeStrlen : Bool
  sizeUnitOids : Bool
  deriving DecidableEq

/-- `WatcherInfo`, with what its two pointers point to. -/
structure WatcherInfo where
  data : List UInt8
  dataSize : Nat
  maxSize : Nat
  type : UInt8
  flags : Flags
  dataSizeP : Nat
  deriving DecidableEq

def getDataSize (winfo : WatcherInfo) : Nat :=
  if winfo.flags.sizeStrlen = true then (winfo.data.takeWhile (· ≠ 0)).length
  else
    let res := if winfo.flags.sizeIsPtr = true then winfo.dataSizeP else winfo.dataSize
    if winfo.flags.sizeUnitOids = true then res * sizeofOid else res

/-- `memcpy( winfo->data, data, size )`, with a 0 behind a string. -/
def storeData (winfo : WatcherInfo) (data : List UInt8) (size : Nat) : List UInt8 :=
  if winfo.flags.sizeStrlen = true then data.take size ++ [0] ++ winfo.data.drop (size + 1)
  else data.take size ++ winfo.data.drop size

def setData (winfo : WatcherInfo) (data : List UInt8) (size : Nat) : WatcherInfo :=
  let stored := { winfo with data := storeData winfo data size }
  if winfo.flags.sizeStrlen = true then stored
  else
    let size := if winfo.flags.sizeUnitOids = true then size / sizeofOid else size
    if winfo.flags.sizeIsPtr = true then { stored with dataSizeP := size } else { stored with dataSize := size }

/-! ## handlers -/

/-- The part of a `RequestInfo` that the handlers look at: the varbind, and what they leave in the request. -/
structure Request where
  type : UInt8
  valueLength : Nat
  octets : List UInt8
  status : Int
  processed : Bool
  watcher : Option (List UInt8 × Nat)
  deriving DecidableEq

inductive Mode
  | reserve1
  | reserve2
  | action
  | commit
  | undo
  | free
  deriving DecidableEq

/-- What a handler works on, whether it ends the chain this once, and what it returns. -/
structure Handled where
  winfo : WatcherInfo
  request : Request
  overrideOnce : Bool
  ret : Int

def setRequestError (request : Request) (error : Int) : Request :=
  { request with status := error, processed := true }

/-- `Watcher_helperHandler`, for SET requests. -/
def watcherHelper (mode : Mode) (winfo : WatcherInfo) (request : Request) : Handled :=
  match mode with
  | .reserve1 =>
    if request.type ≠ winfo.type then ⟨winfo, setRequestError request PRIOT_ERR_WRONGTYPE, true, 0⟩
    else if (winfo.flags.maxSize = true ∧ request.valueLength > winfo.maxSize) ∨
        (winfo.flags.fixedSize = true ∧ request.valueLength ≠ getDataSize winfo) then
      ⟨winfo, setRequestError request PRIOT_ERR_WRONGLENGTH, true, 0⟩
    else if winfo.flags.sizeStrlen = true ∧ 0 ∈ request.octets.take request.valueLength then
      ⟨winfo, setRequestError request PRIOT_ERR_WRONGVALUE, true, 0⟩
    else ⟨winfo, request, false, 0⟩
  | .reserve2 =>
    let size := getDataSize winfo
    ⟨winfo, { request with watcher := some (winfo.data.take size, size) }, false, 0⟩
  | .action => ⟨setData winfo request.octets request.valueLength, request, false, 0⟩
  | .undo => ⟨request.watcher.elim winfo fun old => setData winfo old.1 old.2, request, false, 0⟩
  | .commit => ⟨winfo, request, false, 0⟩
  | .free => ⟨winfo, request, false, 0⟩

/-- `*spinlock`. -/
def spinlockValue (winfo : WatcherInfo) : Int := toInt (leNat (winfo.data.take sizeofInt))

/-- `*value.integer`, a `long`. -/
def integerValue (request : Request) : Int := Int.bmod (leNat (request.octets.take 8)) (2 ^ 64)

/-- `(*spinlock)++`. -/
def increment (winfo : WatcherInfo) : WatcherInfo :=
  { winfo with
    data := leOctets sizeofInt (leNat (winfo.data.take sizeofInt) + 1) ++ winfo.data.drop sizeofInt }

/-- `Watcher_watchedSpinlockHandler`. -/
def watchedSpinlock (mode : Mode) (winfo : WatcherInfo) (request : Request) : Handled :=
  match mode with
  | .reserve1 =>
    if request.processed = false ∧ integerValue request ≠ spinlockValue winfo then
      ⟨winfo, setRequestError request PRIOT_ERR_WRONGVALUE, true, PRIOT_ERR_WRONGVALUE⟩
    else ⟨winfo, request, false, 0⟩
  | .commit => ⟨increment winfo, request, false, 0⟩
  | .reserve2 => ⟨winfo, request, false, 0⟩
  | .action => ⟨winfo, request, false, 0⟩
  | .undo => ⟨winfo, request, false, 0⟩
  | .free => ⟨winfo, request, false, 0⟩

/-- `AgentHandler_callHandler`, for handlers that have `MIB_HANDLER_AUTO_NEXT`. -/
def callHandler (mode : Mode) : List (Mode → WatcherInfo → Request → Handled) → WatcherInfo → Request → Handled
  | [], winfo, request => ⟨winfo, request, false, 0⟩
  | [handler], winfo, request => handler mode winfo request
  | handler :: next :: rest, winfo, request =>
    let h := handler mode winfo request
    if h.overrideOnce = true then h else callHandler mode (next :: rest) h.winfo h.request

/-- The handlers that `Watcher_registerWatchedSpinlock` injects. The one that comes last stands in front. -/
def spinlockChain : List (Mode → WatcherInfo → Request → Handled) := [watcherHelper, watchedSpinlock]

def registerWatchedSpinlock (memory : List UInt8) : WatcherInfo where
  data := memory
  dataSize := sizeofInt
  maxSize := sizeofInt
  type := asnINTEGER
  flags := ⟨true, false, false, false, false⟩
  dataSizeP := 0

/-! ## SET requests -/

/-- One pass over the handlers. An error that is in the request comes before the one that is returned. -/
def pass (mode : Mode) (winfo : WatcherInfo) (request : Request) : WatcherInfo × Request × Int :=
  let h := callHandler mode spinlockChain winfo request
  (h.winfo, h.request, if h.request.status ≠ 0 then h.request.status else h.ret)

/-- What a SET comes to: the status of the answer, the pass in which it failed, and the watched memory. -/
structure Outcome where
  status : Int
  failed : Option Mode
  winfo : WatcherInfo

/-- `Agent_handleSetLoop`, for a request with one varbind. -/
def handleSetLoop (winfo : WatcherInfo) (request : Request) : Outcome :=
  let r1 := pass .reserve1 winfo request
  if r1.2.2 ≠ 0 then ⟨r1.2.2, some .reserve1, (pass .free r1.1 r1.2.1).1⟩
  else
    let r2 := pass .reserve2 r1.1 r1.2.1
    if r2.2.2 ≠ 0 then ⟨r2.2.2, some .reserve2, (pass .free r2.1 r2.2.1).1⟩
    else
      let a := pass .action r2.1 r2.2.1
      if a.2.2 ≠ 0 then ⟨a.2.2, some .action, (pass .undo a.1 a.2.1).1⟩
      else
        let c := pass .commit a.1 a.2.1
        ⟨c.2.2, if c.2.2 ≠ 0 then some .commit else none, c.1⟩

/-- The octets of a value in its buffer. -/
def valueOctets : VarValue → List UInt8
  | .integer v _ => leOctets 8 (v % 2 ^ 64).toNat
  | _ => []

/-- The request for a varbind that `Api_pduParse` has decoded. -/
def requestOf (out : ValueOut) : Request where
  type := out.type
  valueLength := out.valueLength
  octets := (out.value.map valueOctets).getD []
  status := 0
  processed := false
  watcher := none

/-! ## what is asked of a spin lock -/

/-- A SET as it arrives: an INTEGER that the decoder has accepted. -/
structure Arrival where
  valLength : Nat
  varVal : Mem
  accepted : (parseVarValue asnINTEGER valLength varVal).failed = false

namespace Arrival

variable (a : Arrival)

def decoded : ValueOut := parseVarValue asnINTEGER a.valLength a.varVal

/-- The value that the manager has sent. -/
def value : Int := integerValue (requestOf a.decoded)

def set (winfo : WatcherInfo) : Outcome := handleSetLoop winfo (requestOf a.decoded)

end Arrival

def TC_MAX : Int := 2147483647

/-- The value after the current one, with 0 behind the largest. -/
def successor (v : Int) : Int := if v = TC_MAX then 0 else v + 1

/-- A SET succeeds if and only if it has the current value. Then the value is incremented, and else it fails at once and
nothing is changed. -/
def TestsAndIncrements (winfo : WatcherInfo) (a : Arrival) : Prop :=
  let r := a.set winfo
  (r.status = 0 ↔ a.value = spinlockValue winfo) ∧
    (r.status = 0 → spinlockValue r.winfo = successor (spinlockValue winfo)) ∧
    (r.status ≠ 0 → r.failed = some .reserve1 ∧ spinlockValue r.winfo = spinlockValue winfo)

/-- The SETs of a sequence, each with the lock that it finds. -/
def finds (winfo : WatcherInfo) : List Arrival → List (WatcherInfo × Arrival)
  | [] => []
  | a :: rest => (winfo, a) :: finds (a.set winfo).winfo rest

/-- Every SET of a sequence tests and increments, and of managers that have all read the value one is successful. -/
def AdmitsOneWriter (winfo : WatcherInfo) (sets : List Arrival) : Prop :=
  (∀ f ∈ finds winfo sets, TestsAndIncrements f.1 f.2) ∧
    (sets ≠ [] → (∀ a ∈ sets, a.value = spinlockValue winfo) →
      ((finds winfo sets).filter fun f => (f.2.set f.1).status = 0).length = 1)

/-! ## every SET is too long -/

variable {winfo : WatcherInfo} {memory : List UInt8} {a : Arrival} {sets : List Arrival}

theorem Arrival.requestOf_decoded (a : Arrival) :
    (requestOf a.decoded).type = asnINTEGER ∧ (requestOf a.decoded).valueLength = 8 := by
  have hout : a.decoded = ValueOut.ofParse (parseInt a.varVal MAX_PACKET_LENGTH) 8 fun _ v => .integer v 8 := by
    rw [Arrival.decoded, parseVarValue]
    simp only [if_true]
  -- what is accepted is an INTEGER, and its value stands in the buffer as a `long`
  have haccepted : a.decoded.failed = false := a.accepted
  rw [hout, ValueOut.ofParse] at haccepted
  rw [hout, ValueOut.ofParse]
  cases hresult : (parseInt a.varVal MAX_PACKET_LENGTH).result with
  | none =>
    rw [hresult] at haccepted
    cases haccepted
  | some r =>
    have htype : a.varVal.head = asnINTEGER := by
      by_contra hne
      rw [parseInt] at hresult
      simp [guard, hne] at hresult
    exact ⟨htype, rfl⟩

theorem set_registered (memory : List UInt8) (a : Arrival) : a.set (registerWatchedSpinlock memory) =
      ⟨PRIOT_ERR_WRONGLENGTH, some .reserve1, registerWatchedSpinlock memory⟩ := by
  obtain ⟨htype, hlength⟩ := a.requestOf_decoded
  have hwrong : watcherHelper .reserve1 (registerWatchedSpinlock memory) (requestOf a.decoded) =
      ⟨registerWatchedSpinlock memory, setRequestError (requestOf a.decoded) PRIOT_ERR_WRONGLENGTH, true, 0⟩ := by
    have hsize : getDataSize (registerWatchedSpinlock memory) = 4 := rfl
    have hsame : ¬ (requestOf a.decoded).type ≠ (registerWatchedSpinlock memory).type := not_not.2 htype
    -- eight octets of a `long` are never the four of an `int`
    have hlong : (requestOf a.decoded).valueLength ≠ getDataSize (registerWatchedSpinlock memory) := by
      rw [hlength, hsize]
      decide
    simp only [watcherHelper]
    rw [if_neg hsame, if_pos (Or.inr ⟨rfl, hlong⟩)]
  have hpass : pass .reserve1 (registerWatchedSpinlock memory) (requestOf a.decoded) =
      (registerWatchedSpinlock memory, setRequestError (requestOf a.decoded) PRIOT_ERR_WRONGLENGTH,
        PRIOT_ERR_WRONGLENGTH) := by
    simp only [pass, spinlockChain, callHandler, hwrong]
    rfl
  have hbad : PRIOT_ERR_WRONGLENGTH ≠ 0 := by decide
  rw [Arrival.set, handleSetLoop, hpass]
  simp only [if_pos hbad]
  rfl

theorem finds_registered (memory : List UInt8) (sets : List Arrival) :
    finds (registerWatchedSpinlock memory) sets = sets.map fun a => (registerWatchedSpinlock memory, a) := by
  induction sets with
  | nil => rfl
  | cons a rest ih => rw [finds, set_registered, ih, List.map_cons]

theorem testsAndIncrements_iff (memory : List UInt8) (a : Arrival) :
    TestsAndIncrements (registerWatchedSpinlock memory) a ↔ a.value ≠ spinlockValue (registerWatchedSpinlock memory) := by
  have hbad : PRIOT_ERR_WRONGLENGTH ≠ 0 := by decide
  simp only [TestsAndIncrements, set_registered]
  constructor
  · intro h heq
    exact hbad (h.1.2 heq)
  · intro hne
    exact ⟨iff_of_false hbad hne, fun h => absurd h hbad, fun _ => ⟨trivial, trivial⟩⟩

/-- A spin lock works as long as no SET has its value. -/
theorem admitsOneWriter_iff (memory : List UInt8) (sets : List Arrival) :
    AdmitsOneWriter (registerWatchedSpinlock memory) sets ↔
      ∀ a ∈ sets, a.value ≠ spinlockValue (registerWatchedSpinlock memory) := by
  -- the lock is found as it was registered, so all SETs are alike
  have hall : (∀ f ∈ finds (registerWatchedSpinlock memory) sets, TestsAndIncrements f.1 f.2) ↔
      ∀ a ∈ sets, a.value ≠ spinlockValue (registerWatchedSpinlock memory) := by
    rw [finds_registered, List.forall_mem_map]
    constructor
    · intro h a ha
      exact (testsAndIncrements_iff memory a).1 (h a ha)
    · intro h a ha
      exact (testsAndIncrements_iff memory a).2 (h a ha)
  rw [AdmitsOneWriter, hall]
  constructor
  · intro h
    exact h.1
  · intro h
    refine ⟨h, ?_⟩
    intro hne hread
    obtain ⟨a, ha⟩ := List.exists_mem_of_ne_nil sets hne
    exact absurd (hread a ha) (h a ha)

/-- The octets of an INTEGER 5. -/
def fiveArrives : Arrival where
  valLength := 1
  varVal := Stream'.cons 2 (Stream'.cons 1 (Stream'.const 5))
  accepted := by decide

/-- A lock with the value 5 is not incremented by it. -/
theorem not_admitsOneWriter : ¬ ∀ memory sets, AdmitsOneWriter (registerWatchedSpinlock memory) sets := by
  intro h
  have hfive := (h [5, 0, 0, 0] [fiveArrives]).1
  rw [finds_registered, List.map_cons, List.forall_mem_cons, testsAndIncrements_iff] at hfive
  exact hfive.1 (by decide)

end Priot.Watcher
