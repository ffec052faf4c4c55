/-
# `Priot_reallocRbuildVarOp`, `Api_pduReallocRbuild`, `Priot_buildVarOp`, `Api_pduBuild`

The reverse encoder needs the varbinds last first: it walks the list forward through a cache of fifty slots, writes
them out, and walks again up to the last one written. The forward encoder comes back to the headers of sequences.
-/
import Priot.Asn01.Build

namespace Priot.Api

open Asn01

/-! ## one varbind (`Priot.c`) -/

/-- The switch of `Priot_reallocRbuildVarOp` over `var_val_type`. -/
def reallocRbuildValue : VarValue → Rb Unit
  | .integer v size => reallocRbuildInt asnINTEGER v size
  | .unsigned t v size => reallocRbuildUnsignedInt t.tag v size
  | .unsigned64 t high low size => reallocRbuildUnsignedInt64 t.tag high low size
  | .string t s => reallocRbuildString t.tag s
  | .objectId o => reallocRbuildObjid asnOBJECT_ID o
  | .null t => reallocRbuildNull t.tag
  | .bitString s => reallocRbuildBitstring asnBIT_STR s
  | .float bits size => reallocRbuildFloat bits size
  | .double bits size => reallocRbuildDouble bits size
  | .signed64 high low size => reallocRbuildSignedInt64 high low size
  | .unknown _ => throw ()

def reallocRbuildVarOp (vp : VariableList) : Rb Unit := do
  let startOffset := (← get).offset
  reallocRbuildValue vp.value
  reallocRbuildObjid asnOBJECT_ID vp.name
  reallocBuildHeader asnSEQUENCE_CONSTRUCTOR ((← get).offset - startOffset)

/-! ## the cache -/

def VPCACHE_SIZE : Nat := 50

/-- The cache while the list is walked. A varbind is known by its position in the list; `next` is
`i + 1`, so that the slot written next is `next - 1` and `final` in the end is `next`. -/
structure VpCache where
  slot : Nat → Nat
  next : Nat
  wrapped : Bool

/-- The state of the `for` loops before the first varbind. -/
def VpCache.start (slot : Nat → Nat) : VpCache := ⟨slot, VPCACHE_SIZE, false⟩

/-- One round of the `for` loops that fill the cache. -/
def VpCache.push (c : VpCache) (vp : Nat) : VpCache :=
  let c := if c.next = 0 then { c with next := VPCACHE_SIZE, wrapped := true } else c
  { c with slot := Function.update c.slot (c.next - 1) vp, next := c.next - 1 }

/-- The `for` loops: the varbinds before position `stop` go into the cache. -/
def VpCache.fill (slot : Nat → Nat) (stop : Nat) : VpCache :=
  (List.range stop).foldl VpCache.push (VpCache.start slot)

/-- `for ( i = first; i < last; i++ )` over the slots, `last = first + count`. -/
def rbuildSlots (vars : List VariableList) (slot : Nat → Nat) (first : Nat) : Nat → Rb Unit
  | 0 => pure ()
  | count + 1 => do
    match vars[slot first]? with
    | some vp => reallocRbuildVarOp vp
    | none => throw ()
    rbuildSlots vars slot (first + 1) count

/-- The `do … while ( notdone )` loop. Every round but the last writes a varbind, so as many rounds
as there are varbinds are enough after the first. -/
def rbuildRounds (vars : List VariableList) : Nat → VpCache → Rb Unit
  | 0, _ => throw ()
  | fuel + 1, c => do
    rbuildSlots vars c.slot c.next (VPCACHE_SIZE - c.next)
    if c.wrapped then
      rbuildSlots vars c.slot 0 c.next
      let tmpvp := if c.next = 0 then c.slot (VPCACHE_SIZE - 1) else c.slot (c.next - 1)
      rbuildRounds vars fuel (VpCache.fill c.slot tmpvp)

/-- The varbinds of `Api_pduReallocRbuild`, last first. What the slots hold before they are written
does not matter. -/
def rbuildVarBinds (vars : List VariableList) : Rb Unit :=
  rbuildRounds vars (vars.length + 1) (VpCache.fill (fun _ => 0) vars.length)

/-! ## the PDU -/

/-- The fields of every PDU but a v1 TRAP. -/
def rbuildRequestFields (pdu : Pdu VariableList) : Rb Unit := do
  reallocRbuildInt asnINTEGER pdu.errindex 8
  reallocRbuildInt asnINTEGER pdu.errstat 8
  reallocRbuildInt asnINTEGER pdu.reqid 8

/-- The fields of a v1 TRAP. -/
def rbuildTrapFields (pdu : Pdu VariableList) : Rb Unit := do
  reallocRbuildUnsignedInt asnTIMETICKS pdu.time 8
  reallocRbuildInt asnINTEGER pdu.specificType 8
  reallocRbuildInt asnINTEGER pdu.trapType 8
  reallocRbuildString asnIPADDRESS pdu.agentAddr.toList
  reallocRbuildObjid asnOBJECT_ID (pdu.enterprise.take pdu.enterpriseLength)

/-- The fields in front of the varbinds. -/
def rbuildFields (pdu : Pdu VariableList) : Rb Unit :=
  if pdu.command ≠ PRIOT_MSG_TRAP then rbuildRequestFields pdu else rbuildTrapFields pdu

/-- The header of the varbind list. Whether it has been written is not asked: `rc` is overwritten. -/
def rbuildVarBindHeader (startOffset : Nat) : Rb Unit := do
  let s ← get
  match (reallocBuildHeader asnSEQUENCE_CONSTRUCTOR (s.offset - startOffset)).run s with
  | (_, s') => set s'

/-- `( u_char )pdu->command`. -/
def commandOctet (command : Int) : UInt8 := Octets.lowOctet command

def pduReallocRbuild (pdu : Pdu VariableList) : Rb Unit := do
  let startOffset := (← get).offset
  rbuildVarBinds pdu.vars
  rbuildVarBindHeader startOffset
  rbuildFields pdu
  reallocBuildHeader (commandOctet pdu.command) ((← get).offset - startOffset)

/-! ## the forward encoder -/

/-- The switch of `Priot_buildVarOp` over `var_val_type`. -/
def buildValue : VarValue → Build Unit
  | .integer v size => buildInt asnINTEGER v size
  | .unsigned t v size => buildUnsignedInt t.tag v size
  | .unsigned64 t high low size => buildUnsignedInt64 t.tag high low size
  | .string t s => buildString t.tag s
  | .objectId o => buildObjid asnOBJECT_ID o
  | .null t => buildNull t.tag
  | .bitString s => buildBitstring asnBIT_STR s
  | .float bits size => buildFloat bits size
  | .double bits size => buildDouble bits size
  | .signed64 high low size => buildSignedInt64 high low size
  | .unknown _ => failure

/-- `Priot_buildVarOp`. The four octets left out hold anything until the header is put there. -/
def buildVarOp (vp : VariableList) : Build Unit := do
  let dataPtr := (← get).out.length
  buildHeaderCheck 4
  emit [0, 0, 0, 0]
  spend 4
  buildObjid asnOBJECT_ID vp.name
  buildValue vp.value
  let dummyLen := (← get).out.length - dataPtr - 4
  buildSequenceAt dataPtr dummyLen asnSEQUENCE_CONSTRUCTOR dummyLen

/-- `for ( vp = pdu->variables; vp; vp = vp->next )`. -/
def buildVarBinds : List VariableList → Build Unit
  | [] => pure ()
  | vp :: rest => do
    buildVarOp vp
    buildVarBinds rest

/-- The fields of every PDU but a v1 TRAP. -/
def buildRequestFields (pdu : Pdu VariableList) : Build Unit := do
  buildInt asnINTEGER pdu.reqid 8
  buildInt asnINTEGER pdu.errstat 8
  buildInt asnINTEGER pdu.errindex 8

/-- The fields of a v1 TRAP. -/
def buildTrapFields (pdu : Pdu VariableList) : Build Unit := do
  buildObjid asnOBJECT_ID (pdu.enterprise.take pdu.enterpriseLength)
  buildString asnIPADDRESS pdu.agentAddr.toList
  buildInt asnINTEGER pdu.trapType 8
  buildInt asnINTEGER pdu.specificType 8
  buildUnsignedInt asnTIMETICKS pdu.time 8

/-- The fields in front of the varbinds. -/
def buildFields (pdu : Pdu VariableList) : Build Unit :=
  if pdu.command ≠ PRIOT_MSG_TRAP then buildRequestFields pdu else buildTrapFields pdu

def pduBuild (pdu : Pdu VariableList) : Build Unit := do
  let length := (← get).left
  let h1 := (← get).out.length
  buildSequence (commandOctet pdu.command) 0
  let h1e := (← get).out.length
  buildFields pdu
  let h2 := (← get).out.length
  buildSequence asnSEQUENCE_CONSTRUCTOR 0
  let h2e := (← get).out.length
  buildVarBinds pdu.vars
  let cp := (← get).out.length
  buildSequenceAt h2 length asnSEQUENCE_CONSTRUCTOR (cp - h2e)
  buildSequenceAt h1 (length - 4) (commandOctet pdu.command) (cp - h1e)

end Priot.Api
