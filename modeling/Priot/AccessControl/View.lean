/-
# Views

A view is a list of masked subtrees, and the longest one that an OID lies in decides. A whole subtree is looked up in
one pass, which remembers the best entry that is not longer than it and the first one that is.
-/
import Priot.AccessControl.Vacm
import Priot.Registry.Oid

namespace Priot.AccessControl

open Lib Registry

/-! ## entries -/

def PRIOT_VIEW_INCLUDED : Int := 1

def PRIOT_VIEW_EXCLUDED : Int := 2

/-- `Vacm_ViewEntry_s`. The length in front of the subtree is left out, so what the source counts with it is one less
here. -/
@[ext]
structure ViewEntry where
  viewName : VacmString
  viewSubtree : ObjId
  viewMask : List UInt8
  viewType : Int
  viewStorageType : Int
  viewStatus : Int
  deriving DecidableEq

/-- `VIEW_MASK`: behind the mask all bits are set. -/
def ViewEntry.maskAt (vp : ViewEntry) (maskpos : Nat) (mask : UInt8) : UInt8 :=
  match vp.viewMask[maskpos]? with
  | none => mask
  | some m => m &&& mask

/-- The loop over the subidentifiers of both lists, up to the end of the shorter one. -/
def matchLoop (vp : ViewEntry) (ignoreMask : Bool) (mask : UInt8) (maskpos : Nat) : ObjId → ObjId → Bool
  | v :: x, w :: y =>
    if (ignoreMask = true ∨ vp.maskAt maskpos mask ≠ 0) ∧ v ≠ w then false
    else if mask = 1 then matchLoop vp ignoreMask 0x80 (maskpos + 1) x y
    else matchLoop vp ignoreMask (mask >>> 1) maskpos x y
  | _, _ => true

def ViewEntry.found (vp : ViewEntry) (ignoreMask : Bool) (viewSubtree : ObjId) : Bool :=
  matchLoop vp ignoreMask 0x80 0 viewSubtree vp.viewSubtree

/-- The entry is one of the view. -/
def ViewEntry.inView (vp : ViewEntry) (viewName : Text) : Bool :=
  memcmp (viewName.length + 1) (lengthPrefixed viewName) vp.viewName.octets = 0

/-- The entry is longer than the one kept so far, or as long and greater. -/
def longer (vpret vp : ViewEntry) : Prop :=
  vpret.viewSubtree.length < vp.viewSubtree.length ∨
    (vp.viewSubtree.length = vpret.viewSubtree.length ∧ oidCompare vp.viewSubtree vpret.viewSubtree = .gt)

instance : DecidableRel longer := fun _ _ => inferInstanceAs (Decidable (_ ∨ _))

/-! ## `Vacm_viewGet` -/

/-- `VACM_MODE_FIND`, `VACM_MODE_IGNORE_MASK` and `VACM_MODE_CHECK_SUBTREE`. -/
inductive ViewMode
  | find
  | ignoreMask
  | checkSubtree
  deriving DecidableEq

/-- The conditions of the loop in `Vacm_viewGet`. -/
def viewSelects (viewName : Text) (viewSubtree : ObjId) (mode : ViewMode) (vp : ViewEntry) : Bool :=
  vp.inView viewName && decide (vp.viewSubtree.length ≤ viewSubtree.length) &&
    vp.found (mode = .ignoreMask) viewSubtree

/-- `count` and `vpret` once the entry has been looked at. -/
def viewStep (viewName : Text) (viewSubtree : ObjId) (mode : ViewMode) (kept : Nat × Option ViewEntry)
    (vp : ViewEntry) : Nat × Option ViewEntry :=
  if viewSelects viewName viewSubtree mode vp then
    (kept.1 + 1, if mode = .checkSubtree then some vp else choose longer kept.2 vp)
  else kept

def viewGet (head : List ViewEntry) (viewName : Text) (viewSubtree : ObjId) (mode : ViewMode) : Option ViewEntry :=
  if viewName.length > VACM_MAX_STRING then none
  else
    let kept := head.foldl (viewStep viewName viewSubtree mode) (0, none)
    if mode = .checkSubtree ∧ kept.1 > 1 then none else kept.2

/-! ## `Vacm_viewSubtreeCheck` -/

def VACM_SUCCESS : Int := 0

def VACM_NOTINVIEW : Int := 5

def VACM_SUBTREE_UNKNOWN : Int := 7

/-- The loop of `Vacm_viewSubtreeCheck`: `vpShorter` and `vpLonger` at its end, or nothing if it returns
`VACM_SUBTREE_UNKNOWN`. -/
def checkLoop (viewName : Text) (viewSubtree : ObjId) (vpShorter vpLonger : Option ViewEntry) :
    List ViewEntry → Option (Option ViewEntry × Option ViewEntry)
  | [] => some (vpShorter, vpLonger)
  | vp :: rest =>
    if vp.inView viewName = true ∧ vp.found false viewSubtree = true then
      if vp.viewSubtree.length ≤ viewSubtree.length then
        checkLoop viewName viewSubtree (choose longer vpShorter vp) vpLonger rest
      else
        match vpLonger with
        | none => checkLoop viewName viewSubtree vpShorter (some vp) rest
        | some l => if l.viewType ≠ vp.viewType then none else checkLoop viewName viewSubtree vpShorter (some l) rest
    else checkLoop viewName viewSubtree vpShorter vpLonger rest

/-- The end of `Vacm_viewSubtreeCheck`. -/
def verdict (vpShorter vpLonger : Option ViewEntry) : Int :=
  let unknown := vpLonger.any fun l =>
    match vpShorter with
    | none => l.viewType ≠ PRIOT_VIEW_EXCLUDED
    | some s => l.viewType ≠ s.viewType
  if unknown then VACM_SUBTREE_UNKNOWN
  else if vpShorter.any fun s => s.viewType ≠ PRIOT_VIEW_EXCLUDED then VACM_SUCCESS
  else VACM_NOTINVIEW

def viewSubtreeCheck (head : List ViewEntry) (viewName : Text) (viewSubtree : ObjId) : Int :=
  if viewName.length > VACM_MAX_STRING then VACM_NOTINVIEW
  else
    match checkLoop viewName viewSubtree none none head with
    | none => VACM_SUBTREE_UNKNOWN
    | some kept => verdict kept.1 kept.2

end Priot.AccessControl
