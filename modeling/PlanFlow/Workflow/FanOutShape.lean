import PlanFlow.Failure
import PlanFlow.Text.Blank
import PlanFlow.Workflow.Basic

/-!
The shape of fan-outs. The sub-node runs once for each item, so it is bound to the item and to nothing else:
a request has no bindings of its own, and a transform refers to the item only.
-/

set_option autoImplicit false

namespace PlanFlow

namespace FanOut

/-- References under a blank key are not checked. -/
def checkObject : List (Text × ValueRef) → Except FanOutFault Unit
  | [] => .ok ()
  | (key, ref) :: rest =>
      if key.trim.isEmpty || ref.source = itemPlaceholder then checkObject rest
      else .error (.objectSource key)

def checkMerge : Nat → List ValueRef → Except FanOutFault Unit
  | _, [] => .ok ()
  | index, ref :: rest =>
      if ref.source = itemPlaceholder then checkMerge (index + 1) rest else .error (.mergeSource index)

def checkTransform (t : Transform) : Except FanOutFault Unit :=
  let object := t.object.getD []
  let merge := t.merge.getD []
  if object.isEmpty == merge.isEmpty then .error .objectOrMerge
  else if object.isEmpty then checkMerge 0 merge
  else checkObject object

def checkShape (f : FanOut) : Except FanOutFault Unit :=
  match f.subnode.action with
  | .request _ request =>
      if (request.bindings.getD []).isEmpty then .ok () else .error .subnodeBindings
  | .transform t =>
      if (f.itemBindings.getD []).isEmpty then checkTransform t else .error .transformItemBindings

def validate (node : Text) (f : FanOut) : Outcome Unit :=
  f.checkShape.mapError fun fault => .rejected (.fanOut node fault)

end FanOut

end PlanFlow
