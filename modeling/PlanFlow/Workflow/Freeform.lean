import PlanFlow.Json.Freeform
import PlanFlow.Workflow.Basic

/-!
The free-form values of a specification, in the order in which they are written: values of conditions, tools
that are described, and extra fields of content blocks.
-/

set_option autoImplicit false

namespace PlanFlow

def Condition.freeform (c : Condition) : List Freeform := [.field c.value]

def Edge.freeform (e : Edge) : List Freeform := e.condition.toList.flatMap Condition.freeform

def ContentBlock.freeform (b : ContentBlock) : List Freeform := (Table.values b.extra).map .extra

def Message.freeform (m : Message) : List Freeform := m.content.flatMap ContentBlock.freeform

def Tool.freeform : Tool → List Freeform
  | .named _ => []
  | .described fields => [.field (.obj fields)]

def Request.freeform (r : Request) : List Freeform :=
  (r.input.getD []).flatMap Message.freeform ++ (r.tools.getD []).flatMap Tool.freeform

def SubAction.freeform : SubAction → List Freeform
  | .request _ r => r.freeform
  | .transform _ => []

def Action.freeform : Action → List Freeform
  | .request _ r => r.freeform
  | .joinAll | .transform _ => []
  | .joinAny predicate | .joinCollect _ _ predicate => predicate.toList.flatMap Condition.freeform
  | .mapFanout f => f.subnode.action.freeform

def Node.freeform (n : Node) : List Freeform := n.action.freeform

def Spec.freeform (s : Spec) : List Freeform :=
  s.nodes.flatMap Node.freeform ++ s.edges.flatMap Edge.freeform

end PlanFlow
