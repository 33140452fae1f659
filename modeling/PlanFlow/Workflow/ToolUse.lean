import PlanFlow.Tool
import PlanFlow.Workflow.Basic

/-!
The use of tools in a specification. A request with tools may only name allowed ones and runs them on the
client; where it does not say so yet, it is made to.
-/

set_option autoImplicit false

namespace PlanFlow

namespace ToolRegistry

def checkTool (registry : ToolRegistry) (node : Text) (parent : Option Text) : Tool → Except CompileError Unit
  | .described _ => .error (.toolWithoutName node parent)
  | .named name =>
      if registry.isAllowed name then .ok () else .error (.unknownNodeTool node parent name)

def settleMode (node : Text) (parent : Option Text) (r : Request) : Except CompileError Request :=
  match r.toolMode with
  | none => .ok { r with toolMode := some .client }
  | some .client => .ok r
  | some mode => .error (.wrongToolMode node parent mode)

def settleRequest (registry : ToolRegistry) (node : Text) (parent : Option Text) (r : Request) :
    Except CompileError Request :=
  let tools := r.tools.getD []
  if tools.isEmpty then .ok r
  else
    match tools.forM (registry.checkTool node parent) with
    | .error e => .error e
    | .ok _ => settleMode node parent r

def settleFanOut (registry : ToolRegistry) (node : Text) (f : FanOut) : Except CompileError FanOut :=
  match f.subnode.action with
  | .request kind r =>
      (registry.settleRequest f.subnode.id (some node) r).map fun r =>
        { f with subnode := { f.subnode with action := .request kind r } }
  | .transform _ => .ok f

def settleNode (registry : ToolRegistry) (node : Node) : Except CompileError Node :=
  match node.action with
  | .request kind r =>
      (registry.settleRequest node.id none r).map fun r => { node with action := .request kind r }
  | .mapFanout f =>
      (registry.settleFanOut node.id f).map fun f => { node with action := .mapFanout f }
  | .joinAll | .joinAny _ | .joinCollect _ _ _ | .transform _ => .ok node

end ToolRegistry

namespace Spec

def settleTools (s : Spec) (registry : ToolRegistry) : Except CompileError Spec :=
  (s.nodes.mapM registry.settleNode).map fun nodes => { s with nodes := nodes }

end Spec

end PlanFlow
