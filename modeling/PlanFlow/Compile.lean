import PlanFlow.Payload
import PlanFlow.Plan.Reader
import PlanFlow.Plan.Synthesis
import PlanFlow.Plan.Validation
import PlanFlow.Workflow.Reader
import PlanFlow.Workflow.ToolUse

/-!
The whole way from a payload to a specification, for plans and for workflows that were not made from a plan.
The first violation ends it; there is no partial result.
-/

set_option autoImplicit false

namespace PlanFlow

namespace Plan

def read (payload : Payload Plan) : Outcome Plan := payload.read "orchestration plan" Plan.ofJson

end Plan

namespace Spec

def read (payload : Payload Spec) : Outcome Spec := payload.read "workflow intent" Spec.ofJson

def withTools (registry : ToolRegistry) (s : Spec) : Outcome Spec :=
  (s.settleTools registry).mapError .rejected

end Spec

/-- Compiles a plan. A specification that has no digest is not answered. -/
def compile (payload : Payload Plan) (context : Context) (settings : Settings) (job : Job) :
    Outcome Spec := do
  let plan ← Plan.read payload
  let _ ← (plan.validate context.agents).mapError .rejected
  let spec ← plan.synthesize context settings job
  let spec ← spec.withTools context.tools
  let _ ← spec.digest
  return spec

def tryCompile (payload : Payload Plan) (context : Context) (settings : Settings) (job : Job) :
    Outcome (Except CompileError Spec) :=
  match compile payload context settings job with
  | .ok spec => .ok (.ok spec)
  | .error (.rejected e) => (Outcome.report e).map fun _ => .error e
  | .error failure => .error failure

def normalize (payload : Payload Spec) (context : Context) : Outcome Spec := do
  let intent ← Spec.read payload
  let spec ← (Draft.ofSpec intent).build
  spec.withTools context.tools

end PlanFlow
