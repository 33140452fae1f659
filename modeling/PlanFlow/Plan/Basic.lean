import PlanFlow.Number.Decimal
import PlanFlow.Text.Blank

/-!
Orchestration plans: steps in order, each with the agents it selects and possibly the steps it depends on. A
plan in which some step has dependencies is explicit; in any other, each step follows the one before.
-/

set_option autoImplicit false

namespace PlanFlow

structure Selection where
  id : Text
  reason : Text
deriving DecidableEq

structure PlanStep where
  id : Option Text
  agents : List Selection
  dependsOn : Option (List Text)
deriving DecidableEq

structure Plan where
  maxParallelism : Option Int
  steps : List PlanStep
deriving DecidableEq

namespace PlanStep

def dependencies (step : PlanStep) : List Text := step.dependsOn.getD []

def hasDependencies (step : PlanStep) : Bool := !step.dependencies.isEmpty

def trimmedId (step : PlanStep) : Text := (step.id.getD []).trim

/-- The trimmed id, or a name made from the position, counted from one, for a step without one. -/
def key (step : PlanStep) (index : Nat) : Text :=
  if step.trimmedId.isEmpty then ("step_" : Text) ++ Decimal.ofNat (index + 1) else step.trimmedId

end PlanStep

namespace Plan

def kind : Text := "orchestration.plan.v1"

def isExplicit (plan : Plan) : Bool := plan.steps.any PlanStep.hasDependencies

def stepKeys (plan : Plan) : List Text := plan.steps.mapIdx fun index step => step.key index

end Plan

end PlanFlow
