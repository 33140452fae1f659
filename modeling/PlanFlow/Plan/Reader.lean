import PlanFlow.Plan.Basic
import PlanFlow.Schema.Record

/-!
Reading plans from JSON, and writing them with every field. Only the shape is checked here: what makes a plan
valid is checked when it is compiled, so that each violation has an error of its own.
-/

set_option autoImplicit false

namespace PlanFlow

open Schema

def Selection.ofJson (input : Json) : Checked Selection :=
  (record "AgentSelection" input).andThen fun fields =>
    closed ["id", "reason"] fields
      (Selection.mk <$> required "id" anyText fields <*> required "reason" anyText fields)

def PlanStep.ofJson (input : Json) : Checked PlanStep :=
  (record "PlanStep" input).andThen fun fields =>
    closed ["id", "agents", "depends_on"] fields
      (PlanStep.mk <$> absentable "id" anyText fields
        <*> defaulted "agents" (listOf Selection.ofJson) [] fields
        <*> absentable "depends_on" (listOf anyText) fields)

def Plan.ofJson (input : Json) : Checked Plan :=
  (record "OrchestrationPlan" input).andThen fun fields =>
    closed ["kind", "max_parallelism", "steps"] fields
      ((fun _ maxParallelism steps => Plan.mk maxParallelism steps)
        <$> defaulted "kind" (literal Plan.kind) () fields
        <*> absentable "max_parallelism" integerAtMostLimit fields
        <*> defaulted "steps" (listOf PlanStep.ofJson) [] fields)

def Selection.toJson (selection : Selection) : Json :=
  .obj [("id", .str selection.id), ("reason", .str selection.reason)]

def PlanStep.toJson (step : PlanStep) : Json :=
  .obj [("id", Json.ofText? step.id), ("agents", .arr (step.agents.map Selection.toJson)),
    ("depends_on", (step.dependsOn.map Json.texts).getD .null)]

def Plan.toJson (plan : Plan) : Json :=
  .obj [("kind", .str Plan.kind), ("max_parallelism", Json.ofInt? plan.maxParallelism),
    ("steps", .arr (plan.steps.map PlanStep.toJson))]

end PlanFlow
