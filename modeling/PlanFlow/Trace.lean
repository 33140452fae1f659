import PlanFlow.Compile
import PlanFlow.Log.Line

/-!
What is logged while a plan is compiled: one record for each stage that was passed, and one for the verdict.
-/

set_option autoImplicit false

namespace PlanFlow

namespace Trace

def compilerLogger : Text := "orchestration_compiler"

def stage (logger message : Text) : LogRecord :=
  ⟨Text.concat [compilerLogger, ".", logger], LogLevel.debug.number, message⟩

def validated (plan : Plan) (agents : List Text) : LogRecord :=
  stage "compiler.validate_plan" <|
    Text.concat ["Validated plan: ", Decimal.ofNat plan.steps.length, " steps, ",
      Decimal.ofNat agents.length, " agents, ", if plan.isExplicit then "explicit" else "implicit", " mode"]

def synthesized (plan : Plan) (s : Plan.Synthesis) : LogRecord :=
  stage "compiler.synthesize" <|
    Text.concat ["Synthesized ", Decimal.ofNat s.nodes.length, " nodes from ",
      Decimal.ofNat plan.steps.length, " steps; terminal outputs: ",
      Literal.list (s.terminal.map Text.quoted)]

/-- The edges are those of the draft, not only those that stay edges. -/
def built (spec : Spec) (edges : Nat) : LogRecord :=
  stage "builder.workflow_builder" <|
    Text.concat ["Built workflow ", spec.name.getD "<unnamed>", ": ", Decimal.ofNat spec.nodes.length,
      " nodes, ", Decimal.ofNat edges, " edges, ", Decimal.ofNat spec.outputs.length, " outputs"]

def compiled (spec : Spec) (digest : Text) : LogRecord :=
  ⟨compilerLogger, LogLevel.info.number,
    Text.concat ["Compiled plan into ", Decimal.ofNat spec.nodes.length, " nodes (",
      Json.Canonical.version, " ", digest.take 12, ")"]⟩

def rejected (report : Text) : LogRecord := ⟨compilerLogger, LogLevel.warning.number, report⟩

def buildStage (draft : Draft) : List LogRecord :=
  match draft.buildCounted with
  | .ok (spec, edges) => [built spec edges]
  | .error _ => []

def synthesisStage (plan : Plan) (context : Context) (settings : Settings) (job : Job) : List LogRecord :=
  match plan.sketch context settings job with
  | .ok s => synthesized plan s :: buildStage (s.draft plan settings job)
  | .error _ => []

def stages (plan : Plan) (context : Context) (settings : Settings) (job : Job) : List LogRecord :=
  match plan.validate context.agents with
  | .ok agents => validated plan agents :: synthesisStage plan context settings job
  | .error _ => []

def verdict : Except CompileError Spec → Outcome LogRecord
  | .ok spec => spec.digest.map (compiled spec)
  | .error e => (Outcome.report e).map rejected

end Trace

def tryCompileTraced (payload : Payload Plan) (context : Context) (settings : Settings) (job : Job) :
    Outcome (Except CompileError Spec × List LogRecord) := do
  let result ← tryCompile payload context settings job
  let last ← Trace.verdict result
  let passed := match Plan.read payload with
    | .ok plan => Trace.stages plan context settings job
    | .error _ => []
  return (result, passed ++ [last])

end PlanFlow
