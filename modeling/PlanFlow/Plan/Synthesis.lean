import PlanFlow.Plan.Basic
import PlanFlow.Plan.NodeId
import PlanFlow.Plan.Prompt
import PlanFlow.Settings
import PlanFlow.Tool
import PlanFlow.Workflow.Draft

/-!
From a plan to a workflow. Each selected agent becomes a request, a step with several agents gets a node that
joins them, and a last node brings together the outputs that no step builds on. Ids follow from the names
of agents and steps alone; two nodes that would share one are an error.
-/

set_option autoImplicit false

namespace PlanFlow

structure Job where
  task : Text
  instructions : Text
  name : Option Text
  model : Option Text
deriving DecidableEq

structure StepOutput where
  key : Text
  node : Text
deriving DecidableEq

structure Sketch where
  nodes : List Node
  edges : List Edge
  outputs : List StepOutput

namespace Sketch

def empty : Sketch := ⟨[], [], []⟩

def output? (s : Sketch) (key : Text) : Option Text :=
  (s.outputs.reverse.find? fun output => output.key == key).map StepOutput.node

def plainEdge (source target : Text) : Edge := ⟨source, target, none⟩

def addNode (s : Sketch) (node : Node) (sources : List Text) : Sketch :=
  { s with
    nodes := s.nodes ++ [node]
    edges := s.edges ++ sources.map fun source => plainEdge source node.id }

def addOutput (s : Sketch) (output : StepOutput) : Sketch :=
  { s with outputs := s.outputs ++ [output] }

def claim (s : Sketch) (id : Text) (index : Option Nat) (agent : Option Text) : Except CompileError Unit :=
  if (s.nodes.map Node.id).contains id then .error (.nodeIdTaken id index agent) else .ok ()

end Sketch

namespace Plan

/-- The outputs that the last node brings together: in an explicit plan those of the steps that no step
depends on, otherwise that of the last step. -/
def terminalOutputs (plan : Plan) (outputs : List Text) : List Text :=
  if plan.isExplicit then
    let depended := plan.steps.flatMap fun step => step.dependencies.map Text.trim
    ((plan.stepKeys.zip outputs).filter fun entry => !depended.contains entry.1).map Prod.snd
  else outputs.getLast?.toList

def position? (plan : Plan) (key : Text) : Option Nat := plan.stepKeys.findIdx? fun other => other == key

def dependency (plan : Plan) (s : Sketch) (index : Nat) (key : Text) :
    Except CompileError Prompt.Dependency :=
  match s.output? key with
  | none => .error (.missingOutput index key)
  | some node =>
      match plan.position? key with
      | none => .error (.misplacedDependency index key)
      | some position =>
          if position < index then .ok ⟨key, node⟩ else .error (.misplacedDependency index key)

def dependencies (plan : Plan) (s : Sketch) (index : Nat) (step : PlanStep) :
    Except CompileError (List Prompt.Dependency) :=
  if plan.isExplicit then
    (distinct (step.dependencies.map Text.trim)).mapM (plan.dependency s index)
  else .ok (s.outputs.getLast?.toList.map fun output => ⟨output.key, output.node⟩)

def agentRequest (agent : Agent) (prompt : Text) (tools : List Text) : Request :=
  { Request.empty with
    system := agent.systemPrompt.trim.orAbsent
    user := some prompt
    tools := if tools.isEmpty then none else some (tools.map .named)
    toolMode := if tools.isEmpty then none else some .client }

def addAgent (context : Context) (configured : List Text) (prompt : Text) (sources : List Text)
    (index : Nat) (s : Sketch) (selection : Selection) : Except CompileError (Sketch × Text) := do
  let name := selection.id.trim
  let agent ← context.agents.get name
  let id ← NodeId.ofAgent name
  s.claim id (some index) (some name)
  let tools ← agent.resolveTools context configured
  let node : Node := ⟨id, none, .request .llm (agentRequest agent prompt tools)⟩
  return (s.addNode node sources, id)

def addAgents (context : Context) (configured : List Text) (prompt : Text) (sources : List Text)
    (index : Nat) : Sketch → List Selection → Except CompileError (Sketch × List Text)
  | s, [] => .ok (s, [])
  | s, selection :: rest =>
      match addAgent context configured prompt sources index s selection with
      | .error e => .error e
      | .ok (s, id) =>
          match addAgents context configured prompt sources index s rest with
          | .error e => .error e
          | .ok (s, ids) => .ok (s, id :: ids)

def joinAgents (s : Sketch) (index : Nat) (key : Text) (ids : List Text) :
    Except CompileError (Sketch × Text) :=
  match ids with
  | [] => .error (.stepWithoutAgents index)
  | [id] => .ok (s, id)
  | ids => do
      let id ← NodeId.ofJoin key
      s.claim id (some index) none
      return (s.addNode ⟨id, none, .joinAll⟩ ids, id)

def addStep (plan : Plan) (context : Context) (configured : List Text) (job : Job) (s : Sketch)
    (index : Nat) (step : PlanStep) : Except CompileError Sketch := do
  let dependencies ← plan.dependencies s index step
  let prompt := Prompt.agent job.instructions job.task dependencies
  let sources := dependencies.map Prompt.Dependency.node
  let (s, ids) ← addAgents context configured prompt sources index s step.agents
  let (s, id) ← joinAgents s index (step.key index) ids
  return s.addOutput ⟨step.key index, id⟩

def addSteps (plan : Plan) (context : Context) (configured : List Text) (job : Job) :
    Sketch → Nat → List PlanStep → Except CompileError Sketch
  | s, _, [] => .ok s
  | s, index, step :: rest =>
      match plan.addStep context configured job s index step with
      | .error e => .error e
      | .ok s => addSteps plan context configured job s (index + 1) rest

structure Synthesis where
  nodes : List Node
  edges : List Edge
  outputs : List OutputRef
  terminal : List Text

def synthesisRequest (job : Job) (terminal : List Text) : Request :=
  { Request.empty with user := some (Prompt.synthesis job.instructions job.task terminal) }

def configuredName (field : Text) (name : Text) : Outcome Text :=
  Outcome.ofChecked ((Schema.nonEmptyText (.str name)).under (.key field))

def sketch (plan : Plan) (context : Context) (settings : Settings) (job : Job) : Outcome Synthesis := do
  let s ← (plan.addSteps context settings.defaultTools job .empty 0 plan.steps).mapError .rejected
  let terminal := plan.terminalOutputs (s.outputs.map StepOutput.node)
  (s.claim settings.synthesisNodeId none none).mapError .rejected
  let id ← configuredName "id" settings.synthesisNodeId
  let output ← configuredName "name" settings.resultOutputName
  let s := s.addNode ⟨id, none, .request .llm (synthesisRequest job terminal)⟩ terminal
  return ⟨s.nodes, s.edges, [⟨output, id, none⟩], terminal⟩

namespace Synthesis

def modelFor (settings : Settings) (job : Job) : Option Text :=
  match job.model.bind Text.orAbsent with
  | some model => some model
  | none => settings.defaultModel

def draft (s : Synthesis) (plan : Plan) (settings : Settings) (job : Job) : Draft := {
  name := job.name
  model := modelFor settings job
  maxParallelism := Json.ofInt? plan.maxParallelism
  nodes := s.nodes
  edges := s.edges
  outputs := s.outputs }

end Synthesis

/-- The specification of a plan. Neither the plan nor the use of tools is validated here. -/
def synthesize (plan : Plan) (context : Context) (settings : Settings) (job : Job) : Outcome Spec := do
  let s ← plan.sketch context settings job
  (s.draft plan settings job).build

end Plan

end PlanFlow
