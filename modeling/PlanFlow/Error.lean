import PlanFlow.Json.Canonical
import PlanFlow.Json.Literal
import PlanFlow.Schema.Issue
import PlanFlow.Workflow.Basic

/-!
Why a plan or a workflow is rejected. There is one constructor for each cause; the kind, the wording and the
context that goes with it are functions of the cause.
-/

set_option autoImplicit false

namespace PlanFlow

inductive ErrorKind where
  | invalidPlan
  | unknownAgent
  | missingDescription
  | unknownTool
  | invalidDependency
  | invalidToolConfig
  | invalidWorkflow
  | bindingTarget
  | mapFanoutInput
deriving DecidableEq

namespace ErrorKind

def code : ErrorKind → Text
  | .invalidPlan => "INVALID_PLAN"
  | .unknownAgent => "UNKNOWN_AGENT"
  | .missingDescription => "MISSING_DESCRIPTION"
  | .unknownTool => "UNKNOWN_TOOL"
  | .invalidDependency => "INVALID_DEPENDENCY"
  | .invalidToolConfig => "INVALID_TOOL_CONFIG"
  | .invalidWorkflow => "INVALID_WORKFLOW"
  | .bindingTarget => "BINDING_TARGET"
  | .mapFanoutInput => "MAP_FANOUT_INPUT"

def area : ErrorKind → Text
  | .invalidWorkflow | .bindingTarget | .mapFanoutInput => "workflow"
  | _ => "orchestration"

end ErrorKind

inductive TargetFault where
  | noMessages (message : Nat)
  | noSuchMessage (message count : Nat)
  | noSuchContent (content message count : Nat)
deriving DecidableEq

def TargetFault.reason (pointer : Text) : TargetFault → Text
  | .noMessages message =>
      Text.concat ["targets ", pointer, " (message index ", Decimal.ofNat message,
        ") but request has no messages; add placeholder messages or adjust binding target"]
  | .noSuchMessage message count =>
      Text.concat ["targets ", pointer, " (message index ", Decimal.ofNat message,
        ") but request only has ", Decimal.ofNat count, " messages (indices 0-",
        Decimal.ofNat (count - 1), "); add placeholder messages or adjust binding target"]
  | .noSuchContent content message count =>
      Text.concat ["targets ", pointer, " (content index ", Decimal.ofNat content, ") but message ",
        Decimal.ofNat message, " only has ", Decimal.ofNat count, " content blocks"]

inductive FanOutFault where
  | subnodeBindings
  | transformItemBindings
  | objectOrMerge
  | objectSource (key : Text)
  | mergeSource (index : Nat)
deriving DecidableEq

namespace FanOutFault

def mergePlace (index : Nat) : Text := Text.concat ["merge[", Decimal.ofNat index, "].from"]

def objectPlace (key : Text) : Text := Text.concat ["object.", key, ".from"]

def reason : FanOutFault → Text
  | .subnodeBindings => "map.fanout subnode bindings are not allowed"
  | .transformItemBindings => "map.fanout transform.json subnode cannot use item_bindings"
  | .objectOrMerge => "map.fanout transform.json must provide exactly one of object or merge"
  | .objectSource key =>
      Text.concat ["map.fanout transform.json ", objectPlace key, " must be \"item\""]
  | .mergeSource index =>
      Text.concat ["map.fanout transform.json ", mergePlace index, " must be \"item\""]

def field? : FanOutFault → Option Text
  | .subnodeBindings => some "subnode.bindings"
  | .transformItemBindings => some "item_bindings"
  | .objectOrMerge => none
  | .objectSource key => some (Text.concat ["subnode.", objectPlace key])
  | .mergeSource index => some (Text.concat ["subnode.", mergePlace index])

end FanOutFault

inductive CompileError where
  | malformedPayload (label report : Text)
  | unsupportedPayload (typeName : Text)
  | payloadNotObject (label : Text)
  | misshapen (label : Text) (issues : List Issue)
  | parallelismTooSmall (given : Int)
  | noSteps
  | duplicateStep (index : Nat) (id : Text)
  | stepWithoutId (index : Nat)
  | stepWithoutAgents (index : Nat)
  | blankAgent (index : Nat)
  | missingReason (index : Nat) (agent : Text)
  | repeatedAgent (index : Nat) (agent : Text)
  | unusableAgentId (agent : Text)
  | unusableStepId (step : Text)
  | nodeIdTaken (node : Text) (index : Option Nat) (agent : Option Text)
  | noCandidates
  | unknownAgent (index : Nat) (agent : Text)
  | agentNotFound (agent : Text)
  | missingDescription (index : Option Nat) (agent : Text)
  | unknownAgentTool (agent tool : Text)
  | unknownNodeTool (node : Text) (parent : Option Text) (tool : Text)
  | toolWithoutName (node : Text) (parent : Option Text)
  | wrongToolMode (node : Text) (parent : Option Text) (mode : ToolMode)
  | blankDependency (index : Nat)
  | unknownStep (index : Nat) (dependency : Text)
  | selfStep (index : Nat) (dependency : Text)
  | futureStep (index : Nat) (dependency : Text)
  | missingOutput (index : Nat) (dependency : Text)
  | misplacedDependency (index : Nat) (dependency : Text)
  | notCanonical (report : Text)
  | noNodes
  | duplicateNode (node : Text)
  | selfDependency (node : Text)
  | unknownDependency (node dependency : Text)
  | edgeToUnknown (source target : Text)
  | edgeFromUnknown (source target : Text)
  | edgeToItself (source target : Text)
  | noOutputs
  | unknownOutputSource (output node : Text)
  | unknownItemsSource (node dependency : Text)
  | unknownBindingSource (node : Text) (index : Nat) (source : Text)
  | unknownReference (node source : Text)
  | cycle (path : List Text)
  | bindingTarget (node : Text) (index : Nat) (pointer : Text) (fault : TargetFault)
  | fanOut (node : Text) (fault : FanOutFault)

inductive Detail where
  | text (value : Text)
  | number (value : Int)
  | texts (values : List Text)
  | issues (issues : List Issue)

namespace CompileError

def kind : CompileError → ErrorKind
  | .malformedPayload .. | .unsupportedPayload .. | .payloadNotObject .. | .misshapen ..
  | .parallelismTooSmall .. | .noSteps | .duplicateStep .. | .stepWithoutId .. | .stepWithoutAgents ..
  | .blankAgent .. | .missingReason .. | .repeatedAgent .. | .unusableAgentId .. | .unusableStepId ..
  | .nodeIdTaken .. | .noCandidates => .invalidPlan
  | .unknownAgent .. | .agentNotFound .. => .unknownAgent
  | .missingDescription .. => .missingDescription
  | .unknownAgentTool .. | .unknownNodeTool .. => .unknownTool
  | .toolWithoutName .. | .wrongToolMode .. => .invalidToolConfig
  | .blankDependency .. | .unknownStep .. | .selfStep .. | .futureStep .. | .missingOutput ..
  | .misplacedDependency .. => .invalidDependency
  | .notCanonical .. | .noNodes | .duplicateNode .. | .selfDependency .. | .unknownDependency ..
  | .edgeToUnknown .. | .edgeFromUnknown .. | .edgeToItself .. | .noOutputs | .unknownOutputSource ..
  | .unknownItemsSource .. | .unknownBindingSource .. | .unknownReference .. | .cycle .. =>
      .invalidWorkflow
  | .bindingTarget .. => .bindingTarget
  | .fanOut .. => .mapFanoutInput

def named (t : Text) : Text := ("\"" : Text) ++ t ++ ("\"" : Text)

def stepName (index : Nat) : Text := ("step " : Text) ++ Decimal.ofNat (index + 1)

def message : CompileError → Text
  | .malformedPayload label report => Text.concat ["invalid ", label, " JSON payload: ", report]
  | .unsupportedPayload typeName =>
      Text.concat ["unsupported payload type ", typeName, "; expected str or Mapping"]
  | .payloadNotObject label => Text.concat [label, " must be a JSON object"]
  | .misshapen label issues => Text.concat [label, " validation failed: ", Issue.summarize issues]
  | .parallelismTooSmall _ => "max_parallelism must be >= 1"
  | .noSteps => "plan must include at least one step"
  | .duplicateStep _ id => Text.concat ["duplicate step id ", named id]
  | .stepWithoutId _ => "step id required when depends_on is used"
  | .stepWithoutAgents index => Text.concat [stepName index, " must include at least one agent"]
  | .blankAgent index => Text.concat [stepName index, " agent id required"]
  | .missingReason _ agent => Text.concat ["agent ", named agent, " must include a reason"]
  | .repeatedAgent _ agent => Text.concat ["agent ", named agent, " referenced more than once"]
  | .unusableAgentId _ => "agent id must contain alphanumeric characters"
  | .unusableStepId _ => "step id must contain alphanumeric characters"
  | .nodeIdTaken node _ _ => Text.concat ["duplicate node id ", named node]
  | .noCandidates => "no agents available for dynamic orchestration"
  | .unknownAgent _ agent => Text.concat ["unknown agent ", named agent]
  | .agentNotFound agent => Text.concat ["agent ", named agent, " not found"]
  | .missingDescription _ agent => Text.concat ["agent ", named agent, " missing description"]
  | .unknownAgentTool _ tool => Text.concat ["unknown tool ", named tool]
  | .unknownNodeTool _ _ tool => Text.concat ["unknown tool ", named tool]
  | .toolWithoutName _ _ => "only function tool names are supported"
  | .wrongToolMode _ _ mode => Text.concat ["tool_execution.mode must be \"client\", got ",
      named mode.name]
  | .blankDependency index => Text.concat [stepName index, " has empty depends_on"]
  | .unknownStep index dependency =>
      Text.concat [stepName index, " depends on unknown step ", named dependency]
  | .selfStep index dependency =>
      Text.concat [stepName index, " depends on itself (", named dependency, ")"]
  | .futureStep index dependency =>
      Text.concat [stepName index, " depends on future step ", named dependency]
  | .missingOutput _ dependency => Text.concat ["missing output for dependency ", named dependency]
  | .misplacedDependency _ dependency => Text.concat ["invalid dependency ", named dependency]
  | .notCanonical report => Text.concat ["value cannot be canonicalized: ", report]
  | .noNodes => "workflow requires at least one node"
  | .duplicateNode node => Text.concat ["duplicate node id ", named node]
  | .selfDependency node => Text.concat ["node ", named node, " depends on itself"]
  | .unknownDependency node dependency =>
      Text.concat ["node ", named node, " depends on unknown node ", named dependency]
  | .edgeToUnknown _ target => Text.concat ["edge to unknown node ", named target]
  | .edgeFromUnknown source _ => Text.concat ["edge from unknown node ", named source]
  | .edgeToItself source _ => Text.concat ["edge from ", named source, " to itself"]
  | .noOutputs => "workflow requires at least one output"
  | .unknownOutputSource output node =>
      Text.concat ["output ", named output, " references unknown node ", named node]
  | .unknownItemsSource node dependency =>
      Text.concat ["node ", named node, " items_from references unknown node ", named dependency]
  | .unknownBindingSource node index source =>
      Text.concat ["node ", named node, " binding ", Decimal.ofNat index, " references unknown node ",
        named source]
  | .unknownReference node source =>
      Text.concat ["node ", named node, " references unknown node ", named source]
  | .cycle path => Text.concat ["dependency cycle: ", Text.join " -> " (path ++ path.take 1)]
  | .bindingTarget node index pointer fault =>
      Text.concat ["node ", named node, " binding ", Decimal.ofNat index, ": ", fault.reason pointer]
  | .fanOut node fault => Text.concat ["node ", named node, ": ", fault.reason]

def stepIndex (index : Nat) : Text × Detail := ("step_index", .number index)

def always (name : Text) (detail : Detail) : List (Text × Detail) := [(name, detail)]

def whenGiven {α : Type} (name : Text) (detail : α → Detail) : Option α → List (Text × Detail)
  | none => []
  | some value => [(name, detail value)]

def context : CompileError → List (Text × Detail)
  | .misshapen _ issues => [("errors", .issues issues)]
  | .parallelismTooSmall given => [("max_parallelism", .number given)]
  | .duplicateStep index id => [stepIndex index, ("step_id", .text id)]
  | .stepWithoutId index | .stepWithoutAgents index | .blankAgent index | .blankDependency index =>
      [stepIndex index]
  | .missingReason index agent | .repeatedAgent index agent | .unknownAgent index agent =>
      [stepIndex index, ("agent_id", .text agent)]
  | .unusableAgentId agent | .agentNotFound agent => [("agent_id", .text agent)]
  | .unusableStepId step => [("step_id", .text step)]
  | .nodeIdTaken node index agent =>
      always "node_id" (.text node) ++ whenGiven "step_index" (fun i : Nat => .number i) index ++
        whenGiven "agent_id" .text agent
  | .missingDescription index agent =>
      whenGiven "step_index" (fun i : Nat => .number i) index ++ always "agent_id" (.text agent)
  | .unknownAgentTool agent tool => [("agent_id", .text agent), ("tool", .text tool)]
  | .unknownNodeTool node parent tool =>
      always "node_id" (.text node) ++ whenGiven "parent_id" .text parent ++ always "tool" (.text tool)
  | .toolWithoutName node parent | .wrongToolMode node parent _ =>
      ("node_id", .text node) :: whenGiven "parent_id" .text parent
  | .unknownStep index dependency | .selfStep index dependency | .futureStep index dependency
  | .missingOutput index dependency | .misplacedDependency index dependency =>
      [stepIndex index, ("dependency", .text dependency)]
  | .duplicateNode node | .selfDependency node => [("node_id", .text node)]
  | .unknownDependency node dependency | .unknownItemsSource node dependency
  | .unknownReference node dependency => [("node_id", .text node), ("dependency", .text dependency)]
  | .edgeToUnknown source target | .edgeFromUnknown source target | .edgeToItself source target =>
      [("edge_from", .text source), ("edge_to", .text target)]
  | .unknownOutputSource output node => [("output", .text output), ("node_id", .text node)]
  | .unknownBindingSource node index _ => [("node_id", .text node), ("binding_index", .number index)]
  | .cycle path => [("cycle", .texts path)]
  | .bindingTarget node index pointer _ =>
      [("node_id", .text node), ("binding_index", .number index), ("pointer", .text pointer)]
  | .fanOut node fault => ("node_id", .text node) :: whenGiven "field" .text fault.field?
  | _ => []

/-- The values of the payload that the context shows. All other numbers in it are positions. -/
def inputs : CompileError → List Json
  | .misshapen _ issues => issues.map Issue.input
  | .parallelismTooSmall given => [.int given]
  | _ => []

def fullMessage (e : CompileError) : Text := Text.concat [e.kind.area, ": ", e.message]

end CompileError

namespace Step

def toJson : Step → Json
  | .key name => .str name
  | .index position => .int position

def literal : Step → Text
  | .key name => Text.quoted name
  | .index position => Decimal.ofNat position

end Step

namespace Issue

def toJson (issue : Issue) : Json :=
  .obj [("type", .str issue.kind.code), ("loc", .arr (issue.path.map Step.toJson)),
    ("msg", .str issue.kind.message)]

def toJsonWithInput (issue : Issue) : Json :=
  .obj [("type", .str issue.kind.code), ("loc", .arr (issue.path.map Step.toJson)),
    ("msg", .str issue.kind.message), ("input", issue.input)]

def literal (issue : Issue) : Text :=
  Literal.table [("type", Text.quoted issue.kind.code),
    ("loc", Literal.tuple (issue.path.map Step.literal)), ("msg", Text.quoted issue.kind.message),
    ("input", issue.input.literal)]

end Issue

namespace Detail

def toJson : Detail → Json
  | .text value => .str value
  | .number value => .int value
  | .texts values => Json.texts values
  | .issues found => .arr (found.map Issue.toJsonWithInput)

def literal : Detail → Text
  | .text value => Text.quoted value
  | .number value => Decimal.ofInt value
  | .texts values => Literal.list (values.map Text.quoted)
  | .issues found => Literal.list (found.map Issue.literal)

end Detail

namespace CompileError

def details (e : CompileError) : List (Text × Detail) :=
  ("code", .text e.kind.code) :: ("message", .text e.message) :: e.context

def toJson (e : CompileError) : Json :=
  .obj (e.details.map fun entry => (entry.1, entry.2.toJson))

def literal (e : CompileError) : Text :=
  Literal.table (e.details.map fun entry => (entry.1, entry.2.literal))

end CompileError

end PlanFlow
