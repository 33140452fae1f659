import PlanFlow.Agent

/-!
The prompts of compiled nodes and of the planner. The output of another node is referred to by its id
between double braces; what executes the workflow puts the output there.
-/

set_option autoImplicit false

namespace PlanFlow

namespace Prompt

def lines (groups : List (List Text)) : Text := Text.join "\n" groups.flatten

def placeholder (node : Text) : Text := Text.concat ["\x7b\x7b", node, "\x7d\x7d"]

structure Dependency where
  key : Text
  node : Text
deriving DecidableEq

def Dependency.line (d : Dependency) : Text := Text.concat ["- ", d.key, ": ", placeholder d.node]

def unlessBlank (instructions : Text) (group : List Text) : List Text :=
  if instructions.trim.isEmpty then [] else group

def unlessEmpty (items : List Text) (group : List Text) : List Text :=
  if items.isEmpty then [] else group ++ items

def agent (instructions task : Text) (dependencies : List Dependency) : Text :=
  lines [
    unlessBlank instructions [instructions.trim],
    ["USER_TASK:", task.trim],
    unlessEmpty (dependencies.map Dependency.line) ["", "PREVIOUS_STEP_OUTPUTS:"]]

def outputLine (node : Text) : Text := Text.concat ["- ", placeholder node]

def synthesis (instructions task : Text) (outputs : List Text) : Text :=
  lines [
    ["Synthesize the results and complete the task."],
    unlessBlank instructions ["", "COMMAND:", instructions.trim],
    ["", "USER_TASK:", task.trim],
    unlessEmpty (outputs.map outputLine) ["", "RESULTS:"]]

def plannerSystem : Text :=
  Text.concat [
    "You plan which plugin agents to run based only on their descriptions.\n",
    "\n",
    "Rules:\n",
    "- Output MUST be a single JSON object that matches orchestration.plan.v1.\n",
    "- Do NOT output markdown, commentary, or code fences.\n",
    "- Select only from the provided agent IDs.\n",
    "- Prefer minimal agents needed to satisfy the user task.\n",
    "- Use multiple steps only when later agents must build on earlier results.\n",
    "- Each step can run agents in parallel.\n",
    "- Use \"id\" + \"depends_on\" if you need non-sequential step ordering.\n"]

structure Plugin where
  command : Option Text
  name : Option Text
  description : Option Text
deriving DecidableEq

def headLine (label : Text) (value : Option Text) : List Text :=
  match value.bind Text.orAbsent with
  | some t => [Text.concat [label, ": ", t]]
  | none => []

def candidateLines (c : Candidate) : List Text :=
  [Text.concat ["- id: ", c.name], Text.concat ["  description: ", c.description]]

def planner (plugin : Plugin) (instructions task : Text) (candidates : List Candidate) : Text :=
  lines [
    headLine "PLUGIN_NAME" plugin.name,
    headLine "PLUGIN_DESCRIPTION" plugin.description,
    headLine "COMMAND" plugin.command,
    ["USER_TASK:", task.trim, ""],
    unlessBlank instructions ["COMMAND_MARKDOWN:", instructions, ""],
    ["CANDIDATE_AGENTS:"],
    candidates.flatMap candidateLines]

end Prompt

end PlanFlow
