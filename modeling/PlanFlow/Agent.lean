import PlanFlow.Failure
import PlanFlow.Sorted
import PlanFlow.Text.Blank

/-!
The agents that a plan may select, looked up by name. Planners choose agents by their descriptions, so an
agent without one can be looked up but not offered.
-/

set_option autoImplicit false

namespace PlanFlow

structure Agent where
  name : Text
  systemPrompt : Text
  description : Option Text
  tools : List Text
deriving DecidableEq

namespace Agent

def trimmedDescription (agent : Agent) : Text := (agent.description.getD []).trim

def hasDescription (agent : Agent) : Bool := !agent.trimmedDescription.isEmpty

end Agent

structure Candidate where
  name : Text
  description : Text
  agent : Agent
deriving DecidableEq

abbrev AgentRegistry := Table Agent

namespace AgentRegistry

/-- Of the agents given under one name the last counts, at the place of the first. -/
def ofList (agents : List Agent) : AgentRegistry :=
  Table.ofPairs (agents.map fun agent => (agent.name, agent))

def names (registry : AgentRegistry) : List Text := sortOn id (Table.keys registry)

def find? (registry : AgentRegistry) (name : Text) : Option Agent := Table.get? name registry

def get (registry : AgentRegistry) (name : Text) : Except CompileError Agent :=
  match registry.find? name with
  | some agent => .ok agent
  | none => .error (.agentNotFound name)

def candidate (registry : AgentRegistry) (name : Text) : Except CompileError Candidate :=
  match registry.get name with
  | .error e => .error e
  | .ok agent =>
      if agent.hasDescription then .ok ⟨agent.name, agent.trimmedDescription, agent⟩
      else .error (.missingDescription none name)

def selectedNames (registry : AgentRegistry) (names : List Text) : List Text :=
  if names.isEmpty then (Table.values registry).map Agent.name else names

def candidates (registry : AgentRegistry) (names : List Text) : Except CompileError (List Candidate) :=
  let selected := registry.selectedNames names
  if selected.isEmpty then .error .noCandidates else selected.mapM registry.candidate

end AgentRegistry

end PlanFlow
