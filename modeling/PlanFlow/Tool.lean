import PlanFlow.Agent

/-!
The tools that compiled nodes may use: an allow-set of names, and the tools of agents that declare none.
-/

set_option autoImplicit false

namespace PlanFlow

structure ToolRegistry where
  allowed : List Text
  defaults : List Text
deriving DecidableEq

namespace ToolRegistry

def defaultAllowed : List Text :=
  ["fs_read_file", "fs_list_files", "fs_search", "fs_edit", "bash", "write_file", "user_ask"]

def standard : ToolRegistry := ⟨defaultAllowed, []⟩

def ofLists (allowed defaults : Option (List Text)) : ToolRegistry :=
  ⟨allowed.getD defaultAllowed, defaults.getD []⟩

def isAllowed (registry : ToolRegistry) (name : Text) : Bool := registry.allowed.contains name

def sortedNames (registry : ToolRegistry) : List Text := uniqueOn id registry.allowed

end ToolRegistry

structure Context where
  agents : AgentRegistry
  tools : ToolRegistry
  commandTools : List Text

def distinct {α : Type} [DecidableEq α] : List α → List α
  | [] => []
  | head :: tail => head :: (distinct tail).filter fun item => item ≠ head

namespace Agent

/-- The first list that names a tool: the agent's, the command's, the registry's, the configured one. -/
def toolNames (agent : Agent) (context : Context) (configured : List Text) : List Text :=
  if !agent.tools.isEmpty then agent.tools
  else if !context.commandTools.isEmpty then context.commandTools
  else if !context.tools.defaults.isEmpty then context.tools.defaults
  else configured

def resolveTools (agent : Agent) (context : Context) (configured : List Text) :
    Except CompileError (List Text) :=
  let names := agent.toolNames context configured
  match names.find? fun name => !context.tools.isAllowed name with
  | some name => .error (.unknownAgentTool agent.name name)
  | none => .ok (distinct names)

end Agent

end PlanFlow
