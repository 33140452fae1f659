import PlanFlow.Error
import PlanFlow.Text.Blank

/-!
Node ids made from the ids of agents and steps. Only ASCII letters and digits survive, in lower case and with
single underscores between their runs; ids that have none are unusable.
-/

set_option autoImplicit false

namespace PlanFlow

namespace NodeId

def underscore : CodePoint := '_'

def tokenLetter (c : CodePoint) : CodePoint :=
  if CodePoint.isAlphanumeric c then CodePoint.toLower c else underscore

def collapse : Text → Text
  | [] => []
  | [c] => [c]
  | c :: d :: rest =>
      if c = underscore && d = underscore then collapse (d :: rest) else c :: collapse (d :: rest)

def token (raw : Text) : Text :=
  (collapse (raw.trim.map tokenLetter)).trimWhile fun c => c = underscore

def ofAgent (agent : Text) : Except CompileError Text :=
  let name := token agent
  if name.isEmpty then .error (.unusableAgentId agent) else .ok (("agent_" : Text) ++ name)

/-- The node that joins the agents of a step. A token that starts like a generated key keeps its start. -/
def ofJoin (step : Text) : Except CompileError Text :=
  let name := token step
  if name.isEmpty then .error (.unusableStepId step)
  else if name.startsWith "step_" then .ok (name ++ ("_join" : Text))
  else .ok (Text.concat ["step_", name, "_join"])

end NodeId

end PlanFlow
