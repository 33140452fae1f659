import PlanFlow.Agent
import PlanFlow.Plan.Basic

/-!
What makes a plan valid for a registry of agents. Dependencies point to earlier steps only, which alone
keeps the compiled workflow free of cycles; each agent occurs once in the whole plan.
-/

set_option autoImplicit false

namespace PlanFlow

namespace Plan

def collectIds (found : Table Nat) : Nat → List PlanStep → Except CompileError (Table Nat)
  | _, [] => .ok found
  | index, step :: rest =>
      let id := step.trimmedId
      if id.isEmpty then collectIds found (index + 1) rest
      else if Table.hasKey id found then .error (.duplicateStep index id)
      else collectIds (found ++ [(id, index)]) (index + 1) rest

def requireIds : Nat → List PlanStep → Except CompileError Unit
  | _, [] => .ok ()
  | index, step :: rest =>
      if step.trimmedId.isEmpty then .error (.stepWithoutId index) else requireIds (index + 1) rest

def checkDependency (ids : Table Nat) (index : Nat) (raw : Text) : Except CompileError Unit :=
  let dependency := raw.trim
  if dependency.isEmpty then .error (.blankDependency index)
  else
    match Table.get? dependency ids with
    | none => .error (.unknownStep index dependency)
    | some position =>
        if position = index then .error (.selfStep index dependency)
        else if index < position then .error (.futureStep index dependency)
        else .ok ()

def checkSelection (registry : AgentRegistry) (index : Nat) (seen : List Text) (selection : Selection) :
    Except CompileError (List Text) :=
  let id := selection.id.trim
  if id.isEmpty then .error (.blankAgent index)
  else
    match registry.find? id with
    | none => .error (.unknownAgent index id)
    | some agent =>
        if !agent.hasDescription then .error (.missingDescription (some index) id)
        else if selection.reason.trim.isEmpty then .error (.missingReason index id)
        else if seen.contains id then .error (.repeatedAgent index id)
        else .ok (seen ++ [id])

def checkStep (registry : AgentRegistry) (ids : Table Nat) (index : Nat) (seen : List Text)
    (step : PlanStep) : Except CompileError (List Text) :=
  if step.agents.isEmpty then .error (.stepWithoutAgents index)
  else
    match step.dependencies.forM (checkDependency ids index) with
    | .error e => .error e
    | .ok _ => step.agents.foldlM (checkSelection registry index) seen

def checkSteps (registry : AgentRegistry) (ids : Table Nat) :
    Nat → List Text → List PlanStep → Except CompileError (List Text)
  | _, seen, [] => .ok seen
  | index, seen, step :: rest =>
      match checkStep registry ids index seen step with
      | .error e => .error e
      | .ok seen => checkSteps registry ids (index + 1) seen rest

def checkParallelism (plan : Plan) : Except CompileError Unit :=
  match plan.maxParallelism with
  | none => .ok ()
  | some n => if n < 1 then .error (.parallelismTooSmall n) else .ok ()

def validate (plan : Plan) (registry : AgentRegistry) : Except CompileError (List Text) := do
  plan.checkParallelism
  if plan.steps.isEmpty then .error .noSteps
  let ids ← collectIds [] 0 plan.steps
  if plan.isExplicit then requireIds 0 plan.steps
  checkSteps registry ids 0 [] plan.steps

end Plan

end PlanFlow
