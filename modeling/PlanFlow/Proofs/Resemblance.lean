import PlanFlow.Proofs.Compilation
import PlanFlow.Proofs.Precedence
import PlanFlow.Proofs.Reordering

/-!
What compilation does not look at: blanks around ids and texts, the wording of reasons and of descriptions. Every
stage trims for itself, so every stage is shown to answer alike, with the same error where it stops.
-/

set_option autoImplicit false

namespace PlanFlow

structure Selection.Resembles (selection other : Selection) : Prop where
  id : selection.id.trim = other.id.trim
  reason : selection.reason.trim = [] ↔ other.reason.trim = []

-- An absent id counts as a blank one, and absent dependencies as an empty list.
structure PlanStep.Resembles (step other : PlanStep) : Prop where
  id : step.trimmedId = other.trimmedId
  agents : List.Forall₂ Selection.Resembles step.agents other.agents
  named : step.dependencies.map Text.trim = other.dependencies.map Text.trim

structure Plan.Resembles (plan other : Plan) : Prop where
  parallel : plan.maxParallelism = other.maxParallelism
  steps : List.Forall₂ PlanStep.Resembles plan.steps other.steps

structure Agent.Resembles (agent other : Agent) : Prop where
  name : agent.name = other.name
  system : agent.systemPrompt.trim = other.systemPrompt.trim
  described : agent.hasDescription = other.hasDescription
  tools : agent.tools = other.tools

structure Context.Resembles (context other : Context) : Prop where
  agents : ∀ name, Option.Rel Agent.Resembles (context.agents.find? name) (other.agents.find? name)
  tools : context.tools = other.tools
  commandTools : context.commandTools = other.commandTools

theorem Context.resembles_of_matched (context other : Context)
    (agents : Table.Matched Agent.Resembles context.agents other.agents) (tools : context.tools = other.tools)
    (commandTools : context.commandTools = other.commandTools) : context.Resembles other :=
  ⟨fun name => Table.matched_get name _ _ agents, tools, commandTools⟩

structure Job.Resembles (job other : Job) : Prop where
  task : job.task.trim = other.task.trim
  instructions : job.instructions.trim = other.instructions.trim
  name : job.name = other.name
  model : job.model = other.model

namespace Plan

section

variable (registry known : AgentRegistry)
  (agents : ∀ name, Option.Rel Agent.Resembles (registry.find? name) (known.find? name))

theorem collect_ids_alike (found : Table Nat) (index : Nat) (steps others : List PlanStep)
    (alike : List.Forall₂ PlanStep.TiedAlike steps others) : collectIds found index steps = collectIds found index others := by
  induction alike generalizing found index with
  | nil => rfl
  | cons same _ ih => simp only [collectIds, same.id, ih]

theorem require_ids_alike (index : Nat) (steps others : List PlanStep)
    (alike : List.Forall₂ PlanStep.TiedAlike steps others) : requireIds index steps = requireIds index others := by
  induction alike generalizing index with
  | nil => rfl
  | cons same _ ih => simp only [requireIds, same.id, ih]

theorem check_dependencies_trimmed (ids : Table Nat) (index : Nat) (named : List Text) :
    named.forM (checkDependency ids index) = (named.map Text.trim).forM (checkDependency ids index) := by
  have each (raw : Text) : checkDependency ids index raw.trim = checkDependency ids index raw := by
    rw [checkDependency, checkDependency, Text.trim_trim]
  rw [List.forM_eq_forM, List.forM_map]
  exact congrArg (forM named) (funext fun raw => (each raw).symm)

include agents

theorem check_selection_alike (index : Nat) (seen : List Text) (selection other : Selection)
    (same : selection.Resembles other) :
    checkSelection registry index seen selection = checkSelection known index seen other := by
  have reasons : selection.reason.trim.isEmpty = other.reason.trim.isEmpty := by
    rw [Bool.eq_iff_iff, List.isEmpty_iff, List.isEmpty_iff]
    exact same.reason
  have agent := agents other.id.trim
  rw [checkSelection, checkSelection, same.id, reasons]
  generalize registry.find? other.id.trim = one, known.find? other.id.trim = another at agent ⊢
  cases agent with
  | none => rfl
  | some resembling => simp only [resembling.described]

theorem check_selections_alike (index : Nat) (seen : List Text) (selections others : List Selection)
    (same : List.Forall₂ Selection.Resembles selections others) :
    selections.foldlM (checkSelection registry index) seen = others.foldlM (checkSelection known index) seen := by
  induction same generalizing seen with
  | nil => rfl
  | cons first _ ih =>
      rw [List.foldlM_cons, List.foldlM_cons, check_selection_alike registry known agents index seen _ _ first]
      exact congrArg (checkSelection known index seen _ >>= ·) (funext ih)

theorem check_steps_alike (ids : Table Nat) (index : Nat) (seen : List Text) (steps others : List PlanStep)
    (same : List.Forall₂ PlanStep.Resembles steps others) :
    checkSteps registry ids index seen steps = checkSteps known ids index seen others := by
  induction same generalizing index seen with
  | nil => rfl
  | @cons step other _ _ first _ ih =>
      have staffed : step.agents.isEmpty = other.agents.isEmpty := by
        rw [Bool.eq_iff_iff, List.isEmpty_iff_length_eq_zero, List.isEmpty_iff_length_eq_zero, first.agents.length_eq]
      have own : checkStep registry ids index seen step = checkStep known ids index seen other := by
        rw [checkStep, checkStep, staffed, check_dependencies_trimmed, first.named, ← check_dependencies_trimmed,
          check_selections_alike registry known agents index seen _ _ first.agents]
      simp only [checkSteps, own, ih]

theorem validate_alike (plan other : Plan) (same : plan.Resembles other) : plan.validate registry = other.validate known := by
  have alike := same.steps.imp fun _ _ first => PlanStep.TiedAlike.mk first.id first.named
  have empty : plan.steps.isEmpty = other.steps.isEmpty := by
    rw [Bool.eq_iff_iff, List.isEmpty_iff_length_eq_zero, List.isEmpty_iff_length_eq_zero, same.steps.length_eq]
  have steps (ids : Table Nat) := check_steps_alike registry known agents ids 0 [] _ _ same.steps
  simp only [validate, checkParallelism, same.parallel, empty, collect_ids_alike _ _ _ _ alike,
    require_ids_alike _ _ _ alike, plan.tied_explicit other alike, steps]

end

end Plan

theorem Prompt.agent_alike (job other : Job) (same : job.Resembles other) (dependencies : List Prompt.Dependency) :
    Prompt.agent job.instructions job.task dependencies = Prompt.agent other.instructions other.task dependencies := by
  simp only [Prompt.agent, Prompt.unlessBlank, same.task, same.instructions]

theorem Prompt.synthesis_alike (job other : Job) (same : job.Resembles other) (outputs : List Text) :
    Prompt.synthesis job.instructions job.task outputs = Prompt.synthesis other.instructions other.task outputs := by
  simp only [Prompt.synthesis, Prompt.unlessBlank, same.task, same.instructions]

namespace Plan

theorem agent_request_alike (agent twin : Agent) (alike : agent.Resembles twin) (prompt : Text) (tools : List Text) :
    agentRequest agent prompt tools = agentRequest twin prompt tools := by
  simp only [agentRequest, alike.system]

section

variable (context other : Context) (same : context.Resembles other) (configured : List Text)

include same

theorem resolve_tools_alike (agent twin : Agent) (alike : agent.Resembles twin) :
    agent.resolveTools context configured = twin.resolveTools other configured := by
  simp only [Agent.resolveTools, Agent.toolNames, same.tools, same.commandTools, alike.tools, alike.name]

theorem add_agent_alike (prompt : Text) (sources : List Text) (index : Nat) (s : Sketch) (selection twin : Selection)
    (alike : selection.Resembles twin) :
    addAgent context configured prompt sources index s selection =
      addAgent other configured prompt sources index s twin := by
  have agent := same.agents twin.id.trim
  rw [addAgent, addAgent, alike.id, AgentRegistry.get, AgentRegistry.get]
  generalize context.agents.find? twin.id.trim = one, other.agents.find? twin.id.trim = another at agent ⊢
  cases agent with
  | none => rfl
  | some resembling =>
      simp only [ok_bind, resolve_tools_alike context other same configured _ _ resembling, agent_request_alike _ _ resembling]

theorem add_agents_alike (prompt : Text) (sources : List Text) (index : Nat) (s : Sketch)
    (selections others : List Selection) (alike : List.Forall₂ Selection.Resembles selections others) :
    addAgents context configured prompt sources index s selections =
      addAgents other configured prompt sources index s others := by
  induction alike generalizing s with
  | nil => rfl
  | cons first _ ih =>
      simp only [addAgents, add_agent_alike context other same configured prompt sources index s _ _ first, ih]

variable (plan twin : Plan) (resembling : plan.Resembles twin) (job task : Job) (asked : job.Resembles task)

include resembling asked

theorem add_step_alike (s : Sketch) (index : Nat) (step matching : PlanStep) (first : step.Resembles matching) :
    plan.addStep context configured job s index step = twin.addStep other configured task s index matching := by
  have alike := resembling.steps.imp fun _ _ own => PlanStep.TiedAlike.mk own.id own.named
  have tied : step.TiedAlike matching := ⟨first.id, first.named⟩
  simp only [addStep, plan.tied_dependencies twin alike s index step matching tied, Prompt.agent_alike job task asked,
    add_agents_alike context other same configured _ _ _ _ _ _ first.agents, tied.key]

theorem add_steps_alike (s : Sketch) (index : Nat) (steps others : List PlanStep)
    (each : List.Forall₂ PlanStep.Resembles steps others) :
    plan.addSteps context configured job s index steps = twin.addSteps other configured task s index others := by
  induction each generalizing s index with
  | nil => rfl
  | cons first _ ih =>
      simp only [addSteps, add_step_alike context other same configured plan twin resembling job task asked s index _ _ first,
        ih]

theorem synthesize_alike (settings : Settings) :
    plan.synthesize context settings job = twin.synthesize other settings task := by
  have alike := resembling.steps.imp fun _ _ own => PlanStep.TiedAlike.mk own.id own.named
  have drafted (s : Synthesis) : s.draft plan settings job = s.draft twin settings task := by
    simp only [Synthesis.draft, Synthesis.modelFor, asked.name, asked.model, resembling.parallel]
  simp only [synthesize, sketch, add_steps_alike context other same settings.defaultTools plan twin resembling job task asked
    .empty 0 _ _ resembling.steps, plan.tied_terminals twin alike, synthesisRequest, Prompt.synthesis_alike job task asked,
    drafted]

end

end Plan

theorem compile_ignores_margins (payload twin : Payload Plan) (context other : Context) (settings : Settings) (job task : Job)
    (plan matching : Plan) (given : Plan.read payload = .ok plan) (read : Plan.read twin = .ok matching)
    (plans : plan.Resembles matching) (contexts : context.Resembles other) (jobs : job.Resembles task) :
    compile payload context settings job = compile twin other settings task := by
  rw [compile, compile, given, read, ok_bind, ok_bind,
    Plan.validate_alike context.agents other.agents contexts.agents plan matching plans,
    Plan.synthesize_alike context other contexts plan matching plans job task jobs settings, contexts.tools]

namespace Sample

def roomyPlan : Plan :=
  ⟨none, [⟨some " prepare ", [⟨"drafter ", "is quick"⟩, ⟨" checker", "is thorough"⟩], some []⟩,
    ⟨some "finish ", [⟨"editor", " writes well "⟩], some [" prepare"]⟩]⟩

def roomyContext : Context :=
  ⟨AgentRegistry.ofList [⟨"drafter", " Draft.", some ("Drafts." : Text), []⟩, ⟨"checker", "Check. ", some ("Checks." : Text), []⟩,
    ⟨"editor", "Edit.", some (" Edits " : Text), []⟩], ToolRegistry.standard, []⟩

def roomyJob : Job := ⟨" Write a report. ", "Be brief. ", none, none⟩

end Sample

theorem sample_ignores_margins : ∃ spec, compile (.parsed Sample.plan) Sample.context .standard Sample.job = .ok spec ∧
    compile (.parsed Sample.roomyPlan) Sample.roomyContext .standard Sample.roomyJob = .ok spec := by
  have plans : Sample.plan.Resembles Sample.roomyPlan :=
    ⟨rfl, .cons ⟨by decide, .cons ⟨by decide, by decide⟩ (.cons ⟨by decide, by decide⟩ .nil), by decide⟩
      (.cons ⟨by decide, .cons ⟨by decide, by decide⟩ .nil, by decide⟩ .nil)⟩
  have contexts : Sample.context.Resembles Sample.roomyContext :=
    Context.resembles_of_matched _ _ (.cons ⟨rfl, rfl, by decide, by decide, rfl⟩
      (.cons ⟨rfl, rfl, by decide, by decide, rfl⟩ (.cons ⟨rfl, rfl, by decide, by decide, rfl⟩ .nil))) rfl rfl
  have jobs : Sample.job.Resembles Sample.roomyJob := ⟨by decide, by decide, rfl, rfl⟩
  have same := compile_ignores_margins (.parsed Sample.plan) (.parsed Sample.roomyPlan) Sample.context Sample.roomyContext
    .standard Sample.job Sample.roomyJob Sample.plan Sample.roomyPlan rfl rfl plans contexts jobs
  obtain ⟨spec, compiled⟩ := Sample.compiles
  exact ⟨spec, compiled, same.symm.trans compiled⟩

end PlanFlow
