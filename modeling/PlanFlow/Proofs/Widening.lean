import PlanFlow.Proofs.Compilation
import PlanFlow.Proofs.Orderly
import PlanFlow.Proofs.Precedence

/-!
Contexts with more agents and more allowed tools. A plan that compiles looks up the agents that it selects and nothing
else, and all of its tools are allowed already, so it compiles to the same specification there.
-/

set_option autoImplicit false

namespace PlanFlow

structure Context.Widens (context wider : Context) : Prop where
  agents : ∀ name agent, context.agents.find? name = some agent → wider.agents.find? name = some agent
  allowed : ∀ tool ∈ context.tools.allowed, tool ∈ wider.tools.allowed
  defaults : wider.tools.defaults = context.tools.defaults
  commandTools : wider.commandTools = context.commandTools

namespace Table

variable {α : Type}

theorem get_put_all (pairs : List (Text × α)) (table : Table α) (name : Text) (fresh : name ∉ keys pairs) :
    get? name (pairs.foldl (fun table pair => put pair.1 pair.2 table) table) = get? name table := by
  induction pairs generalizing table with
  | nil => rfl
  | cons head tail ih =>
      have other : head.1 ≠ name := fun same => fresh (same ▸ List.mem_cons_self)
      rw [List.foldl_cons, ih _ fun later => fresh (List.mem_cons_of_mem _ later), get_put, if_neg other]

end Table

theorem AgentRegistry.find_added (agents added : List Agent)
    (fresh : ∀ agent ∈ added, agent.name ∉ agents.map Agent.name) (name : Text) (agent : Agent)
    (found : (ofList agents).find? name = some agent) : (ofList (agents ++ added)).find? name = some agent := by
  have given : name ∈ agents.map Agent.name := by
    obtain ⟨own, member, same⟩ := List.mem_map.mp (Table.mem_of_pairs _ _ (Table.mem_of_get _ _ _ found))
    exact List.mem_map.mpr ⟨own, member, congrArg Prod.fst same⟩
  have apart : name ∉ Table.keys (added.map fun agent => (agent.name, agent)) := by
    intro clash
    obtain ⟨_, entry, rfl⟩ := List.mem_map.mp clash
    obtain ⟨other, member, rfl⟩ := List.mem_map.mp entry
    exact fresh other member given
  rw [ofList, Table.ofPairs, List.map_append, List.foldl_append]
  exact (Table.get_put_all _ _ name apart).trans found

theorem Selection.Acceptable.widened {selection : Selection} {registry wider : AgentRegistry}
    (acceptable : selection.Acceptable registry)
    (kept : ∀ name agent, registry.find? name = some agent → wider.find? name = some agent) :
    selection.Acceptable wider := by
  obtain ⟨agent, found, described⟩ := acceptable.known
  exact ⟨acceptable.named, ⟨agent, kept _ agent found, described⟩, acceptable.reasoned⟩

theorem Plan.Valid.widened {plan : Plan} {registry wider : AgentRegistry} (valid : plan.Valid registry)
    (kept : ∀ name agent, registry.find? name = some agent → wider.find? name = some agent) : plan.Valid wider :=
  { valid with
    acceptable := fun step member selection selected => (valid.acceptable step member selection selected).widened kept }

namespace Context.Widens

variable {context wider : Context} (widens : context.Widens wider)

include widens

theorem tool_names (agent : Agent) (configured : List Text) :
    agent.toolNames wider configured = agent.toolNames context configured := by
  rw [Agent.toolNames, Agent.toolNames, widens.commandTools, widens.defaults]

theorem is_allowed (tool : Text) (allowed : context.tools.isAllowed tool = true) : wider.tools.isAllowed tool = true := by
  rw [ToolRegistry.isAllowed, List.contains_iff_mem] at allowed ⊢
  exact widens.allowed tool allowed

theorem usable (configured : List Text) (selection : Selection) (usable : selection.Usable context configured) :
    selection.Usable wider configured := by
  obtain ⟨agent, found, allowed⟩ := usable.known
  refine ⟨⟨agent, widens.agents _ agent found, fun tool member => ?_⟩, usable.token⟩
  rw [widens.tool_names] at member
  exact widens.is_allowed tool (allowed tool member)

theorem placed (configured : List Text) (prompt : Text) (sources : List Text) (selection : Selection)
    (usable : selection.Usable context configured) :
    selection.placed wider configured prompt sources = selection.placed context configured prompt sources := by
  obtain ⟨agent, found, _⟩ := usable.known
  simp only [Selection.placed, Selection.request, found, widens.agents _ agent found, widens.tool_names]

variable (plan : Plan) (settings : Settings) (job : Job) (fits : plan.Sketchable context settings job)

include fits

theorem layout : plan.layout wider settings job = plan.layout context settings job := by
  have steps : plan.layoutBefore wider settings.defaultTools job plan.steps.length =
      plan.layoutBefore context settings.defaultTools job plan.steps.length := by
    refine List.flatMap_congr fun ⟨step, i⟩ member => ?_
    have ready := fits.ready i step ((plan.mem_entries i step).mp member)
    rw [Plan.placedAt, Plan.placedAt, PlanStep.placed, PlanStep.placed]
    congr 1
    exact List.map_congr_left fun selection selected => widens.placed _ _ _ selection (ready.usable selection selected)
  rw [Plan.layout, Plan.layout, steps]

theorem sketchable (valid : plan.Valid wider.agents) : plan.Sketchable wider settings job where
  ready := fun i step found => {
    resolves := plan.dependencies_found wider.agents valid wider _ job i step found
    staffed := (fits.ready i step found).staffed
    usable := fun selection selected => widens.usable _ selection ((fits.ready i step found).usable selection selected)
    joinable := (fits.ready i step found).joinable }
  unique := fits.unique
  nameable := fits.nameable

theorem compiled : plan.compiled wider settings job = plan.compiled context settings job := by
  rw [Plan.compiled, Plan.compiled, Plan.specified, Plan.specified, widens.layout plan settings job fits]

end Context.Widens

theorem compile_widened (payload : Payload Plan) (context wider : Context) (settings : Settings) (job : Job) (spec : Spec)
    (widens : context.Widens wider) (compiled : compile payload context settings job = .ok spec) :
    compile payload wider settings job = .ok spec := by
  obtain ⟨plan, given, fits, rfl, digested⟩ := (Plan.compile_eq_ok payload context settings job spec).mp compiled
  have valid := fits.valid.widened widens.agents
  have sketchable := widens.sketchable plan settings job fits.sketchable valid
  exact (Plan.compile_eq_ok payload wider settings job _).mpr
    ⟨plan, given, ⟨valid, sketchable, fits.bounded⟩, (widens.compiled plan settings job fits.sketchable).symm, digested⟩

namespace Sample

def translator : Agent := ⟨"translator", "Translate.", some ("Translates texts." : Text), ["dictionary"]⟩

def widerContext : Context :=
  ⟨AgentRegistry.ofList ([⟨"drafter", "Draft.", some ("Writes drafts." : Text), []⟩,
    ⟨"checker", "Check.", some ("Checks facts." : Text), []⟩, ⟨"editor", "Edit.", some ("Edits texts." : Text), []⟩] ++
      [translator]),
    ⟨"dictionary" :: ToolRegistry.defaultAllowed, []⟩, []⟩

theorem context_widens : context.Widens widerContext where
  agents := AgentRegistry.find_added _ [translator] (by decide)
  allowed := fun _ member => List.mem_cons_of_mem _ member
  defaults := rfl
  commandTools := rfl

end Sample

theorem sample_widened : ∃ spec, compile (.parsed Sample.plan) Sample.context .standard Sample.job = .ok spec ∧
    compile (.parsed Sample.plan) Sample.widerContext .standard Sample.job = .ok spec := by
  obtain ⟨spec, compiled⟩ := Sample.compiles
  exact ⟨spec, compiled, compile_widened (.parsed Sample.plan) Sample.context Sample.widerContext .standard Sample.job spec
    Sample.context_widens compiled⟩

end PlanFlow
