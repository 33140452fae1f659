import PlanFlow.Compile
import PlanFlow.Proofs.Sketch
import PlanFlow.Proofs.Validation

/-!
What compilation gives. A plan that compiles is valid and can be laid out, and its specification lists the
layout, each node with the nodes that its edges come from as dependencies.
-/

set_option autoImplicit false

namespace PlanFlow

namespace ToolRegistry

theorem tools_checked (registry : ToolRegistry) (node : Text) (parent : Option Text) (names : List Text)
    (allowed : ∀ name ∈ names, registry.isAllowed name = true) :
    (names.map Tool.named).forM (registry.checkTool node parent) = .ok () := by
  rw [for_m_eq_ok]
  intro tool member
  obtain ⟨name, given, rfl⟩ := List.mem_map.mp member
  rw [checkTool, if_pos (allowed name given)]

theorem settle_agent_request (registry : ToolRegistry) (node : Text) (parent : Option Text) (agent : Agent)
    (prompt : Text) (names : List Text) (allowed : ∀ name ∈ names, registry.isAllowed name = true) :
    registry.settleRequest node parent (Plan.agentRequest agent prompt names) =
      .ok (Plan.agentRequest agent prompt names) := by
  by_cases empty : names = []
  · simp [settleRequest, Plan.agentRequest, Request.empty, empty]
  · simp [settleRequest, settleMode, Plan.agentRequest, empty,
      registry.tools_checked node parent names allowed, -List.forM_eq_forM]

end ToolRegistry

theorem Selection.request_settled (selection : Selection) (context : Context) (configured : List Text) (prompt : Text)
    (node : Text) (parent : Option Text) (usable : selection.Usable context configured) :
    context.tools.settleRequest node parent (selection.request context configured prompt) =
      .ok (selection.request context configured prompt) := by
  obtain ⟨agent, known, allowed⟩ := usable.known
  simp only [request, known]
  apply ToolRegistry.settle_agent_request
  exact fun name member => allowed name ((mem_distinct name _).mp member)

namespace Plan

section

variable (plan : Plan) (context : Context) (settings : Settings) (job : Job)

theorem layout_settled (fits : plan.Sketchable context settings job) :
    ∀ p ∈ plan.layout context settings job, context.tools.settleNode p.settled = .ok p.settled := by
  intro p member
  cases (plan.mem_layout_iff context settings job p).mp member with
  | agent i step selection found selected =>
      have usable := (fits.ready i step found).usable selection selected
      simp only [ToolRegistry.settleNode, Placed.settled, Selection.placed]
      rw [selection.request_settled context settings.defaultTools _ _ _ usable]
      rfl
  | join i step found joined => rfl
  | last => rfl

def specified (bound : Option Int) : Spec :=
  ⟨Draft.trimmedName job.name, Synthesis.modelFor settings job, bound,
    (plan.layout context settings job).map Placed.settled, [],
    [⟨settings.resultOutputName, settings.synthesisNodeId, none⟩]⟩

theorem specified_with_tools (fits : plan.Sketchable context settings job) (bound : Option Int) :
    (plan.specified context settings job bound).withTools context.tools =
      .ok (plan.specified context settings job bound) := by
  have unchanged : (plan.specified context settings job bound).nodes.mapM context.tools.settleNode =
      .ok ((plan.specified context settings job bound).nodes.map id) := by
    apply map_m_ok_of_pure
    intro node member
    obtain ⟨p, inside, rfl⟩ := List.mem_map.mp member
    exact plan.layout_settled context settings job fits p inside
  rw [Spec.withTools, Spec.settleTools, unchanged, List.map_id]
  rfl

theorem check_bound_eq_valid (given bound : Option Int) (positive : ∀ n, given = some n → 1 ≤ n) :
    Draft.checkParallelism (Json.ofInt? given) = .valid bound ↔
      bound = given ∧ ∀ n, given = some n → n ≤ Schema.integerLimit := by
  cases given with
  | none =>
      simp [Draft.checkParallelism, Json.ofInt?, Schema.optional, Checked.under, eq_comm (a := bound)]
  | some n =>
      have above : 0 < n := positive n rfl
      by_cases small : n ≤ Schema.integerLimit
      · simp [Draft.checkParallelism, Json.ofInt?, Schema.optional, Schema.positiveInteger, Schema.integerAtMostLimit,
          Schema.integer, Checked.andThen, Checked.map, Checked.under, small, above, eq_comm (a := bound)]
      · simp [Draft.checkParallelism, Json.ofInt?, Schema.optional, Schema.positiveInteger, Schema.integerAtMostLimit,
          Schema.integer, Checked.andThen, Checked.map, Checked.under, Checked.fail, small]

theorem synthesize_eq_ok (spec : Spec) (positive : ∀ n, plan.maxParallelism = some n → 1 ≤ n) :
    plan.synthesize context settings job = .ok spec ↔
      plan.Sketchable context settings job ∧ (∀ n, plan.maxParallelism = some n → n ≤ Schema.integerLimit) ∧
        spec = plan.specified context settings job plan.maxParallelism := by
  simp only [synthesize, bind_eq_ok, sketch_eq_ok]
  constructor
  · rintro ⟨_, ⟨fits, rfl⟩, built⟩
    obtain ⟨bound, checked, rfl⟩ := (Draft.listed_build_eq_ok _ _ _
      (plan.sketched_lists context settings job fits) spec).mp built
    obtain ⟨rfl, bounded⟩ := (check_bound_eq_valid _ bound positive).mp checked
    exact ⟨fits, bounded, rfl⟩
  · rintro ⟨fits, bounded, rfl⟩
    exact ⟨_, ⟨fits, rfl⟩, (Draft.listed_build_eq_ok _ _ _ (plan.sketched_lists context settings job fits) _).mpr
      ⟨plan.maxParallelism, (check_bound_eq_valid _ _ positive).mpr ⟨rfl, bounded⟩, rfl⟩⟩

structure Compilable : Prop where
  valid : plan.Valid context.agents
  sketchable : plan.Sketchable context settings job
  bounded : ∀ n, plan.maxParallelism = some n → n ≤ Schema.integerLimit

def compiled : Spec := plan.specified context settings job plan.maxParallelism

end

theorem compile_eq_ok (payload : Payload Plan) (context : Context) (settings : Settings) (job : Job) (spec : Spec) :
    compile payload context settings job = .ok spec ↔ ∃ plan, Plan.read payload = .ok plan ∧
      plan.Compilable context settings job ∧ spec = plan.compiled context settings job ∧
      ∃ digest, spec.digest = .ok digest := by
  simp only [compile, bind_eq_ok, map_error_eq_ok, validate_eq_ok, pure_eq_ok]
  constructor
  · rintro ⟨plan, given, _, ⟨valid, rfl⟩, made, synthesized, _, settled, digest, hashed, rfl⟩
    obtain ⟨fits, bounded, rfl⟩ := (plan.synthesize_eq_ok context settings job _ valid.parallel).mp synthesized
    rw [specified_with_tools plan context settings job fits] at settled
    obtain rfl := Except.ok.inj settled
    exact ⟨plan, given, ⟨valid, fits, bounded⟩, rfl, digest, hashed⟩
  · rintro ⟨plan, given, fits, rfl, digest, hashed⟩
    exact ⟨plan, given, _, ⟨fits.valid, rfl⟩, _,
      (plan.synthesize_eq_ok context settings job _ fits.valid.parallel).mpr ⟨fits.sketchable, fits.bounded, rfl⟩, _,
      specified_with_tools plan context settings job fits.sketchable plan.maxParallelism, digest, hashed, rfl⟩

theorem compiled_ids (plan : Plan) (context : Context) (settings : Settings) (job : Job) :
    (plan.compiled context settings job).nodeIds = plan.layoutIds settings := by
  rw [← plan.layout_map_id context settings job, Spec.nodeIds, compiled, specified, List.map_map]
  rfl

end Plan

namespace Sample

def agents : AgentRegistry :=
  AgentRegistry.ofList [⟨"drafter", "Draft.", some ("Writes drafts." : Text), []⟩,
    ⟨"checker", "Check.", some ("Checks facts." : Text), []⟩, ⟨"editor", "Edit.", some ("Edits texts." : Text), []⟩]

def context : Context := ⟨agents, ToolRegistry.standard, []⟩

def plan : Plan :=
  ⟨none, [⟨some "prepare", [⟨"drafter", "writes"⟩, ⟨"checker", "knows"⟩], none⟩,
    ⟨some "finish", [⟨"editor", "polishes"⟩], some ["prepare"]⟩]⟩

def job : Job := ⟨"Write a report.", "Be brief.", none, none⟩

set_option maxRecDepth 100000 in
theorem compiles : ∃ spec, compile (.parsed plan) context .standard job = .ok spec := by
  have accepted : (compile (.parsed plan) context .standard job).isOk = true := by decide +kernel
  exact exists_ok _ accepted

end Sample

end PlanFlow
