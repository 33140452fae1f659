import PlanFlow.Proofs.Assembly
import PlanFlow.Proofs.Synthesis

/-!
The whole layout of a plan: the nodes of all steps and the node that brings their results together. Nodes stand
behind those that their edges come from, whether or not the plan is valid.
-/

set_option autoImplicit false

namespace PlanFlow

theorem Sketch.latest_recorded (outputs : List StepOutput) (key node : Text)
    (found : Sketch.latest? outputs key = some node) : (⟨key, node⟩ : StepOutput) ∈ outputs := by
  obtain ⟨output, first, rfl⟩ := Option.map_eq_some_iff.mp found
  have same : output.key = key := by simpa using List.find?_some first
  subst same
  exact List.mem_reverse.mp (List.mem_of_find?_eq_some first)

theorem check_request_unbound (ids : List Text) (node : Text) (request : Request) (unbound : request.bindings = none) :
    Draft.checkRequest ids node request = .ok () := by
  rw [Draft.checkRequest, unbound]
  rfl

theorem Selection.request_unbound (selection : Selection) (context : Context) (configured : List Text) (prompt : Text) :
    (selection.request context configured prompt).bindings = none := by
  cases known : context.agents.find? selection.id.trim <;> simp [request, known, Plan.agentRequest, Request.empty]

theorem PlanStep.placed_laid (step : PlanStep) (context : Context) (configured : List Text) (job : Job) (index : Nat)
    (dependencies : List Prompt.Dependency) (seen : List Text) (known : ∀ d ∈ dependencies, d.node ∈ seen) :
    Laid seen (step.placed context configured job index dependencies) := by
  rw [placed, laid_append]
  constructor
  · refine laid_of_sources_seen seen _ fun p member source waits => ?_
    obtain ⟨selection, _, rfl⟩ := List.mem_map.mp member
    obtain ⟨d, given, rfl⟩ := List.mem_map.mp waits
    exact known d given
  · refine laid_of_sources_seen _ _ fun p member source waits => ?_
    obtain ⟨id, _, rfl⟩ := List.mem_map.mp member
    rw [List.map_map]
    exact List.mem_append_right _ waits

namespace Plan

theorem resolved_recorded (plan : Plan) (index : Nat) (step : PlanStep) (d : Prompt.Dependency)
    (member : d ∈ plan.resolved index step) : (⟨d.key, d.node⟩ : StepOutput) ∈ plan.outputsBefore index := by
  by_cases explicit : plan.isExplicit = true
  · rw [resolved, if_pos explicit] at member
    obtain ⟨key, _, found⟩ := List.mem_filterMap.mp member
    obtain ⟨node, latest, rfl⟩ := Option.map_eq_some_iff.mp found
    exact Sketch.latest_recorded _ key node latest
  · rw [resolved, if_neg explicit] at member
    obtain ⟨output, last, rfl⟩ := List.mem_map.mp member
    exact List.mem_of_getLast? (Option.mem_toList.mp last)

theorem mem_outputs_before (plan : Plan) (index : Nat) (output : StepOutput) :
    output ∈ plan.outputsBefore index ↔
      ∃ (i : Nat) (step : PlanStep), i < index ∧ plan.steps[i]? = some step ∧ output = step.output i := by
  simp only [outputsBefore, List.mem_map, Prod.exists, mem_entries_before]
  constructor
  · rintro ⟨step, i, ⟨before, found⟩, rfl⟩
    exact ⟨i, step, before, found, rfl⟩
  · rintro ⟨i, step, before, found, rfl⟩
    exact ⟨step, i, ⟨before, found⟩, rfl⟩

theorem recorded_placed (plan : Plan) (index : Nat) (output : StepOutput)
    (staffed : ∀ step ∈ plan.steps, step.agents ≠ []) (member : output ∈ plan.outputsBefore index) :
    output.node ∈ plan.layoutIdsBefore index := by
  obtain ⟨i, step, before, found, rfl⟩ := (plan.mem_outputs_before index output).mp member
  exact List.mem_flatMap.mpr ⟨(step, i), (plan.mem_entries_before index i step).mpr ⟨before, found⟩,
    step.output_mem_ids i (staffed step (List.mem_of_getElem? found))⟩

theorem layout_before_laid (plan : Plan) (context : Context) (configured : List Text) (job : Job) (index : Nat)
    (bound : index ≤ plan.steps.length) (staffed : ∀ step ∈ plan.steps, step.agents ≠ []) :
    Laid [] (plan.layoutBefore context configured job index) := by
  induction index with
  | zero => trivial
  | succ index ih =>
      have found := List.getElem?_eq_getElem bound
      have grown : plan.layoutBefore context configured job (index + 1) =
          plan.layoutBefore context configured job index ++
            plan.placedAt context configured job (plan.steps[index], index) := by
        simp [layoutBefore, plan.entries_before_succ index _ found]
      rw [grown, laid_append]
      refine ⟨ih (Nat.le_of_succ_le bound), PlanStep.placed_laid _ _ _ _ _ _ _ fun d member => ?_⟩
      rw [List.nil_append, layout_ids]
      exact plan.recorded_placed index _ staffed (plan.resolved_recorded index _ d member)

section

variable (plan : Plan) (context : Context) (settings : Settings) (job : Job)

def terminals : List Text :=
  plan.terminalOutputs ((plan.outputsBefore plan.steps.length).map StepOutput.node)

def synthesisPlaced : Placed :=
  ⟨⟨settings.synthesisNodeId, none, .request .llm (synthesisRequest job plan.terminals)⟩, plan.terminals⟩

def layout : List Placed :=
  plan.layoutBefore context settings.defaultTools job plan.steps.length ++ [plan.synthesisPlaced settings job]

def layoutIds : List Text := plan.layoutIdsBefore plan.steps.length ++ [settings.synthesisNodeId]

-- The nodes in the layout: one for every agent, one for every step that is joined, and the last one.
inductive Lays : Placed → Prop where
  | agent (i : Nat) (step : PlanStep) (selection : Selection) (found : plan.steps[i]? = some step)
      (selected : selection ∈ step.agents) :
      Lays (selection.placed context settings.defaultTools
        (Prompt.agent job.instructions job.task (plan.resolved i step))
        ((plan.resolved i step).map Prompt.Dependency.node))
  | join (i : Nat) (step : PlanStep) (found : plan.steps[i]? = some step) (joined : step.isJoined = true) :
      Lays ⟨⟨step.joinId i, none, .joinAll⟩, step.nodeIds⟩
  | last : Lays (plan.synthesisPlaced settings job)

theorem mem_layout_iff (p : Placed) : p ∈ plan.layout context settings job ↔ plan.Lays context settings job p := by
  rw [layout, List.mem_append, List.mem_singleton, layoutBefore, List.mem_flatMap]
  simp only [Prod.exists, placedAt, PlanStep.mem_placed, mem_entries]
  constructor
  · rintro (⟨step, i, found, ⟨selection, selected, rfl⟩ | ⟨joined, rfl⟩⟩ | rfl)
    · exact .agent i step selection found selected
    · exact .join i step found joined
    · exact .last
  · intro lays
    cases lays with
    | agent i step selection found selected => exact Or.inl ⟨step, i, found, Or.inl ⟨selection, selected, rfl⟩⟩
    | join i step found joined => exact Or.inl ⟨step, i, found, Or.inr ⟨joined, rfl⟩⟩
    | last => exact Or.inr rfl

theorem layout_map_id : (plan.layout context settings job).map Placed.id = plan.layoutIds settings := by
  rw [layout, List.map_append, layout_ids]
  rfl

theorem terminals_recorded (id : Text) (member : id ∈ plan.terminals) :
    ∃ output ∈ plan.outputsBefore plan.steps.length, output.node = id := by
  by_cases explicit : plan.isExplicit = true
  · rw [terminals, terminalOutputs, if_pos explicit] at member
    obtain ⟨entry, chosen, rfl⟩ := List.mem_map.mp member
    exact List.mem_map.mp (List.of_mem_zip (List.mem_filter.mp chosen).1).2
  · rw [terminals, terminalOutputs, if_neg explicit] at member
    exact List.mem_map.mp (List.mem_of_getLast? (Option.mem_toList.mp member))

theorem layout_laid (staffed : ∀ step ∈ plan.steps, step.agents ≠ []) : Laid [] (plan.layout context settings job) := by
  rw [layout, laid_append]
  refine ⟨plan.layout_before_laid context _ job _ (Nat.le_refl _) staffed, fun id member => ?_, trivial⟩
  obtain ⟨output, recorded, rfl⟩ := plan.terminals_recorded id member
  rw [List.nil_append, layout_ids]
  exact plan.recorded_placed _ output staffed recorded

theorem layout_bare : ∀ p ∈ plan.layout context settings job, p.Bare := by
  intro p member
  cases (plan.mem_layout_iff context settings job p).mp member with
  | agent i step selection found selected =>
      exact ⟨rfl, fun ids => check_request_unbound ids _ _ (selection.request_unbound _ _ _)⟩
  | join i step found joined => exact ⟨rfl, fun _ => rfl⟩
  | last => exact ⟨rfl, fun ids => check_request_unbound ids _ _ rfl⟩

theorem configured_name_eq_ok (field name answer : Text) :
    configuredName field name = .ok answer ↔ name ≠ [] ∧ name.hasSurrogate = false ∧ answer = name := by
  by_cases lone : name.hasSurrogate = true
  · simp [configuredName, Schema.nonEmptyText, lone, Checked.fail, Checked.under, Outcome.ofChecked]
  · by_cases empty : name = []
    · simp [configuredName, Schema.nonEmptyText, Checked.fail, Checked.under, Outcome.ofChecked, empty]
    · simp [configuredName, Schema.nonEmptyText, lone, Checked.under, Outcome.ofChecked, empty,
        eq_comm (a := answer)]

end

end Plan

structure Settings.Nameable (settings : Settings) : Prop where
  node : settings.synthesisNodeId ≠ [] ∧ settings.synthesisNodeId.hasSurrogate = false
  output : settings.resultOutputName ≠ [] ∧ settings.resultOutputName.hasSurrogate = false

namespace Plan

section

variable (plan : Plan) (context : Context) (settings : Settings) (job : Job)

structure Sketchable : Prop where
  ready : ∀ (i : Nat) (step : PlanStep), plan.steps[i]? = some step →
    plan.StepReady context settings.defaultTools job i step
  unique : (plan.layoutIds settings).Nodup
  nameable : settings.Nameable

theorem Sketchable.staffed {plan : Plan} {context : Context} {settings : Settings} {job : Job}
    (fits : plan.Sketchable context settings job) : ∀ step ∈ plan.steps, step.agents ≠ [] := by
  intro step member
  obtain ⟨i, found⟩ := List.mem_iff_getElem?.mp member
  exact (fits.ready i step found).staffed

def sketched : Synthesis :=
  ⟨(plan.layout context settings job).map Placed.node, (plan.layout context settings job).flatMap Placed.edges,
    [⟨settings.resultOutputName, settings.synthesisNodeId, none⟩], plan.terminals⟩

theorem sketch_eq_ok (s : Synthesis) :
    plan.sketch context settings job = .ok s ↔
      plan.Sketchable context settings job ∧ s = plan.sketched context settings job := by
  have run (t : Sketch) := plan.add_steps_eq_ok context settings.defaultTools job 0 plan.steps t rfl (Nat.zero_le _)
    List.nodup_nil
  rw [sketch_before_zero] at run
  have ids := plan.sketch_ids context settings.defaultTools job plan.steps.length
  have laid_out : (⟨((plan.sketchBefore context settings.defaultTools job plan.steps.length).addNode
        ⟨settings.synthesisNodeId, none, .request .llm (synthesisRequest job plan.terminals)⟩ plan.terminals).nodes,
      ((plan.sketchBefore context settings.defaultTools job plan.steps.length).addNode
        ⟨settings.synthesisNodeId, none, .request .llm (synthesisRequest job plan.terminals)⟩ plan.terminals).edges,
      [⟨settings.resultOutputName, settings.synthesisNodeId, none⟩], plan.terminals⟩ : Synthesis) =
      plan.sketched context settings job := by
    rw [Sketch.add_node_eq_place]
    simp [sketched, layout, sketchBefore, Sketch.place, Sketch.empty, synthesisPlaced]
  simp only [sketch, bind_eq_ok, map_error_eq_ok, run, Sketch.claim_eq_ok, configured_name_eq_ok, pure_eq_ok]
  constructor
  · rintro ⟨_, ⟨ready, unique, rfl⟩, _, fresh, _, ⟨node, plainNode, rfl⟩, _, ⟨output, plainOutput, rfl⟩, rfl⟩
    rw [ids] at fresh
    exact ⟨⟨fun i step found => ready i step (Nat.zero_le i) found, (nodup_append_one _ _).mpr ⟨fresh, unique⟩,
      ⟨node, plainNode⟩, ⟨output, plainOutput⟩⟩, laid_out⟩
  · rintro ⟨⟨ready, unique, nameable⟩, rfl⟩
    obtain ⟨fresh, apart⟩ := (nodup_append_one _ _).mp unique
    exact ⟨_, ⟨fun i step _ found => ready i step found, apart, rfl⟩, (), by rw [ids]; exact fresh, _,
      ⟨nameable.node.1, nameable.node.2, rfl⟩, _, ⟨nameable.output.1, nameable.output.2, rfl⟩, laid_out⟩

theorem sketched_lists (fits : plan.Sketchable context settings job) :
    ((plan.sketched context settings job).draft plan settings job).Lists (plan.layout context settings job)
      ⟨settings.resultOutputName, settings.synthesisNodeId, none⟩ where
  nodes := rfl
  edges := rfl
  outputs := rfl
  answered := by
    rw [layout_map_id]
    exact List.mem_append_right _ List.mem_cons_self
  bare := plan.layout_bare context settings job
  unique := by
    rw [layout_map_id]
    exact fits.unique
  laid := plan.layout_laid context settings job fits.staffed

end

end Plan

end PlanFlow
