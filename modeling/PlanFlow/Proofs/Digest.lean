import PlanFlow.Proofs.Compilation
import PlanFlow.Proofs.Writing

/-!
The texts that go into a compilation, and the digest of what comes out. When no text has a lone surrogate, no
text of the specification has one, so the specification has a digest.
-/

set_option autoImplicit false

namespace PlanFlow

def Encodable (texts : List Text) : Prop := ∀ t ∈ texts, t.hasSurrogate = false

theorem encodable_append (a b : List Text) : Encodable (a ++ b) ↔ Encodable a ∧ Encodable b :=
  List.forall_mem_append

def Selection.texts (selection : Selection) : List Text := [selection.id, selection.reason]

def PlanStep.texts (step : PlanStep) : List Text :=
  step.id.toList ++ step.agents.flatMap Selection.texts ++ step.dependencies

def Plan.texts (plan : Plan) : List Text := plan.steps.flatMap PlanStep.texts

def Agent.texts (agent : Agent) : List Text :=
  [agent.name, agent.systemPrompt] ++ agent.description.toList ++ agent.tools

def Context.texts (context : Context) : List Text :=
  context.agents.flatMap (fun entry => entry.1 :: entry.2.texts) ++
    (context.tools.allowed ++ context.tools.defaults ++ context.commandTools)

def Job.texts (job : Job) : List Text := [job.task, job.instructions] ++ job.name.toList ++ job.model.toList

def Settings.texts (settings : Settings) : List Text :=
  [settings.synthesisNodeId, settings.resultOutputName] ++ settings.defaultModel.toList ++ settings.defaultTools

theorem standard_encodable : Encodable Settings.standard.texts := by
  intro t member
  simp only [Settings.texts, Settings.standard, Option.toList_none, List.append_nil, List.cons_append, List.nil_append,
    List.mem_cons, List.not_mem_nil, or_false] at member
  rcases member with rfl | rfl | rfl | rfl | rfl <;> exact Text.has_surrogate_of_string _

theorem Decimal.of_nat_clean (n : Nat) : (Decimal.ofNat n).hasSurrogate = false := Text.no_surrogate_of_chars _

namespace Prompt

theorem lines_clean (groups : List (List Text)) (clean : ∀ group ∈ groups, Encodable group) :
    (lines groups).hasSurrogate = false := by
  refine Text.no_surrogate_join _ _ (Text.has_surrogate_of_string _) fun line member => ?_
  obtain ⟨group, given, inside⟩ := List.mem_flatten.mp member
  exact clean group given line inside

theorem unless_blank_encodable (instructions : Text) (group : List Text) (clean : Encodable group) :
    Encodable (unlessBlank instructions group) := by
  by_cases blank : instructions.trim.isEmpty = true
  · simp [unlessBlank, blank, Encodable]
  · rw [unlessBlank, if_neg blank]
    exact clean

theorem unless_empty_encodable (items group : List Text) (cleanItems : Encodable items) (clean : Encodable group) :
    Encodable (unlessEmpty items group) := by
  by_cases empty : items.isEmpty = true
  · simp [unlessEmpty, empty, Encodable]
  · rw [unlessEmpty, if_neg empty, encodable_append]
    exact ⟨clean, cleanItems⟩

theorem placeholder_clean (node : Text) (clean : node.hasSurrogate = false) : (placeholder node).hasSurrogate = false := by
  simp [placeholder, Text.concat, clean]

theorem agent_clean (instructions task : Text) (dependencies : List Dependency)
    (cleanInstructions : instructions.hasSurrogate = false) (cleanTask : task.hasSurrogate = false)
    (clean : ∀ d ∈ dependencies, d.key.hasSurrogate = false ∧ d.node.hasSurrogate = false) :
    (agent instructions task dependencies).hasSurrogate = false := by
  have outputs : Encodable (dependencies.map Dependency.line) := by
    intro line member
    obtain ⟨d, given, rfl⟩ := List.mem_map.mp member
    simp [Dependency.line, Text.concat, (clean d given).1, placeholder_clean d.node (clean d given).2]
  have first := unless_blank_encodable instructions [instructions.trim]
    (by simp [Encodable, Text.no_surrogate_trim _ cleanInstructions])
  have given : Encodable ["USER_TASK:", task.trim] := by simp [Encodable, Text.no_surrogate_trim _ cleanTask]
  have previous := unless_empty_encodable _ ["", "PREVIOUS_STEP_OUTPUTS:"] outputs (by simp [Encodable])
  apply lines_clean
  simp only [List.forall_mem_cons]
  exact ⟨first, given, previous, List.forall_mem_nil _⟩

theorem synthesis_clean (instructions task : Text) (outputs : List Text)
    (cleanInstructions : instructions.hasSurrogate = false) (cleanTask : task.hasSurrogate = false)
    (clean : Encodable outputs) : (synthesis instructions task outputs).hasSurrogate = false := by
  have results : Encodable (outputs.map outputLine) := by
    intro line member
    obtain ⟨node, given, rfl⟩ := List.mem_map.mp member
    simp [outputLine, Text.concat, placeholder_clean node (clean node given)]
  have opening : Encodable ["Synthesize the results and complete the task."] := by simp [Encodable]
  have command := unless_blank_encodable instructions ["", "COMMAND:", instructions.trim]
    (by simp [Encodable, Text.no_surrogate_trim _ cleanInstructions])
  have given : Encodable ["", "USER_TASK:", task.trim] := by simp [Encodable, Text.no_surrogate_trim _ cleanTask]
  have collected := unless_empty_encodable _ ["", "RESULTS:"] results (by simp [Encodable])
  apply lines_clean
  simp only [List.forall_mem_cons]
  exact ⟨opening, command, given, collected, List.forall_mem_nil _⟩

end Prompt

theorem agent_request_spoken (agent : Agent) (prompt : Text) (names : List Text) :
    (Plan.agentRequest agent prompt names).Spoken names where
  rest := rfl
  named := by by_cases empty : names = [] <;> simp [Plan.agentRequest, empty]

theorem synthesis_request_spoken (job : Job) (terminal : List Text) : (Plan.synthesisRequest job terminal).Spoken [] where
  rest := rfl
  named := rfl

structure Placed.Printable (p : Placed) : Prop where
  id : p.id.hasSurrogate = false
  sources : Encodable p.sources
  action : ∀ nulls, WritableEntries (p.node.action.entries nulls)
  freeform : p.node.freeform = []

theorem Placed.settled_writable (p : Placed) (printable : p.Printable) (nulls : Nulls) :
    Json.Canonical.Writable (p.settled.toJson nulls) := by
  refine writable_node nulls p.settled printable.id (fun id waits => ?_) (printable.action nulls)
  exact printable.sources id ((p.settled_waits id).mp waits)

section

variable (plan : Plan) (context : Context) (settings : Settings) (job : Job)

theorem PlanStep.output_clean (step : PlanStep) (index : Nat) : (step.outputId index).hasSurrogate = false := by
  match selected : step.agents with
  | [selection] =>
      simp only [outputId, selected]
      exact NodeId.agent_no_surrogate _
  | [] =>
      simp only [outputId, selected]
      exact NodeId.join_no_surrogate _
  | _ :: _ :: _ =>
      simp only [outputId, selected]
      exact NodeId.join_no_surrogate _

theorem PlanStep.key_clean (step : PlanStep) (index : Nat) (clean : Encodable step.texts) :
    (step.key index).hasSurrogate = false := by
  by_cases blank : step.trimmedId.isEmpty = true
  · simp [key, blank, Decimal.of_nat_clean]
  · rw [key, if_neg blank]
    refine Text.no_surrogate_trim _ ?_
    cases given : step.id with
    | none => rfl
    | some id => exact clean id (by simp [texts, given])

theorem Plan.step_encodable (clean : Encodable plan.texts) (step : PlanStep) (member : step ∈ plan.steps) :
    Encodable step.texts :=
  fun t inside => clean t (List.mem_flatMap.mpr ⟨step, member, inside⟩)

theorem Plan.recorded_clean (clean : Encodable plan.texts) (index : Nat) (output : StepOutput)
    (member : output ∈ plan.outputsBefore index) :
    output.key.hasSurrogate = false ∧ output.node.hasSurrogate = false := by
  obtain ⟨i, step, _, found, rfl⟩ := (plan.mem_outputs_before index output).mp member
  exact ⟨step.key_clean i (plan.step_encodable clean step (List.mem_of_getElem? found)), step.output_clean i⟩

theorem Plan.terminals_encodable (clean : Encodable plan.texts) : Encodable plan.terminals := by
  intro id member
  obtain ⟨output, recorded, rfl⟩ := plan.terminals_recorded id member
  exact (plan.recorded_clean clean _ output recorded).2

theorem Context.agent_encodable (clean : Encodable context.texts) (name : Text) (agent : Agent)
    (found : context.agents.find? name = some agent) : Encodable agent.texts := by
  intro t inside
  refine clean t (List.mem_append_left _ (List.mem_flatMap.mpr ⟨(name, agent), Table.mem_of_get name _ agent found, ?_⟩))
  exact List.mem_cons_of_mem _ inside

theorem Agent.tool_names_encodable (agent : Agent) (configured : List Text) (own : Encodable agent.texts)
    (clean : Encodable context.texts) (plain : Encodable configured) : Encodable (agent.toolNames context configured) := by
  rw [Context.texts, encodable_append, encodable_append, encodable_append] at clean
  rw [toolNames]
  split
  · exact ((encodable_append _ _).mp own).2
  · split
    · exact clean.2.2
    · split
      · exact clean.2.1.2
      · exact plain

theorem Selection.placed_printable (selection : Selection) (configured : List Text) (prompt : Text) (sources : List Text)
    (clean : Encodable context.texts) (plain : Encodable configured) (cleanPrompt : prompt.hasSurrogate = false)
    (cleanSources : Encodable sources) (usable : selection.Usable context configured) :
    (selection.placed context configured prompt sources).Printable := by
  obtain ⟨agent, known, _⟩ := usable.known
  have own := context.agent_encodable clean _ agent known
  have tools := agent.tool_names_encodable context configured own clean plain
  have request : selection.request context configured prompt =
      Plan.agentRequest agent prompt (distinct (agent.toolNames context configured)) := by
    simp only [Selection.request, known]
  have spoken := agent_request_spoken agent prompt (distinct (agent.toolNames context configured))
  have system : ∀ t ∈ (agent.systemPrompt.trim.orAbsent).toList, t.hasSurrogate = false := by
    intro t member
    have trimmed : t = agent.systemPrompt.trim := by
      by_cases empty : agent.systemPrompt.trim.isEmpty = true <;> simp_all [Text.orAbsent]
    rw [trimmed]
    exact Text.no_surrogate_trim _ (own _ (by simp [Agent.texts]))
  refine ⟨NodeId.agent_no_surrogate _, cleanSources, fun nulls => ?_, ?_⟩
  · simp only [Selection.placed, Action.entries, request]
    refine writable_spoken nulls _ _ spoken system ?_ fun name member => tools name ((mem_distinct _ _).mp member)
    intro t member
    rw [List.mem_singleton.mp member]
    exact cleanPrompt
  · simp only [Selection.placed, Node.freeform, Action.freeform, request]
    exact spoken_freeform _ _ spoken

theorem Plan.Synthesis.model_encodable (given : Encodable job.texts) (plain : Encodable settings.texts) :
    ∀ t ∈ (modelFor settings job).toList, t.hasSurrogate = false := by
  intro t member
  have configured := ((encodable_append _ _).mp ((encodable_append _ _).mp plain).1).2
  cases asked : job.model.bind Text.orAbsent with
  | none =>
      rw [modelFor, asked] at member
      exact configured t member
  | some model =>
      rw [modelFor, asked] at member
      obtain ⟨text, at_model, kept⟩ := Option.bind_eq_some_iff.mp asked
      have same : model = text := by
        by_cases empty : text.isEmpty = true <;> simp_all [Text.orAbsent]
      rw [List.mem_singleton.mp member, same]
      exact ((encodable_append _ _).mp given).2 text (by simp [at_model])

theorem Draft.name_encodable (given : Encodable job.texts) :
    ∀ t ∈ (trimmedName job.name).toList, t.hasSurrogate = false := by
  intro t member
  have trimmed : t = (job.name.getD []).trim := by
    by_cases empty : (job.name.getD []).trim.isEmpty = true <;> simp_all [trimmedName, Text.orAbsent]
  rw [trimmed]
  refine Text.no_surrogate_trim _ ?_
  cases named : job.name with
  | none => rfl
  | some name => exact given name (by simp [Job.texts, named])

variable (clean : Encodable (plan.texts ++ context.texts ++ job.texts)) (plain : Encodable settings.texts)

include clean plain

theorem Plan.layout_printable (fits : plan.Sketchable context settings job) :
    ∀ p ∈ plan.layout context settings job, p.Printable := by
  simp only [encodable_append] at clean
  obtain ⟨⟨cleanPlan, cleanContext⟩, cleanJob⟩ := clean
  have instructions := cleanJob job.instructions (by simp [Job.texts])
  have task := cleanJob job.task (by simp [Job.texts])
  have tools : Encodable settings.defaultTools := ((encodable_append _ _).mp plain).2
  intro p member
  cases (plan.mem_layout_iff context settings job p).mp member with
  | agent i step selection found selected =>
      have resolved : ∀ d ∈ plan.resolved i step, d.key.hasSurrogate = false ∧ d.node.hasSurrogate = false :=
        fun d given => plan.recorded_clean cleanPlan i _ (plan.resolved_recorded i step d given)
      refine selection.placed_printable context _ _ _ cleanContext tools
        (Prompt.agent_clean _ _ _ instructions task resolved) ?_ ((fits.ready i step found).usable selection selected)
      intro id waits
      obtain ⟨d, given, rfl⟩ := List.mem_map.mp waits
      exact (resolved d given).2
  | join i step found joined =>
      refine ⟨?_, ?_, fun _ => writable_entries_nil, rfl⟩
      · rw [Placed.id_of]
        exact NodeId.join_no_surrogate _
      · intro source waits
        obtain ⟨selection, _, rfl⟩ := List.mem_map.mp waits
        exact NodeId.agent_no_surrogate _
  | last =>
      have terminals := plan.terminals_encodable cleanPlan
      have spoken := synthesis_request_spoken job plan.terminals
      refine ⟨fits.nameable.node.2, terminals, fun nulls => ?_, spoken_freeform _ _ spoken⟩
      refine writable_spoken nulls _ _ spoken nofun ?_ nofun
      intro t member
      rw [List.mem_singleton.mp member]
      exact Prompt.synthesis_clean _ _ _ instructions task terminals

theorem Plan.compiled_payload_writable (fits : plan.Compilable context settings job) :
    Json.Canonical.Writable (plan.compiled context settings job).toPayload := by
  have given : Encodable job.texts := ((encodable_append _ _).mp clean).2
  have printable := plan.layout_printable context settings job clean plain fits.sketchable
  have bound : Json.Canonical.Writable (Json.ofInt? plan.maxParallelism) := by
    cases given : plan.maxParallelism with
    | none => trivial
    | some n =>
        have positive := fits.valid.parallel n given
        have limited := fits.bounded n given
        simp only [Schema.integerLimit] at limited
        simp only [Json.ofInt?, Json.Canonical.Writable, Json.Canonical.safeLimit]
        omega
  have nodes : Json.Canonical.Writable (Json.ofList (Node.toJson .dropped) (plan.compiled context settings job).nodes) := by
    refine writable_list _ _ fun node member => ?_
    obtain ⟨p, inside, rfl⟩ := List.mem_map.mp member
    exact p.settled_writable (printable p inside) .dropped
  have outputs : Json.Canonical.Writable (Json.ofList (OutputRef.toJson .dropped) (plan.compiled context settings job).outputs) := by
    refine writable_list _ _ fun output member => ?_
    rw [List.mem_singleton.mp member]
    exact writable_output .dropped _ fits.sketchable.nameable.output.2 fits.sketchable.nameable.node.2 rfl
  have entries : WritableEntries ((plan.compiled context settings job).entries .dropped) := by
    refine writable_entries_cons _ _ _ (Text.has_surrogate_of_string _) ?_
    refine writable_entries_cons _ _ _ (writable_text _ (Draft.name_encodable job given)) ?_
    refine writable_entries_cons _ _ _ (writable_text _ (Synthesis.model_encodable settings job given plain)) ?_
    refine writable_entries_cons _ _ _ bound (writable_entries_cons _ _ _ nodes ?_)
    refine writable_entries_cons _ _ _ trivial ?_
    exact writable_entries_cons _ _ _ outputs writable_entries_nil
  exact writable_record _ _ fun entry member => entries entry (List.mem_filter.mp member).1

theorem Plan.compiled_digest (fits : plan.Compilable context settings job) :
    ∃ digest, (plan.compiled context settings job).digest = .ok digest := by
  have printable := plan.layout_printable context settings job clean plain fits.sketchable
  have freeform : (plan.compiled context settings job).freeform = [] := by
    simp only [Spec.freeform, compiled, specified, List.flatMap_nil, List.append_nil, List.flatMap_eq_nil_iff]
    intro node member
    obtain ⟨p, inside, rfl⟩ := List.mem_map.mp member
    exact (printable p inside).freeform
  exact digest_of_writable _ freeform (plan.compiled_payload_writable context settings job clean plain fits)

end

end PlanFlow
