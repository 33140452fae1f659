import PlanFlow.Proofs.Chaining
import PlanFlow.Proofs.Scheduling

/-!
What the prompts of compiled nodes list. The list in a prompt and the dependencies of its node are made apart from
each other, and the builder sorts and shortens the dependencies; they agree because distinct keys have distinct
outputs.
-/

set_option autoImplicit false

namespace PlanFlow

namespace Prompt

def enumerated (heading : Text) (entries : List Text) : Text :=
  if entries.isEmpty then [] else ("\n\n" : Text) ++ heading ++ entries.flatMap fun entry => ("\n- " : Text) ++ entry

def agentText (instructions task : Text) (dependencies : List Dependency) : Text :=
  (if instructions.trim.isEmpty then [] else instructions.trim ++ ("\n" : Text)) ++ ("USER_TASK:\n" : Text) ++ task.trim ++
    enumerated "PREVIOUS_STEP_OUTPUTS:"
      (dependencies.map fun d => d.key ++ (": \x7b\x7b" : Text) ++ d.node ++ ("\x7d\x7d" : Text))

def synthesisText (instructions task : Text) (outputs : List Text) : Text :=
  ("Synthesize the results and complete the task." : Text) ++
    (if instructions.trim.isEmpty then [] else ("\n\nCOMMAND:\n" : Text) ++ instructions.trim) ++ ("\n\nUSER_TASK:\n" : Text) ++
    task.trim ++ enumerated "RESULTS:" (outputs.map fun node => ("\x7b\x7b" : Text) ++ node ++ ("\x7d\x7d" : Text))

theorem join_eq (separator first : Text) (rest : List Text) :
    Text.join separator (first :: rest) = first ++ rest.flatMap fun part => separator ++ part := by
  induction rest generalizing first with
  | nil => exact (List.append_nil first).symm
  | cons next others ih =>
      rw [Text.join, ih, List.flatMap_cons, List.append_assoc, List.append_assoc]
      exact List.cons_ne_nil next others

theorem enumerated_lines (heading : Text) (entries : List Text) :
    (unlessEmpty (entries.map fun entry => ("- " : Text) ++ entry) ["", heading]).flatMap (fun part => ("\n" : Text) ++ part) =
      enumerated heading entries := by
  cases entries with
  | nil => rfl
  | cons first others =>
      have opening : [("" : Text), heading].flatMap (fun part => ("\n" : Text) ++ part) = ("\n\n" : Text) ++ heading :=
        congrArg (("\n\n" : Text) ++ ·) (List.append_nil heading)
      rw [unlessEmpty, enumerated, List.isEmpty_map, if_neg nofun, if_neg nofun, List.flatMap_append, List.flatMap_map, opening]
      rfl

theorem dependency_line (d : Dependency) :
    d.line = ("- " : Text) ++ (d.key ++ (": \x7b\x7b" : Text) ++ d.node ++ ("\x7d\x7d" : Text)) := by
  simp only [Dependency.line, placeholder, Text.concat, List.flatten_cons, List.flatten_nil, List.append_nil, List.append_assoc]
  rfl

theorem output_line (node : Text) :
    outputLine node = ("- " : Text) ++ (("\x7b\x7b" : Text) ++ node ++ ("\x7d\x7d" : Text)) := by
  simp only [outputLine, placeholder, Text.concat, List.flatten_cons, List.flatten_nil, List.append_nil, List.append_assoc]

theorem agent_text (instructions task : Text) (dependencies : List Dependency) :
    agent instructions task dependencies = agentText instructions task dependencies := by
  rw [agent, agentText, ← enumerated_lines, List.map_map, List.map_congr_left fun d _ => dependency_line d, lines]
  by_cases blank : instructions.trim.isEmpty = true
  · simp only [unlessBlank, blank, if_true, List.flatten_cons, List.flatten_nil, List.append_nil, List.nil_append,
      List.cons_append, join_eq]
    rfl
  · simp only [unlessBlank, blank, Bool.false_eq_true, if_false, List.flatten_cons, List.flatten_nil, List.append_nil,
      List.nil_append, List.cons_append, List.append_assoc, join_eq]
    rfl

theorem synthesis_text (instructions task : Text) (outputs : List Text) :
    synthesis instructions task outputs = synthesisText instructions task outputs := by
  rw [synthesis, synthesisText, ← enumerated_lines, List.map_map, List.map_congr_left fun node _ => output_line node, lines]
  by_cases blank : instructions.trim.isEmpty = true
  · simp only [unlessBlank, blank, if_true, List.flatten_cons, List.flatten_nil, List.append_nil, List.nil_append,
      List.cons_append, join_eq]
    rfl
  · simp only [unlessBlank, blank, Bool.false_eq_true, if_false, List.flatten_cons, List.flatten_nil, List.append_nil,
      List.cons_append, List.append_assoc, join_eq]
    rfl

end Prompt

def Node.prompt? (node : Node) : Option Text :=
  match node.action with
  | .request _ request => request.user
  | _ => none

theorem Spec.node_of_member (spec : Spec) (unique : spec.nodeIds.Nodup) (node : Node) (member : node ∈ spec.nodes) :
    spec.node? node.id = some node := by
  cases found : spec.node? node.id with
  | none => simpa using List.find?_eq_none.mp found node member
  | some other =>
      have same : other.id = node.id := by simpa using List.find?_some found
      rw [List.inj_on_of_nodup_map unique (List.mem_of_find?_eq_some found) member same]

theorem Placed.settled_dependencies (p : Placed) : p.settled.dependsOn.getD [] = canonicalDependencies p.sources := by
  by_cases empty : canonicalDependencies p.sources = [] <;> simp [settled, empty]

theorem Selection.placed_prompt (selection : Selection) (context : Context) (configured : List Text) (prompt : Text)
    (sources : List Text) (usable : selection.Usable context configured) :
    (selection.placed context configured prompt sources).settled.prompt? = some prompt := by
  obtain ⟨agent, known, _⟩ := usable.known
  simp [Node.prompt?, Placed.settled, placed, request, known, Plan.agentRequest]

namespace Plan

def namedKeys (plan : Plan) (i : Nat) (step : PlanStep) : List Text :=
  if plan.isExplicit then (step.dependencies.map Text.trim).eraseDups else (plan.keyBefore? i).toList

-- A list of what a step builds on: the keys in the order in which they are named, each with the output of its step.
structure Listing (plan : Plan) (i : Nat) (step : PlanStep) (listed : List Prompt.Dependency) : Prop where
  keys : listed.map Prompt.Dependency.key = plan.namedKeys i step
  once : (listed.map Prompt.Dependency.key).Nodup
  outputs : ∀ d ∈ listed, ∃ (j : Nat) (source : PlanStep),
    plan.Follows i j ∧ plan.steps[j]? = some source ∧ d = ⟨source.key j, source.outputId j⟩

section

variable (plan : Plan)

theorem named_keys_nodup (i : Nat) (step : PlanStep) : (plan.namedKeys i step).Nodup := by
  by_cases explicit : plan.isExplicit = true
  · rw [namedKeys, if_pos explicit, ← distinct_eq_erase_dups]
    exact distinct_nodup _
  · rw [namedKeys, if_neg explicit]
    exact Option.toList_nodup _

theorem dependencies_keys (context : Context) (configured : List Text) (job : Job) (i : Nat) (step : PlanStep)
    (found : plan.steps[i]? = some step) (answer : List Prompt.Dependency)
    (resolves : plan.dependencies (plan.sketchBefore context configured job i) i step = .ok answer) :
    answer.map Prompt.Dependency.key = plan.namedKeys i step := by
  by_cases explicit : plan.isExplicit = true
  · rw [dependencies, if_pos explicit, map_m_eq_ok] at resolves
    rw [namedKeys, if_pos explicit, ← distinct_eq_erase_dups]
    generalize distinct (step.dependencies.map Text.trim) = keys at resolves ⊢
    induction resolves with
    | nil => rfl
    | cons first _ ih =>
        obtain ⟨_, _, _, _, _, rfl⟩ := (plan.dependency_eq_ok _ _ _ _).mp first
        rw [List.map_cons, ih]
  · rw [dependencies, if_neg explicit, Except.ok.injEq] at resolves
    rw [namedKeys, if_neg explicit, ← resolves]
    cases i with
    | zero => rfl
    | succ before =>
        have below : before < plan.steps.length := Nat.lt_of_succ_lt (List.getElem?_eq_some_iff.mp found).1
        have at_before := List.getElem?_eq_getElem below
        have last : (plan.sketchBefore context configured job (before + 1)).outputs.getLast? = _ :=
          plan.last_output before _ at_before
        simp [last, keyBefore?, stepKeys, at_before, PlanStep.output]

theorem resolved_outputs (registry : AgentRegistry) (valid : plan.Valid registry) (i : Nat) (step : PlanStep)
    (found : plan.steps[i]? = some step) (d : Prompt.Dependency) (member : d ∈ plan.resolved i step) :
    ∃ (j : Nat) (source : PlanStep),
      plan.Follows i j ∧ plan.steps[j]? = some source ∧ d = ⟨source.key j, source.outputId j⟩ := by
  by_cases explicit : plan.isExplicit = true
  · simp only [resolved, if_pos explicit, List.mem_filterMap, mem_distinct, Option.map_eq_some_iff] at member
    obtain ⟨key, named, node, latest, rfl⟩ := member
    obtain ⟨j, source, _, at_source, rfl, rfl⟩ := (plan.latest_eq_some registry valid explicit i key node).mp latest
    refine ⟨j, source, (plan.follows_of_explicit explicit i j).mpr ⟨step, source, found, at_source, named⟩, at_source, ?_⟩
    rw [(plan.explicit_key registry valid explicit j source at_source).1]
  · simp only [resolved, if_neg explicit, List.mem_map, Option.mem_toList] at member
    obtain ⟨output, last, rfl⟩ := member
    have bound := (List.getElem?_eq_some_iff.mp found).1
    cases i with
    | zero => cases last
    | succ j =>
        have at_source := List.getElem?_eq_getElem (Nat.lt_of_succ_lt bound)
        obtain rfl := Option.some.inj ((plan.last_output j _ at_source).symm.trans last)
        exact ⟨j, _, (plan.follows_of_implicit explicit _ j).mpr ⟨rfl, bound⟩, at_source, rfl⟩

theorem resolved_listing (context : Context) (settings : Settings) (job : Job)
    (fits : plan.Compilable context settings job) (i : Nat) (step : PlanStep) (found : plan.steps[i]? = some step) :
    plan.Listing i step (plan.resolved i step) := by
  obtain ⟨answer, resolves⟩ := (fits.sketchable.ready i step found).resolves
  obtain rfl := plan.dependencies_resolved context settings.defaultTools job i step answer resolves
  have keys := plan.dependencies_keys context settings.defaultTools job i step found _ resolves
  exact ⟨keys, keys ▸ plan.named_keys_nodup i step, plan.resolved_outputs context.agents fits.valid i step found⟩

section

variable (context : Context) (settings : Settings) (valid : plan.Valid context.agents)
  (unique : (plan.layoutIds settings).Nodup)

include valid unique

theorem output_owner (i j : Nat) (a b : PlanStep) (at_a : plan.steps[i]? = some a) (at_b : plan.steps[j]? = some b)
    (same : a.outputId i = b.outputId j) : i = j ∧ a = b := by
  have owned := plan.owns_output context valid i a at_a
  obtain rfl := plan.owner_unique settings unique i j _ owned (same ▸ plan.owns_output context valid j b at_b)
  exact ⟨rfl, Option.some.inj (at_a.symm.trans at_b)⟩

theorem listed_nodes_nodup (i : Nat) (step : PlanStep) (listed : List Prompt.Dependency)
    (listing : plan.Listing i step listed) : (listed.map Prompt.Dependency.node).Nodup := by
  refine List.Nodup.map_on (fun d member e other same => ?_) listing.once.of_map
  obtain ⟨j, source, _, at_source, rfl⟩ := listing.outputs d member
  obtain ⟨k, _, _, at_other, rfl⟩ := listing.outputs e other
  obtain ⟨rfl, rfl⟩ := plan.output_owner context settings valid unique j k _ _ at_source at_other same
  rfl

theorem outputs_nodup : (plan.steps.mapIdx fun index step => step.outputId index).Nodup := by
  rw [List.mapIdx_eq_zipIdx_map]
  refine List.Nodup.map_on (fun first member second other same => ?_) (List.nodup_zipIdx_map_snd plan.steps).of_map
  have at_first := List.mem_zipIdx_iff_getElem?.mp member
  have at_second := List.mem_zipIdx_iff_getElem?.mp other
  obtain ⟨positions, steps⟩ := plan.output_owner context settings valid unique _ _ _ _ at_first at_second same
  exact Prod.ext steps positions

end

theorem terminals_sublist : plan.terminals.Sublist (plan.steps.mapIdx fun index step => step.outputId index) := by
  have outputs : (plan.entriesBefore plan.steps.length).map (fun entry => entry.1.outputId entry.2) =
      plan.steps.mapIdx fun index step => step.outputId index := by
    rw [entriesBefore, List.take_length, List.mapIdx_eq_zipIdx_map]
  rw [← outputs]
  by_cases explicit : plan.isExplicit = true
  · rw [terminals, terminalOutputs, if_pos explicit, keyed_outputs]
    dsimp only
    rw [List.filter_map, List.map_map]
    exact List.filter_sublist.map _
  · rw [terminals, terminalOutputs, if_neg explicit, outputsBefore, List.map_map]
    cases last : ((plan.entriesBefore plan.steps.length).map (StepOutput.node ∘ fun entry => entry.1.output entry.2)).getLast? with
    | none => exact List.nil_sublist _
    | some output => exact List.singleton_sublist.mpr (List.mem_of_getLast? last)

end

end Plan

theorem compile_prompts_agree (payload : Payload Plan) (context : Context) (settings : Settings) (job : Job) (plan : Plan)
    (spec : Spec) (given : Plan.read payload = .ok plan) (compiled : compile payload context settings job = .ok spec) :
    (∀ (i : Nat) (step : PlanStep) (selection : Selection), plan.steps[i]? = some step → selection ∈ step.agents →
      ∃ name node listed, NodeId.ofAgent selection.id.trim = .ok name ∧ spec.node? name = some node ∧
        plan.Listing i step listed ∧ node.prompt? = some (Prompt.agent job.instructions job.task listed) ∧
        Prompt.agent job.instructions job.task listed = Prompt.agentText job.instructions job.task listed ∧
        node.dependsOn.getD [] = sortOn id (listed.map Prompt.Dependency.node) ∧
        (node.dependsOn.getD []).length = listed.length) ∧
    ∃ last results, spec.nodes.getLast? = some last ∧ last.id = settings.synthesisNodeId ∧
      last.prompt? = some (Prompt.synthesis job.instructions job.task results) ∧
      Prompt.synthesis job.instructions job.task results = Prompt.synthesisText job.instructions job.task results ∧
      results.Sublist (plan.steps.mapIdx fun index step => step.outputId index) ∧
      results.Perm (last.dependsOn.getD []) := by
  obtain ⟨other, read, fits, rfl, _⟩ := (Plan.compile_eq_ok payload context settings job spec).mp compiled
  obtain rfl : plan = other := Except.ok.inj (given.symm.trans read)
  have unique := fits.sketchable.unique
  constructor
  · intro i step selection found selected
    have usable := (fits.sketchable.ready i step found).usable selection selected
    have listing := plan.resolved_listing context settings job fits i step found
    have apart := plan.listed_nodes_nodup context settings fits.valid unique i step _ listing
    have laid := (plan.mem_layout_iff context settings job _).mpr (.agent i step selection found selected)
    have waits := (Placed.settled_dependencies (selection.placed context settings.defaultTools
      (Prompt.agent job.instructions job.task (plan.resolved i step)) _)).trans (unique_of_nodup _ apart)
    have length := (congrArg List.length waits).trans ((sort_on_perm id _).length_eq.trans (List.length_map _))
    refine ⟨selection.nodeId, _, plan.resolved i step, (NodeId.of_agent_eq_ok _ _).mpr ⟨usable.token, rfl⟩, ?_, listing,
      selection.placed_prompt context settings.defaultTools _ _ usable, Prompt.agent_text _ _ _, waits, length⟩
    exact Spec.node_of_member _ (plan.compiled_ids_nodup context settings job fits) _ (List.mem_map.mpr ⟨_, laid, rfl⟩)
  · have once := plan.terminals_sublist.nodup (plan.outputs_nodup context settings fits.valid unique)
    have waits := (Placed.settled_dependencies (plan.synthesisPlaced settings job)).trans (unique_of_nodup _ once)
    refine ⟨_, plan.terminals, plan.compiled_last context settings job, rfl, rfl, Prompt.synthesis_text _ _ _,
      plan.terminals_sublist, ?_⟩
    rw [waits]
    exact (sort_on_perm id _).symm

def Sample.review : Plan :=
  ⟨none, [⟨some "root", [⟨"drafter", "writes"⟩], none⟩, ⟨some " left ", [⟨"checker", "knows"⟩], some [" root "]⟩,
    ⟨some "right", [⟨"editor", "polishes"⟩], some ["root", "left ", " root"]⟩]⟩

set_option maxRecDepth 100000 in
theorem sample_prompts_agree : ∃ spec node listed,
    compile (.parsed Sample.review) Sample.context .standard Sample.job = .ok spec ∧
    spec.node? (NodeId.agent "editor") = some node ∧ listed.map Prompt.Dependency.key = [("root" : Text), ("left" : Text)] ∧
    node.prompt? = some (Prompt.agentText Sample.job.instructions Sample.job.task listed) ∧
    (node.dependsOn.getD []).length = 2 := by
  have accepted : (compile (.parsed Sample.review) Sample.context .standard Sample.job).isOk = true := by decide +kernel
  cases answer : compile (.parsed Sample.review) Sample.context .standard Sample.job with
  | error e =>
      rw [answer] at accepted
      cases accepted
  | ok spec =>
      obtain ⟨name, node, listed, named, found, listing, prompt, text, _, length⟩ := (compile_prompts_agree
        (.parsed Sample.review) Sample.context .standard Sample.job Sample.review spec rfl answer).1 2 _ ⟨"editor", "polishes"⟩
        rfl (by decide)
      obtain rfl := ((NodeId.of_agent_eq_ok _ _).mp named).2
      have keys : listed.map Prompt.Dependency.key = [("root" : Text), ("left" : Text)] := listing.keys.trans (by decide +kernel)
      have count : listed.length = 2 := by simpa using congrArg List.length keys
      exact ⟨spec, node, listed, rfl, found, keys, text ▸ prompt, length.trans count⟩

end PlanFlow
