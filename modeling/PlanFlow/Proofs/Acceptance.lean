import PlanFlow.Proofs.Checked
import PlanFlow.Proofs.Digest
import PlanFlow.Proofs.Naming

/-!
Exactly which plans compile under the standard settings, and which errors are left once a plan is valid: only
those about ids made from names, and about tools. Nothing behind the synthesizer can fail any more.
-/

set_option autoImplicit false

namespace PlanFlow

inductive CompileError.OfNames : CompileError → Prop where
  | agent (agent : Text) : OfNames (.unusableAgentId agent)
  | step (step : Text) : OfNames (.unusableStepId step)
  | taken (node : Text) (index : Option Nat) (agent : Option Text) : OfNames (.nodeIdTaken node index agent)
  | tool (agent tool : Text) : OfNames (.unknownAgentTool agent tool)

theorem of_agent_error (name : Text) (e : CompileError) (failed : NodeId.ofAgent name = .error e) : e.OfNames := by
  by_cases unusable : NodeId.token name = []
  · rw [NodeId.of_agent_unusable name unusable, Except.error.injEq] at failed
    exact failed ▸ .agent name
  · rw [NodeId.of_agent_usable name unusable] at failed
    cases failed

theorem of_join_error (key : Text) (e : CompileError) (failed : NodeId.ofJoin key = .error e) : e.OfNames := by
  by_cases unusable : NodeId.token key = []
  · rw [NodeId.of_join_unusable key unusable, Except.error.injEq] at failed
    exact failed ▸ .step key
  · rw [NodeId.of_join_usable key unusable] at failed
    cases failed

theorem claim_error (s : Sketch) (id : Text) (index : Option Nat) (agent : Option Text) (e : CompileError)
    (failed : s.claim id index agent = .error e) : e.OfNames := by
  by_cases taken : id ∈ s.nodes.map Node.id
  · simp only [Sketch.claim, List.contains_iff_mem, taken, if_true, Except.error.injEq] at failed
    exact failed ▸ .taken id index agent
  · rw [(s.claim_eq_ok id index agent ()).mpr taken] at failed
    cases failed

theorem resolve_tools_error (agent : Agent) (context : Context) (configured : List Text) (e : CompileError)
    (failed : agent.resolveTools context configured = .error e) : e.OfNames := by
  cases foreign : (agent.toolNames context configured).find? fun name => !context.tools.isAllowed name with
  | none => simp [Agent.resolveTools, foreign] at failed
  | some tool =>
      simp only [Agent.resolveTools, foreign, Except.error.injEq] at failed
      exact failed ▸ .tool agent.name tool

namespace Plan

section

variable (plan : Plan) (context : Context) (configured : List Text) (job : Job)

theorem add_agent_error (prompt : Text) (sources : List Text) (index : Nat) (s : Sketch) (selection : Selection)
    (known : ∃ agent, context.agents.find? selection.id.trim = some agent) (e : CompileError)
    (failed : addAgent context configured prompt sources index s selection = .error e) : e.OfNames := by
  obtain ⟨agent, found⟩ := known
  rw [addAgent, (agent_get_eq_ok _ _ _).mpr found, ok_bind, bind_eq_error] at failed
  rcases failed with unusable | ⟨id, _, failed⟩
  · exact of_agent_error _ e unusable
  · rcases (bind_eq_error _ _ _).mp failed with taken | ⟨_, _, failed⟩
    · exact claim_error s id _ _ e taken
    · rcases (bind_eq_error _ _ _).mp failed with foreign | ⟨_, _, done⟩
      · exact resolve_tools_error agent context configured e foreign
      · cases done

theorem add_agents_stopped (prompt : Text) (sources : List Text) (index : Nat) (s : Sketch) (selections : List Selection)
    (e : CompileError) (failed : addAgents context configured prompt sources index s selections = .error e) :
    ∃ state, ∃ selection ∈ selections, addAgent context configured prompt sources index state selection = .error e := by
  induction selections generalizing s with
  | nil => cases failed
  | cons head tail ih =>
      rw [add_agents_cons, bind_eq_error] at failed
      rcases failed with first | ⟨next, _, failed⟩
      · exact ⟨s, head, List.mem_cons_self, first⟩
      · rcases (bind_eq_error _ _ _).mp failed with rest | ⟨_, _, done⟩
        · obtain ⟨state, selection, member, stopped⟩ := ih next.1 rest
          exact ⟨state, selection, List.mem_cons_of_mem head member, stopped⟩
        · cases done

theorem add_agents_error (prompt : Text) (sources : List Text) (index : Nat) (s : Sketch) (selections : List Selection)
    (known : ∀ selection ∈ selections, ∃ agent, context.agents.find? selection.id.trim = some agent) (e : CompileError)
    (failed : addAgents context configured prompt sources index s selections = .error e) : e.OfNames := by
  obtain ⟨state, selection, member, stopped⟩ := add_agents_stopped context configured prompt sources index s selections e failed
  exact add_agent_error context configured prompt sources index state selection (known selection member) e stopped

theorem join_agents_error (s : Sketch) (index : Nat) (key : Text) (ids : List Text) (staffed : ids ≠ []) (e : CompileError)
    (failed : joinAgents s index key ids = .error e) : e.OfNames := by
  match ids with
  | [] => exact absurd rfl staffed
  | [_] => cases failed
  | _ :: _ :: _ =>
      rcases (bind_eq_error _ _ _).mp failed with unusable | ⟨id, _, failed⟩
      · exact of_join_error key e unusable
      · rcases (bind_eq_error _ _ _).mp failed with taken | ⟨_, _, done⟩
        · exact claim_error s id _ _ e taken
        · cases done

variable (valid : plan.Valid context.agents)

include valid

theorem add_step_error (index : Nat) (step : PlanStep) (found : plan.steps[index]? = some step)
    (unique : (plan.layoutIdsBefore index).Nodup) (e : CompileError)
    (failed : plan.addStep context configured job (plan.sketchBefore context configured job index) index step = .error e) :
    e.OfNames := by
  have member := List.mem_of_getElem? found
  obtain ⟨dependencies, resolves⟩ := plan.dependencies_found context.agents valid context configured job index step found
  rw [addStep, resolves, ok_bind, bind_eq_error] at failed
  rcases failed with agents | ⟨⟨s, ids⟩, added, failed⟩
  · refine add_agents_error context configured _ _ index _ step.agents (fun selection selected => ?_) e agents
    obtain ⟨agent, known, _⟩ := (valid.acceptable step member selection selected).known
    exact ⟨agent, known⟩
  · have given : ids = step.nodeIds := ((add_agents_eq_ok context configured _ _ index _ s step.agents ids (by
      rw [sketch_ids]
      exact unique)).mp added).2.2.2
    have staffed : ids ≠ [] := by
      rw [given, PlanStep.nodeIds, ne_eq, List.map_eq_nil_iff]
      exact valid.staffed step member
    rcases (bind_eq_error _ _ _).mp failed with join | ⟨_, _, done⟩
    · exact join_agents_error s index _ ids staffed e join
    · cases done

-- By the same invariant as for runs that succeed: the steps so far have given their layout.
theorem add_steps_error (index : Nat) (steps : List PlanStep) (rest : plan.steps.drop index = steps)
    (unique : (plan.layoutIdsBefore index).Nodup) (e : CompileError)
    (failed : plan.addSteps context configured job (plan.sketchBefore context configured job index) index steps = .error e) :
    e.OfNames := by
  induction steps generalizing index with
  | nil => cases failed
  | cons step tail ih =>
      obtain ⟨found, next⟩ := plan.steps_left index step tail rest
      rw [add_steps_cons, bind_eq_error] at failed
      rcases failed with here | ⟨s, added, later⟩
      · exact plan.add_step_error context configured job valid index step found unique e here
      · obtain ⟨_, grown, rfl⟩ := (plan.add_step_eq_ok context configured job index step s found unique).mp added
        exact ih (index + 1) next grown later

theorem sketch_error (failure : Failure) (failed : plan.sketch context .standard job = .error failure) :
    ∃ e, failure = .rejected e ∧ e.OfNames := by
  rcases (bind_eq_error _ _ _).mp failed with steps | ⟨s, _, failed⟩
  · obtain ⟨e, stopped, rfl⟩ := (map_error_eq_error _ _ _).mp steps
    exact ⟨e, rfl, plan.add_steps_error context _ job valid 0 plan.steps rfl List.nodup_nil e stopped⟩
  · rcases (bind_eq_error _ _ _).mp failed with taken | ⟨_, _, failed⟩
    · obtain ⟨e, stopped, rfl⟩ := (map_error_eq_error _ _ _).mp taken
      exact ⟨e, rfl, claim_error s _ _ _ e stopped⟩
    · rw [(configured_name_eq_ok _ _ _).mpr ⟨standard_nameable.node.1, standard_nameable.node.2, rfl⟩, ok_bind,
        (configured_name_eq_ok _ _ _).mpr ⟨standard_nameable.output.1, standard_nameable.output.2, rfl⟩] at failed
      cases failed

end

section

variable (payload : Payload Plan) (context : Context) (job : Job) (plan : Plan) (given : Plan.read payload = .ok plan)
  (parsed : plan.Parsed) (clean : Encodable (plan.texts ++ context.texts ++ job.texts))

include given parsed clean

theorem compile_of_sketchable (valid : plan.Valid context.agents) (fits : plan.Sketchable context .standard job) :
    compile payload context .standard job = .ok (plan.compiled context .standard job) := by
  have compilable : plan.Compilable context .standard job := ⟨valid, fits, plan.parsed_bounded parsed⟩
  exact (compile_eq_ok payload context .standard job _).mpr
    ⟨plan, given, compilable, rfl, plan.compiled_digest context .standard job clean standard_encodable compilable⟩

theorem compile_ok_iff : (∃ spec, compile payload context .standard job = .ok spec) ↔
    plan.Valid context.agents ∧ plan.Sketchable context .standard job := by
  constructor
  · rintro ⟨spec, compiled⟩
    obtain ⟨other, read, fits, _⟩ := (compile_eq_ok payload context .standard job spec).mp compiled
    obtain rfl : plan = other := Except.ok.inj (given.symm.trans read)
    exact ⟨fits.valid, fits.sketchable⟩
  · rintro ⟨valid, fits⟩
    exact ⟨_, compile_of_sketchable payload context job plan given parsed clean valid fits⟩

theorem compile_error_of_valid (valid : plan.Valid context.agents) (failure : Failure)
    (failed : compile payload context .standard job = .error failure) : ∃ e, failure = .rejected e ∧ e.OfNames := by
  cases outcome : plan.sketch context .standard job with
  | error other =>
      have first : compile payload context .standard job = .error other := by
        rw [compile, given, ok_bind, (validate_eq_ok plan context.agents _).mpr ⟨valid, rfl⟩]
        change (plan.synthesize context .standard job >>= _) = _
        rw [synthesize, outcome]
        rfl
      obtain rfl : failure = other := Except.error.inj (failed.symm.trans first)
      exact plan.sketch_error context job valid failure outcome
  | ok s =>
      have fits := ((plan.sketch_eq_ok context .standard job s).mp outcome).1
      rw [compile_of_sketchable payload context job plan given parsed clean valid fits] at failed
      cases failed

end

end Plan

theorem CompileError.of_names_kind (e : CompileError) (names : e.OfNames) :
    e.kind = .invalidPlan ∨ e.kind = .unknownTool := by
  cases names with
  | agent => exact Or.inl rfl
  | step => exact Or.inl rfl
  | taken => exact Or.inl rfl
  | tool => exact Or.inr rfl

theorem compile_standard_outcome (payload : Payload Plan) (context : Context) (job : Job) (plan : Plan)
    (given : Plan.read payload = .ok plan) (parsed : plan.Parsed)
    (clean : Encodable (plan.texts ++ context.texts ++ job.texts)) :
    ((∃ spec, compile payload context .standard job = .ok spec) ↔
      (∃ agents, plan.validate context.agents = .ok agents) ∧ plan.Named ∧
        plan.Equipped context Settings.standard.defaultTools) ∧
    ∀ agents failure, plan.validate context.agents = .ok agents →
      compile payload context .standard job = .error failure →
        ∃ e, failure = .rejected e ∧ e.OfNames ∧ (e.kind = .invalidPlan ∨ e.kind = .unknownTool) := by
  constructor
  · rw [Plan.compile_ok_iff payload context job plan given parsed clean]
    simp only [Plan.validate_eq_ok]
    constructor
    · rintro ⟨valid, fits⟩
      exact ⟨⟨_, valid, rfl⟩, plan.named_of_sketchable context job fits,
        plan.equipped_of_sketchable context .standard job fits⟩
    · rintro ⟨⟨_, valid, _⟩, named, equipped⟩
      exact ⟨valid, plan.sketchable_of_named context job valid named equipped⟩
  · intro agents failure accepted failed
    have valid := ((Plan.validate_eq_ok plan context.agents agents).mp accepted).1
    obtain ⟨e, same, names⟩ := Plan.compile_error_of_valid payload context job plan given parsed clean valid failure failed
    exact ⟨e, same, names, e.of_names_kind names⟩

def Sample.withoutTools : Context := ⟨agents, ⟨[], []⟩, []⟩

set_option maxRecDepth 100000 in
theorem sample_standard_outcome : Sample.plan.Named ∧ Sample.plan.Equipped Sample.context Settings.standard.defaultTools ∧
    ∃ e, compile (.parsed Sample.plan) Sample.withoutTools .standard Sample.job = .error (.rejected e) ∧ e.OfNames := by
  have parsed : Sample.plan.Parsed := ⟨Plan.toJson Sample.plan, rfl⟩
  have clean : ∀ t ∈ Sample.plan.texts ++ Sample.context.texts ++ Sample.job.texts, t.hasSurrogate = false := by
    decide +kernel
  have cleanToo : ∀ t ∈ Sample.plan.texts ++ Sample.withoutTools.texts ++ Sample.job.texts, t.hasSurrogate = false := by
    decide +kernel
  obtain ⟨⟨agents, accepted⟩, named, equipped⟩ :=
    (compile_standard_outcome (.parsed Sample.plan) Sample.context Sample.job Sample.plan rfl parsed clean).1.mp Sample.compiles
  have refused : (compile (.parsed Sample.plan) Sample.withoutTools .standard Sample.job).isOk = false := by decide +kernel
  cases outcome : compile (.parsed Sample.plan) Sample.withoutTools .standard Sample.job with
  | ok spec =>
      rw [outcome] at refused
      cases refused
  | error failure =>
      obtain ⟨e, rfl, names, _⟩ := (compile_standard_outcome (.parsed Sample.plan) Sample.withoutTools Sample.job Sample.plan
        rfl parsed cleanToo).2 agents failure accepted outcome
      exact ⟨named, equipped, e, rfl, names⟩

end PlanFlow
