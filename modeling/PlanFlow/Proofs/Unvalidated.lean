import PlanFlow.Proofs.Acceptance

/-!
Plans that are laid out without having been validated. Keys of steps may repeat or be missing and dependencies may point
anywhere, but an output is only ever recorded for a step that was laid out before. So no edge leads back, and whatever is
laid out can be built.
-/

set_option autoImplicit false

namespace PlanFlow

inductive CompileError.OfLayout : CompileError → Prop where
  | names (e : CompileError) (given : e.OfNames) : OfLayout e
  | agent (name : Text) : OfLayout (.agentNotFound name)
  | unstaffed (index : Nat) : OfLayout (.stepWithoutAgents index)
  | output (index : Nat) (key : Text) : OfLayout (.missingOutput index key)

-- Outputs are recorded for steps before a position only, whichever keys these have.
def Sketch.Behind (s : Sketch) (plan : Plan) (index : Nat) : Prop :=
  ∀ output ∈ s.outputs, ∃ (j : Nat) (step : PlanStep), j < index ∧ plan.steps[j]? = some step ∧ output.key = step.key j

namespace Plan

section

variable (plan : Plan) (context : Context) (configured : List Text) (job : Job)

theorem add_agent_outputs (prompt : Text) (sources : List Text) (index : Nat) (s t : Sketch) (selection : Selection)
    (id : Text) (done : addAgent context configured prompt sources index s selection = .ok (t, id)) :
    t.outputs = s.outputs := by
  obtain ⟨_, _, rfl, _⟩ := (add_agent_eq_ok context configured prompt sources index s t selection id).mp done
  rfl

theorem add_agents_outputs (prompt : Text) (sources : List Text) (index : Nat) (s t : Sketch) (selections : List Selection)
    (ids : List Text) (done : addAgents context configured prompt sources index s selections = .ok (t, ids)) :
    t.outputs = s.outputs := by
  induction selections generalizing s ids with
  | nil =>
      obtain ⟨rfl, _⟩ := Prod.mk.inj (Except.ok.inj done)
      rfl
  | cons head tail ih =>
      rw [add_agents_cons] at done
      obtain ⟨⟨next, id⟩, added, done⟩ := (bind_eq_ok _ _ _).mp done
      obtain ⟨⟨last, others⟩, rest, done⟩ := (bind_eq_ok _ _ _).mp done
      obtain ⟨rfl, _⟩ := Prod.mk.inj (Except.ok.inj done)
      exact (ih next others rest).trans (add_agent_outputs context configured prompt sources index s next head id added)

theorem join_agents_outputs (s t : Sketch) (index : Nat) (key : Text) (ids : List Text) (id : Text)
    (done : joinAgents s index key ids = .ok (t, id)) : t.outputs = s.outputs := by
  match ids with
  | [] => cases done
  | [_] =>
      obtain ⟨rfl, _⟩ := Prod.mk.inj (Except.ok.inj done)
      rfl
  | _ :: _ :: _ =>
      obtain ⟨join, _, done⟩ := (bind_eq_ok _ _ _).mp done
      obtain ⟨_, _, done⟩ := (bind_eq_ok _ _ _).mp done
      obtain ⟨rfl, _⟩ := Prod.mk.inj (Except.ok.inj done)
      rfl

theorem add_step_outputs (index : Nat) (step : PlanStep) (s t : Sketch)
    (done : plan.addStep context configured job s index step = .ok t) :
    ∃ node, t.outputs = s.outputs ++ [⟨step.key index, node⟩] := by
  obtain ⟨dependencies, _, done⟩ := (bind_eq_ok _ _ _).mp done
  obtain ⟨⟨grown, ids⟩, agents, done⟩ := (bind_eq_ok _ _ _).mp done
  obtain ⟨⟨joined, id⟩, join, done⟩ := (bind_eq_ok _ _ _).mp done
  obtain rfl := (pure_eq_ok _ _).mp done
  refine ⟨id, ?_⟩
  rw [Sketch.addOutput, join_agents_outputs _ _ _ _ _ _ join, add_agents_outputs context configured _ _ _ _ _ _ _ agents]

theorem step_behind (index : Nat) (step : PlanStep) (found : plan.steps[index]? = some step) (s t : Sketch)
    (behind : s.Behind plan index) (done : plan.addStep context configured job s index step = .ok t) :
    t.Behind plan (index + 1) := by
  obtain ⟨node, outputs⟩ := plan.add_step_outputs context configured job index step s t done
  intro output member
  rw [outputs] at member
  rcases List.mem_append.mp member with earlier | own
  · obtain ⟨j, other, before, there, same⟩ := behind output earlier
    exact ⟨j, other, Nat.lt_succ_of_lt before, there, same⟩
  · rw [List.mem_singleton.mp own]
    exact ⟨index, step, Nat.lt_succ_self index, found, rfl⟩

-- By induction on the steps of the run; those that it leaves out follow them.
theorem steps_behind (index : Nat) (steps later : List PlanStep) (left : plan.steps.drop index = steps ++ later) (s t : Sketch)
    (behind : s.Behind plan index) (done : plan.addSteps context configured job s index steps = .ok t) :
    t.Behind plan (index + steps.length) := by
  induction steps generalizing index s with
  | nil =>
      obtain rfl := Except.ok.inj done
      exact behind
  | cons step tail ih =>
      obtain ⟨found, next⟩ := plan.steps_left index step (tail ++ later) left
      rw [add_steps_cons] at done
      obtain ⟨middle, here, done⟩ := (bind_eq_ok _ _ _).mp done
      have grown := ih (index + 1) next middle (plan.step_behind context configured job index step found s middle behind here) done
      rwa [List.length_cons, Nat.add_comm tail.length, ← Nat.add_assoc]

theorem recorded_position (index : Nat) (s : Sketch) (behind : s.Behind plan index) (key node : Text)
    (recorded : s.output? key = some node) : ∃ position, plan.position? key = some position ∧ position < index := by
  obtain ⟨j, step, before, found, rfl⟩ := behind _ (Sketch.latest_recorded _ key node recorded)
  obtain ⟨position, bound, first⟩ := plan.position_found j step found
  exact ⟨position, first, Nat.lt_of_le_of_lt bound before⟩

theorem dependency_error (index : Nat) (s : Sketch) (behind : s.Behind plan index) (key : Text) (e : CompileError)
    (failed : plan.dependency s index key = .error e) : e = .missingOutput index key := by
  cases recorded : s.output? key with
  | none => simpa [dependency, recorded, eq_comm] using failed
  | some node =>
      obtain ⟨position, first, before⟩ := plan.recorded_position index s behind key node recorded
      simp [dependency, recorded, first, before] at failed

theorem dependencies_error (index : Nat) (step : PlanStep) (s : Sketch) (behind : s.Behind plan index) (e : CompileError)
    (failed : plan.dependencies s index step = .error e) : e.OfLayout := by
  by_cases explicit : plan.isExplicit = true
  · rw [dependencies, if_pos explicit] at failed
    obtain ⟨key, _, stopped⟩ := map_m_error _ _ e failed
    exact plan.dependency_error index s behind key e stopped ▸ .output index key
  · rw [dependencies, if_neg explicit] at failed
    cases failed

theorem agent_layout_error (prompt : Text) (sources : List Text) (index : Nat) (s : Sketch) (selection : Selection)
    (e : CompileError) (failed : addAgent context configured prompt sources index s selection = .error e) : e.OfLayout := by
  cases found : context.agents.find? selection.id.trim with
  | none =>
      have unknown : context.agents.get selection.id.trim = .error (.agentNotFound selection.id.trim) := by
        rw [AgentRegistry.get, found]
      rw [addAgent, unknown] at failed
      exact Except.error.inj failed ▸ .agent selection.id.trim
  | some agent =>
      exact .names e (add_agent_error context configured prompt sources index s selection ⟨agent, found⟩ e failed)

theorem join_layout_error (s : Sketch) (index : Nat) (key : Text) (ids : List Text) (e : CompileError)
    (failed : joinAgents s index key ids = .error e) : e.OfLayout := by
  by_cases staffed : ids = []
  · rw [staffed, joinAgents, Except.error.injEq] at failed
    exact failed ▸ .unstaffed index
  · exact .names e (join_agents_error s index key ids staffed e failed)

theorem step_layout_error (index : Nat) (step : PlanStep) (s : Sketch) (behind : s.Behind plan index) (e : CompileError)
    (failed : plan.addStep context configured job s index step = .error e) : e.OfLayout := by
  rcases (bind_eq_error _ _ _).mp failed with dependencies | ⟨_, _, failed⟩
  · exact plan.dependencies_error index step s behind e dependencies
  rcases (bind_eq_error _ _ _).mp failed with agents | ⟨_, _, failed⟩
  · obtain ⟨state, selection, _, stopped⟩ := add_agents_stopped context configured _ _ index s step.agents e agents
    exact agent_layout_error context configured _ _ index state selection e stopped
  rcases (bind_eq_error _ _ _).mp failed with join | ⟨_, _, done⟩
  · exact join_layout_error _ index _ _ e join
  · cases done

-- A run that fails does so at a step that finds only the steps before it recorded.
theorem steps_layout_error (index : Nat) (steps : List PlanStep) (left : plan.steps.drop index = steps) (s : Sketch)
    (behind : s.Behind plan index) (e : CompileError) (failed : plan.addSteps context configured job s index steps = .error e) :
    e.OfLayout := by
  induction steps generalizing index s with
  | nil => cases failed
  | cons step tail ih =>
      obtain ⟨found, next⟩ := plan.steps_left index step tail left
      rw [add_steps_cons, bind_eq_error] at failed
      rcases failed with here | ⟨grown, added, later⟩
      · exact plan.step_layout_error context configured job index step s behind e here
      · exact ih (index + 1) next grown (plan.step_behind context configured job index step found s grown behind added) later

theorem nothing_behind : Sketch.empty.Behind plan 0 := List.forall_mem_nil _

end

section

variable (plan : Plan) (context : Context) (settings : Settings) (job : Job)

theorem configured_name_error (field name : Text) (failure : Failure) (failed : configuredName field name = .error failure) :
    ∃ issues, failure = .invalid issues := by
  rw [configuredName] at failed
  cases checked : (Schema.nonEmptyText (.str name)).under (.key field) with
  | valid value => simp [checked, Outcome.ofChecked] at failed
  | invalid issues => exact ⟨issues, by simpa [checked, Outcome.ofChecked, eq_comm] using failed⟩

theorem recorded_before (index : Nat) (s : Sketch)
    (done : plan.addSteps context settings.defaultTools job .empty 0 (plan.steps.take index) = .ok s) (key node : Text)
    (recorded : s.output? key = some node) : ∃ position, plan.position? key = some position ∧ position < index := by
  have behind := plan.steps_behind context settings.defaultTools job 0 (plan.steps.take index) (plan.steps.drop index)
    (List.take_append_drop index plan.steps).symm .empty s plan.nothing_behind done
  obtain ⟨position, first, before⟩ := plan.recorded_position _ s behind key node recorded
  have bound : (plan.steps.take index).length ≤ index := List.length_take_le index plan.steps
  exact ⟨position, first, by omega⟩

theorem sketch_refused (e : CompileError) (failed : plan.sketch context settings job = .error (.rejected e)) : e.OfLayout := by
  rcases (bind_eq_error _ _ _).mp failed with steps | ⟨s, _, failed⟩
  · obtain ⟨cause, stopped, same⟩ := (map_error_eq_error _ _ _).mp steps
    obtain rfl := Failure.rejected.inj same
    exact plan.steps_layout_error context _ job 0 plan.steps rfl .empty plan.nothing_behind cause stopped
  rcases (bind_eq_error _ _ _).mp failed with taken | ⟨_, _, failed⟩
  · obtain ⟨cause, stopped, same⟩ := (map_error_eq_error _ _ _).mp taken
    obtain rfl := Failure.rejected.inj same
    exact .names cause (claim_error s _ _ _ cause stopped)
  rcases (bind_eq_error _ _ _).mp failed with node | ⟨_, _, failed⟩
  · obtain ⟨_, other⟩ := configured_name_error _ _ _ node
    cases other
  rcases (bind_eq_error _ _ _).mp failed with output | ⟨_, _, done⟩
  · obtain ⟨_, other⟩ := configured_name_error _ _ _ output
    cases other
  · cases done

end

def Synthesis.Leads (s : Synthesis) (earlier later : Text) : Prop := ∃ e ∈ s.edges, e.source = earlier ∧ e.target = later

structure Synthesis.Forward (s : Synthesis) : Prop where
  unique : (s.nodes.map Node.id).Nodup
  ahead : ∀ e ∈ s.edges, ∃ i j : Nat, i < j ∧ (s.nodes.map Node.id)[i]? = some e.source ∧
    (s.nodes.map Node.id)[j]? = some e.target

theorem Synthesis.leads_ahead (s : Synthesis) (forward : s.Forward) (earlier later : Text) (leads : s.Leads earlier later) :
    (s.nodes.map Node.id).idxOf earlier < (s.nodes.map Node.id).idxOf later := by
  obtain ⟨e, member, rfl, rfl⟩ := leads
  obtain ⟨i, j, before, source, target⟩ := forward.ahead e member
  obtain ⟨below, found⟩ := List.getElem?_eq_some_iff.mp source
  obtain ⟨above, last⟩ := List.getElem?_eq_some_iff.mp target
  rwa [← found, ← last, forward.unique.idxOf_getElem i below, forward.unique.idxOf_getElem j above]

theorem Synthesis.forward_acyclic (s : Synthesis) (forward : s.Forward) (id : Text) : ¬ Relation.TransGen s.Leads id id := by
  intro loop
  have climbs := loop.lift (s.nodes.map Node.id).idxOf (s.leads_ahead forward)
  rw [Relation.transGen_eq_self] at climbs
  exact Nat.lt_irrefl _ climbs

section

variable (plan : Plan) (context : Context) (settings : Settings) (job : Job)

theorem sketched_forward (fits : plan.Sketchable context settings job) : (plan.sketched context settings job).Forward := by
  have ids : (plan.sketched context settings job).nodes.map Node.id = (plan.layout context settings job).map Placed.id :=
    List.map_map
  have unique : ((plan.layout context settings job).map Placed.id).Nodup := by
    rw [layout_map_id]
    exact fits.unique
  refine ⟨ids ▸ unique, fun e member => ?_⟩
  obtain ⟨p, inside, given⟩ := List.mem_flatMap.mp member
  obtain ⟨target, waits, _⟩ := (p.mem_edges e).mp given
  have above := Placed.position_above_sources _ unique (plan.layout_laid context settings job fits.staffed) p inside e.source waits
  have last : p.id ∈ (plan.layout context settings job).map Placed.id := List.mem_map.mpr ⟨p, inside, rfl⟩
  have first := List.idxOf_lt_length_iff.mp (above.trans (List.idxOf_lt_length_iff.mpr last))
  rw [ids, target]
  exact ⟨_, _, above, List.getElem?_idxOf first, List.getElem?_idxOf last⟩

theorem sketched_builds (fits : plan.Sketchable context settings job) (parsed : plan.Parsed)
    (positive : ∀ n, plan.maxParallelism = some n → 1 ≤ n) (d : Draft)
    (nodes : d.nodes = (plan.sketched context settings job).nodes) (edges : d.edges = (plan.sketched context settings job).edges)
    (outputs : d.outputs = (plan.sketched context settings job).outputs)
    (bound : d.maxParallelism = Json.ofInt? plan.maxParallelism) : ∃ spec, d.build = .ok spec := by
  have lists : d.Lists (plan.layout context settings job) ⟨settings.resultOutputName, settings.synthesisNodeId, none⟩ :=
    { plan.sketched_lists context settings job fits with nodes := nodes, edges := edges, outputs := outputs }
  have parallel : Draft.checkParallelism d.maxParallelism = .valid plan.maxParallelism := by
    rw [bound, check_bound_eq_valid _ _ positive]
    exact ⟨rfl, plan.parsed_bounded parsed⟩
  exact ⟨_, (d.listed_build_eq_ok _ _ lists _).mpr ⟨_, parallel, rfl⟩⟩

end

end Plan

theorem sketch_safe (plan : Plan) (context : Context) (settings : Settings) (job : Job) (parsed : plan.Parsed) :
    (∀ index s, plan.addSteps context settings.defaultTools job .empty 0 (plan.steps.take index) = .ok s →
      ∀ key node, s.output? key = some node → ∃ position, plan.position? key = some position ∧ position < index) ∧
    (∀ index key, plan.sketch context settings job ≠ .error (.rejected (.misplacedDependency index key))) ∧
    ∀ s, plan.sketch context settings job = .ok s →
      s.Forward ∧ (∀ id, ¬ Relation.TransGen s.Leads id id) ∧
      ((∀ n, plan.maxParallelism = some n → 1 ≤ n) → ∀ name model,
        ∃ spec, (⟨name, model, Json.ofInt? plan.maxParallelism, s.nodes, s.edges, s.outputs⟩ : Draft).build = .ok spec) := by
  refine ⟨plan.recorded_before context settings job, fun index key refused => ?_, fun s laid => ?_⟩
  · cases plan.sketch_refused context settings job _ refused with
    | names _ given => cases given
  · obtain ⟨fits, rfl⟩ := (plan.sketch_eq_ok context settings job s).mp laid
    have forward := plan.sketched_forward context settings job fits
    refine ⟨forward, Plan.Synthesis.forward_acyclic _ forward, fun positive name model => ?_⟩
    exact plan.sketched_builds context settings job fits parsed positive _ rfl rfl rfl rfl

def Sample.repeated : Plan :=
  ⟨none, [⟨some "part", [⟨"drafter", "writes"⟩], none⟩, ⟨some " part", [⟨"checker", "knows"⟩], some ["part"]⟩,
    ⟨some "  ", [⟨"editor", "polishes"⟩], some ["part ", "part"]⟩]⟩

set_option maxRecDepth 100000 in
theorem sample_sketch_safe : (Sample.repeated.validate Sample.context.agents).isOk = false ∧
    ∃ s, Sample.repeated.sketch Sample.context .standard Sample.job = .ok s ∧ s.Forward ∧
      ∃ spec, (⟨none, none, .null, s.nodes, s.edges, s.outputs⟩ : Draft).build = .ok spec := by
  have parsed : Sample.repeated.Parsed := ⟨Plan.toJson Sample.repeated, rfl⟩
  have invalid : (Sample.repeated.validate Sample.context.agents).isOk = false := by decide +kernel
  have accepted : (Sample.repeated.sketch Sample.context .standard Sample.job).isOk = true := by decide +kernel
  cases answer : Sample.repeated.sketch Sample.context .standard Sample.job with
  | error failure =>
      rw [answer] at accepted
      cases accepted
  | ok s =>
      obtain ⟨forward, _, builds⟩ := (sketch_safe Sample.repeated Sample.context .standard Sample.job parsed).2.2 s answer
      exact ⟨invalid, s, rfl, forward, builds nofun none none⟩

end PlanFlow
