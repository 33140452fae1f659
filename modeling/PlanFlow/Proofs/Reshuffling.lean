import PlanFlow.Proofs.Prompting
import PlanFlow.Proofs.Representable

/-!
Plans whose steps select the same agents in another order. They compile to the same nodes in another order: nothing
that a node holds depends on which of the agents beside it comes first.
-/

set_option autoImplicit false

namespace PlanFlow

structure PlanStep.Reshuffled (step other : PlanStep) : Prop where
  id : step.id = other.id
  agents : step.agents.Perm other.agents
  dependsOn : step.dependsOn = other.dependsOn

structure Plan.Reshuffled (plan other : Plan) : Prop where
  parallel : plan.maxParallelism = other.maxParallelism
  steps : List.Forall₂ PlanStep.Reshuffled plan.steps other.steps

namespace Placed

theorem settled_of_same_members (node : Node) (a b : List Text) (same : ∀ id, id ∈ a ↔ id ∈ b) :
    settled ⟨node, a⟩ = settled ⟨node, b⟩ := by
  simp only [settled, canonical_dependencies_of_same_members a b same]

end Placed

namespace PlanStep.Reshuffled

variable {step other : PlanStep} (moved : step.Reshuffled other)

include moved

theorem symm : other.Reshuffled step := ⟨moved.id.symm, moved.agents.symm, moved.dependsOn.symm⟩

theorem same_dependencies : step.dependencies = other.dependencies := by
  rw [dependencies, dependencies, moved.dependsOn]

theorem tied_alike : step.TiedAlike other :=
  ⟨by rw [trimmedId, trimmedId, moved.id], congrArg (List.map Text.trim) moved.same_dependencies⟩

theorem same_key (index : Nat) : step.key index = other.key index := moved.tied_alike.key index

theorem node_ids : step.nodeIds.Perm other.nodeIds := moved.agents.map Selection.nodeId

theorem is_joined : step.isJoined = other.isJoined := by rw [isJoined, isJoined, moved.agents.length_eq]

theorem join_id (index : Nat) : step.joinId index = other.joinId index := by rw [joinId, joinId, moved.same_key]

theorem join_ids (index : Nat) : step.joinIds index = other.joinIds index := by
  rw [joinIds, joinIds, moved.is_joined, moved.join_id]

theorem output_id (index : Nat) : step.outputId index = other.outputId index := by
  by_cases joined : step.isJoined = true
  · rw [step.output_of_joined index joined, other.output_of_joined index (moved.is_joined ▸ joined), moved.join_id]
  · have agents := moved.agents
    match selected : step.agents with
    | [] =>
        rw [selected, List.nil_perm] at agents
        simp [outputId, selected, agents, moved.join_id]
    | [selection] =>
        rw [selected, List.singleton_perm] at agents
        simp [outputId, selected, ← agents]
    | first :: second :: rest => simp [isJoined, selected] at joined

theorem same_output (index : Nat) : step.output index = other.output index := by
  rw [output, output, moved.same_key, moved.output_id]

theorem joins_settled (index : Nat) :
    (step.joins index).map Placed.settled = (other.joins index).map Placed.settled := by
  rw [joins, joins, moved.join_ids, List.map_map, List.map_map]
  exact List.map_congr_left fun id _ => Placed.settled_of_same_members _ _ _ fun _ => moved.node_ids.mem_iff

theorem placed_settled (context : Context) (configured : List Text) (job : Job) (index : Nat)
    (dependencies : List Prompt.Dependency) :
    ((step.placed context configured job index dependencies).map Placed.settled).Perm
      ((other.placed context configured job index dependencies).map Placed.settled) := by
  rw [placed, placed, List.map_append, List.map_append, moved.joins_settled]
  exact ((moved.agents.map _).map _).append_right _

end PlanStep.Reshuffled

theorem Plan.StepReady.reshuffled {plan : Plan} {context : Context} {configured : List Text} {job : Job} {i : Nat}
    {step : PlanStep} (ready : plan.StepReady context configured job i step) (other : Plan) (twin : PlanStep)
    (valid : other.Valid context.agents) (found : other.steps[i]? = some twin) (same : step.Reshuffled twin) :
    other.StepReady context configured job i twin where
  resolves := other.dependencies_found context.agents valid context configured job i twin found
  staffed := valid.staffed twin (List.mem_of_getElem? found)
  usable := fun selection selected => ready.usable selection (same.agents.mem_iff.mpr selected)
  joinable := fun joined => same.same_key i ▸ ready.joinable (same.is_joined ▸ joined)

namespace Plan.Reshuffled

variable {plan other : Plan} (moved : plan.Reshuffled other)

include moved

theorem symm : other.Reshuffled plan :=
  ⟨moved.parallel.symm, moved.steps.flip.imp fun _ _ same => same.symm⟩

theorem step_at (i : Nat) (step : PlanStep) (found : plan.steps[i]? = some step) :
    ∃ twin, other.steps[i]? = some twin ∧ step.Reshuffled twin :=
  exists_matched_at PlanStep.Reshuffled plan.steps other.steps moved.steps i step found

theorem step_among (twin : PlanStep) (member : twin ∈ other.steps) : ∃ step ∈ plan.steps, step.Reshuffled twin :=
  exists_matching PlanStep.Reshuffled plan.steps other.steps moved.steps twin member

theorem tied_alike : List.Forall₂ PlanStep.TiedAlike plan.steps other.steps :=
  moved.steps.imp fun _ _ same => same.tied_alike

theorem is_explicit : plan.isExplicit = other.isExplicit := plan.tied_explicit other moved.tied_alike

theorem entries_before (index : Nat) :
    List.Forall₂ (fun a b => a.1.Reshuffled b.1 ∧ a.2 = b.2) (plan.entriesBefore index) (other.entriesBefore index) :=
  matched_positions PlanStep.Reshuffled _ _ (List.forall₂_take index moved.steps) 0

theorem outputs_before (index : Nat) : plan.outputsBefore index = other.outputsBefore index := by
  refine map_matched _ _ _ _ _ (moved.entries_before index) ?_
  rintro ⟨step, i⟩ ⟨twin, _⟩ ⟨same, rfl⟩
  exact same.same_output i

theorem same_resolved (index : Nat) (step twin : PlanStep) (same : step.Reshuffled twin) :
    plan.resolved index step = other.resolved index twin := by
  rw [resolved, resolved, moved.is_explicit, moved.outputs_before, same.same_dependencies]

theorem same_terminals : plan.terminals = other.terminals := by
  rw [terminals, terminals, plan.tied_terminals other moved.tied_alike, moved.outputs_before, moved.steps.length_eq]

theorem layout_ids (settings : Settings) : (plan.layoutIds settings).Perm (other.layoutIds settings) := by
  rw [layoutIds, layoutIds, moved.steps.length_eq]
  refine List.Perm.append_right _ (flat_map_matched _ _ _ _ _ (moved.entries_before _) ?_)
  rintro ⟨step, i⟩ ⟨twin, _⟩ ⟨same, rfl⟩
  rw [same.join_ids]
  exact same.node_ids.append_right _

theorem layout_settled (context : Context) (settings : Settings) (job : Job) :
    ((plan.layout context settings job).map Placed.settled).Perm
      ((other.layout context settings job).map Placed.settled) := by
  have last : plan.synthesisPlaced settings job = other.synthesisPlaced settings job := by
    rw [synthesisPlaced, synthesisPlaced, moved.same_terminals]
  rw [layout, layout, List.map_append, List.map_append, last, moved.steps.length_eq]
  refine List.Perm.append_right _ ?_
  rw [layoutBefore, layoutBefore, List.map_flatMap, List.map_flatMap]
  refine flat_map_matched _ _ _ _ _ (moved.entries_before _) ?_
  rintro ⟨step, i⟩ ⟨twin, _⟩ ⟨same, rfl⟩
  rw [placedAt, placedAt, moved.same_resolved i step twin same]
  exact same.placed_settled context _ job i _

theorem agent_ids : (agentIds plan.steps).Perm (agentIds other.steps) :=
  flat_map_matched _ _ _ _ _ moved.steps fun _ _ same => same.agents.map _

theorem valid (registry : AgentRegistry) (valid : plan.Valid registry) : other.Valid registry where
  parallel := moved.parallel ▸ valid.parallel
  nonempty := by
    intro empty
    have length := moved.steps.length_eq
    rw [empty, List.length_nil, List.length_eq_zero_iff] at length
    exact valid.nonempty length
  distinctIds := by
    intro i j a b first second given same
    obtain ⟨c, at_c, alike⟩ := moved.symm.step_at i a first
    obtain ⟨d, at_d, likewise⟩ := moved.symm.step_at j b second
    rw [alike.tied_alike.id] at given
    exact valid.distinctIds i j c d at_c at_d given (alike.tied_alike.id ▸ likewise.tied_alike.id ▸ same)
  givenIds := by
    intro explicit twin member
    obtain ⟨step, inside, same⟩ := moved.step_among twin member
    exact same.tied_alike.id ▸ valid.givenIds (moved.is_explicit ▸ explicit) step inside
  staffed := by
    intro twin member empty
    obtain ⟨step, inside, same⟩ := moved.step_among twin member
    exact valid.staffed step inside (empty ▸ same.agents).eq_nil
  backward := by
    intro i twin found raw named
    obtain ⟨step, at_step, same⟩ := moved.symm.step_at i twin found
    obtain ⟨given, j, source, before, at_source, id⟩ := valid.backward i step at_step raw (same.same_dependencies ▸ named)
    obtain ⟨other_source, at_other, alike⟩ := moved.step_at j source at_source
    exact ⟨given, j, other_source, before, at_other, alike.tied_alike.id ▸ id⟩
  acceptable := by
    intro twin member selection selected
    obtain ⟨step, inside, same⟩ := moved.step_among twin member
    exact valid.acceptable step inside selection (same.agents.mem_iff.mpr selected)
  distinctAgents := moved.agent_ids.nodup_iff.mp valid.distinctAgents

variable (context : Context) (settings : Settings) (job : Job)

theorem compilable (fits : plan.Compilable context settings job) : other.Compilable context settings job where
  valid := moved.valid context.agents fits.valid
  sketchable := {
    ready := by
      intro i twin found
      obtain ⟨step, at_step, same⟩ := moved.symm.step_at i twin found
      exact (fits.sketchable.ready i step at_step).reshuffled other twin (moved.valid context.agents fits.valid) found
        same.symm
    unique := (moved.layout_ids settings).nodup_iff.mp fits.sketchable.unique
    nameable := fits.sketchable.nameable }
  bounded := moved.parallel ▸ fits.bounded

theorem compiled_reordered : other.compiled context settings job =
    { plan.compiled context settings job with nodes := (other.layout context settings job).map Placed.settled } := by
  rw [compiled, compiled, moved.parallel]
  rfl

end Plan.Reshuffled

namespace Spec

section

variable (s : Spec) (nodes : List Node) (moved : s.nodes.Perm nodes)

include moved

theorem reordered_node (unique : s.nodeIds.Nodup) (id : Text) : s.node? id = { s with nodes := nodes }.node? id := by
  cases found : s.node? id with
  | none =>
      refine (List.find?_eq_none.mpr fun node member => ?_).symm
      exact List.find?_eq_none.mp found node (moved.mem_iff.mpr member)
  | some node =>
      obtain rfl : node.id = id := by simpa using List.find?_some found
      have member := moved.mem_iff.mp (List.mem_of_find?_eq_some found)
      exact (node_of_member { s with nodes := nodes } ((moved.map Node.id).nodup_iff.mp unique) node member).symm

theorem reordered_digest (digested : ∃ digest, s.digest = .ok digest) :
    ∃ digest, { s with nodes := nodes }.digest = .ok digest := by
  obtain ⟨_, hashed⟩ := digested
  obtain ⟨text, written, _⟩ := (map_eq_ok _ _ _).mp hashed
  obtain ⟨clear, writable⟩ := (canonical_text_iff s).mp ⟨text, written⟩
  have still_clear : Freeform.firstObstacle? { s with nodes := nodes }.freeform = none := by
    rw [Freeform.first_obstacle_eq_none] at clear ⊢
    exact fun value member => clear value (((moved.flatMap_right _).append_right _).mem_iff.mpr member)
  have still_writable : Json.Canonical.Writable { s with nodes := nodes }.toPayload := by
    rw [payload_written] at writable ⊢
    exact writable_record_moved (Node.toJson .dropped) "nodes" (s.payloadEntries.take 4) (s.payloadEntries.drop 5) _ _
      moved writable
  obtain ⟨other, again⟩ := (canonical_text_iff _).mpr ⟨still_clear, still_writable⟩
  exact ⟨_, (map_eq_ok _ _ _).mpr ⟨other, again, rfl⟩⟩

end

end Spec

theorem compile_reshuffled (payload reordered : Payload Plan) (context : Context) (settings : Settings) (job : Job)
    (plan other : Plan) (given : Plan.read payload = .ok plan) (read : Plan.read reordered = .ok other)
    (moved : plan.Reshuffled other) (spec : Spec) (compiled : compile payload context settings job = .ok spec) :
    ∃ nodes, spec.nodes.Perm nodes ∧ spec.nodeIds.Nodup ∧
      compile reordered context settings job = .ok { spec with nodes := nodes } := by
  obtain ⟨known, own, fits, rfl, digested⟩ := (Plan.compile_eq_ok payload context settings job spec).mp compiled
  obtain rfl : plan = known := Except.ok.inj (given.symm.trans own)
  have nodes := moved.layout_settled context settings job
  refine ⟨_, nodes, plan.compiled_ids_nodup context settings job fits, ?_⟩
  refine (Plan.compile_eq_ok reordered context settings job _).mpr ⟨other, read, moved.compilable context settings job fits,
    (moved.compiled_reordered context settings job).symm, ?_⟩
  exact Spec.reordered_digest _ _ nodes digested

theorem compile_agent_order (payload reordered : Payload Plan) (context : Context) (settings : Settings) (job : Job)
    (plan other : Plan) (given : Plan.read payload = .ok plan) (read : Plan.read reordered = .ok other)
    (moved : plan.Reshuffled other) :
    ((∃ spec, compile payload context settings job = .ok spec) ↔
      ∃ spec, compile reordered context settings job = .ok spec) ∧
    ∀ spec twin, compile payload context settings job = .ok spec → compile reordered context settings job = .ok twin →
      spec.nodes.Perm twin.nodes ∧ (∀ id, spec.node? id = twin.node? id) ∧ spec.edges = twin.edges ∧
        spec.outputs = twin.outputs := by
  refine ⟨⟨?_, ?_⟩, fun spec twin first second => ?_⟩
  · rintro ⟨spec, compiled⟩
    obtain ⟨_, _, _, again⟩ := compile_reshuffled payload reordered context settings job plan other given read moved spec compiled
    exact ⟨_, again⟩
  · rintro ⟨spec, compiled⟩
    obtain ⟨_, _, _, again⟩ := compile_reshuffled reordered payload context settings job other plan read given moved.symm spec
      compiled
    exact ⟨_, again⟩
  · obtain ⟨nodes, order, unique, again⟩ := compile_reshuffled payload reordered context settings job plan other given read
      moved spec first
    obtain rfl := Except.ok.inj (again.symm.trans second)
    exact ⟨order, spec.reordered_node nodes order unique, rfl, rfl⟩

def Sample.swapped : Plan :=
  ⟨none, [⟨some "prepare", [⟨"checker", "knows"⟩, ⟨"drafter", "writes"⟩], none⟩,
    ⟨some "finish", [⟨"editor", "polishes"⟩], some ["prepare"]⟩]⟩

theorem sample_agent_order : ∃ spec twin, compile (.parsed Sample.plan) Sample.context .standard Sample.job = .ok spec ∧
    compile (.parsed Sample.swapped) Sample.context .standard Sample.job = .ok twin ∧ spec.nodes.Perm twin.nodes ∧
    ∀ id, spec.node? id = twin.node? id := by
  have moved : Sample.plan.Reshuffled Sample.swapped :=
    ⟨rfl, .cons ⟨rfl, .swap _ _ _, rfl⟩ (.cons ⟨rfl, .refl _, rfl⟩ .nil)⟩
  obtain ⟨outcomes, same⟩ := compile_agent_order (.parsed Sample.plan) (.parsed Sample.swapped) Sample.context .standard
    Sample.job Sample.plan Sample.swapped rfl rfl moved
  obtain ⟨spec, compiled⟩ := Sample.compiles
  obtain ⟨twin, again⟩ := outcomes.mp ⟨spec, compiled⟩
  obtain ⟨order, nodes, _, _⟩ := same spec twin compiled again
  exact ⟨spec, twin, compiled, again, order, nodes⟩

end PlanFlow
