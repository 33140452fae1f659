import PlanFlow.Proofs.Precedence
import PlanFlow.Proofs.Scheduling

/-!
When a valid plan can be laid out. Under the standard settings all that can still go wrong is in the tokens that
node ids are made from and in the tools that agents are given.
-/

set_option autoImplicit false

namespace PlanFlow

theorem Agent.tool_names_eq_first (agent : Agent) (context : Context) (configured : List Text) :
    agent.toolNames context configured =
      ([agent.tools, context.commandTools, context.tools.defaults, configured].find? fun names => !names.isEmpty).getD [] := by
  by_cases own : agent.tools.isEmpty = true
  · by_cases command : context.commandTools.isEmpty = true
    · by_cases defaults : context.tools.defaults.isEmpty = true
      · by_cases nothing : configured.isEmpty = true <;> simp_all [toolNames]
      · simp [toolNames, own, command, defaults]
    · simp [toolNames, own, command]
  · simp [toolNames, own]

namespace Plan

structure Named (plan : Plan) : Prop where
  agents : ∀ id ∈ agentIds plan.steps, NodeId.token id ≠ []
  distinctAgents : ((agentIds plan.steps).map NodeId.token).Nodup
  joins : ∀ (i : Nat) (step : PlanStep), plan.steps[i]? = some step → 2 ≤ step.agents.length →
    NodeId.token (step.key i) ≠ []
  distinctJoins : ∀ (i j : Nat) (a b : PlanStep), plan.steps[i]? = some a → plan.steps[j]? = some b →
    2 ≤ a.agents.length → 2 ≤ b.agents.length → NodeId.ofJoin (a.key i) = NodeId.ofJoin (b.key j) → i = j

def Equipped (plan : Plan) (context : Context) (configured : List Text) : Prop :=
  ∀ id ∈ agentIds plan.steps, ∀ agent, context.agents.find? id = some agent → ∀ names,
    ([agent.tools, context.commandTools, context.tools.defaults, configured].find? fun names => !names.isEmpty) =
      some names → ∀ name ∈ names, name ∈ context.tools.allowed

section

variable (plan : Plan) (context : Context) (configured : List Text)

theorem mem_agent_ids (id : Text) : id ∈ agentIds plan.steps ↔ ∃ (i : Nat) (step : PlanStep) (selection : Selection),
    plan.steps[i]? = some step ∧ selection ∈ step.agents ∧ selection.id.trim = id := by
  simp only [agentIds, List.mem_flatMap, List.mem_map]
  constructor
  · rintro ⟨step, member, selection, selected, rfl⟩
    obtain ⟨i, found⟩ := List.mem_iff_getElem?.mp member
    exact ⟨i, step, selection, found, selected, rfl⟩
  · rintro ⟨i, step, selection, found, selected, rfl⟩
    exact ⟨step, List.mem_of_getElem? found, selection, selected, rfl⟩

theorem equipped_iff : plan.Equipped context configured ↔ ∀ id ∈ agentIds plan.steps, ∀ agent,
    context.agents.find? id = some agent → ∀ tool ∈ agent.toolNames context configured,
      context.tools.isAllowed tool = true := by
  have allowed (agent : Agent) : (∀ tool ∈ agent.toolNames context configured, context.tools.isAllowed tool = true) ↔
      ∀ names, ([agent.tools, context.commandTools, context.tools.defaults, configured].find?
        fun names => !names.isEmpty) = some names → ∀ name ∈ names, name ∈ context.tools.allowed := by
    rw [agent.tool_names_eq_first]
    cases [agent.tools, context.commandTools, context.tools.defaults, configured].find? fun names => !names.isEmpty with
    | none => simp
    | some names => simp [ToolRegistry.isAllowed]
  simp only [Equipped, allowed]

theorem joined_iff (step : PlanStep) : step.isJoined = true ↔ 2 ≤ step.agents.length := by
  simp [PlanStep.isJoined, Nat.lt_iff_add_one_le]

theorem agent_nodes_eq : (plan.entriesBefore plan.steps.length).flatMap (fun entry => entry.1.nodeIds) =
    ((agentIds plan.steps).map NodeId.token).map fun token => ("agent_" : Text) ++ token := by
  have steps : (plan.entriesBefore plan.steps.length).map Prod.fst = plan.steps := by
    rw [entriesBefore, List.take_length, List.zipIdx_map_fst]
  calc (plan.entriesBefore plan.steps.length).flatMap (fun entry => entry.1.nodeIds)
      = ((plan.entriesBefore plan.steps.length).map Prod.fst).flatMap PlanStep.nodeIds := by rw [List.flatMap_map]
    _ = ((agentIds plan.steps).map NodeId.token).map fun token => ("agent_" : Text) ++ token := by
      rw [steps, agentIds, List.map_flatMap, List.map_flatMap]
      simp only [List.map_map]
      rfl

theorem layout_nodes_perm : (plan.layoutIdsBefore plan.steps.length).Perm
    ((plan.entriesBefore plan.steps.length).flatMap (fun entry => entry.1.nodeIds) ++
      (plan.entriesBefore plan.steps.length).flatMap fun entry => entry.1.joinIds entry.2) :=
  (List.flatMap_append_perm _ _ _).symm

theorem agent_nodes_nodup : ((plan.entriesBefore plan.steps.length).flatMap (fun entry => entry.1.nodeIds)).Nodup ↔
    ((agentIds plan.steps).map NodeId.token).Nodup := by
  rw [agent_nodes_eq]
  exact List.nodup_map_iff fun _ _ same => List.append_cancel_left same

theorem join_nodes_nodup (distinct : ∀ (i j : Nat) (a b : PlanStep), plan.steps[i]? = some a → plan.steps[j]? = some b →
    a.isJoined = true → b.isJoined = true → a.joinId i = b.joinId j → i = j) :
    ((plan.entriesBefore plan.steps.length).flatMap fun entry => entry.1.joinIds entry.2).Nodup := by
  refine List.nodup_flatMap.mpr ⟨fun entry _ => ?_, ?_⟩
  · by_cases joined : entry.1.isJoined = true <;> simp [PlanStep.joinIds, joined]
  · have positions : ((plan.entriesBefore plan.steps.length).map Prod.snd).Nodup := by
      rw [entriesBefore, List.take_length, List.zipIdx_map_snd]
      exact List.nodup_range'
    refine (List.pairwise_map.mp positions).imp_of_mem ?_
    rintro ⟨a, i⟩ ⟨b, j⟩ first second different id in_a in_b
    obtain ⟨joined_a, from_a⟩ := (a.mem_join_ids i id).mp in_a
    obtain ⟨joined_b, from_b⟩ := (b.mem_join_ids j id).mp in_b
    exact different (distinct i j a b ((plan.mem_entries i a).mp first) ((plan.mem_entries j b).mp second)
      joined_a joined_b (from_a.symm.trans from_b))

theorem standard_ids_nodup (agents : ((agentIds plan.steps).map NodeId.token).Nodup)
    (distinct : ∀ (i j : Nat) (a b : PlanStep), plan.steps[i]? = some a → plan.steps[j]? = some b →
      a.isJoined = true → b.isJoined = true → a.joinId i = b.joinId j → i = j) :
    (plan.layoutIds .standard).Nodup := by
  have member (id : Text) (inside : id ∈ plan.layoutIdsBefore plan.steps.length) :
      (∃ name, id = NodeId.agent name) ∨ ∃ key, id = NodeId.join key := by
    obtain ⟨⟨step, i⟩, _, owned⟩ := List.mem_flatMap.mp inside
    rcases List.mem_append.mp owned with agent | join
    · obtain ⟨selection, _, rfl⟩ := List.mem_map.mp agent
      exact Or.inl ⟨_, rfl⟩
    · exact Or.inr ⟨_, ((step.mem_join_ids i id).mp join).2⟩
  refine (nodup_append_one _ _).mpr ⟨fun last => ?_, plan.layout_nodes_perm.nodup_iff.mpr ?_⟩
  · rcases member _ last with ⟨name, same⟩ | ⟨key, same⟩
    · exact NodeId.agent_ne_standard name same.symm
    · exact NodeId.join_ne_standard key same.symm
  · refine List.nodup_append.mpr ⟨plan.agent_nodes_nodup.mpr agents, plan.join_nodes_nodup distinct, ?_⟩
    rintro id agent _ join rfl
    obtain ⟨entry, _, selected⟩ := List.mem_flatMap.mp agent
    obtain ⟨selection, _, rfl⟩ := List.mem_map.mp selected
    obtain ⟨other, _, joins⟩ := List.mem_flatMap.mp join
    exact NodeId.agent_ne_join _ _ ((other.1.mem_join_ids other.2 _).mp joins).2

theorem named_of_sketchable (job : Job) (fits : plan.Sketchable context .standard job) : plan.Named := by
  have unique := fits.unique
  refine ⟨fun id member => ?_, ?_, fun i step found several => ?_, fun i j a b at_a at_b several_a several_b same => ?_⟩
  · obtain ⟨i, step, selection, found, selected, rfl⟩ := (plan.mem_agent_ids id).mp member
    exact ((fits.ready i step found).usable selection selected).token
  · have nodes := plan.layout_nodes_perm.nodup_iff.mp (List.nodup_append.mp unique).1
    exact plan.agent_nodes_nodup.mp (List.nodup_append.mp nodes).1
  · exact (fits.ready i step found).joinable ((joined_iff step).mpr several)
  · have join (k : Nat) (step : PlanStep) (found : plan.steps[k]? = some step) (several : 2 ≤ step.agents.length) :
        NodeId.ofJoin (step.key k) = .ok (step.joinId k) ∧ plan.Owns k (step.joinId k) := by
      have joined := (joined_iff step).mpr several
      exact ⟨NodeId.of_join_usable _ ((fits.ready k step found).joinable joined),
        step, found, List.mem_append_right _ ((step.mem_join_ids k _).mpr ⟨joined, rfl⟩)⟩
    obtain ⟨made_a, owned_a⟩ := join i a at_a several_a
    obtain ⟨made_b, owned_b⟩ := join j b at_b several_b
    have same_id : a.joinId i = b.joinId j := Except.ok.inj (made_a.symm.trans (same.trans made_b))
    rw [← same_id] at owned_b
    exact plan.owner_unique .standard unique i j _ owned_a owned_b

theorem equipped_of_sketchable (settings : Settings) (job : Job) (fits : plan.Sketchable context settings job) :
    plan.Equipped context settings.defaultTools := by
  rw [equipped_iff]
  intro id member agent known
  obtain ⟨i, step, selection, found, selected, rfl⟩ := (plan.mem_agent_ids id).mp member
  obtain ⟨other, same, allowed⟩ := ((fits.ready i step found).usable selection selected).known
  obtain rfl := Option.some.inj (known.symm.trans same)
  exact allowed

theorem standard_nameable : Settings.standard.Nameable where
  node := ⟨by decide, Text.has_surrogate_of_string _⟩
  output := ⟨by decide, Text.has_surrogate_of_string _⟩

theorem sketchable_of_named (job : Job) (valid : plan.Valid context.agents) (named : plan.Named)
    (equipped : plan.Equipped context Settings.standard.defaultTools) : plan.Sketchable context .standard job where
  ready := by
    intro i step found
    have member (selection : Selection) (selected : selection ∈ step.agents) :
        selection.id.trim ∈ agentIds plan.steps :=
      (plan.mem_agent_ids _).mpr ⟨i, step, selection, found, selected, rfl⟩
    refine ⟨plan.dependencies_found context.agents valid context _ job i step found,
      valid.staffed step (List.mem_of_getElem? found), fun selection selected => ?_, fun joined => ?_⟩
    · obtain ⟨agent, known, _⟩ := (valid.acceptable step (List.mem_of_getElem? found) selection selected).known
      exact ⟨⟨agent, known, (plan.equipped_iff context _).mp equipped _ (member selection selected) agent known⟩,
        named.agents _ (member selection selected)⟩
    · exact named.joins i step found ((joined_iff step).mp joined)
  unique := by
    refine plan.standard_ids_nodup named.distinctAgents fun i j a b at_a at_b joined_a joined_b same => ?_
    have several_a := (joined_iff a).mp joined_a
    have several_b := (joined_iff b).mp joined_b
    refine named.distinctJoins i j a b at_a at_b several_a several_b ?_
    rw [NodeId.of_join_usable _ (named.joins i a at_a several_a), NodeId.of_join_usable _ (named.joins j b at_b several_b)]
    exact congrArg Except.ok same
  nameable := standard_nameable

end

end Plan

end PlanFlow
