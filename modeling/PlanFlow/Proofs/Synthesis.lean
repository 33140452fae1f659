import PlanFlow.Proofs.Layout
import PlanFlow.Proofs.Outcome

/-!
A run of the synthesizer gives the layout of the plan, and it succeeds exactly when every step can be laid out
and no two nodes share an id.
-/

set_option autoImplicit false

namespace PlanFlow

theorem agent_get_eq_ok (registry : AgentRegistry) (name : Text) (agent : Agent) :
    registry.get name = .ok agent ↔ registry.find? name = some agent := by
  cases found : registry.find? name <;> simp [AgentRegistry.get, found]

theorem resolve_tools_eq_ok (agent : Agent) (context : Context) (configured tools : List Text) :
    agent.resolveTools context configured = .ok tools ↔
      (∀ tool ∈ agent.toolNames context configured, context.tools.isAllowed tool = true) ∧
        tools = distinct (agent.toolNames context configured) := by
  cases foreign : (agent.toolNames context configured).find? fun name => !context.tools.isAllowed name with
  | none =>
      have allowed : ∀ tool ∈ agent.toolNames context configured, context.tools.isAllowed tool = true := by
        simpa using foreign
      simp only [Agent.resolveTools, foreign, Except.ok.injEq]
      exact ⟨fun same => ⟨allowed, same.symm⟩, fun both => both.2.symm⟩
  | some name =>
      have refused := List.find?_some foreign
      simp only [Agent.resolveTools, foreign]
      refine ⟨nofun, fun both => ?_⟩
      simp [both.1 name (List.mem_of_find?_eq_some foreign)] at refused

namespace Sketch

theorem claim_eq_ok (s : Sketch) (id : Text) (index : Option Nat) (agent : Option Text) (answer : Unit) :
    s.claim id index agent = .ok answer ↔ id ∉ s.nodes.map Node.id := by
  by_cases taken : id ∈ s.nodes.map Node.id <;> simp [claim, taken]

theorem place_ids (s : Sketch) (placed : List Placed) :
    (s.place placed).nodes.map Node.id = s.nodes.map Node.id ++ placed.map Placed.id := by
  simp only [place, List.map_append, List.map_map]
  rfl

end Sketch

namespace Plan

section

variable (plan : Plan) (context : Context) (configured : List Text) (job : Job)

theorem add_agent_eq_ok (prompt : Text) (sources : List Text) (index : Nat) (s t : Sketch)
    (selection : Selection) (id : Text) :
    addAgent context configured prompt sources index s selection = .ok (t, id) ↔
      selection.Usable context configured ∧ selection.nodeId ∉ s.nodes.map Node.id ∧
        t = s.place [selection.placed context configured prompt sources] ∧ id = selection.nodeId := by
  simp only [addAgent, bind_eq_ok, agent_get_eq_ok, NodeId.of_agent_eq_ok, Sketch.claim_eq_ok,
    resolve_tools_eq_ok, pure_eq_ok, Prod.mk.injEq, Sketch.add_node_eq_place]
  constructor
  · rintro ⟨agent, known, _, ⟨token, rfl⟩, _, fresh, _, ⟨allowed, rfl⟩, rfl, rfl⟩
    refine ⟨⟨⟨agent, known, allowed⟩, token⟩, fresh, ?_, rfl⟩
    simp only [Selection.placed, Selection.request, known]
    rfl
  · rintro ⟨⟨⟨agent, known, allowed⟩, token⟩, fresh, rfl, rfl⟩
    refine ⟨agent, known, _, ⟨token, rfl⟩, (), fresh, _, ⟨allowed, rfl⟩, ?_, rfl⟩
    simp only [Selection.placed, Selection.request, known]
    rfl

theorem add_agents_cons (prompt : Text) (sources : List Text) (index : Nat) (s : Sketch)
    (head : Selection) (tail : List Selection) :
    addAgents context configured prompt sources index s (head :: tail) =
      addAgent context configured prompt sources index s head >>= fun first =>
        addAgents context configured prompt sources index first.1 tail >>= fun rest =>
          .ok (rest.1, first.2 :: rest.2) := by
  rw [addAgents]
  cases addAgent context configured prompt sources index s head with
  | error e => rfl
  | ok first =>
      rw [ok_bind]
      dsimp only
      cases addAgents context configured prompt sources index first.1 tail <;> rfl

theorem add_agents_eq_ok (prompt : Text) (sources : List Text) (index : Nat) (s t : Sketch)
    (selections : List Selection) (ids : List Text) (unique : (s.nodes.map Node.id).Nodup) :
    addAgents context configured prompt sources index s selections = .ok (t, ids) ↔
      (∀ selection ∈ selections, selection.Usable context configured) ∧
        (s.nodes.map Node.id ++ selections.map Selection.nodeId).Nodup ∧
        t = s.place (selections.map fun selection => selection.placed context configured prompt sources) ∧
        ids = selections.map Selection.nodeId := by
  induction selections generalizing s ids with
  | nil => simp [addAgents, unique, Sketch.place_nil, eq_comm]
  | cons head tail ih =>
      have grown : (s.place [head.placed context configured prompt sources]).nodes.map Node.id =
          s.nodes.map Node.id ++ [head.nodeId] := Sketch.place_ids _ _
      rw [add_agents_cons, List.map_cons, List.map_cons, List.append_cons, List.forall_mem_cons]
      simp only [bind_eq_ok, Prod.exists, add_agent_eq_ok, Except.ok.injEq, Prod.mk.injEq]
      constructor
      · rintro ⟨_, _, ⟨usable, fresh, rfl, rfl⟩, last, others, rest, rfl, rfl⟩
        have extended := (nodup_append_one _ _).mpr ⟨fresh, unique⟩
        obtain ⟨usables, apart, rfl, rfl⟩ := (ih _ _ (by rw [grown]; exact extended)).mp rest
        rw [grown] at apart
        exact ⟨⟨usable, usables⟩, apart, Sketch.place_place _ _ _, rfl⟩
      · rintro ⟨⟨usable, usables⟩, apart, rfl, rfl⟩
        have extended := (List.nodup_append.mp apart).1
        have fresh := ((nodup_append_one _ _).mp extended).1
        refine ⟨_, _, ⟨usable, fresh, rfl, rfl⟩, _, _, ?_, rfl, rfl⟩
        exact (ih _ _ (by rw [grown]; exact extended)).mpr
          ⟨usables, by rw [grown]; exact apart, (Sketch.place_place s [_] _).symm, rfl⟩

theorem join_agents_eq_ok (step : PlanStep) (index : Nat) (s t : Sketch) (id : Text) :
    joinAgents s index (step.key index) step.nodeIds = .ok (t, id) ↔
      step.agents ≠ [] ∧ (step.isJoined = true → NodeId.token (step.key index) ≠ []) ∧
        (∀ id ∈ step.joinIds index, id ∉ s.nodes.map Node.id) ∧
        t = s.place (step.joins index) ∧ id = step.outputId index := by
  match selected : step.agents with
  | [] => simp [joinAgents, PlanStep.nodeIds, selected]
  | [selection] =>
      simp [joinAgents, PlanStep.nodeIds, PlanStep.isJoined, PlanStep.joinIds, PlanStep.joins, PlanStep.outputId,
        selected, Sketch.place_nil, eq_comm (a := t), eq_comm (a := id)]
  | first :: second :: rest =>
      simp only [joinAgents, PlanStep.nodeIds, selected, List.map_cons, bind_eq_ok, NodeId.of_join_eq_ok,
        Sketch.claim_eq_ok, pure_eq_ok, Prod.mk.injEq, Sketch.add_node_eq_place]
      simp [PlanStep.isJoined, PlanStep.joinIds, PlanStep.joinId, PlanStep.joins, PlanStep.outputId,
        PlanStep.nodeIds, selected, eq_comm (a := t), eq_comm (a := id)]

theorem join_ids_nodup_append (step : PlanStep) (index : Nat) (ids : List Text) :
    (ids ++ step.joinIds index).Nodup ↔ (∀ id ∈ step.joinIds index, id ∉ ids) ∧ ids.Nodup := by
  by_cases joined : step.isJoined = true
  · simp [PlanStep.joinIds, joined, nodup_append_one]
  · simp [PlanStep.joinIds, joined]

theorem dependency_eq_ok (s : Sketch) (index : Nat) (key : Text) (answer : Prompt.Dependency) :
    plan.dependency s index key = .ok answer ↔ ∃ node position, Sketch.latest? s.outputs key = some node ∧
      plan.position? key = some position ∧ position < index ∧ answer = ⟨key, node⟩ := by
  have recorded : s.output? key = Sketch.latest? s.outputs key := rfl
  cases found : Sketch.latest? s.outputs key with
  | none => simp [dependency, recorded, found]
  | some node =>
      cases placed : plan.position? key with
      | none => simp [dependency, recorded, found, placed]
      | some position =>
          by_cases before : position < index
          · simp [dependency, recorded, found, placed, before, eq_comm]
          · simp [dependency, recorded, found, placed, before]

theorem dependencies_resolved (index : Nat) (step : PlanStep) (answer : List Prompt.Dependency)
    (found : plan.dependencies (plan.sketchBefore context configured job index) index step = .ok answer) :
    answer = plan.resolved index step := by
  by_cases explicit : plan.isExplicit = true
  · rw [dependencies, if_pos explicit, map_m_eq_ok] at found
    rw [resolved, if_pos explicit]
    generalize distinct (step.dependencies.map Text.trim) = keys at found ⊢
    induction found with
    | nil => rfl
    | cons first _ ih =>
        obtain ⟨node, _, recorded, _, _, rfl⟩ := (plan.dependency_eq_ok _ _ _ _).mp first
        have known : Sketch.latest? (plan.outputsBefore index) _ = some node := recorded
        rw [List.filterMap_cons, known, ih]
        rfl
  · rw [dependencies, if_neg explicit, Except.ok.injEq] at found
    rw [resolved, if_neg explicit, ← found]
    rfl

structure StepReady (index : Nat) (step : PlanStep) : Prop where
  resolves : ∃ answer, plan.dependencies (plan.sketchBefore context configured job index) index step = .ok answer
  staffed : step.agents ≠ []
  usable : ∀ selection ∈ step.agents, selection.Usable context configured
  joinable : step.isJoined = true → NodeId.token (step.key index) ≠ []

theorem add_step_eq_ok (index : Nat) (step : PlanStep) (t : Sketch) (found : plan.steps[index]? = some step)
    (unique : (plan.layoutIdsBefore index).Nodup) :
    plan.addStep context configured job (plan.sketchBefore context configured job index) index step = .ok t ↔
      plan.StepReady context configured job index step ∧ (plan.layoutIdsBefore (index + 1)).Nodup ∧
        t = plan.sketchBefore context configured job (index + 1) := by
  have ids := plan.sketch_ids context configured job index
  have next_ids : plan.layoutIdsBefore (index + 1) = plan.layoutIdsBefore index ++ step.nodeIds ++ step.joinIds index := by
    simp [layoutIdsBefore, plan.entries_before_succ index step found]
  have grown (prompt : Text) (sources : List Text) :
      ((plan.sketchBefore context configured job index).place (step.agents.map fun selection =>
        selection.placed context configured prompt sources)).nodes.map Node.id =
      plan.layoutIdsBefore index ++ step.nodeIds := by
    rw [Sketch.place_ids, ids, List.map_map]
    rfl
  rw [plan.sketch_before_succ context configured job index step found, next_ids, placedAt, PlanStep.placed,
    ← Sketch.place_place]
  simp only [addStep, bind_eq_ok, Prod.exists, pure_eq_ok]
  constructor
  · rintro ⟨answer, resolves, _, _, added, _, _, joined, rfl⟩
    obtain rfl := plan.dependencies_resolved context configured job index step answer resolves
    obtain ⟨usable, apart, rfl, rfl⟩ := (add_agents_eq_ok _ _ _ _ _ _ _ _ _ (by rw [ids]; exact unique)).mp added
    obtain ⟨staffed, joinable, fresh, rfl, rfl⟩ := (join_agents_eq_ok step index _ _ _).mp joined
    rw [ids] at apart
    rw [grown] at fresh
    exact ⟨⟨⟨_, resolves⟩, staffed, usable, joinable⟩,
      (join_ids_nodup_append step index _).mpr ⟨fresh, apart⟩, rfl⟩
  · rintro ⟨⟨⟨answer, resolves⟩, staffed, usable, joinable⟩, apart, rfl⟩
    obtain rfl := plan.dependencies_resolved context configured job index step answer resolves
    obtain ⟨fresh, apart⟩ := (join_ids_nodup_append step index _).mp apart
    refine ⟨_, resolves, _, step.nodeIds, (add_agents_eq_ok _ _ _ _ _ _ _ _ _ (by rw [ids]; exact unique)).mpr
      ⟨usable, by rw [ids]; exact apart, rfl, rfl⟩, _, _, ?_, rfl⟩
    exact (join_agents_eq_ok step index _ _ _).mpr ⟨staffed, joinable, by rw [grown]; exact fresh, rfl, rfl⟩

theorem add_steps_cons (index : Nat) (s : Sketch) (step : PlanStep) (rest : List PlanStep) :
    plan.addSteps context configured job s index (step :: rest) =
      plan.addStep context configured job s index step >>= fun next =>
        plan.addSteps context configured job next (index + 1) rest := by
  rw [addSteps]
  cases plan.addStep context configured job s index step <;> rfl

-- The invariant of the run is that the steps so far have given their layout, in which no id occurs twice.
theorem add_steps_eq_ok (index : Nat) (steps : List PlanStep) (t : Sketch) (rest : plan.steps.drop index = steps)
    (bound : index ≤ plan.steps.length) (unique : (plan.layoutIdsBefore index).Nodup) :
    plan.addSteps context configured job (plan.sketchBefore context configured job index) index steps = .ok t ↔
      (∀ (i : Nat) (step : PlanStep), index ≤ i → plan.steps[i]? = some step →
          plan.StepReady context configured job i step) ∧
        (plan.layoutIdsBefore plan.steps.length).Nodup ∧
        t = plan.sketchBefore context configured job plan.steps.length := by
  induction steps generalizing index with
  | nil =>
      have done : index = plan.steps.length := Nat.le_antisymm bound (List.drop_eq_nil_iff.mp rest)
      subst done
      have ready : ∀ (i : Nat) (step : PlanStep), plan.steps.length ≤ i → plan.steps[i]? = some step →
          plan.StepReady context configured job i step := by
        intro i step outside found
        rw [List.getElem?_eq_none outside] at found
        cases found
      simp only [addSteps, Except.ok.injEq]
      exact ⟨fun same => ⟨ready, unique, same.symm⟩, fun all => all.2.2.symm⟩
  | cons step tail ih =>
      obtain ⟨found, next⟩ := plan.steps_left index step tail rest
      have inside : index + 1 ≤ plan.steps.length := (List.getElem?_eq_some_iff.mp found).1
      rw [add_steps_cons, bind_eq_ok]
      simp only [plan.add_step_eq_ok context configured job index step _ found unique]
      constructor
      · rintro ⟨_, ⟨ready, grown, rfl⟩, later⟩
        obtain ⟨others, distinct, same⟩ := (ih (index + 1) next inside grown).mp later
        refine ⟨fun i other from_here other_found => ?_, distinct, same⟩
        rcases Nat.eq_or_lt_of_le from_here with here | behind
        · subst here
          obtain rfl := Option.some.inj (found.symm.trans other_found)
          exact ready
        · exact others i other behind other_found
      · rintro ⟨ready, distinct, same⟩
        have grown := plan.layout_ids_nodup_of_le (index + 1) plan.steps.length inside distinct
        refine ⟨_, ⟨ready index step (Nat.le_refl index) found, grown, rfl⟩, (ih (index + 1) next inside grown).mpr ?_⟩
        exact ⟨fun i other behind => ready i other (Nat.le_of_succ_le behind), distinct, same⟩

end

end Plan

end PlanFlow
