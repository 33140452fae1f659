import PlanFlow.Plan.Synthesis
import PlanFlow.Proofs.NodeId
import PlanFlow.Proofs.Sorted

/-!
The layout of a plan: the nodes that each step gives, and the nodes that their edges come from, said for every
step on its own. Whatever a run of the synthesizer builds step by step is the layout of the steps so far.
-/

set_option autoImplicit false

namespace PlanFlow

structure Placed where
  node : Node
  sources : List Text

namespace Placed

def id (p : Placed) : Text := p.node.id

theorem id_of (id : Text) (dependsOn : Option (List Text)) (action : Action) (sources : List Text) :
    Placed.id ⟨⟨id, dependsOn, action⟩, sources⟩ = id := rfl

def edges (p : Placed) : List Edge := p.sources.map fun source => Sketch.plainEdge source p.id

end Placed

namespace Sketch

def place (s : Sketch) (placed : List Placed) : Sketch :=
  { s with nodes := s.nodes ++ placed.map Placed.node, edges := s.edges ++ placed.flatMap Placed.edges }

theorem add_node_eq_place (s : Sketch) (node : Node) (sources : List Text) :
    s.addNode node sources = s.place [⟨node, sources⟩] := by
  simp [addNode, place, Placed.edges, Placed.id]

theorem place_nil (s : Sketch) : s.place [] = s := by simp [place]

theorem place_place (s : Sketch) (a b : List Placed) : (s.place a).place b = s.place (a ++ b) := by
  simp [place]

def latest? (outputs : List StepOutput) (key : Text) : Option Text :=
  (outputs.reverse.find? fun output => output.key == key).map StepOutput.node

end Sketch

namespace Selection

def nodeId (selection : Selection) : Text := NodeId.agent selection.id.trim

structure Usable (selection : Selection) (context : Context) (configured : List Text) : Prop where
  known : ∃ agent, context.agents.find? selection.id.trim = some agent ∧
    ∀ tool ∈ agent.toolNames context configured, context.tools.isAllowed tool = true
  token : NodeId.token selection.id.trim ≠ []

def request (selection : Selection) (context : Context) (configured : List Text) (prompt : Text) : Request :=
  match context.agents.find? selection.id.trim with
  | some agent => Plan.agentRequest agent prompt (distinct (agent.toolNames context configured))
  | none => Request.empty

def placed (selection : Selection) (context : Context) (configured : List Text) (prompt : Text)
    (sources : List Text) : Placed :=
  ⟨⟨selection.nodeId, none, .request .llm (selection.request context configured prompt)⟩, sources⟩

end Selection

namespace PlanStep

def nodeIds (step : PlanStep) : List Text := step.agents.map Selection.nodeId

def isJoined (step : PlanStep) : Bool := 1 < step.agents.length

def joinId (step : PlanStep) (index : Nat) : Text := NodeId.join (step.key index)

def joinIds (step : PlanStep) (index : Nat) : List Text := if step.isJoined then [step.joinId index] else []

def outputId (step : PlanStep) (index : Nat) : Text :=
  match step.agents with
  | [selection] => selection.nodeId
  | _ => step.joinId index

def output (step : PlanStep) (index : Nat) : StepOutput := ⟨step.key index, step.outputId index⟩

def joins (step : PlanStep) (index : Nat) : List Placed :=
  (step.joinIds index).map fun id => ⟨⟨id, none, .joinAll⟩, step.nodeIds⟩

def placed (step : PlanStep) (context : Context) (configured : List Text) (job : Job) (index : Nat)
    (dependencies : List Prompt.Dependency) : List Placed :=
  (step.agents.map fun selection =>
      selection.placed context configured (Prompt.agent job.instructions job.task dependencies)
        (dependencies.map Prompt.Dependency.node)) ++
    step.joins index

theorem mem_join_ids (step : PlanStep) (index : Nat) (id : Text) :
    id ∈ step.joinIds index ↔ step.isJoined = true ∧ id = step.joinId index := by
  by_cases joined : step.isJoined = true <;> simp [joinIds, joined]

theorem mem_placed (step : PlanStep) (context : Context) (configured : List Text) (job : Job) (index : Nat)
    (dependencies : List Prompt.Dependency) (p : Placed) :
    p ∈ step.placed context configured job index dependencies ↔
      (∃ selection ∈ step.agents, p = selection.placed context configured
        (Prompt.agent job.instructions job.task dependencies) (dependencies.map Prompt.Dependency.node)) ∨
      step.isJoined = true ∧ p = ⟨⟨step.joinId index, none, .joinAll⟩, step.nodeIds⟩ := by
  simp only [placed, joins, List.mem_append, List.mem_map, mem_join_ids]
  constructor
  · rintro (⟨selection, selected, rfl⟩ | ⟨_, ⟨joined, rfl⟩, rfl⟩)
    · exact Or.inl ⟨selection, selected, rfl⟩
    · exact Or.inr ⟨joined, rfl⟩
  · rintro (⟨selection, selected, rfl⟩ | ⟨joined, rfl⟩)
    · exact Or.inl ⟨selection, selected, rfl⟩
    · exact Or.inr ⟨_, ⟨joined, rfl⟩, rfl⟩

theorem placed_ids (step : PlanStep) (context : Context) (configured : List Text) (job : Job) (index : Nat)
    (dependencies : List Prompt.Dependency) :
    (step.placed context configured job index dependencies).map Placed.id = step.nodeIds ++ step.joinIds index := by
  simp only [placed, joins, List.map_append, List.map_map, nodeIds]
  congr 1
  exact List.map_id _

theorem output_mem_ids (step : PlanStep) (index : Nat) (staffed : step.agents ≠ []) :
    step.outputId index ∈ step.nodeIds ++ step.joinIds index := by
  match selected : step.agents with
  | [] => exact absurd selected staffed
  | [selection] => simp [outputId, nodeIds, selected]
  | first :: second :: rest => simp [outputId, joinIds, isJoined, selected]

theorem output_of_joined (step : PlanStep) (index : Nat) (joined : step.isJoined = true) :
    step.outputId index = step.joinId index := by
  rw [isJoined, decide_eq_true_eq] at joined
  match selected : step.agents with
  | [] => simp [selected] at joined
  | [_] => simp [selected] at joined
  | _ :: _ :: _ => simp [outputId, selected]

end PlanStep

namespace Plan

def entriesBefore (plan : Plan) (index : Nat) : List (PlanStep × Nat) := (plan.steps.take index).zipIdx

def outputsBefore (plan : Plan) (index : Nat) : List StepOutput :=
  (plan.entriesBefore index).map fun entry => entry.1.output entry.2

theorem steps_left (plan : Plan) (index : Nat) (step : PlanStep) (tail : List PlanStep)
    (left : plan.steps.drop index = step :: tail) :
    plan.steps[index]? = some step ∧ plan.steps.drop (index + 1) = tail := by
  constructor
  · rw [← List.head?_drop, left]
    rfl
  · rw [← List.tail_drop, left]
    rfl

-- What a step builds on, as far as outputs are recorded for it.
def resolved (plan : Plan) (index : Nat) (step : PlanStep) : List Prompt.Dependency :=
  if plan.isExplicit then
    (distinct (step.dependencies.map Text.trim)).filterMap fun key =>
      (Sketch.latest? (plan.outputsBefore index) key).map fun node => ⟨key, node⟩
  else (plan.outputsBefore index).getLast?.toList.map fun output => ⟨output.key, output.node⟩

section

variable (plan : Plan) (context : Context) (configured : List Text) (job : Job)

def placedAt (entry : PlanStep × Nat) : List Placed :=
  entry.1.placed context configured job entry.2 (plan.resolved entry.2 entry.1)

def layoutBefore (index : Nat) : List Placed :=
  (plan.entriesBefore index).flatMap (plan.placedAt context configured job)

def sketchBefore (index : Nat) : Sketch :=
  { Sketch.empty.place (plan.layoutBefore context configured job index) with outputs := plan.outputsBefore index }

def layoutIdsBefore (index : Nat) : List Text :=
  (plan.entriesBefore index).flatMap fun entry => entry.1.nodeIds ++ entry.1.joinIds entry.2

theorem layout_ids (index : Nat) :
    (plan.layoutBefore context configured job index).map Placed.id = plan.layoutIdsBefore index := by
  simp only [layoutBefore, layoutIdsBefore, List.map_flatMap, placedAt, PlanStep.placed_ids]

theorem sketch_ids (index : Nat) :
    (plan.sketchBefore context configured job index).nodes.map Node.id = plan.layoutIdsBefore index := by
  rw [← plan.layout_ids context configured job index]
  simp only [sketchBefore, Sketch.place, Sketch.empty, List.nil_append, List.map_map]
  rfl

theorem entries_before_succ (index : Nat) (step : PlanStep) (found : plan.steps[index]? = some step) :
    plan.entriesBefore (index + 1) = plan.entriesBefore index ++ [(step, index)] := by
  have bound := (List.getElem?_eq_some_iff.mp found).1
  have length : (plan.steps.take index).length = index := List.length_take_of_le (Nat.le_of_lt bound)
  rw [entriesBefore, List.take_add_one, found, Option.toList_some, List.zipIdx_append, length, Nat.zero_add]
  rfl

theorem entries_before_take (index upper : Nat) (before : index ≤ upper) :
    plan.entriesBefore index = (plan.entriesBefore upper).take index := by
  apply List.ext_getElem?
  intro i
  rw [entriesBefore, entriesBefore, List.getElem?_take, List.getElem?_zipIdx, List.getElem?_zipIdx,
    List.getElem?_take, List.getElem?_take]
  by_cases inside : i < index
  · simp [inside, Nat.lt_of_lt_of_le inside before]
  · simp [inside]

theorem layout_ids_nodup_of_le (index upper : Nat) (before : index ≤ upper)
    (unique : (plan.layoutIdsBefore upper).Nodup) : (plan.layoutIdsBefore index).Nodup := by
  rw [layoutIdsBefore, ← List.take_append_drop index (plan.entriesBefore upper), List.flatMap_append,
    ← plan.entries_before_take index upper before] at unique
  exact (List.nodup_append.mp unique).1

theorem mem_entries_before (index i : Nat) (step : PlanStep) :
    (step, i) ∈ plan.entriesBefore index ↔ i < index ∧ plan.steps[i]? = some step := by
  rw [entriesBefore, List.mem_zipIdx_iff_getElem?, List.getElem?_take]
  by_cases before : i < index <;> simp [before]

theorem mem_entries (i : Nat) (step : PlanStep) :
    (step, i) ∈ plan.entriesBefore plan.steps.length ↔ plan.steps[i]? = some step := by
  rw [mem_entries_before]
  exact ⟨fun entry => entry.2, fun found => ⟨(List.getElem?_eq_some_iff.mp found).1, found⟩⟩

theorem sketch_before_zero : plan.sketchBefore context configured job 0 = Sketch.empty := rfl

theorem sketch_before_succ (index : Nat) (step : PlanStep) (found : plan.steps[index]? = some step) :
    plan.sketchBefore context configured job (index + 1) =
      ((plan.sketchBefore context configured job index).place
        (plan.placedAt context configured job (step, index))).addOutput (step.output index) := by
  simp [sketchBefore, layoutBefore, outputsBefore, plan.entries_before_succ index step found, Sketch.place,
    Sketch.addOutput]

end

end Plan

end PlanFlow
