import PlanFlow.Proofs.Precedence
import PlanFlow.Proofs.Topology

/-!
The order in which a compiled specification lets agents run is the order that the steps of its plan ask for:
nothing is lost through the nodes that join a step, and nothing is added.
-/

set_option autoImplicit false

namespace PlanFlow

namespace Plan

-- How nodes of a compiled plan wait for each other.
inductive Link (plan : Plan) (settings : Settings) : Text → Text → Prop where
  | agent (i j : Nat) (step source : PlanStep) (selection : Selection) (found : plan.steps[i]? = some step)
      (selected : selection ∈ step.agents) (follows : plan.Follows i j) (at_source : plan.steps[j]? = some source) :
      Link plan settings selection.nodeId (source.outputId j)
  | join (i : Nat) (step : PlanStep) (id : Text) (found : plan.steps[i]? = some step) (joined : step.isJoined = true)
      (member : id ∈ step.nodeIds) : Link plan settings (step.joinId i) id
  | last (j : Nat) (source : PlanStep) (final : plan.Final j) (at_source : plan.steps[j]? = some source) :
      Link plan settings settings.synthesisNodeId (source.outputId j)

def Owns (plan : Plan) (i : Nat) (id : Text) : Prop :=
  ∃ step, plan.steps[i]? = some step ∧ id ∈ step.nodeIds ++ step.joinIds i

section

variable (plan : Plan) (context : Context) (settings : Settings) (job : Job)

theorem link_of_waits_for (valid : plan.Valid context.agents) (later earlier : Text)
    (waits : (plan.compiled context settings job).WaitsFor later earlier) : plan.Link settings later earlier := by
  obtain ⟨p, inside, rfl, depends⟩ := (plan.compiled_waits_for context settings job later earlier).mp waits
  cases (plan.mem_layout_iff context settings job p).mp inside with
  | agent i step selection found selected =>
      obtain ⟨j, source, follows, at_source, rfl⟩ := (plan.mem_resolved context.agents valid i step found earlier).mp depends
      exact .agent i j step source selection found selected follows at_source
  | join i step found joined =>
      rw [Placed.id_of]
      exact .join i step earlier found joined depends
  | last =>
      obtain ⟨j, source, final, at_source, rfl⟩ := (plan.mem_terminals context.agents valid earlier).mp depends
      exact .last j source final at_source

theorem waits_for_of_link (valid : plan.Valid context.agents) (later earlier : Text)
    (link : plan.Link settings later earlier) : (plan.compiled context settings job).WaitsFor later earlier := by
  simp only [compiled_waits_for, mem_layout_iff]
  cases link with
  | agent i j step source selection found selected follows at_source =>
      refine ⟨_, .agent i step selection found selected, rfl, ?_⟩
      exact (plan.mem_resolved context.agents valid i step found _).mpr ⟨j, source, follows, at_source, rfl⟩
  | join i step id found joined member =>
      exact ⟨_, .join i step found joined, Placed.id_of _ _ _ _, member⟩
  | last j source final at_source =>
      refine ⟨_, .last, rfl, ?_⟩
      exact (plan.mem_terminals context.agents valid _).mpr ⟨j, source, final, at_source, rfl⟩

theorem waits_for_eq_link (valid : plan.Valid context.agents) :
    (plan.compiled context settings job).WaitsFor = plan.Link settings := by
  funext later earlier
  exact propext ⟨plan.link_of_waits_for context settings job valid later earlier,
    plan.waits_for_of_link context settings job valid later earlier⟩

theorem owned_in_layout (i : Nat) (id : Text) (owned : plan.Owns i id) : id ∈ plan.layoutIdsBefore plan.steps.length := by
  obtain ⟨step, found, member⟩ := owned
  exact List.mem_flatMap.mpr ⟨(step, i), (plan.mem_entries i step).mpr found, member⟩

theorem owned_of_layout (id : Text) (member : id ∈ plan.layoutIdsBefore plan.steps.length) : ∃ i, plan.Owns i id := by
  obtain ⟨⟨step, i⟩, entry, inside⟩ := List.mem_flatMap.mp member
  exact ⟨i, step, (plan.mem_entries i step).mp entry, inside⟩

theorem owns_agent (i : Nat) (step : PlanStep) (selection : Selection) (found : plan.steps[i]? = some step)
    (selected : selection ∈ step.agents) : plan.Owns i selection.nodeId :=
  ⟨step, found, List.mem_append_left _ (List.mem_map.mpr ⟨selection, selected, rfl⟩)⟩

theorem owns_output (valid : plan.Valid context.agents) (i : Nat) (step : PlanStep) (found : plan.steps[i]? = some step) :
    plan.Owns i (step.outputId i) :=
  ⟨step, found, step.output_mem_ids i (valid.staffed step (List.mem_of_getElem? found))⟩

section

variable (unique : (plan.layoutIds settings).Nodup)

include unique

theorem owner_unique (i j : Nat) (id : Text) (first : plan.Owns i id) (second : plan.Owns j id) : i = j := by
  obtain ⟨a, at_a, in_a⟩ := first
  obtain ⟨b, at_b, in_b⟩ := second
  have apart := (List.nodup_flatMap.mp (List.nodup_append.mp unique).1).2
  by_contra different
  have symmetric : Std.Symm (Function.onFun List.Disjoint
      fun entry : PlanStep × Nat => entry.1.nodeIds ++ entry.1.joinIds entry.2) := ⟨fun _ _ => List.Disjoint.symm⟩
  have disjoint := apart.forall ((plan.mem_entries i a).mpr at_a) ((plan.mem_entries j b).mpr at_b)
    (fun same => different (congrArg Prod.snd same))
  exact disjoint in_a in_b

theorem synthesis_not_owned (i : Nat) : ¬ plan.Owns i settings.synthesisNodeId := by
  intro owned
  exact (List.nodup_append.mp unique).2.2 _ (plan.owned_in_layout i _ owned) _ (List.mem_singleton_self _) rfl

theorem link_from_owned (valid : plan.Valid context.agents) (i : Nat) (later earlier : Text)
    (owned : plan.Owns i later) (link : plan.Link settings later earlier) :
    ∃ j, plan.Owns j earlier ∧ (plan.Follows i j ∨ j = i ∧ ∃ key, later = NodeId.join key) := by
  cases link with
  | agent k j step source selection found selected follows at_source =>
      obtain rfl := plan.owner_unique settings unique k i _ (plan.owns_agent k step selection found selected) owned
      exact ⟨j, plan.owns_output context valid j source at_source, Or.inl follows⟩
  | join k step id found joined member =>
      have join_owned : plan.Owns k (step.joinId k) :=
        ⟨step, found, List.mem_append_right _ ((step.mem_join_ids k _).mpr ⟨joined, rfl⟩)⟩
      obtain rfl := plan.owner_unique settings unique k i _ join_owned owned
      exact ⟨k, ⟨step, found, List.mem_append_left _ member⟩, Or.inr ⟨rfl, _, rfl⟩⟩
  | last j source final at_source => exact absurd owned (plan.synthesis_not_owned settings unique i)

-- A path that starts at an agent leaves its step at once; on the way it may pass through joins.
theorem follows_of_reaches (valid : plan.Valid context.agents) (j : Nat) (step : PlanStep) (selection : Selection)
    (found : plan.steps[j]? = some step) (selected : selection ∈ step.agents) (id : Text)
    (reaches : Relation.TransGen (plan.Link settings) selection.nodeId id) :
    ∃ i, plan.Owns i id ∧ Relation.TransGen plan.Follows j i := by
  induction reaches with
  | single link =>
      have owned := plan.owns_agent j step selection found selected
      obtain ⟨i, next, follows | ⟨_, key, same⟩⟩ := plan.link_from_owned context settings unique valid j _ _ owned link
      · exact ⟨i, next, .single follows⟩
      · exact absurd same (NodeId.agent_ne_join _ key)
  | tail _ link ih =>
      obtain ⟨k, owned, before⟩ := ih
      obtain ⟨i, next, follows | ⟨rfl, _⟩⟩ := plan.link_from_owned context settings unique valid k _ _ owned link
      · exact ⟨i, next, before.tail follows⟩
      · exact ⟨i, next, before⟩

end

theorem output_reaches_agent (i : Nat) (step : PlanStep) (selection : Selection) (found : plan.steps[i]? = some step)
    (selected : selection ∈ step.agents) :
    step.outputId i = selection.nodeId ∨ plan.Link settings (step.outputId i) selection.nodeId := by
  have member : selection.nodeId ∈ step.nodeIds := List.mem_map.mpr ⟨selection, selected, rfl⟩
  match agents : step.agents with
  | [] => simp [agents] at selected
  | [only] =>
      have same : selection = only := by simpa [agents] using selected
      exact Or.inl (by simp [PlanStep.outputId, agents, same])
  | first :: second :: rest =>
      have joined : step.isJoined = true := by simp [PlanStep.isJoined, agents]
      rw [step.output_of_joined i joined]
      exact Or.inr (.join i step _ found joined member)

theorem reaches_of_follows_direct (i j : Nat) (a b : PlanStep) (later earlier : Selection) (at_a : plan.steps[i]? = some a)
    (at_b : plan.steps[j]? = some b) (in_a : later ∈ a.agents) (in_b : earlier ∈ b.agents) (follows : plan.Follows i j) :
    Relation.TransGen (plan.Link settings) later.nodeId earlier.nodeId := by
  have link : plan.Link settings later.nodeId (b.outputId j) := .agent i j a b later at_a in_a follows at_b
  rcases plan.output_reaches_agent settings j b earlier at_b in_b with same | joins
  · rw [same] at link
    exact .single link
  · exact .tail (.single link) joins

theorem reaches_of_follows (staffed : ∀ step ∈ plan.steps, step.agents ≠ []) (i j : Nat) (a : PlanStep) (later : Selection)
    (at_a : plan.steps[i]? = some a) (in_a : later ∈ a.agents) (follows : Relation.TransGen plan.Follows i j)
    (b : PlanStep) (earlier : Selection) (at_b : plan.steps[j]? = some b) (in_b : earlier ∈ b.agents) :
    Relation.TransGen (plan.Link settings) later.nodeId earlier.nodeId := by
  induction follows generalizing b earlier with
  | single direct => exact plan.reaches_of_follows_direct settings i _ a b later earlier at_a at_b in_a in_b direct
  | @tail k j _ direct ih =>
      obtain ⟨⟨middle, at_middle⟩, _⟩ := plan.follows_found k j direct
      obtain ⟨selection, selected⟩ := List.exists_mem_of_ne_nil _ (staffed middle (List.mem_of_getElem? at_middle))
      exact (ih middle selection at_middle selected).trans
        (plan.reaches_of_follows_direct settings k j middle b selection earlier at_middle at_b selected in_b direct)

theorem agent_in_compiled (i : Nat) (step : PlanStep) (selection : Selection) (found : plan.steps[i]? = some step)
    (selected : selection ∈ step.agents) : selection.nodeId ∈ (plan.compiled context settings job).nodeIds := by
  rw [compiled_ids]
  exact List.mem_append_left _ (plan.owned_in_layout i _ (plan.owns_agent i step selection found selected))

-- The path ends at a node that both steps own, the one it is known to reach and the one that is asked for.
theorem reaches_iff_follows (fits : plan.Compilable context settings job) (i j : Nat) (a b : PlanStep)
    (first second : Selection) (at_a : plan.steps[i]? = some a) (at_b : plan.steps[j]? = some b)
    (in_a : first ∈ a.agents) (in_b : second ∈ b.agents) :
    Relation.TransGen (plan.compiled context settings job).WaitsFor second.nodeId first.nodeId ↔
      Relation.TransGen plan.Follows j i := by
  have unique := fits.sketchable.unique
  rw [plan.waits_for_eq_link context settings job fits.valid]
  constructor
  · intro reaches
    obtain ⟨k, owned, follows⟩ := plan.follows_of_reaches context settings unique fits.valid j b second at_b in_b _ reaches
    obtain rfl := plan.owner_unique settings unique k i _ owned (plan.owns_agent i a first at_a in_a)
    exact follows
  · intro follows
    exact plan.reaches_of_follows settings fits.valid.staffed j i b second at_b in_b follows a first at_a in_a

end

end Plan

theorem compile_keeps_precedence (payload : Payload Plan) (context : Context) (settings : Settings) (job : Job)
    (plan : Plan) (spec : Spec) (given : Plan.read payload = .ok plan)
    (compiled : compile payload context settings job = .ok spec) (i j : Nat) (a b : PlanStep) (first second : Selection)
    (at_a : plan.steps[i]? = some a) (at_b : plan.steps[j]? = some b) (in_a : first ∈ a.agents) (in_b : second ∈ b.agents) :
    ∃ nodeA nodeB, NodeId.ofAgent first.id.trim = .ok nodeA ∧ NodeId.ofAgent second.id.trim = .ok nodeB ∧
      nodeA ∈ spec.nodeIds ∧ nodeB ∈ spec.nodeIds ∧
      (Relation.TransGen spec.WaitsFor nodeB nodeA ↔ Relation.TransGen plan.Follows j i) ∧
      (i = j → ¬ Relation.TransGen spec.WaitsFor nodeB nodeA) := by
  obtain ⟨other, read, fits, rfl, _⟩ := (Plan.compile_eq_ok payload context settings job spec).mp compiled
  obtain rfl : plan = other := Except.ok.inj (given.symm.trans read)
  have node (k : Nat) (step : PlanStep) (selection : Selection) (found : plan.steps[k]? = some step)
      (selected : selection ∈ step.agents) : NodeId.ofAgent selection.id.trim = .ok selection.nodeId :=
    (NodeId.of_agent_eq_ok _ _).mpr ⟨((fits.sketchable.ready k step found).usable selection selected).token, rfl⟩
  have same_order := plan.reaches_iff_follows context settings job fits i j a b first second at_a at_b in_a in_b
  refine ⟨first.nodeId, second.nodeId, node i a first at_a in_a, node j b second at_b in_b,
    plan.agent_in_compiled context settings job i a first at_a in_a,
    plan.agent_in_compiled context settings job j b second at_b in_b, same_order, ?_⟩
  rintro rfl reaches
  exact Nat.lt_irrefl i (plan.follows_all_earlier context.agents fits.valid i i (same_order.mp reaches))

theorem sample_precedence : ∃ spec drafter editor, compile (.parsed Sample.plan) Sample.context .standard Sample.job = .ok spec ∧
    NodeId.ofAgent ("drafter" : Text) = .ok drafter ∧ NodeId.ofAgent ("editor" : Text) = .ok editor ∧
    Relation.TransGen spec.WaitsFor editor drafter := by
  obtain ⟨spec, compiled⟩ := Sample.compiles
  obtain ⟨drafter, editor, first, second, _, _, same_order, _⟩ := compile_keeps_precedence (.parsed Sample.plan)
    Sample.context .standard Sample.job Sample.plan spec rfl compiled 0 1 _ _ ⟨"drafter", "writes"⟩ ⟨"editor", "polishes"⟩
    rfl rfl (by decide) (by decide)
  have follows : Sample.plan.Follows 1 0 :=
    (Sample.plan.follows_of_explicit (by decide) 1 0).mpr ⟨_, _, rfl, rfl, by decide⟩
  exact ⟨spec, drafter, editor, compiled, first, second, same_order.mpr (.single follows)⟩

end PlanFlow
