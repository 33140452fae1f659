import PlanFlow.Proofs.Scheduling

/-!
What the last node of a compiled specification collects: the nodes that no other node waits for, and through
them the result of every agent.
-/

set_option autoImplicit false

namespace PlanFlow

namespace Spec

theorem waiting_is_node (spec : Spec) (later earlier : Text) (waits : spec.WaitsFor later earlier) :
    later ∈ spec.nodeIds := by
  obtain ⟨node, member, rfl, _⟩ := waits
  exact List.mem_map.mpr ⟨node, member, rfl⟩

def Sink (spec : Spec) (last id : Text) : Prop :=
  id ∈ spec.nodeIds ∧ id ≠ last ∧ ∀ other, other ≠ last → ¬ spec.WaitsFor other id

-- By induction on the number of nodes behind a node: those that wait for it stand further behind.
theorem last_reaches (spec : Spec) (last : Text) (unique : spec.nodeIds.Nodup) (topological : spec.Topological)
    (collects : ∀ id, spec.Sink last id → spec.WaitsFor last id) (behind : Nat) (id : Text) (member : id ∈ spec.nodeIds)
    (different : id ≠ last) (distance : spec.nodeIds.length - spec.nodeIds.idxOf id = behind) :
    Relation.TransGen spec.WaitsFor last id := by
  induction behind using Nat.strongRecOn generalizing id with
  | ind behind ih =>
      by_cases sink : ∀ other, other ≠ last → ¬ spec.WaitsFor other id
      · exact .single (collects id ⟨member, different, sink⟩)
      · simp only [not_forall, not_not] at sink
        obtain ⟨other, apart, waits⟩ := sink
        have node := spec.waiting_is_node other id waits
        have above := spec.waits_for_earlier unique topological other id waits
        have bound := List.idxOf_lt_length_iff.mpr node
        exact (ih _ (by omega) other node apart rfl).tail waits

end Spec

namespace Plan

section

variable (plan : Plan) (context : Context) (settings : Settings) (job : Job) (fits : plan.Compilable context settings job)

include fits

theorem owned_ne_synthesis (i : Nat) (id : Text) (owned : plan.Owns i id) : id ≠ settings.synthesisNodeId := by
  rintro rfl
  exact plan.synthesis_not_owned settings fits.sketchable.unique i owned

-- The output of a final step is not waited for inside the step either: a join comes last there.
theorem output_is_sink (j : Nat) (source : PlanStep) (final : plan.Final j) (at_source : plan.steps[j]? = some source) :
    (plan.compiled context settings job).Sink settings.synthesisNodeId (source.outputId j) := by
  have owned := plan.owns_output context fits.valid j source at_source
  refine ⟨?_, plan.owned_ne_synthesis context settings job fits j _ owned, fun other apart waits => ?_⟩
  · rw [compiled_ids]
    exact List.mem_append_left _ (plan.owned_in_layout j _ owned)
  · have link := plan.link_of_waits_for context settings job fits.valid other _ waits
    generalize output : source.outputId j = id at link owned
    cases link with
    | agent i k step other_source selection found selected follows at_other =>
        have same := plan.owner_unique settings fits.sketchable.unique k j _
          (plan.owns_output context fits.valid k other_source at_other) owned
        subst same
        exact final.2 i follows
    | join i step _ found joined member =>
        have inside : plan.Owns i id := ⟨step, found, List.mem_append_left _ member⟩
        obtain rfl := plan.owner_unique settings fits.sketchable.unique i j id inside owned
        obtain rfl := Option.some.inj (found.symm.trans at_source)
        obtain ⟨selection, _, same⟩ := List.mem_map.mp member
        exact NodeId.agent_ne_join _ _ (same.trans (output.symm.trans (step.output_of_joined i joined)))
    | last k other_source _ _ => exact apart rfl

theorem owned_sink_is_output (j : Nat) (source : PlanStep) (at_source : plan.steps[j]? = some source) (id : Text)
    (member : id ∈ source.nodeIds ++ source.joinIds j)
    (sink : (plan.compiled context settings job).Sink settings.synthesisNodeId id) : id = source.outputId j := by
  have output := plan.owns_output context fits.valid j source at_source
  have apart := plan.owned_ne_synthesis context settings job fits j _ output
  rcases List.mem_append.mp member with agent | join
  · obtain ⟨selection, selected, rfl⟩ := List.mem_map.mp agent
    rcases plan.output_reaches_agent settings j source selection at_source selected with same | link
    · exact same.symm
    · exact absurd (plan.waits_for_of_link context settings job fits.valid _ _ link) (sink.2.2 _ apart)
  · obtain ⟨joined, same⟩ := (source.mem_join_ids j id).mp join
    rw [same, source.output_of_joined j joined]

theorem sink_is_output (id : Text) (sink : (plan.compiled context settings job).Sink settings.synthesisNodeId id) :
    ∃ (j : Nat) (source : PlanStep), plan.Final j ∧ plan.steps[j]? = some source ∧ id = source.outputId j := by
  have inside := sink.1
  rw [compiled_ids] at inside
  rcases List.mem_append.mp inside with early | last
  · obtain ⟨j, source, at_source, member⟩ := plan.owned_of_layout id early
    obtain rfl := plan.owned_sink_is_output context settings job fits j source at_source id member sink
    refine ⟨j, source, ⟨(List.getElem?_eq_some_iff.mp at_source).1, fun i follows => ?_⟩, at_source, rfl⟩
    obtain ⟨⟨step, found⟩, _⟩ := plan.follows_found i j follows
    obtain ⟨selection, selected⟩ := List.exists_mem_of_ne_nil _ (fits.valid.staffed step (List.mem_of_getElem? found))
    have waits := plan.waits_for_of_link context settings job fits.valid _ _
      (.agent i j step source selection found selected follows at_source)
    exact sink.2.2 _ (plan.owned_ne_synthesis context settings job fits i _ (plan.owns_agent i step selection found selected)) waits
  · exact absurd (List.mem_singleton.mp last) sink.2.1

theorem mem_terminals_iff_sink (id : Text) :
    id ∈ plan.terminals ↔ (plan.compiled context settings job).Sink settings.synthesisNodeId id := by
  rw [plan.mem_terminals context.agents fits.valid]
  constructor
  · rintro ⟨j, source, final, at_source, rfl⟩
    exact plan.output_is_sink context settings job fits j source final at_source
  · exact plan.sink_is_output context settings job fits id

theorem terminals_nonempty : plan.terminals ≠ [] := by
  have some_step := List.length_pos_iff.mpr fits.valid.nonempty
  have below : plan.steps.length - 1 < plan.steps.length := by omega
  have at_last := List.getElem?_eq_getElem below
  have final : plan.Final (plan.steps.length - 1) := by
    refine ⟨below, fun i follows => ?_⟩
    have before := plan.follows_earlier context.agents fits.valid i _ follows
    obtain ⟨⟨step, found⟩, _⟩ := plan.follows_found i _ follows
    have bound := (List.getElem?_eq_some_iff.mp found).1
    omega
  exact List.ne_nil_of_mem ((plan.mem_terminals context.agents fits.valid _).mpr ⟨_, _, final, at_last, rfl⟩)

end

end Plan

theorem compile_collects_sinks (payload : Payload Plan) (context : Context) (settings : Settings) (job : Job) (spec : Spec)
    (compiled : compile payload context settings job = .ok spec) :
    ∃ last, spec.nodes.getLast? = some last ∧ last.id = settings.synthesisNodeId ∧ last.dependsOn.getD [] ≠ [] ∧
      (∀ id, id ∈ last.dependsOn.getD [] ↔ spec.Sink last.id id) ∧
      ∀ id ∈ spec.nodeIds, id ≠ last.id → Relation.TransGen spec.WaitsFor last.id id := by
  obtain ⟨plan, _, fits, rfl, _⟩ := (Plan.compile_eq_ok payload context settings job spec).mp compiled
  have sinks (id : Text) : id ∈ (plan.synthesisPlaced settings job).settled.dependsOn.getD [] ↔
      (plan.compiled context settings job).Sink settings.synthesisNodeId id :=
    ((plan.synthesisPlaced settings job).settled_waits id).trans (plan.mem_terminals_iff_sink context settings job fits id)
  refine ⟨_, plan.compiled_last context settings job, rfl, ?_, sinks, fun id member different => ?_⟩
  · obtain ⟨id, terminal⟩ := List.exists_mem_of_ne_nil _ (plan.terminals_nonempty context settings job fits)
    exact List.ne_nil_of_mem (((plan.synthesisPlaced settings job).settled_waits id).mpr terminal)
  · have unique := plan.compiled_ids_nodup context settings job fits
    refine Spec.last_reaches _ _ unique (plan.compiled_topological context settings job fits.valid.staffed)
      (fun other sink => ?_) _ id member different rfl
    exact ⟨_, List.mem_of_getLast? (plan.compiled_last context settings job), rfl, (sinks other).mpr sink⟩

theorem sample_collects_sinks : ∃ spec last, compile (.parsed Sample.plan) Sample.context .standard Sample.job = .ok spec ∧
    spec.nodes.getLast? = some last ∧ ∀ id ∈ spec.nodeIds, id ≠ last.id → Relation.TransGen spec.WaitsFor last.id id := by
  obtain ⟨spec, compiled⟩ := Sample.compiles
  obtain ⟨last, stands_last, _, _, _, reached⟩ := compile_collects_sinks _ _ _ _ spec compiled
  exact ⟨spec, last, compiled, stands_last, reached⟩

end PlanFlow
