import PlanFlow.Proofs.Compilation

/-!
The order of nodes in a compiled specification. Nodes wait only for nodes that stand before them, and the node
that brings the results together stands last.
-/

set_option autoImplicit false

namespace PlanFlow

namespace Spec

def WaitsFor (spec : Spec) (later earlier : Text) : Prop :=
  ∃ node ∈ spec.nodes, node.id = later ∧ earlier ∈ node.dependsOn.getD []

def Topological (spec : Spec) : Prop :=
  ∀ (before : List Node) (node : Node) (after : List Node), spec.nodes = before ++ node :: after →
    ∀ id ∈ node.dependsOn.getD [], id ∈ before.map Node.id

theorem waits_for_earlier (spec : Spec) (unique : spec.nodeIds.Nodup) (topological : spec.Topological)
    (later earlier : Text) (waits : spec.WaitsFor later earlier) :
    spec.nodeIds.idxOf earlier < spec.nodeIds.idxOf later := by
  obtain ⟨node, member, rfl, depends⟩ := waits
  obtain ⟨before, after, split⟩ := List.append_of_mem member
  have first := topological before node after split earlier depends
  rw [nodeIds, split, List.map_append, List.map_cons] at unique ⊢
  exact position_before _ _ node.id earlier unique first

theorem reaches_earlier (spec : Spec) (unique : spec.nodeIds.Nodup) (topological : spec.Topological)
    (later earlier : Text) (reaches : Relation.TransGen spec.WaitsFor later earlier) :
    spec.nodeIds.idxOf earlier < spec.nodeIds.idxOf later := by
  induction reaches with
  | single waits => exact spec.waits_for_earlier unique topological _ _ waits
  | tail _ waits ih => exact Nat.lt_trans (spec.waits_for_earlier unique topological _ _ waits) ih

theorem topological_acyclic (spec : Spec) (unique : spec.nodeIds.Nodup) (topological : spec.Topological) (id : Text) :
    ¬ Relation.TransGen spec.WaitsFor id id :=
  fun reaches => Nat.lt_irrefl _ (spec.reaches_earlier unique topological id id reaches)

end Spec

namespace Plan

section

variable (plan : Plan) (context : Context) (settings : Settings) (job : Job)

theorem compiled_waits_for (later earlier : Text) :
    (plan.compiled context settings job).WaitsFor later earlier ↔
      ∃ p ∈ plan.layout context settings job, p.id = later ∧ earlier ∈ p.sources := by
  constructor
  · rintro ⟨node, member, rfl, depends⟩
    obtain ⟨p, inside, rfl⟩ := List.mem_map.mp member
    exact ⟨p, inside, rfl, (p.settled_waits earlier).mp depends⟩
  · rintro ⟨p, inside, rfl, waits⟩
    exact ⟨p.settled, List.mem_map.mpr ⟨p, inside, rfl⟩, rfl, (p.settled_waits earlier).mpr waits⟩

theorem compiled_topological (staffed : ∀ step ∈ plan.steps, step.agents ≠ []) :
    (plan.compiled context settings job).Topological := by
  intro before node after split id depends
  have nodes : (plan.layout context settings job).map Placed.settled = before ++ node :: after := split
  obtain ⟨front, rest, whole, rfl, settled⟩ := List.map_eq_append_iff.mp nodes
  obtain ⟨p, back, rfl, rfl, rfl⟩ := List.map_eq_cons_iff.mp settled
  have laid := plan.layout_laid context settings job staffed
  rw [whole] at laid
  have known := laid_sources_before [] front back p laid id ((p.settled_waits id).mp depends)
  rw [List.map_map]
  exact known

theorem compiled_ids_nodup (fits : plan.Compilable context settings job) :
    (plan.compiled context settings job).nodeIds.Nodup := by
  rw [compiled_ids]
  exact fits.sketchable.unique

theorem compiled_last :
    (plan.compiled context settings job).nodes.getLast? = some (plan.synthesisPlaced settings job).settled := by
  rw [compiled, specified, layout, List.map_append, List.map_singleton, List.getLast?_concat]

end

end Plan

theorem compile_topological (payload : Payload Plan) (context : Context) (settings : Settings) (job : Job) (spec : Spec)
    (compiled : compile payload context settings job = .ok spec) :
    spec.nodeIds.Nodup ∧ spec.Topological ∧ (∀ id, ¬ Relation.TransGen spec.WaitsFor id id) ∧
      (∃ last terminal, spec.nodes.getLast? = some last ∧ last.id = settings.synthesisNodeId ∧
        last.action = .request .llm (Plan.synthesisRequest job terminal)) ∧
      spec.edges = [] ∧ spec.outputs = [⟨settings.resultOutputName, settings.synthesisNodeId, none⟩] := by
  obtain ⟨plan, _, fits, rfl, _⟩ := (Plan.compile_eq_ok payload context settings job spec).mp compiled
  have unique := plan.compiled_ids_nodup context settings job fits
  have topological := plan.compiled_topological context settings job fits.sketchable.staffed
  have last := plan.compiled_last context settings job
  exact ⟨unique, topological, Spec.topological_acyclic _ unique topological, ⟨_, plan.terminals, last, rfl, rfl⟩, rfl, rfl⟩

theorem sample_topological :
    ∃ spec, compile (.parsed Sample.plan) Sample.context .standard Sample.job = .ok spec ∧ spec.Topological := by
  obtain ⟨spec, compiled⟩ := Sample.compiles
  exact ⟨spec, compiled, (compile_topological _ _ _ _ spec compiled).2.1⟩

end PlanFlow
