import Mathlib
import PlanFlow.Graph.Cycle

/-!
The search for cycles reports none when every node ranks above the nodes that it depends on.
-/

set_option autoImplicit false

namespace PlanFlow

namespace Dependencies

def Ranked (relation : Dependencies) (rank : Text → Nat) : Prop :=
  ∀ entry ∈ relation, ∀ dependency ∈ entry.2, rank dependency < rank entry.1

theorem dependent_ranks_above (relation : Dependencies) (rank : Text → Nat) (ranked : relation.Ranked rank)
    (node dependent : Text) (member : dependent ∈ relation.dependents node) : rank node < rank dependent := by
  obtain ⟨entry, chosen, rfl⟩ := List.mem_map.mp member
  obtain ⟨given, waits⟩ := List.mem_filter.mp chosen
  exact ranked entry given node (List.contains_iff_mem.mp waits)

theorem fold_visit_ok (visited : List Text → Text → Except (List Text) (List Text)) (nodes finished : List Text)
    (passes : ∀ finished, ∀ node ∈ nodes, ∃ answer, visited finished node = .ok answer) :
    ∃ answer, nodes.foldlM visited finished = .ok answer := by
  induction nodes generalizing finished with
  | nil => exact ⟨finished, rfl⟩
  | cons head tail ih =>
      obtain ⟨next, first⟩ := passes finished head List.mem_cons_self
      obtain ⟨answer, rest⟩ := ih next (fun done node member => passes done node (List.mem_cons_of_mem head member))
      refine ⟨answer, ?_⟩
      rw [List.foldlM_cons, first]
      exact rest

-- The path that leads to a node holds nodes of lower rank only, so the node is not met on it.
theorem visit_ranked (relation : Dependencies) (rank : Text → Nat) (ranked : relation.Ranked rank) (fuel : Nat)
    (path finished : List Text) (node : Text) (below : ∀ other ∈ path, rank other < rank node) :
    ∃ answer, visit relation fuel path finished node = .ok answer := by
  induction fuel generalizing path finished node with
  | zero => exact ⟨finished, rfl⟩
  | succ fuel ih =>
      have fresh : node ∉ path := fun member => Nat.lt_irrefl _ (below node member)
      by_cases done : node ∈ finished
      · exact ⟨finished, by simp [visit, fresh, done]⟩
      · obtain ⟨answer, searched⟩ := fold_visit_ok (visit relation fuel (node :: path)) (relation.dependents node)
          finished (fun done dependent member => ih (node :: path) done dependent (fun other given => by
            have above := dependent_ranks_above relation rank ranked node dependent member
            rcases List.mem_cons.mp given with here | before
            · exact here ▸ above
            · exact Nat.lt_trans (below other before) above))
        exact ⟨node :: answer, by simp [visit, fresh, done, searched]⟩

theorem find_cycle_ranked (relation : Dependencies) (rank : Text → Nat) (ranked : relation.Ranked rank) :
    relation.findCycle? = none := by
  obtain ⟨answer, searched⟩ := fold_visit_ok
    (visit relation ((sortOn id (relation.map Prod.fst)).length + 1) []) (sortOn id (relation.map Prod.fst)) []
    (fun finished node _ => visit_ranked relation rank ranked _ [] finished node (by simp))
  simp [findCycle?, searched]

end Dependencies

end PlanFlow
