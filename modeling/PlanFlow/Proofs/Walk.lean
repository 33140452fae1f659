import PlanFlow.Graph.Walk
import PlanFlow.Proofs.Acyclic

/-!
What a walk takes next, and how the edges of its trail stand to the path that it is on. Of the edges left at a node only
the nodes matter that they lead to. The trail has the edges along the path; those of detours that came back to the path
are cut off before an edge from there is kept.
-/

set_option autoImplicit false

namespace PlanFlow

namespace Dependencies

def onward (untaken : List (Text × Text)) (node : Text) : List Text :=
  (untaken.filter fun edge => edge.1 = node).map Prod.snd

section

variable (untaken : List (Text × Text)) (node : Text)

theorem onward_spent (spent : untaken.find? (fun edge => edge.1 = node) = none) : onward untaken node = [] := by
  rw [onward, List.map_eq_nil_iff, List.filter_eq_nil_iff]
  exact List.find?_eq_none.mp spent

theorem taken_from (edge : Text × Text) (found : untaken.find? (fun edge => edge.1 = node) = some edge) : edge.1 = node := by
  simpa using List.find?_some found

theorem onward_taken (edge : Text × Text) (found : untaken.find? (fun edge => edge.1 = node) = some edge) :
    onward untaken node = edge.2 :: onward (untaken.eraseP fun other => other.1 = node) node := by
  induction untaken with
  | nil => cases found
  | cons head tail ih =>
      by_cases own : head.1 = node
      · obtain rfl : head = edge := by simpa [own] using found
        simp [onward, own]
      · have later : tail.find? (fun edge => edge.1 = node) = some edge := by simpa [own] using found
        simpa [onward, own] using ih later

theorem onward_other (other : Text) (apart : other ≠ node) :
    onward (untaken.eraseP fun edge => edge.1 = node) other = onward untaken other := by
  induction untaken with
  | nil => rfl
  | cons head tail ih =>
      by_cases own : head.1 = node
      · simp [onward, own, apart.symm]
      · rw [List.eraseP_cons_of_neg (by simpa using own)]
        by_cases theirs : head.1 = other
        · simpa [onward, theirs] using ih
        · simpa [onward, theirs] using ih

theorem walk_spent (rest : List Text) (spent : untaken.find? (fun edge => edge.1 = node) = none) :
    walk untaken (node :: rest) = walk untaken rest := by
  rw [walk]
  split
  · rfl
  · rename_i found
    rw [spent] at found
    cases found

theorem walk_taken (rest : List Text) (edge : Text × Text) (taken : untaken.find? (fun edge => edge.1 = node) = some edge) :
    walk untaken (node :: rest) = edge :: walk (untaken.eraseP fun other => other.1 = node) (edge.2 :: node :: rest) := by
  rw [walk]
  split
  · rename_i found
    rw [taken] at found
    cases found
  · rename_i other found
    obtain rfl := Option.some.inj (taken.symm.trans found)
    rfl

end

theorem unique_filter (dependencies : List Text) (node : Text) :
    (uniqueOn id dependencies).filter (fun dependency => dependency = node) = if node ∈ dependencies then [node] else [] := by
  have apart : (uniqueOn id dependencies).Nodup := by
    refine (unique_ascending dependencies).imp ?_
    rintro first _ less rfl
    exact List.lt_irrefl first less
  rw [List.filter_eq, apart.count]
  simp only [mem_unique]
  split_ifs <;> rfl

theorem onward_edges (relation : Dependencies) (node : Text) : onward relation.edges node = relation.dependents node := by
  induction relation with
  | nil => rfl
  | cons entry rest ih =>
      have own : onward ((uniqueOn id entry.2).map fun dependency => (dependency, entry.1)) node =
          if node ∈ entry.2 then [entry.1] else [] := by
        rw [onward, List.filter_map, List.map_map]
        simp only [Function.comp_def, unique_filter]
        split_ifs <;> rfl
      have parts : onward (edges (entry :: rest)) node =
          onward ((uniqueOn id entry.2).map fun dependency => (dependency, entry.1)) node ++ onward (edges rest) node := by
        simp [onward, edges]
      rw [parts, own, ih]
      by_cases waits : node ∈ entry.2 <;> simp [dependents, waits]

def steps : List Text → List (Text × Text)
  | node :: previous :: outer => (previous, node) :: steps (previous :: outer)
  | _ => []

theorem steps_tails (node : Text) (outer : List Text) : (steps (node :: outer)).map Prod.fst = outer := by
  induction outer generalizing node with
  | nil => rfl
  | cons previous outer ih => rw [steps, List.map_cons, ih previous]

theorem steps_heads (path : List Text) (last : Text) (ends : path.getLast? = some last) :
    (steps path).map Prod.snd ++ [last] = path := by
  induction path with
  | nil => cases ends
  | cons node outer ih =>
      cases outer with
      | nil => simpa [steps] using ends.symm
      | cons previous outer =>
          rw [List.getLast?_cons_cons] at ends
          rw [steps, List.map_cons, List.cons_append, ih ends]

theorem steps_closed (node met : Text) (outer : List Text) (distinct : (node :: outer).Nodup) (member : met ∈ node :: outer) :
    (((node, met) :: steps (node :: outer)).reverse.dropWhile fun edge => edge.1 ≠ met).map Prod.fst =
      closedBy met (node :: outer) := by
  obtain ⟨inner, rest, split, fresh⟩ := List.eq_append_cons_of_mem member
  have tails : (((node, met) :: steps (node :: outer)).reverse.map Prod.fst) = rest.reverse ++ met :: inner.reverse := by
    rw [List.map_reverse, List.map_cons, steps_tails, split]
    simp
  rw [split] at distinct
  obtain ⟨_, behind, _⟩ := List.nodup_append.mp distinct
  have unmet : ∀ other ∈ rest.reverse, decide (other ≠ met) = true := fun other inside => by
    simpa using fun same : other = met => (List.nodup_cons.mp behind).1 (same ▸ List.mem_reverse.mp inside)
  have kept : ∀ other ∈ inner, decide (other ≠ met) = true := fun other inside => by
    simpa using fun same : other = met => fresh (same ▸ inside)
  calc
    _ = ((((node, met) :: steps (node :: outer)).reverse.map Prod.fst).dropWhile fun other => other ≠ met) := by
      rw [List.dropWhile_map]
      rfl
    _ = met :: inner.reverse := by
      rw [tails, List.dropWhile_append_of_pos unmet]
      simp
    _ = closedBy met (node :: outer) := by
      rw [split, closedBy, List.takeWhile_append_of_pos kept]
      simp

theorem cut_detours (node : Text) (outer : List Text) (last : Text) (ends : (node :: outer).getLast? = some last)
    (first : Text × Text) (detours : List (Text × Text)) (apart : ∀ edge ∈ detours, edge.2 ≠ node) :
    Trail.cut node (first :: (detours ++ steps (node :: outer)))
      ((first :: (detours ++ steps (node :: outer))).map Prod.snd ++ [last]) = (steps (node :: outer), node :: outer) := by
  induction detours generalizing first with
  | nil =>
      have heads := steps_heads (node :: outer) last ends
      cases outer with
      | nil => simp [Trail.cut, steps]
      | cons previous outer =>
          rw [List.nil_append, List.map_cons, List.cons_append, heads]
          simp [Trail.cut, steps]
  | cons second detours ih =>
      obtain ⟨other, rest⟩ := List.forall_mem_cons.mp apart
      rw [List.cons_append, Trail.cut, if_neg (by simpa using other), List.map_cons, List.cons_append, List.erase_cons_head]
      exact ih second rest

end Dependencies

end PlanFlow
