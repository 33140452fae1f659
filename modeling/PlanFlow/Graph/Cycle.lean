import PlanFlow.Sorted
import PlanFlow.Text.Basic

/-!
Cycles in a dependency relation. The search goes from each node, in ascending order, along the nodes that
depend on it, depth first. A node met again on the path that leads to it closes a cycle; a node whose
search has ended lies on none.
-/

set_option autoImplicit false

namespace PlanFlow

abbrev Dependencies := List (Text × List Text)

namespace Dependencies

def dependents (relation : Dependencies) (node : Text) : List Text :=
  (relation.filter fun entry => entry.2.contains node).map Prod.fst

def closedBy (node : Text) (path : List Text) : List Text :=
  node :: (path.takeWhile fun other => other ≠ node).reverse

/-- Searches from one node. Either a cycle is found or the node is added to the finished ones. The fuel
bounds the length of the path. -/
def visit (relation : Dependencies) :
    Nat → List Text → List Text → Text → Except (List Text) (List Text)
  | 0, _, finished, _ => .ok finished
  | fuel + 1, path, finished, node =>
      if path.contains node then .error (closedBy node path)
      else if finished.contains node then .ok finished
      else
        match (relation.dependents node).foldlM (visit relation fuel (node :: path)) finished with
        | .error cycle => .error cycle
        | .ok finished => .ok (node :: finished)

def findCycle? (relation : Dependencies) : Option (List Text) :=
  let nodes := sortOn id (relation.map Prod.fst)
  match nodes.foldlM (visit relation (nodes.length + 1) []) [] with
  | .error cycle => some cycle
  | .ok _ => none

end Dependencies

end PlanFlow
