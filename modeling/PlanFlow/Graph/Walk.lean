import PlanFlow.Graph.Cycle

/-!
The search for cycles edge by edge. Edges lead from a node to one that waits for it. A walk takes every edge that it can
reach once, depth first, and meets nodes as often as edges lead to them. The trail holds those of the edges taken that
lead to where the walk is, and is cut back when the walk goes on from an earlier node. An edge that leads back onto
the trail closes a cycle.
-/

set_option autoImplicit false

namespace PlanFlow

namespace Dependencies

def edges (relation : Dependencies) : List (Text × Text) :=
  relation.flatMap fun entry => (uniqueOn id entry.2).map fun dependency => (dependency, entry.1)

theorem erase_found_length (p : Text × Text → Bool) (untaken : List (Text × Text)) (edge : Text × Text)
    (found : untaken.find? p = some edge) : (untaken.eraseP p).length < untaken.length := by
  have member := List.mem_of_find?_eq_some found
  have nonempty := List.length_pos_of_mem member
  rw [List.length_eraseP_of_mem member (List.find?_some found)]
  omega

def walk (untaken : List (Text × Text)) : List Text → List (Text × Text)
  | [] => []
  | node :: rest =>
      match found : untaken.find? fun edge => edge.1 = node with
      | none => walk untaken rest
      | some edge =>
          have := erase_found_length _ untaken edge found
          edge :: walk (untaken.eraseP fun other => other.1 = node) (edge.2 :: node :: rest)
termination_by stack => (untaken.length, stack.length)

/-- What is kept of a walk: the edges that lead to where it is, the last one first, the nodes they lead to, all nodes
met from the start, and the node that the last edge kept led to. -/
structure Trail where
  edges : List (Text × Text)
  active : List Text
  seen : List Text
  previous : Option Text

namespace Trail

def start (node : Text) : Trail := ⟨[], [node], [node], none⟩

def cut (node : Text) : List (Text × Text) → List Text → List (Text × Text) × List Text
  | [], _ => ([], [node])
  | dropped :: rest, active =>
      if rest.head?.map Prod.snd = some node then (rest, active.erase dropped.2)
      else cut node rest (active.erase dropped.2)

def upTo (trail : Trail) (node : Text) : List (Text × Text) × List Text :=
  if trail.previous.any fun last => last ≠ node then cut node trail.edges trail.active
  else (trail.edges, trail.active)

/-- Follows the edges of a walk. Either one leads back onto the trail, or the nodes seen are the answer. Nodes explored
by an earlier walk are passed over. -/
def follow (explored : List Text) (trail : Trail) : List (Text × Text) → Except (List (Text × Text)) (List Text)
  | [] => .ok trail.seen
  | edge :: rest =>
      if explored.contains edge.2 then trail.follow explored rest
      else
        let (kept, active) := trail.upTo edge.1
        if active.contains edge.2 then .error ((edge :: kept).reverse.dropWhile fun other => other.1 ≠ edge.2)
        else follow explored ⟨edge :: kept, edge.2 :: active, edge.2 :: trail.seen, some edge.2⟩ rest

end Trail

def explore (relation : Dependencies) (explored : List Text) (node : Text) : Except (List (Text × Text)) (List Text) :=
  if explored.contains node then .ok explored
  else ((Trail.start node).follow explored (walk relation.edges [node])).map (· ++ explored)

def edgeCycle? (relation : Dependencies) : Option (List Text) :=
  match (sortOn id (relation.map Prod.fst)).foldlM relation.explore [] with
  | .error cycle => some (cycle.map Prod.fst)
  | .ok _ => none

end Dependencies

end PlanFlow
