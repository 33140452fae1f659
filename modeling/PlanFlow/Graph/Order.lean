import PlanFlow.Graph.Cycle

/-!
An order in which nodes can run, generation by generation: first the nodes that wait for none that is left.
There is such an order unless some of the nodes wait for each other.
-/

set_option autoImplicit false

namespace PlanFlow

namespace Dependencies

def nodes (relation : Dependencies) : List Text := relation.map Prod.fst

def isHeld (relation : Dependencies) (entry : Text × List Text) : Bool :=
  entry.2.any fun dependency => relation.nodes.contains dependency

def held (relation : Dependencies) : Dependencies := relation.filter relation.isHeld

def free (relation : Dependencies) : Dependencies := relation.filter fun entry => !relation.isHeld entry

def order? (relation : Dependencies) : Option (List Text) :=
  if relation.held.length < relation.length then relation.held.order?.map (relation.free.nodes ++ ·)
  else if relation.isEmpty then some []
  else none
termination_by relation.length

end Dependencies

end PlanFlow
