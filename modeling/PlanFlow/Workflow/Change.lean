import PlanFlow.Workflow.Draft

/-!
Changes to a draft. A workflow is put together by changes one after the other; each adds a node, an edge or an
output, or sets one of the settings of the whole.
-/

set_option autoImplicit false

namespace PlanFlow

inductive Change where
  | setName (name : Option Text)
  | setModel (model : Option Text)
  | setParallelism (bound : Json)
  | addNode (node : Node)
  | addEdge (edge : Edge)
  | addOutput (output : OutputRef)

namespace Draft

def apply (d : Draft) : Change → Draft
  | .setName name => { d with name := name }
  | .setModel model => { d with model := model }
  | .setParallelism bound => { d with maxParallelism := bound }
  | .addNode node => { d with nodes := d.nodes ++ [node] }
  | .addEdge e => { d with edges := d.edges ++ [e] }
  | .addOutput o => { d with outputs := d.outputs ++ [o] }

def applyAll (d : Draft) (changes : List Change) : Draft := changes.foldl apply d

end Draft

end PlanFlow
