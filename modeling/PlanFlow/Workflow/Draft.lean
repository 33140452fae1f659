import PlanFlow.Graph.Cycle
import PlanFlow.Schema.Record
import PlanFlow.Workflow.FanOutShape
import PlanFlow.Workflow.Order
import PlanFlow.Workflow.Target

/-!
Building a specification from a draft. Edges and the dependencies of nodes are reconciled here: every edge
becomes a dependency of its target, and only edges with a condition stay edges. References are checked,
cycles refused, and everything is brought into canonical order.
-/

set_option autoImplicit false

namespace PlanFlow

/-- A workflow in the making. The bound on parallelism is kept as given until the workflow is built. -/
structure Draft where
  name : Option Text
  model : Option Text
  maxParallelism : Json
  nodes : List Node
  edges : List Edge
  outputs : List OutputRef

namespace Draft

def empty : Draft := ⟨none, none, .null, [], [], []⟩

def checkDistinctIds (seen : List Text) : List Node → Outcome (List Text)
  | [] => .ok seen
  | node :: rest =>
      if seen.contains node.id then Outcome.reject (.duplicateNode node.id)
      else checkDistinctIds (seen ++ [node.id]) rest

def checkDependency (ids : List Text) (node dependency : Text) : Outcome Unit :=
  if dependency = node then Outcome.reject (.selfDependency node)
  else if ids.contains dependency then .ok ()
  else Outcome.reject (.unknownDependency node dependency)

def checkDependencies (ids : List Text) (node : Node) : Outcome Unit :=
  (node.dependsOn.getD []).forM (checkDependency ids node.id)

def checkEdge (ids : List Text) (e : Edge) : Outcome Unit :=
  if !ids.contains e.target then Outcome.reject (.edgeToUnknown e.source e.target)
  else if !ids.contains e.source then Outcome.reject (.edgeFromUnknown e.source e.target)
  else if e.source = e.target then Outcome.reject (.edgeToItself e.source e.target)
  else .ok ()

def checkOutput (ids : List Text) (o : OutputRef) : Outcome Unit :=
  if ids.contains o.source then .ok () else Outcome.reject (.unknownOutputSource o.name o.source)

def checkBindingSources (ids : List Text) (node : Text) : Nat → List Binding → Outcome Unit
  | _, [] => .ok ()
  | index, binding :: rest =>
      if ids.contains binding.source then checkBindingSources ids node (index + 1) rest
      else Outcome.reject (.unknownBindingSource node index binding.source)

def checkReference (ids : List Text) (node : Text) (ref : ValueRef) : Outcome Unit :=
  if ids.contains ref.source then .ok () else Outcome.reject (.unknownReference node ref.source)

def checkRequest (ids : List Text) (node : Text) (request : Request) : Outcome Unit := do
  let bindings := request.bindings.getD []
  checkBindingSources ids node 0 bindings
  Target.checkBindings node request.messages bindings

def checkFanOut (ids : List Text) (node : Text) (f : FanOut) : Outcome Unit := do
  match f.itemsFrom.bind Text.orAbsent with
  | none => pure ()
  | some source =>
      if ids.contains source then pure () else Outcome.reject (.unknownItemsSource node source)
  f.validate node

def checkNode (ids : List Text) (node : Node) : Outcome Unit :=
  match node.action with
  | .request _ request => checkRequest ids node.id request
  | .transform t => t.sources.forM (checkReference ids node.id)
  | .mapFanout f => checkFanOut ids node.id f
  | .joinAll | .joinAny _ | .joinCollect _ _ _ => .ok ()

def dependenciesOf (edges : List Edge) (node : Node) : List Text :=
  canonicalDependencies
    (node.dependsOn.getD [] ++ (edges.filter fun e => e.target = node.id).map Edge.source)

def dependencies (nodes : List Node) (edges : List Edge) : Dependencies :=
  nodes.map fun node => (node.id, dependenciesOf edges node)

def checkAcyclic (relation : Dependencies) : Outcome Unit :=
  match relation.findCycle? with
  | some path => Outcome.reject (.cycle path)
  | none => .ok ()

def settle (edges : List Edge) (node : Node) : Node :=
  let all := dependenciesOf edges node
  { node with dependsOn := if all.isEmpty then none else some all }

def checkParallelism (given : Json) : Checked (Option Int) :=
  (Schema.optional Schema.positiveInteger given).under (.key "max_parallelism")

def trimmedName (name : Option Text) : Option Text := (name.getD []).trim.orAbsent

def buildCounted (d : Draft) : Outcome (Spec × Nat) := do
  if d.nodes.isEmpty then Outcome.reject .noNodes
  let ids ← checkDistinctIds [] d.nodes
  let edges ← Edge.canonicalOrder d.edges
  d.nodes.forM (checkDependencies ids)
  edges.forM (checkEdge ids)
  let outputs := OutputRef.canonicalOrder d.outputs
  if outputs.isEmpty then Outcome.reject .noOutputs
  outputs.forM (checkOutput ids)
  d.nodes.forM (checkNode ids)
  checkAcyclic (dependencies d.nodes edges)
  let maxParallelism ← Outcome.ofChecked (checkParallelism d.maxParallelism)
  let spec : Spec := {
    name := trimmedName d.name
    model := d.model
    maxParallelism := maxParallelism
    nodes := d.nodes.map (settle edges)
    edges := edges.filter fun e => e.condition.isSome
    outputs := outputs }
  return (spec, edges.length)

def build (d : Draft) : Outcome Spec := d.buildCounted.map Prod.fst

/-- The draft that a specification was built from, up to the edges it has folded into dependencies. -/
def ofSpec (s : Spec) : Draft :=
  ⟨s.name, s.model, Json.ofInt? s.maxParallelism, s.nodes, s.edges, s.outputs⟩

end Draft

end PlanFlow
