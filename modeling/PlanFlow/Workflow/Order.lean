import PlanFlow.Sorted
import PlanFlow.Workflow.Canonical

/-!
The canonical order of what a specification lists. Edges go by source, target and the canonical text of
their condition, and edges that agree in all three are one; outputs go by name, source and pointer.
-/

set_option autoImplicit false

namespace PlanFlow

namespace Edge

def conditionText (e : Edge) : Outcome Text :=
  match e.condition with
  | none => .ok []
  | some condition =>
      condition.write .dropped >>= fun form => Outcome.ofCanonical (Json.Canonical.write form)

def sortKey (e : Edge) : Outcome (List Text) :=
  e.conditionText.map fun condition => [e.source, e.target, condition]

def withKeys : List Edge → Outcome (List (List Text × Edge))
  | [] => .ok []
  | e :: rest =>
      match e.sortKey with
      | .error failure => .error failure
      | .ok key =>
          match withKeys rest with
          | .error failure => .error failure
          | .ok keyed => .ok ((key, e) :: keyed)

def canonicalOrder (edges : List Edge) : Outcome (List Edge) :=
  (withKeys edges).map fun keyed => (uniqueOn Prod.fst keyed).map Prod.snd

end Edge

namespace OutputRef

/-- An absent pointer sorts like an empty one. -/
def sortKey (o : OutputRef) : List Text := [o.name, o.source, o.pointer.getD []]

def canonicalOrder (outputs : List OutputRef) : List OutputRef := sortOn sortKey outputs

end OutputRef

def canonicalDependencies (dependencies : List Text) : List Text := uniqueOn id dependencies

end PlanFlow
