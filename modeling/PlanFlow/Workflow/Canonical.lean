import PlanFlow.Failure
import PlanFlow.Workflow.Freeform
import PlanFlow.Workflow.Writer

/-!
What is written of a specification and its parts, and the canonical text and digest of a specification. A
free-form value that cannot be written is met before anything that has no canonical form.
-/

set_option autoImplicit false

namespace PlanFlow

def Condition.write (nulls : Nulls) (c : Condition) : Outcome Json :=
  Outcome.written c.freeform (c.toJson nulls)

def Edge.write (nulls : Nulls) (e : Edge) : Outcome Json := Outcome.written e.freeform (e.toJson nulls)

def Node.write (nulls : Nulls) (n : Node) : Outcome Json := Outcome.written n.freeform (n.toJson nulls)

namespace Spec

def write (nulls : Nulls) (s : Spec) : Outcome Json := Outcome.written s.freeform (s.toJson nulls)

def payload (s : Spec) : Outcome Json := Outcome.written s.freeform s.toPayload

def canonicalText (s : Spec) : Outcome Text :=
  s.payload >>= fun form => Outcome.ofCanonical (Json.Canonical.write form)

def digest (s : Spec) : Outcome Text := s.canonicalText.map Json.Canonical.digest

end Spec

end PlanFlow
