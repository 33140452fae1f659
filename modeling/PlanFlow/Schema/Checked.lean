import PlanFlow.Schema.Issue

/-!
The outcome of a schema check: a value, or everything that is wrong. Checks of the parts of a value are
combined so that the issues of all of them are kept, in the order of the parts.
-/

set_option autoImplicit false

namespace PlanFlow

inductive Checked (α : Type) where
  | valid (value : α)
  | invalid (issues : List Issue)

namespace Checked

variable {α β : Type}

def map (f : α → β) : Checked α → Checked β
  | .valid value => .valid (f value)
  | .invalid issues => .invalid issues

def apply : Checked (α → β) → Checked α → Checked β
  | .valid f, .valid value => .valid (f value)
  | .valid _, .invalid issues => .invalid issues
  | .invalid issues, .valid _ => .invalid issues
  | .invalid issues, .invalid more => .invalid (issues ++ more)

instance : Applicative Checked where
  pure := .valid
  map := map
  seq f x := apply f (x ())

def andThen (f : α → Checked β) : Checked α → Checked β
  | .valid value => f value
  | .invalid issues => .invalid issues

def under (step : Step) : Checked α → Checked α
  | .valid value => .valid value
  | .invalid issues => .invalid (issues.map fun issue => { issue with path := step :: issue.path })

def fail (kind : IssueKind) (input : Json) : Checked α := .invalid [⟨kind, [], input⟩]

end Checked

end PlanFlow
