import PlanFlow.Workflow.Reader

/-!
Short ways to write conditions, bindings and references. The parts are JSON values that nobody has checked
yet, so a part that does not fit is reported like a field of a record, the source under `from_`.
-/

set_option autoImplicit false

namespace PlanFlow

def sourceField (source : Json) : Text × Json := ("from_", source)

def pointerField (pointer : Json) : Text × Json := ("pointer", pointer.orNull)

namespace Condition

def when (source : ConditionSource) (op : ConditionOp) (path value : Json) : Checked Condition :=
  ofJson (.obj [("source", .str source.name), ("op", .str op.name), ("path", path), ("value", value)])

end Condition

namespace Binding

def bind (field : Text) (source target pointer encoding : Json) : Checked Binding :=
  ofJson (.obj [sourceField source, pointerField pointer, (field, target), ("encoding", encoding)])

def toPointer (source target pointer encoding : Json) : Checked Binding :=
  bind "to" source target pointer encoding

def toPlaceholder (source target pointer encoding : Json) : Checked Binding :=
  bind "to_placeholder" source target pointer encoding

def usualEncoding : Json := .str Encoding.jsonString.name

end Binding

def ValueRef.from (source pointer : Json) : Checked ValueRef :=
  ofJson (.obj [sourceField source, pointerField pointer])

end PlanFlow
