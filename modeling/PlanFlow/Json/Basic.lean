import PlanFlow.Number.Binary64
import PlanFlow.Table

/-!
JSON values. Whole numbers and floating-point numbers are told apart by how they were written, and an
object keeps the order of its keys.
-/

set_option autoImplicit false

namespace PlanFlow

inductive Json where
  | null
  | bool (value : Bool)
  | int (value : Int)
  | float (value : Binary64)
  | str (value : Text)
  | arr (items : List Json)
  | obj (fields : List (Text × Json))

namespace Json

instance : Inhabited Json := ⟨.null⟩

def isNull : Json → Bool
  | .null => true
  | _ => false

/-- Null, false, zero and what holds nothing count as not given where a value is optional. -/
def isVoid : Json → Bool
  | .null => true
  | .bool value => !value
  | .int value => value == 0
  | .float value => value.isZero
  | .str value => value.isEmpty
  | .arr items => items.isEmpty
  | .obj fields => fields.isEmpty

def typeName : Json → Text
  | .null => "NoneType"
  | .bool _ => "bool"
  | .int _ => "int"
  | .float _ => "float"
  | .str _ => "str"
  | .arr _ => "list"
  | .obj _ => "dict"

def orNull (value : Json) : Json := if value.isVoid then .null else value

def ofText? : Option Text → Json
  | none => .null
  | some value => .str value

def ofInt? : Option Int → Json
  | none => .null
  | some value => .int value

def texts (values : List Text) : Json := .arr (values.map .str)

end Json

end PlanFlow
