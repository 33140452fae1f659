import PlanFlow.Json.Basic
import PlanFlow.Number.Layout
import PlanFlow.Text.Quoted

/-!
Values as log lines show them: quoted texts, `None`, `True` and `False`, items between brackets and
members between braces, each after a comma and a space.
-/

set_option autoImplicit false

namespace PlanFlow

namespace Literal

def list (items : List Text) : Text := ("[" : Text) ++ Text.join ", " items ++ ("]" : Text)

/-- A single component keeps a comma behind it. -/
def tuple : List Text → Text
  | [item] => ("(" : Text) ++ item ++ (",)" : Text)
  | items => ("(" : Text) ++ Text.join ", " items ++ (")" : Text)

def member (key value : Text) : Text := Text.quoted key ++ (": " : Text) ++ value

def table (members : List (Text × Text)) : Text :=
  ("\x7b" : Text) ++ Text.join ", " (members.map fun entry => member entry.1 entry.2) ++ ("\x7d" : Text)

end Literal

namespace Json

mutual

def literal : Json → Text
  | .null => "None"
  | .bool true => "True"
  | .bool false => "False"
  | .int value => Decimal.ofInt value
  | .float value => value.toText
  | .str value => Text.quoted value
  | .arr items => Literal.list (literalItems items)
  | .obj fields => Literal.table (literalFields fields)

def literalItems : List Json → List Text
  | [] => []
  | item :: rest => literal item :: literalItems rest

def literalFields : List (Text × Json) → List (Text × Text)
  | [] => []
  | (key, value) :: rest => (key, literal value) :: literalFields rest

end

mutual

def wholes : Json → List Int
  | .int value => [value]
  | .arr items => wholesOfItems items
  | .obj fields => wholesOfFields fields
  | _ => []

def wholesOfItems : List Json → List Int
  | [] => []
  | item :: rest => wholes item ++ wholesOfItems rest

def wholesOfFields : List (Text × Json) → List Int
  | [] => []
  | (_, value) :: rest => wholes value ++ wholesOfFields rest

end

def printable (value : Json) : Bool := value.wholes.all Decimal.printable

def display : Json → Text
  | .str value => value
  | other => literal other

end Json

end PlanFlow
