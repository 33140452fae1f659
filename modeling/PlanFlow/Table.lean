import PlanFlow.Text.Basic

/-!
Tables from texts to values that keep the order in which keys were first put.
-/

set_option autoImplicit false

namespace PlanFlow

abbrev Table (α : Type) := List (Text × α)

namespace Table

variable {α : Type}

def get? (key : Text) : Table α → Option α
  | [] => none
  | (name, value) :: rest => if name = key then some value else get? key rest

def hasKey (key : Text) (table : Table α) : Bool := table.any fun entry => entry.1 == key

def keys (table : Table α) : List Text := table.map Prod.fst

def values (table : Table α) : List α := table.map Prod.snd

def put (key : Text) (value : α) : Table α → Table α
  | [] => [(key, value)]
  | (name, old) :: rest =>
      if name = key then (name, value) :: rest else (name, old) :: put key value rest

def ofPairs (pairs : List (Text × α)) : Table α :=
  pairs.foldl (fun table pair => put pair.1 pair.2 table) []

/-- The table with keys that have a UTF-8 form. Keys that become equal are one, with the last value at the
place of the first. -/
def encodable (table : Table α) : Table α :=
  ofPairs (table.map fun entry => (Text.replaceSurrogates entry.1, entry.2))

end Table

end PlanFlow
