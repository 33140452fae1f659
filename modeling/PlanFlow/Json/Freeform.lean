import PlanFlow.Json.Basic

/-!
Free-form values: the parts of a record that may hold any JSON value. A record is written as data that every
reader of JSON accepts, so a number that is not finite is written as null inside a list or an object, and
a key needs a UTF-8 form.

A value that fills a field of its own is written with a little more care than the value of an extra field: a
number that is the whole value stays as it is, keys of its outermost object are brought into UTF-8 form,
and its outermost level does not count against the limit of depth.
-/

set_option autoImplicit false

namespace PlanFlow

inductive Freeform where
  | field (value : Json)
  | extra (value : Json)

namespace Freeform

inductive Obstacle where
  | key (key : Text)
  | depth
deriving DecidableEq

def depthLimit : Nat := 254

mutual

def finite : Json → Json
  | .null => .null
  | .bool value => .bool value
  | .int value => .int value
  | .float value => if value.isFinite then .float value else .null
  | .str value => .str value
  | .arr items => .arr (finiteItems items)
  | .obj fields => .obj (finiteFields fields)

def finiteItems : List Json → List Json
  | [] => []
  | item :: rest => finite item :: finiteItems rest

def finiteFields : List (Text × Json) → List (Text × Json)
  | [] => []
  | (key, value) :: rest => (key, finite value) :: finiteFields rest

end

mutual

def obstacleIn? (room : Nat) : Json → Option Obstacle
  | .arr items => if room = 0 then some .depth else obstacleInItems? (room - 1) items
  | .obj fields => if room = 0 then some .depth else obstacleInFields? (room - 1) fields
  | _ => none

def obstacleInItems? (room : Nat) : List Json → Option Obstacle
  | [] => none
  | item :: rest =>
      match obstacleIn? room item with
      | some obstacle => some obstacle
      | none => obstacleInItems? room rest

def obstacleInFields? (room : Nat) : List (Text × Json) → Option Obstacle
  | [] => none
  | (key, value) :: rest =>
      if Text.hasSurrogate key then some (.key key)
      else
        match obstacleIn? room value with
        | some obstacle => some obstacle
        | none => obstacleInFields? room rest

end

def parts : Json → List Json
  | .arr items => items
  | .obj fields => Table.values fields
  | _ => []

/-- A value whose parts cannot be written is looked at once more as a whole, with its outermost level like any
other, and the first obstacle in that is the one that counts. -/
def obstacle? : Freeform → Option Obstacle
  | .field value =>
      match obstacleInItems? depthLimit (parts value) with
      | some _ => obstacleIn? depthLimit value
      | none => none
  | .extra value => obstacleIn? depthLimit value

def firstObstacle? (values : List Freeform) : Option Obstacle := values.findSome? obstacle?

def toJson : Freeform → Json
  | .field (.arr items) => .arr (finiteItems items)
  | .field (.obj fields) => .obj (Table.encodable (finiteFields fields))
  | .field value => value
  | .extra value => finite value

end Freeform

end PlanFlow
