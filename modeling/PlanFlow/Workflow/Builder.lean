import PlanFlow.Workflow.Change
import PlanFlow.Workflow.Shorthand

/-!
Changes made from JSON values that nobody has checked yet. Parts that are values of the workflow already, such
as conditions and bindings, are taken as they are; the rest is checked as in the record of the node.
-/

set_option autoImplicit false

namespace PlanFlow

open Schema

namespace Change

/-- The items of a value given where a list belongs: of a text its letters, of an object its keys. -/
def spread : Json → Outcome (List Json)
  | .arr items => .ok items
  | .str t => .ok (t.map fun c => .str [c])
  | .obj fields => .ok (fields.map fun entry => .str entry.1)
  | other => .error (.notAList other.typeName)

def dependencies (given : Json) : Outcome Json :=
  if given.isVoid then .ok .null else (spread given).map .arr

def name (given : Text) : Change := .setName given.trim.orAbsent

def node (tag : Text) (id dependsOn : Json) (fields : Table Json) (action : Table Json → Checked Action) :
    Outcome Node := do
  let dependsOn ← dependencies dependsOn
  let frame : Table Json := [("id", id), ("depends_on", dependsOn)]
  Outcome.ofChecked <|
    (fun frame action => ⟨frame.id, frame.dependsOn, action⟩) <$> Frame.ofFields tag frame
      <*> action fields

def joinAll (id dependsOn : Json) : Outcome Change :=
  (node Action.joinAll.tag id dependsOn [] fun _ => .valid .joinAll).map .addNode

def joinAny (id : Json) (predicate : Option Condition) (dependsOn : Json) : Outcome Change :=
  let action := Action.joinAny predicate
  (node action.tag id dependsOn [] fun _ => .valid action).map .addNode

def joinCollect (id limit timeout : Json) (predicate : Option Condition) (dependsOn : Json) :
    Outcome Change :=
  let fields : Table Json := [("limit", limit), ("timeout_ms", timeout)]
  (node (Action.joinCollect none none none).tag id dependsOn fields fun fields =>
    (fun limit timeout => Action.joinCollect limit timeout predicate)
      <$> absentable "limit" positiveInteger fields
      <*> absentable "timeout_ms" positiveInteger fields).map .addNode

def transform (id : Json) (object : Option (Table ValueRef)) (merge : Option (List ValueRef))
    (dependsOn : Json) : Outcome Change :=
  let action := Action.transform ⟨object, merge⟩
  (node action.tag id dependsOn [] fun _ => .valid action).map .addNode

structure FanOutOptions where
  itemsFrom : Json
  itemsFromInput : Json
  itemsPointer : Json
  maxParallelism : Json

def FanOutOptions.fields (o : FanOutOptions) : Table Json := [
  ("items_from", o.itemsFrom), ("items_from_input", o.itemsFromInput),
  ("items_pointer", o.itemsPointer), ("max_parallelism", o.maxParallelism)]

def fanOutAction (subnode : SubNode) (itemBindings : Option (List Binding)) (fields : Table Json) :
    Checked Action :=
  (fun itemsFrom itemsFromInput itemsPointer maxParallelism =>
      Action.mapFanout ⟨itemsFrom, itemsFromInput, itemsPointer, subnode, itemBindings, maxParallelism⟩)
    <$> absentable "items_from" anyText fields
    <*> absentable "items_from_input" anyText fields
    <*> absentable "items_pointer" anyText fields
    <*> absentable "max_parallelism" positiveInteger fields

def fanOut (id : Json) (subnode : SubNode) (options : FanOutOptions) (itemBindings : Option (List Binding))
    (dependsOn : Json) : Outcome Change := do
  let node ← node FanOut.tag id dependsOn options.fields (fanOutAction subnode itemBindings)
  (Outcome.ofChecked (Node.checkItems (.obj options.fields) node)).map .addNode

def requestOptions : List Text :=
  ["system", "user", "input", "model", "stream", "tools", "tool_execution", "tool_limits", "bindings",
    "depends_on"]

def checkOptions (options : Table Json) : Outcome Unit :=
  match (Table.keys options).filter fun name => !requestOptions.contains name with
  | [] => .ok ()
  | unknown => .error (.unsupportedOptions (sortOn id unknown))

def toolMode : Json → Outcome Json
  | .str name =>
      match Table.get? name ToolMode.modes with
      | some mode => .ok (.obj [("mode", .str mode.name)])
      | none => .error (.unknownToolMode name)
  | other => .ok other

def messages : Json → Outcome Json
  | .null => .ok .null
  | given => do
      let items ← spread given
      items.forM fun item => (Outcome.ofChecked (Message.ofJson item)).map fun _ => ()
      return .arr items

def listOption : Json → Outcome Json
  | .null => .ok .null
  | given => (spread given).map .arr

def settleOption (given : Text × Json) : Outcome (Text × Json) :=
  if given.1 = "tool_execution" then (toolMode given.2).map (Prod.mk given.1)
  else if given.1 = "input" then (messages given.2).map (Prod.mk given.1)
  else if given.1 = "tools" || given.1 = "depends_on" then (listOption given.2).map (Prod.mk given.1)
  else .ok given

def settleOrder (options : Table Json) : Table Json :=
  let rank : List Text := ["tool_execution", "input", "tools", "depends_on"]
  sortOn (fun entry => rank.findIdx (· == entry.1)) options

def request (kind : RequestKind) (id : Json) (options : Table Json) (bindings : Option (List Binding)) :
    Outcome Change := do
  checkOptions options
  let options ← (settleOrder options).mapM settleOption
  let fields : Table Json := ("id", id) :: options
  Outcome.ofChecked <|
    (fun frame request =>
        Change.addNode ⟨frame.id, frame.dependsOn, .request kind { request with bindings := bindings }⟩)
      <$> Frame.ofFields kind.tag fields <*> Request.ofFields fields

def edge (source target : Json) (condition : Option Condition) : Outcome Change :=
  Outcome.ofChecked <|
    (Edge.ofJson (.obj [sourceField source, ("to", target)])).map fun e =>
      .addEdge { e with condition := condition }

def output (name source pointer : Json) : Outcome Change :=
  Outcome.ofChecked <|
    (OutputRef.ofJson (.obj [("name", name), sourceField source, pointerField pointer])).map .addOutput

end Change

end PlanFlow
