import PlanFlow.Json.Freeform
import PlanFlow.Workflow.Basic

/-!
The JSON form of workflow specifications, either with every field or without the fields that are null. Null
inside a free-form value always stays. The compact form of a specification is what is executed and what
its canonical text and digest are taken of. Keys of tables are brought into UTF-8 form.
-/

set_option autoImplicit false

namespace PlanFlow

inductive Nulls where
  | kept
  | dropped
deriving DecidableEq

namespace Nulls

def entries (nulls : Nulls) (given : List (Text × Json)) : List (Text × Json) :=
  match nulls with
  | .kept => given
  | .dropped => given.filter fun entry => !entry.2.isNull

def record (nulls : Nulls) (given : List (Text × Json)) : Json := .obj (nulls.entries given)

end Nulls

namespace Json

variable {α : Type}

def ofOption (write : α → Json) : Option α → Json
  | none => .null
  | some value => write value

def ofList (write : α → Json) (items : List α) : Json := .arr (items.map write)

def ofTable (write : α → Json) (table : Table α) : Json :=
  .obj (Table.encodable (table.map fun entry => (entry.1, write entry.2)))

end Json

open Json (ofText? ofInt? ofOption ofList ofTable)

def Condition.toJson (nulls : Nulls) (c : Condition) : Json :=
  nulls.record [("source", .str c.source.name), ("op", .str c.op.name), ("path", .str c.path),
    ("value", (Freeform.field c.value).toJson)]

def Edge.toJson (nulls : Nulls) (e : Edge) : Json :=
  nulls.record [("from", .str e.source), ("to", .str e.target),
    ("when", ofOption (Condition.toJson nulls) e.condition)]

def OutputRef.toJson (nulls : Nulls) (o : OutputRef) : Json :=
  nulls.record [("name", .str o.name), ("from", .str o.source), ("pointer", ofText? o.pointer)]

/-- An extra field is dropped if it was given as null, not if it is written as null. -/
def ContentBlock.toJson (nulls : Nulls) (b : ContentBlock) : Json :=
  let extra := (nulls.entries b.extra).map fun entry => (entry.1, (Freeform.extra entry.2).toJson)
  .obj (nulls.entries [("type", .str b.kind), ("text", ofText? b.text)] ++ extra)

def Message.toJson (nulls : Nulls) (m : Message) : Json :=
  nulls.record [("type", .str "message"), ("role", .str m.role),
    ("content", ofList (ContentBlock.toJson nulls) m.content)]

def Binding.toJson (nulls : Nulls) (b : Binding) : Json :=
  nulls.record [("from", .str b.source), ("pointer", ofText? b.pointer), ("to", ofText? b.target),
    ("to_placeholder", ofText? b.placeholder), ("encoding", .str b.encoding.name)]

def Tool.toJson : Tool → Json
  | .named name => .str name
  | .described fields => (Freeform.field (.obj fields)).toJson

def ToolMode.toJson (mode : ToolMode) : Json := .obj [("mode", .str mode.name)]

def ValueRef.toJson (nulls : Nulls) (r : ValueRef) : Json :=
  nulls.record [("from", .str r.source), ("pointer", ofText? r.pointer)]

def Request.entries (nulls : Nulls) (r : Request) : List (Text × Json) := [
  ("model", ofText? r.model), ("system", ofText? r.system), ("user", ofText? r.user),
  ("input", ofOption (ofList (Message.toJson nulls)) r.input),
  ("stream", ofOption .bool r.stream),
  ("tools", ofOption (ofList Tool.toJson) r.tools),
  ("tool_execution", ofOption ToolMode.toJson r.toolMode),
  ("tool_limits", ofOption (ofTable .int) r.toolLimits),
  ("bindings", ofOption (ofList (Binding.toJson nulls)) r.bindings)]

def Transform.entries (nulls : Nulls) (t : Transform) : List (Text × Json) := [
  ("object", ofOption (ofTable (ValueRef.toJson nulls)) t.object),
  ("merge", ofOption (ofList (ValueRef.toJson nulls)) t.merge)]

def frameEntries (id tag : Text) (dependsOn : Option (List Text)) : List (Text × Json) :=
  [("id", .str id), ("type", .str tag), ("depends_on", ofOption Json.texts dependsOn)]

def SubAction.entries (nulls : Nulls) : SubAction → List (Text × Json)
  | .request _ r => r.entries nulls
  | .transform t => t.entries nulls

def SubNode.toJson (nulls : Nulls) (n : SubNode) : Json :=
  nulls.record (frameEntries n.id n.action.tag n.dependsOn ++ n.action.entries nulls)

def FanOut.entries (nulls : Nulls) (f : FanOut) : List (Text × Json) := [
  ("items_from", ofText? f.itemsFrom), ("items_from_input", ofText? f.itemsFromInput),
  ("items_pointer", ofText? f.itemsPointer), ("subnode", f.subnode.toJson nulls),
  ("item_bindings", ofOption (ofList (Binding.toJson nulls)) f.itemBindings),
  ("max_parallelism", ofInt? f.maxParallelism)]

def Action.entries (nulls : Nulls) : Action → List (Text × Json)
  | .request _ r => r.entries nulls
  | .joinAll => []
  | .joinAny predicate => [("predicate", ofOption (Condition.toJson nulls) predicate)]
  | .joinCollect limit timeout predicate => [
      ("limit", ofInt? limit), ("timeout_ms", ofInt? timeout),
      ("predicate", ofOption (Condition.toJson nulls) predicate)]
  | .transform t => t.entries nulls
  | .mapFanout f => f.entries nulls

def Node.toJson (nulls : Nulls) (n : Node) : Json :=
  nulls.record (frameEntries n.id n.action.tag n.dependsOn ++ n.action.entries nulls)

namespace Spec

def entries (nulls : Nulls) (s : Spec) : List (Text × Json) := [
  ("kind", .str kind), ("name", ofText? s.name), ("model", ofText? s.model),
  ("max_parallelism", ofInt? s.maxParallelism), ("nodes", ofList (Node.toJson nulls) s.nodes),
  ("edges", ofList (Edge.toJson nulls) s.edges), ("outputs", ofList (OutputRef.toJson nulls) s.outputs)]

def toJson (nulls : Nulls) (s : Spec) : Json := nulls.record (s.entries nulls)

/-- The form that is executed: no null fields, and no list of edges when there are none. -/
def toPayload (s : Spec) : Json :=
  Nulls.dropped.record ((s.entries .dropped).filter fun entry => !(entry.1 = "edges" && s.edges.isEmpty))

end Spec

end PlanFlow
