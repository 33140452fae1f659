import PlanFlow.Schema.Record
import PlanFlow.Workflow.Basic

/-!
Reading workflow specifications from JSON. Every record is closed except for content blocks. A node is read
by the tag in its field `type`, and issues inside a node are placed under that tag.
-/

set_option autoImplicit false

namespace PlanFlow

open Schema
open Checked (fail)

namespace Condition

def sources : List (Text × ConditionSource) :=
  [ConditionSource.nodeOutput, .nodeStatus].map fun source => (source.name, source)

def ops : List (Text × ConditionOp) :=
  [ConditionOp.equals, .matchesPattern, .present].map fun op => (op.name, op)

def checkPath (input : Json) (condition : Condition) : Checked Condition :=
  if condition.path.startsWith "$" then .valid condition
  else fail (.refused "Condition: path must be a JSONPath starting with \"$\"") input

def ofJson (input : Json) : Checked Condition :=
  (record "Condition" input).andThen fun fields =>
    (closed ["source", "op", "path", "value"] fields
      (Condition.mk <$> required "source" (choice sources) fields
        <*> required "op" (choice ops) fields
        <*> required "path" nonEmptyText fields
        <*> defaulted "value" .valid .null fields)).andThen (checkPath input)

end Condition

def Edge.ofJson (input : Json) : Checked Edge :=
  (record "Edge" input).andThen fun fields =>
    closed [.source, "to", "when"] fields
      (Edge.mk <$> required .source nonEmptyText fields
        <*> required "to" nonEmptyText fields
        <*> absentable "when" Condition.ofJson fields)

def OutputRef.ofJson (input : Json) : Checked OutputRef :=
  (record "OutputRef" input).andThen fun fields =>
    closed ["name", .source, "pointer"] fields
      (OutputRef.mk <$> required "name" nonEmptyText fields
        <*> required .source nonEmptyText fields
        <*> absentable "pointer" anyText fields)

def ContentBlock.ofJson (input : Json) : Checked ContentBlock :=
  (record "ContentBlock" input).andThen fun fields =>
    ContentBlock.mk <$> defaulted "type" anyText "text" fields
      <*> absentable "text" anyText fields
      <*> .valid (extras ["type", "text"] fields)

def Message.ofJson (input : Json) : Checked Message :=
  (record "InputMessage" input).andThen fun fields =>
    closed ["type", "role", "content"] fields
      ((fun _ role content => Message.mk role content)
        <$> defaulted "type" (literal "message") () fields
        <*> required "role" nonEmptyText fields
        <*> defaulted "content" (listOf ContentBlock.ofJson) [] fields)

namespace Binding

def encodings : List (Text × Encoding) :=
  [Encoding.json, .jsonString].map fun encoding => (encoding.name, encoding)

/-- Exactly one of pointer and placeholder is the target; an empty one counts as absent. -/
def checkTarget (input : Json) (binding : Binding) : Checked Binding :=
  if (binding.target.bind Text.orAbsent).isSome == (binding.placeholder.bind Text.orAbsent).isSome then
    fail (.refused "Binding: exactly one of to or to_placeholder is required") input
  else .valid binding

def ofJson (input : Json) : Checked Binding :=
  (record "Binding" input).andThen fun fields =>
    (closed [.source, "pointer", "to", "to_placeholder", "encoding"] fields
      (Binding.mk <$> required .source nonEmptyText fields
        <*> absentable "pointer" anyText fields
        <*> absentable "to" anyText fields
        <*> absentable "to_placeholder" anyText fields
        <*> defaulted "encoding" (choice encodings) .jsonString fields)).andThen (checkTarget input)

end Binding

namespace ToolMode

def modes : List (Text × ToolMode) :=
  [ToolMode.server, .client, .agentic].map fun mode => (mode.name, mode)

def ofJson (input : Json) : Checked ToolMode :=
  (record "ToolExecution" input).andThen fun fields =>
    closed ["mode"] fields (required "mode" (choice modes) fields)

end ToolMode

/-- A tool that is neither a name nor a record fails both readings. -/
def Tool.ofJson : Json → Checked Tool
  | .str name => .valid (.named name)
  | .obj fields => .valid (.described fields)
  | other =>
      .invalid [⟨.textType, [.key "str"], other⟩, ⟨.tableType, [.key "dict[str,any]"], other⟩]

def ValueRef.ofJson (input : Json) : Checked ValueRef :=
  (record "ValueRef" input).andThen fun fields =>
    closed [.source, "pointer"] fields
      (ValueRef.mk <$> required .source nonEmptyText fields <*> absentable "pointer" anyText fields)

structure Frame where
  id : Text
  dependsOn : Option (List Text)

namespace Frame

def labels : List Label := ["id", "type", "depends_on"]

/-- The tag may be absent where the kind of node is known; if present it has to be the right one. -/
def ofFields (tag : Text) (fields : Table Json) : Checked Frame :=
  (fun id _ dependsOn => Frame.mk id dependsOn) <$> required "id" nonEmptyText fields
    <*> defaulted "type" (literal tag) () fields
    <*> absentable "depends_on" (listOf anyText) fields

end Frame

namespace Request

def labels : List Label :=
  ["model", "system", "user", "input", "stream", "tools", "tool_execution", "tool_limits", "bindings"]

def ofFields (fields : Table Json) : Checked Request :=
  Request.mk <$> absentable "model" anyText fields
    <*> absentable "system" anyText fields
    <*> absentable "user" anyText fields
    <*> absentable "input" (listOf Message.ofJson) fields
    <*> absentable "stream" flag fields
    <*> absentable "tools" (listOf Tool.ofJson) fields
    <*> absentable "tool_execution" ToolMode.ofJson fields
    <*> absentable "tool_limits" (tableOf integer) fields
    <*> absentable "bindings" (listOf Binding.ofJson) fields

end Request

namespace Transform

def labels : List Label := ["object", "merge"]

def ofFields (fields : Table Json) : Checked Transform :=
  Transform.mk <$> absentable "object" (tableOf ValueRef.ofJson) fields
    <*> absentable "merge" (listOf ValueRef.ofJson) fields

end Transform

abbrev TaggedReader (α : Type) := List (Text × (Table Json → Checked α))

/-- A tag that is no text is shown as a literal, if it has one; what has no UTF-8 form is shown by replacements. -/
def shownTag (tag : Json) : Text :=
  if tag.printable then tag.display.replaceSurrogates
  else Text.concat ["<unprintable ", tag.typeName, " object>"]

def readTagged {α : Type} (readers : TaggedReader α) (input : Json) : Checked α :=
  match input with
  | .obj fields =>
      match Table.get? "type" fields with
      | none => fail .tagMissing input
      | some tag =>
          let found := match tag with
            | .str name => (Table.get? name readers).map fun read => (name, read)
            | _ => none
          match found with
          | some (name, read) => ((keyed fields).andThen read).under (.key name)
          | none => fail (.tagInvalid (shownTag tag) (Table.keys readers)) input
  | other => fail .taggedType other

namespace SubNode

def read (tag : Text) (labels : List Label) (action : Table Json → Checked SubAction)
    (fields : Table Json) : Checked SubNode :=
  closed (Frame.labels ++ labels) fields
    ((fun frame action => ⟨frame.id, frame.dependsOn, action⟩) <$> Frame.ofFields tag fields
      <*> action fields)

def readRequest (kind : RequestKind) : Table Json → Checked SubNode :=
  read kind.tag Request.labels fun fields => (Request.ofFields fields).map (.request kind)

def readTransform : Table Json → Checked SubNode :=
  read Transform.tag Transform.labels fun fields => (Transform.ofFields fields).map .transform

def readers : TaggedReader SubNode := [
  (RequestKind.llm.tag, readRequest .llm),
  (RequestKind.routeSwitch.tag, readRequest .routeSwitch),
  (Transform.tag, readTransform)]

def ofJson (input : Json) : Checked SubNode := readTagged readers input

end SubNode

namespace FanOut

def labels : List Label :=
  ["items_from", "items_from_input", "items_pointer", "subnode", "item_bindings", "max_parallelism"]

def ofFields (fields : Table Json) : Checked FanOut :=
  FanOut.mk <$> absentable "items_from" anyText fields
    <*> absentable "items_from_input" anyText fields
    <*> absentable "items_pointer" anyText fields
    <*> required "subnode" SubNode.ofJson fields
    <*> absentable "item_bindings" (listOf Binding.ofJson) fields
    <*> absentable "max_parallelism" positiveInteger fields

def hasOneSource (fanOut : FanOut) : Bool :=
  (fanOut.itemsFrom.bind Text.orAbsent).isSome != (fanOut.itemsFromInput.bind Text.orAbsent).isSome

end FanOut

namespace Node

def read (tag : Text) (labels : List Label) (action : Table Json → Checked Action)
    (fields : Table Json) : Checked Node :=
  closed (Frame.labels ++ labels) fields
    ((fun frame action => ⟨frame.id, frame.dependsOn, action⟩) <$> Frame.ofFields tag fields
      <*> action fields)

def readRequest (kind : RequestKind) : Table Json → Checked Node :=
  read kind.tag Request.labels fun fields => (Request.ofFields fields).map (.request kind)

def readJoinAll : Table Json → Checked Node :=
  read Action.joinAll.tag [] fun _ => .valid .joinAll

def readJoinAny : Table Json → Checked Node :=
  read (Action.joinAny none).tag ["predicate"] fun fields =>
    (absentable "predicate" Condition.ofJson fields).map .joinAny

def readJoinCollect : Table Json → Checked Node :=
  read (Action.joinCollect none none none).tag ["limit", "timeout_ms", "predicate"] fun fields =>
    Action.joinCollect <$> absentable "limit" positiveInteger fields
      <*> absentable "timeout_ms" positiveInteger fields
      <*> absentable "predicate" Condition.ofJson fields

def readTransform : Table Json → Checked Node :=
  read Transform.tag Transform.labels fun fields => (Transform.ofFields fields).map .transform

def checkItems (input : Json) (node : Node) : Checked Node :=
  match node.action with
  | .mapFanout fanOut =>
      if fanOut.hasOneSource then .valid node
      else fail (.refused "map.fanout: exactly one of items_from or items_from_input is required") input
  | _ => .valid node

def readFanOut (fields : Table Json) : Checked Node :=
  (read FanOut.tag FanOut.labels (fun fields => (FanOut.ofFields fields).map .mapFanout)
    fields).andThen (checkItems (.obj fields))

def readers : TaggedReader Node := [
  (RequestKind.llm.tag, readRequest .llm),
  (RequestKind.routeSwitch.tag, readRequest .routeSwitch),
  (Action.joinAll.tag, readJoinAll),
  ((Action.joinAny none).tag, readJoinAny),
  ((Action.joinCollect none none none).tag, readJoinCollect),
  (Transform.tag, readTransform),
  (FanOut.tag, readFanOut)]

def ofJson (input : Json) : Checked Node := readTagged readers input

def fanOutOfJson (input : Json) : Checked Node := (record "MapFanoutNode" input).andThen readFanOut

end Node

namespace Spec

def ofJson (input : Json) : Checked Spec :=
  (record "WorkflowSpec" input).andThen fun fields =>
    closed ["kind", "name", "model", "max_parallelism", "nodes", "edges", "outputs"] fields
      ((fun _ name model maxParallelism nodes edges outputs =>
          Spec.mk name model maxParallelism nodes edges outputs)
        <$> defaulted "kind" (literal kind) () fields
        <*> absentable "name" anyText fields
        <*> absentable "model" anyText fields
        <*> absentable "max_parallelism" positiveInteger fields
        <*> defaulted "nodes" (listOf Node.ofJson) [] fields
        <*> defaulted "edges" (listOf Edge.ofJson) [] fields
        <*> defaulted "outputs" (listOf OutputRef.ofJson) [] fields)

end Spec

end PlanFlow
