import PlanFlow.Json.Basic

/-!
The workflow specification: nodes with what they do and what they wait for, conditional edges, and the
outputs of the whole. All values are plain data; which of them are well formed is said elsewhere.
-/

set_option autoImplicit false

namespace PlanFlow

inductive ConditionSource where
  | nodeOutput
  | nodeStatus
deriving DecidableEq

inductive ConditionOp where
  | equals
  | matchesPattern
  | present
deriving DecidableEq

structure Condition where
  source : ConditionSource
  op : ConditionOp
  path : Text
  value : Json

structure Edge where
  source : Text
  target : Text
  condition : Option Condition

structure OutputRef where
  name : Text
  source : Text
  pointer : Option Text
deriving DecidableEq

structure ContentBlock where
  kind : Text
  text : Option Text
  extra : Table Json

structure Message where
  role : Text
  content : List ContentBlock

inductive Encoding where
  | json
  | jsonString
deriving DecidableEq

structure Binding where
  source : Text
  pointer : Option Text
  target : Option Text
  placeholder : Option Text
  encoding : Encoding
deriving DecidableEq

inductive ToolMode where
  | server
  | client
  | agentic
deriving DecidableEq

inductive Tool where
  | named (name : Text)
  | described (fields : Table Json)

structure ValueRef where
  source : Text
  pointer : Option Text
deriving DecidableEq

inductive RequestKind where
  | llm
  | routeSwitch
deriving DecidableEq

structure Request where
  model : Option Text
  system : Option Text
  user : Option Text
  input : Option (List Message)
  stream : Option Bool
  tools : Option (List Tool)
  toolMode : Option ToolMode
  toolLimits : Option (Table Int)
  bindings : Option (List Binding)

structure Transform where
  object : Option (Table ValueRef)
  merge : Option (List ValueRef)

inductive SubAction where
  | request (kind : RequestKind) (request : Request)
  | transform (transform : Transform)

structure SubNode where
  id : Text
  dependsOn : Option (List Text)
  action : SubAction

structure FanOut where
  itemsFrom : Option Text
  itemsFromInput : Option Text
  itemsPointer : Option Text
  subnode : SubNode
  itemBindings : Option (List Binding)
  maxParallelism : Option Int

inductive Action where
  | request (kind : RequestKind) (request : Request)
  | joinAll
  | joinAny (predicate : Option Condition)
  | joinCollect (limit timeout : Option Int) (predicate : Option Condition)
  | transform (transform : Transform)
  | mapFanout (fanOut : FanOut)

structure Node where
  id : Text
  dependsOn : Option (List Text)
  action : Action

structure Spec where
  name : Option Text
  model : Option Text
  maxParallelism : Option Int
  nodes : List Node
  edges : List Edge
  outputs : List OutputRef

def itemPlaceholder : Text := "item"

def ToolMode.name : ToolMode → Text
  | .server => "server"
  | .client => "client"
  | .agentic => "agentic"

def Encoding.name : Encoding → Text
  | .json => "json"
  | .jsonString => "json_string"

def ConditionSource.name : ConditionSource → Text
  | .nodeOutput => "node_output"
  | .nodeStatus => "node_status"

def ConditionOp.name : ConditionOp → Text
  | .equals => "equals"
  | .matchesPattern => "matches"
  | .present => "exists"

def RequestKind.tag : RequestKind → Text
  | .llm => "llm"
  | .routeSwitch => "route.switch"

def Transform.tag : Text := "transform.json"

def FanOut.tag : Text := "map.fanout"

def SubAction.tag : SubAction → Text
  | .request kind _ => kind.tag
  | .transform _ => Transform.tag

def Action.tag : Action → Text
  | .request kind _ => kind.tag
  | .joinAll => "join.all"
  | .joinAny _ => "join.any"
  | .joinCollect _ _ _ => "join.collect"
  | .transform _ => Transform.tag
  | .mapFanout _ => FanOut.tag

def ContentBlock.plain (text : Text) : ContentBlock := ⟨"text", some text, []⟩

def Message.plain (role text : Text) : Message := ⟨role, [ContentBlock.plain text]⟩

def Request.empty : Request := ⟨none, none, none, none, none, none, none, none, none⟩

/-- The messages that are sent: the explicit ones, else the system text and the user text, if not empty. -/
def Request.messages (r : Request) : List Message :=
  match r.input with
  | some messages => messages
  | none =>
      let plain (role : Text) (t : Option Text) : List Message :=
        match t.bind Text.orAbsent with
        | some text => [Message.plain role text]
        | none => []
      plain "system" r.system ++ plain "user" r.user

def Transform.sources (t : Transform) : List ValueRef :=
  Table.values (t.object.getD []) ++ t.merge.getD []

namespace Spec

def kind : Text := "workflow.intent"

def nodeIds (spec : Spec) : List Text := spec.nodes.map Node.id

def node? (spec : Spec) (id : Text) : Option Node := spec.nodes.find? fun node => node.id == id

end Spec

end PlanFlow
