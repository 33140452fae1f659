import PlanFlow.Proofs.Validity

/-!
Specifications that a text preserves. They are well formed as the readers of their parts ask for, hold no
floating-point numbers, and every key in them has a UTF-8 form. What their text brings back has its tables in the
order of their keys, and of the extra fields of content blocks those that are not null.
-/

set_option autoImplicit false

namespace PlanFlow

open Json.Canonical (memberKey)

namespace Json

mutual

def Exact : Json → Prop
  | .null => True
  | .bool _ => True
  | .int _ => True
  | .float _ => False
  | .str _ => True
  | .arr items => ExactItems items
  | .obj fields => (Table.keys fields).Nodup ∧ ExactFields fields

def ExactItems : List Json → Prop
  | [] => True
  | item :: rest => Exact item ∧ ExactItems rest

def ExactFields : List (Text × Json) → Prop
  | [] => True
  | (key, value) :: rest => (key.hasSurrogate = false ∧ Exact value) ∧ ExactFields rest

end

mutual

def ordered : Json → Json
  | .null => .null
  | .bool value => .bool value
  | .int value => .int value
  | .float value => .float value
  | .str value => .str value
  | .arr items => .arr (orderedItems items)
  | .obj fields => .obj (sortOn memberKey (orderedFields fields))

def orderedItems : List Json → List Json
  | [] => []
  | item :: rest => ordered item :: orderedItems rest

def orderedFields : List (Text × Json) → List (Text × Json)
  | [] => []
  | (key, value) :: rest => (key, ordered value) :: orderedFields rest

end

theorem exact_items_iff (items : List Json) : ExactItems items ↔ ∀ item ∈ items, Exact item :=
  forall_of_cons ExactItems Exact trivial (fun _ _ => .rfl) items

theorem exact_fields_iff (fields : List (Text × Json)) :
    ExactFields fields ↔ ∀ entry ∈ fields, entry.1.hasSurrogate = false ∧ Exact entry.2 :=
  forall_of_cons ExactFields _ trivial (fun _ _ => .rfl) fields

theorem ordered_items_map (items : List Json) : orderedItems items = items.map ordered :=
  map_of_cons orderedItems ordered rfl (fun _ _ => rfl) items

theorem ordered_fields_map (fields : List (Text × Json)) :
    orderedFields fields = fields.map fun entry => (entry.1, ordered entry.2) :=
  map_of_cons orderedFields _ rfl (fun _ _ => rfl) fields

def stored (entries : Table Json) : Table Json :=
  sortOn memberKey ((Nulls.dropped.entries entries).map fun entry => (entry.1, entry.2.ordered))

def Passage.exact : Passage := .sorted .float (fun _ => False) float_simple fun _ => False.elim

theorem exact_through : Passage.exact.ThroughText := ⟨fun _ => rfl, fun _ => False.elim⟩

theorem exact_regular (value : Json) (exact : value.Exact) : value.Regular Passage.exact.carries := by
  induction value using by_parts with
  | float x => exact exact.elim
  | arr items ih =>
      have each := (exact_items_iff items).mp exact
      exact (regular_items_iff _ items).mpr fun item member => ih item member (each item member)
  | obj fields ih =>
      have each := (exact_fields_iff fields).mp exact.2
      exact ⟨exact.1, (regular_fields_iff _ fields).mpr fun entry member => ih entry member (each entry member).2⟩
  | _ => trivial

theorem recast_ordered (value : Json) : value.recast .exact = value.ordered := by
  induction value using by_parts with
  | arr items ih =>
      rw [recast_arr, ordered, ordered_items_map]
      exact congrArg Json.arr (List.map_congr_left ih)
  | obj fields ih =>
      rw [recast_obj, ordered, ordered_fields_map]
      exact congrArg (fun members => Json.obj (sortOn memberKey members))
        (List.map_congr_left fun entry member => by rw [ih entry member])
  | _ => rfl

theorem received_stored (entries : Table Json) : received .exact entries = stored entries := by
  simp only [received, recast_ordered]
  rfl

theorem exact_plain (fields : Table Json) (exact : (Json.obj fields).Exact) : Table.Plain fields := by
  refine ⟨exact.1, fun key member => ?_⟩
  obtain ⟨value, inside⟩ := (Table.mem_keys key fields).mp member
  exact ((exact_fields_iff fields).mp exact.2 _ inside).1

theorem encodable_exact (value : Json) (exact : value.Exact) : value.encodable = value := by
  cases value with
  | obj fields => rw [encodable, Table.encodable_plain fields (exact_plain fields exact)]
  | _ => rfl

end Json

structure Condition.Faithful (c : Condition) : Prop where
  rooted : c.path.startsWith "$" = true
  clean : c.path.hasSurrogate = false
  value : c.value.Exact

structure Edge.Faithful (e : Edge) : Prop where
  source : e.source.Names
  target : e.target.Names
  condition : ∀ c ∈ e.condition, c.Faithful

structure ContentBlock.Faithful (b : ContentBlock) : Prop where
  plain : Table.Plain b.extra
  beyond : ("type" : Text) ∉ Table.keys b.extra ∧ ("text" : Text) ∉ Table.keys b.extra
  values : ∀ entry ∈ b.extra, entry.2.Exact

structure Message.Faithful (m : Message) : Prop where
  role : m.role.Names
  content : ∀ block ∈ m.content, block.Faithful

def Tool.Faithful : Tool → Prop
  | .named _ => True
  | .described fields => (Json.obj fields).Exact

structure Request.Faithful (r : Request) : Prop where
  input : ∀ messages ∈ r.input, ∀ message ∈ messages, message.Faithful
  tools : ∀ tools ∈ r.tools, ∀ tool ∈ tools, tool.Faithful
  limits : ∀ limits ∈ r.toolLimits, Table.Plain limits
  bindings : ∀ bindings ∈ r.bindings, ∀ binding ∈ bindings, binding.Faithful

structure Transform.Faithful (t : Transform) : Prop where
  object : ∀ object ∈ t.object, Table.Plain object ∧ ∀ entry ∈ object, entry.2.source.Names
  merge : ∀ refs ∈ t.merge, ∀ ref ∈ refs, ref.source.Names

def SubAction.Faithful : SubAction → Prop
  | .request _ r => r.Faithful
  | .transform t => t.Faithful

structure SubNode.Faithful (n : SubNode) : Prop where
  id : n.id.Names
  action : n.action.Faithful

structure FanOut.Faithful (f : FanOut) : Prop where
  source : f.hasOneSource = true
  subnode : f.subnode.Faithful
  bindings : ∀ bindings ∈ f.itemBindings, ∀ binding ∈ bindings, binding.Faithful
  parallel : ∀ n ∈ f.maxParallelism, Counts n

def Action.Faithful : Action → Prop
  | .request _ r => r.Faithful
  | .joinAll => True
  | .joinAny predicate => ∀ c ∈ predicate, c.Faithful
  | .joinCollect limit timeout predicate =>
      (∀ n ∈ limit, Counts n) ∧ (∀ n ∈ timeout, Counts n) ∧ ∀ c ∈ predicate, c.Faithful
  | .transform t => t.Faithful
  | .mapFanout f => f.Faithful

structure Node.Faithful (n : Node) : Prop where
  id : n.id.Names
  action : n.action.Faithful

structure Spec.Faithful (s : Spec) : Prop where
  parallel : ∀ n ∈ s.maxParallelism, Counts n
  nodes : ∀ node ∈ s.nodes, node.Faithful
  edges : ∀ e ∈ s.edges, e.Faithful
  outputs : ∀ output ∈ s.outputs, output.Faithful

def Condition.ordered (c : Condition) : Condition := { c with value := c.value.ordered }

def Edge.ordered (e : Edge) : Edge := { e with condition := e.condition.map Condition.ordered }

def ContentBlock.ordered (b : ContentBlock) : ContentBlock := { b with extra := Json.stored b.extra }

def Message.ordered (m : Message) : Message := { m with content := m.content.map ContentBlock.ordered }

def Tool.ordered : Tool → Tool
  | .named name => .named name
  | .described fields => .described (sortOn memberKey (Json.orderedFields fields))

def Request.ordered (r : Request) : Request :=
  { r with
    input := r.input.map (List.map Message.ordered)
    tools := r.tools.map (List.map Tool.ordered)
    toolLimits := r.toolLimits.map (sortOn memberKey) }

def Transform.ordered (t : Transform) : Transform := { t with object := t.object.map (sortOn memberKey) }

def SubAction.ordered : SubAction → SubAction
  | .request kind r => .request kind r.ordered
  | .transform t => .transform t.ordered

def SubNode.ordered (n : SubNode) : SubNode := { n with action := n.action.ordered }

def FanOut.ordered (f : FanOut) : FanOut := { f with subnode := f.subnode.ordered }

def Action.ordered : Action → Action
  | .request kind r => .request kind r.ordered
  | .joinAll => .joinAll
  | .joinAny predicate => .joinAny (predicate.map Condition.ordered)
  | .joinCollect limit timeout predicate => .joinCollect limit timeout (predicate.map Condition.ordered)
  | .transform t => .transform t.ordered
  | .mapFanout f => .mapFanout f.ordered

def Node.ordered (n : Node) : Node := { n with action := n.action.ordered }

def Spec.ordered (s : Spec) : Spec :=
  { s with nodes := s.nodes.map Node.ordered, edges := s.edges.map Edge.ordered }

section

open Json (Passage)

theorem Table.received_sorted {α : Type} (table : Table α) (plain : Plain table) :
    received .exact table = sortOn memberKey table := by
  rw [received, encodable_plain table plain]
  rfl

theorem condition_kept (c : Condition) (faithful : c.Faithful) : c.Valid Passage.exact.carries ∧ c.received .exact = c.ordered := by
  have regular := Json.exact_regular c.value faithful.value
  refine ⟨⟨faithful.rooted, faithful.clean, regular⟩, ?_⟩
  rw [Condition.received, Freeform.field_written .exact c.value regular, Json.encodable_exact c.value faithful.value,
    Json.recast_ordered, Condition.ordered]

theorem conditions_kept (given : Option Condition) (faithful : ∀ c ∈ given, c.Faithful) :
    (∀ c ∈ given, c.Valid Passage.exact.carries) ∧ given.map (Condition.received .exact) = given.map Condition.ordered :=
  ⟨fun c held => (condition_kept c (faithful c held)).1, Option.map_congr fun c held => (condition_kept c (faithful c held)).2⟩

theorem edge_kept (e : Edge) (faithful : e.Faithful) : e.Valid Passage.exact.carries ∧ e.received .exact = e.ordered := by
  obtain ⟨valid, same⟩ := conditions_kept e.condition faithful.condition
  exact ⟨⟨faithful.source, faithful.target, valid⟩, by rw [Edge.received, same, Edge.ordered]⟩

theorem block_kept (b : ContentBlock) (faithful : b.Faithful) :
    b.Valid Passage.exact.carries ∧ b.received .exact = b.ordered := by
  refine ⟨⟨faithful.plain, faithful.beyond, fun entry member => Json.exact_regular _ (faithful.values entry member)⟩, ?_⟩
  rw [ContentBlock.received, Json.received_stored, ContentBlock.ordered]

theorem message_kept (m : Message) (faithful : m.Faithful) :
    m.Valid Passage.exact.carries ∧ m.received .exact = m.ordered := by
  have blocks := fun block member => block_kept block (faithful.content block member)
  refine ⟨⟨faithful.role, fun block member => (blocks block member).1⟩, ?_⟩
  rw [Message.received, List.map_congr_left fun block member => (blocks block member).2, Message.ordered]

theorem tool_kept (t : Tool) (faithful : t.Faithful) : t.Valid Passage.exact.carries ∧ t.received .exact = t.ordered := by
  cases t with
  | named name => exact ⟨trivial, rfl⟩
  | described fields =>
      refine ⟨Json.exact_regular _ faithful, ?_⟩
      rw [Tool.received, Table.received_sorted fields (Json.exact_plain fields faithful), Tool.ordered,
        Json.ordered_fields_map, ← Json.sort_members_map]
      simp only [Json.recast_ordered]

theorem request_kept (r : Request) (faithful : r.Faithful) :
    r.Valid Passage.exact.carries ∧ r.received .exact = r.ordered := by
  have messages := fun given held message member => message_kept message (faithful.input given held message member)
  have tools := fun given held tool member => tool_kept tool (faithful.tools given held tool member)
  refine ⟨⟨fun given held message member => (messages given held message member).1,
    fun given held tool member => (tools given held tool member).1, faithful.bindings⟩, ?_⟩
  have input : r.input.map (List.map (Message.received .exact)) = r.input.map (List.map Message.ordered) :=
    Option.map_congr fun given held => List.map_congr_left fun message member => (messages given held message member).2
  have used : r.tools.map (List.map (Tool.received .exact)) = r.tools.map (List.map Tool.ordered) :=
    Option.map_congr fun given held => List.map_congr_left fun tool member => (tools given held tool member).2
  have limits : r.toolLimits.map (Table.received .exact) = r.toolLimits.map (sortOn memberKey) :=
    Option.map_congr fun given held => Table.received_sorted given (faithful.limits given held)
  rw [Request.received, input, used, limits, Request.ordered]

theorem transform_kept (t : Transform) (faithful : t.Faithful) : t.Valid ∧ t.received .exact = t.ordered := by
  refine ⟨⟨fun object held => (faithful.object object held).2, faithful.merge⟩, ?_⟩
  have object : t.object.map (Table.received .exact) = t.object.map (sortOn memberKey) :=
    Option.map_congr fun given held => Table.received_sorted given (faithful.object given held).1
  rw [Transform.received, object, Transform.ordered]

theorem subnode_kept (n : SubNode) (faithful : n.Faithful) :
    n.Valid Passage.exact.carries ∧ n.received .exact = n.ordered := by
  obtain ⟨id, dependsOn, action⟩ := n
  cases action with
  | request kind request =>
      obtain ⟨valid, same⟩ := request_kept request faithful.action
      exact ⟨⟨faithful.id, valid⟩, by simp only [SubNode.received, SubAction.received, same, SubNode.ordered, SubAction.ordered]⟩
  | transform transform =>
      obtain ⟨valid, same⟩ := transform_kept transform faithful.action
      exact ⟨⟨faithful.id, valid⟩, by simp only [SubNode.received, SubAction.received, same, SubNode.ordered, SubAction.ordered]⟩

theorem action_kept (action : Action) (faithful : action.Faithful) :
    action.Valid Passage.exact.carries ∧ action.received .exact = action.ordered := by
  cases action with
  | request kind request =>
      obtain ⟨valid, same⟩ := request_kept request faithful
      exact ⟨valid, by rw [Action.received, same, Action.ordered]⟩
  | joinAll => exact ⟨trivial, rfl⟩
  | joinAny predicate =>
      obtain ⟨valid, same⟩ := conditions_kept predicate faithful
      exact ⟨valid, by rw [Action.received, same, Action.ordered]⟩
  | joinCollect limit timeout predicate =>
      obtain ⟨limited, timed, conditions⟩ := faithful
      obtain ⟨valid, same⟩ := conditions_kept predicate conditions
      exact ⟨⟨limited, timed, valid⟩, by rw [Action.received, same, Action.ordered]⟩
  | transform transform =>
      obtain ⟨valid, same⟩ := transform_kept transform faithful
      exact ⟨valid, by rw [Action.received, same, Action.ordered]⟩
  | mapFanout fanOut =>
      obtain ⟨valid, same⟩ := subnode_kept fanOut.subnode faithful.subnode
      exact ⟨⟨faithful.source, valid, faithful.bindings, faithful.parallel⟩,
        by rw [Action.received, FanOut.received, same, Action.ordered, FanOut.ordered]⟩

theorem node_kept (n : Node) (faithful : n.Faithful) : n.Valid Passage.exact.carries ∧ n.received .exact = n.ordered := by
  obtain ⟨valid, same⟩ := action_kept n.action faithful.action
  exact ⟨⟨faithful.id, valid⟩, by rw [Node.received, same, Node.ordered]⟩

theorem spec_kept (s : Spec) (faithful : s.Faithful) : s.Valid Passage.exact.carries ∧ s.received .exact = s.ordered := by
  have nodes := fun node member => node_kept node (faithful.nodes node member)
  have edges := fun e member => edge_kept e (faithful.edges e member)
  refine ⟨⟨faithful.parallel, fun node member => (nodes node member).1, fun e member => (edges e member).1,
    faithful.outputs⟩, ?_⟩
  rw [Spec.received, List.map_congr_left fun node member => (nodes node member).2,
    List.map_congr_left fun e member => (edges e member).2, Spec.ordered]

end

end PlanFlow
