import PlanFlow.Proofs.Stored
import PlanFlow.Proofs.Written

/-!
Specifications as the readers of their parts let them through, and what is received of them. Keys of tables are received
in UTF-8 form, and of the extra fields of content blocks those that are not null.
-/

set_option autoImplicit false

namespace PlanFlow

open Json (Passage)

def Text.Names (t : Text) : Prop := t ≠ [] ∧ t.hasSurrogate = false

def Table.Plain {α : Type} (table : Table α) : Prop :=
  (Table.keys table).Nodup ∧ ∀ key ∈ Table.keys table, key.hasSurrogate = false

def Counts (n : Int) : Prop := 0 < n ∧ n ≤ Schema.integerLimit

structure OutputRef.Faithful (o : OutputRef) : Prop where
  name : o.name.Names
  source : o.source.Names

structure Binding.Faithful (b : Binding) : Prop where
  source : b.source.Names
  target : (b.target.bind Text.orAbsent).isSome ≠ (b.placeholder.bind Text.orAbsent).isSome

section

variable (numbers : Binary64 → Prop)

structure Condition.Valid (c : Condition) : Prop where
  rooted : c.path.startsWith "$" = true
  clean : c.path.hasSurrogate = false
  value : c.value.Regular numbers

structure Edge.Valid (e : Edge) : Prop where
  source : e.source.Names
  target : e.target.Names
  condition : ∀ c ∈ e.condition, c.Valid numbers

structure ContentBlock.Valid (b : ContentBlock) : Prop where
  plain : Table.Plain b.extra
  beyond : ("type" : Text) ∉ Table.keys b.extra ∧ ("text" : Text) ∉ Table.keys b.extra
  values : ∀ entry ∈ b.extra, entry.2.Regular numbers

structure Message.Valid (m : Message) : Prop where
  role : m.role.Names
  content : ∀ block ∈ m.content, block.Valid numbers

def Tool.Valid : Tool → Prop
  | .named _ => True
  | .described fields => (Json.obj fields).Regular numbers

structure Request.Valid (r : Request) : Prop where
  input : ∀ messages ∈ r.input, ∀ message ∈ messages, message.Valid numbers
  tools : ∀ tools ∈ r.tools, ∀ tool ∈ tools, tool.Valid numbers
  bindings : ∀ bindings ∈ r.bindings, ∀ binding ∈ bindings, binding.Faithful

structure Transform.Valid (t : Transform) : Prop where
  object : ∀ object ∈ t.object, ∀ entry ∈ object, entry.2.source.Names
  merge : ∀ refs ∈ t.merge, ∀ ref ∈ refs, ref.source.Names

def SubAction.Valid : SubAction → Prop
  | .request _ r => r.Valid numbers
  | .transform t => t.Valid

structure SubNode.Valid (n : SubNode) : Prop where
  id : n.id.Names
  action : n.action.Valid numbers

structure FanOut.Valid (f : FanOut) : Prop where
  source : f.hasOneSource = true
  subnode : f.subnode.Valid numbers
  bindings : ∀ bindings ∈ f.itemBindings, ∀ binding ∈ bindings, binding.Faithful
  parallel : ∀ n ∈ f.maxParallelism, Counts n

def Action.Valid : Action → Prop
  | .request _ r => r.Valid numbers
  | .joinAll => True
  | .joinAny predicate => ∀ c ∈ predicate, c.Valid numbers
  | .joinCollect limit timeout predicate =>
      (∀ n ∈ limit, Counts n) ∧ (∀ n ∈ timeout, Counts n) ∧ ∀ c ∈ predicate, c.Valid numbers
  | .transform t => t.Valid
  | .mapFanout f => f.Valid numbers

structure Node.Valid (n : Node) : Prop where
  id : n.id.Names
  action : n.action.Valid numbers

structure Spec.Valid (s : Spec) : Prop where
  parallel : ∀ n ∈ s.maxParallelism, Counts n
  nodes : ∀ node ∈ s.nodes, node.Valid numbers
  edges : ∀ e ∈ s.edges, e.Valid numbers
  outputs : ∀ output ∈ s.outputs, output.Faithful

end

section

variable (w : Passage)

def Table.received {α : Type} (table : Table α) : Table α := w.arrange (Table.encodable table)

def Condition.received (c : Condition) : Condition := { c with value := (Freeform.field c.value).toJson.recast w }

def Edge.received (e : Edge) : Edge := { e with condition := e.condition.map (Condition.received w) }

def ContentBlock.received (b : ContentBlock) : ContentBlock := { b with extra := Json.received w b.extra }

def Message.received (m : Message) : Message := { m with content := m.content.map (ContentBlock.received w) }

def Tool.received : Tool → Tool
  | .named name => .named name
  | .described fields => .described ((Table.received w fields).map fun entry => (entry.1, entry.2.recast w))

def Request.received (r : Request) : Request :=
  { r with
    input := r.input.map (List.map (Message.received w))
    tools := r.tools.map (List.map (Tool.received w))
    toolLimits := r.toolLimits.map (Table.received w) }

def Transform.received (t : Transform) : Transform := { t with object := t.object.map (Table.received w) }

def SubAction.received : SubAction → SubAction
  | .request kind r => .request kind (r.received w)
  | .transform t => .transform (t.received w)

def SubNode.received (n : SubNode) : SubNode := { n with action := n.action.received w }

def FanOut.received (f : FanOut) : FanOut := { f with subnode := f.subnode.received w }

def Action.received : Action → Action
  | .request kind r => .request kind (r.received w)
  | .joinAll => .joinAll
  | .joinAny predicate => .joinAny (predicate.map (Condition.received w))
  | .joinCollect limit timeout predicate => .joinCollect limit timeout (predicate.map (Condition.received w))
  | .transform t => .transform (t.received w)
  | .mapFanout f => .mapFanout (f.received w)

def Node.received (n : Node) : Node := { n with action := n.action.received w }

def Spec.received (s : Spec) : Spec :=
  { s with nodes := s.nodes.map (Node.received w), edges := s.edges.map (Edge.received w) }

end

namespace Table

variable {α : Type}

theorem encodable_plain (table : Table α) (plain : Plain table) : encodable table = table := by
  have same : (table.map fun entry => (Text.replaceSurrogates entry.1, entry.2)) = table.map id := by
    refine List.map_congr_left fun entry member => ?_
    rw [Text.replace_surrogates_of_clean entry.1 (plain.2 entry.1 (List.mem_map_of_mem member)), id]
  rw [encodable, same, List.map_id, of_pairs_distinct table plain.1]

theorem plain_encodable (table : Table α) : Plain (encodable table) := by
  refine ⟨encodable_nodup table, fun key member => ?_⟩
  obtain ⟨value, inside⟩ := (mem_keys key _).mp member
  exact (mem_encodable table _ inside).1

theorem plain_arrange (w : Passage) (table : Table α) (plain : Plain table) : Plain (w.arrange table) :=
  ⟨w.arrange_nodup table plain.1, fun key member => plain.2 key ((w.arrange_keys table key).mp member)⟩

theorem plain_map {β : Type} (f : α → β) (table : Table α) (plain : Plain table) :
    Plain (table.map fun entry => (entry.1, f entry.2)) := by
  rwa [Plain, keys_map]

theorem received_plain (w : Passage) (table : Table α) : Plain (received w table) :=
  plain_arrange w _ (plain_encodable table)

end Table

def Json.encodable : Json → Json
  | .obj fields => .obj (Table.encodable fields)
  | value => value

namespace Freeform

theorem finite_regular (numbers : Binary64 → Prop) (bounded : ∀ x, numbers x → x.isFinite = true) (value : Json)
    (regular : value.Regular numbers) : finite value = value := by
  induction value using Json.by_parts with
  | float x => rw [finite, if_pos (bounded x regular)]
  | arr items ih =>
      have each := (Json.regular_items_iff _ items).mp regular
      have same : items.map finite = items.map id :=
        List.map_congr_left fun item member => ih item member (each item member)
      rw [finite, finite_items_map, same, List.map_id]
  | obj fields ih =>
      have each := (Json.regular_fields_iff _ fields).mp regular.2
      have same : (fields.map fun entry => (entry.1, finite entry.2)) = fields.map id := by
        refine List.map_congr_left fun entry member => ?_
        rw [ih entry member (each entry member), id]
      rw [finite, finite_fields_map, same, List.map_id]
  | _ => rfl

section

variable (w : Passage) (value : Json) (regular : value.Regular w.carries)

include regular

theorem extra_written : (extra value).toJson = value := finite_regular w.carries w.finite value regular

theorem field_written : (field value).toJson = value.encodable := by
  have same := finite_regular w.carries w.finite value regular
  cases value with
  | arr items => exact same
  | obj fields => rw [toJson, Json.obj.inj same, Json.encodable]
  | _ => rfl

theorem encodable_regular : value.encodable.Regular w.carries := by
  cases value with
  | obj fields =>
      refine ⟨Table.encodable_nodup fields, (Json.regular_fields_iff _ _).mpr fun entry member => ?_⟩
      obtain ⟨_, key, given⟩ := Table.mem_encodable fields entry member
      exact (Json.regular_fields_iff _ _).mp regular.2 (key, entry.2) given
  | _ => exact regular

theorem field_regular : (field value).toJson.Regular w.carries := by
  rw [field_written w value regular]
  exact encodable_regular w value regular

theorem field_received : (field ((field value).toJson.recast w)).toJson = (field value).toJson.recast w := by
  have arrived := Json.regular_recast w _ _ (encodable_regular w value regular)
  rw [field_written w value regular, field_written w _ arrived]
  cases value with
  | obj fields =>
      have plain := Table.plain_map (Json.recast w) _ (Table.plain_encodable fields)
      rw [Json.encodable, Json.recast_obj, Json.encodable, Table.encodable_plain _ (Table.plain_arrange w _ plain)]
  | float x =>
      change (w.number x).encodable = w.number x
      rcases w.simple x with same | ⟨n, whole⟩
      · rw [same]
        rfl
      · rw [whole]
        rfl
  | arr items =>
      change (Json.recast w (.arr items)).encodable = Json.recast w (.arr items)
      rw [Json.recast_arr]
      rfl
  | _ => rfl

end

end Freeform

end PlanFlow
