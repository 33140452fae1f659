import PlanFlow.Proofs.Orderly

/-!
The written form of specifications. Fields have plain names and the keys of tables are brought into UTF-8 form, so
all that a key without a place can come from is a free-form value or the name of an extra field.
-/

set_option autoImplicit false

namespace PlanFlow

open Json (Orderly OrderlyItems OrderlyFields ofText? ofInt? ofOption ofList ofTable)

def ContentBlock.extraNames (b : ContentBlock) : List Text := Table.keys b.extra

def Message.extraNames (m : Message) : List Text := m.content.flatMap ContentBlock.extraNames

def Request.extraNames (r : Request) : List Text := (r.input.getD []).flatMap Message.extraNames

def SubAction.extraNames : SubAction → List Text
  | .request _ r => r.extraNames
  | .transform _ => []

def Action.extraNames : Action → List Text
  | .request _ r => r.extraNames
  | .mapFanout f => f.subnode.action.extraNames
  | .joinAll | .joinAny _ | .joinCollect _ _ _ | .transform _ => []

def Node.extraNames (n : Node) : List Text := n.action.extraNames

def Spec.extraNames (s : Spec) : List Text := s.nodes.flatMap Node.extraNames

structure Presentable (values : List Freeform) (names : List Text) : Prop where
  values : ∀ value ∈ values, value.obstacle? = none
  names : ∀ name ∈ names, name.hasSurrogate = false

theorem presentable_append (a b : List Freeform) (n m : List Text) :
    Presentable (a ++ b) (n ++ m) ↔ Presentable a n ∧ Presentable b m := by
  constructor
  · intro both
    have values := List.forall_mem_append.mp both.values
    have names := List.forall_mem_append.mp both.names
    exact ⟨⟨values.1, names.1⟩, ⟨values.2, names.2⟩⟩
  · rintro ⟨first, second⟩
    exact ⟨List.forall_mem_append.mpr ⟨first.values, second.values⟩, List.forall_mem_append.mpr ⟨first.names, second.names⟩⟩

theorem presentable_flat_map {α : Type} (values : α → List Freeform) (names : α → List Text) (items : List α) :
    Presentable (items.flatMap values) (items.flatMap names) ↔ ∀ item ∈ items, Presentable (values item) (names item) := by
  induction items with
  | nil => simp [Presentable.mk]
  | cons head tail ih => rw [List.flatMap_cons, List.flatMap_cons, presentable_append, ih, List.forall_mem_cons]

section

variable (nulls : Nulls)

theorem orderly_fields_append (a b : List (Text × Json)) : OrderlyFields (a ++ b) ↔ OrderlyFields a ∧ OrderlyFields b := by
  simp only [Json.orderly_fields_iff, List.forall_mem_append]

theorem orderly_record (entries : List (Text × Json)) (orderly : OrderlyFields entries) :
    Orderly (nulls.record entries) := by
  rw [Nulls.record, Json.orderly_obj]
  intro entry member
  have given : entry ∈ entries := by
    cases nulls with
    | kept => exact member
    | dropped => exact (List.mem_filter.mp member).1
  exact (Json.orderly_fields_iff entries).mp orderly entry given

@[simp] theorem orderly_text (t : Option Text) : Orderly (ofText? t) := by cases t <;> trivial

@[simp] theorem orderly_number (n : Option Int) : Orderly (ofInt? n) := by cases n <;> trivial

@[simp] theorem orderly_texts (values : List Text) : Orderly (Json.texts values) := by
  rw [Json.texts, Json.orderly_arr]
  intro item member
  obtain ⟨text, _, rfl⟩ := List.mem_map.mp member
  trivial

theorem orderly_option {α : Type} (write : α → Json) (given : Option α) :
    Orderly (ofOption write given) ↔ ∀ value ∈ given, Orderly (write value) := by
  cases given <;> simp [ofOption]

theorem orderly_list {α : Type} (write : α → Json) (items : List α) :
    Orderly (ofList write items) ↔ ∀ item ∈ items, Orderly (write item) := by
  simp [ofList]

theorem orderly_table {α : Type} (write : α → Json) (each : ∀ value, Orderly (write value)) (table : Table α) :
    Orderly (ofTable write table) := by
  rw [ofTable, Json.orderly_obj]
  intro entry member
  obtain ⟨plain, key, given⟩ := Table.mem_encodable _ entry member
  obtain ⟨original, _, same⟩ := List.mem_map.mp given
  have value : entry.2 = write original.2 := (congrArg Prod.snd same).symm
  exact ⟨plain, value ▸ each original.2⟩

theorem condition_orderly (c : Condition) (clear : Presentable c.freeform []) : Orderly (c.toJson nulls) := by
  have value := Freeform.field_orderly c.value (clear.values _ (List.mem_singleton_self _))
  apply orderly_record
  simp [OrderlyFields, value]

theorem edge_orderly (e : Edge) (clear : Presentable e.freeform []) : Orderly (e.toJson nulls) := by
  have condition : Orderly (ofOption (Condition.toJson nulls) e.condition) := by
    rw [orderly_option]
    intro c given
    refine condition_orderly nulls c ⟨fun value member => clear.values value ?_, nofun⟩
    rw [Edge.freeform, Option.mem_def.mp given, Option.toList_some, List.flatMap_singleton]
    exact member
  apply orderly_record
  simp [OrderlyFields, condition]

theorem output_orderly (o : OutputRef) : Orderly (o.toJson nulls) := by
  apply orderly_record
  simp [OrderlyFields]

theorem block_orderly (b : ContentBlock) (clear : Presentable b.freeform b.extraNames) : Orderly (b.toJson nulls) := by
  have own : OrderlyFields [("type", .str b.kind), ("text", ofText? b.text)] := by simp [OrderlyFields]
  rw [ContentBlock.toJson, Json.orderly_obj]
  refine List.forall_mem_append.mpr ⟨?_, fun entry member => ?_⟩
  · exact (Json.orderly_obj _).mp (orderly_record nulls _ own)
  · obtain ⟨given, inside, rfl⟩ := List.mem_map.mp member
    have held : given ∈ b.extra := by
      cases nulls with
      | kept => exact inside
      | dropped => exact (List.mem_filter.mp inside).1
    have value : given.2 ∈ Table.values b.extra := List.mem_map.mpr ⟨given, held, rfl⟩
    exact ⟨clear.names _ (List.mem_map.mpr ⟨given, held, rfl⟩),
      Freeform.extra_orderly given.2 (clear.values _ (List.mem_map.mpr ⟨given.2, value, rfl⟩))⟩

theorem message_orderly (m : Message) (clear : Presentable m.freeform m.extraNames) : Orderly (m.toJson nulls) := by
  have blocks := (presentable_flat_map _ _ m.content).mp clear
  have content : Orderly (ofList (ContentBlock.toJson nulls) m.content) :=
    (orderly_list _ _).mpr fun block member => block_orderly nulls block (blocks block member)
  apply orderly_record
  simp [OrderlyFields, content]

theorem binding_orderly (b : Binding) : Orderly (b.toJson nulls) := by
  apply orderly_record
  simp [OrderlyFields]

theorem tool_orderly (t : Tool) (clear : Presentable t.freeform []) : Orderly t.toJson := by
  cases t with
  | named name => trivial
  | described fields => exact Freeform.field_orderly (.obj fields) (clear.values _ (List.mem_singleton_self _))

theorem mode_orderly (mode : ToolMode) : Orderly mode.toJson := by simp [ToolMode.toJson]

theorem value_ref_orderly (r : ValueRef) : Orderly (r.toJson nulls) := by
  apply orderly_record
  simp [OrderlyFields]

theorem request_orderly (r : Request) (clear : Presentable r.freeform r.extraNames) : OrderlyFields (r.entries nulls) := by
  have parts : Presentable ((r.input.getD []).flatMap Message.freeform) ((r.input.getD []).flatMap Message.extraNames) ∧
      Presentable ((r.tools.getD []).flatMap Tool.freeform) [] := by
    rw [← presentable_append, List.append_nil]
    exact clear
  have input : Orderly (ofOption (ofList (Message.toJson nulls)) r.input) := by
    rw [orderly_option]
    intro messages given
    have each := parts.1
    rw [Option.mem_def.mp given, Option.getD_some, presentable_flat_map] at each
    exact (orderly_list _ _).mpr fun message member => message_orderly nulls message (each message member)
  have tools : Orderly (ofOption (ofList Tool.toJson) r.tools) := by
    rw [orderly_option]
    intro tools given
    refine (orderly_list _ _).mpr fun tool member => tool_orderly tool ⟨fun value inside => ?_, nofun⟩
    refine parts.2.values value (List.mem_flatMap.mpr ⟨tool, ?_, inside⟩)
    rw [Option.mem_def.mp given]
    exact member
  have mode : Orderly (ofOption ToolMode.toJson r.toolMode) := (orderly_option _ _).mpr fun mode _ => mode_orderly mode
  have limits : Orderly (ofOption (ofTable .int) r.toolLimits) :=
    (orderly_option _ _).mpr fun table _ => orderly_table _ Json.orderly_int table
  have stream : Orderly (ofOption .bool r.stream) := (orderly_option _ _).mpr fun flag _ => Json.orderly_bool flag
  have bindings : Orderly (ofOption (ofList (Binding.toJson nulls)) r.bindings) :=
    (orderly_option _ _).mpr fun given _ => (orderly_list _ _).mpr fun binding _ => binding_orderly nulls binding
  simp [Request.entries, OrderlyFields, input, tools, mode, limits, stream, bindings]

theorem transform_orderly (t : Transform) : OrderlyFields (t.entries nulls) := by
  have object : Orderly (ofOption (ofTable (ValueRef.toJson nulls)) t.object) :=
    (orderly_option _ _).mpr fun table _ => orderly_table _ (value_ref_orderly nulls) table
  have merge : Orderly (ofOption (ofList (ValueRef.toJson nulls)) t.merge) :=
    (orderly_option _ _).mpr fun refs _ => (orderly_list _ _).mpr fun ref _ => value_ref_orderly nulls ref
  simp [Transform.entries, OrderlyFields, object, merge]

theorem frame_orderly (id tag : Text) (dependsOn : Option (List Text)) : OrderlyFields (frameEntries id tag dependsOn) := by
  have waits : Orderly (ofOption Json.texts dependsOn) := (orderly_option _ _).mpr fun values _ => orderly_texts values
  simp [frameEntries, OrderlyFields, waits]

theorem subnode_orderly (n : SubNode) (clear : Presentable n.action.freeform n.action.extraNames) :
    Orderly (n.toJson nulls) := by
  have action : OrderlyFields (n.action.entries nulls) := by
    cases does : n.action with
    | request kind request =>
        rw [does] at clear
        exact request_orderly nulls request clear
    | transform transform => exact transform_orderly nulls transform
  exact orderly_record nulls _ ((orderly_fields_append _ _).mpr ⟨frame_orderly _ _ _, action⟩)

theorem fan_out_orderly (f : FanOut) (clear : Presentable f.subnode.action.freeform f.subnode.action.extraNames) :
    OrderlyFields (f.entries nulls) := by
  have bindings : Orderly (ofOption (ofList (Binding.toJson nulls)) f.itemBindings) :=
    (orderly_option _ _).mpr fun given _ => (orderly_list _ _).mpr fun binding _ => binding_orderly nulls binding
  simp [FanOut.entries, OrderlyFields, bindings, subnode_orderly nulls f.subnode clear]

theorem predicate_orderly (predicate : Option Condition)
    (clear : Presentable (predicate.toList.flatMap Condition.freeform) []) :
    Orderly (ofOption (Condition.toJson nulls) predicate) := by
  rw [orderly_option]
  intro condition given
  refine condition_orderly nulls condition ⟨fun value member => clear.values value ?_, nofun⟩
  rw [Option.mem_def.mp given, Option.toList_some, List.flatMap_singleton]
  exact member

theorem action_orderly (action : Action) (clear : Presentable action.freeform action.extraNames) :
    OrderlyFields (action.entries nulls) := by
  cases action with
  | request kind request => exact request_orderly nulls request clear
  | joinAll => trivial
  | joinAny predicate => simp [Action.entries, OrderlyFields, predicate_orderly nulls predicate clear]
  | joinCollect limit timeout predicate =>
      simp [Action.entries, OrderlyFields, predicate_orderly nulls predicate clear]
  | transform transform => exact transform_orderly nulls transform
  | mapFanout fanOut => exact fan_out_orderly nulls fanOut clear

theorem node_orderly (n : Node) (clear : Presentable n.freeform n.extraNames) : Orderly (n.toJson nulls) :=
  orderly_record nulls _ ((orderly_fields_append _ _).mpr ⟨frame_orderly _ _ _, action_orderly nulls n.action clear⟩)

namespace Spec

theorem entries_orderly (s : Spec) (clear : Presentable s.freeform s.extraNames) : OrderlyFields (s.entries nulls) := by
  have parts : Presentable (s.nodes.flatMap Node.freeform) (s.nodes.flatMap Node.extraNames) ∧
      Presentable (s.edges.flatMap Edge.freeform) [] := by
    rw [← presentable_append, List.append_nil]
    exact clear
  have nodes : Orderly (ofList (Node.toJson nulls) s.nodes) := by
    have each := (presentable_flat_map _ _ s.nodes).mp parts.1
    exact (orderly_list _ _).mpr fun node member => node_orderly nulls node (each node member)
  have edges : Orderly (ofList (Edge.toJson nulls) s.edges) := by
    refine (orderly_list _ _).mpr fun edge member => edge_orderly nulls edge ⟨fun value inside => ?_, nofun⟩
    exact parts.2.values value (List.mem_flatMap.mpr ⟨edge, member, inside⟩)
  have outputs : Orderly (ofList (OutputRef.toJson nulls) s.outputs) :=
    (orderly_list _ _).mpr fun output _ => output_orderly nulls output
  simp [Spec.entries, OrderlyFields, nodes, edges, outputs]

theorem payload_orderly (s : Spec) (clear : Presentable s.freeform s.extraNames) : Orderly s.toPayload := by
  have entries := (Json.orderly_fields_iff _).mp (s.entries_orderly .dropped clear)
  refine orderly_record _ _ ((Json.orderly_fields_iff _).mpr fun entry member => ?_)
  exact entries entry (List.mem_filter.mp member).1

theorem digest_error (s : Spec) (clear : Presentable s.freeform s.extraNames) (failure : Failure)
    (failed : s.digest = .error failure) : (∃ report, failure = .rejected (.notCanonical report)) ∨
      failure = .tooManyDigits none ∧ ∃ n ∈ s.toPayload.wholes, Decimal.printable n = false := by
  have writable : s.payload = .ok s.toPayload := by
    rw [payload, Outcome.written, (Freeform.first_obstacle_eq_none _).mpr clear.values]
  cases canonical : s.canonicalText with
  | ok text => simp [digest, canonical, Except.map] at failed
  | error other =>
      obtain rfl : other = failure := by simpa [digest, canonical, Except.map] using failed
      rw [canonicalText, writable, ok_bind] at canonical
      exact Json.Canonical.of_canonical_ordered _ (s.payload_orderly clear) other canonical

end Spec

end

end PlanFlow
