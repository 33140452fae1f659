import PlanFlow.Proofs.Validity
import PlanFlow.Proofs.Writing

/-!
The parts of a specification read back. Each is written as JSON that its own reader answers, whichever way it took,
with the same part as that way lets it be received.
-/

set_option autoImplicit false

namespace PlanFlow

open Json (Passage Holds ofOption ofList ofTable ofText? ofInt?)
open Schema

variable {w : Passage}

namespace Schema

theorem reads_text (t : Text) : ReadsBack w anyText (.str t) t := ⟨trivial, rfl, rfl⟩

theorem reads_name (t : Text) (names : t.Names) : ReadsBack w nonEmptyText (.str t) t := by
  have nonempty : t.isEmpty = false := by simp [names.1]
  exact ⟨trivial, rfl, by simp [Json.recast, nonEmptyText, names.2, nonempty]⟩

theorem reads_flag (value : Bool) : ReadsBack w flag (.bool value) value := ⟨trivial, rfl, rfl⟩

theorem reads_integer (n : Int) : ReadsBack w integer (.int n) n := ⟨trivial, rfl, rfl⟩

theorem reads_count (n : Int) (counts : Counts n) : ReadsBack w positiveInteger (.int n) n := by
  refine ⟨trivial, rfl, ?_⟩
  simp [Json.recast, positiveInteger, integerAtMostLimit, integer, Checked.andThen, counts.1, counts.2]

theorem reads_literal (t : Text) (clean : t.hasSurrogate = false) : ReadsBack w (literal t) (.str t) () :=
  ⟨trivial, rfl, by simp [Json.recast, literal, clean]⟩

theorem reads_choice {α : Type} (options : List (Text × α)) (name : Text) (option : α) (clean : name.hasSurrogate = false)
    (known : Table.get? name options = some option) : ReadsBack w (choice options) (.str name) option :=
  ⟨trivial, rfl, by simp [Json.recast, choice, clean, known]⟩

theorem reads_list_kept {α : Type} {check : Json → Checked α} (write : α → Json) (items : List α)
    (each : ∀ item ∈ items, ReadsBack w check (write item) item) : ReadsBack w (listOf check) (ofList write items) items := by
  have reads : ReadsBack w (listOf check) (ofList write items) (items.map id) := reads_list write id items each
  rwa [List.map_id] at reads

theorem absentable_count {entries fields : Table Json} (held : Holds w entries fields) (label : Label)
    (plain : label.alternative = none) (value : Option Int) (counts : ∀ n ∈ value, Counts n)
    (entry : (label.name, ofInt? value) ∈ entries) : absentable label positiveInteger fields = .valid value := by
  have written : ofInt? value = ofOption .int value := by cases value <;> rfl
  rw [written] at entry
  exact absentable_kept held label plain (fun n given => reads_count n (counts n given)) entry

end Schema

theorem reads_source (source : ConditionSource) : ReadsBack w (choice Condition.sources) (.str source.name) source := by
  cases source <;> exact reads_choice _ _ _ (by decide) rfl

theorem reads_op (op : ConditionOp) : ReadsBack w (choice Condition.ops) (.str op.name) op := by
  cases op <;> exact reads_choice _ _ _ (by decide) rfl

theorem reads_encoding (encoding : Encoding) : ReadsBack w (choice Binding.encodings) (.str encoding.name) encoding := by
  cases encoding <;> exact reads_choice _ _ _ (by decide) rfl

theorem condition_reads (c : Condition) (valid : c.Valid w.carries) :
    ReadsBack w Condition.ofJson (c.toJson .dropped) (c.received w) := by
  have carried := Freeform.field_regular w c.value valid.value
  refine reads_record ["source", "op", "path", "value"] _ rfl (by decide) ?_ _ "Condition" _ fun fields held free => ?_
  · simp [carried]
  · have nonempty : c.path ≠ [] := by
      intro empty
      have rooted := valid.rooted
      rw [empty] at rooted
      cases rooted
    have source := required_reads held "source" (reads_source c.source) (by simp)
    have op := required_reads held "op" (reads_op c.op) (by simp)
    have path := required_reads held "path" (reads_name c.path ⟨nonempty, valid.clean⟩) (by simp)
    have value := defaulted_free held "value" rfl (Freeform.field c.value).toJson (by simp)
    refine (Checked.and_then_eq_valid _ _ _).mpr ⟨c.received w, (closed_eq_valid _ _ _ _).mpr ⟨?_, free⟩, ?_⟩
    · rw [source, op, path, value]
      rfl
    · exact if_pos valid.rooted

theorem edge_reads (e : Edge) (valid : e.Valid w.carries) : ReadsBack w Edge.ofJson (e.toJson .dropped) (e.received w) := by
  have conditions : ∀ c ∈ e.condition, ReadsBack w Condition.ofJson (c.toJson .dropped) (c.received w) :=
    fun c given => condition_reads c (valid.condition c given)
  refine reads_record [.source, "to", "when"] _ rfl (by decide) ?_ _ "Edge" _ fun fields held free => ?_
  · simp [regular_option conditions]
  · have source := required_reads held .source (reads_name e.source valid.source) (by simp [Label.source])
    have target := required_reads held "to" (reads_name e.target valid.target) (by simp)
    have condition := absentable_reads held "when" rfl conditions (by simp)
    refine (closed_eq_valid _ _ _ _).mpr ⟨?_, free⟩
    rw [source, target, condition]
    rfl

theorem output_reads (o : OutputRef) (faithful : o.Faithful) : ReadsBack w OutputRef.ofJson (o.toJson .dropped) o := by
  refine reads_record ["name", .source, "pointer"] _ rfl (by decide) (by simp) _ "OutputRef" _ fun fields held free => ?_
  have name := required_reads held "name" (reads_name o.name faithful.name) (by simp)
  have source := required_reads held .source (reads_name o.source faithful.source) (by simp [Label.source])
  have pointer := absentable_text held "pointer" rfl o.pointer (by simp)
  refine (closed_eq_valid _ _ _ _).mpr ⟨?_, free⟩
  rw [name, source, pointer]
  rfl

def ContentBlock.entries (b : ContentBlock) : List (Text × Json) :=
  [(("type" : Text), Json.str b.kind), (("text" : Text), ofText? b.text)] ++ b.extra

theorem block_written (b : ContentBlock) (values : ∀ entry ∈ b.extra, entry.2.Regular w.carries) :
    b.toJson .dropped = Nulls.dropped.record b.entries := by
  have same : ((Nulls.dropped.entries b.extra).map fun entry => (entry.1, (Freeform.extra entry.2).toJson)) =
      (Nulls.dropped.entries b.extra).map id := by
    refine List.map_congr_left fun entry member => ?_
    have value := values entry (List.mem_filter.mp member).1
    rw [Freeform.extra_written w entry.2 value, id]
  rw [ContentBlock.toJson, same, List.map_id, Nulls.record, ContentBlock.entries, Nulls.entries, Nulls.entries, Nulls.entries,
    List.filter_append]

theorem block_beyond {numbers : Binary64 → Prop} (b : ContentBlock) (valid : b.Valid numbers) :
    ∀ name ∈ Table.keys b.extra, name ∉ ([("type" : Text), ("text" : Text)] : List Text) := by
  intro name member own
  rcases List.mem_pair.mp own with rfl | rfl
  · exact valid.beyond.1 member
  · exact valid.beyond.2 member

theorem block_apart {numbers : Binary64 → Prop} (b : ContentBlock) (valid : b.Valid numbers) : Apart (Table.keys b.entries) := by
  have keys : Table.keys b.entries = [("type" : Text), ("text" : Text)] ++ Table.keys b.extra := Table.keys_append _ _
  rw [keys]
  refine ⟨List.nodup_append.mpr ⟨by decide, valid.plain.1, fun name own other extra same => ?_⟩, ?_⟩
  · exact block_beyond b valid other extra (same ▸ own)
  · exact List.forall_mem_append.mpr ⟨by decide, valid.plain.2⟩

theorem block_reads (b : ContentBlock) (valid : b.Valid w.carries) :
    ReadsBack w ContentBlock.ofJson (b.toJson .dropped) (b.received w) := by
  obtain ⟨distinct, clean⟩ := block_apart b valid
  have held := Json.holds_received w _ distinct
  have kind : defaulted "type" anyText "text" (Json.received w b.entries) = .valid b.kind :=
    defaulted_reads held "type" ("text" : Text) (reads_text b.kind) (by simp [ContentBlock.entries])
  have text := absentable_text held "text" rfl b.text (by simp [ContentBlock.entries])
  have extra : extras ["type", "text"] (Json.received w b.entries) = Json.received w b.extra :=
    extras_received w ["type", "text"] (by simp) _ b.extra rfl (block_beyond b valid)
  have keys := keyed_clean (Json.received w b.entries) fun key member => clean key (Json.received_keys w _ key member)
  rw [block_written b valid.values]
  refine ⟨Json.regular_record _ _ distinct fun entry member => ?_, rfl, ?_⟩
  · rcases List.mem_append.mp member with own | other
    · rcases List.mem_pair.mp own with rfl | rfl <;> simp
    · exact valid.values entry other
  · rw [Json.record_recast, ContentBlock.ofJson, record, keys, Checked.andThen, kind, text, extra]
    rfl

theorem message_reads (m : Message) (valid : m.Valid w.carries) :
    ReadsBack w Message.ofJson (m.toJson .dropped) (m.received w) := by
  have blocks : ∀ block ∈ m.content, ReadsBack w ContentBlock.ofJson (block.toJson .dropped) (block.received w) :=
    fun block member => block_reads block (valid.content block member)
  have contents := reads_list (ContentBlock.toJson .dropped) (ContentBlock.received w) m.content blocks
  refine reads_record ["type", "role", "content"] _ rfl (by decide) ?_ _ "InputMessage" _ fun fields held free => ?_
  · simp [contents.regular]
  · have kind := defaulted_reads held "type" () (reads_literal "message" (by decide)) (by simp)
    have role := required_reads held "role" (reads_name m.role valid.role) (by simp)
    have content := defaulted_reads held "content" [] contents (by simp)
    refine (closed_eq_valid _ _ _ _).mpr ⟨?_, free⟩
    rw [kind, role, content]
    rfl

theorem binding_reads (b : Binding) (valid : b.Faithful) : ReadsBack w Binding.ofJson (b.toJson .dropped) b := by
  refine reads_record [.source, "pointer", "to", "to_placeholder", "encoding"] _ rfl (by decide) (by simp) _ "Binding" _
    fun fields held free => ?_
  have source := required_reads held .source (reads_name b.source valid.source) (by simp [Label.source])
  have pointer := absentable_text held "pointer" rfl b.pointer (by simp)
  have target := absentable_text held "to" rfl b.target (by simp)
  have placeholder := absentable_text held "to_placeholder" rfl b.placeholder (by simp)
  have encoding := defaulted_reads held "encoding" .jsonString (reads_encoding b.encoding) (by simp)
  refine (Checked.and_then_eq_valid _ _ _).mpr ⟨b, (closed_eq_valid _ _ _ _).mpr ⟨?_, free⟩, ?_⟩
  · rw [source, pointer, target, placeholder, encoding]
    rfl
  · simp [Binding.checkTarget, valid.target]

theorem tool_reads (t : Tool) (valid : t.Valid w.carries) : ReadsBack w Tool.ofJson t.toJson (t.received w) := by
  cases t with
  | named name => exact ⟨trivial, rfl, rfl⟩
  | described fields =>
      have carried := Freeform.field_regular w (.obj fields) valid
      have written := Freeform.field_written w (.obj fields) valid
      rw [written] at carried
      rw [Tool.toJson, written]
      refine ⟨carried, rfl, ?_⟩
      rw [Json.encodable, Json.recast_obj, w.map]
      rfl

theorem mode_reads (mode : ToolMode) : ReadsBack w ToolMode.ofJson mode.toJson mode := by
  have alone : mode.toJson.recast w = mode.toJson := by
    rw [ToolMode.toJson, Json.recast_obj]
    exact congrArg Json.obj (List.perm_singleton.mp (w.perm _))
  refine ⟨⟨List.nodup_singleton _, trivial, trivial⟩, rfl, ?_⟩
  rw [alone]
  cases mode <;> rfl

theorem value_ref_reads (r : ValueRef) (source : r.source.Names) : ReadsBack w ValueRef.ofJson (r.toJson .dropped) r := by
  refine reads_record [.source, "pointer"] _ rfl (by decide) (by simp) _ "ValueRef" _ fun fields held free => ?_
  have from_node := required_reads held .source (reads_name r.source source) (by simp [Label.source])
  have pointer := absentable_text held "pointer" rfl r.pointer (by simp)
  refine (closed_eq_valid _ _ _ _).mpr ⟨?_, free⟩
  rw [from_node, pointer]
  rfl

theorem table_from_reads {α β : Type} {check : Json → Checked β} (write : α → Json) (result : α → β) (table : Table α)
    (each : ∀ entry ∈ table, ReadsBack w check (write entry.2) (result entry.2)) :
    tableFrom check (table.map fun entry => (entry.1, (write entry.2).recast w)) =
      .valid (table.map fun entry => (entry.1, result entry.2)) := by
  induction table with
  | nil => rfl
  | cons head tail ih =>
      obtain ⟨first, rest⟩ := List.forall_mem_cons.mp each
      rw [List.map_cons, tableFrom, first.valid, ih rest]
      rfl

theorem reads_table {α β : Type} {check : Json → Checked β} (write : α → Json) (result : α → β) (table : Table α)
    (each : ∀ entry ∈ table, ReadsBack w check (write entry.2) (result entry.2)) :
    ReadsBack w (tableOf check) (ofTable write table)
      ((Table.received w table).map fun entry => (entry.1, result entry.2)) := by
  have kept : ∀ entry ∈ Table.encodable table, ReadsBack w check (write entry.2) (result entry.2) := by
    intro entry member
    obtain ⟨_, key, given⟩ := Table.mem_encodable table entry member
    exact each (key, entry.2) given
  rw [ofTable, Table.encodable_map]
  refine ⟨⟨?_, (Json.regular_fields_iff _ _).mpr fun entry member => ?_⟩, rfl, ?_⟩
  · rw [Table.keys_map]
    exact Table.encodable_nodup table
  · obtain ⟨given, inside, rfl⟩ := List.mem_map.mp member
    exact (kept given inside).regular
  · have inside := table_from_reads write result (Table.received w table) fun entry member =>
      kept entry ((w.mem_arrange _ _).mp member)
    rw [Json.recast_obj, List.map_map, tableOf, ← inside]
    exact congrArg (tableFrom check) (w.map (fun value => (write value).recast w) (Table.encodable table))

theorem reads_table_kept {α : Type} {check : Json → Checked α} (write : α → Json) (table : Table α)
    (each : ∀ entry ∈ table, ReadsBack w check (write entry.2) entry.2) :
    ReadsBack w (tableOf check) (ofTable write table) (Table.received w table) := by
  have reads : ReadsBack w (tableOf check) (ofTable write table)
      ((Table.received w table).map fun entry => (entry.1, id entry.2)) := reads_table write id table each
  simpa using reads

structure ReadsFields {α : Type} (w : Passage) (entries : List (Text × Json)) (read : Table Json → Checked α) (value : α) :
    Prop where
  regular : ∀ entry ∈ entries, entry.2.Regular w.carries
  valid : ∀ fields, Holds w entries fields → read fields = .valid value

theorem binding_lists_read (w : Passage) (bindings : Option (List Binding))
    (valid : ∀ given ∈ bindings, ∀ binding ∈ given, binding.Faithful) :
    ∀ given ∈ bindings, ReadsBack w (listOf Binding.ofJson) (ofList (Binding.toJson .dropped) given) given := by
  intro given held
  exact reads_list_kept _ given fun binding member => binding_reads binding (valid given held binding member)

theorem request_reads (r : Request) (valid : r.Valid w.carries) :
    ReadsFields w (r.entries .dropped) Request.ofFields (r.received w) := by
  have messages : ∀ messages ∈ r.input,
      ReadsBack w (listOf Message.ofJson) (ofList (Message.toJson .dropped) messages) (messages.map (Message.received w)) :=
    fun messages given => reads_list _ _ messages fun message member =>
      message_reads message (valid.input messages given message member)
  have tools : ∀ tools ∈ r.tools, ReadsBack w (listOf Tool.ofJson) (ofList Tool.toJson tools) (tools.map (Tool.received w)) :=
    fun tools given => reads_list _ _ tools fun tool member => tool_reads tool (valid.tools tools given tool member)
  have modes : ∀ mode ∈ r.toolMode, ReadsBack w ToolMode.ofJson mode.toJson mode := fun mode _ => mode_reads mode
  have flags : ∀ value ∈ r.stream, ReadsBack w flag (.bool value) value := fun value _ => reads_flag value
  have limits : ∀ limits ∈ r.toolLimits, ReadsBack w (tableOf integer) (ofTable .int limits) (Table.received w limits) := by
    intro limits _
    exact reads_table_kept .int limits fun entry _ => reads_integer entry.2
  have bindings := binding_lists_read w r.bindings valid.bindings
  refine ⟨?_, fun fields held => ?_⟩
  · simp [Request.entries, regular_option messages, regular_option tools, regular_option modes, regular_option flags,
      regular_option limits, regular_option bindings]
  · have model := absentable_text held "model" rfl r.model (by simp [Request.entries])
    have system := absentable_text held "system" rfl r.system (by simp [Request.entries])
    have user := absentable_text held "user" rfl r.user (by simp [Request.entries])
    have input := absentable_reads held "input" rfl messages (by simp [Request.entries])
    have stream := absentable_kept held "stream" rfl flags (by simp [Request.entries])
    have used := absentable_reads held "tools" rfl tools (by simp [Request.entries])
    have mode := absentable_kept held "tool_execution" rfl modes (by simp [Request.entries])
    have limited := absentable_reads held "tool_limits" rfl limits (by simp [Request.entries])
    have bound := absentable_kept held "bindings" rfl bindings (by simp [Request.entries])
    rw [Request.ofFields, model, system, user, input, stream, used, mode, limited, bound]
    rfl

theorem transform_reads (w : Passage) (t : Transform) (valid : t.Valid) :
    ReadsFields w (t.entries .dropped) Transform.ofFields (t.received w) := by
  have objects : ∀ object ∈ t.object,
      ReadsBack w (tableOf ValueRef.ofJson) (ofTable (ValueRef.toJson .dropped) object) (Table.received w object) := by
    intro object given
    exact reads_table_kept _ object fun entry member => value_ref_reads entry.2 (valid.object object given entry member)
  have merges : ∀ refs ∈ t.merge,
      ReadsBack w (listOf ValueRef.ofJson) (ofList (ValueRef.toJson .dropped) refs) refs := by
    intro refs given
    exact reads_list_kept _ refs fun ref member => value_ref_reads ref (valid.merge refs given ref member)
  refine ⟨?_, fun fields held => ?_⟩
  · simp [Transform.entries, regular_option objects, regular_option merges]
  · have object := absentable_reads held "object" rfl objects (by simp [Transform.entries])
    have merge := absentable_kept held "merge" rfl merges (by simp [Transform.entries])
    rw [Transform.ofFields, object, merge]
    rfl

theorem texts_read (values : List Text) : ReadsBack w (listOf anyText) (Json.texts values) values :=
  reads_list_kept .str values fun value _ => reads_text value

theorem frame_reads (w : Passage) (id tag : Text) (dependsOn : Option (List Text)) (names : id.Names) (clean : tag.hasSurrogate = false) :
    ReadsFields w (frameEntries id tag dependsOn) (Frame.ofFields tag) ⟨id, dependsOn⟩ := by
  have waits : ∀ values ∈ dependsOn, ReadsBack w (listOf anyText) (Json.texts values) values := fun values _ => texts_read values
  refine ⟨?_, fun fields held => ?_⟩
  · simp [frameEntries, regular_option waits]
  · have name := required_reads held "id" (reads_name id names) (by simp [frameEntries])
    have kind := defaulted_reads held "type" () (reads_literal tag clean) (by simp [frameEntries])
    have after := absentable_kept held "depends_on" rfl waits (by simp [frameEntries])
    rw [Frame.ofFields, name, kind, after]
    rfl

theorem fields_map {α β : Type} (f : α → β) {entries : List (Text × Json)} {read : Table Json → Checked α} {value : α}
    (reads : ReadsFields w entries read value) : ReadsFields w entries (fun fields => (read fields).map f) (f value) :=
  ⟨reads.regular, fun fields held => by rw [reads.valid fields held, Checked.map]⟩

theorem reads_framed {α β : Type} (readers : TaggedReader β) (make : Text → Option (List Text) → α → β) (id tag : Text)
    (dependsOn : Option (List Text)) (names : id.Names) (clean : tag.hasSurrogate = false) (labels : List Label)
    (entries : List (Text × Json)) (named : Table.keys entries = labels.map Label.name)
    (apart : Apart ((Frame.labels ++ labels).map Label.name)) (action : Table Json → Checked α) (value : α)
    (inner : ReadsFields w entries action value) (read : Table Json → Checked β) (known : Table.get? tag readers = some read)
    (settled : ∀ fields, closed (Frame.labels ++ labels) fields
        ((fun frame action => make frame.id frame.dependsOn action) <$> Frame.ofFields tag fields <*> action fields) =
          .valid (make id dependsOn value) → read fields = .valid (make id dependsOn value)) :
    ReadsBack w (readTagged readers) (Nulls.dropped.record (frameEntries id tag dependsOn ++ entries))
      (make id dependsOn value) := by
  have frame := frame_reads w id tag dependsOn names clean
  have keys : Table.keys (frameEntries id tag dependsOn ++ entries) = (Frame.labels ++ labels).map Label.name := by
    rw [Table.keys_append, named, List.map_append]
    rfl
  have regular := List.forall_mem_append.mpr ⟨frame.regular, inner.regular⟩
  refine reads_tagged (Frame.labels ++ labels) _ keys apart regular _ readers tag (by simp [frameEntries]) read known
    fun fields held free => settled fields ((closed_eq_valid _ _ _ _).mpr ⟨?_, free⟩)
  obtain ⟨front, back⟩ := (Json.holds_append w _ _ fields).mp held
  rw [frame.valid fields front, inner.valid fields back]
  rfl

theorem subnode_reads (n : SubNode) (valid : n.Valid w.carries) :
    ReadsBack w SubNode.ofJson (n.toJson .dropped) (n.received w) := by
  obtain ⟨id, dependsOn, action⟩ := n
  obtain ⟨names, acts⟩ := valid
  cases action with
  | request kind request =>
      have inner := fields_map (SubAction.request kind) (request_reads request acts)
      have known : Table.get? kind.tag SubNode.readers = some (SubNode.readRequest kind) := by cases kind <;> rfl
      exact reads_framed SubNode.readers SubNode.mk id kind.tag dependsOn names (action_tag_clean (.request kind request)) Request.labels _ rfl
        (by decide) _ _ inner _ known fun _ read => read
  | transform transform =>
      have inner := fields_map SubAction.transform (transform_reads w transform acts)
      exact reads_framed SubNode.readers SubNode.mk id Transform.tag dependsOn names (by decide) Transform.labels _ rfl
        (by decide) _ _ inner SubNode.readTransform rfl fun _ read => read

theorem fan_out_reads (f : FanOut) (valid : f.Valid w.carries) :
    ReadsFields w (f.entries .dropped) FanOut.ofFields (f.received w) := by
  have inner := subnode_reads f.subnode valid.subnode
  have bindings := binding_lists_read w f.itemBindings valid.bindings
  refine ⟨?_, fun fields held => ?_⟩
  · simp [FanOut.entries, inner.regular, regular_option bindings]
  · have source := absentable_text held "items_from" rfl f.itemsFrom (by simp [FanOut.entries])
    have input := absentable_text held "items_from_input" rfl f.itemsFromInput (by simp [FanOut.entries])
    have pointer := absentable_text held "items_pointer" rfl f.itemsPointer (by simp [FanOut.entries])
    have subnode := required_reads held "subnode" inner (by simp [FanOut.entries])
    have bound := absentable_kept held "item_bindings" rfl bindings (by simp [FanOut.entries])
    have parallel := absentable_count held "max_parallelism" rfl f.maxParallelism valid.parallel (by simp [FanOut.entries])
    rw [FanOut.ofFields, source, input, pointer, subnode, bound, parallel]
    rfl

theorem predicate_reads (predicate : Option Condition) (valid : ∀ c ∈ predicate, c.Valid w.carries) :
    ∀ c ∈ predicate, ReadsBack w Condition.ofJson (c.toJson .dropped) (c.received w) :=
  fun c given => condition_reads c (valid c given)

theorem join_any_reads (predicate : Option Condition) (valid : ∀ c ∈ predicate, c.Valid w.carries) :
    ReadsFields w ((Action.joinAny predicate).entries .dropped)
      (fun fields => (absentable "predicate" Condition.ofJson fields).map Action.joinAny)
      (Action.joinAny (predicate.map (Condition.received w))) := by
  have predicates := predicate_reads predicate valid
  refine ⟨by simp [Action.entries, regular_option predicates], fun fields held => ?_⟩
  rw [absentable_reads held "predicate" rfl predicates (by simp [Action.entries]), Checked.map]

theorem join_collect_reads (limit timeout : Option Int) (predicate : Option Condition)
    (valid : (Action.joinCollect limit timeout predicate).Valid w.carries) :
    ReadsFields w ((Action.joinCollect limit timeout predicate).entries .dropped)
      (fun fields => Action.joinCollect <$> absentable "limit" positiveInteger fields
        <*> absentable "timeout_ms" positiveInteger fields
        <*> absentable "predicate" Condition.ofJson fields)
      (Action.joinCollect limit timeout (predicate.map (Condition.received w))) := by
  obtain ⟨limited, timed, conditions⟩ := valid
  have predicates := predicate_reads predicate conditions
  refine ⟨by simp [Action.entries, regular_option predicates], fun fields held => ?_⟩
  have most := absentable_count held "limit" rfl limit limited (by simp [Action.entries])
  have wait := absentable_count held "timeout_ms" rfl timeout timed (by simp [Action.entries])
  rw [most, wait, absentable_reads held "predicate" rfl predicates (by simp [Action.entries])]
  rfl

theorem node_reads (n : Node) (valid : n.Valid w.carries) : ReadsBack w Node.ofJson (n.toJson .dropped) (n.received w) := by
  obtain ⟨id, dependsOn, action⟩ := n
  obtain ⟨names, acts⟩ := valid
  have clean := action_tag_clean action
  cases action with
  | request kind request =>
      have inner := fields_map (Action.request kind) (request_reads request acts)
      have known : Table.get? kind.tag Node.readers = some (Node.readRequest kind) := by cases kind <;> rfl
      exact reads_framed Node.readers Node.mk id kind.tag dependsOn names clean Request.labels _ rfl (by decide) _ _ inner
        _ known fun _ read => read
  | joinAll =>
      have inner : ReadsFields w [] (fun _ => Checked.valid Action.joinAll) .joinAll := ⟨nofun, fun _ _ => rfl⟩
      exact reads_framed Node.readers Node.mk id _ dependsOn names clean [] _ rfl (by decide) _ _ inner
        Node.readJoinAll rfl fun _ read => read
  | joinAny predicate =>
      exact reads_framed Node.readers Node.mk id _ dependsOn names clean ["predicate"] _ rfl (by decide) _ _
        (join_any_reads predicate acts) Node.readJoinAny rfl fun _ read => read
  | joinCollect limit timeout predicate =>
      exact reads_framed Node.readers Node.mk id _ dependsOn names clean ["limit", "timeout_ms", "predicate"] _ rfl (by decide)
        _ _ (join_collect_reads limit timeout predicate acts) Node.readJoinCollect rfl fun _ read => read
  | transform transform =>
      have inner := fields_map Action.transform (transform_reads w transform acts)
      exact reads_framed Node.readers Node.mk id _ dependsOn names clean Transform.labels _ rfl (by decide) _ _ inner
        Node.readTransform rfl fun _ read => read
  | mapFanout fanOut =>
      have inner := fields_map Action.mapFanout (fan_out_reads fanOut acts)
      have one : (fanOut.received w).hasOneSource = true := acts.source
      refine reads_framed Node.readers Node.mk id _ dependsOn names clean FanOut.labels _ rfl (by decide) _ _ inner
        Node.readFanOut rfl fun fields read => (Checked.and_then_eq_valid _ _ _).mpr ⟨_, read, ?_⟩
      exact if_pos one

end PlanFlow
