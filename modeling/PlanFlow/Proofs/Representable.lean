import PlanFlow.Proofs.Normalizing

/-!
Which of the specifications that normalizing answers have a canonical text. Edges are looked at when they are brought
into order, and bounds when they are read, so what is left are numbers in the nodes, nesting, and lone surrogates.
-/

set_option autoImplicit false

namespace PlanFlow

open Json (Orderly ofText? ofInt? ofOption ofList ofTable)

namespace Json

mutual

def Throughout (leaf : Json → Prop) : Json → Prop
  | .arr items => ThroughoutItems leaf items
  | .obj fields => ThroughoutFields leaf fields
  | value => leaf value

def ThroughoutItems (leaf : Json → Prop) : List Json → Prop
  | [] => True
  | item :: rest => Throughout leaf item ∧ ThroughoutItems leaf rest

def ThroughoutFields (leaf : Json → Prop) : List (Text × Json) → Prop
  | [] => True
  | (_, value) :: rest => Throughout leaf value ∧ ThroughoutFields leaf rest

end

@[simp] theorem throughout_arr (leaf : Json → Prop) (items : List Json) :
    Throughout leaf (.arr items) ↔ ∀ item ∈ items, item.Throughout leaf :=
  forall_of_cons (ThroughoutItems leaf) (Throughout leaf) trivial (fun _ _ => .rfl) items

@[simp] theorem throughout_obj (leaf : Json → Prop) (fields : List (Text × Json)) :
    Throughout leaf (.obj fields) ↔ ∀ entry ∈ fields, entry.2.Throughout leaf :=
  forall_of_cons (ThroughoutFields leaf) _ trivial (fun _ _ => .rfl) fields

def CleanLeaf : Json → Prop
  | .str value => value.hasSurrogate = false
  | _ => True

def SafeLeaf : Json → Prop
  | .int value => -Canonical.safeLimit ≤ value ∧ value ≤ Canonical.safeLimit
  | .float value => value.isFinite = true
  | _ => True

abbrev Clean (value : Json) : Prop := value.Throughout CleanLeaf

abbrev Safe (value : Json) : Prop := value.Throughout SafeLeaf

theorem writable_iff (value : Json) : Canonical.Writable value ↔ value.Orderly ∧ value.Clean ∧ value.Safe := by
  induction value using by_parts with
  | arr items ih =>
      simp only [Canonical.Writable, Canonical.writable_items_iff, orderly_arr, Clean, Safe, throughout_arr] at ih ⊢
      exact ⟨fun all => ⟨fun item member => ((ih item member).mp (all item member)).1,
          fun item member => ((ih item member).mp (all item member)).2.1, fun item member => ((ih item member).mp (all item member)).2.2⟩,
        fun all item member => (ih item member).mpr ⟨all.1 item member, all.2.1 item member, all.2.2 item member⟩⟩
  | obj fields ih =>
      simp only [Canonical.Writable, Canonical.writable_fields_iff, orderly_obj, Clean, Safe, throughout_obj] at ih ⊢
      constructor
      · intro all
        have each (entry : Text × Json) (member : entry ∈ fields) := (ih entry member).mp (all entry member).2
        exact ⟨fun entry member => ⟨(all entry member).1, (each entry member).1⟩,
          fun entry member => (each entry member).2.1, fun entry member => (each entry member).2.2⟩
      · rintro ⟨orderly, clean, safe⟩ entry member
        obtain ⟨key, own⟩ := orderly entry member
        exact ⟨key, (ih entry member).mpr ⟨own, clean entry member, safe entry member⟩⟩
  | _ => simp [Canonical.Writable, Throughout, CleanLeaf, SafeLeaf, Orderly]

end Json

def Request.limits (r : Request) : List Int := Table.values (Table.encodable (r.toolLimits.getD []))

def SubAction.limits : SubAction → List Int
  | .request _ r => r.limits
  | .transform _ => []

def Action.limits : Action → List Int
  | .request _ r => r.limits
  | .mapFanout f => f.subnode.action.limits
  | .joinAll | .joinAny _ | .joinCollect _ _ _ | .transform _ => []

def Node.limits (n : Node) : List Int := n.action.limits

def SafeValues (values : List Freeform) : Prop := ∀ value ∈ values, value.toJson.Safe

theorem safe_values_append (a b : List Freeform) : SafeValues (a ++ b) ↔ SafeValues a ∧ SafeValues b :=
  List.forall_mem_append

theorem safe_values_flat_map {α : Type} (values : α → List Freeform) (items : List α) :
    SafeValues (items.flatMap values) ↔ ∀ item ∈ items, SafeValues (values item) := by
  simp only [SafeValues, List.mem_flatMap, forall_exists_index, and_imp]
  exact ⟨fun all item member value inside => all value item member inside, fun all value item member => all item member value⟩

def SafeLimits (limits : List Int) : Prop := ∀ n ∈ limits, (Json.int n).Safe

section

variable (nulls : Nulls)

@[simp] theorem safe_str (t : Text) : (Json.str t).Safe := trivial

@[simp] theorem safe_bool (flag : Bool) : (Json.bool flag).Safe := trivial

@[simp] theorem safe_text (t : Option Text) : (ofText? t).Safe := by cases t <;> trivial

@[simp] theorem safe_texts (values : List Text) : (Json.texts values).Safe := by simp [Json.texts]

theorem forall_written (entries : List (Text × Json)) (p : Json → Prop) (null : p .null) :
    (∀ entry ∈ nulls.entries entries, p entry.2) ↔ ∀ entry ∈ entries, p entry.2 := by
  cases nulls with
  | kept => exact Iff.rfl
  | dropped =>
      refine ⟨fun kept entry member => ?_, fun all entry member => all entry (List.mem_filter.mp member).1⟩
      cases absent : entry.2.isNull with
      | true =>
          cases value : entry.2 with
          | null => exact null
          | _ => simp [value, Json.isNull] at absent
      | false => exact kept entry (List.mem_filter.mpr ⟨member, by simp [absent]⟩)

theorem safe_record (entries : List (Text × Json)) :
    (nulls.record entries).Safe ↔ ∀ entry ∈ entries, entry.2.Safe := by
  rw [Nulls.record, Json.Safe, Json.throughout_obj]
  exact forall_written nulls entries Json.Safe trivial

theorem safe_option {α : Type} (write : α → Json) (given : Option α) :
    (ofOption write given).Safe ↔ ∀ value ∈ given, (write value).Safe := by
  cases given with
  | none => simp [ofOption, Json.Safe, Json.Throughout, Json.SafeLeaf]
  | some value => simp [ofOption]

theorem safe_list {α : Type} (write : α → Json) (items : List α) :
    (ofList write items).Safe ↔ ∀ item ∈ items, (write item).Safe := by
  simp [ofList, Json.Safe]

theorem safe_table {α : Type} (write : α → Json) (table : Table α) :
    (ofTable write table).Safe ↔ ∀ value ∈ Table.values (Table.encodable table), (write value).Safe := by
  rw [ofTable, Table.encodable_map, Json.Safe, Json.throughout_obj, List.forall_mem_map, Table.values, List.forall_mem_map]

theorem condition_safe (c : Condition) : (c.toJson nulls).Safe ↔ SafeValues c.freeform := by
  simp [Condition.toJson, safe_record, Condition.freeform, SafeValues]

theorem predicate_safe (predicate : Option Condition) :
    (ofOption (Condition.toJson nulls) predicate).Safe ↔ SafeValues (predicate.toList.flatMap Condition.freeform) := by
  simp only [safe_option, safe_values_flat_map, Option.mem_toList, Option.mem_def, condition_safe]

theorem edge_safe (e : Edge) : (e.toJson nulls).Safe ↔ SafeValues e.freeform := by
  simp [Edge.toJson, safe_record, predicate_safe, Edge.freeform]

theorem output_safe (o : OutputRef) : (o.toJson nulls).Safe := by simp [OutputRef.toJson, safe_record]

theorem binding_safe (b : Binding) : (b.toJson nulls).Safe := by simp [Binding.toJson, safe_record]

theorem value_ref_safe (r : ValueRef) : (r.toJson nulls).Safe := by simp [ValueRef.toJson, safe_record]

theorem bindings_safe (bindings : Option (List Binding)) : (ofOption (ofList (Binding.toJson nulls)) bindings).Safe :=
  (safe_option _ _).mpr fun _ _ => (safe_list _ _).mpr fun binding _ => binding_safe nulls binding

theorem block_safe (b : ContentBlock) : (b.toJson nulls).Safe ↔ SafeValues b.freeform := by
  have own := (forall_written nulls [("type", .str b.kind), ("text", ofText? b.text)] Json.Safe trivial).mpr (by simp)
  have extra := forall_written nulls b.extra (fun value => (Freeform.extra value).toJson.Safe) trivial
  rw [ContentBlock.toJson, Json.Safe, Json.throughout_obj, List.forall_mem_append, List.forall_mem_map, and_iff_right own,
    extra, SafeValues, ContentBlock.freeform, List.forall_mem_map, Table.values, List.forall_mem_map]

theorem message_safe (m : Message) : (m.toJson nulls).Safe ↔ SafeValues m.freeform := by
  simp [Message.toJson, safe_record, safe_list, block_safe, Message.freeform, safe_values_flat_map]

theorem tool_safe (t : Tool) : t.toJson.Safe ↔ SafeValues t.freeform := by
  cases t <;> simp [Tool.toJson, Tool.freeform, SafeValues]

theorem list_safe {α : Type} (write : α → Json) (values : α → List Freeform)
    (each : ∀ item, (write item).Safe ↔ SafeValues (values item)) (given : Option (List α)) :
    (ofOption (ofList write) given).Safe ↔ SafeValues ((given.getD []).flatMap values) := by
  cases given with
  | none => simp [safe_option, SafeValues]
  | some items => simp [ofOption, safe_list, each, safe_values_flat_map]

theorem request_safe (r : Request) :
    (∀ entry ∈ r.entries nulls, entry.2.Safe) ↔ SafeValues r.freeform ∧ SafeLimits r.limits := by
  have input := list_safe (Message.toJson nulls) Message.freeform (message_safe nulls) r.input
  have tools := list_safe Tool.toJson Tool.freeform tool_safe r.tools
  have stream : (ofOption .bool r.stream).Safe := (safe_option _ _).mpr fun flag _ => safe_bool flag
  have mode : (ofOption ToolMode.toJson r.toolMode).Safe :=
    (safe_option _ _).mpr fun mode _ => by simp [ToolMode.toJson, Json.Safe, Json.Throughout, Json.SafeLeaf]
  have limits : (ofOption (ofTable .int) r.toolLimits).Safe ↔ SafeLimits r.limits := by
    cases given : r.toolLimits with
    | none => simp [safe_option, Request.limits, SafeLimits, given, Table.encodable, Table.values, Table.ofPairs]
    | some table => simp [ofOption, safe_table, Request.limits, SafeLimits, given]
  simp [Request.entries, input, tools, stream, mode, limits, bindings_safe nulls r.bindings, Request.freeform,
    safe_values_append, and_assoc]

theorem transform_safe (t : Transform) : ∀ entry ∈ t.entries nulls, entry.2.Safe := by
  have object : (ofOption (ofTable (ValueRef.toJson nulls)) t.object).Safe :=
    (safe_option _ _).mpr fun table _ => (safe_table _ _).mpr fun ref _ => value_ref_safe nulls ref
  have merge : (ofOption (ofList (ValueRef.toJson nulls)) t.merge).Safe :=
    (safe_option _ _).mpr fun refs _ => (safe_list _ _).mpr fun ref _ => value_ref_safe nulls ref
  simp [Transform.entries, object, merge]

theorem frame_safe (id tag : Text) (dependsOn : Option (List Text)) : ∀ entry ∈ frameEntries id tag dependsOn, entry.2.Safe := by
  have waits : (ofOption Json.texts dependsOn).Safe := (safe_option _ _).mpr fun values _ => safe_texts values
  simp [frameEntries, waits]

theorem framed_safe (id tag : Text) (dependsOn : Option (List Text)) (entries : List (Text × Json)) :
    (nulls.record (frameEntries id tag dependsOn ++ entries)).Safe ↔ ∀ entry ∈ entries, entry.2.Safe := by
  rw [safe_record, List.forall_mem_append, and_iff_right (frame_safe id tag dependsOn)]

theorem subaction_safe (action : SubAction) :
    (∀ entry ∈ action.entries nulls, entry.2.Safe) ↔ SafeValues action.freeform ∧ SafeLimits action.limits := by
  cases action with
  | request kind request => exact request_safe nulls request
  | transform transform =>
      exact iff_of_true (transform_safe nulls transform) ⟨List.forall_mem_nil _, List.forall_mem_nil _⟩

theorem count_safe (n : Int) (counts : Counts n) : (Json.int n).Safe :=
  ⟨(show -Json.Canonical.safeLimit ≤ 0 by decide).trans counts.1.le, counts.2⟩

theorem counts_safe (given : Option Int) (counts : ∀ n ∈ given, Counts n) : (ofInt? given).Safe := by
  cases given with
  | none => trivial
  | some n => exact count_safe n (counts n rfl)

theorem action_safe (numbers : Binary64 → Prop) (action : Action) (valid : action.Valid numbers) :
    (∀ entry ∈ action.entries nulls, entry.2.Safe) ↔ SafeValues action.freeform ∧ SafeLimits action.limits := by
  have none_given : SafeLimits [] := List.forall_mem_nil _
  cases action with
  | request kind request => exact request_safe nulls request
  | joinAll => exact iff_of_true (List.forall_mem_nil _) ⟨List.forall_mem_nil _, none_given⟩
  | joinAny predicate => simp [Action.entries, Action.freeform, Action.limits, predicate_safe, none_given]
  | joinCollect limit timeout predicate =>
      simp [Action.entries, Action.freeform, Action.limits, predicate_safe, none_given, counts_safe limit valid.1,
        counts_safe timeout valid.2.1]
  | transform transform =>
      exact iff_of_true (transform_safe nulls transform) ⟨List.forall_mem_nil _, none_given⟩
  | mapFanout f =>
      have inner : (f.subnode.toJson nulls).Safe ↔ SafeValues f.subnode.action.freeform ∧ SafeLimits f.subnode.action.limits :=
        (framed_safe nulls _ _ _ _).trans (subaction_safe nulls f.subnode.action)
      simp [Action.entries, FanOut.entries, Action.freeform, Action.limits, inner, bindings_safe nulls f.itemBindings,
        counts_safe f.maxParallelism valid.parallel]

theorem node_safe (numbers : Binary64 → Prop) (n : Node) (valid : n.Valid numbers) :
    (n.toJson nulls).Safe ↔ SafeValues n.freeform ∧ SafeLimits n.limits :=
  (framed_safe nulls _ _ _ _).trans (action_safe nulls numbers n.action valid.action)

end

theorem payload_safe (numbers : Binary64 → Prop) (s : Spec) (valid : s.Valid numbers) :
    s.toPayload.Safe ↔ (∀ node ∈ s.nodes, SafeValues node.freeform ∧ SafeLimits node.limits) ∧
      ∀ e ∈ s.edges, SafeValues e.freeform := by
  have nodes : (ofList (Node.toJson .dropped) s.nodes).Safe ↔
      ∀ node ∈ s.nodes, SafeValues node.freeform ∧ SafeLimits node.limits := by
    rw [safe_list]
    exact forall₂_congr fun node member => node_safe .dropped numbers node (valid.nodes node member)
  have edges : (ofList (Edge.toJson .dropped) s.edges).Safe ↔ ∀ e ∈ s.edges, SafeValues e.freeform := by
    simp only [safe_list, edge_safe]
  have outputs : (ofList (OutputRef.toJson .dropped) s.outputs).Safe :=
    (safe_list _ _).mpr fun output _ => output_safe .dropped output
  rw [s.payload_written, safe_record]
  cases empty : s.edges with
  | nil =>
      have null : Json.null.Safe := trivial
      simp [Spec.payloadEntries, empty, nodes, outputs, counts_safe s.maxParallelism valid.parallel, null]
  | cons first others =>
      rw [empty] at edges
      simp [Spec.payloadEntries, empty, nodes, edges, outputs, counts_safe s.maxParallelism valid.parallel]

section

variable (numbers : Binary64 → Prop)

theorem request_names_clean (r : Request) (valid : r.Valid numbers) : ∀ name ∈ r.extraNames, name.hasSurrogate = false := by
  intro name member
  obtain ⟨message, inside, named⟩ := List.mem_flatMap.mp member
  obtain ⟨block, held, own⟩ := List.mem_flatMap.mp named
  cases given : r.input with
  | none => simp [given] at inside
  | some messages =>
      rw [given] at inside
      exact ((valid.input messages given message inside).content block held).plain.2 name own

theorem action_names_clean (action : Action) (valid : action.Valid numbers) :
    ∀ name ∈ action.extraNames, name.hasSurrogate = false := by
  cases action with
  | request kind request => exact request_names_clean numbers request valid
  | mapFanout f =>
      have inner := valid.subnode.action
      cases does : f.subnode.action with
      | request kind request =>
          rw [does] at inner
          simp only [Action.extraNames, does]
          exact request_names_clean numbers request inner
      | transform transform =>
          simp only [Action.extraNames, does]
          exact List.forall_mem_nil _
  | _ => exact List.forall_mem_nil _

theorem spec_names_clean (s : Spec) (valid : s.Valid numbers) : ∀ name ∈ s.extraNames, name.hasSurrogate = false := by
  intro name member
  obtain ⟨node, inside, named⟩ := List.mem_flatMap.mp member
  exact action_names_clean numbers node.action (valid.nodes node inside).action name named

end

theorem canonical_text_iff (s : Spec) :
    (∃ t, s.canonicalText = .ok t) ↔ Freeform.firstObstacle? s.freeform = none ∧ Json.Canonical.Writable s.toPayload := by
  simp only [← Json.Canonical.write_ok, s.canonical_text_eq_ok, exists_and_left]

theorem keyed_edge_safe (e : Edge) (keyed : ∃ key, e.sortKey = .ok key) :
    (∀ value ∈ e.freeform, value.obstacle? = none) ∧ SafeValues e.freeform := by
  obtain ⟨key, own⟩ := keyed
  obtain ⟨text, named, _⟩ := (e.sort_key_eq_ok key).mp own
  cases given : e.condition with
  | none => simp [Edge.freeform, given, SafeValues]
  | some c =>
      obtain ⟨clear, written⟩ := (e.condition_text_eq_ok c given text).mp named
      have writable := (Json.Canonical.write_ok _).mp ⟨text, written⟩
      have values : e.freeform = c.freeform := by simp [Edge.freeform, given]
      rw [values]
      exact ⟨(Freeform.first_obstacle_eq_none _).mp clear,
        (condition_safe .dropped c).mp ((Json.writable_iff _).mp writable).2.2⟩

-- What normalizing leaves unchecked: free-form values in nodes, limits of tools, and lone surrogates in texts.
structure Spec.Representable (s : Spec) : Prop where
  clear : ∀ node ∈ s.nodes, ∀ value ∈ node.freeform, value.obstacle? = none
  values : ∀ node ∈ s.nodes, ∀ value ∈ node.freeform, value.toJson.Safe
  limits : ∀ node ∈ s.nodes, ∀ n ∈ node.limits, (Json.int n).Safe
  texts : s.toPayload.Clean

theorem normal_canonical_iff (s : Spec) (registry : ToolRegistry) (normal : s.Normal registry) (numbers : Binary64 → Prop)
    (valid : s.Valid numbers) : (∃ t, s.canonicalText = .ok t) ↔ s.Representable := by
  have inOrder := Edge.ordered_in_order _ _ normal.settled.fits.inOrder
  have edges (e : Edge) (member : e ∈ s.edges) := keyed_edge_safe e (inOrder.keyed e member)
  have obstacles : Freeform.firstObstacle? s.freeform = none ↔
      ∀ node ∈ s.nodes, ∀ value ∈ node.freeform, value.obstacle? = none := by
    rw [Freeform.first_obstacle_eq_none, Spec.freeform, List.forall_mem_append]
    constructor
    · rintro ⟨nodes, _⟩ node member value inside
      exact nodes value (List.mem_flatMap.mpr ⟨node, member, inside⟩)
    · refine fun nodes => ⟨fun value member => ?_, fun value member => ?_⟩
      · obtain ⟨node, held, inside⟩ := List.mem_flatMap.mp member
        exact nodes node held value inside
      · obtain ⟨e, held, inside⟩ := List.mem_flatMap.mp member
        exact (edges e held).1 value inside
  have numbers_safe := payload_safe numbers s valid
  rw [canonical_text_iff, Json.writable_iff, numbers_safe, obstacles]
  constructor
  · rintro ⟨clear, _, texts, nodes, _⟩
    exact ⟨clear, fun node member => (nodes node member).1, fun node member => (nodes node member).2, texts⟩
  · intro fits
    have presentable : Presentable s.freeform s.extraNames :=
      ⟨(Freeform.first_obstacle_eq_none _).mp (obstacles.mpr fits.clear), spec_names_clean numbers s valid⟩
    exact ⟨fits.clear, s.payload_orderly presentable, fits.texts,
      fun node member => ⟨fits.values node member, fits.limits node member⟩, fun e member => (edges e member).2⟩

theorem hashed_iff (s : Spec) :
    (∃ t, s.canonicalText = .ok t ∧ s.digest = .ok (Json.Canonical.digest t)) ↔ ∃ t, s.canonicalText = .ok t := by
  refine ⟨fun ⟨t, written, _⟩ => ⟨t, written⟩, fun ⟨t, written⟩ => ⟨t, written, ?_⟩⟩
  rw [Spec.digest, written]
  rfl

namespace Sample

def unsafeLimits : Table Int := [("bash", Json.Canonical.safeLimit + 1)]

def unsafeInput : Json := .obj [
  ("nodes", .arr [.obj [("id", .str "n"), ("type", .str "llm"),
    ("tool_limits", .obj (unsafeLimits.map fun entry => (entry.1, .int entry.2)))]]),
  ("outputs", .arr [.obj [("name", .str "r"), ("from", .str "n")]])]

theorem unsafe_normalized : normalize (.value unsafeInput) context = .ok (limited unsafeLimits) := rfl

end Sample

theorem normalize_digest (context : Context) :
    (∀ (payload : Payload Plan) (settings : Settings) (job : Job) (s : Spec),
      compile payload context settings job = .ok s →
      ∃ t, s.canonicalText = .ok t ∧ s.digest = .ok (Json.Canonical.digest t)) ∧
    ∀ (payload : Payload Spec) (s : Spec), normalize payload context = .ok s →
      (∀ intent, Spec.read payload = .ok intent → ∀ e ∈ intent.edges, ∃ text, e.conditionText = .ok text) ∧
      (s.Valid (fun _ => True) →
        ((∃ t, s.canonicalText = .ok t ∧ s.digest = .ok (Json.Canonical.digest t)) ↔ s.Representable)) := by
  refine ⟨fun payload settings job s done => ?_, fun payload s done => ⟨fun intent given => ?_, fun valid => ?_⟩⟩
  · obtain ⟨_, _, _, _, _, hashed⟩ := (Plan.compile_eq_ok payload context settings job s).mp done
    obtain ⟨t, written, _⟩ := (map_eq_ok _ _ _).mp hashed
    exact (hashed_iff s).mpr ⟨t, written⟩
  · obtain ⟨read, held, rest⟩ := (bind_eq_ok _ _ _).mp done
    obtain ⟨built, made, _⟩ := (bind_eq_ok _ _ _).mp rest
    obtain rfl : read = intent := Except.ok.inj (held.symm.trans given)
    obtain ⟨ordered, _, fits, _⟩ := ((Draft.ofSpec read).build_eq_ok built).mp made
    exact (Edge.ordered_iff read.edges).mp ⟨ordered, fits.inOrder⟩
  · rw [hashed_iff]
    exact normal_canonical_iff s context.tools (normalize_normal payload context s done) _ valid

theorem sample_digest :
    (∃ s t, compile (.parsed Sample.plan) Sample.context .standard Sample.job = .ok s ∧ s.canonicalText = .ok t) ∧
    normalize (.value (Sample.chosenInput (.str "yes"))) Sample.context = .ok (Sample.chosen (.str "yes")) ∧
    (Sample.chosen (.str "yes")).Representable := by
  obtain ⟨s, done⟩ := Sample.compiles
  obtain ⟨t, written, _⟩ := (normalize_digest Sample.context).1 _ _ _ s done
  have normalized := Sample.chosen_normalized (.str "yes")
  have valid := Sample.chosen_valid (fun _ => True) (.str "yes") trivial
  have same := ((normalize_digest Sample.context).2 _ _ normalized).2 valid
  exact ⟨⟨s, t, done, written⟩, normalized, same.mp ((hashed_iff _).mpr ⟨_, rfl⟩)⟩

theorem sample_limit_undigested :
    normalize (.value Sample.unsafeInput) Sample.context = .ok (Sample.limited Sample.unsafeLimits) ∧
    (∀ t, (Sample.limited Sample.unsafeLimits).canonicalText ≠ .ok t) ∧
    ∀ digest, (Sample.limited Sample.unsafeLimits).digest ≠ .ok digest := by
  have unwritten : ∀ t, (Sample.limited Sample.unsafeLimits).canonicalText ≠ .ok t := nofun
  refine ⟨Sample.unsafe_normalized, unwritten, fun digest hashed => ?_⟩
  obtain ⟨t, written, _⟩ := (map_eq_ok _ _ _).mp hashed
  exact unwritten t written

end PlanFlow
