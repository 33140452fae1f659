import PlanFlow.Proofs.RoundTrip

/-!
Sending on what was received. A specification that was received once is written as what it was received from, so taking
the same way again brings nothing new.
-/

set_option autoImplicit false

namespace PlanFlow

open Json (Passage recast ofOption ofList ofTable ofText? ofInt?)

section

variable (w : Passage)

def Json.Alike (a b : Json) : Prop := a.recast w = b.recast w

abbrev Json.AlikeEntries (entries others : Table Json) : Prop :=
  List.Forall₂ (fun a b : Text × Json => a.1 = b.1 ∧ a.2.Alike w b.2) entries others

theorem alike_refl (a : Json) : a.Alike w a := rfl

theorem alike_is_null (a b : Json) (alike : a.Alike w b) : a.isNull = b.isNull := by
  rw [← Json.recast_is_null w a, ← Json.recast_is_null w b, alike]

theorem alike_entries (entries : Table Json) : Json.AlikeEntries w entries entries :=
  List.forall₂_same.mpr fun _ _ => ⟨rfl, rfl⟩

theorem alike_record (entries others : Table Json) (alike : Json.AlikeEntries w entries others) :
    (Nulls.dropped.record entries).Alike w (Nulls.dropped.record others) := by
  have same : ((Nulls.dropped.entries entries).map fun entry => (entry.1, entry.2.recast w)) =
      (Nulls.dropped.entries others).map fun entry => (entry.1, entry.2.recast w) := by
    rw [← List.forall₂_eq_eq_eq, List.forall₂_map_left_iff, List.forall₂_map_right_iff]
    refine (List.rel_filter (fun a b both => ?_) alike).imp fun a b both => Prod.ext both.1 both.2
    exact iff_of_eq (congrArg (fun null => (!null) = true) (alike_is_null w a.2 b.2 both.2))
  rw [Json.Alike, Json.record_recast, Json.record_recast, Json.received, Json.received, same]

theorem alike_option {α : Type} (write : α → Json) (f : α → α) (given : Option α)
    (each : ∀ value ∈ given, (write (f value)).Alike w (write value)) :
    (ofOption write (given.map f)).Alike w (ofOption write given) := by
  cases given with
  | none => rfl
  | some value => exact each value rfl

theorem alike_list {α : Type} (write : α → Json) (f : α → α) (items : List α)
    (each : ∀ item ∈ items, (write (f item)).Alike w (write item)) :
    (ofList write (items.map f)).Alike w (ofList write items) := by
  have same : (((items.map f).map write).map (recast w)) = (items.map write).map (recast w) := by
    rw [List.map_map, List.map_map, List.map_map]
    exact List.map_congr_left each
  rw [Json.Alike, ofList, ofList, Json.recast_arr, Json.recast_arr, same]

theorem alike_table {α : Type} (write : α → Json) (table : Table α) :
    (ofTable write (Table.received w table)).Alike w (ofTable write table) := by
  have written : ofTable write (Table.received w table) = .obj ((Table.received w table).map fun entry => (entry.1, write entry.2)) := by
    rw [ofTable, Table.encodable_map, Table.encodable_plain _ (Table.received_plain w table)]
  rw [Json.Alike, written, ofTable, Table.encodable_map, Json.recast_obj, Json.recast_obj, List.map_map, List.map_map,
    Table.received]
  refine congrArg Json.obj ?_
  have moved := w.map (fun value => (write value).recast w) (Table.encodable table)
  refine (congrArg w.arrange moved.symm).trans ?_
  exact w.arrange_twice _

theorem condition_alike (c : Condition) (valid : c.Valid w.carries) :
    ((c.received w).toJson .dropped).Alike w (c.toJson .dropped) := by
  have value : (Freeform.field ((Freeform.field c.value).toJson.recast w)).toJson.Alike w (Freeform.field c.value).toJson := by
    rw [Json.Alike, Freeform.field_received w c.value valid.value, Json.recast_twice]
  refine alike_record w _ _ ?_
  simp [value, alike_refl, Condition.received]

theorem conditions_alike (given : Option Condition) (valid : ∀ c ∈ given, c.Valid w.carries) :
    (ofOption (Condition.toJson .dropped) (given.map (Condition.received w))).Alike w
      (ofOption (Condition.toJson .dropped) given) :=
  alike_option w _ _ given fun c held => condition_alike w c (valid c held)

theorem edge_alike (e : Edge) (valid : e.Valid w.carries) : ((e.received w).toJson .dropped).Alike w (e.toJson .dropped) := by
  refine alike_record w _ _ ?_
  simp [conditions_alike w e.condition valid.condition, alike_refl, Edge.received]

theorem received_again (own others : Table Json) :
    Json.received w (own ++ Json.received w others) = Json.received w (own ++ others) := by
  have kept : Nulls.dropped.entries (Json.received w others) = Json.received w others := by
    refine List.filter_eq_self.mpr fun entry member => ?_
    obtain ⟨given, _, present, same⟩ := (Json.mem_received w others entry.1 entry.2).mp member
    rw [← same, Json.recast_is_null, present]
    rfl
  have stays : ((Json.received w others).map fun entry => (entry.1, entry.2.recast w)) = Json.received w others := by
    rw [Json.received, ← w.map, List.map_map]
    refine congrArg w.arrange (List.map_congr_left fun entry _ => ?_)
    exact congrArg (Prod.mk entry.1) (Json.recast_twice w entry.2)
  have front (b : Table Json) : Json.received w (own ++ b) = w.arrange
      (((Nulls.dropped.entries own).map fun entry => (entry.1, entry.2.recast w)) ++
        (Nulls.dropped.entries b).map fun entry => (entry.1, entry.2.recast w)) := by
    rw [Json.received, ← List.map_append, Nulls.entries, List.filter_append]
    rfl
  rw [front, front, kept, stays, Json.received, w.append]

theorem block_received_regular (b : ContentBlock) (valid : b.Valid w.carries) :
    ∀ entry ∈ (b.received w).extra, entry.2.Regular w.carries := by
  intro entry member
  obtain ⟨given, inside, _, same⟩ := (Json.mem_received w b.extra entry.1 entry.2).mp member
  exact same ▸ Json.regular_recast w _ given (valid.values _ inside)

theorem block_alike (b : ContentBlock) (valid : b.Valid w.carries) :
    ((b.received w).toJson .dropped).Alike w (b.toJson .dropped) := by
  rw [Json.Alike, block_written b valid.values, block_written _ (block_received_regular w b valid), Json.record_recast,
    Json.record_recast]
  exact congrArg Json.obj (received_again w _ b.extra)

theorem message_alike (m : Message) (valid : m.Valid w.carries) :
    ((m.received w).toJson .dropped).Alike w (m.toJson .dropped) := by
  have content := alike_list w (ContentBlock.toJson .dropped) (ContentBlock.received w) m.content
    fun block member => block_alike w block (valid.content block member)
  refine alike_record w _ _ ?_
  simp [content, alike_refl, Message.received]

theorem described_received (fields : Table Json) (valid : (Json.obj fields).Regular w.carries) :
    Json.obj ((Table.received w fields).map fun entry => (entry.1, entry.2.recast w)) =
      (Freeform.field (.obj fields)).toJson.recast w := by
  rw [Freeform.field_written w _ valid, Json.encodable, Json.recast_obj, w.map]
  rfl

theorem tool_alike (t : Tool) (valid : t.Valid w.carries) : (t.received w).toJson.Alike w t.toJson := by
  cases t with
  | named name => rfl
  | described fields =>
      rw [Tool.received, Tool.toJson, Tool.toJson, described_received w fields valid, Json.Alike,
        Freeform.field_received w _ valid, Json.recast_twice]

theorem request_alike (r : Request) (valid : r.Valid w.carries) :
    Json.AlikeEntries w ((r.received w).entries .dropped) (r.entries .dropped) := by
  have input := alike_option w (ofList (Message.toJson .dropped)) (List.map (Message.received w)) r.input
    fun messages given => alike_list w _ _ messages fun message member =>
      message_alike w message (valid.input messages given message member)
  have tools := alike_option w (ofList Tool.toJson) (List.map (Tool.received w)) r.tools
    fun tools given => alike_list w _ _ tools fun tool member => tool_alike w tool (valid.tools tools given tool member)
  have limits := alike_option w (ofTable .int) (Table.received w) r.toolLimits fun limits _ => alike_table w .int limits
  simp [Request.entries, Request.received, input, tools, limits, alike_refl]

theorem transform_alike (t : Transform) :
    Json.AlikeEntries w ((t.received w).entries .dropped) (t.entries .dropped) := by
  have object := alike_option w (ofTable (ValueRef.toJson .dropped)) (Table.received w) t.object
    fun object _ => alike_table w _ object
  simp [Transform.entries, Transform.received, object, alike_refl]

theorem subnode_alike (n : SubNode) (valid : n.Valid w.carries) :
    ((n.received w).toJson .dropped).Alike w (n.toJson .dropped) := by
  obtain ⟨id, dependsOn, action⟩ := n
  cases action with
  | request kind request => exact alike_record w _ _ (List.rel_append (alike_entries w _) (request_alike w request valid.action))
  | transform transform => exact alike_record w _ _ (List.rel_append (alike_entries w _) (transform_alike w transform))

theorem action_alike (action : Action) (valid : action.Valid w.carries) :
    Json.AlikeEntries w ((action.received w).entries .dropped) (action.entries .dropped) := by
  cases action with
  | request kind request => exact request_alike w request valid
  | joinAll => exact .nil
  | joinAny predicate => simp [Action.entries, Action.received, conditions_alike w predicate valid]
  | joinCollect limit timeout predicate =>
      simp [Action.entries, Action.received, conditions_alike w predicate valid.2.2, alike_refl]
  | transform transform => exact transform_alike w transform
  | mapFanout fanOut =>
      simp [Action.entries, Action.received, FanOut.entries, FanOut.received, subnode_alike w fanOut.subnode valid.subnode,
        alike_refl]

theorem action_received_tag (action : Action) : (action.received w).tag = action.tag := by cases action <;> rfl

theorem node_alike (n : Node) (valid : n.Valid w.carries) : ((n.received w).toJson .dropped).Alike w (n.toJson .dropped) := by
  rw [Node.toJson, Node.toJson, Node.received, action_received_tag]
  exact alike_record w _ _ (List.rel_append (alike_entries w _) (action_alike w n.action valid.action))

theorem payload_alike (s : Spec) (valid : s.Valid w.carries) : (s.received w).toPayload.Alike w s.toPayload := by
  have nodes := alike_list w (Node.toJson .dropped) (Node.received w) s.nodes
    fun node member => node_alike w node (valid.nodes node member)
  have edges := alike_list w (Edge.toJson .dropped) (Edge.received w) s.edges
    fun e member => edge_alike w e (valid.edges e member)
  rw [Spec.payload_written, Spec.payload_written]
  refine alike_record w _ _ ?_
  cases empty : s.edges with
  | nil => simp [Spec.payloadEntries, Spec.received, empty, nodes, alike_refl]
  | cons first others =>
      rw [empty] at edges
      simpa [Spec.payloadEntries, Spec.received, empty, nodes, alike_refl] using edges

end

namespace Json

theorem arr_depth_le (items others : List Json) (each : ∀ item ∈ items, ∃ other ∈ others, item.depth ≤ other.depth) :
    (arr items).depth ≤ (arr others).depth := by
  have bound := (depth_items_iff others _).mp (Nat.le_refl _)
  refine Nat.succ_le_succ ((depth_items_iff items _).mpr fun item member => ?_)
  obtain ⟨other, inside, less⟩ := each item member
  exact less.trans (bound other inside)

theorem obj_depth_le (fields others : List (Text × Json))
    (each : ∀ entry ∈ fields, ∃ other ∈ others, entry.2.depth ≤ other.2.depth) : (obj fields).depth ≤ (obj others).depth := by
  have bound := (depth_fields_iff others _).mp (Nat.le_refl _)
  refine Nat.succ_le_succ ((depth_fields_iff fields _).mpr fun entry member => ?_)
  obtain ⟨other, inside, less⟩ := each entry member
  exact less.trans (bound other inside)

theorem recast_depth_le (w : Passage) (value : Json) : (value.recast w).depth ≤ value.depth := by
  induction value using by_parts with
  | float x =>
      rw [recast]
      rcases w.simple x with same | ⟨n, whole⟩
      · rw [same]
      · rw [whole]
        exact Nat.zero_le _
  | arr items ih =>
      rw [recast_arr]
      exact arr_depth_le _ items (List.forall_mem_map.mpr fun item member => ⟨item, member, ih item member⟩)
  | obj fields ih =>
      rw [recast_obj]
      refine obj_depth_le _ fields fun entry member => ?_
      obtain ⟨given, inside, rfl⟩ := List.mem_map.mp ((w.mem_arrange _ _).mp member)
      exact ⟨given, inside, ih given inside⟩
  | _ => exact Nat.le_refl _

end Json

namespace Freeform

def received (w : Passage) : Freeform → Freeform
  | .field value => .field ((Freeform.field value).toJson.recast w)
  | .extra value => .extra (value.recast w)

theorem finite_depth_le (value : Json) : (finite value).depth ≤ value.depth := by
  induction value using Json.by_parts with
  | float x => by_cases bounded : x.isFinite = true <;> simp [finite, bounded, Json.depth]
  | arr items ih =>
      rw [finite, finite_items_map]
      exact Json.arr_depth_le _ items (List.forall_mem_map.mpr fun item member => ⟨item, member, ih item member⟩)
  | obj fields ih =>
      rw [finite, finite_fields_map]
      exact Json.obj_depth_le _ fields (List.forall_mem_map.mpr fun entry member => ⟨entry, member, ih entry member⟩)
  | _ => exact Nat.le_refl _

theorem field_depth_le (value : Json) : (field value).toJson.depth ≤ value.depth := by
  have bounded := finite_depth_le value
  cases value with
  | arr items => exact bounded
  | obj fields =>
      refine Nat.le_trans (Json.obj_depth_le _ (finiteFields fields) fun entry member => ?_) bounded
      obtain ⟨_, key, inside⟩ := Table.mem_encodable _ entry member
      exact ⟨(key, entry.2), inside, Nat.le_refl _⟩
  | _ => exact Nat.le_refl _

theorem received_clear (w : Passage) (f : Freeform) (clear : f.obstacle? = none) : (f.received w).obstacle? = none := by
  cases f with
  | field value =>
      have shallow := ((obstacle_field_eq_none value).mp clear).2
      have orderly := Json.recast_orderly w _ (field_orderly value clear)
      have written := (Json.recast_depth_le w _).trans (field_depth_le value)
      exact (obstacle_field_eq_none _).mpr ⟨parts_orderly _ orderly, written.trans shallow⟩
  | extra value =>
      obtain ⟨orderly, shallow⟩ := (obstacle_in_eq_none depthLimit value).mp clear
      exact (obstacle_in_eq_none depthLimit _).mpr
        ⟨Json.recast_orderly w value orderly, (Json.recast_depth_le w value).trans shallow⟩

end Freeform

section

variable (w : Passage)

abbrev Freeform.From (received sent : List Freeform) : Prop := received ⊆ sent.map (Freeform.received w)

theorem from_flat_map {α : Type} (values : α → List Freeform) (f : α → α) (items : List α)
    (each : ∀ item ∈ items, Freeform.From w (values (f item)) (values item)) :
    Freeform.From w ((items.map f).flatMap values) (items.flatMap values) := by
  intro value member
  obtain ⟨_, inside, own⟩ := List.mem_flatMap.mp member
  obtain ⟨item, held, rfl⟩ := List.mem_map.mp inside
  obtain ⟨given, sent, rfl⟩ := List.mem_map.mp (each item held own)
  exact List.mem_map_of_mem (List.mem_flatMap.mpr ⟨item, held, sent⟩)

theorem from_append (a b c d : List Freeform) (first : Freeform.From w a c) (second : Freeform.From w b d) :
    Freeform.From w (a ++ b) (c ++ d) := by
  rw [Freeform.From, List.map_append]
  exact List.append_subset.mpr ⟨fun value member => List.mem_append_left _ (first member),
    fun value member => List.mem_append_right _ (second member)⟩

theorem conditions_from (given : Option Condition) :
    Freeform.From w ((given.map (Condition.received w)).toList.flatMap Condition.freeform) (given.toList.flatMap Condition.freeform) := by
  cases given with
  | none => exact List.Subset.refl _
  | some c => exact List.Subset.refl _

theorem block_from (b : ContentBlock) : Freeform.From w (b.received w).freeform b.freeform := by
  intro value member
  obtain ⟨json, inside, rfl⟩ := List.mem_map.mp member
  obtain ⟨entry, held, rfl⟩ := List.mem_map.mp inside
  obtain ⟨given, sent, _, same⟩ := (Json.mem_received w b.extra entry.1 entry.2).mp held
  refine List.mem_map.mpr ⟨.extra given, List.mem_map_of_mem (List.mem_map.mpr ⟨_, sent, rfl⟩), ?_⟩
  rw [Freeform.received, same]

theorem tool_from (t : Tool) (valid : t.Valid w.carries) : Freeform.From w (t.received w).freeform t.freeform := by
  cases t with
  | named name => exact List.nil_subset _
  | described fields =>
      rw [Freeform.From, Tool.received, Tool.freeform, Tool.freeform, described_received w fields valid]
      exact List.Subset.refl _

theorem list_from {α : Type} (values : α → List Freeform) (f : α → α) (given : Option (List α))
    (each : ∀ items ∈ given, ∀ item ∈ items, Freeform.From w (values (f item)) (values item)) :
    Freeform.From w (((given.map (List.map f)).getD []).flatMap values) ((given.getD []).flatMap values) := by
  cases given with
  | none => exact List.nil_subset _
  | some items => exact from_flat_map w values f items (each items rfl)

theorem request_from (r : Request) (valid : r.Valid w.carries) : Freeform.From w (r.received w).freeform r.freeform := by
  refine from_append w _ _ _ _ ?_ ?_
  · exact list_from w _ _ r.input fun _ _ message _ => from_flat_map w _ _ message.content fun block _ => block_from w block
  · exact list_from w _ _ r.tools fun tools given tool member => tool_from w tool (valid.tools tools given tool member)

theorem subaction_from (action : SubAction) (valid : action.Valid w.carries) :
    Freeform.From w (action.received w).freeform action.freeform := by
  cases action with
  | request kind request => exact request_from w request valid
  | transform transform => exact List.nil_subset _

theorem node_from (n : Node) (valid : n.Valid w.carries) : Freeform.From w (n.received w).freeform n.freeform := by
  obtain ⟨id, dependsOn, action⟩ := n
  cases action with
  | request kind request => exact request_from w request valid.action
  | joinAny predicate => exact conditions_from w predicate
  | joinCollect limit timeout predicate => exact conditions_from w predicate
  | mapFanout fanOut => exact subaction_from w fanOut.subnode.action valid.action.subnode.action
  | _ => exact List.nil_subset _

theorem spec_from (s : Spec) (valid : s.Valid w.carries) : Freeform.From w (s.received w).freeform s.freeform := by
  refine from_append w _ _ _ _ ?_ ?_
  · exact from_flat_map w _ _ s.nodes fun node member => node_from w node (valid.nodes node member)
  · exact from_flat_map w _ _ s.edges fun e _ => conditions_from w e.condition

theorem received_payload (s : Spec) (valid : s.Valid w.carries) (form : Json) (presented : s.payload = .ok form) :
    (s.received w).payload = .ok (s.received w).toPayload ∧ (s.received w).toPayload.Alike w form := by
  obtain ⟨clear, rfl⟩ := (Outcome.written_eq_ok _ _ _).mp presented
  have received_clear : Freeform.firstObstacle? (s.received w).freeform = none := by
    refine (Freeform.first_obstacle_eq_none _).mpr fun value member => ?_
    obtain ⟨given, sent, rfl⟩ := List.mem_map.mp (spec_from w s valid member)
    exact given.received_clear w ((Freeform.first_obstacle_eq_none _).mp clear given sent)
  exact ⟨(Outcome.written_eq_ok _ _ _).mpr ⟨received_clear, rfl⟩, payload_alike w s valid⟩

theorem write_recast (through : w.ThroughText) (numbers : Binary64 → Prop)
    (shown : ∀ x, numbers x → Json.Canonical.write (w.number x) = Json.Canonical.write (.float x)) (value : Json)
    (regular : value.Regular numbers) (orderly : value.Orderly) :
    Json.Canonical.write (value.recast w) = Json.Canonical.write value := by
  induction value using Json.by_parts with
  | float x => exact shown x regular
  | arr items ih =>
      have each := (Json.regular_items_iff _ items).mp regular
      rw [Json.recast_arr]
      refine Json.Canonical.write_arr_congr _ _ ?_
      rw [List.forall₂_map_left_iff, List.forall₂_same]
      exact fun item member => ih item member (each item member) ((Json.orderly_arr items).mp orderly item member)
  | obj fields ih =>
      have each := (Json.regular_fields_iff _ fields).mp regular.2
      have clean := (Json.orderly_obj fields).mp orderly
      have placed (others : Table Json) (known : ∀ key ∈ Table.keys others, key ∈ Table.keys fields) :
          (Table.keys others).find? Text.hasSurrogate = none := by
        refine List.find?_eq_none.mpr fun key member => ?_
        obtain ⟨value, inside⟩ := (Table.mem_keys key fields).mp (known key member)
        simp [(clean _ inside).1]
      have kept : (fields.map fun entry => (entry.1, Json.Canonical.write (entry.2.recast w))) =
          fields.map fun entry => (entry.1, Json.Canonical.write entry.2) :=
        List.map_congr_left fun entry member => by rw [ih entry member (each entry member) (clean entry member).2]
      have received_keys : ∀ key ∈ Table.keys (w.arrange (fields.map fun entry => (entry.1, entry.2.recast w))),
          key ∈ Table.keys fields := by
        intro key member
        have given := (w.arrange_keys _ key).mp member
        rwa [Table.keys_map] at given
      have ordered : sortOn Json.Canonical.memberKey
            (Json.Canonical.writeFields (w.arrange (fields.map fun entry => (entry.1, entry.2.recast w)))) =
          sortOn Json.Canonical.memberKey (Json.Canonical.writeFields fields) := by
        rw [through.arrange, Json.write_fields_map, Json.write_fields_map,
          ← Json.sort_members_map, sort_on_sort_on, List.map_map]
        exact congrArg _ kept
      rw [Json.recast_obj, Json.Canonical.write, Json.Canonical.write, placed _ received_keys, placed fields fun _ => id]
      exact congrArg (fun members => Json.Canonical.enclose _ _ (Json.Canonical.joinMembers members)) ordered
  | _ => rfl

end

end PlanFlow
