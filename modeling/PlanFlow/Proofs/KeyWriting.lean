import PlanFlow.Proofs.Containment
import PlanFlow.Proofs.KeyReading

/-!
What is written of the order of keys. Parts of a specification that are equal up to the order of keys are written with one
canonical text, as long as no table has two keys that become one in UTF-8 form.
-/

set_option autoImplicit false

namespace PlanFlow

open Json (ofOption ofList ofTable ofText? ofInt? Twin)

theorem option_rel_to_list {α β : Type} {related : α → β → Prop} (a : Option α) (b : Option β)
    (moved : Option.Rel related a b) :
    List.Forall₂ related a.toList b.toList := by
  cases moved with
  | some own => exact .cons own .nil
  | none => exact .nil

theorem option_rel_get_d {α β : Type} {related : α → β → Prop} (a : Option (List α)) (b : Option (List β))
    (moved : Option.Rel (List.Forall₂ related) a b) : List.Forall₂ related (a.getD []) (b.getD []) := by
  cases moved with
  | some each => exact each
  | none => exact .nil

namespace Freeform

def Follow (others given : List Freeform) : Prop := ∀ g ∈ others, ∃ f ∈ given, f.Reordered g

theorem follow_clear (others given : List Freeform) (follow : Follow others given)
    (clear : ∀ f ∈ given, f.obstacle? = none) :
    ∀ g ∈ others, g.obstacle? = none := by
  intro g member
  obtain ⟨f, inside, moved⟩ := follow g member
  exact reordered_clear f g moved (clear f inside)

theorem follow_append (a b c d : List Freeform) (first : Follow a c) (second : Follow b d) : Follow (a ++ b) (c ++ d) := by
  intro g member
  rcases List.mem_append.mp member with front | back
  · obtain ⟨f, inside, moved⟩ := first g front
    exact ⟨f, List.mem_append_left d inside, moved⟩
  · obtain ⟨f, inside, moved⟩ := second g back
    exact ⟨f, List.mem_append_right c inside, moved⟩

theorem follow_flat_map {α : Type} {related : α → α → Prop} (values : α → List Freeform) (items others : List α)
    (each : List.Forall₂ related items others) (step : ∀ a b, related a b → Follow (values b) (values a)) :
    Follow (others.flatMap values) (items.flatMap values) := by
  intro g member
  obtain ⟨other, inside, own⟩ := List.mem_flatMap.mp member
  obtain ⟨item, held, same⟩ := exists_matching related items others each other inside
  obtain ⟨f, given, moved⟩ := step item other same g own
  exact ⟨f, List.mem_flatMap.mpr ⟨item, held, given⟩, moved⟩

end Freeform

open Freeform (Follow follow_append follow_flat_map)

theorem condition_follow (c d : Condition) (moved : c.Reordered d) : Follow d.freeform c.freeform := by
  intro g member
  rw [List.mem_singleton.mp member]
  exact ⟨_, List.mem_singleton_self _, .field _ _ moved.value⟩

theorem predicate_follow (c d : Option Condition) (moved : Option.Rel Condition.Reordered c d) :
    Follow (d.toList.flatMap Condition.freeform) (c.toList.flatMap Condition.freeform) :=
  follow_flat_map _ _ _ (option_rel_to_list c d moved) condition_follow

theorem block_follow (b c : ContentBlock) (moved : b.Reordered c) : Follow c.freeform b.freeform := by
  intro g member
  obtain ⟨value, inside, rfl⟩ := List.mem_map.mp member
  obtain ⟨entry, held, rfl⟩ := List.mem_map.mp inside
  obtain ⟨given, there, _, own⟩ := Table.moved_given _ _ moved.extra entry held
  exact ⟨_, List.mem_map_of_mem (List.mem_map_of_mem there), .extra _ _ own⟩

theorem message_follow (m n : Message) (moved : m.Reordered n) : Follow n.freeform m.freeform :=
  follow_flat_map _ _ _ moved.content block_follow

theorem tool_follow (t u : Tool) (moved : t.Reordered u) : Follow u.freeform t.freeform := by
  cases moved with
  | named name => exact nofun
  | described fields others order =>
      intro g member
      rw [List.mem_singleton.mp member]
      exact ⟨_, List.mem_singleton_self _, .field _ _ ((Json.reordered_obj _ _).mpr ⟨_, rfl, order⟩)⟩

theorem request_follow (r q : Request) (moved : r.Reordered q) : Follow q.freeform r.freeform :=
  follow_append _ _ _ _ (follow_flat_map _ _ _ (option_rel_get_d _ _ moved.input) message_follow)
    (follow_flat_map _ _ _ (option_rel_get_d _ _ moved.tools) tool_follow)

theorem subaction_follow (a b : SubAction) (moved : a.Reordered b) : Follow b.freeform a.freeform := by
  cases moved with
  | request kind r q moved => exact request_follow r q moved
  | transform => exact nofun

theorem action_follow (a b : Action) (moved : a.Reordered b) : Follow b.freeform a.freeform := by
  cases moved with
  | request kind r q moved => exact request_follow r q moved
  | joinAny c d moved => exact predicate_follow c d moved
  | joinCollect limit timeout c d moved => exact predicate_follow c d moved
  | mapFanout f g moved => exact subaction_follow _ _ moved.subnode.action
  | _ => exact nofun

def Request.Apart (r : Request) : Prop := ∀ limits ∈ r.toolLimits, Table.Apart limits

def Transform.Apart (t : Transform) : Prop := ∀ object ∈ t.object, Table.Apart object

def SubAction.Apart : SubAction → Prop
  | .request _ r => r.Apart
  | .transform t => t.Apart

def Action.Apart : Action → Prop
  | .request _ r => r.Apart
  | .joinAll => True
  | .joinAny predicate | .joinCollect _ _ predicate => ∀ c ∈ predicate, c.value.Apart
  | .transform t => t.Apart
  | .mapFanout f => f.subnode.action.Apart

structure Spec.Apart (s : Spec) : Prop where
  nodes : ∀ node ∈ s.nodes, node.action.Apart
  edges : ∀ e ∈ s.edges, ∀ c ∈ e.condition, c.value.Apart

theorem predicate_apart (c d : Option Condition) (moved : Option.Rel Condition.Reordered c d)
    (apart : ∀ given ∈ c, given.value.Apart) :
    ∀ given ∈ d, given.value.Apart := by
  cases moved with
  | some moved =>
      intro given held
      obtain rfl := Option.some.inj held
      exact Json.apart_reordered _ _ moved.value (apart _ rfl)
  | none => exact nofun

theorem table_apart {α : Type} (a b : Option (Table α)) (moved : Option.Rel List.Perm a b)
    (apart : ∀ table ∈ a, Table.Apart table) :
    ∀ table ∈ b, Table.Apart table := by
  cases moved with
  | some order =>
      intro table held
      obtain rfl := Option.some.inj held
      exact ((order.map Prod.fst).map _).nodup_iff.mp (apart _ rfl)
  | none => exact nofun

theorem subaction_apart (a b : SubAction) (moved : a.Reordered b) (apart : a.Apart) : b.Apart := by
  cases moved with
  | request kind r q moved => exact table_apart _ _ moved.limits apart
  | transform t u moved => exact table_apart _ _ moved.object apart

theorem action_apart (a b : Action) (moved : a.Reordered b) (apart : a.Apart) : b.Apart := by
  cases moved with
  | request kind r q moved => exact table_apart _ _ moved.limits apart
  | joinAll => trivial
  | joinAny c d moved => exact predicate_apart c d moved apart
  | joinCollect limit timeout c d moved => exact predicate_apart c d moved apart
  | transform t u moved => exact table_apart _ _ moved.object apart
  | mapFanout f g moved => exact subaction_apart _ _ moved.subnode.action apart

theorem Spec.apart_reordered (s t : Spec) (moved : s.Reordered t) (apart : s.Apart) : t.Apart := by
  refine ⟨fun node member => ?_, fun e member => ?_⟩
  · obtain ⟨n, inside, own⟩ := exists_matching _ _ _ moved.nodes node member
    exact action_apart _ _ own.action (apart.nodes n inside)
  · obtain ⟨given, inside, own⟩ := exists_matching _ _ _ moved.edges e member
    exact predicate_apart _ _ own.condition (apart.edges given inside)

theorem twin_refl (a : Json) : a.Twin a := ⟨rfl, rfl⟩

theorem twin_record (entries others : Table Json) (each : Table.Matched Twin entries others) :
    (Nulls.dropped.record entries).Twin (Nulls.dropped.record others) := by
  refine ⟨(Json.Canonical.write_obj_congr _ _ ?_).symm, rfl⟩
  refine List.Forall₂.imp (fun a b own => ⟨own.1, own.2.text.symm⟩) (List.rel_filter (fun a b own => ?_) each)
  exact iff_of_eq (congrArg (fun null => (!null) = true) own.2.null.symm)

section

variable {α : Type} {related : α → α → Prop} (write : α → Json)

theorem twin_option (given other : Option α) (moved : Option.Rel related given other)
    (each : ∀ a ∈ given, ∀ b, related a b → (write a).Twin (write b)) :
    (ofOption write given).Twin (ofOption write other) := by
  cases moved with
  | some own => exact each _ rfl _ own
  | none => exact twin_refl _

theorem twin_list (items others : List α) (moved : List.Forall₂ related items others)
    (each : ∀ a ∈ items, ∀ b, related a b → (write a).Twin (write b)) :
    (ofList write items).Twin (ofList write others) := by
  refine ⟨(Json.Canonical.write_arr_congr _ _ ?_).symm, rfl⟩
  rw [List.forall₂_map_left_iff, List.forall₂_map_right_iff]
  have inside := (List.forall₂_and_left _ _).mpr ⟨each, moved⟩
  exact inside.imp fun a b ⟨step, own⟩ => (step b own).text.symm

theorem twin_table (table other : Table α) (order : table.Perm other) (apart : Table.Apart table) :
    (ofTable write table).Twin (ofTable write other) := by
  have keyed (given : Table α) (distinct : Table.Apart given) :
      Table.encodable (given.map fun entry => (entry.1, write entry.2)) =
        given.map fun entry => (Text.replaceSurrogates entry.1, write entry.2) := by
    rw [Table.encodable_map, Table.encodable_apart given distinct, List.map_map]
    rfl
  have also : Table.Apart other := ((order.map Prod.fst).map _).nodup_iff.mp apart
  have named := Table.keys_renamed Text.replaceSurrogates write table
  refine ⟨?_, rfl⟩
  rw [ofTable, ofTable, keyed table apart, keyed other also]
  refine Json.write_obj_moved _ _ ⟨_, ?_, order.map _⟩ (named ▸ apart) fun key member => ?_
  · exact List.forall₂_same.mpr fun _ _ => ⟨rfl, rfl⟩
  · obtain ⟨given, _, rfl⟩ := List.mem_map.mp (named ▸ member)
    exact Text.replace_surrogates_clean given

end

section

variable {numbers : Binary64 → Prop}

theorem condition_twin (c d : Condition) (moved : c.Reordered d) (valid : c.Valid numbers) (apart : c.value.Apart)
    (clear : ∀ f ∈ c.freeform, f.obstacle? = none) : (c.toJson .dropped).Twin (d.toJson .dropped) := by
  have value := Freeform.field_twin c.value d.value moved.value numbers valid.value apart
    (clear _ (List.mem_singleton_self _))
  refine twin_record _ _ ?_
  rw [moved.rest]
  simp [value, twin_refl]

theorem predicate_twin (c d : Option Condition) (moved : Option.Rel Condition.Reordered c d)
    (valid : ∀ given ∈ c, given.Valid numbers) (apart : ∀ given ∈ c, given.value.Apart)
    (clear : ∀ f ∈ c.toList.flatMap Condition.freeform, f.obstacle? = none) :
    (ofOption (Condition.toJson .dropped) c).Twin (ofOption (Condition.toJson .dropped) d) := by
  refine twin_option _ c d moved fun given held other own => condition_twin given other own (valid given held)
    (apart given held) ?_
  rw [Option.mem_def.mp held, Option.toList_some, List.flatMap_singleton] at clear
  exact clear

theorem block_twin (b c : ContentBlock) (moved : b.Reordered c) (valid : b.Valid numbers)
    (clear : ∀ f ∈ b.freeform, f.obstacle? = none) : (b.toJson .dropped).Twin (c.toJson .dropped) := by
  let written (extra : Table Json) : Table Json :=
    (Nulls.dropped.entries extra).map fun entry => (entry.1, (Freeform.extra entry.2).toJson)
  have kept : Table.Moved Json.Reordered (Nulls.dropped.entries b.extra) (Nulls.dropped.entries c.extra) :=
    Table.moved_filter _ _ _ _ moved.extra fun x y own => by rw [Json.reordered_is_null _ _ own.2]
  have extra : Table.Moved (fun x y => Json.Canonical.write y = Json.Canonical.write x) (written b.extra)
    (written c.extra) := by
    refine Table.moved_map _ _ id _ _ kept fun x member y own => ?_
    obtain ⟨entry, inside, rfl⟩ := List.mem_map.mp member
    have held := (List.mem_filter.mp inside).1
    exact (Freeform.extra_twin entry.2 y own numbers (valid.values entry held)
      (clear _ (List.mem_map_of_mem (List.mem_map_of_mem held)))).text
  have front : c.kind = b.kind ∧ c.text = b.text := by rw [moved.rest]; exact ⟨rfl, rfl⟩
  obtain ⟨distinct, clean⟩ := block_apart b valid
  have part : (Table.keys
      (Nulls.dropped.entries [("type", .str b.kind), ("text", ofText? b.text)] ++ written b.extra)).Sublist
      (Table.keys b.entries) := by
    rw [Table.keys_append, Table.keys_map fun value => (Freeform.extra value).toJson, ContentBlock.entries,
      Table.keys_append]
    exact (List.filter_sublist.map Prod.fst).append (List.filter_sublist.map Prod.fst)
  refine ⟨?_, rfl⟩
  rw [ContentBlock.toJson, ContentBlock.toJson, front.1, front.2]
  exact Json.write_obj_moved _ _ (Table.moved_append _ _ _ (fun _ _ => rfl) extra) (distinct.sublist part)
    fun key member => clean key (part.subset member)

theorem message_twin (m n : Message) (moved : m.Reordered n) (valid : m.Valid numbers)
    (clear : ∀ f ∈ m.freeform, f.obstacle? = none) : (m.toJson .dropped).Twin (n.toJson .dropped) := by
  have content := twin_list (ContentBlock.toJson .dropped) m.content n.content moved.content fun b member c own =>
    block_twin b c own (valid.content b member) fun f inside => clear f (List.mem_flatMap.mpr ⟨b, member, inside⟩)
  refine twin_record _ _ ?_
  rw [moved.rest]
  simp [content, twin_refl]

theorem tools_moved (r q : Request) (moved : r.Reordered q) (named : ∀ tool ∈ r.tools.getD [], ∃ name, tool = .named name) :
    q.tools = r.tools := by
  have both := moved.tools
  generalize r.tools = given, q.tools = others at both named ⊢
  cases both with
  | none => rfl
  | some each =>
      have inside := (List.forall₂_and_left _ _).mpr ⟨named, each⟩
      refine congrArg some (List.forall₂_eq_eq_eq ▸ inside.flip.imp fun other tool ⟨⟨name, same⟩, own⟩ => ?_)
      subst same
      cases own
      rfl

theorem request_twin (r q : Request) (moved : r.Reordered q) (valid : r.Valid numbers) (apart : r.Apart)
    (named : ∀ tool ∈ r.tools.getD [], ∃ name, tool = .named name) (clear : ∀ f ∈ r.freeform, f.obstacle? = none) :
    Table.Matched Twin (r.entries .dropped) (q.entries .dropped) := by
  have input : (ofOption (ofList (Message.toJson .dropped)) r.input).Twin
    (ofOption (ofList (Message.toJson .dropped)) q.input) := by
    refine twin_option _ _ _ moved.input fun messages held others each => twin_list _ _ _ each fun m member n own => ?_
    refine message_twin m n own (valid.input messages held m member) fun f inside => clear f (List.mem_append_left _ ?_)
    rw [Option.mem_def.mp held]
    exact List.mem_flatMap.mpr ⟨m, member, inside⟩
  have tools := tools_moved r q moved named
  have limits : (ofOption (ofTable .int) r.toolLimits).Twin (ofOption (ofTable .int) q.toolLimits) :=
    twin_option _ _ _ moved.limits fun limits held others order => twin_table .int limits others order (apart limits held)
  rw [moved.rest]
  simp [Request.entries, input, tools, limits, twin_refl]

theorem transform_twin (t u : Transform) (moved : t.Reordered u) (apart : t.Apart) :
    Table.Matched Twin (t.entries .dropped) (u.entries .dropped) := by
  have object : (ofOption (ofTable (ValueRef.toJson .dropped)) t.object).Twin
    (ofOption (ofTable (ValueRef.toJson .dropped)) u.object) :=
    twin_option _ _ _ moved.object fun object held others order => twin_table _ object others order (apart object held)
  rw [moved.rest]
  simp [Transform.entries, object, twin_refl]

theorem twin_entries (entries : Table Json) : Table.Matched Twin entries entries :=
  List.forall₂_same.mpr fun entry _ => ⟨rfl, twin_refl entry.2⟩

theorem subnode_twin (n m : SubNode) (moved : n.Reordered m) (valid : n.Valid numbers) (apart : n.action.Apart)
    (named : ∀ r ∈ n.action.requests, ∀ tool ∈ r.tools.getD [], ∃ name, tool = .named name)
    (clear : ∀ f ∈ n.action.freeform, f.obstacle? = none) : (n.toJson .dropped).Twin (m.toJson .dropped) := by
  obtain ⟨id, dependsOn, action⟩ := n
  obtain ⟨other, waits, does⟩ := m
  obtain ⟨same, rest⟩ := moved
  obtain ⟨rfl, rfl⟩ : other = id ∧ waits = dependsOn := by simpa using rest
  cases same with
  | request kind r q moved =>
      have entries := request_twin r q moved valid.action apart (named r (List.mem_singleton_self _)) clear
      exact twin_record _ _ (List.rel_append (twin_entries _) entries)
  | transform t u moved => exact twin_record _ _ (List.rel_append (twin_entries _) (transform_twin t u moved apart))

theorem action_twin (a b : Action) (moved : a.Reordered b) (valid : a.Valid numbers) (apart : a.Apart)
    (named : ∀ r ∈ a.requests, ∀ tool ∈ r.tools.getD [], ∃ name, tool = .named name)
    (clear : ∀ f ∈ a.freeform, f.obstacle? = none) : Table.Matched Twin (a.entries .dropped) (b.entries .dropped) := by
  cases moved with
  | request kind r q moved => exact request_twin r q moved valid apart (named r (List.mem_singleton_self _)) clear
  | joinAll => exact .nil
  | joinAny c d moved => simp [Action.entries, predicate_twin c d moved valid apart clear]
  | joinCollect limit timeout c d moved =>
      simp [Action.entries, predicate_twin c d moved valid.2.2 apart clear, twin_refl]
  | transform t u moved => exact transform_twin t u moved apart
  | mapFanout f g moved =>
      have subnode := subnode_twin f.subnode g.subnode moved.subnode valid.subnode apart named clear
      rw [moved.rest]
      simp [Action.entries, FanOut.entries, subnode, twin_refl]

theorem node_twin (n m : Node) (moved : n.Reordered m) (valid : n.Valid numbers) (apart : n.action.Apart)
    (named : ∀ r ∈ n.action.requests, ∀ tool ∈ r.tools.getD [], ∃ name, tool = .named name)
    (clear : ∀ f ∈ n.freeform, f.obstacle? = none) : (n.toJson .dropped).Twin (m.toJson .dropped) := by
  have entries := action_twin n.action m.action moved.action valid.action apart named clear
  have tag : m.action.tag = n.action.tag := by
    have same := moved.action
    generalize n.action = a, m.action = b at same ⊢
    cases same <;> rfl
  refine twin_record _ _ ?_
  rw [tag, show m.id = n.id by rw [moved.rest], show m.dependsOn = n.dependsOn by rw [moved.rest]]
  exact List.rel_append (twin_entries _) entries

end

end PlanFlow
