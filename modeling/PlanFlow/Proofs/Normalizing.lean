import PlanFlow.Proofs.Checks
import PlanFlow.Proofs.Containment
import PlanFlow.Proofs.Digest
import PlanFlow.Proofs.Resending

/-!
Normalizing again what was normalized. A specification that was normalized or compiled passes unchanged, and what its
executed form is read back as is normalized to a specification with the same executed form.
-/

set_option autoImplicit false

namespace PlanFlow

open Json (Passage)

def Message.blocks (m : Message) : Nat := m.content.length

namespace Target

section

variable (messages others : List Message) (same : others.map Message.blocks = messages.map Message.blocks)

include same

theorem check_blocks (target : Text) : check others target = check messages target := by
  have count : others.length = messages.length := by simpa using congrArg List.length same
  have empty : others.isEmpty = messages.isEmpty := by simpa using congrArg List.isEmpty same
  have found (index : Nat) : others[index]?.map Message.blocks = messages[index]?.map Message.blocks := by
    rw [← List.getElem?_map, ← List.getElem?_map, same]
  cases pointed : indices? target with
  | none => simp only [check, pointed]
  | some pointer =>
      obtain ⟨messageDigits, contentDigits⟩ := pointer
      cases spelled : number messageDigits with
      | error failure => simp only [check, pointed, spelled]
      | ok index =>
          have one := found index
          cases there : messages[index]? with
          | none =>
              rw [there, Option.map_none, Option.map_eq_none_iff] at one
              simp only [check, pointed, spelled, there, one, empty, count]
          | some message =>
              rw [there] at one
              obtain ⟨other, here, blocks⟩ := Option.map_eq_some_iff.mp one
              have checked : checkContent other.content index = checkContent message.content index := by
                funext place
                rw [checkContent, checkContent, show other.content.length = message.content.length from blocks]
              simp only [check, pointed, spelled, there, here, checked]

theorem check_bindings_blocks (node : Text) (index : Nat) (bindings : List Binding) :
    checkBindingsFrom node others index bindings = checkBindingsFrom node messages index bindings := by
  induction bindings generalizing index with
  | nil => rfl
  | cons head tail ih =>
      have first : checkBinding node others index head = checkBinding node messages index head := by
        unfold checkBinding
        cases head.target.bind Text.orAbsent with
        | none => rfl
        | some target => simp only [check_blocks messages others same]
      simp only [checkBindingsFrom, first, ih]

end

end Target

namespace FanOut

theorem check_object_eq_ok (entries : List (Text × ValueRef)) :
    checkObject entries = .ok () ↔ ∀ entry ∈ entries, entry.1.trim = [] ∨ entry.2.source = itemPlaceholder := by
  induction entries with
  | nil => simp [checkObject]
  | cons head tail ih =>
      by_cases passed : head.1.trim = [] ∨ head.2.source = itemPlaceholder
      · simp [checkObject, ih, passed]
      · simp [checkObject, passed]

end FanOut

structure Transform.Alike (t u : Transform) : Prop where
  merge : u.merge = t.merge
  empty : (u.object.getD []).isEmpty = (t.object.getD []).isEmpty
  object : ∀ entry ∈ u.object.getD [], ∃ given ∈ t.object.getD [], (given.1.trim = [] → entry.1.trim = []) ∧ given.2 = entry.2

inductive SubAction.Alike : SubAction → SubAction → Prop where
  | request (kind : RequestKind) (r q : Request) (bindings : q.bindings = r.bindings) : Alike (.request kind r) (.request kind q)
  | transform (t u : Transform) (alike : t.Alike u) : Alike (.transform t) (.transform u)

section

variable (t u : Transform) (alike : t.Alike u)

include alike

theorem sources_alike : ∀ ref ∈ u.sources, ref ∈ t.sources := by
  intro ref member
  rcases List.mem_append.mp member with keyed | merged
  · obtain ⟨entry, inside, rfl⟩ := List.mem_map.mp keyed
    obtain ⟨given, there, _, same⟩ := alike.object entry inside
    exact List.mem_append_left _ (List.mem_map.mpr ⟨given, there, same⟩)
  · exact List.mem_append_right _ (alike.merge ▸ merged)

theorem transform_checked_alike (passed : FanOut.checkTransform t = .ok ()) : FanOut.checkTransform u = .ok () := by
  simp only [FanOut.checkTransform, alike.merge, alike.empty] at passed ⊢
  split_ifs at passed ⊢ with both bare
  · exact passed
  · refine (FanOut.check_object_eq_ok _).mpr fun entry member => ?_
    obtain ⟨given, there, blank, same⟩ := alike.object entry member
    exact ((FanOut.check_object_eq_ok _).mp passed given there).imp blank fun item => same ▸ item

end

namespace Node

variable (id : Text) (dependsOn : Option (List Text))

theorem alike_request (kind : RequestKind) (r q : Request) (bindings : q.bindings = r.bindings)
    (blocks : q.messages.map Message.blocks = r.messages.map Message.blocks) :
    Alike ⟨id, dependsOn, .request kind r⟩ ⟨id, dependsOn, .request kind q⟩ := by
  refine ⟨rfl, rfl, fun ids passed => ?_⟩
  simp only [Draft.checkNode, Draft.checkRequest, Target.checkBindings, bindings] at passed ⊢
  rwa [Target.check_bindings_blocks _ _ blocks]

theorem alike_transform (t u : Transform) (alike : t.Alike u) :
    Alike ⟨id, dependsOn, .transform t⟩ ⟨id, dependsOn, .transform u⟩ := by
  refine ⟨rfl, rfl, fun ids passed => ?_⟩
  simp only [Draft.checkNode, for_m_eq_ok] at passed ⊢
  exact fun ref member => passed ref (sources_alike t u alike ref member)

theorem alike_fan_out (f g : FanOut) (items : g.itemsFrom = f.itemsFrom) (bindings : g.itemBindings = f.itemBindings)
    (subnode : f.subnode.action.Alike g.subnode.action) :
    Alike ⟨id, dependsOn, .mapFanout f⟩ ⟨id, dependsOn, .mapFanout g⟩ := by
  refine ⟨rfl, rfl, fun ids passed => ?_⟩
  simp only [Draft.checkNode] at passed ⊢
  rw [Draft.check_fan_out_eq_ok] at passed ⊢
  refine ⟨items ▸ passed.1, ?_⟩
  have shape := passed.2
  generalize own : f.subnode.action = action, other : g.subnode.action = moved at subnode
  cases subnode with
  | request kind r q same => simpa only [FanOut.checkShape, own, other, same] using shape
  | transform t u alike =>
      by_cases bound : (f.itemBindings.getD []).isEmpty = true
      · simp only [FanOut.checkShape, own, other, bindings, bound, if_true] at shape ⊢
        exact transform_checked_alike t u alike shape
      · simp [FanOut.checkShape, own, bound] at shape

end Node

section

variable (w : Passage)

theorem received_is_empty {α : Type} (table : Table α) : (Table.received w table).isEmpty = table.isEmpty := by
  rw [← Table.encodable_is_empty table]
  exact (w.perm (Table.encodable table)).isEmpty_eq

theorem received_blocks (r : Request) : (r.received w).messages.map Message.blocks = r.messages.map Message.blocks := by
  cases given : r.input with
  | none => simp [Request.messages, Request.received, given]
  | some messages =>
      simp only [Request.messages, Request.received, given, Option.map_some, List.map_map]
      exact List.map_congr_left fun message _ => List.length_map _

theorem transform_received_alike (t : Transform) : t.Alike (t.received w) := by
  cases given : t.object with
  | none => exact ⟨rfl, by simp [Transform.received, given], by simp [Transform.received, given]⟩
  | some object =>
      refine ⟨rfl, by simp [Transform.received, given, received_is_empty], ?_⟩
      simp only [Transform.received, given, Option.map_some, Option.getD_some]
      intro entry member
      obtain ⟨sent, there, rfl⟩ := Table.given_of_encodable object entry ((w.mem_arrange _ entry).mp member)
      refine ⟨sent, there, fun blank => ?_, rfl⟩
      rwa [Text.replace_surrogates_of_clean sent.1 (Text.blank_clean sent.1 blank)]

theorem node_received_alike (n : Node) : n.Alike (n.received w) := by
  obtain ⟨id, dependsOn, action⟩ := n
  cases action with
  | request kind r => exact Node.alike_request id dependsOn kind r _ rfl (received_blocks w r)
  | transform t => exact Node.alike_transform id dependsOn t _ (transform_received_alike w t)
  | mapFanout f =>
      refine Node.alike_fan_out id dependsOn f _ rfl rfl ?_
      obtain ⟨source, input, pointer, ⟨inner, waits, does⟩, bindings, bound⟩ := f
      cases does with
      | request kind r => exact .request kind r _ rfl
      | transform t => exact .transform t _ (transform_received_alike w t)
  | _ => exact ⟨rfl, rfl, fun _ passed => passed⟩

end

namespace ToolRegistry

variable (registry : ToolRegistry) (w : Passage)

theorem settled_tools_received (node : Text) (parent : Option Text) (r : Request)
    (settled : registry.settleRequest node parent r = .ok r) : (r.received w).tools = r.tools := by
  have named := registry.settle_request_named node parent r r settled
  cases given : r.tools with
  | none => simp [Request.received, given]
  | some tools =>
      have kept : ∀ tool ∈ tools, tool.received w = id tool := by
        intro tool member
        obtain ⟨name, rfl⟩ := named tool (by rwa [given])
        rfl
      simp only [Request.received, given, Option.map_some]
      rw [List.map_congr_left kept, List.map_id]

theorem request_received_settled (node : Text) (parent : Option Text) (r : Request)
    (settled : registry.settleRequest node parent r = .ok r) :
    registry.settleRequest node parent (r.received w) = .ok (r.received w) :=
  registry.settle_request_alike node parent r r (r.received w) rfl (registry.settled_tools_received w node parent r settled) settled

theorem node_received_settled (n : Node) (settled : registry.settleNode n = .ok n) :
    registry.settleNode (n.received w) = .ok (n.received w) := by
  obtain ⟨id, dependsOn, action⟩ := n
  cases action with
  | request kind request =>
      obtain ⟨own, given, same⟩ := (map_eq_ok _ _ _).mp settled
      obtain rfl : own = request := by simpa using same
      exact (map_eq_ok _ _ _).mpr ⟨_, registry.request_received_settled w id none own given, rfl⟩
  | mapFanout f =>
      obtain ⟨source, input, pointer, ⟨inner, waits, does⟩, bindings, bound⟩ := f
      cases does with
      | request kind request =>
          obtain ⟨changed, given, same⟩ := (map_eq_ok _ _ _).mp settled
          obtain ⟨own, settled_own, rfl⟩ := (map_eq_ok _ _ _).mp given
          obtain rfl : own = request := by simpa using same
          refine (map_eq_ok _ _ _).mpr ⟨_, (map_eq_ok _ _ _).mpr ⟨_, ?_, rfl⟩, rfl⟩
          exact registry.request_received_settled w inner (some id) own settled_own
      | transform t => rfl
  | _ => rfl

end ToolRegistry

theorem edge_received_same (e : Edge) (valid : e.Valid Passage.direct.carries) (keyed : ∃ key, e.sortKey = .ok key) :
    e.Same (e.received .direct) := by
  obtain ⟨key, own⟩ := keyed
  obtain ⟨text, named, rfl⟩ := (e.sort_key_eq_ok key).mp own
  refine ⟨_, own, ((e.received .direct).sort_key_eq_ok _).mpr ⟨text, ?_, rfl⟩⟩
  cases given : e.condition with
  | none =>
      rw [Edge.conditionText, given] at named
      rw [Edge.conditionText, Edge.received, given]
      exact named
  | some c =>
      obtain ⟨clear, written⟩ := (e.condition_text_eq_ok c given text).mp named
      have form : (c.received .direct).toJson .dropped = c.toJson .dropped := by
        have alike := condition_alike .direct c (valid.condition c given)
        rwa [Json.Alike, Json.recast_direct, Json.recast_direct] at alike
      have received : Freeform.firstObstacle? (c.received .direct).freeform = none := by
        have sent := (Freeform.first_obstacle_eq_none _).mp clear _ (List.mem_singleton_self _)
        refine (Freeform.first_obstacle_eq_none _).mpr fun value member => ?_
        rw [List.mem_singleton.mp member]
        exact Freeform.received_clear .direct _ sent
      have arrived : (e.received .direct).condition = some (c.received .direct) := by rw [Edge.received, given, Option.map_some]
      exact ((e.received .direct).condition_text_eq_ok _ arrived text).mpr ⟨received, form ▸ written⟩

def Freeform.Plain : Freeform → Prop
  | .field value => value.Orderly ∧ value.depth ≤ depthLimit + 1
  | .extra value => value.Orderly ∧ value.depth ≤ depthLimit

theorem Freeform.plain_clear (value : Freeform) (plain : value.Plain) : value.obstacle? = none := by
  cases value with
  | field value => exact (obstacle_field_eq_none value).mpr ⟨parts_orderly value plain.1, plain.2⟩
  | extra value => exact (obstacle_in_eq_none depthLimit value).mpr plain

namespace Spec

theorem plain_payload (s : Spec) (plain : ∀ value ∈ s.freeform, value.Plain) : s.payload = .ok s.toPayload := by
  refine (Outcome.written_eq_ok _ _ _).mpr ⟨(Freeform.first_obstacle_eq_none _).mpr fun value member => ?_, rfl⟩
  exact value.plain_clear (plain value member)

theorem received_normal (s : Spec) (registry : ToolRegistry) (valid : s.Valid Passage.direct.carries)
    (normal : s.Normal registry) : (s.received .direct).Normal registry := by
  have inOrder := Edge.ordered_in_order _ _ normal.settled.fits.inOrder
  have nodes : List.Forall₂ Node.Alike s.nodes (s.nodes.map (Node.received .direct)) := by
    rw [List.forall₂_map_right_iff, List.forall₂_same]
    exact fun node _ => node_received_alike .direct node
  have edges : List.Forall₂ Edge.Same s.edges (s.edges.map (Edge.received .direct)) := by
    rw [List.forall₂_map_right_iff, List.forall₂_same]
    exact fun e member => edge_received_same e (valid.edges e member) (inOrder.keyed e member)
  refine ⟨s.settled_alike _ _ nodes edges normal.settled, fun node member => ?_⟩
  obtain ⟨given, inside, rfl⟩ := List.mem_map.mp member
  exact registry.node_received_settled .direct given (normal.tools given inside)

theorem payload_read (s : Spec) (valid : s.Valid Passage.direct.carries) :
    Spec.read (.value s.toPayload) = .ok (s.received .direct) := by
  have reads := (s.payload_reads .direct valid).valid
  rw [Json.recast_direct] at reads
  rw [s.payload_written] at reads ⊢
  simp only [Nulls.record] at reads ⊢
  simp only [Spec.read, Payload.read, Payload.checkObject, reads]

theorem payload_normal (s : Spec) (context : Context) (valid : s.Valid Passage.direct.carries) (normal : s.Normal context.tools)
    (form : Json) (presented : s.payload = .ok form) :
    ∃ other, normalize (.value form) context = .ok other ∧ other.payload = .ok form := by
  obtain ⟨again, alike⟩ := received_payload .direct s valid form presented
  rw [Json.Alike, Json.recast_direct, Json.recast_direct] at alike
  obtain ⟨_, rfl⟩ := (Outcome.written_eq_ok _ _ _).mp presented
  refine ⟨s.received .direct, ?_, alike ▸ again⟩
  have passed := (s.received .direct).normal_again context (s.received_normal context.tools valid normal)
  rw [normalize, s.payload_read valid]
  exact passed

end Spec

section

variable (plan : Plan) (context : Context) (settings : Settings) (job : Job)

theorem spoken_valid (numbers : Binary64 → Prop) (r : Request) (names : List Text) (spoken : r.Spoken names) :
    r.Valid numbers := by
  have input : r.input = none := by rw [spoken.rest]; rfl
  have bindings : r.bindings = none := by rw [spoken.rest]; rfl
  constructor
  · rw [input]
    nofun
  · intro tools given tool member
    have named := spoken.named
    rw [given, Option.getD_some] at named
    rw [named] at member
    obtain ⟨name, _, rfl⟩ := List.mem_map.mp member
    trivial
  · rw [bindings]
    nofun

theorem Selection.request_spoken (selection : Selection) (configured : List Text) (prompt : Text) :
    ∃ names, (selection.request context configured prompt).Spoken names := by
  unfold Selection.request
  cases context.agents.find? selection.id.trim with
  | none => exact ⟨[], rfl, rfl⟩
  | some agent => exact ⟨_, agent_request_spoken agent prompt _⟩

theorem Placed.settled_valid (numbers : Binary64 → Prop) (p : Placed) (named : p.id.Names)
    (acts : p.node.action.Valid numbers) (free : p.node.action.freeform = []) :
    p.settled.Valid numbers ∧ p.settled.freeform = [] :=
  ⟨⟨named, acts⟩, free⟩

theorem NodeId.agent_names (name : Text) : (NodeId.agent name).Names := by
  refine ⟨?_, NodeId.agent_no_surrogate name⟩
  exact List.append_ne_nil_of_left_ne_nil (by decide) _

theorem NodeId.join_names (key : Text) : (NodeId.join key).Names := by
  refine ⟨?_, NodeId.join_no_surrogate key⟩
  rw [NodeId.join_eq_stem]
  exact List.append_ne_nil_of_left_ne_nil (by decide) _

theorem Plan.layout_valid (numbers : Binary64 → Prop) (nameable : settings.Nameable) :
    ∀ p ∈ plan.layout context settings job, p.settled.Valid numbers ∧ p.settled.freeform = [] := by
  intro p member
  cases (plan.mem_layout_iff context settings job p).mp member with
  | agent i step selection found selected =>
      obtain ⟨names, spoken⟩ := selection.request_spoken context settings.defaultTools _
      exact Placed.settled_valid numbers _ (NodeId.agent_names _) (spoken_valid numbers _ names spoken)
        (spoken_freeform _ names spoken)
  | join i step found joined =>
      refine Placed.settled_valid numbers _ ?_ trivial rfl
      dsimp only [Placed.id, PlanStep.joinId]
      exact NodeId.join_names (step.key i)
  | last =>
      have spoken := synthesis_request_spoken job plan.terminals
      exact Placed.settled_valid numbers _ nameable.node (spoken_valid numbers _ [] spoken) (spoken_freeform _ [] spoken)

theorem Plan.compiled_valid (numbers : Binary64 → Prop) (fits : plan.Compilable context settings job) :
    (plan.compiled context settings job).Valid numbers ∧ (plan.compiled context settings job).freeform = [] := by
  have nodes := plan.layout_valid context settings job numbers fits.sketchable.nameable
  refine ⟨⟨fun n given => ⟨fits.valid.parallel n given, fits.bounded n given⟩, fun node member => ?_, nofun, fun output member => ?_⟩, ?_⟩
  · obtain ⟨p, inside, rfl⟩ := List.mem_map.mp member
    exact (nodes p inside).1
  · rw [List.mem_singleton.mp member]
    exact ⟨fits.sketchable.nameable.output, fits.sketchable.nameable.node⟩
  · refine List.append_eq_nil_iff.mpr ⟨List.flatMap_eq_nil_iff.mpr fun node member => ?_, rfl⟩
    obtain ⟨p, inside, rfl⟩ := List.mem_map.mp member
    exact (nodes p inside).2

end

namespace Sample

def chosen (value : Json) : Spec :=
  ⟨none, none, none, [⟨"pick", none, .joinAny (some ⟨.nodeOutput, .equals, "$.answer", value⟩)⟩], [], [⟨"result", "pick", none⟩]⟩

def chosenInput (value : Json) : Json := .obj [
  ("nodes", .arr [.obj [("id", .str "pick"), ("type", .str "join.any"),
    ("predicate", .obj [("source", .str "node_output"), ("op", .str "equals"), ("path", .str "$.answer"), ("value", value)])]]),
  ("outputs", .arr [.obj [("name", .str "result"), ("from", .str "pick")]])]

theorem chosen_normalized (value : Json) : normalize (.value (chosenInput value)) context = .ok (chosen value) := rfl

theorem chosen_valid (numbers : Binary64 → Prop) (value : Json) (regular : value.Regular numbers) :
    (chosen value).Valid numbers := by
  have name : Text.Names "pick" := ⟨by decide, by decide⟩
  have path : Text.startsWith "$.answer" "$" = true ∧ Text.hasSurrogate "$.answer" = false := ⟨by decide, by decide⟩
  refine ⟨nofun, fun node member => ?_, nofun, fun output member => ?_⟩
  · rw [List.mem_singleton.mp member]
    exact ⟨name, fun c given => Option.some.inj given ▸ ⟨path.1, path.2, regular⟩⟩
  · rw [List.mem_singleton.mp member]
    exact ⟨⟨by decide, by decide⟩, by decide, by decide⟩

theorem nested_regular (numbers : Binary64 → Prop) (n : Nat) : (nested n).Regular numbers := by
  induction n with
  | zero => trivial
  | succ n ih => exact ⟨ih, trivial⟩

end Sample

theorem normalize_again (context : Context) :
    (∀ (d : Draft) (s : Spec), d.build = .ok s → (Draft.ofSpec s).build = .ok s) ∧
    (∀ (payload : Payload Spec) (s : Spec), normalize payload context = .ok s →
      normalize (.parsed s) context = .ok s ∧
      (s.Valid (fun x => x.isFinite = true) → (∀ value ∈ s.freeform, value.Plain) →
        ∃ form other, s.payload = .ok form ∧ normalize (.value form) context = .ok other ∧ other.payload = .ok form)) ∧
    (∀ (payload : Payload Plan) (settings : Settings) (job : Job) (s : Spec),
      compile payload context settings job = .ok s →
      normalize (.parsed s) context = .ok s ∧
      ∃ form other, s.payload = .ok form ∧ normalize (.value form) context = .ok other ∧ other.payload = .ok form) := by
  have resent (s : Spec) (normal : s.Normal context.tools) (valid : s.Valid Passage.direct.carries)
      (plain : ∀ value ∈ s.freeform, value.Plain) :
      ∃ form other, s.payload = .ok form ∧ normalize (.value form) context = .ok other ∧ other.payload = .ok form := by
    have presented := s.plain_payload plain
    obtain ⟨other, passed, same⟩ := s.payload_normal context valid normal _ presented
    exact ⟨_, other, presented, passed, same⟩
  refine ⟨fun d s built => Draft.settled_rebuilt s (Draft.built_settled d s built), fun payload s done => ?_,
    fun payload settings job s done => ?_⟩
  · have normal := normalize_normal payload context s done
    exact ⟨s.normal_again context normal, resent s normal⟩
  · have normal := compile_normal payload context settings job s done
    obtain ⟨plan, _, fits, rfl, _⟩ := (Plan.compile_eq_ok payload context settings job s).mp done
    obtain ⟨valid, free⟩ := plan.compiled_valid context settings job (fun x => x.isFinite = true) fits
    exact ⟨Spec.normal_again _ context normal, resent _ normal valid (free ▸ List.forall_mem_nil _)⟩

theorem sample_normalized_again :
    (∃ s, ((Sample.pair []).withEdges [Sample.counted, Sample.always]).build = .ok s ∧ (Draft.ofSpec s).build = .ok s) ∧
    (∃ form other, (Sample.chosen (.str "yes")).payload = .ok form ∧
      normalize (.value form) Sample.context = .ok other ∧ other.payload = .ok form) ∧
    ∃ s, compile (.parsed Sample.plan) Sample.context .standard Sample.job = .ok s ∧
      normalize (.parsed s) Sample.context = .ok s := by
  obtain ⟨built, made⟩ := Sample.counted_built
  obtain ⟨compiled, done⟩ := Sample.compiles
  have plain : ∀ value ∈ (Sample.chosen (.str "yes")).freeform, value.Plain := by
    intro value member
    rw [List.mem_singleton.mp member]
    exact ⟨trivial, Nat.zero_le _⟩
  refine ⟨⟨built, made, (normalize_again Sample.context).1 _ built made⟩, ?_, ⟨compiled, done, ?_⟩⟩
  · exact ((normalize_again Sample.context).2.1 _ _ (Sample.chosen_normalized (.str "yes"))).2 (Sample.chosen_valid _ _ trivial) plain
  · exact ((normalize_again Sample.context).2.2 _ _ _ compiled done).1

theorem sample_deep_unsent : ∃ value : Json, value.Orderly ∧
    normalize (.value (Sample.chosenInput value)) Sample.context = .ok (Sample.chosen value) ∧
    (Sample.chosen value).Valid (fun x => x.isFinite = true) ∧ (Sample.chosen value).freeform = [.field value] ∧
    ∀ form, (Sample.chosen value).payload ≠ .ok form := by
  refine ⟨Sample.nested (Freeform.depthLimit + 2), Sample.nested_orderly _, Sample.chosen_normalized _,
    Sample.chosen_valid _ _ (Sample.nested_regular _ _), rfl, fun form presented => ?_⟩
  obtain ⟨clear, _⟩ := (Outcome.written_eq_ok _ _ _).mp presented
  have own := (Freeform.first_obstacle_eq_none _).mp clear _ List.mem_cons_self
  rw [Sample.deep_obstacle] at own
  cases own

end PlanFlow
