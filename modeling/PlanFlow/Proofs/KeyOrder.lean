import PlanFlow.Proofs.Normalizing
import PlanFlow.Proofs.KeyWriting

/-!
The order of keys. Intents that are equal up to the order of the keys in their objects are accepted alike, and what is
answered for them has one canonical text, as long as no table has two keys that become one in UTF-8 form: of the values
that are given under such keys the last one stays.
-/

set_option autoImplicit false

namespace PlanFlow

open Json (ofList Twin)

theorem request_reordered_blocks (r q : Request) (moved : r.Reordered q) :
    q.messages.map Message.blocks = r.messages.map Message.blocks := by
  have same : q.system = r.system ∧ q.user = r.user := by rw [moved.rest]; exact ⟨rfl, rfl⟩
  have input := moved.input
  rw [Request.messages, Request.messages, same.1, same.2]
  generalize r.input = given, q.input = other at input ⊢
  cases input with
  | none => rfl
  | some each =>
      rw [← List.forall₂_eq_eq_eq, List.forall₂_map_left_iff, List.forall₂_map_right_iff]
      exact each.flip.imp fun n m own => own.content.length_eq.symm

theorem transform_reordered_alike (t u : Transform) (moved : t.Reordered u) : t.Alike u := by
  have merge : u.merge = t.merge := by rw [moved.rest]
  have object := moved.object
  obtain ⟨given, _⟩ := t
  obtain ⟨other, _⟩ := u
  cases object with
  | none => exact ⟨merge, rfl, nofun⟩
  | some order =>
      exact ⟨merge, order.symm.isEmpty_eq, fun entry member => ⟨entry, order.mem_iff.mpr member, id, rfl⟩⟩

theorem node_reordered_alike (n m : Node) (moved : n.Reordered m) : n.Alike m := by
  obtain ⟨id, dependsOn, action⟩ := n
  obtain ⟨other, waits, does⟩ := m
  obtain ⟨same, rest⟩ := moved
  obtain ⟨rfl, rfl⟩ : other = id ∧ waits = dependsOn := by simpa using rest
  cases same with
  | request kind r q moved =>
      exact Node.alike_request other waits kind r q (by rw [moved.rest]) (request_reordered_blocks r q moved)
  | transform t u moved => exact Node.alike_transform other waits t u (transform_reordered_alike t u moved)
  | mapFanout f g moved =>
      have does := moved.subnode.action
      refine Node.alike_fan_out other waits f g (by rw [moved.rest]) (by rw [moved.rest]) ?_
      generalize f.subnode.action = a, g.subnode.action = b at does ⊢
      cases does with
      | request kind r q moved => exact .request kind r q (by rw [moved.rest])
      | transform t u moved => exact .transform t u (transform_reordered_alike t u moved)
  | _ => exact ⟨rfl, rfl, fun _ passed => passed⟩

theorem edge_reordered_same (e f : Edge) (moved : e.Reordered f) (valid : e.Valid fun _ => True)
    (apart : ∀ c ∈ e.condition, c.value.Apart) (text : Text) (named : e.conditionText = .ok text) : e.Same f := by
  have condition := moved.condition
  have ends : f.source = e.source ∧ f.target = e.target := by rw [moved.rest]; exact ⟨rfl, rfl⟩
  refine ⟨_, (e.sort_key_eq_ok _).mpr ⟨text, named, rfl⟩, (f.sort_key_eq_ok _).mpr ⟨text, ?_, by rw [ends.1, ends.2]⟩⟩
  cases given : e.condition with
  | none =>
      rw [given] at condition
      generalize other : f.condition = there at condition
      cases condition
      rw [Edge.conditionText, given] at named
      rwa [Edge.conditionText, other]
  | some c =>
      rw [given] at condition
      generalize other : f.condition = there at condition
      cases condition with
      | @some _ d own =>
          obtain ⟨clear, written⟩ := (e.condition_text_eq_ok c given text).mp named
          have free := (Freeform.first_obstacle_eq_none _).mp clear
          have twin := condition_twin c d own (valid.condition c given) (apart c given) free
          refine (f.condition_text_eq_ok d other text).mpr
            ⟨(Freeform.first_obstacle_eq_none _).mpr ?_, twin.text.trans written⟩
          exact Freeform.follow_clear _ _ (condition_follow c d own) free

theorem same_keys (edges others : List Edge) (same : List.Forall₂ Edge.Same edges others) (key : List Text) :
    (∃ e ∈ edges, e.sortKey = .ok key) ↔ ∃ e ∈ others, e.sortKey = .ok key := by
  induction same with
  | nil => simp
  | @cons e f _ _ first _ ih =>
      obtain ⟨own, here, there⟩ := first
      simp only [List.exists_mem_cons_iff, here, there, ih]

structure Spec.Matches (s t : Spec) : Prop where
  nodes : List.Forall₂ Node.Reordered s.nodes t.nodes
  edges : List.Forall₂ Edge.Same s.edges t.edges
  rest : t = s.withParts t.nodes t.edges

namespace Draft

theorem settle_reordered (ordered others : List Edge) (same : List.Forall₂ Edge.Same ordered others) (n m : Node)
    (moved : n.Reordered m) : (settle ordered n).Reordered (settle others m) := by
  have waits := dependencies_of_alike ordered others same n m (node_reordered_alike n m moved)
  have id : m.id = n.id := by rw [moved.rest]
  refine ⟨moved.action, ?_⟩
  simp only [settle, waits, id]

theorem build_reordered (d e : Spec) (moved : d.Reordered e) (valid : d.Valid fun _ => True) (apart : d.Apart) (s : Spec)
    (done : (ofSpec d).build = .ok s) : ∃ t, (ofSpec e).build = .ok t ∧ s.Matches t := by
  obtain ⟨ordered, bound, fits, rfl⟩ := (build_eq_ok _ s).mp done
  have texts := (Edge.ordered_iff d.edges).mp ⟨ordered, fits.inOrder⟩
  have inside := (List.forall₂_and_left _ _).mpr ⟨fun x member => And.intro member (texts x member), moved.edges⟩
  have same : List.Forall₂ Edge.Same d.edges e.edges := inside.imp fun x y ⟨⟨member, text, named⟩, own⟩ =>
    edge_reordered_same x y own (valid.edges x member) (apart.edges x member) text named
  obtain ⟨others, inOrder⟩ := (Edge.ordered_iff e.edges).mpr fun y member => by
    obtain ⟨_, _, key, _, named⟩ := exists_matching _ _ _ same y member
    obtain ⟨text, written, _⟩ := (y.sort_key_eq_ok key).mp named
    exact ⟨text, written⟩
  have matching := Edge.ordered_same d.edges e.edges ordered others (same_keys _ _ same) fits.inOrder inOrder
  have alike : List.Forall₂ Node.Alike d.nodes e.nodes := moved.nodes.imp node_reordered_alike
  have outputs : e.outputs = d.outputs := by rw [moved.rest]
  have parallel : e.maxParallelism = d.maxParallelism := by rw [moved.rest]
  have refits := buildable_alike ordered others matching (ofSpec d) (ofSpec e) bound alike inOrder outputs
    (congrArg Json.ofInt? parallel) fits
  refine ⟨_, (build_eq_ok _ _).mpr ⟨others, bound, refits, rfl⟩, ?_, kept_same _ _ matching, ?_⟩
  · simp only [assembled, List.forall₂_map_left_iff, List.forall₂_map_right_iff]
    exact moved.nodes.imp (settle_reordered ordered others matching)
  · have name : e.name = d.name := by rw [moved.rest]
    have model : e.model = d.model := by rw [moved.rest]
    simp only [assembled, ofSpec, Spec.withParts, outputs, name, model]

end Draft

namespace ToolRegistry

variable (registry : ToolRegistry)

theorem settle_request_reordered (node : Text) (parent : Option Text) (r q settled : Request) (moved : r.Reordered q)
    (done : registry.settleRequest node parent r = .ok settled) :
    ∃ other, registry.settleRequest node parent q = .ok other ∧ settled.Reordered other := by
  have tools := tools_moved r q moved (registry.settle_request_named node parent r settled done)
  have mode : q.toolMode = r.toolMode := by rw [moved.rest]
  obtain ⟨same, _⟩ := registry.settle_request_again node parent r settled done
  refine ⟨_, registry.settle_request_alike node parent r settled q mode tools done, ?_⟩
  rw [same]
  refine ⟨moved.input, moved.tools, moved.limits, ?_⟩
  rw [moved.rest]

theorem settle_node_reordered (n m settled : Node) (moved : n.Reordered m) (done : registry.settleNode n = .ok settled) :
    ∃ other, registry.settleNode m = .ok other ∧ settled.Reordered other := by
  obtain ⟨id, dependsOn, action⟩ := n
  obtain ⟨other, waits, does⟩ := m
  obtain ⟨same, rest⟩ := moved
  obtain ⟨rfl, rfl⟩ : other = id ∧ waits = dependsOn := by simpa using rest
  cases same with
  | request kind r q moved =>
      obtain ⟨own, given, rfl⟩ := (map_eq_ok _ _ _).mp done
      obtain ⟨result, again, order⟩ := registry.settle_request_reordered other none r q own moved given
      exact ⟨_, (map_eq_ok _ _ _).mpr ⟨result, again, rfl⟩, .request kind own result order, rfl⟩
  | mapFanout f g moved =>
      obtain ⟨source, input, pointer, ⟨inner, before, action⟩, bindings, bound⟩ := f
      obtain ⟨_, _, _, ⟨_, _, reaction⟩, _, _⟩ := g
      obtain ⟨⟨subaction, inside⟩, around⟩ := moved
      obtain ⟨rfl, rfl⟩ : _ = inner ∧ _ = before := by simpa using inside
      obtain ⟨rfl, rfl, rfl, rfl, rfl⟩ : _ = source ∧ _ = input ∧ _ = pointer ∧ _ = bindings ∧ _ = bound :=
        by simpa using around
      cases subaction with
      | request kind r q moved =>
          obtain ⟨_, given, rfl⟩ := (map_eq_ok _ _ _).mp done
          obtain ⟨own, settled_own, rfl⟩ := (map_eq_ok _ _ _).mp given
          obtain ⟨result, again, order⟩ := registry.settle_request_reordered _ (some other) r q own moved settled_own
          exact ⟨_, (map_eq_ok _ _ _).mpr ⟨_, (map_eq_ok _ _ _).mpr ⟨result, again, rfl⟩, rfl⟩,
            .mapFanout _ _ ⟨⟨.request kind own result order, rfl⟩, rfl⟩, rfl⟩
      | transform t u moved =>
          obtain rfl := Except.ok.inj done
          exact ⟨_, rfl, .mapFanout _ _ ⟨⟨.transform t u moved, rfl⟩, rfl⟩, rfl⟩
  | joinAll =>
      obtain rfl := Except.ok.inj done
      exact ⟨_, rfl, .joinAll, rfl⟩
  | joinAny c d moved =>
      obtain rfl := Except.ok.inj done
      exact ⟨_, rfl, .joinAny c d moved, rfl⟩
  | joinCollect limit timeout c d moved =>
      obtain rfl := Except.ok.inj done
      exact ⟨_, rfl, .joinCollect limit timeout c d moved, rfl⟩
  | transform t u moved =>
      obtain rfl := Except.ok.inj done
      exact ⟨_, rfl, .transform t u moved, rfl⟩

theorem settle_node_keeps (p : Node → Prop)
    (request : ∀ id waits kind r mode, p ⟨id, waits, .request kind r⟩ →
      p ⟨id, waits, .request kind { r with toolMode := mode }⟩)
    (fanOut : ∀ id waits f kind r mode, f.subnode.action = .request kind r → p ⟨id, waits, .mapFanout f⟩ →
      p ⟨id, waits, .mapFanout { f with subnode := { f.subnode with action := .request kind { r with toolMode := mode } } }⟩)
    (n settled : Node) (done : registry.settleNode n = .ok settled) (own : p n) : p settled := by
  obtain ⟨id, waits, action⟩ := n
  cases action with
  | request kind r =>
      obtain ⟨_, given, rfl⟩ := (map_eq_ok _ _ _).mp done
      obtain ⟨same, _⟩ := registry.settle_request_again id none r _ given
      rw [same]
      exact request id waits kind r _ own
  | mapFanout f =>
      obtain ⟨changed, given, rfl⟩ := (map_eq_ok _ _ _).mp done
      cases subnode : f.subnode.action with
      | request kind r =>
          simp only [settleFanOut, subnode] at given
          obtain ⟨_, inner, rfl⟩ := (map_eq_ok _ _ _).mp given
          obtain ⟨same, _⟩ := registry.settle_request_again f.subnode.id (some id) r _ inner
          rw [same]
          exact fanOut id waits f kind r _ subnode own
      | transform t =>
          simp only [settleFanOut, subnode, Except.ok.injEq] at given
          exact given ▸ own
  | _ =>
      obtain rfl := Except.ok.inj done
      exact own

theorem settle_node_valid (numbers : Binary64 → Prop) (n settled : Node) (done : registry.settleNode n = .ok settled)
    (valid : n.Valid numbers) : settled.Valid numbers := by
  refine registry.settle_node_keeps (Node.Valid numbers) (fun id waits kind r mode valid => ?_)
    (fun id waits f kind r mode does valid => ?_) n settled done valid
  · have action : r.Valid numbers := valid.action
    exact ⟨valid.id, action.input, action.tools, action.bindings⟩
  · have action : f.Valid numbers := valid.action
    have inner : r.Valid numbers := by
      have given := action.subnode.action
      rwa [does] at given
    exact ⟨valid.id, action.source, ⟨action.subnode.id, inner.input, inner.tools, inner.bindings⟩, action.bindings,
      action.parallel⟩

theorem settle_node_apart (n settled : Node) (done : registry.settleNode n = .ok settled) (apart : n.action.Apart) :
    settled.action.Apart := by
  refine registry.settle_node_keeps (fun n => n.action.Apart) (fun id waits kind r mode apart => apart)
    (fun id waits f kind r mode does apart => ?_) n settled done apart
  have given : f.subnode.action.Apart := apart
  rw [does] at given
  exact given

end ToolRegistry

namespace Spec

theorem with_tools_reordered (registry : ToolRegistry) (s t settled : Spec) (matching : s.Matches t)
    (used : s.withTools registry = .ok settled) : ∃ other, t.withTools registry = .ok other ∧ settled.Matches other := by
  obtain ⟨nodes, checked, rfl⟩ := (map_eq_ok _ _ _).mp ((map_error_eq_ok _ _ _).mp used)
  obtain ⟨others, again, moved⟩ := exists_rematching _ _ _ _ s.nodes t.nodes nodes matching.nodes
    ((map_m_eq_ok _ _ _).mp checked)
    fun n _ m own same done => registry.settle_node_reordered n m own same done
  refine ⟨_, (map_error_eq_ok _ _ _).mpr ((map_eq_ok _ _ _).mpr ⟨others, (map_m_eq_ok _ _ _).mpr again, rfl⟩), moved,
    matching.edges, ?_⟩
  rw [matching.rest]
  rfl

theorem canonical_matches (s t : Spec) (matching : s.Matches t) (valid : ∀ n ∈ s.nodes, n.Valid fun _ => True)
    (apart : ∀ n ∈ s.nodes, n.action.Apart) (named : ∀ r ∈ s.requests, ∀ tool ∈ r.tools.getD [], ∃ name, tool = .named name)
    (text : Text) (written : s.canonicalText = .ok text) : t.canonicalText = .ok text := by
  obtain ⟨clear, own⟩ := (s.canonical_text_eq_ok text).mp written
  have free := (Freeform.first_obstacle_eq_none _).mp clear
  have nodes : (ofList (Node.toJson .dropped) s.nodes).Twin (ofList (Node.toJson .dropped) t.nodes) :=
    twin_list _ _ _ matching.nodes fun n member m moved => node_twin n m moved (valid n member) (apart n member)
      (fun r inside => named r (List.mem_flatMap.mpr ⟨n, member, inside⟩))
      fun f inside => free f (List.mem_append_left _ (List.mem_flatMap.mpr ⟨n, member, inside⟩))
  have follow : Freeform.Follow (t.nodes.flatMap Node.freeform) (s.nodes.flatMap Node.freeform) :=
    Freeform.follow_flat_map _ _ _ matching.nodes fun n m moved => action_follow _ _ moved.action
  have kept : ∀ f ∈ (s.withParts t.nodes s.edges).freeform, f.obstacle? = none :=
    List.forall_mem_append.mpr ⟨Freeform.follow_clear _ _ follow fun f inside => free f (List.mem_append_left _ inside),
      fun f inside => free f (List.mem_append_right _ inside)⟩
  have form : Json.Twin s.toPayload (s.withParts t.nodes s.edges).toPayload := by
    rw [payload_written, payload_written]
    refine twin_record _ _ ?_
    simp [payloadEntries, withParts, nodes, twin_refl]
  -- First the nodes are replaced, then the edges.
  have half : (s.withParts t.nodes s.edges).canonicalText = .ok text :=
    (canonical_text_eq_ok _ text).mpr ⟨(Freeform.first_obstacle_eq_none _).mpr kept, form.text.trans own⟩
  rw [matching.rest]
  exact ((s.withParts t.nodes s.edges).canonical_text_same t.edges matching.edges).trans half

end Spec

theorem normalize_reordered (context : Context) (d e : Spec) (moved : d.Reordered e) (valid : d.Valid fun _ => True)
    (apart : d.Apart) (s : Spec) (done : normalize (.parsed d) context = .ok s) :
    ∃ t, normalize (.parsed e) context = .ok t ∧ ∀ text, s.canonicalText = .ok text → t.canonicalText = .ok text := by
  obtain ⟨_, given, rest⟩ := (bind_eq_ok _ _ _).mp done
  obtain rfl := Except.ok.inj given
  obtain ⟨built, made, used⟩ := (bind_eq_ok _ _ _).mp rest
  obtain ⟨other, remade, first⟩ := Draft.build_reordered d e moved valid apart built made
  obtain ⟨t, reused, last⟩ := Spec.with_tools_reordered context.tools built other s first used
  have origin : ∀ n ∈ s.nodes, ∃ given ∈ d.nodes, ∃ ordered,
      context.tools.settleNode (Draft.settle ordered given) = .ok n := by
    obtain ⟨ordered, bound, _, rfl⟩ := (Draft.build_eq_ok _ _).mp made
    obtain ⟨nodes, checked, rfl⟩ := (map_eq_ok _ _ _).mp ((map_error_eq_ok _ _ _).mp used)
    intro n member
    obtain ⟨_, inside, settled⟩ := exists_matching _ _ _ ((map_m_eq_ok _ _ _).mp checked) n member
    obtain ⟨given, held, rfl⟩ := List.mem_map.mp inside
    exact ⟨given, held, ordered, settled⟩
  have again : normalize (.parsed e) context = .ok t := by
    rw [normalize, Spec.read, Payload.read, ok_bind, remade, ok_bind]
    exact reused
  refine ⟨t, again, s.canonical_matches t last (fun n member => ?_) (fun n member => ?_) fun r member tool used => ?_⟩
  · obtain ⟨given, held, ordered, settled⟩ := origin n member
    have own := valid.nodes given held
    exact context.tools.settle_node_valid _ _ n settled ⟨own.id, own.action⟩
  · obtain ⟨given, held, ordered, settled⟩ := origin n member
    exact context.tools.settle_node_apart _ n settled (apart.nodes given held)
  · obtain ⟨name, same, _⟩ := (s.normal_contained context.tools (normalize_normal _ context s done) r member).named tool used
    exact ⟨name, same⟩

theorem normalize_of_read (context : Context) (p : Payload Spec) (d : Spec) (given : Spec.read p = .ok d) :
    normalize p context = normalize (.parsed d) context := by
  rw [normalize, given]
  rfl

section

variable (p q : Payload Spec) (a b : Json) (first : p.Carries a) (second : q.Carries b) (distinct : a.Regular fun _ => True)
  (moved : a.Reordered b)

include first second distinct moved

theorem read_reordered (d : Spec) (given : Spec.read p = .ok d) :
    d.Valid (fun _ => True) ∧ ∃ e, Spec.read q = .ok e ∧ d.Reordered e := by
  obtain ⟨⟨fields, rfl⟩, valid⟩ := (p.carried_read a first _ _ d).mp given
  obtain ⟨others, rfl, _⟩ := (Json.reordered_obj fields b).mp moved
  obtain ⟨e, again, own⟩ := spec_respects _ distinct _ moved d valid
  exact ⟨spec_admitted _ distinct d valid, e, (q.carried_read _ second _ _ e).mpr ⟨⟨others, rfl⟩, again⟩, own⟩

theorem normalize_carried (context : Context) (apart : ∀ intent, Spec.read p = .ok intent → intent.Apart) (s : Spec)
    (done : normalize p context = .ok s) :
    ∃ t, normalize q context = .ok t ∧ ∀ text, s.canonicalText = .ok text → t.canonicalText = .ok text := by
  obtain ⟨d, given, _⟩ := (bind_eq_ok _ _ _).mp done
  obtain ⟨valid, e, again, own⟩ := read_reordered p q a b first second distinct moved d given
  rw [normalize_of_read context p d given] at done
  rw [normalize_of_read context q e again]
  exact normalize_reordered context d e own valid (apart d given) s done

theorem apart_carried (apart : ∀ intent, Spec.read p = .ok intent → intent.Apart) (e : Spec)
    (given : Spec.read q = .ok e) : e.Apart := by
  obtain ⟨_, d, read, _⟩ := read_reordered q p b a second first (Json.reordered_regular a b moved _ distinct)
    (Json.reordered_symm a b moved) e given
  obtain ⟨_, other, again, own⟩ := read_reordered p q a b first second distinct moved d read
  obtain rfl := Except.ok.inj (again.symm.trans given)
  exact d.apart_reordered other own (apart d read)

end

theorem normalize_key_order (context : Context) (p q : Payload Spec) (a b : Json) (first : p.Carries a)
    (second : q.Carries b) (distinct : a.Regular fun _ => True) (moved : a.Reordered b)
    (apart : ∀ intent, Spec.read p = .ok intent → intent.Apart) :
    ((∃ s, normalize p context = .ok s) ↔ ∃ t, normalize q context = .ok t) ∧
    ∀ s t, normalize p context = .ok s → normalize q context = .ok t →
      ∀ text, s.canonicalText = .ok text ↔ t.canonicalText = .ok text := by
  have forth := normalize_carried p q a b first second distinct moved context apart
  have back := normalize_carried q p b a second first (Json.reordered_regular a b moved _ distinct)
    (Json.reordered_symm a b moved)
    context (apart_carried p q a b first second distinct moved apart)
  refine ⟨⟨?_, ?_⟩, fun s t here there text => ⟨?_, ?_⟩⟩
  · rintro ⟨s, done⟩
    obtain ⟨t, again, _⟩ := forth s done
    exact ⟨t, again⟩
  · rintro ⟨t, done⟩
    obtain ⟨s, again, _⟩ := back t done
    exact ⟨s, again⟩
  · obtain ⟨other, again, same⟩ := forth s here
    obtain rfl := Except.ok.inj (again.symm.trans there)
    exact same text
  · obtain ⟨other, again, same⟩ := back t there
    obtain rfl := Except.ok.inj (again.symm.trans here)
    exact same text

namespace Sample

def limitsNode (limits : Table Int) : Table Json := [
  ("id", .str "n"), ("type", .str "llm"), ("tool_limits", .obj (limits.map fun entry => (entry.1, .int entry.2)))]

def limitsIntent (node : Table Json) : Table Json := [
  ("nodes", .arr [.obj node]), ("outputs", .arr [.obj [("name", .str "r"), ("from", .str "n")]])]

def limitsInput (limits : Table Int) : Json := .obj (limitsIntent (limitsNode limits))

def turnedInput (limits : Table Int) : Json := .obj (limitsIntent (limitsNode limits.reverse).reverse).reverse

theorem limits_reordered (limits : Table Int) : (limitsInput limits).Reordered (turnedInput limits) := by
  have bounds : (Json.obj (limits.map fun entry => (entry.1, .int entry.2))).Reordered
      (.obj (limits.reverse.map fun entry => (entry.1, .int entry.2))) :=
    (Json.reordered_obj _ _).mpr ⟨_, rfl, _, List.forall₂_same.mpr fun _ _ => ⟨rfl, .same _⟩, limits.reverse_perm.symm.map _⟩
  have node : (Json.obj (limitsNode limits)).Reordered (.obj (limitsNode limits.reverse).reverse) := by
    refine (Json.reordered_obj _ _).mpr ⟨_, rfl, limitsNode limits.reverse, ?_, (List.reverse_perm _).symm⟩
    exact .cons ⟨rfl, .same _⟩ (.cons ⟨rfl, .same _⟩ (.cons ⟨rfl, bounds⟩ .nil))
  refine (Json.reordered_obj _ _).mpr
    ⟨_, rfl, limitsIntent (limitsNode limits.reverse).reverse, ?_, (List.reverse_perm _).symm⟩
  exact .cons ⟨rfl, .arr _ _ (.cons node .nil)⟩ (.cons ⟨rfl, .same _⟩ .nil)

theorem limits_regular (limits : Table Int) (distinct : (Table.keys limits).Nodup) :
    (limitsInput limits).Regular fun _ => True := by
  have bounds : (Json.obj (limits.map fun entry => (entry.1, .int entry.2))).Regular fun _ => True := by
    refine ⟨?_, (Json.regular_fields_iff _ _).mpr (List.forall_mem_map.mpr fun entry _ => trivial)⟩
    rwa [Table.keys_map]
  have named : Table.keys (limitsNode limits) = [("id" : Text), "type", "tool_limits"] := rfl
  have node : (Json.obj (limitsNode limits)).Regular fun _ => True := ⟨named ▸ by decide, trivial, trivial, bounds, trivial⟩
  have parts : Table.keys (limitsIntent (limitsNode limits)) = [("nodes" : Text), "outputs"] := rfl
  exact ⟨parts ▸ by decide, ⟨node, trivial⟩, ⟨⟨by decide, trivial, trivial, trivial⟩, trivial⟩, trivial⟩

def bounds : Table Int := [("bash", 1), ("fs_search", 2)]

theorem bounds_apart (intent : Spec) (given : Spec.read (.value (Sample.limitsInput Sample.bounds)) = .ok intent) :
    intent.Apart := by
  have read : Spec.read (.value (Sample.limitsInput Sample.bounds)) = .ok (Sample.limited Sample.bounds) := rfl
  obtain rfl := Except.ok.inj (read.symm.trans given)
  refine ⟨fun node member => ?_, nofun⟩
  rw [List.mem_singleton.mp member]
  intro limits held
  obtain rfl := Option.some.inj held
  decide

end Sample

theorem sample_key_order :
    (Sample.limitsInput Sample.bounds).Regular (fun _ => True) ∧
    (Sample.limitsInput Sample.bounds).Reordered (Sample.turnedInput Sample.bounds) ∧
    ∃ s t text, normalize (.value (Sample.limitsInput Sample.bounds)) Sample.context = .ok s ∧
      normalize (.value (Sample.turnedInput Sample.bounds)) Sample.context = .ok t ∧
      s.canonicalText = .ok text ∧ t.canonicalText = .ok text := by
  have distinct := Sample.limits_regular Sample.bounds (by decide)
  have moved := Sample.limits_reordered Sample.bounds
  have same := (normalize_key_order Sample.context (.value (Sample.limitsInput Sample.bounds))
    (.value (Sample.turnedInput Sample.bounds)) _ _ rfl rfl distinct moved Sample.bounds_apart).2
  exact ⟨distinct, moved, _, _, _, rfl, rfl, rfl, (same _ _ rfl rfl _).mp rfl⟩

theorem sample_key_order_shows :
    (Sample.limitsInput Sample.loneLimits).Reordered (Sample.turnedInput Sample.loneLimits) ∧
    ((Sample.limitsInput Sample.loneLimits).Regular fun _ => True) ∧
    ∃ s t text other, normalize (.value (Sample.limitsInput Sample.loneLimits)) Sample.context = .ok s ∧
      normalize (.value (Sample.turnedInput Sample.loneLimits)) Sample.context = .ok t ∧
      s.canonicalText = .ok text ∧ t.canonicalText = .ok other ∧ text ≠ other :=
  ⟨Sample.limits_reordered _, Sample.limits_regular _ (by decide), _, _, _, _, rfl, rfl, rfl, rfl, by decide⟩

end PlanFlow
