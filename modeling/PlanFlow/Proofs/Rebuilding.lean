import PlanFlow.Compile
import PlanFlow.Proofs.EdgeOrder

/-!
Building again what was built changes nothing. In a specification that was built the edges and outputs are in order,
the sources of edges are among the dependencies of their targets, and the name is trimmed; all checks pass once more.
The use of tools, once it is settled, stays as it is.
-/

set_option autoImplicit false

namespace PlanFlow

namespace Edge

def Before (e other : Edge) : Prop := ∃ key later, e.sortKey = .ok key ∧ other.sortKey = .ok later ∧ key < later

structure InOrder (edges : List Edge) : Prop where
  keyed : ∀ e ∈ edges, ∃ key, e.sortKey = .ok key
  ascending : edges.Pairwise Before

theorem ordered_in_order (edges ordered : List Edge) (inOrder : canonicalOrder edges = .ok ordered) : InOrder ordered := by
  obtain ⟨keyed, given, rfl⟩ := (canonical_order_eq_ok edges ordered).mp inOrder
  have keys := ((with_keys_eq_ok edges keyed).mp given).2
  have own (entry : List Text × Edge) (chosen : entry ∈ uniqueOn Prod.fst keyed) : entry.2.sortKey = .ok entry.1 :=
    keys entry (mem_of_mem_unique _ _ _ chosen)
  constructor
  · intro e member
    obtain ⟨entry, chosen, rfl⟩ := List.mem_map.mp member
    exact ⟨entry.1, own entry chosen⟩
  · rw [List.pairwise_map]
    refine (unique_on_ascending Prod.fst keyed).imp_of_mem fun {a b} first second less => ?_
    exact ⟨a.1, b.1, own a first, own b second, less⟩

theorem canonical_order_in_order (edges : List Edge) (inOrder : InOrder edges) : canonicalOrder edges = .ok edges := by
  obtain ⟨ordered, done⟩ := (ordered_iff edges).mpr fun e member => by
    obtain ⟨key, own⟩ := inOrder.keyed e member
    obtain ⟨text, written, _⟩ := (e.sort_key_eq_ok key).mp own
    exact ⟨text, written⟩
  obtain ⟨keyed, given, rfl⟩ := (canonical_order_eq_ok edges ordered).mp done
  obtain ⟨rfl, keys⟩ := (with_keys_eq_ok edges keyed).mp given
  have ascending : keyed.Pairwise fun a b => a.1 < b.1 := by
    refine (List.pairwise_map.mp inOrder.ascending).imp_of_mem fun {a b} first second before => ?_
    obtain ⟨_, _, own, other, less⟩ := before
    rw [keys a first, Except.ok.injEq] at own
    rw [keys b second, Except.ok.injEq] at other
    rwa [own, other]
  rw [done, unique_on_of_ascending Prod.fst keyed ascending]

theorem in_order_filter (edges : List Edge) (keep : Edge → Bool) (inOrder : InOrder edges) : InOrder (edges.filter keep) where
  keyed e member := inOrder.keyed e (List.mem_filter.mp member).1
  ascending := inOrder.ascending.filter keep

theorem before_same (a b c d : Edge) (first : a.Same c) (second : b.Same d) (before : a.Before b) : c.Before d := by
  obtain ⟨key, later, own, other, less⟩ := before
  obtain ⟨_, here, there⟩ := first
  obtain ⟨_, second_here, second_there⟩ := second
  obtain rfl := Except.ok.inj (own.symm.trans here)
  obtain rfl := Except.ok.inj (other.symm.trans second_here)
  exact ⟨key, later, there, second_there, less⟩

theorem in_order_same (edges others : List Edge) (same : List.Forall₂ Same edges others) (inOrder : InOrder edges) :
    InOrder others := by
  constructor
  · intro other member
    obtain ⟨_, _, key, _, own⟩ := exists_matching Same edges others same other member
    exact ⟨key, own⟩
  · have ascending := inOrder.ascending
    clear inOrder
    induction same with
    | nil => exact .nil
    | cons matching rest ih =>
        obtain ⟨first, later⟩ := List.pairwise_cons.mp ascending
        refine List.pairwise_cons.mpr ⟨fun other member => ?_, ih later⟩
        obtain ⟨e, inside, own⟩ := exists_matching Same _ _ rest other member
        exact before_same _ e _ other matching own (first e inside)

end Edge

theorem Draft.trimmed_name_twice (name : Option Text) : trimmedName (trimmedName name) = trimmedName name := by
  by_cases blank : (name.getD []).trim.isEmpty = true
  · simp [trimmedName, Text.orAbsent, blank]
    rfl
  · simp [trimmedName, Text.orAbsent, blank, Text.trim_trim]

structure Spec.Settled (s : Spec) : Prop where
  fits : (Draft.ofSpec s).Buildable s.edges s.maxParallelism
  name : Draft.trimmedName s.name = s.name
  nodes : ∀ node ∈ s.nodes, Draft.settle s.edges node = node
  edges : ∀ e ∈ s.edges, e.condition.isSome = true
  outputs : OutputRef.canonicalOrder s.outputs = s.outputs

namespace Draft

theorem settled_dependencies (node : Node) (edges : List Edge) :
    (settle edges node).dependsOn.getD [] = dependenciesOf edges node := by
  cases waits : dependenciesOf edges node with
  | nil => simp [settle, waits]
  | cons first others => simp [settle, waits]

-- Sources of edges are dependencies already, so they add nothing the second time.
theorem dependencies_of_settled (node : Node) (edges kept : List Edge) (given : ∀ e ∈ kept, e ∈ edges) :
    dependenciesOf kept (settle edges node) = dependenciesOf edges node := by
  have same (id : Text) : id ∈ dependenciesOf kept (settle edges node) ↔ id ∈ dependenciesOf edges node := by
    rw [mem_dependencies_of, settled_dependencies]
    refine ⟨?_, Or.inl⟩
    rintro (own | ⟨e, member, target, source⟩)
    · exact own
    · exact (mem_dependencies_of edges node id).mpr (Or.inr ⟨e, given e member, target, source⟩)
  refine List.Pairwise.eq_of_mem_iff (unique_ascending _) (unique_ascending _) same

theorem settle_settled (node : Node) (edges kept : List Edge) (given : ∀ e ∈ kept, e ∈ edges) :
    settle kept (settle edges node) = settle edges node := by
  rw [settle, dependencies_of_settled node edges kept given]
  rfl

theorem bound_again (given : Json) (bound : Option Int) (parallel : checkParallelism given = .valid bound) :
    checkParallelism (Json.ofInt? bound) = .valid bound := by
  cases bound with
  | none => rfl
  | some n =>
      have counted : 0 < n ∧ n ≤ Schema.integerLimit := by
        cases given with
        | null => cases parallel
        | _ =>
            obtain ⟨_, fits, same⟩ := (Checked.map_eq_valid _ _ _).mp ((Checked.under_eq_valid _ _ _).mp parallel)
            exact Option.some.inj same ▸ Schema.count_of_valid _ _ fits
      rw [Plan.check_bound_eq_valid (some n) (some n) fun m same => Option.some.inj same ▸ counted.1]
      exact ⟨rfl, fun m same => Option.some.inj same ▸ counted.2⟩

section

variable (d : Draft) (ordered : List Edge) (bound : Option Int)

theorem assembled_ids : (d.assembled ordered bound).nodes.map Node.id = d.nodes.map Node.id := List.map_map

theorem assembled_edges : ∀ e ∈ (d.assembled ordered bound).edges, e ∈ ordered := fun _ member => (List.mem_filter.mp member).1

theorem assembled_dependencies :
    dependencies (d.assembled ordered bound).nodes (d.assembled ordered bound).edges = dependencies d.nodes ordered := by
  rw [dependencies, dependencies, assembled, List.map_map]
  refine List.map_congr_left fun node _ => ?_
  exact congrArg (Prod.mk node.id) (dependencies_of_settled node ordered _ (d.assembled_edges ordered bound))

theorem assembled_buildable (fits : d.Buildable ordered bound) :
    (ofSpec (d.assembled ordered bound)).Buildable (d.assembled ordered bound).edges bound := by
  have ids := d.assembled_ids ordered bound
  have kept := d.assembled_edges ordered bound
  have inOrder : Edge.InOrder (d.assembled ordered bound).edges :=
    Edge.in_order_filter ordered _ (Edge.ordered_in_order d.edges ordered fits.inOrder)
  refine {
    nonempty := fun empty => fits.nonempty (List.map_eq_nil_iff.mp empty)
    distinct := ids ▸ fits.distinct
    inOrder := Edge.canonical_order_in_order _ inOrder
    dependencies := ?dependencies
    edges := fun e member => ids ▸ fits.edges e (kept e member)
    answered := fun empty => fits.answered ((outputs_order_eq_nil _).mp empty)
    outputs := fun output member => ids ▸ fits.outputs output ((mem_sort_on _ _ _).mp member)
    nodes := ?nodes
    acyclic := d.assembled_dependencies ordered bound ▸ fits.acyclic
    parallel := bound_again _ _ fits.parallel }
  case dependencies =>
    intro node member
    obtain ⟨given, inside, rfl⟩ := List.mem_map.mp member
    rw [check_dependencies_eq_ok, settled_dependencies]
    intro dependency waits
    change dependency ∈ (d.assembled ordered bound).nodes.map Node.id ∧ dependency ≠ given.id
    rw [ids]
    rcases (mem_dependencies_of ordered given dependency).mp waits with own | ⟨e, inside_edges, target, rfl⟩
    · exact (check_dependencies_eq_ok _ given).mp (fits.dependencies given inside) dependency own
    · obtain ⟨_, known, apart⟩ := (check_edge_eq_ok _ e).mp (fits.edges e inside_edges)
      exact ⟨known, target ▸ apart⟩
  case nodes =>
    intro node member
    obtain ⟨given, inside, rfl⟩ := List.mem_map.mp member
    exact ids ▸ fits.nodes given inside

end

theorem built_settled (d : Draft) (s : Spec) (built : d.build = .ok s) : s.Settled := by
  obtain ⟨ordered, bound, fits, rfl⟩ := (d.build_eq_ok s).mp built
  refine {
    fits := d.assembled_buildable ordered bound fits
    name := trimmed_name_twice d.name
    nodes := fun node member => ?_
    edges := fun e member => (List.mem_filter.mp member).2
    outputs := sort_on_sort_on _ _ }
  obtain ⟨given, _, rfl⟩ := List.mem_map.mp member
  exact settle_settled given ordered _ (d.assembled_edges ordered bound)

theorem settled_rebuilt (s : Spec) (settled : s.Settled) : (ofSpec s).build = .ok s := by
  refine ((ofSpec s).build_eq_ok s).mpr ⟨s.edges, s.maxParallelism, settled.fits, ?_⟩
  have nodes : s.nodes.map (settle s.edges) = s.nodes.map id := List.map_congr_left settled.nodes
  have edges : s.edges.filter (fun e => e.condition.isSome) = s.edges := List.filter_eq_self.mpr settled.edges
  rw [assembled, ofSpec, settled.name, nodes, List.map_id, edges, settled.outputs]

end Draft

structure Node.Alike (n other : Node) : Prop where
  id : other.id = n.id
  dependsOn : other.dependsOn = n.dependsOn
  checked : ∀ ids, Draft.checkNode ids n = .ok () → Draft.checkNode ids other = .ok ()

namespace Node

section

variable (nodes others : List Node) (alike : List.Forall₂ Alike nodes others)

include alike

theorem alike_ids : others.map id = nodes.map id := by
  rw [← List.forall₂_eq_eq_eq, List.forall₂_map_left_iff, List.forall₂_map_right_iff]
  exact alike.flip.imp fun other n both => both.id

theorem alike_members (p : Node → Prop) (kept : ∀ n other, n.Alike other → p n → p other) (each : ∀ n ∈ nodes, p n) :
    ∀ other ∈ others, p other := by
  intro other member
  obtain ⟨n, inside, pair⟩ := exists_matching Alike nodes others alike other member
  exact kept n other pair (each n inside)

end

end Node

namespace Draft

section

variable (ordered others : List Edge) (same : List.Forall₂ Edge.Same ordered others)

include same

theorem dependencies_of_alike (n other : Node) (pair : n.Alike other) : dependenciesOf others other = dependenciesOf ordered n := by
  rw [← dependencies_of_same ordered others same, dependenciesOf, dependenciesOf, pair.id, pair.dependsOn]

theorem buildable_alike (d e : Draft) (bound : Option Int) (alike : List.Forall₂ Node.Alike d.nodes e.nodes)
    (inOrder : Edge.canonicalOrder e.edges = .ok others) (answers : e.outputs = d.outputs)
    (bounded : e.maxParallelism = d.maxParallelism) (fits : d.Buildable ordered bound) : e.Buildable others bound := by
  have ids := Node.alike_ids d.nodes e.nodes alike
  refine {
    nonempty := fun empty => fits.nonempty (List.forall₂_nil_right_iff.mp (empty ▸ alike))
    distinct := ids ▸ fits.distinct
    inOrder := inOrder
    dependencies := ?dependencies
    edges := edges_checked_same ordered others same _ (ids ▸ fits.edges)
    answered := answers ▸ fits.answered
    outputs := ids ▸ answers ▸ fits.outputs
    nodes := ?nodes
    acyclic := ?acyclic
    parallel := bounded ▸ fits.parallel }
  case dependencies =>
    rw [ids]
    refine Node.alike_members d.nodes e.nodes alike _ (fun n other pair passed => ?_) fits.dependencies
    rwa [checkDependencies, pair.id, pair.dependsOn]
  case nodes =>
    rw [ids]
    exact Node.alike_members d.nodes e.nodes alike _ (fun n other pair => pair.checked _) fits.nodes
  case acyclic =>
    have relation : Draft.dependencies e.nodes others = Draft.dependencies d.nodes ordered := by
      rw [Draft.dependencies, Draft.dependencies, ← List.forall₂_eq_eq_eq, List.forall₂_map_left_iff,
        List.forall₂_map_right_iff]
      exact alike.flip.imp fun other n pair => by rw [pair.id, dependencies_of_alike ordered others same n other pair]
    exact (congrArg Dependencies.findCycle? relation).trans fits.acyclic

end

end Draft

namespace Spec

def withParts (s : Spec) (nodes : List Node) (edges : List Edge) : Spec := { s with nodes := nodes, edges := edges }

theorem settled_alike (s : Spec) (nodes : List Node) (edges : List Edge) (alike : List.Forall₂ Node.Alike s.nodes nodes)
    (same : List.Forall₂ Edge.Same s.edges edges) (settled : s.Settled) : (s.withParts nodes edges).Settled := by
  have inOrder : Edge.canonicalOrder edges = .ok edges :=
    Edge.canonical_order_in_order _ (Edge.in_order_same _ _ same (Edge.ordered_in_order _ _ settled.fits.inOrder))
  refine {
    fits := Draft.buildable_alike _ _ same (Draft.ofSpec s) _ _ alike inOrder rfl rfl settled.fits
    name := settled.name
    nodes := ?settled
    edges := ?conditional
    outputs := settled.outputs }
  case settled =>
    change ∀ node ∈ nodes, Draft.settle edges node = node
    intro other member
    obtain ⟨n, inside, pair⟩ := exists_matching Node.Alike s.nodes nodes alike other member
    have given : (Draft.settle s.edges n).dependsOn = n.dependsOn := congrArg Node.dependsOn (settled.nodes n inside)
    have stays : (Draft.settle edges other).dependsOn = other.dependsOn := by
      rw [pair.dependsOn, ← given, Draft.settle, Draft.settle, Draft.dependencies_of_alike _ _ same n other pair]
    calc Draft.settle edges other = { other with dependsOn := (Draft.settle edges other).dependsOn } := rfl
      _ = other := by rw [stays]
  case conditional =>
    intro other member
    obtain ⟨e, inside, matching⟩ := exists_matching Edge.Same s.edges edges same other member
    exact (e.conditional_of_same other matching) ▸ settled.edges e inside

end Spec

namespace ToolRegistry

variable (registry : ToolRegistry)

theorem settle_mode_eq_ok (node : Text) (parent : Option Text) (r settled : Request) :
    settleMode node parent r = .ok settled ↔
      (∀ mode ∈ r.toolMode, mode = .client) ∧ settled = { r with toolMode := some .client } := by
  obtain ⟨model, system, user, input, stream, tools, toolMode, limits, bindings⟩ := r
  cases toolMode with
  | none => simp [settleMode, eq_comm]
  | some mode => cases mode <;> simp [settleMode, eq_comm]

theorem settle_request_equipped (node : Text) (parent : Option Text) (r : Request) (equipped : r.tools.getD [] ≠ []) :
    registry.settleRequest node parent r =
      (r.tools.getD []).forM (registry.checkTool node parent) >>= fun _ => settleMode node parent r := by
  simp only [settleRequest, List.isEmpty_iff, equipped, if_false]
  cases (r.tools.getD []).forM (registry.checkTool node parent) <;> rfl

theorem settle_request_eq_ok (node : Text) (parent : Option Text) (r settled : Request) :
    registry.settleRequest node parent r = .ok settled ↔ r.tools.getD [] = [] ∧ settled = r ∨
      r.tools.getD [] ≠ [] ∧ (∀ tool ∈ r.tools.getD [], registry.checkTool node parent tool = .ok ()) ∧
        (∀ mode ∈ r.toolMode, mode = .client) ∧ settled = { r with toolMode := some .client } := by
  by_cases bare : r.tools.getD [] = []
  · simp [settleRequest, bare, eq_comm]
  · rw [registry.settle_request_equipped node parent r bare, check_bind_eq_ok, for_m_eq_ok, settle_mode_eq_ok]
    simp only [bare, false_and, false_or, ne_eq, not_false_iff, true_and]

theorem settle_request_again (node : Text) (parent : Option Text) (r settled : Request)
    (done : registry.settleRequest node parent r = .ok settled) :
    settled = { r with toolMode := settled.toolMode } ∧ registry.settleRequest node parent settled = .ok settled := by
  rcases (registry.settle_request_eq_ok node parent r settled).mp done with ⟨_, rfl⟩ | ⟨equipped, allowed, _, rfl⟩
  · exact ⟨rfl, done⟩
  · exact ⟨rfl, (registry.settle_request_eq_ok node parent _ _).mpr (.inr ⟨equipped, allowed, by simp, rfl⟩)⟩

theorem settle_node_again (n settled : Node) (done : registry.settleNode n = .ok settled) :
    n.Alike settled ∧ registry.settleNode settled = .ok settled := by
  obtain ⟨id, dependsOn, action⟩ := n
  cases action with
  | request kind r =>
      obtain ⟨own, given, rfl⟩ := (map_eq_ok _ _ _).mp done
      obtain ⟨same, again⟩ := registry.settle_request_again id none r own given
      refine ⟨⟨rfl, rfl, fun ids passed => ?_⟩, (map_eq_ok _ _ _).mpr ⟨own, again, rfl⟩⟩
      rw [same]
      exact passed
  | mapFanout f =>
      obtain ⟨changed, given, rfl⟩ := (map_eq_ok _ _ _).mp done
      cases subnode : f.subnode.action with
      | request kind r =>
          simp only [settleFanOut, subnode] at given
          obtain ⟨own, inner, rfl⟩ := (map_eq_ok _ _ _).mp given
          obtain ⟨same, again⟩ := registry.settle_request_again f.subnode.id (some id) r own inner
          refine ⟨⟨rfl, rfl, fun ids passed => ?_⟩, (map_eq_ok _ _ _).mpr ⟨_, (map_eq_ok _ _ _).mpr ⟨own, again, rfl⟩, rfl⟩⟩
          rw [same]
          simpa only [Draft.checkNode, Draft.checkFanOut, FanOut.validate, FanOut.checkShape, subnode] using passed
      | transform t =>
          simp only [settleFanOut, subnode, Except.ok.injEq] at given
          subst given
          exact ⟨⟨rfl, rfl, fun _ passed => passed⟩, done⟩
  | _ =>
      obtain rfl := Except.ok.inj done
      exact ⟨⟨rfl, rfl, fun _ passed => passed⟩, rfl⟩

end ToolRegistry

theorem Edge.same_refl (edges : List Edge) (keyed : ∀ e ∈ edges, ∃ key, e.sortKey = .ok key) : List.Forall₂ Edge.Same edges edges :=
  List.forall₂_same.mpr fun e member => by
    obtain ⟨key, own⟩ := keyed e member
    exact ⟨key, own, own⟩

structure Spec.Normal (s : Spec) (registry : ToolRegistry) : Prop where
  settled : s.Settled
  tools : ∀ node ∈ s.nodes, registry.settleNode node = .ok node

namespace Spec

theorem with_tools_normal (s : Spec) (registry : ToolRegistry) (usable : ∀ node ∈ s.nodes, registry.settleNode node = .ok node) :
    s.withTools registry = .ok s := by
  have unchanged : s.nodes.mapM registry.settleNode = .ok (s.nodes.map id) := map_m_ok_of_pure _ _ _ usable
  rw [withTools, settleTools, unchanged, List.map_id]
  rfl

theorem settled_with_tools (s other : Spec) (registry : ToolRegistry) (settled : s.Settled)
    (used : s.withTools registry = .ok other) : other.Normal registry := by
  obtain ⟨nodes, checked, rfl⟩ := (map_eq_ok _ _ _).mp ((map_error_eq_ok _ _ _).mp used)
  have each := (map_m_eq_ok _ _ _).mp checked
  have again := each.imp fun n own done => registry.settle_node_again n own done
  have inOrder := Edge.ordered_in_order _ _ settled.fits.inOrder
  constructor
  · exact s.settled_alike nodes s.edges (again.imp fun n own both => both.1) (Edge.same_refl s.edges inOrder.keyed) settled
  · intro node member
    obtain ⟨_, _, _, done⟩ := exists_matching _ s.nodes nodes again node member
    exact done

theorem normal_again (s : Spec) (context : Context) (normal : s.Normal context.tools) :
    normalize (.parsed s) context = .ok s := by
  rw [normalize, read, Payload.read, ok_bind, Draft.settled_rebuilt s normal.settled, ok_bind]
  exact s.with_tools_normal context.tools normal.tools

end Spec

theorem normalize_normal (payload : Payload Spec) (context : Context) (s : Spec) (done : normalize payload context = .ok s) :
    s.Normal context.tools := by
  obtain ⟨intent, _, rest⟩ := (bind_eq_ok _ _ _).mp done
  obtain ⟨built, made, used⟩ := (bind_eq_ok _ _ _).mp rest
  exact built.settled_with_tools s context.tools (Draft.built_settled _ built made) used

theorem compile_normal (payload : Payload Plan) (context : Context) (settings : Settings) (job : Job) (s : Spec)
    (done : compile payload context settings job = .ok s) : s.Normal context.tools := by
  obtain ⟨plan, _, rest⟩ := (bind_eq_ok _ _ _).mp done
  obtain ⟨_, _, rest⟩ := (bind_eq_ok _ _ _).mp rest
  obtain ⟨made, synthesized, rest⟩ := (bind_eq_ok _ _ _).mp rest
  obtain ⟨settled, used, rest⟩ := (bind_eq_ok _ _ _).mp rest
  obtain ⟨_, _, same⟩ := (bind_eq_ok _ _ _).mp rest
  obtain rfl := (pure_eq_ok _ _).mp same
  obtain ⟨_, _, built⟩ := (bind_eq_ok _ _ _).mp synthesized
  exact made.settled_with_tools _ context.tools (Draft.built_settled _ made built) used

end PlanFlow
