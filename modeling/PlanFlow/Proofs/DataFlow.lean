import PlanFlow.Proofs.Order
import PlanFlow.Proofs.References
import PlanFlow.Proofs.Topology

/-!
What nodes read and what they wait for. The builder keeps both apart: what a node reads has to be there, and no node waits
for itself. So what a node waits for can be produced before it runs, and is not produced from its output. What a node only
reads can be any node, itself and those that wait for it included.
-/

set_option autoImplicit false

namespace PlanFlow

def Place.Data : Place → Prop
  | binding | reference | items => True
  | dependency | edgeSource | edgeTarget | output | innerDependency | innerBinding | innerReference _ | itemBinding => False

def Action.Reads (action : Action) (source : Text) : Prop := ∃ place : Place, place.Data ∧ action.Refers place source

def Spec.Reads (s : Spec) (reader source : Text) : Prop := ∃ node ∈ s.nodes, node.id = reader ∧ node.action.Reads source

def Binding.redirected (f : Text → Text) (binding : Binding) : Binding := { binding with source := f binding.source }

def ValueRef.redirected (f : Text → Text) (ref : ValueRef) : ValueRef := { ref with source := f ref.source }

namespace Request

def redirected (f : Text → Text) (r : Request) : Request := { r with bindings := r.bindings.map (·.map (·.redirected f)) }

theorem redirected_bindings (f : Text → Text) (r : Request) :
    (r.redirected f).bindings.getD [] = (r.bindings.getD []).map (·.redirected f) := by
  rw [redirected]
  cases r.bindings <;> rfl

end Request

namespace Transform

def redirected (f : Text → Text) (t : Transform) : Transform :=
  ⟨t.object.map (·.map fun entry => (entry.1, entry.2.redirected f)), t.merge.map (·.map (·.redirected f))⟩

theorem redirected_sources (f : Text → Text) (t : Transform) : (t.redirected f).sources = t.sources.map (·.redirected f) := by
  obtain ⟨object, merge⟩ := t
  cases object <;> cases merge <;> simp [redirected, sources, Table.values]

end Transform

def FanOut.redirected (f : Text → Text) (g : FanOut) : FanOut :=
  { g with itemsFrom := (g.itemsFrom.bind Text.orAbsent).map f }

namespace Action

def redirected (f : Text → Text) : Action → Action
  | .request kind r => .request kind (r.redirected f)
  | .transform t => .transform (t.redirected f)
  | .mapFanout g => .mapFanout (g.redirected f)
  | .joinAll => .joinAll
  | .joinAny predicate => .joinAny predicate
  | .joinCollect limit timeout predicate => .joinCollect limit timeout predicate

theorem request_reads (kind : RequestKind) (r : Request) (source : Text) :
    (Action.request kind r).Reads source ↔ ∃ binding ∈ r.bindings.getD [], binding.source = source := by
  constructor
  · rintro ⟨place, data, refers⟩
    cases refers with
    | binding kind r binding member => exact ⟨binding, member, rfl⟩
  · rintro ⟨binding, member, rfl⟩
    exact ⟨.binding, trivial, .binding kind r binding member⟩

theorem transform_reads (t : Transform) (source : Text) :
    (Action.transform t).Reads source ↔ ∃ ref ∈ t.sources, ref.source = source := by
  constructor
  · rintro ⟨place, data, refers⟩
    cases refers with
    | reference t ref member => exact ⟨ref, member, rfl⟩
  · rintro ⟨ref, member, rfl⟩
    exact ⟨.reference, trivial, .reference t ref member⟩

theorem fan_out_reads (g : FanOut) (source : Text) :
    (Action.mapFanout g).Reads source ↔ g.itemsFrom.bind Text.orAbsent = some source := by
  constructor
  · rintro ⟨place, data, refers⟩
    cases refers with
    | items g name given => exact given
    | _ => exact data.elim
  · intro given
    exact ⟨.items, trivial, .items g source given⟩

theorem redirected_reads (f : Text → Text) (named : ∀ source, f source ≠ []) (action : Action) (name : Text) :
    (action.redirected f).Reads name ↔ ∃ source, action.Reads source ∧ f source = name := by
  cases action with
  | request kind r => simp [redirected, request_reads, r.redirected_bindings, Binding.redirected]
  | transform t => simp [redirected, transform_reads, t.redirected_sources, ValueRef.redirected]
  | mapFanout g =>
      have kept (source : Text) : (f source).orAbsent = some (f source) := if_neg (by simpa using named source)
      simp only [redirected, fan_out_reads, FanOut.redirected]
      cases g.itemsFrom.bind Text.orAbsent <;> simp [kept]
  | _ =>
      constructor
      · rintro ⟨_, _, refers⟩
        cases refers
      · rintro ⟨_, ⟨_, _, refers⟩, _⟩
        cases refers

end Action

def Node.redirected (f : Text → Text → Text) (node : Node) : Node := { node with action := node.action.redirected (f node.id) }

def Spec.redirected (f : Text → Text → Text) (s : Spec) : Spec := { s with nodes := s.nodes.map (Node.redirected f) }

namespace Draft

def redirected (f : Text → Text → Text) (d : Draft) : Draft := { d with nodes := d.nodes.map (Node.redirected f) }

section

variable (f : Text → Text → Text) (ids : List Text)

theorem check_bindings_redirected (node : Text) (g : Text → Text) (messages : List Message) (index : Nat)
    (bindings : List Binding) : Target.checkBindingsFrom node messages index (bindings.map (·.redirected g)) =
      Target.checkBindingsFrom node messages index bindings := by
  induction bindings generalizing index with
  | nil => rfl
  | cons head tail ih =>
      have same : Target.checkBinding node messages index (head.redirected g) =
          Target.checkBinding node messages index head := rfl
      simp only [List.map_cons, Target.checkBindingsFrom, same, ih]

theorem check_node_redirected (known : ∀ reader source, f reader source ∈ ids) (node : Node)
    (passed : checkNode ids node = .ok ()) : checkNode ids (node.redirected f) = .ok () := by
  obtain ⟨id, dependsOn, action⟩ := node
  cases action with
  | request kind r =>
      obtain ⟨_, targets⟩ := (check_bind_eq_ok _ _ _).mp passed
      refine (check_bind_eq_ok _ _ _).mpr ⟨?sources, ?targets⟩
      case sources =>
        rw [r.redirected_bindings, check_sources_eq_ok]
        exact List.forall_mem_map.mpr fun binding _ => known id binding.source
      case targets =>
        rw [r.redirected_bindings]
        exact (check_bindings_redirected id (f id) r.messages 0 _).trans targets
  | transform t =>
      refine (for_m_eq_ok _ _ _).mpr ?_
      rw [t.redirected_sources]
      exact List.forall_mem_map.mpr fun ref _ => (check_reference_eq_ok ids id _).mpr (known id ref.source)
  | mapFanout g =>
      obtain ⟨_, shape⟩ := (check_fan_out_eq_ok ids id g).mp passed
      refine (check_fan_out_eq_ok ids id (g.redirected (f id))).mpr ⟨fun source given => ?_, shape⟩
      obtain ⟨name, redirected, named⟩ := Option.bind_eq_some_iff.mp given
      obtain ⟨before, _, rfl⟩ := Option.map_eq_some_iff.mp redirected
      by_cases empty : f id before = []
      · simp [Text.orAbsent, empty] at named
      · obtain rfl : f id before = source := by simpa [Text.orAbsent, empty] using named
        exact known id before
  | _ => exact passed

theorem redirected_ids (nodes : List Node) : (nodes.map (Node.redirected f)).map Node.id = nodes.map Node.id := by
  rw [List.map_map]
  rfl

theorem build_redirected (d : Draft) (s : Spec) (built : d.build = .ok s)
    (known : ∀ reader source, f reader source ∈ s.nodeIds) : (d.redirected f).build = .ok (s.redirected f) := by
  obtain ⟨ordered, bound, fits, rfl⟩ := (d.build_eq_ok s).mp built
  have ids : (d.assembled ordered bound).nodeIds = d.nodes.map Node.id := List.map_map
  have relation : Draft.dependencies (d.redirected f).nodes ordered = Draft.dependencies d.nodes ordered := List.map_map
  have same : (d.assembled ordered bound).redirected f = (d.redirected f).assembled ordered bound := by
    rw [Spec.redirected, assembled, assembled, redirected, List.map_map, List.map_map]
    rfl
  rw [same]
  refine (build_eq_ok _ _).mpr ⟨ordered, bound, ?_, rfl⟩
  refine {
    nonempty := fun empty => fits.nonempty (List.map_eq_nil_iff.mp empty)
    distinct := ?distinct
    inOrder := fits.inOrder
    dependencies := ?dependencies
    edges := ?ends
    answered := fits.answered
    outputs := ?outputs
    nodes := ?nodes
    acyclic := relation ▸ fits.acyclic
    parallel := fits.parallel }
  all_goals rw [redirected, redirected_ids]
  case distinct => exact fits.distinct
  case ends => exact fits.edges
  case outputs => exact fits.outputs
  case dependencies => exact List.forall_mem_map.mpr fits.dependencies
  case nodes =>
    exact List.forall_mem_map.mpr fun node member =>
      check_node_redirected f _ (ids ▸ known) node (fits.nodes node member)

end

end Draft

-- An order of all nodes in which each stands behind all that it waits for, on whatever way.
def Spec.Schedule (s : Spec) (order : List Text) : Prop :=
  order.Perm s.nodeIds ∧ ∀ before reader after, order = before ++ reader :: after →
    ∀ earlier, Relation.TransGen s.WaitsFor reader earlier → earlier ∈ before

-- What holds of the data that nodes read, and that nothing more can: every node may be read in place of any other.
structure Spec.Flows (s : Spec) (d : Draft) : Prop where
  known : ∀ reader source, s.Reads reader source → source ∈ s.nodeIds
  forwards : ∀ reader source, s.Reads reader source → Relation.TransGen s.WaitsFor reader source →
    source ≠ reader ∧ ¬ Relation.TransGen s.WaitsFor source reader
  ordered : ∃ order, s.Schedule order
  late : ∀ reader source, s.Reads reader source → ¬ Relation.TransGen s.WaitsFor reader source → source ≠ reader →
    ∃ before between after, s.Schedule (before ++ reader :: between ++ source :: after)
  anywhere : ∀ f : Text → Text → Text, (∀ reader source, f reader source ∈ s.nodeIds ∧ f reader source ≠ []) →
    (d.redirected f).build = .ok (s.redirected f) ∧ (s.redirected f).WaitsFor = s.WaitsFor ∧
      ∀ reader name, (s.redirected f).Reads reader name ↔ ∃ source, s.Reads reader source ∧ f reader source = name

namespace Spec

section

variable (s : Spec) (settled : s.Settled)

theorem redirected_waits (f : Text → Text → Text) : (s.redirected f).WaitsFor = s.WaitsFor := by
  funext later earlier
  simp [WaitsFor, redirected, Node.redirected]

theorem redirected_reads (f : Text → Text → Text) (named : ∀ reader source, f reader source ≠ []) (reader name : Text) :
    (s.redirected f).Reads reader name ↔ ∃ source, s.Reads reader source ∧ f reader source = name := by
  constructor
  · rintro ⟨_, member, rfl, reads⟩
    obtain ⟨node, given, rfl⟩ := List.mem_map.mp member
    obtain ⟨source, before, same⟩ := (Action.redirected_reads (f node.id) (named node.id) node.action name).mp reads
    exact ⟨source, ⟨node, given, rfl, before⟩, same⟩
  · rintro ⟨source, ⟨node, given, rfl, reads⟩, same⟩
    exact ⟨_, List.mem_map_of_mem given, rfl,
      (Action.redirected_reads (f node.id) (named node.id) node.action name).mpr ⟨source, reads, same⟩⟩

theorem schedule_advanced (order : List Text) (distinct : s.nodeIds.Nodup) (schedule : s.Schedule order) (first : Text → Bool)
    (closed : ∀ later earlier, first later = true → Relation.TransGen s.WaitsFor later earlier → first earlier = true) :
    s.Schedule (order.filter first ++ order.filter fun id => !first id) := by
  have same := List.filter_append_perm first order
  have unique := (same.trans schedule.1).nodup_iff.mpr distinct
  refine ⟨same.trans schedule.1, fun before reader after split earlier reaches => ?_⟩
  have member : reader ∈ order := same.subset (split ▸ List.mem_append_right before List.mem_cons_self)
  obtain ⟨front, back, rfl⟩ := List.append_of_mem member
  have ahead := schedule.2 front reader back rfl earlier reaches
  rw [split, List.nodup_middle, List.nodup_cons, List.mem_append, not_or] at unique
  have here (start rest : List Text) (parts : before ++ reader :: after = start ++ reader :: rest) : before = start :=
    ((List.append_cons_inj_of_notMem unique.1.1 unique.1.2).mp parts).1
  cases early : first reader with
  | true =>
      rw [here (front.filter first) (back.filter first ++ (front ++ reader :: back).filter fun id => !first id)
        (by rw [← split]; simp [List.filter_append, early])]
      exact List.mem_filter.mpr ⟨ahead, closed reader earlier early reaches⟩
  | false =>
      rw [here ((front ++ reader :: back).filter first ++ front.filter fun id => !first id) (back.filter fun id => !first id)
        (by rw [← split]; simp [List.filter_append, early])]
      cases moved : first earlier with
      | true => exact List.mem_append_left _ (List.mem_filter.mpr ⟨List.mem_append_left _ ahead, moved⟩)
      | false => exact List.mem_append_right _ (List.mem_filter.mpr ⟨ahead, by simp [moved]⟩)

theorem waits_searched (later earlier : Text) (waits : s.WaitsFor later earlier) :
    (Draft.dependencies s.nodes s.edges).Waits later earlier := by
  obtain ⟨node, member, rfl, depends⟩ := waits
  exact ⟨_, List.mem_map_of_mem member, rfl, (Draft.mem_dependencies_of s.edges node earlier).mpr (.inl depends)⟩

include settled

theorem settled_acyclic (id : Text) : ¬ Relation.TransGen s.WaitsFor id id := by
  have acyclic := (Dependencies.find_cycle_eq_none _).mp settled.fits.acyclic id
  exact fun loop => acyclic (Relation.TransGen.mono s.waits_searched id id loop)

theorem settled_known (later earlier : Text) (waits : s.WaitsFor later earlier) : earlier ∈ s.nodeIds := by
  obtain ⟨node, member, _, depends⟩ := waits
  exact ((Draft.check_dependencies_eq_ok _ node).mp (settled.fits.dependencies node member) earlier depends).1

theorem settled_order : ∃ order, s.Schedule order := by
  let relation := Draft.dependencies s.nodes s.edges
  have ids : relation.nodes = s.nodeIds := List.map_map
  obtain ⟨order, found⟩ := relation.order_iff.mpr (relation.find_cycle_eq_none.mp settled.fits.acyclic)
  have ordered := relation.order_ordered order (ids ▸ settled.fits.distinct) found
  refine ⟨order, ids ▸ ordered.all, fun before reader after split earlier reaches => ?_⟩
  have next (before reader after) (split : order = before ++ reader :: after) (earlier : Text)
      (waits : s.WaitsFor reader earlier) : earlier ∈ before :=
    ordered.behind before reader after split earlier (s.waits_searched reader earlier waits)
      (ids ▸ s.settled_known settled reader earlier waits)
  induction reaches with
  | single waits => exact next before reader after split _ waits
  | tail _ waits ih =>
      obtain ⟨front, between, rfl⟩ := List.append_of_mem ih
      exact List.mem_append_left _ (next front _ (between ++ reader :: after) (by simpa using split) _ waits)

open Classical in
-- The reader and all that it waits for go first, and so what it only reads is left for later.
theorem settled_late (reader source : Text) (known : reader ∈ s.nodeIds) (there : source ∈ s.nodeIds)
    (free : ¬ Relation.TransGen s.WaitsFor reader source) (apart : source ≠ reader) :
    ∃ before between after, s.Schedule (before ++ reader :: between ++ source :: after) := by
  obtain ⟨order, schedule⟩ := s.settled_order settled
  let first (id : Text) : Bool := decide (Relation.ReflTransGen s.WaitsFor reader id)
  have moved := s.schedule_advanced order settled.fits.distinct schedule first fun later earlier early reaches => by
    simpa [first] using (of_decide_eq_true early).trans reaches.to_reflTransGen
  have last : first source = false := by
    refine decide_eq_false fun reached => ?_
    rcases Relation.reflTransGen_iff_eq_or_transGen.mp reached with same | reaches
    · exact apart same
    · exact free reaches
  have front : reader ∈ order.filter first :=
    List.mem_filter.mpr ⟨schedule.1.mem_iff.mpr known, decide_eq_true Relation.ReflTransGen.refl⟩
  have back : source ∈ order.filter fun id => !first id :=
    List.mem_filter.mpr ⟨schedule.1.mem_iff.mpr there, by rw [last]; rfl⟩
  obtain ⟨before, between, early⟩ := List.append_of_mem front
  obtain ⟨others, after, late⟩ := List.append_of_mem back
  refine ⟨before, between ++ others, after, ?_⟩
  rw [early, late] at moved
  simpa using moved

end

end Spec

theorem built_flows (d : Draft) (s : Spec) (built : d.build = .ok s) : s.Flows d := by
  have settled := d.built_settled s built
  have known (reader source : Text) (reads : s.Reads reader source) : source ∈ s.nodeIds := by
    obtain ⟨node, member, rfl, place, data, refers⟩ := reads
    have looked : place.Checked ∧ ¬ place.Inner := by cases place <;> simp_all [Place.Data, Place.Checked, Place.Inner]
    exact (Action.checked_refers _ node (settled.fits.nodes node member) place source refers looked.1).resolve_right
      fun inner => looked.2 inner.1
  refine { known, forwards := ?forwards, ordered := s.settled_order settled, late := ?late, anywhere := ?anywhere }
  case forwards =>
    intro reader source _ waits
    exact ⟨fun same => s.settled_acyclic settled reader (same ▸ waits), fun back =>
      s.settled_acyclic settled reader (waits.trans back)⟩
  case late =>
    intro reader source reads free apart
    have own : reader ∈ s.nodeIds := by
      obtain ⟨node, member, rfl, _⟩ := reads
      exact List.mem_map_of_mem member
    exact s.settled_late settled reader source own (known reader source reads) free apart
  case anywhere =>
    intro f named
    exact ⟨d.build_redirected f s built fun reader source => (named reader source).1, s.redirected_waits f,
      s.redirected_reads f fun reader source => (named reader source).2⟩

namespace Sample

def asks : Request := { Request.empty with
  user := some "\x7b\x7bseen\x7d\x7d", bindings := some [⟨"second", none, none, some "seen", .jsonString⟩] }

def backwards : Spec :=
  ⟨none, none, none, [⟨"first", none, .request .llm asks⟩, ⟨"second", some ["first"], .joinAll⟩], [],
    [⟨"result", "second", none⟩]⟩

theorem backwards_built : (Draft.ofSpec backwards).build = .ok backwards := rfl

end Sample

def Sample.relay : Spec :=
  ⟨none, none, none, [⟨"first", none, .joinAll⟩,
    ⟨"second", some ["first"],
      .request .llm { Sample.asks with bindings := some [⟨"first", none, none, some "seen", .jsonString⟩] }⟩],
    [], [⟨"result", "second", none⟩]⟩

theorem sample_flows : (Draft.ofSpec Sample.relay).build = .ok Sample.relay ∧ Sample.relay.Flows (Draft.ofSpec Sample.relay) ∧
    Sample.relay.Reads "second" "first" ∧ Relation.TransGen Sample.relay.WaitsFor "second" "first" ∧
    ¬ Relation.TransGen Sample.relay.WaitsFor "first" "second" := by
  have built : (Draft.ofSpec Sample.relay).build = .ok Sample.relay := rfl
  have flows := built_flows _ _ built
  have member : Sample.relay.nodes[1] ∈ Sample.relay.nodes := List.getElem_mem _
  have reads : Sample.relay.Reads "second" "first" :=
    ⟨_, member, rfl, (Action.request_reads .llm _ "first").mpr ⟨_, List.mem_cons_self, rfl⟩⟩
  have waits : Relation.TransGen Sample.relay.WaitsFor "second" "first" := .single ⟨_, member, rfl, List.mem_cons_self⟩
  exact ⟨built, flows, reads, waits, (flows.forwards _ _ reads waits).2⟩

theorem sample_flows_backwards : (Draft.ofSpec Sample.backwards).build = .ok Sample.backwards ∧
    Sample.backwards.Reads "first" "second" ∧ Relation.TransGen Sample.backwards.WaitsFor "second" "first" := by
  have first : (⟨"first", none, .request .llm Sample.asks⟩ : Node) ∈ Sample.backwards.nodes := by simp [Sample.backwards]
  have second : (⟨"second", some ["first"], .joinAll⟩ : Node) ∈ Sample.backwards.nodes := by simp [Sample.backwards]
  have reads : (Action.request .llm Sample.asks).Reads "second" :=
    (Action.request_reads .llm Sample.asks "second").mpr ⟨_, List.mem_cons_self, rfl⟩
  exact ⟨Sample.backwards_built, ⟨_, first, rfl, reads⟩, .single ⟨_, second, rfl, List.mem_cons_self⟩⟩

end PlanFlow
