import PlanFlow.Proofs.EdgeOrder

/-!
What building makes of a draft. Nodes stay as they are, in the order given, and wait for their own dependencies together
with the sources of all edges into them; one edge stays for each key of an edge with a condition; outputs are put in order.
-/

set_option autoImplicit false

namespace PlanFlow

-- What a node has to wait for among the given edges, on its own account or because an edge leads into it.
def Node.Follows (node : Node) (edges : List Edge) (name : Text) : Prop :=
  name ∈ node.dependsOn.getD [] ∨ ∃ e ∈ edges, e.target = node.id ∧ e.source = name

structure Node.Folded (edges : List Edge) (given node : Node) : Prop where
  id : node.id = given.id
  action : node.action = given.action
  waits : ∀ name, name ∈ node.dependsOn.getD [] ↔ given.Follows edges name
  ascending : (node.dependsOn.getD []).Pairwise (· < ·)
  absent : node.dependsOn = none ↔ ∀ name, ¬ given.Follows edges name

structure Edge.Distilled (edges kept : List Edge) : Prop where
  given : ∀ e ∈ kept, e ∈ edges
  conditional : ∀ e ∈ kept, e.condition.isSome = true
  keys : ∃ keys : List (List Text), List.Forall₂ (fun e key => e.sortKey = .ok key) kept keys ∧
    keys.Pairwise (· < ·) ∧ ∀ key, key ∈ keys ↔ ∃ e ∈ edges, e.condition.isSome = true ∧ e.sortKey = .ok key

structure Spec.Gathers (s : Spec) (d : Draft) : Prop where
  nodes : List.Forall₂ (Node.Folded d.edges) d.nodes s.nodes
  edges : Edge.Distilled d.edges s.edges
  outputs : s.outputs.Perm d.outputs
  sorted : s.outputs.Pairwise fun o other => ¬ other.sortKey < o.sortKey

namespace Edge

theorem distilled_filter (edges ordered : List Edge) (inOrder : canonicalOrder edges = .ok ordered) :
    Distilled edges (ordered.filter fun e => e.condition.isSome) := by
  obtain ⟨keyed, given, rfl⟩ := (canonical_order_eq_ok edges ordered).mp inOrder
  obtain ⟨rfl, own⟩ := (with_keys_eq_ok edges keyed).mp given
  let entries := (uniqueOn Prod.fst keyed).filter fun entry => entry.2.condition.isSome
  have kept : ((uniqueOn Prod.fst keyed).map Prod.snd).filter (fun e => e.condition.isSome) = entries.map Prod.snd :=
    List.filter_map
  have inside : ∀ entry ∈ entries, entry ∈ keyed ∧ entry.2.condition.isSome = true := fun entry member =>
    ⟨mem_of_mem_unique _ _ _ (List.mem_filter.mp member).1, (List.mem_filter.mp member).2⟩
  rw [kept]
  refine ⟨?given, ?conditional, entries.map Prod.fst, ?keyed, ?ascending, fun key => ⟨?found, ?represented⟩⟩
  case given =>
    intro e member
    obtain ⟨entry, chosen, rfl⟩ := List.mem_map.mp member
    exact List.mem_map_of_mem (inside entry chosen).1
  case conditional =>
    intro e member
    obtain ⟨entry, chosen, rfl⟩ := List.mem_map.mp member
    exact (inside entry chosen).2
  case keyed =>
    rw [List.forall₂_map_left_iff, List.forall₂_map_right_iff, List.forall₂_same]
    exact fun entry chosen => own entry (inside entry chosen).1
  case ascending =>
    rw [List.pairwise_map]
    exact (unique_on_ascending Prod.fst keyed).filter _
  case found =>
    intro member
    obtain ⟨entry, chosen, rfl⟩ := List.mem_map.mp member
    exact ⟨entry.2, List.mem_map_of_mem (inside entry chosen).1, (inside entry chosen).2, own entry (inside entry chosen).1⟩
  case represented =>
    rintro ⟨e, member, conditional, named⟩
    obtain ⟨entry, held, rfl⟩ := List.mem_map.mp member
    obtain rfl := Except.ok.inj ((own entry held).symm.trans named)
    obtain ⟨chosen, unique, same⟩ := mem_unique_of_key Prod.fst entry keyed held
    have theirs := own chosen (mem_of_mem_unique _ _ _ unique)
    have alike : chosen.2.Same entry.2 := ⟨entry.1, same ▸ theirs, named⟩
    refine List.mem_map.mpr ⟨chosen, List.mem_filter.mpr ⟨unique, ?_⟩, same⟩
    rw [chosen.2.conditional_of_same entry.2 alike]
    exact conditional

end Edge

namespace Draft

theorem settle_folded (edges ordered : List Edge) (inOrder : Edge.canonicalOrder edges = .ok ordered) (node : Node) :
    node.Folded edges (settle ordered node) := by
  have waits (name : Text) : name ∈ dependenciesOf ordered node ↔ node.Follows edges name := by
    rw [mem_dependencies_of, Edge.ordered_ends edges ordered inOrder, Node.Follows]
  have ascending : (dependenciesOf ordered node).Pairwise (· < ·) := unique_ascending _
  cases all : dependenciesOf ordered node with
  | nil =>
      have settled : (settle ordered node).dependsOn = none := by simp [settle, all]
      have nothing : ∀ name, ¬ node.Follows edges name := fun name follows => by
        simpa [all] using (waits name).mpr follows
      exact ⟨rfl, rfl, by simpa [settled] using nothing, by simp [settled], by simpa [settled] using nothing⟩
  | cons first others =>
      have settled : (settle ordered node).dependsOn = some (first :: others) := by simp [settle, all]
      rw [all] at waits ascending
      have some_waits : ¬ ∀ name, ¬ node.Follows edges name := fun nothing =>
        nothing first ((waits first).mp List.mem_cons_self)
      exact ⟨rfl, rfl, by simpa [settled] using waits, by simpa [settled] using ascending, by simp [settled, some_waits]⟩

end Draft

theorem build_gathers (d : Draft) (s : Spec) (built : d.build = .ok s) : s.Gathers d := by
  obtain ⟨ordered, bound, fits, rfl⟩ := (d.build_eq_ok s).mp built
  refine {
    nodes := ?nodes
    edges := Edge.distilled_filter d.edges ordered fits.inOrder
    outputs := sort_on_perm OutputRef.sortKey d.outputs
    sorted := sort_on_ascending OutputRef.sortKey d.outputs }
  rw [Draft.assembled, List.forall₂_map_right_iff, List.forall₂_same]
  exact fun node _ => Draft.settle_folded d.edges ordered fits.inOrder node

theorem sample_gathers : ∃ s, ((Sample.pair []).withEdges [Sample.counted, Sample.always]).build = .ok s ∧
    s.Gathers ((Sample.pair []).withEdges [Sample.counted, Sample.always]) := by
  obtain ⟨s, built⟩ := Sample.counted_built
  exact ⟨s, built, build_gathers _ s built⟩

end PlanFlow
