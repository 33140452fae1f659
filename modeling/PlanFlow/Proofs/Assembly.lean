import PlanFlow.Proofs.Cycle
import PlanFlow.Proofs.Layout
import PlanFlow.Proofs.Outcome

/-!
Building a draft whose edges have no conditions and whose nodes come behind the nodes that their edges come
from. Such a draft is never refused, and every edge ends up as a dependency of its target.
-/

set_option autoImplicit false

namespace PlanFlow

namespace Draft

theorem check_distinct_ids_eq_ok (seen : List Text) (nodes : List Node) (answer : List Text) (unique : seen.Nodup) :
    checkDistinctIds seen nodes = .ok answer ↔
      (seen ++ nodes.map Node.id).Nodup ∧ answer = seen ++ nodes.map Node.id := by
  induction nodes generalizing seen with
  | nil => simp [checkDistinctIds, unique, eq_comm (a := answer)]
  | cons head tail ih =>
      rw [List.map_cons, List.append_cons]
      by_cases repeated : head.id ∈ seen
      · simp only [checkDistinctIds, List.contains_iff_mem, repeated, if_true, Outcome.reject]
        refine ⟨nofun, fun both => ?_⟩
        exact absurd repeated ((nodup_append_one _ _).mp (List.nodup_append.mp both.1).1).1
      · simp only [checkDistinctIds, List.contains_iff_mem, repeated, if_false]
        exact ih _ ((nodup_append_one _ _).mpr ⟨repeated, unique⟩)

theorem check_output_eq_ok (ids : List Text) (output : OutputRef) :
    checkOutput ids output = .ok () ↔ output.source ∈ ids := by
  by_cases known : output.source ∈ ids <;> simp [checkOutput, known, Outcome.reject]

theorem check_edge_eq_ok (ids : List Text) (e : Edge) :
    checkEdge ids e = .ok () ↔ e.target ∈ ids ∧ e.source ∈ ids ∧ e.source ≠ e.target := by
  by_cases target : e.target ∈ ids
  · by_cases source : e.source ∈ ids
    · by_cases loop : e.source = e.target <;> simp [checkEdge, target, source, loop, Outcome.reject]
    · simp [checkEdge, target, source, Outcome.reject]
  · simp [checkEdge, target, Outcome.reject]

theorem check_acyclic_eq_ok (relation : Dependencies) (answer : Unit) :
    checkAcyclic relation = .ok answer ↔ relation.findCycle? = none := by
  cases found : relation.findCycle? <;> simp [checkAcyclic, found, Outcome.reject]

def assembled (d : Draft) (edges : List Edge) (bound : Option Int) : Spec where
  name := trimmedName d.name
  model := d.model
  maxParallelism := bound
  nodes := d.nodes.map (settle edges)
  edges := edges.filter fun e => e.condition.isSome
  outputs := OutputRef.canonicalOrder d.outputs

structure Buildable (d : Draft) (ordered : List Edge) (bound : Option Int) : Prop where
  nonempty : d.nodes ≠ []
  distinct : (d.nodes.map Node.id).Nodup
  inOrder : Edge.canonicalOrder d.edges = .ok ordered
  dependencies : ∀ node ∈ d.nodes, checkDependencies (d.nodes.map Node.id) node = .ok ()
  edges : ∀ e ∈ ordered, checkEdge (d.nodes.map Node.id) e = .ok ()
  answered : d.outputs ≠ []
  outputs : ∀ output ∈ d.outputs, checkOutput (d.nodes.map Node.id) output = .ok ()
  nodes : ∀ node ∈ d.nodes, checkNode (d.nodes.map Node.id) node = .ok ()
  acyclic : (Draft.dependencies d.nodes ordered).findCycle? = none
  parallel : checkParallelism d.maxParallelism = .valid bound

theorem of_checked_eq_ok {α : Type} (checked : Checked α) (value : α) :
    Outcome.ofChecked checked = .ok value ↔ checked = .valid value := by
  cases checked <;> simp [Outcome.ofChecked]

theorem outputs_order_eq_nil (outputs : List OutputRef) : OutputRef.canonicalOrder outputs = [] ↔ outputs = [] := by
  rw [OutputRef.canonicalOrder, ← List.length_eq_zero_iff, (sort_on_perm _ _).length_eq, List.length_eq_zero_iff]

theorem build_eq_ok (d : Draft) (spec : Spec) :
    d.build = .ok spec ↔ ∃ ordered bound, d.Buildable ordered bound ∧ spec = d.assembled ordered bound := by
  simp only [build, map_eq_ok, buildCounted, guard_eq_ok, Outcome.reject, bind_eq_ok, List.isEmpty_iff,
    check_distinct_ids_eq_ok [] _ _ List.nodup_nil, List.nil_append, pure_eq_ok, of_checked_eq_ok,
    outputs_order_eq_nil, for_m_eq_ok, Prod.exists, Prod.mk.injEq]
  constructor
  · rintro ⟨_, _, ⟨nonempty, _, ⟨distinct, rfl⟩, ordered, inOrder, _, dependencies, _, edges, answered, _, outputs, _,
      nodes, _, acyclic, bound, parallel, rfl, _⟩, rfl⟩
    exact ⟨ordered, bound, ⟨nonempty, distinct, inOrder, dependencies, edges, answered,
      fun output member => outputs output ((mem_sort_on _ _ _).mpr member), nodes,
      (check_acyclic_eq_ok _ _).mp acyclic, parallel⟩, rfl⟩
  · rintro ⟨ordered, bound, fits, rfl⟩
    exact ⟨_, _, ⟨fits.nonempty, _, ⟨fits.distinct, rfl⟩, ordered, fits.inOrder, (), fits.dependencies, (),
      fits.edges, fits.answered, (), fun output member => fits.outputs output ((mem_sort_on _ _ _).mp member), (),
      fits.nodes, (), (check_acyclic_eq_ok _ _).mpr fits.acyclic, bound, fits.parallel, rfl, rfl⟩, rfl⟩

end Draft

namespace Edge

theorem with_keys_eq (edges : List Edge) : withKeys edges = edges.mapM fun e => e.sortKey.map fun key => (key, e) := by
  induction edges with
  | nil => rfl
  | cons head tail ih =>
      rw [withKeys, List.mapM_cons, ← ih]
      cases head.sortKey with
      | error failure => rfl
      | ok key => cases withKeys tail <;> rfl

theorem plain_with_keys (edges : List Edge) (plain : ∀ e ∈ edges, e.condition = none) :
    withKeys edges = .ok (edges.map fun e => ([e.source, e.target, []], e)) := by
  rw [with_keys_eq]
  refine map_m_ok_of_pure _ _ edges fun e member => ?_
  rw [sortKey, conditionText, plain e member]
  rfl

theorem plain_order (edges : List Edge) (plain : ∀ e ∈ edges, e.condition = none) :
    ∃ ordered, canonicalOrder edges = .ok ordered ∧ ∀ e, e ∈ ordered ↔ e ∈ edges := by
  refine ⟨_, by rw [canonicalOrder, plain_with_keys edges plain]; rfl, fun e => ?_⟩
  constructor
  · intro member
    obtain ⟨kept, chosen, rfl⟩ := List.mem_map.mp member
    obtain ⟨given, inside, rfl⟩ := List.mem_map.mp (mem_of_mem_unique _ _ _ chosen)
    exact inside
  · intro member
    have given : ([e.source, e.target, []], e) ∈ edges.map fun e => ([e.source, e.target, []], e) :=
      List.mem_map.mpr ⟨e, member, rfl⟩
    obtain ⟨kept, chosen, sameKey⟩ := mem_unique_of_key Prod.fst _ _ given
    obtain ⟨other, inside, rfl⟩ := List.mem_map.mp (mem_of_mem_unique _ _ _ chosen)
    have same : other = e := by
      have keys : other.source = e.source ∧ other.target = e.target := by simpa using sameKey
      have conditions : other.condition = e.condition := (plain other inside).trans (plain e member).symm
      cases other
      cases e
      simp_all
    exact List.mem_map.mpr ⟨_, chosen, same⟩

end Edge

-- Every node comes behind the nodes that its edges come from; those seen stand in front of all.
def Laid : List Text → List Placed → Prop
  | _, [] => True
  | seen, p :: rest => (∀ source ∈ p.sources, source ∈ seen) ∧ Laid (seen ++ [p.id]) rest

theorem laid_append (seen : List Text) (a b : List Placed) :
    Laid seen (a ++ b) ↔ Laid seen a ∧ Laid (seen ++ a.map Placed.id) b := by
  induction a generalizing seen with
  | nil => simp [Laid]
  | cons head tail ih => simp [Laid, ih, and_assoc]

theorem laid_of_sources_seen (seen : List Text) (placed : List Placed)
    (known : ∀ p ∈ placed, ∀ source ∈ p.sources, source ∈ seen) : Laid seen placed := by
  induction placed generalizing seen with
  | nil => trivial
  | cons head tail ih =>
      refine ⟨known head List.mem_cons_self, ih _ fun p member source waits => ?_⟩
      exact List.mem_append_left _ (known p (List.mem_cons_of_mem head member) source waits)

theorem laid_sources_before (seen : List Text) (before after : List Placed) (p : Placed)
    (laid : Laid seen (before ++ p :: after)) (source : Text) (waits : source ∈ p.sources) :
    source ∈ seen ++ before.map Placed.id :=
  ((laid_append seen before (p :: after)).mp laid).2.1 source waits

namespace Placed

structure Bare (p : Placed) : Prop where
  waitless : p.node.dependsOn = none
  checked : ∀ ids, Draft.checkNode ids p.node = .ok ()

def settled (p : Placed) : Node :=
  let all := canonicalDependencies p.sources
  { p.node with dependsOn := if all.isEmpty then none else some all }

theorem mem_edges (p : Placed) (e : Edge) :
    e ∈ p.edges ↔ e.target = p.id ∧ e.source ∈ p.sources ∧ e.condition = none := by
  constructor
  · intro member
    obtain ⟨source, waits, rfl⟩ := List.mem_map.mp member
    exact ⟨rfl, waits, rfl⟩
  · rintro ⟨target, waits, plain⟩
    refine List.mem_map.mpr ⟨e.source, waits, ?_⟩
    rw [Sketch.plainEdge, ← target, ← plain]

theorem eq_of_same_id (placed : List Placed) (unique : (placed.map Placed.id).Nodup) (p q : Placed)
    (first : p ∈ placed) (second : q ∈ placed) (same : p.id = q.id) : p = q :=
  List.inj_on_of_nodup_map unique first second same

theorem dependencies_of_placed (placed : List Placed) (ordered : List Edge)
    (unique : (placed.map Placed.id).Nodup) (kept : ∀ e, e ∈ ordered ↔ e ∈ placed.flatMap Placed.edges) (p : Placed)
    (member : p ∈ placed) (bare : p.Bare) :
    Draft.dependenciesOf ordered p.node = canonicalDependencies p.sources := by
  apply canonical_dependencies_of_same_members
  intro id
  simp only [bare.waitless, Option.getD_none, List.nil_append, List.mem_map, List.mem_filter, kept,
    List.mem_flatMap, mem_edges, decide_eq_true_eq]
  constructor
  · rintro ⟨e, ⟨⟨q, inside, target, waits, _⟩, here⟩, rfl⟩
    obtain rfl := eq_of_same_id placed unique q p inside member (target.symm.trans here)
    exact waits
  · intro waits
    exact ⟨⟨id, p.id, none⟩, ⟨⟨p, member, rfl, waits, rfl⟩, rfl⟩, rfl⟩

theorem settle_eq_settled (placed : List Placed) (ordered : List Edge)
    (unique : (placed.map Placed.id).Nodup) (kept : ∀ e, e ∈ ordered ↔ e ∈ placed.flatMap Placed.edges) (p : Placed)
    (member : p ∈ placed) (bare : p.Bare) : Draft.settle ordered p.node = p.settled := by
  rw [Draft.settle, dependencies_of_placed placed ordered unique kept p member bare]
  rfl

-- The position among the ids serves as the rank that excludes cycles.
theorem position_above_sources (placed : List Placed) (unique : (placed.map Placed.id).Nodup) (laid : Laid [] placed)
    (p : Placed) (member : p ∈ placed) (source : Text) (waits : source ∈ p.sources) :
    (placed.map Placed.id).idxOf source < (placed.map Placed.id).idxOf p.id := by
  obtain ⟨before, after, rfl⟩ := List.append_of_mem member
  have earlier : source ∈ before.map Placed.id := by
    simpa using laid_sources_before [] before after p laid source waits
  rw [List.map_append, List.map_cons] at unique ⊢
  exact position_before _ _ p.id source unique earlier

theorem settled_waits (p : Placed) (id : Text) : id ∈ p.settled.dependsOn.getD [] ↔ id ∈ p.sources := by
  by_cases empty : canonicalDependencies p.sources = []
  · simp only [settled, empty]
    simp [(canonical_dependencies_eq_nil p.sources).mp empty]
  · simp [settled, empty, mem_canonical_dependencies]

end Placed

namespace Draft

structure Lists (d : Draft) (placed : List Placed) (output : OutputRef) : Prop where
  nodes : d.nodes = placed.map Placed.node
  edges : d.edges = placed.flatMap Placed.edges
  outputs : d.outputs = [output]
  answered : output.source ∈ placed.map Placed.id
  bare : ∀ p ∈ placed, p.Bare
  unique : (placed.map Placed.id).Nodup
  laid : Laid [] placed

section

variable (d : Draft) (placed : List Placed) (output : OutputRef) (ordered : List Edge) (lists : d.Lists placed output)
  (kept : ∀ e, e ∈ ordered ↔ e ∈ d.edges)

include lists

theorem listed_ids : d.nodes.map Node.id = placed.map Placed.id := by
  rw [lists.nodes, List.map_map]
  rfl

theorem listed_edges_plain : ∀ e ∈ d.edges, e.condition = none := by
  intro e member
  rw [lists.edges] at member
  obtain ⟨p, _, inside⟩ := List.mem_flatMap.mp member
  exact ((p.mem_edges e).mp inside).2.2

include kept

theorem listed_edge_checked (e : Edge) (member : e ∈ ordered) : checkEdge (d.nodes.map Node.id) e = .ok () := by
  rw [d.listed_ids placed output lists, check_edge_eq_ok]
  rw [kept, lists.edges] at member
  obtain ⟨p, inside, found⟩ := List.mem_flatMap.mp member
  obtain ⟨target, waits, _⟩ := (p.mem_edges e).mp found
  have above := Placed.position_above_sources placed lists.unique lists.laid p inside e.source waits
  have known : p.id ∈ placed.map Placed.id := List.mem_map.mpr ⟨p, inside, rfl⟩
  have bound := List.idxOf_lt_length_iff.mpr known
  refine ⟨target ▸ known, List.idxOf_lt_length_iff.mp (Nat.lt_trans above bound), fun same => ?_⟩
  rw [same, target] at above
  exact Nat.lt_irrefl _ above

theorem listed_acyclic : (Draft.dependencies d.nodes ordered).findCycle? = none := by
  refine Dependencies.find_cycle_ranked _ (placed.map Placed.id).idxOf fun entry member dependency waits => ?_
  obtain ⟨node, inside, rfl⟩ := List.mem_map.mp member
  rw [lists.nodes] at inside
  obtain ⟨p, given, rfl⟩ := List.mem_map.mp inside
  dsimp only at waits
  rw [lists.edges] at kept
  rw [Placed.dependencies_of_placed placed ordered lists.unique kept p given (lists.bare p given),
    mem_canonical_dependencies] at waits
  exact Placed.position_above_sources placed lists.unique lists.laid p given dependency waits

theorem listed_buildable (bound : Option Int) (inOrder : Edge.canonicalOrder d.edges = .ok ordered)
    (parallel : checkParallelism d.maxParallelism = .valid bound) : d.Buildable ordered bound where
  nonempty := by
    rw [lists.nodes]
    intro empty
    have answered := lists.answered
    rw [List.map_eq_nil_iff.mp empty] at answered
    cases answered
  distinct := by
    rw [d.listed_ids placed output lists]
    exact lists.unique
  inOrder := inOrder
  dependencies := by
    intro node member
    rw [lists.nodes] at member
    obtain ⟨p, inside, rfl⟩ := List.mem_map.mp member
    rw [checkDependencies, (lists.bare p inside).waitless]
    rfl
  edges := d.listed_edge_checked placed output ordered lists kept
  answered := by simp [lists.outputs]
  outputs := by
    intro other member
    rw [lists.outputs] at member
    obtain rfl := List.mem_singleton.mp member
    rw [d.listed_ids placed other lists]
    exact (check_output_eq_ok _ _).mpr lists.answered
  nodes := by
    intro node member
    rw [lists.nodes] at member
    obtain ⟨p, inside, rfl⟩ := List.mem_map.mp member
    exact (lists.bare p inside).checked _
  acyclic := d.listed_acyclic placed output ordered lists kept
  parallel := parallel

theorem listed_assembled (bound : Option Int) :
    d.assembled ordered bound =
      ⟨trimmedName d.name, d.model, bound, placed.map Placed.settled, [], [output]⟩ := by
  have plain := d.listed_edges_plain placed output lists
  have no_edges : ordered.filter (fun e => e.condition.isSome) = [] := by
    rw [List.filter_eq_nil_iff]
    intro e member
    simp [plain e ((kept e).mp member)]
  have settled : d.nodes.map (settle ordered) = placed.map Placed.settled := by
    rw [lists.edges] at kept
    rw [lists.nodes, List.map_map]
    exact List.map_congr_left fun p inside =>
      Placed.settle_eq_settled placed ordered lists.unique kept p inside (lists.bare p inside)
  rw [assembled, no_edges, settled, lists.outputs]
  rfl

omit kept

theorem listed_build_eq_ok (spec : Spec) :
    d.build = .ok spec ↔ ∃ bound, checkParallelism d.maxParallelism = .valid bound ∧
      spec = ⟨trimmedName d.name, d.model, bound, placed.map Placed.settled, [], [output]⟩ := by
  obtain ⟨ordered, inOrder, kept⟩ := Edge.plain_order d.edges (d.listed_edges_plain placed output lists)
  rw [build_eq_ok]
  constructor
  · rintro ⟨other, bound, fits, rfl⟩
    obtain rfl : ordered = other := Except.ok.inj (inOrder.symm.trans fits.inOrder)
    exact ⟨bound, fits.parallel, d.listed_assembled placed output ordered lists kept bound⟩
  · rintro ⟨bound, parallel, rfl⟩
    exact ⟨ordered, bound, d.listed_buildable placed output ordered lists kept bound inOrder parallel,
      (d.listed_assembled placed output ordered lists kept bound).symm⟩

end

end Draft

end PlanFlow
