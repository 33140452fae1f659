import PlanFlow.Graph.Order
import PlanFlow.Proofs.Acyclic

/-!
There is an order of the nodes exactly if none waits for itself. In it every node stands once, behind all that it
waits for.
-/

set_option autoImplicit false

namespace PlanFlow

namespace Dependencies

variable (relation : Dependencies)

structure Ordered (order : List Text) : Prop where
  all : order.Perm relation.nodes
  behind : ∀ before node after, order = before ++ node :: after →
    ∀ dependency, relation.Waits node dependency → dependency ∈ relation.nodes → dependency ∈ before

theorem is_held_iff (entry : Text × List Text) :
    relation.isHeld entry = true ↔ ∃ dependency ∈ entry.2, dependency ∈ relation.nodes := by
  simp [isHeld]

theorem held_waits (node dependency : Text) (waits : relation.Waits node dependency) (known : dependency ∈ relation.nodes) :
    relation.held.Waits node dependency := by
  obtain ⟨entry, given, named, member⟩ := waits
  exact ⟨entry, List.mem_filter.mpr ⟨given, (relation.is_held_iff entry).mpr ⟨dependency, member, known⟩⟩, named, member⟩

theorem waits_of_held (node dependency : Text) (waits : relation.held.Waits node dependency) :
    relation.Waits node dependency := by
  obtain ⟨entry, given, rest⟩ := waits
  exact ⟨entry, (List.mem_filter.mp given).1, rest⟩

theorem held_reaches (node dependency : Text) (reaches : Relation.TransGen relation.Waits node dependency)
    (known : dependency ∈ relation.nodes) : Relation.TransGen relation.held.Waits node dependency := by
  induction reaches with
  | single waits => exact .single (relation.held_waits _ _ waits known)
  | tail _ waits ih => exact .tail (ih (relation.waiting_known _ _ waits)) (relation.held_waits _ _ waits known)

theorem held_loop (node : Text) :
    Relation.TransGen relation.held.Waits node node ↔ Relation.TransGen relation.Waits node node := by
  constructor
  · exact Relation.TransGen.mono relation.waits_of_held node node
  · intro loop
    obtain ⟨dependency, waits, _⟩ := Relation.TransGen.head'_iff.mp loop
    exact relation.held_reaches node node loop (relation.waiting_known node dependency waits)

theorem stuck_loop (some_left : relation ≠ []) (stuck : ∀ entry ∈ relation, relation.isHeld entry = true) :
    ∃ node, Relation.TransGen relation.Waits node node := by
  by_contra acyclic
  have strict : IsStrictOrder Text fun a b => Relation.TransGen relation.Waits b a := {
    irrefl := fun node loop => acyclic ⟨node, loop⟩
    trans := fun _ _ _ first second => second.trans first }
  have founded := relation.nodes.toFinset.finite_toSet.wellFoundedOn (r := fun a b => Relation.TransGen relation.Waits b a)
  obtain ⟨first, given⟩ := List.exists_mem_of_ne_nil relation some_left
  have start : first.1 ∈ relation.nodes.toFinset := List.mem_toFinset.mpr (List.mem_map_of_mem given)
  refine founded.induction start (P := fun _ => False) fun node member below => ?_
  obtain ⟨entry, held, rfl⟩ := List.mem_map.mp (List.mem_toFinset.mp member)
  obtain ⟨dependency, waits, known⟩ := (relation.is_held_iff entry).mp (stuck entry held)
  exact below dependency (List.mem_toFinset.mpr known) (.single ⟨entry, held, rfl, waits⟩)

theorem order_iff : (∃ order, relation.order? = some order) ↔ ∀ node, ¬ Relation.TransGen relation.Waits node node := by
  fun_induction order? relation with
  | case1 relation fewer ih =>
      simp only [Option.map_eq_some_iff, exists_comm (α := List Text), exists_and_left, exists_eq', and_true]
      simpa only [relation.held_loop] using ih
  | case2 relation all empty =>
      obtain rfl := List.isEmpty_iff.mp empty
      refine ⟨fun _ node loop => ?_, fun _ => ⟨[], rfl⟩⟩
      obtain ⟨_, ⟨_, given, _⟩, _⟩ := Relation.TransGen.head'_iff.mp loop
      cases given
  | case3 relation all nonempty =>
      have stuck := List.length_filter_eq_length_iff.mp (Nat.le_antisymm (List.length_filter_le _ _) (Nat.not_lt.mp all))
      have loop := relation.stuck_loop (by simpa using nonempty) stuck
      simpa using loop

theorem taken_perm : (relation.free.nodes ++ relation.held.nodes).Perm relation.nodes := by
  have parts := List.filter_append_perm (fun entry => !relation.isHeld entry) relation
  simp only [Bool.not_not] at parts
  rw [nodes, nodes, ← List.map_append]
  exact parts.map Prod.fst

theorem free_waits (apart : relation.nodes.Nodup) (node : Text) (taken : node ∈ relation.free.nodes) (dependency : Text)
    (waits : relation.Waits node dependency) : dependency ∉ relation.nodes := by
  intro known
  obtain ⟨entry, held, rfl, _⟩ := relation.held_waits node dependency waits known
  obtain ⟨_, _, disjoint⟩ := List.nodup_append.mp (relation.taken_perm.nodup_iff.mpr apart)
  exact disjoint _ taken _ (List.mem_map_of_mem held) rfl

theorem taken_first (order : List Text) (apart : relation.nodes.Nodup) (ordered : relation.held.Ordered order) :
    relation.Ordered (relation.free.nodes ++ order) := by
  refine ⟨(ordered.all.append_left _).trans relation.taken_perm, fun before node after split dependency waits known => ?_⟩
  have later : node ∉ relation.free.nodes := fun taken => relation.free_waits apart node taken dependency waits known
  obtain ⟨between, rfl, rest⟩ : ∃ between, before = relation.free.nodes ++ between ∧ order = between ++ node :: after := by
    rcases List.append_eq_append_iff.mp split with behind | ⟨between, taken, rest⟩
    · exact behind
    · cases between with
      | nil => exact ⟨[], by simpa using taken.symm, by simpa using rest.symm⟩
      | cons first others =>
          obtain ⟨rfl, _⟩ := List.cons_eq_cons.mp rest
          exact absurd (taken ▸ List.mem_append_right before List.mem_cons_self) later
  rcases List.mem_append.mp (relation.taken_perm.mem_iff.mpr known) with first | held
  · exact List.mem_append_left between first
  · exact List.mem_append_right _
      (ordered.behind between node after rest dependency (relation.held_waits node dependency waits known) held)

theorem order_ordered (order : List Text) (apart : relation.nodes.Nodup) (found : relation.order? = some order) :
    relation.Ordered order := by
  fun_induction order? relation generalizing order with
  | case1 relation fewer ih =>
      obtain ⟨rest, later, rfl⟩ := Option.map_eq_some_iff.mp found
      have sub : relation.held.nodes.Sublist relation.nodes := List.Sublist.map Prod.fst List.filter_sublist
      exact relation.taken_first rest apart (ih rest (apart.sublist sub) later)
  | case2 relation all empty =>
      obtain rfl := List.isEmpty_iff.mp empty
      obtain rfl := Option.some.inj found
      exact ⟨.nil, fun before node after split => by simp at split⟩
  | case3 relation all nonempty => cases found

end Dependencies

end PlanFlow
