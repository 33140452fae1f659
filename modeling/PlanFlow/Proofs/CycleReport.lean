import PlanFlow.Proofs.Building
import PlanFlow.Proofs.EdgeSearch
import PlanFlow.Proofs.Order

/-!
What the check for cycles reports. It refuses exactly the relations in which some node waits for itself, and what it names
is a cycle. It answers as a test and a search do, one after the other: the nodes are put in order, and if they have none,
a cycle is searched edge by edge.
-/

set_option autoImplicit false

namespace PlanFlow

namespace Dependencies

variable (relation : Dependencies)

theorem check_acyclic_error_iff (failure : Failure) : Draft.checkAcyclic relation = .error failure ↔
    ∃ cycle, relation.findCycle? = some cycle ∧ failure = .rejected (.cycle cycle) := by
  cases found : relation.findCycle? with
  | none => simp [Draft.checkAcyclic, found]
  | some cycle => simp [Draft.checkAcyclic, found, Outcome.reject, eq_comm]

theorem chain_known (first : Text) (others : List Text)
    (chain : (first :: others).IsChain fun node next => relation.Waits next node) : ∀ node ∈ others, node ∈ relation.nodes := by
  induction others generalizing first with
  | nil => exact nofun
  | cons next others ih =>
      obtain ⟨waits, rest⟩ := List.isChain_cons_cons.mp chain
      exact List.forall_mem_cons.mpr ⟨relation.waiting_known next first waits, ih next rest⟩

theorem genuine_known (first : Text) (others : List Text) (genuine : relation.Genuine (first :: others)) :
    ∀ node ∈ first :: others, node ∈ relation.nodes := by
  obtain ⟨head, starts, last, _, waits⟩ := genuine.closed
  obtain rfl : first = head := Option.some.inj starts
  exact List.forall_mem_cons.mpr ⟨relation.waiting_known first last waits, relation.chain_known first others genuine.chain⟩

structure Reported (error : CompileError) (first : Text) (others : List Text) : Prop where
  genuine : relation.Genuine (first :: others)
  known : ∀ node ∈ first :: others, node ∈ relation.nodes
  context : error.context = [(("cycle" : Text), .texts (first :: others))]
  message : error.message = Text.concat ["dependency cycle: ", Text.join " -> " (first :: others ++ [first])]

theorem find_cycle_reported (cycle : List Text) (found : relation.findCycle? = some cycle) :
    ∃ first others, relation.Reported (.cycle cycle) first others := by
  have genuine := relation.find_cycle_genuine cycle found
  cases cycle with
  | nil =>
      obtain ⟨_, starts, _⟩ := genuine.closed
      cases starts
  | cons first others => exact ⟨first, others, genuine, relation.genuine_known first others genuine, rfl, rfl⟩

theorem find_cycle_some_iff : (∃ cycle, relation.findCycle? = some cycle) ↔
    ∃ node, Relation.TransGen relation.Waits node node := by
  rw [← Option.isSome_iff_exists, Option.isSome_iff_ne_none, Ne, relation.find_cycle_eq_none]
  push Not
  rfl

theorem order_eq_none : relation.order? = none ↔ ∃ node, Relation.TransGen relation.Waits node node := by
  rw [Option.eq_none_iff_forall_ne_some, ← not_exists, relation.order_iff]
  push Not
  rfl

end Dependencies

theorem check_acyclic_reports (relation : Dependencies) :
    ((∃ failure, Draft.checkAcyclic relation = .error failure) ↔ ∃ node, Relation.TransGen relation.Waits node node) ∧
      (∀ failure, Draft.checkAcyclic relation = .error failure →
        ∃ error first others, failure = .rejected error ∧ relation.Reported error first others) ∧
      (∀ order, relation.order? = some order → relation.edgeCycle? = none ∧ Draft.checkAcyclic relation = .ok ()) ∧
      (relation.order? = none → ∃ cycle, relation.edgeCycle? = some cycle ∧
        Draft.checkAcyclic relation = .error (.rejected (.cycle cycle))) := by
  simp only [relation.check_acyclic_error_iff, relation.edge_cycle_eq]
  refine ⟨?raises, ?reports, ?ordered, ?unordered⟩
  case raises =>
    rw [← relation.find_cycle_some_iff]
    exact ⟨fun ⟨_, cycle, found, _⟩ => ⟨cycle, found⟩, fun ⟨cycle, found⟩ => ⟨_, cycle, found, rfl⟩⟩
  case reports =>
    rintro failure ⟨cycle, found, rfl⟩
    obtain ⟨first, others, reported⟩ := relation.find_cycle_reported cycle found
    exact ⟨_, first, others, rfl, reported⟩
  case ordered =>
    intro order found
    have acyclic := relation.find_cycle_eq_none.mpr (relation.order_iff.mp ⟨order, found⟩)
    exact ⟨acyclic, by rw [Draft.checkAcyclic, acyclic]⟩
  case unordered =>
    intro stuck
    obtain ⟨cycle, found⟩ := relation.find_cycle_some_iff.mpr (relation.order_eq_none.mp stuck)
    exact ⟨cycle, found, cycle, found, rfl⟩

namespace Sample

def ring : Dependencies := [("plan", ["review"]), ("draft", ["plan"]), ("review", ["draft"]), ("print", [])]

end Sample

theorem sample_ring_reported : Draft.checkAcyclic Sample.ring = .error (.rejected (.cycle ["draft", "review", "plan"])) ∧
    ∃ error first others, Failure.rejected (.cycle ["draft", "review", "plan"]) = .rejected error ∧
      Sample.ring.Reported error first others := by
  have stopped : Draft.checkAcyclic Sample.ring = .error (.rejected (.cycle ["draft", "review", "plan"])) := rfl
  exact ⟨stopped, (check_acyclic_reports Sample.ring).2.1 _ stopped⟩

end PlanFlow
