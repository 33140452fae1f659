import PlanFlow.Proofs.Cycle
import PlanFlow.Proofs.Outcome
import PlanFlow.Proofs.Sorted

/-!
The search for cycles finds one exactly if there is one. What it finds is a path that leads back to where it
starts; when it finds none, every node has been finished after all that wait for it.
-/

set_option autoImplicit false

namespace PlanFlow

namespace Dependencies

variable (relation : Dependencies)

def Waits (node dependency : Text) : Prop := ∃ entry ∈ relation, entry.1 = node ∧ dependency ∈ entry.2

theorem waiting_known (node dependency : Text) (waits : relation.Waits node dependency) : node ∈ relation.map Prod.fst := by
  obtain ⟨entry, given, rfl, _⟩ := waits
  exact List.mem_map_of_mem given

theorem mem_dependents (node dependent : Text) : dependent ∈ relation.dependents node ↔ relation.Waits dependent node := by
  simp only [dependents, List.mem_map, List.mem_filter, List.contains_iff_mem, Waits]
  constructor
  · rintro ⟨entry, ⟨given, waits⟩, named⟩
    exact ⟨entry, given, named, waits⟩
  · rintro ⟨entry, given, named, waits⟩
    exact ⟨entry, ⟨given, waits⟩, named⟩

structure Genuine (cycle : List Text) : Prop where
  chain : cycle.IsChain fun node next => relation.Waits next node
  closed : ∃ first ∈ cycle.head?, ∃ last ∈ cycle.getLast?, relation.Waits first last
  distinct : cycle.Nodup

theorem genuine_cycle (cycle : List Text) (genuine : relation.Genuine cycle) :
    ∃ node, Relation.TransGen relation.Waits node node := by
  obtain ⟨first, starts, last, ends, waits⟩ := genuine.closed
  have nonempty : cycle ≠ [] := by
    rintro rfl
    cases starts
  have along := List.relationReflTransGen_of_exists_isChain cycle genuine.chain nonempty
  have head : cycle.head nonempty = first := by
    rw [List.head?_eq_some_head nonempty] at starts
    exact Option.some.inj starts
  have tail : cycle.getLast nonempty = last := by
    rw [List.getLast?_eq_some_getLast nonempty] at ends
    exact Option.some.inj ends
  rw [head, tail] at along
  exact ⟨first, Relation.TransGen.head' waits (Relation.reflTransGen_swap.mp along)⟩

theorem closed_by_reverse (node : Text) (path : List Text) :
    closedBy node path = (path.takeWhile (fun other => other ≠ node) ++ [node]).reverse := by
  simp [closedBy]

theorem closed_genuine (node : Text) (path : List Text) (member : node ∈ path) (distinct : path.Nodup)
    (chain : (node :: path).IsChain relation.Waits) : relation.Genuine (closedBy node path) := by
  obtain ⟨inner, outer, rfl, fresh⟩ := List.eq_append_cons_of_mem member
  have kept : (inner ++ node :: outer).takeWhile (fun other => other ≠ node) = inner := by
    rw [List.takeWhile_append_of_pos]
    · simp
    · exact fun other inside => by simpa using fun same : other = node => fresh (same ▸ inside)
  have looped : inner ++ [node] <:+: node :: (inner ++ node :: outer) := ⟨[node], outer, by simp⟩
  have linked := List.IsChain.infix chain looped
  rw [closed_by_reverse, kept]
  refine ⟨List.isChain_reverse.mpr linked, ?_, ?_⟩
  · cases inner with
    | nil => exact ⟨node, rfl, node, rfl, (List.isChain_cons_cons.mp chain).1⟩
    | cons first rest => exact ⟨node, by simp, first, by rw [List.getLast?_reverse]; rfl, (List.isChain_cons_cons.mp chain).1⟩
  · rw [List.nodup_reverse]
    exact distinct.sublist (List.Sublist.append_left (List.singleton_sublist.mpr List.mem_cons_self) inner)

-- The path in front of a node that is visited is a chain of nodes, each waiting for the one behind it.
theorem visit_error (fuel : Nat) (path finished : List Text) (node : Text) (cycle : List Text) (distinct : path.Nodup)
    (chain : (node :: path).IsChain relation.Waits) (failed : visit relation fuel path finished node = .error cycle) :
    relation.Genuine cycle := by
  induction fuel generalizing path finished node with
  | zero => cases failed
  | succ fuel ih =>
      by_cases met : node ∈ path
      · simp only [visit, List.contains_iff_mem, met, if_true, Except.error.injEq] at failed
        exact failed ▸ relation.closed_genuine node path met distinct chain
      · by_cases done : node ∈ finished
        · simp [visit, met, done] at failed
        · cases searched : (relation.dependents node).foldlM (visit relation fuel (node :: path)) finished with
          | ok answer => simp [visit, met, done, searched] at failed
          | error found =>
              obtain rfl : found = cycle := by simpa [visit, met, done, searched] using failed
              obtain ⟨state, dependent, member, stopped⟩ := fold_m_error _ _ _ _ searched
              have waits := (relation.mem_dependents node dependent).mp member
              exact ih (node :: path) state dependent (List.nodup_cons.mpr ⟨met, distinct⟩)
                (List.isChain_cons_cons.mpr ⟨waits, chain⟩) stopped

theorem find_cycle_genuine (cycle : List Text) (found : relation.findCycle? = some cycle) : relation.Genuine cycle := by
  cases searched : (sortOn id (relation.map Prod.fst)).foldlM
      (visit relation ((sortOn id (relation.map Prod.fst)).length + 1) []) [] with
  | ok finished => simp [findCycle?, searched] at found
  | error other =>
      obtain rfl : other = cycle := by simpa [findCycle?, searched] using found
      obtain ⟨state, node, _, stopped⟩ := fold_m_error _ _ _ _ searched
      exact relation.visit_error _ [] state node other List.nodup_nil (List.isChain_singleton node) stopped

-- Nodes in the order in which they were finished, the last one first: all that wait for a node stand behind it.
inductive Settled : List Text → Prop where
  | nil : Settled []
  | cons (node : Text) (finished : List Text) (behind : ∀ dependent ∈ relation.dependents node, dependent ∈ finished)
      (rest : Settled finished) : Settled (node :: finished)

theorem settled_acc (finished : List Text) (settled : relation.Settled finished) :
    ∀ node ∈ finished, Acc relation.Waits node := by
  induction settled with
  | nil => exact nofun
  | cons node finished behind rest ih =>
      have own : Acc relation.Waits node :=
        ⟨node, fun dependent waits => ih dependent (behind dependent ((relation.mem_dependents node dependent).mpr waits))⟩
      exact List.forall_mem_cons.mpr ⟨own, ih⟩

theorem acc_irreflexive {α : Type} (r : α → α → Prop) (x : α) (accessible : Acc r x) : ¬ r x x := by
  induction accessible with
  | intro x _ ih => exact fun loop => ih x loop loop

theorem settled_acyclic (finished : List Text) (settled : relation.Settled finished) (node : Text)
    (member : node ∈ finished) : ¬ Relation.TransGen relation.Waits node node :=
  acc_irreflexive _ node (relation.settled_acc finished settled node member).transGen

structure Finishes (finished : List Text) (nodes answer : List Text) : Prop where
  settled : relation.Settled answer
  kept : ∀ node ∈ finished, node ∈ answer
  reached : ∀ node ∈ nodes, node ∈ answer

theorem fold_finishes (visited : List Text → Text → Except (List Text) (List Text)) (nodes finished answer : List Text)
    (each : ∀ node ∈ nodes, ∀ finished answer, relation.Settled finished → visited finished node = .ok answer →
      relation.Finishes finished [node] answer)
    (settled : relation.Settled finished) (searched : nodes.foldlM visited finished = .ok answer) :
    relation.Finishes finished nodes answer := by
  induction nodes generalizing finished with
  | nil =>
      obtain rfl : finished = answer := Except.ok.inj searched
      exact ⟨settled, fun _ member => member, nofun⟩
  | cons head tail ih =>
      rw [List.foldlM_cons] at searched
      obtain ⟨next, first, rest⟩ := (bind_eq_ok _ _ _).mp searched
      have here := each head List.mem_cons_self finished next settled first
      have later := ih next (fun node member => each node (List.mem_cons_of_mem head member)) here.settled rest
      refine ⟨later.settled, fun node member => later.kept node (here.kept node member), ?_⟩
      exact List.forall_mem_cons.mpr ⟨later.kept head (here.reached head List.mem_cons_self), later.reached⟩

-- The fuel never runs out: a path without repetitions is no longer than there are nodes.
theorem visit_finishes (nodes : List Text) (closed : ∀ node dependent, relation.Waits dependent node → dependent ∈ nodes)
    (fuel : Nat) (path finished : List Text) (node : Text) (answer : List Text) (inside : ∀ other ∈ node :: path, other ∈ nodes)
    (distinct : path.Nodup) (enough : nodes.length < fuel + path.length) (settled : relation.Settled finished)
    (searched : visit relation fuel path finished node = .ok answer) : relation.Finishes finished [node] answer := by
  induction fuel generalizing path finished node answer with
  | zero =>
      have short := (distinct.subperm fun other member => inside other (List.mem_cons_of_mem node member)).length_le
      omega
  | succ fuel ih =>
      by_cases met : node ∈ path
      · simp [visit, met] at searched
      · by_cases done : node ∈ finished
        · obtain rfl : finished = answer := by simpa [visit, met, done] using searched
          exact ⟨settled, fun _ member => member, by simpa using done⟩
        · cases explored : (relation.dependents node).foldlM (visit relation fuel (node :: path)) finished with
          | error cycle => simp [visit, met, done, explored] at searched
          | ok next =>
              obtain rfl : node :: next = answer := by simpa [visit, met, done, explored] using searched
              have below := relation.fold_finishes _ _ finished next (fun dependent member state answer given found => by
                have known := closed node dependent ((relation.mem_dependents node dependent).mp member)
                refine ih (node :: path) state dependent answer (List.forall_mem_cons.mpr ⟨known, inside⟩)
                  (List.nodup_cons.mpr ⟨met, distinct⟩) ?_ given found
                rw [List.length_cons]
                omega) settled explored
              exact ⟨.cons node next below.reached below.settled, fun other member =>
                List.mem_cons_of_mem node (below.kept other member), by simp⟩

theorem find_cycle_eq_none : relation.findCycle? = none ↔ ∀ node, ¬ Relation.TransGen relation.Waits node node := by
  constructor
  · intro none_found node loop
    cases searched : (sortOn id (relation.map Prod.fst)).foldlM
        (visit relation ((sortOn id (relation.map Prod.fst)).length + 1) []) [] with
    | error cycle => simp [findCycle?, searched] at none_found
    | ok finished =>
        have known : ∀ waiting dependency, relation.Waits waiting dependency →
            waiting ∈ sortOn id (relation.map Prod.fst) := fun waiting dependency waits =>
          (mem_sort_on _ _ _).mpr (relation.waiting_known waiting dependency waits)
        have all := relation.fold_finishes _ _ [] finished (fun start member state answer given found =>
          relation.visit_finishes _ (fun node dependent waits => known dependent node waits) _ [] state start answer
            (by simpa using member) List.nodup_nil (by simp) given found) .nil searched
        obtain ⟨dependency, waits, _⟩ := Relation.TransGen.head'_iff.mp loop
        exact relation.settled_acyclic finished all.settled node (all.reached node (known node dependency waits)) loop
  · intro acyclic
    cases found : relation.findCycle? with
    | none => rfl
    | some cycle =>
        obtain ⟨node, loop⟩ := relation.genuine_cycle cycle (relation.find_cycle_genuine cycle found)
        exact absurd loop (acyclic node)

end Dependencies

end PlanFlow
