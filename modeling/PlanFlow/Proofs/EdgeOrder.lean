import PlanFlow.Proofs.Building
import PlanFlow.Proofs.RoundTrip

/-!
Edges are told apart by their keys alone. Lists of edges with the same keys, whatever their order, their repetitions and
the numbers that stand for each other in their conditions, are built with the same outcome, and the canonical text of
what is built is the same.
-/

set_option autoImplicit false

namespace PlanFlow

open Json (ofList)

namespace Edge

def Same (e other : Edge) : Prop := ∃ key, e.sortKey = .ok key ∧ other.sortKey = .ok key

def ends (e : Edge) : Edge := { e with condition := none }

theorem ends_of_same (e other : Edge) (same : e.Same other) : e.ends = other.ends := by
  obtain ⟨key, first, second⟩ := same
  obtain ⟨source, target⟩ := same_ends e other key first second
  rw [ends, ends, source, target]

theorem condition_text_eq_ok (e : Edge) (c : Condition) (given : e.condition = some c) (text : Text) :
    e.conditionText = .ok text ↔
      Freeform.firstObstacle? c.freeform = none ∧ Json.Canonical.write (c.toJson .dropped) = .ok text := by
  simp only [conditionText, given]
  exact Outcome.canonical_eq_ok c.freeform (c.toJson .dropped) text

-- The text of a condition is that of an object, so it is never mistaken for that of no condition.
theorem condition_of_same (e other : Edge) (same : e.Same other) (c : Condition) (given : e.condition = some c) :
    ∃ d, other.condition = some d ∧ Freeform.firstObstacle? c.freeform = none ∧ Freeform.firstObstacle? d.freeform = none ∧
      Json.Canonical.write (c.toJson .dropped) = Json.Canonical.write (d.toJson .dropped) := by
  obtain ⟨key, first, second⟩ := same
  obtain ⟨text, own, rfl⟩ := (e.sort_key_eq_ok key).mp first
  obtain ⟨_, theirs, keys⟩ := (other.sort_key_eq_ok _).mp second
  obtain ⟨_, _, rfl⟩ : other.source = e.source ∧ other.target = e.target ∧ _ = text := by simpa using keys
  obtain ⟨clear, written⟩ := (e.condition_text_eq_ok c given _).mp own
  cases condition : other.condition with
  | none =>
      obtain ⟨parts, _, object⟩ := Json.write_object _ _ written
      rw [conditionText, condition, object] at theirs
      cases theirs
  | some d =>
      obtain ⟨free, matching⟩ := (other.condition_text_eq_ok d condition _).mp theirs
      exact ⟨d, rfl, clear, free, written.trans matching.symm⟩

theorem same_symm (e other : Edge) (same : e.Same other) : other.Same e := by
  obtain ⟨key, first, second⟩ := same
  exact ⟨key, second, first⟩

theorem conditional_of_same (e other : Edge) (same : e.Same other) : e.condition.isSome = other.condition.isSome := by
  rw [Bool.eq_iff_iff, Option.isSome_iff_exists, Option.isSome_iff_exists]
  constructor
  · rintro ⟨c, given⟩
    obtain ⟨d, condition, _⟩ := condition_of_same e other same c given
    exact ⟨d, condition⟩
  · rintro ⟨d, given⟩
    obtain ⟨c, condition, _⟩ := condition_of_same other e (same_symm e other same) d given
    exact ⟨c, condition⟩

theorem mem_keys (edges : List Edge) (keyed : List (List Text × Edge)) (given : withKeys edges = .ok keyed) (key : List Text) :
    key ∈ keyed.map Prod.fst ↔ ∃ e ∈ edges, e.sortKey = .ok key := by
  obtain ⟨rfl, keys⟩ := (with_keys_eq_ok edges keyed).mp given
  constructor
  · intro member
    obtain ⟨entry, inside, rfl⟩ := List.mem_map.mp member
    exact ⟨entry.2, List.mem_map_of_mem inside, keys entry inside⟩
  · rintro ⟨e, member, own⟩
    obtain ⟨entry, inside, rfl⟩ := List.mem_map.mp member
    obtain rfl : entry.1 = key := Except.ok.inj ((keys entry inside).symm.trans own)
    exact List.mem_map_of_mem inside

theorem ordered_same (a b orderedA orderedB : List Edge)
    (same : ∀ key, (∃ e ∈ a, e.sortKey = .ok key) ↔ ∃ e ∈ b, e.sortKey = .ok key)
    (first : canonicalOrder a = .ok orderedA) (second : canonicalOrder b = .ok orderedB) :
    List.Forall₂ Same orderedA orderedB := by
  obtain ⟨keyedA, givenA, rfl⟩ := (canonical_order_eq_ok a orderedA).mp first
  obtain ⟨keyedB, givenB, rfl⟩ := (canonical_order_eq_ok b orderedB).mp second
  have keysA := ((with_keys_eq_ok a keyedA).mp givenA).2
  have keysB := ((with_keys_eq_ok b keyedB).mp givenB).2
  have keys : (uniqueOn Prod.fst keyedA).map Prod.fst = (uniqueOn Prod.fst keyedB).map Prod.fst := by
    rw [unique_keys, unique_keys]
    refine unique_eq_of_same_members _ _ fun key => ?_
    rw [mem_keys a keyedA givenA, mem_keys b keyedB givenB, same]
  rw [← List.forall₂_eq_eq_eq, List.forall₂_map_left_iff, List.forall₂_map_right_iff] at keys
  have left := (List.forall₂_and_left _ _).mpr ⟨fun entry chosen => keysA entry (mem_of_mem_unique _ _ _ chosen), keys⟩
  have both := (List.forall₂_and_left _ _).mpr ⟨fun entry chosen => keysB entry (mem_of_mem_unique _ _ _ chosen), left.flip⟩
  rw [List.forall₂_map_left_iff, List.forall₂_map_right_iff]
  refine both.flip.imp fun x y ⟨theirs, own, match_⟩ => ⟨x.1, own, ?_⟩
  rw [match_, theirs]

theorem written_same (e other : Edge) (same : e.Same other) :
    Json.Canonical.write (e.toJson .dropped) = Json.Canonical.write (other.toJson .dropped) := by
  have ends := e.ends_of_same other same
  obtain ⟨source, target⟩ : e.source = other.source ∧ e.target = other.target := by simpa [Edge.ends] using ends
  cases given : e.condition with
  | none =>
      have free : other.condition = none := by simpa [given] using (e.conditional_of_same other same).symm
      rw [Edge.toJson, Edge.toJson, given, free, source, target]
  | some c =>
      obtain ⟨d, condition, _, _, written⟩ := condition_of_same e other same c given
      rw [Edge.toJson, Edge.toJson, given, condition, source, target]
      exact Json.Canonical.write_obj_congr _ _
        (.cons ⟨rfl, rfl⟩ (.cons ⟨rfl, rfl⟩ (.cons ⟨rfl, written⟩ .nil)))

theorem freeform_of_same (e other : Edge) (same : e.Same other) : ∀ value ∈ e.freeform, value.obstacle? = none := by
  intro value member
  cases given : e.condition with
  | none => simp [Edge.freeform, given] at member
  | some c =>
      obtain ⟨_, _, clear, _⟩ := condition_of_same e other same c given
      rw [Edge.freeform, given, Option.toList_some, List.flatMap_singleton] at member
      exact (Freeform.first_obstacle_eq_none _).mp clear value member

theorem matching_clear (edges others : List Edge) (same : List.Forall₂ Same edges others) :
    ∀ e ∈ edges, ∀ value ∈ e.freeform, value.obstacle? = none := by
  induction same with
  | nil => exact nofun
  | cons first _ ih => exact List.forall_mem_cons.mpr ⟨freeform_of_same _ _ first, ih⟩

theorem matching_symm (edges others : List Edge) (same : List.Forall₂ Same edges others) :
    List.Forall₂ Same others edges :=
  (same.imp same_symm).flip

end Edge

namespace Draft

def withEdges (d : Draft) (edges : List Edge) : Draft := { d with edges := edges }

section

variable (orderedA orderedB : List Edge) (same : List.Forall₂ Edge.Same orderedA orderedB)

include same

theorem ends_same : orderedA.map Edge.ends = orderedB.map Edge.ends := by
  rw [← List.forall₂_eq_eq_eq, List.forall₂_map_left_iff, List.forall₂_map_right_iff]
  exact same.imp fun e other => e.ends_of_same other

theorem dependencies_of_same (node : Node) : dependenciesOf orderedA node = dependenciesOf orderedB node := by
  have sources (edges : List Edge) : (edges.filter fun e => e.target = node.id).map Edge.source =
      ((edges.map Edge.ends).filter fun e => e.target = node.id).map Edge.source := by
    rw [List.filter_map, List.map_map]
    rfl
  rw [dependenciesOf, dependenciesOf, sources orderedA, sources orderedB, ends_same orderedA orderedB same]

theorem edges_checked_same (ids : List Text) (checked : ∀ e ∈ orderedA, checkEdge ids e = .ok ()) :
    ∀ e ∈ orderedB, checkEdge ids e = .ok () := by
  intro other member
  have given : other.ends ∈ orderedA.map Edge.ends := by
    rw [ends_same orderedA orderedB same]
    exact List.mem_map_of_mem member
  obtain ⟨e, inside, ends⟩ := List.mem_map.mp given
  obtain ⟨source, target⟩ : e.source = other.source ∧ e.target = other.target := by simpa [Edge.ends] using ends
  have passed := (check_edge_eq_ok ids e).mp (checked e inside)
  rw [source, target] at passed
  exact (check_edge_eq_ok ids other).mpr passed

theorem kept_same : List.Forall₂ Edge.Same (orderedA.filter fun e => e.condition.isSome)
    (orderedB.filter fun e => e.condition.isSome) := by
  refine List.rel_filter (fun e other matching => ?_) same
  exact iff_of_eq (congrArg (· = true) (e.conditional_of_same other matching))

theorem buildable_same (d : Draft) (a b : List Edge) (bound : Option Int) (second : Edge.canonicalOrder b = .ok orderedB)
    (fits : (d.withEdges a).Buildable orderedA bound) : (d.withEdges b).Buildable orderedB bound where
  nonempty := fits.nonempty
  distinct := fits.distinct
  inOrder := second
  dependencies := fits.dependencies
  edges := edges_checked_same orderedA orderedB same _ fits.edges
  answered := fits.answered
  outputs := fits.outputs
  nodes := fits.nodes
  acyclic := by
    have relation : dependencies d.nodes orderedB = dependencies d.nodes orderedA :=
      List.map_congr_left fun node _ => by rw [dependencies_of_same orderedA orderedB same]
    exact relation ▸ fits.acyclic
  parallel := fits.parallel

theorem assembled_same (d : Draft) (a b : List Edge) (bound : Option Int) :
    (d.withEdges b).assembled orderedB bound =
      { (d.withEdges a).assembled orderedA bound with edges := orderedB.filter fun e => e.condition.isSome } := by
  have settled : settle orderedB = settle orderedA := by
    funext node
    rw [settle, settle, dependencies_of_same orderedA orderedB same]
  rw [assembled, assembled, settled]
  rfl

end

theorem built_in_order (d : Draft) (edges ordered : List Edge) (inOrder : Edge.canonicalOrder edges = .ok ordered) (s : Spec) :
    (d.withEdges edges).build = .ok s ↔
      ∃ bound, (d.withEdges edges).Buildable ordered bound ∧ s = (d.withEdges edges).assembled ordered bound := by
  rw [build_eq_ok]
  constructor
  · rintro ⟨other, bound, fits, built⟩
    obtain rfl : other = ordered := Except.ok.inj (fits.inOrder.symm.trans inOrder)
    exact ⟨bound, fits, built⟩
  · rintro ⟨bound, fits, built⟩
    exact ⟨ordered, bound, fits, built⟩

end Draft

namespace Spec

section

variable (s : Spec) (edges : List Edge) (same : List.Forall₂ Edge.Same s.edges edges)

include same

theorem payload_written_same : Json.Canonical.write { s with edges := edges }.toPayload = Json.Canonical.write s.toPayload := by
  have lists : Json.Canonical.write (ofList (Edge.toJson .dropped) edges) =
      Json.Canonical.write (ofList (Edge.toJson .dropped) s.edges) := by
    refine Json.Canonical.write_arr_congr _ _ ?_
    rw [List.forall₂_map_left_iff, List.forall₂_map_right_iff]
    exact (Edge.matching_symm _ _ same).imp Edge.written_same
  have empty : edges.isEmpty = s.edges.isEmpty := by
    rw [Bool.eq_iff_iff, List.isEmpty_iff_length_eq_zero, List.isEmpty_iff_length_eq_zero, same.length_eq]
  let listed (given : List Edge) : Json := if given.isEmpty then .null else ofList (Edge.toJson .dropped) given
  have conditional : Json.Canonical.write (listed edges) = Json.Canonical.write (listed s.edges) ∧
      (listed edges).isNull = (listed s.edges).isNull := by
    simp only [listed, empty]
    cases s.edges.isEmpty
    · exact ⟨lists, rfl⟩
    · exact ⟨rfl, rfl⟩
  have fields : List.Forall₂
      (fun a b : Text × Json => a.1 = b.1 ∧ Json.Canonical.write a.2 = Json.Canonical.write b.2 ∧ a.2.isNull = b.2.isNull)
      { s with edges := edges }.payloadEntries s.payloadEntries := by
    have unchanged (entry : Text × Json) : entry.1 = entry.1 ∧
      Json.Canonical.write entry.2 = Json.Canonical.write entry.2 ∧ entry.2.isNull = entry.2.isNull := ⟨rfl, rfl, rfl⟩
    exact .cons (unchanged _) (.cons (unchanged _) (.cons (unchanged _) (.cons (unchanged _) (.cons (unchanged _)
      (.cons ⟨rfl, conditional⟩ (.cons (unchanged _) .nil))))))
  rw [payload_written, payload_written]
  refine Json.Canonical.write_obj_congr _ _ (List.Forall₂.imp (fun a b kept => ⟨kept.1, kept.2.1⟩)
    (List.rel_filter (fun a b kept => ?_) fields))
  exact iff_of_eq (congrArg (fun null => (!null) = true) kept.2.2)

theorem canonical_text_same : { s with edges := edges }.canonicalText = s.canonicalText := by
  have nodes_only (given others : List Edge) (matching : List.Forall₂ Edge.Same given others) :
      Freeform.firstObstacle? (s.nodes.flatMap Node.freeform ++ given.flatMap Edge.freeform) =
        Freeform.firstObstacle? (s.nodes.flatMap Node.freeform) := by
    have none : Freeform.firstObstacle? (given.flatMap Edge.freeform) = none :=
      (Freeform.first_obstacle_eq_none _).mpr fun value member => by
        obtain ⟨e, inside, own⟩ := List.mem_flatMap.mp member
        exact Edge.matching_clear given others matching e inside value own
    rw [Freeform.firstObstacle?, List.findSome?_append, ← Freeform.firstObstacle?, ← Freeform.firstObstacle?, none,
      Option.or_none]
  rw [canonicalText, canonicalText, payload, payload, Outcome.written, Outcome.written, freeform, freeform,
    nodes_only _ _ same, nodes_only _ _ (Edge.matching_symm _ _ same)]
  cases Freeform.firstObstacle? (s.nodes.flatMap Node.freeform) with
  | some obstacle => rfl
  | none => rw [ok_bind, ok_bind, payload_written_same s edges same]

end

end Spec

theorem build_edge_keys (d : Draft) (a b : List Edge) (clearA : ∀ e ∈ a, ∃ text, e.conditionText = .ok text)
    (clearB : ∀ e ∈ b, ∃ text, e.conditionText = .ok text)
    (same : ∀ key, (∃ e ∈ a, e.sortKey = .ok key) ↔ ∃ e ∈ b, e.sortKey = .ok key) :
    ((∃ s, (d.withEdges a).build = .ok s) ↔ ∃ s, (d.withEdges b).build = .ok s) ∧
      ∀ s other, (d.withEdges a).build = .ok s → (d.withEdges b).build = .ok other →
        other.canonicalText = s.canonicalText ∧ other.digest = s.digest := by
  obtain ⟨orderedA, first⟩ := (Edge.ordered_iff a).mpr clearA
  obtain ⟨orderedB, second⟩ := (Edge.ordered_iff b).mpr clearB
  have matching := Edge.ordered_same a b orderedA orderedB same first second
  have back := Edge.matching_symm _ _ matching
  simp only [d.built_in_order a orderedA first, d.built_in_order b orderedB second]
  refine ⟨⟨?_, ?_⟩, ?_⟩
  · rintro ⟨_, bound, fits, _⟩
    exact ⟨_, bound, Draft.buildable_same _ _ matching d a b bound second fits, rfl⟩
  · rintro ⟨_, bound, fits, _⟩
    exact ⟨_, bound, Draft.buildable_same _ _ back d b a bound first fits, rfl⟩
  · rintro s other ⟨bound, fits, rfl⟩ ⟨other_bound, other_fits, rfl⟩
    obtain rfl : bound = other_bound := Checked.valid.inj (fits.parallel.symm.trans other_fits.parallel)
    have text := Spec.canonical_text_same ((d.withEdges a).assembled orderedA bound) _ (Draft.kept_same _ _ matching)
    rw [← Draft.assembled_same orderedA orderedB matching d a b bound] at text
    exact ⟨text, congrArg (Except.map Json.Canonical.digest) text⟩

namespace Sample

def always : Edge := ⟨"first", "second", none⟩

def answered (value : Json) : Edge := ⟨"first", "second", some ⟨.nodeOutput, .equals, "$.answer", value⟩⟩

def counted : Edge := answered (.int 1)

def measured : Edge := answered (.float ⟨false, ⟨1023, by decide⟩, Binary64.noFraction⟩)

def answeredText : Text := "\x7b\"op\":\"equals\",\"path\":\"$.answer\",\"source\":\"node_output\",\"value\":1\x7d"

theorem answered_text (value : Json) (plain : Freeform.parts value = [])
    (written : Json.Canonical.write ((⟨.nodeOutput, .equals, "$.answer", value⟩ : Condition).toJson .dropped) = .ok answeredText) :
    (answered value).conditionText = .ok answeredText := by
  have clear : (Freeform.field value).obstacle? = none := by simp [Freeform.obstacle?, plain, Freeform.obstacleInItems?]
  simp [answered, Edge.conditionText, Condition.write, Condition.freeform, Outcome.written, Freeform.firstObstacle?, clear,
    ok_bind, written, Outcome.ofCanonical, Except.mapError]

theorem counted_text : counted.conditionText = .ok answeredText := answered_text _ rfl (by decide +kernel)

theorem measured_text : measured.conditionText = .ok answeredText := answered_text _ rfl (by decide +kernel)

theorem counted_built : ∃ s, ((pair []).withEdges [counted, always]).build = .ok s := by
  have built : ((pair []).withEdges [counted, always]).build.toBool = true := by decide +kernel
  cases outcome : ((pair []).withEdges [counted, always]).build with
  | ok s => exact ⟨s, rfl⟩
  | error failure => simp [outcome, Except.toBool] at built

end Sample

theorem sample_edge_keys : ∃ s other, ((Sample.pair []).withEdges [Sample.counted, Sample.always]).build = .ok s ∧
    ((Sample.pair []).withEdges [Sample.always, Sample.measured, Sample.always]).build = .ok other ∧
    other.canonicalText = s.canonicalText ∧ other.digest = s.digest := by
  have always : Sample.always.conditionText = .ok [] := rfl
  have keys := build_edge_keys (Sample.pair []) [Sample.counted, Sample.always] [Sample.always, Sample.measured, Sample.always]
    (by simp [always, Sample.counted_text]) (by simp [always, Sample.measured_text]) fun key => by
      have same : Sample.counted.sortKey = Sample.measured.sortKey := by
        rw [Edge.sortKey, Edge.sortKey, Sample.counted_text, Sample.measured_text]
        rfl
      simp [same, or_comm]
  obtain ⟨s, built⟩ := Sample.counted_built
  obtain ⟨other, rebuilt⟩ := keys.1.mp ⟨s, built⟩
  exact ⟨s, other, built, rebuilt, keys.2 s other built rebuilt⟩

end PlanFlow
