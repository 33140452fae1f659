import PlanFlow.Compile
import PlanFlow.Proofs.Faithful
import PlanFlow.Proofs.Rereading

/-!
The executed form of a specification decodes back to it, whichever way it takes to its reader, and so does the canonical
text. Keys have to have a UTF-8 form: a key without one is written with replacement characters, so its text stands for
another specification.
-/

set_option autoImplicit false

namespace PlanFlow

open Json (Passage Holds ofList ofText? ofInt?)
open Schema

namespace Spec

def payloadEntries (s : Spec) : List (Text × Json) := [
  ("kind", .str kind), ("name", ofText? s.name), ("model", ofText? s.model),
  ("max_parallelism", ofInt? s.maxParallelism), ("nodes", ofList (Node.toJson .dropped) s.nodes),
  ("edges", if s.edges.isEmpty then .null else ofList (Edge.toJson .dropped) s.edges),
  ("outputs", ofList (OutputRef.toJson .dropped) s.outputs)]

theorem payload_written (s : Spec) : s.toPayload = Nulls.dropped.record s.payloadEntries := by
  have named : ∀ name ∈ ([("kind" : Text), ("name" : Text), ("model" : Text), ("max_parallelism" : Text), ("nodes" : Text),
      ("outputs" : Text)] : List Text), name ≠ ("edges" : Text) := by decide
  cases empty : s.edges.isEmpty with
  | false => simp [toPayload, payloadEntries, entries, empty]
  | true =>
      simp only [List.forall_mem_cons] at named
      simp [toPayload, payloadEntries, entries, empty, Nulls.record, Nulls.entries, List.filter_cons, named, Json.isNull]

theorem payload_reads (w : Passage) (s : Spec) (valid : s.Valid w.carries) :
    ReadsBack w Spec.ofJson s.toPayload (s.received w) := by
  have nodes := reads_list (Node.toJson .dropped) (Node.received w) s.nodes fun node member =>
    node_reads node (valid.nodes node member)
  have edges := reads_list (Edge.toJson .dropped) (Edge.received w) s.edges fun e member =>
    edge_reads e (valid.edges e member)
  have outputs : ReadsBack w (listOf OutputRef.ofJson) (ofList (OutputRef.toJson .dropped) s.outputs) s.outputs :=
    reads_list_kept _ s.outputs fun output member => output_reads output (valid.outputs output member)
  rw [payload_written]
  refine reads_record ["kind", "name", "model", "max_parallelism", "nodes", "edges", "outputs"] _ rfl (by decide) ?_ _
    "WorkflowSpec" _ fun fields held free => ?_
  · cases empty : s.edges.isEmpty <;> simp [payloadEntries, nodes.regular, edges.regular, outputs.regular, empty]
  · have kinds := defaulted_reads held "kind" () (reads_literal kind (by decide)) (by simp [payloadEntries])
    have name := absentable_text held "name" rfl s.name (by simp [payloadEntries])
    have model := absentable_text held "model" rfl s.model (by simp [payloadEntries])
    have bound := absentable_count held "max_parallelism" rfl s.maxParallelism valid.parallel (by simp [payloadEntries])
    have listed := defaulted_reads held "nodes" [] nodes (by simp [payloadEntries])
    have conditional : defaulted "edges" (listOf Edge.ofJson) [] fields = .valid (s.edges.map (Edge.received w)) := by
      cases given : s.edges with
      | nil => rw [defaulted, find_null held "edges" rfl (by simp [payloadEntries, given])]; rfl
      | cons first others =>
          rw [← given]
          exact defaulted_reads held "edges" [] edges (by simp [payloadEntries, given])
    have answers := defaulted_reads held "outputs" [] outputs (by simp [payloadEntries])
    refine (closed_eq_valid _ _ _ _).mpr ⟨?_, free⟩
    rw [kinds, name, model, bound, listed, conditional, answers]
    rfl

theorem canonical_text_eq_ok (s : Spec) (t : Text) :
    s.canonicalText = .ok t ↔ Freeform.firstObstacle? s.freeform = none ∧ Json.Canonical.write s.toPayload = .ok t :=
  Outcome.canonical_eq_ok s.freeform s.toPayload t

theorem text_reads (w : Passage) (through : w.ThroughText) (s result : Spec)
    (reads : ReadsBack w Spec.ofJson s.toPayload result) (t : Text) (written : s.canonicalText = .ok t) :
    Spec.read (.text t) = .ok result := by
  obtain ⟨_, text⟩ := (s.canonical_text_eq_ok t).mp written
  rw [s.payload_written] at text reads
  have decoded : Json.readUnmarked t = .ok (.obj (Json.received w s.payloadEntries)) :=
    (Json.read_unmarked_written w through _ reads.regular t text).trans (congrArg Except.ok (Json.record_recast w _))
  have valid := reads.valid
  rw [Json.record_recast] at valid
  rw [Spec.read, Payload.read, decoded, Payload.ofRead, ok_bind, Payload.checkObject, valid]

end Spec

namespace Sample

def story : Spec :=
  ⟨some "story", none, some 4,
    [⟨"ask", none, .request .llm { Request.empty with
        input := some [⟨"user", [⟨"text", some "hi", [("rank", .int (-1)), ("hint", .null)]⟩]⟩]
        toolLimits := some [("b", 1), ("a", 2)] }⟩,
      ⟨"end", some ["ask"], .joinAll⟩],
    [⟨"ask", "end", some ⟨.nodeOutput, .equals, "$.x", .obj [("z", .null), ("a", .arr [.bool true, .str "\n"])]⟩⟩],
    [⟨"r", "end", none⟩]⟩

theorem story_faithful : story.Faithful := by
  refine ⟨fun n same => ?_, ?_, fun e member => ?_, fun output member => ?_⟩
  · obtain rfl := Option.some.inj same
    exact ⟨by decide, by decide⟩
  · refine List.forall_mem_cons.mpr ⟨⟨⟨by decide, by decide⟩, ?_, nofun, ?_, nofun⟩, fun node member => ?_⟩
    · intro messages given message member
      obtain rfl := Option.some.inj given
      rw [List.mem_singleton.mp member]
      refine ⟨⟨by decide, by decide⟩, fun block inside => ?_⟩
      rw [List.mem_singleton.mp inside]
      exact ⟨⟨by decide, by decide⟩, by decide, by simp [Json.Exact]⟩
    · intro limits given
      obtain rfl := Option.some.inj given
      exact ⟨by decide, by decide⟩
    · rw [List.mem_singleton.mp member]
      exact ⟨⟨by decide, by decide⟩, trivial⟩
  · rw [List.mem_singleton.mp member]
    refine ⟨⟨by decide, by decide⟩, ⟨by decide, by decide⟩, fun c given => ?_⟩
    obtain rfl := Option.some.inj given
    exact ⟨by decide, by decide, by decide, ⟨by decide, trivial⟩, ⟨by decide, trivial, trivial, trivial⟩, trivial⟩
  · rw [List.mem_singleton.mp member]
    exact ⟨⟨by decide, by decide⟩, by decide, by decide⟩

def limited (limits : Table Int) : Spec :=
  ⟨none, none, none, [⟨"n", none, .request .llm { Request.empty with toolLimits := some limits }⟩], [], [⟨"r", "n", none⟩]⟩

theorem limited_faithful (limits : Table Int) (plain : Table.Plain limits) : (limited limits).Faithful := by
  have name : Text.Names "n" := ⟨by decide, by decide⟩
  refine ⟨nofun, fun node member => ?_, nofun, fun output member => ?_⟩
  · rw [List.mem_singleton.mp member]
    exact ⟨name, nofun, nofun, fun given same => Option.some.inj same ▸ plain, nofun⟩
  · rw [List.mem_singleton.mp member]
    exact ⟨⟨by decide, by decide⟩, by decide, by decide⟩

def loneLimits : Table Int := [([CodePoint.ofNat 0xD800], 1), ([CodePoint.ofNat 0xDFFF], 2)]

def mergedLimits : Table Int := [(List.replicate 3 (CodePoint.ofNat 0xFFFD), 2)]

def loneInput : Json := .obj [
  ("nodes", .arr [.obj [("id", .str "n"), ("type", .str "llm"),
    ("tool_limits", .obj (loneLimits.map fun entry => (entry.1, .int entry.2)))]]),
  ("outputs", .arr [.obj [("name", .str "r"), ("from", .str "n")]])]

theorem lone_read : Spec.ofJson loneInput = .valid (limited loneLimits) := rfl

theorem lone_payload : (limited loneLimits).toPayload = (limited mergedLimits).toPayload := rfl

end Sample

theorem canonical_decodes (s : Spec) (faithful : s.Faithful) (t : Text) (written : s.canonicalText = .ok t) :
    Spec.read (.text t) = .ok s.ordered := by
  obtain ⟨valid, same⟩ := spec_kept s faithful
  have reads := Spec.payload_reads .exact s valid
  rw [same] at reads
  exact Spec.text_reads .exact Json.exact_through s s.ordered reads t written

theorem sample_story_decodes : ∃ t, Sample.story.canonicalText = .ok t ∧ Spec.read (.text t) = .ok Sample.story.ordered :=
  ⟨_, rfl, canonical_decodes Sample.story Sample.story_faithful _ rfl⟩

theorem sample_lone_keys_merged : (∃ input, Spec.ofJson input = .valid (Sample.limited Sample.loneLimits)) ∧
    (Sample.limited Sample.loneLimits).freeform = [] ∧
    ∃ t, (Sample.limited Sample.loneLimits).canonicalText = .ok t ∧
      ∀ limits, limits.Perm Sample.loneLimits → Spec.read (.text t) ≠ .ok (Sample.limited limits) := by
  have plain : Table.Plain Sample.mergedLimits := ⟨by decide, by decide⟩
  obtain ⟨valid, same⟩ := spec_kept _ (Sample.limited_faithful Sample.mergedLimits plain)
  have merged := Spec.payload_reads .exact _ valid
  rw [same, ← Sample.lone_payload] at merged
  refine ⟨⟨_, Sample.lone_read⟩, rfl, _, rfl, fun limits same read => ?_⟩
  rw [Spec.text_reads .exact Json.exact_through _ _ merged _ rfl] at read
  have nodes : (Sample.limited Sample.mergedLimits).nodes = (Sample.limited limits).nodes :=
    congrArg Spec.nodes (Except.ok.inj read)
  have one : Sample.mergedLimits = limits := by simpa [Sample.limited] using nodes
  rw [← one] at same
  exact absurd same.length_eq (by decide)

end PlanFlow
