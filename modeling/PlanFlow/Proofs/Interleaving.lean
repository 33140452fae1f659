import PlanFlow.Proofs.EdgeOrder
import PlanFlow.Proofs.OutputOrder
import PlanFlow.Workflow.Builder

/-!
The order of changes. Nodes are added one after the other, and the last setting of the name, the model or the bound is the
one that counts; apart from this the order of changes leaves no trace, since edges and outputs are put in order when the
workflow is built.
-/

set_option autoImplicit false

namespace PlanFlow

open Schema
open Checked (map_eq_valid seq_eq_valid and_then_eq_valid)

namespace Change

def node? : Change → Option Node
  | .addNode node => some node
  | _ => none

def edge? : Change → Option Edge
  | .addEdge e => some e
  | _ => none

def output? : Change → Option OutputRef
  | .addOutput output => some output
  | _ => none

def name? : Change → Option (Option Text)
  | .setName name => some name
  | _ => none

def model? : Change → Option (Option Text)
  | .setModel model => some model
  | _ => none

def bound? : Change → Option Json
  | .setParallelism bound => some bound
  | _ => none

inductive Part where
  | nodes
  | name
  | model
  | parallelism
deriving DecidableEq

def part? : Change → Option Part
  | .addNode _ => some .nodes
  | .setName _ => some .name
  | .setModel _ => some .model
  | .setParallelism _ => some .parallelism
  | .addEdge _ | .addOutput _ => none

-- The changes that calls make which succeed.
inductive Made : Change → Prop where
  | name (given : Text) : Made (name given)
  | model (given : Option Text) : Made (.setModel given)
  | parallelism (bound : Json) : Made (.setParallelism bound)
  | node (node : Node) : Made (.addNode node)
  | request (kind : RequestKind) (id : Json) (options : Table Json) (bindings : Option (List Binding)) (change : Change)
      (done : request kind id options bindings = .ok change) : Made change
  | joinAll (id dependsOn : Json) (change : Change) (done : joinAll id dependsOn = .ok change) : Made change
  | joinAny (id : Json) (predicate : Option Condition) (dependsOn : Json) (change : Change)
      (done : joinAny id predicate dependsOn = .ok change) : Made change
  | joinCollect (id limit timeout : Json) (predicate : Option Condition) (dependsOn : Json) (change : Change)
      (done : joinCollect id limit timeout predicate dependsOn = .ok change) : Made change
  | transform (id : Json) (object : Option (Table ValueRef)) (merge : Option (List ValueRef)) (dependsOn : Json)
      (change : Change) (done : transform id object merge dependsOn = .ok change) : Made change
  | fanOut (id : Json) (subnode : SubNode) (options : FanOutOptions) (itemBindings : Option (List Binding))
      (dependsOn : Json) (change : Change) (done : fanOut id subnode options itemBindings dependsOn = .ok change) : Made change
  | edge (source target : Json) (condition : Option Condition) (change : Change)
      (done : edge source target condition = .ok change) : Made change
  | output (name source pointer : Json) (change : Change) (done : output name source pointer = .ok change) : Made change

theorem of_checked_map_ok {α : Type} (checked : Checked α) (f : α → Change) (change : Change)
    (done : Outcome.ofChecked (checked.map f) = .ok change) : ∃ value, checked = .valid value ∧ f value = change :=
  (map_eq_valid _ _ _).mp ((Draft.of_checked_eq_ok _ _).mp done)

theorem or_null_text (given : Json) (t : Text) (text : Schema.optional anyText given.orNull = .valid (some t)) : t ≠ [] := by
  cases void : given.isVoid with
  | true =>
      rw [Json.orNull, void] at text
      cases text
  | false =>
      rw [Json.orNull, void] at text
      cases given with
      | str own =>
          obtain rfl : own = t := Option.some.inj (Checked.valid.inj text)
          exact List.isEmpty_eq_false_iff.mp void
      | _ => cases text

theorem output_pointed (name source pointer : Json) (change : Change) (done : output name source pointer = .ok change) :
    ∃ o, change = .addOutput o ∧ o.pointer ≠ some [] := by
  obtain ⟨o, read, rfl⟩ := of_checked_map_ok _ _ _ done
  refine ⟨o, rfl, fun empty => ?_⟩
  obtain ⟨fields, opened, made⟩ := (and_then_eq_valid _ _ _).mp read
  obtain ⟨rfl, _⟩ := keyed_eq_valid [("name", name), sourceField source, pointerField pointer] fields opened
  obtain ⟨shaped, _⟩ := (closed_eq_valid _ _ _ _).mp made
  obtain ⟨_, given, front, pointed, rfl⟩ := (seq_eq_valid _ _ _).mp shaped
  obtain ⟨_, _, first, _, rfl⟩ := (seq_eq_valid _ _ _).mp front
  obtain ⟨_, _, rfl⟩ := (map_eq_valid _ _ _).mp first
  have found : Label.find? "pointer" [("name", name), sourceField source, pointerField pointer] =
      some (("pointer" : Text), pointer.orNull) := rfl
  simp only [absentable, defaulted, found, Checked.under_eq_valid] at pointed
  obtain rfl : given = some [] := empty
  exact or_null_text pointer [] pointed rfl

theorem added_node (checked : Outcome Node) (change : Change) (done : checked.map .addNode = .ok change) :
    ∃ node, change = .addNode node := by
  obtain ⟨node, _, rfl⟩ := (map_eq_ok _ _ _).mp done
  exact ⟨node, rfl⟩

theorem request_node (kind : RequestKind) (id : Json) (options : Table Json) (bindings : Option (List Binding))
    (change : Change) (done : request kind id options bindings = .ok change) : ∃ node, change = .addNode node := by
  obtain ⟨_, _, rest⟩ := (bind_eq_ok _ _ _).mp done
  obtain ⟨_, _, made⟩ := (bind_eq_ok _ _ _).mp rest
  obtain ⟨_, _, framed, _, rfl⟩ := (seq_eq_valid _ _ _).mp ((Draft.of_checked_eq_ok _ _).mp made)
  obtain ⟨_, _, rfl⟩ := (map_eq_valid _ _ _).mp framed
  exact ⟨_, rfl⟩

theorem fan_out_node (id : Json) (subnode : SubNode) (options : FanOutOptions) (itemBindings : Option (List Binding))
    (dependsOn : Json) (change : Change) (done : fanOut id subnode options itemBindings dependsOn = .ok change) :
    ∃ node, change = .addNode node := by
  obtain ⟨_, _, made⟩ := (bind_eq_ok _ _ _).mp done
  exact added_node _ change made

theorem made_output (change : Change) (made : change.Made) (o : OutputRef) (adds : change.output? = some o) :
    o.pointer ≠ some [] := by
  have other (node : Node) (same : change = .addNode node) : o.pointer ≠ some [] := by simp [same, output?] at adds
  cases made with
  | output name source pointer _ done =>
      obtain ⟨_, rfl, pointed⟩ := output_pointed name source pointer change done
      exact Option.some.inj adds ▸ pointed
  | edge source target condition _ done =>
      obtain ⟨_, _, rfl⟩ := of_checked_map_ok _ _ _ done
      cases adds
  | request kind id options bindings _ done =>
      obtain ⟨node, same⟩ := request_node kind id options bindings change done
      exact other node same
  | fanOut id subnode options itemBindings dependsOn _ done =>
      obtain ⟨node, same⟩ := fan_out_node id subnode options itemBindings dependsOn change done
      exact other node same
  | joinAll _ _ _ done | joinAny _ _ _ _ done | joinCollect _ _ _ _ _ _ done | transform _ _ _ _ _ done =>
      obtain ⟨node, same⟩ := added_node _ change done
      exact other node same
  | name | model | parallelism | node => cases adds

end Change

structure Interleaved (changes others : List Change) : Prop where
  moved : changes.Perm others
  kept : ∀ part, (changes.filter fun change => change.part? = some part) =
    others.filter fun change => change.part? = some part

namespace Interleaved

variable (changes others : List Change) (interleaved : Interleaved changes others)

include interleaved

theorem part_kept {α : Type} (part : Change.Part) (f : Change → Option α)
    (inside : ∀ change, change.part? ≠ some part → f change = none) : changes.filterMap f = others.filterMap f := by
  have narrowed (all : List Change) : (all.filter fun change => change.part? = some part).filterMap f = all.filterMap f := by
    rw [List.filterMap_filter]
    refine List.filterMap_congr fun change _ => ?_
    by_cases own : change.part? = some part
    · simp [own]
    · simp [own, inside change own]
  rw [← narrowed changes, ← narrowed others, interleaved.kept part]

end Interleaved

namespace Draft

theorem apply_parts (d : Draft) (change : Change) : d.apply change =
    ⟨change.name?.getD d.name, change.model?.getD d.model, change.bound?.getD d.maxParallelism,
      d.nodes ++ change.node?.toList, d.edges ++ change.edge?.toList, d.outputs ++ change.output?.toList⟩ := by
  cases change <;> simp [apply, Change.name?, Change.model?, Change.bound?, Change.node?, Change.edge?, Change.output?]

-- By induction on the changes: what is added is there in turn, and what was set last is there.
theorem apply_all_parts (d : Draft) (changes : List Change) : d.applyAll changes =
    ⟨(changes.filterMap Change.name?).getLastD d.name, (changes.filterMap Change.model?).getLastD d.model,
      (changes.filterMap Change.bound?).getLastD d.maxParallelism, d.nodes ++ changes.filterMap Change.node?,
      d.edges ++ changes.filterMap Change.edge?, d.outputs ++ changes.filterMap Change.output?⟩ := by
  have last {α : Type} (f : Change → Option α) (head : Change) (tail : List Change) (start : α) :
      (tail.filterMap f).getLastD ((f head).getD start) = ((head :: tail).filterMap f).getLastD start := by
    cases first : f head with
    | none => rw [List.filterMap_cons_none first, Option.getD_none]
    | some value => rw [List.filterMap_cons_some first, List.getLastD_cons, Option.getD_some]
  have added {α : Type} (f : Change → Option α) (head : Change) (tail : List Change) (start : List α) :
      start ++ (f head).toList ++ tail.filterMap f = start ++ (head :: tail).filterMap f := by
    cases first : f head <;> simp [first]
  induction changes generalizing d with
  | nil => simp [applyAll]
  | cons head tail ih =>
      have step : d.applyAll (head :: tail) = (d.apply head).applyAll tail := rfl
      rw [step, ih, apply_parts]
      simp only [last, added]

theorem build_outputs (d : Draft) (outputs : List OutputRef)
    (same : OutputRef.canonicalOrder outputs = OutputRef.canonicalOrder d.outputs) :
    { d with outputs := outputs }.build = d.build := by
  simp only [build, buildCounted, same]

theorem build_edges_moved (d : Draft) (edges : List Edge) (moved : d.edges.Perm edges) :
    ((∃ s, d.build = .ok s) ↔ ∃ t, (d.withEdges edges).build = .ok t) ∧
      ∀ s t, d.build = .ok s → (d.withEdges edges).build = .ok t → t.canonicalText = s.canonicalText := by
  have keyed (given : List Edge) (s : Spec) (built : (d.withEdges given).build = .ok s) :
      ∀ e ∈ given, ∃ text, e.conditionText = .ok text := by
    obtain ⟨ordered, _, fits, _⟩ := (build_eq_ok _ _).mp built
    exact (Edge.ordered_iff given).mp ⟨ordered, fits.inOrder⟩
  by_cases clear : ∀ e ∈ d.edges, ∃ text, e.conditionText = .ok text
  · obtain ⟨both, texts⟩ := build_edge_keys d d.edges edges clear (fun e member => clear e (moved.mem_iff.mpr member))
      fun key => by simp only [moved.mem_iff]
    exact ⟨both, fun s t first second => (texts s t first second).1⟩
  · have neither (s : Spec) : d.build ≠ .ok s := fun built => clear (keyed d.edges s built)
    refine ⟨⟨fun ⟨s, built⟩ => absurd built (neither s), fun ⟨t, built⟩ => ?_⟩,
      fun s _ built => absurd built (neither s)⟩
    exact absurd (fun e member => keyed edges t built e (moved.mem_iff.mp member)) clear

end Draft

namespace Interleaved

variable (changes others : List Change) (interleaved : Interleaved changes others)

include interleaved

theorem same_parts (d : Draft) : d.applyAll others =
    { (d.applyAll changes).withEdges (d.edges ++ others.filterMap Change.edge?) with
      outputs := d.outputs ++ others.filterMap Change.output? } := by
  have nodes := interleaved.part_kept changes others .nodes Change.node? fun change outside => by
    cases change <;> first | rfl | exact absurd rfl outside
  have name := interleaved.part_kept changes others .name Change.name? fun change outside => by
    cases change <;> first | rfl | exact absurd rfl outside
  have model := interleaved.part_kept changes others .model Change.model? fun change outside => by
    cases change <;> first | rfl | exact absurd rfl outside
  have bound := interleaved.part_kept changes others .parallelism Change.bound? fun change outside => by
    cases change <;> first | rfl | exact absurd rfl outside
  rw [Draft.apply_all_parts, Draft.apply_all_parts, Draft.withEdges, nodes, name, model, bound]

theorem same_outputs (made : ∀ change ∈ changes, change.Made) :
    OutputRef.canonicalOrder (others.filterMap Change.output?) =
      OutputRef.canonicalOrder (changes.filterMap Change.output?) := by
  refine (OutputRef.canonical_order_moved _ _ (interleaved.moved.filterMap _) fun o _ _ empty => ?_).symm
  obtain ⟨change, member, adds⟩ := List.mem_filterMap.mp empty
  exact change.made_output (made change member) _ adds rfl

end Interleaved

theorem build_interleaved (changes others : List Change) (made : ∀ change ∈ changes, change.Made)
    (interleaved : Interleaved changes others) :
    ((∃ s, (Draft.empty.applyAll changes).build = .ok s) ↔ ∃ t, (Draft.empty.applyAll others).build = .ok t) ∧
      ∀ s t, (Draft.empty.applyAll changes).build = .ok s → (Draft.empty.applyAll others).build = .ok t →
        t.canonicalText = s.canonicalText := by
  have parts := Draft.apply_all_parts .empty changes
  have edges : (Draft.empty.applyAll changes).edges = changes.filterMap Change.edge? := congrArg Draft.edges parts
  have outputs : (Draft.empty.applyAll changes).outputs = changes.filterMap Change.output? := congrArg Draft.outputs parts
  have moved : (Draft.empty.applyAll changes).edges.Perm (others.filterMap Change.edge?) :=
    edges ▸ interleaved.moved.filterMap Change.edge?
  have same : (Draft.empty.applyAll others).build =
      ((Draft.empty.applyAll changes).withEdges (others.filterMap Change.edge?)).build := by
    rw [interleaved.same_parts changes others .empty]
    refine Draft.build_outputs _ _ ?_
    exact (interleaved.same_outputs changes others made).trans (congrArg OutputRef.canonicalOrder outputs.symm)
  rw [same]
  exact Draft.build_edges_moved _ _ moved

namespace Sample

def nodeCalls : List Change := [.addNode ⟨"first", none, .joinAll⟩, .addNode ⟨"second", none, .joinAll⟩]

def otherCalls : List Change :=
  [.addEdge ⟨"first", "second", none⟩, .addOutput ⟨"result", "second", none⟩, .name "Report"]

theorem calls_made : ∀ change ∈ nodeCalls ++ otherCalls, change.Made := by
  have joins (id : Text) : Change.Made (.addNode ⟨id, none, .joinAll⟩) := .node _
  simp only [nodeCalls, otherCalls, List.cons_append, List.nil_append, List.forall_mem_cons]
  exact ⟨joins _, joins _, .edge (.str "first") (.str "second") none _ rfl,
    .output (.str "result") (.str "second") .null _ rfl, .name _, List.forall_mem_nil _⟩

theorem calls_built : ∃ s, (Draft.empty.applyAll (nodeCalls ++ otherCalls)).build = .ok s := by
  have built : (Draft.empty.applyAll (nodeCalls ++ otherCalls)).build.toBool = true := by decide +kernel
  cases outcome : (Draft.empty.applyAll (nodeCalls ++ otherCalls)).build with
  | ok s => exact ⟨s, rfl⟩
  | error failure => simp [outcome, Except.toBool] at built

end Sample

theorem sample_interleaved : ∃ s t, (Draft.empty.applyAll (Sample.nodeCalls ++ Sample.otherCalls)).build = .ok s ∧
    (Draft.empty.applyAll (Sample.otherCalls ++ Sample.nodeCalls)).build = .ok t ∧ t.canonicalText = s.canonicalText := by
  have interleaved : Interleaved (Sample.nodeCalls ++ Sample.otherCalls) (Sample.otherCalls ++ Sample.nodeCalls) :=
    ⟨List.perm_append_comm, fun part => by cases part <;> rfl⟩
  have same := build_interleaved _ _ Sample.calls_made interleaved
  obtain ⟨s, built⟩ := Sample.calls_built
  obtain ⟨t, rebuilt⟩ := same.1.mp ⟨s, built⟩
  exact ⟨s, t, built, rebuilt, same.2 s t built rebuilt⟩

end PlanFlow
