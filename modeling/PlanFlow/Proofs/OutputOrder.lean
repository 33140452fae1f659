import PlanFlow.Proofs.Admission
import PlanFlow.Proofs.Representable

/-!
The order of outputs. Specifications and intents that differ in it only are accepted alike, and what is answered lists
the same outputs, in the same order if none is given both with an absent and with an empty pointer: those two have one
place in the order of outputs.
-/

set_option autoImplicit false

namespace PlanFlow

open Schema
open Checked (map_eq_valid seq_eq_valid and_then_eq_valid)

def Json.withOutputs (fields : Table Json) (items : List Json) : Table Json := Table.put "outputs" (.arr items) fields

def Spec.withOutputs (s : Spec) (outputs : List OutputRef) : Spec := { s with outputs := outputs }

-- Intents that list the same outputs, each in an order of its own, and agree in everything else.
inductive OutputsMoved : Payload Spec → Payload Spec → Prop where
  | parsed (s : Spec) (outputs : List OutputRef) (moved : s.outputs.Perm outputs) :
      OutputsMoved (.parsed s) (.parsed (s.withOutputs outputs))
  | carried (p q : Payload Spec) (fields : Table Json) (items others : List Json) (moved : items.Perm others)
      (first : p.Carries (.obj (Json.withOutputs fields items)))
      (second : q.Carries (.obj (Json.withOutputs fields others))) :
      OutputsMoved p q

theorem OutputsMoved.symm (p q : Payload Spec) (moved : OutputsMoved p q) : OutputsMoved q p := by
  cases moved with
  | parsed s outputs moved => exact .parsed (s.withOutputs outputs) s.outputs moved.symm
  | carried _ _ fields items others moved first second => exact .carried q p fields others items moved.symm second first

section

variable (fields : Table Json) (items others : List Json)

theorem find_beside (label : Label) (plain : label.alternative = none) (beside : label.name ≠ "outputs") :
    label.find? (Json.withOutputs fields others) = label.find? (Json.withOutputs fields items) := by
  rw [Label.find?, Label.find?, Json.withOutputs, Json.withOutputs, Table.get_put, Table.get_put, if_neg beside.symm,
    if_neg beside.symm, plain]

theorem find_outputs : Label.find? "outputs" (Json.withOutputs fields items) = some (("outputs" : Text), .arr items) := by
  have own := Table.get_put "outputs" "outputs" (Json.arr items) fields
  rw [if_pos rfl] at own
  simp only [Label.find?, Json.withOutputs, own]

theorem no_extras_beside (labels : List Label) (plain : ∀ label ∈ labels, label.alternative = none)
    (free : noExtras labels (Json.withOutputs fields items) = .valid ()) :
    noExtras labels (Json.withOutputs fields others) = .valid () := by
  rw [no_extras_iff] at free
  refine no_extras_known labels _ fun key member => ?_
  rw [Json.withOutputs, Table.keys_put "outputs" (Json.arr others) (.arr items)] at member
  exact key_of_claimed labels plain _ key (free key member)

theorem list_moved {α : Type} (check : Json → Checked α) (moved : items.Perm others) (values : List α)
    (valid : listOf check (.arr items) = .valid values) :
    ∃ results, values.Perm results ∧ listOf check (.arr others) = .valid results := by
  have each := (list_from_eq_valid check 0 items values).mp valid
  obtain ⟨results, same, read⟩ := exists_permuted _ items others values each moved
  exact ⟨results, same, (list_from_eq_valid check 0 others results).mpr read⟩

theorem spec_moved (moved : items.Perm others) (s : Spec)
    (valid : Spec.ofJson (.obj (Json.withOutputs fields items)) = .valid s) :
    ∃ outputs, s.outputs.Perm outputs ∧
      Spec.ofJson (.obj (Json.withOutputs fields others)) = .valid (s.withOutputs outputs) := by
  have beside (label : Label) (plain : label.alternative = none) (apart : label.name ≠ "outputs") {α : Type}
      (check : Json → Checked α) (fallback : α) (value : α)
      (given : defaulted label check fallback (Json.withOutputs fields items) = .valid value) :
      defaulted label check fallback (Json.withOutputs fields others) = .valid value := by
    rwa [defaulted, find_beside fields items others label plain apart, ← defaulted]
  obtain ⟨given, opened, made⟩ := (and_then_eq_valid _ _ _).mp valid
  obtain ⟨rfl, clean⟩ := keyed_eq_valid _ given opened
  rw [Json.withOutputs, Table.keys_put "outputs" (Json.arr items) (.arr others)] at clean
  simp only [closed_eq_valid, seq_eq_valid, map_eq_valid] at made
  obtain ⟨⟨_, outputs, ⟨_, edges, ⟨_, nodes, ⟨_, bound, ⟨_, model, ⟨_, name, ⟨_, kinds, rfl⟩, named, rfl⟩, modelled, rfl⟩,
    bounded, rfl⟩, listed, rfl⟩, linked, rfl⟩, answered, rfl⟩, free⟩ := made
  rw [defaulted, find_outputs] at answered
  obtain ⟨results, same, read⟩ := list_moved items others _ moved outputs ((Checked.under_eq_valid _ _ _).mp answered)
  have again : defaulted "outputs" (listOf OutputRef.ofJson) [] (Json.withOutputs fields others) = .valid results := by
    rw [defaulted, find_outputs]
    exact (Checked.under_eq_valid _ _ _).mpr read
  refine ⟨results, same, (and_then_eq_valid _ _ _).mpr ⟨_, keyed_clean _ clean, (closed_eq_valid _ _ _ _).mpr ⟨?_, ?_⟩⟩⟩
  · rw [beside "kind" rfl (by decide) _ _ _ kinds, absentable, beside "name" rfl (by decide) _ _ _ named, absentable,
      beside "model" rfl (by decide) _ _ _ modelled, absentable, beside "max_parallelism" rfl (by decide) _ _ _ bounded,
      beside "nodes" rfl (by decide) _ _ _ listed, beside "edges" rfl (by decide) _ _ _ linked, again]
    rfl
  · exact no_extras_beside fields items others _ (by decide) free

end

theorem read_moved (p q : Payload Spec) (moved : OutputsMoved p q) (s : Spec) (given : Spec.read p = .ok s) :
    ∃ outputs, s.outputs.Perm outputs ∧ Spec.read q = .ok (s.withOutputs outputs) := by
  cases moved with
  | parsed own outputs moved =>
      obtain rfl := Except.ok.inj given
      exact ⟨outputs, moved, rfl⟩
  | carried _ _ fields items others moved first second =>
      obtain ⟨_, valid⟩ := (p.carried_read _ first _ _ s).mp given
      obtain ⟨outputs, same, again⟩ := spec_moved fields items others moved s valid
      exact ⟨outputs, same, (q.carried_read _ second _ _ _).mpr ⟨⟨_, rfl⟩, again⟩⟩

namespace Draft

theorem buildable_moved (s : Spec) (outputs : List OutputRef) (moved : s.outputs.Perm outputs) (ordered : List Edge)
    (bound : Option Int) (fits : (ofSpec s).Buildable ordered bound) :
    (ofSpec (s.withOutputs outputs)).Buildable ordered bound where
  nonempty := fits.nonempty
  distinct := fits.distinct
  inOrder := fits.inOrder
  dependencies := fits.dependencies
  edges := fits.edges
  answered := fun empty => fits.answered ((show outputs = [] from empty) ▸ moved).eq_nil
  outputs := fun output member => fits.outputs output (moved.mem_iff.mpr member)
  nodes := fits.nodes
  acyclic := fits.acyclic
  parallel := fits.parallel

theorem build_moved (s built : Spec) (outputs : List OutputRef) (moved : s.outputs.Perm outputs)
    (done : (ofSpec s).build = .ok built) : built.outputs = OutputRef.canonicalOrder s.outputs ∧
      (ofSpec (s.withOutputs outputs)).build = .ok (built.withOutputs (OutputRef.canonicalOrder outputs)) := by
  obtain ⟨ordered, bound, fits, rfl⟩ := (build_eq_ok _ _).mp done
  exact ⟨rfl, (build_eq_ok _ _).mpr ⟨ordered, bound, buildable_moved s outputs moved ordered bound fits, rfl⟩⟩

end Draft

theorem with_tools_moved (registry : ToolRegistry) (s settled : Spec) (outputs : List OutputRef)
    (used : s.withTools registry = .ok settled) : settled.outputs = s.outputs ∧
      (s.withOutputs outputs).withTools registry = .ok (settled.withOutputs outputs) := by
  obtain ⟨nodes, each, rfl⟩ := (map_eq_ok _ _ _).mp ((map_error_eq_ok _ _ _).mp used)
  exact ⟨rfl, (map_error_eq_ok _ _ _).mpr ((map_eq_ok _ _ _).mpr ⟨nodes, each, rfl⟩)⟩

theorem normalize_moved (context : Context) (p q : Payload Spec) (moved : OutputsMoved p q) (s : Spec)
    (done : normalize p context = .ok s) : ∃ given outputs, given.Perm outputs ∧
      s.outputs = OutputRef.canonicalOrder given ∧
      normalize q context = .ok (s.withOutputs (OutputRef.canonicalOrder outputs)) := by
  obtain ⟨intent, read, rest⟩ := (bind_eq_ok _ _ _).mp done
  obtain ⟨built, made, used⟩ := (bind_eq_ok _ _ _).mp rest
  obtain ⟨outputs, same, again⟩ := read_moved p q moved intent read
  obtain ⟨own, remade⟩ := Draft.build_moved intent built outputs same made
  obtain ⟨kept, reused⟩ := with_tools_moved context.tools built s (OutputRef.canonicalOrder outputs) used
  refine ⟨intent.outputs, outputs, same, kept.trans own, ?_⟩
  rw [normalize, again, ok_bind, remade, ok_bind]
  exact reused

namespace OutputRef

def Apart (outputs : List OutputRef) : Prop := ∀ o ∈ outputs, o.pointer = none → { o with pointer := some [] } ∉ outputs

theorem eq_of_apart (outputs : List OutputRef) (apart : Apart outputs) (a b : OutputRef) (first : a ∈ outputs)
    (second : b ∈ outputs) (same : a.sortKey = b.sortKey) : a = b := by
  obtain ⟨name, source, pointer⟩ := a
  obtain ⟨_, _, other⟩ := b
  obtain ⟨rfl, rfl, pointers⟩ : name = _ ∧ source = _ ∧ pointer.getD [] = other.getD [] := by
    simpa [sortKey] using same
  cases pointer with
  | none =>
      cases other with
      | none => rfl
      | some given =>
          obtain rfl : [] = given := pointers
          exact absurd second (apart _ first rfl)
  | some given =>
      cases other with
      | none =>
          obtain rfl : given = [] := pointers
          exact absurd first (apart _ second rfl)
      | some _ => exact congrArg (OutputRef.mk name source) (congrArg some pointers)

theorem canonical_order_moved (outputs others : List OutputRef) (moved : outputs.Perm others) (apart : Apart outputs) :
    canonicalOrder outputs = canonicalOrder others :=
  sort_on_of_perm sortKey outputs others moved fun a first b second => eq_of_apart outputs apart a b first second

theorem apart_moved (outputs others : List OutputRef) (moved : outputs.Perm others) (apart : Apart outputs) :
    Apart others :=
  fun o member absent empty => apart o (moved.mem_iff.mpr member) absent (moved.mem_iff.mpr empty)

end OutputRef

namespace Spec

theorem writable_moved (s : Spec) (outputs : List OutputRef) (moved : s.outputs.Perm outputs)
    (writable : Json.Canonical.Writable s.toPayload) : Json.Canonical.Writable (s.withOutputs outputs).toPayload := by
  rw [payload_written] at writable ⊢
  exact writable_record_moved (OutputRef.toJson .dropped) "outputs" s.payloadEntries.dropLast [] _ _ moved writable

theorem canonical_moved (s : Spec) (outputs : List OutputRef) (moved : s.outputs.Perm outputs)
    (written : ∃ t, s.canonicalText = .ok t) : ∃ t, (s.withOutputs outputs).canonicalText = .ok t := by
  obtain ⟨clear, writable⟩ := (canonical_text_iff s).mp written
  exact (canonical_text_iff _).mpr ⟨clear, s.writable_moved outputs moved writable⟩

end Spec

theorem normalize_output_order (context : Context) (p q : Payload Spec) (moved : OutputsMoved p q) :
    ((∃ s, normalize p context = .ok s) ↔ ∃ t, normalize q context = .ok t) ∧
    ∀ s t, normalize p context = .ok s → normalize q context = .ok t →
      t = s.withOutputs t.outputs ∧ s.outputs.Perm t.outputs ∧
      ((∃ text, s.canonicalText = .ok text) ↔ ∃ text, t.canonicalText = .ok text) ∧
      (OutputRef.Apart s.outputs → t.canonicalText = s.canonicalText ∧ t.digest = s.digest) := by
  refine ⟨⟨?_, ?_⟩, fun s t first second => ?_⟩
  · rintro ⟨s, done⟩
    obtain ⟨_, _, _, _, other⟩ := normalize_moved context p q moved s done
    exact ⟨_, other⟩
  · rintro ⟨t, done⟩
    obtain ⟨_, _, _, _, other⟩ := normalize_moved context q p (moved.symm p q) t done
    exact ⟨_, other⟩
  · obtain ⟨given, outputs, same, own, other⟩ := normalize_moved context p q moved s first
    obtain rfl := Except.ok.inj (other.symm.trans second)
    have ordered : s.outputs.Perm given := own ▸ sort_on_perm OutputRef.sortKey given
    have reordered : (OutputRef.canonicalOrder outputs).Perm outputs := sort_on_perm OutputRef.sortKey outputs
    have listed : s.outputs.Perm (OutputRef.canonicalOrder outputs) := ordered.trans (same.trans reordered.symm)
    refine ⟨rfl, listed, ⟨s.canonical_moved _ listed, ?_⟩, fun apart => ?_⟩
    · exact (s.withOutputs (OutputRef.canonicalOrder outputs)).canonical_moved s.outputs listed.symm
    · have order := OutputRef.canonical_order_moved given outputs same (OutputRef.apart_moved _ _ ordered apart)
      rw [← order, ← own]
      exact ⟨rfl, rfl⟩

namespace Sample

def answering (outputs : List OutputRef) : Spec := ⟨none, none, none, [⟨"n", none, .joinAll⟩], [], outputs⟩

def whole : OutputRef := ⟨"r", "n", none⟩

def pointed (pointer : Text) : OutputRef := ⟨"r", "n", some pointer⟩

end Sample

theorem sample_output_order :
    OutputsMoved (.parsed (Sample.answering [Sample.whole, Sample.pointed "/x"]))
      (.parsed (Sample.answering [Sample.pointed "/x", Sample.whole])) ∧
    ∃ s t, normalize (.parsed (Sample.answering [Sample.whole, Sample.pointed "/x"])) Sample.context = .ok s ∧
      normalize (.parsed (Sample.answering [Sample.pointed "/x", Sample.whole])) Sample.context = .ok t ∧
      t.canonicalText = s.canonicalText ∧ t.digest = s.digest := by
  have moved : OutputsMoved (.parsed (Sample.answering [Sample.whole, Sample.pointed "/x"]))
      (.parsed (Sample.answering [Sample.pointed "/x", Sample.whole])) :=
    .parsed (Sample.answering [Sample.whole, Sample.pointed "/x"]) _ (.swap _ _ _)
  have apart : OutputRef.Apart [Sample.whole, Sample.pointed "/x"] := by
    unfold OutputRef.Apart
    decide
  exact ⟨moved, _, _, rfl, rfl, ((normalize_output_order Sample.context _ _ moved).2 _ _ rfl rfl).2.2.2 apart⟩

theorem sample_output_order_shows :
    OutputsMoved (.parsed (Sample.answering [Sample.whole, Sample.pointed []]))
      (.parsed (Sample.answering [Sample.pointed [], Sample.whole])) ∧
    ∃ s t text other, normalize (.parsed (Sample.answering [Sample.whole, Sample.pointed []])) Sample.context = .ok s ∧
      normalize (.parsed (Sample.answering [Sample.pointed [], Sample.whole])) Sample.context = .ok t ∧
      s.canonicalText = .ok text ∧ t.canonicalText = .ok other ∧ text ≠ other := by
  exact ⟨.parsed (Sample.answering [Sample.whole, Sample.pointed []]) _ (.swap _ _ _), _, _, _, _, rfl, rfl, rfl, rfl,
    by decide⟩

end PlanFlow
