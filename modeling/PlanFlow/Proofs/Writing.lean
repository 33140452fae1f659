import PlanFlow.Proofs.Canonical
import PlanFlow.Workflow.Canonical

/-!
The JSON form of specifications has a canonical text as soon as the values in it have one.
-/

set_option autoImplicit false

namespace PlanFlow

open Json.Canonical (Writable writable_items_iff writable_fields_iff)

theorem writable_text (t : Option Text) (clean : ∀ text ∈ t.toList, text.hasSurrogate = false) :
    Writable (Json.ofText? t) := by
  cases t with
  | none => trivial
  | some text => exact clean text (List.mem_singleton_self text)

theorem writable_texts (values : List Text) (clean : ∀ text ∈ values, text.hasSurrogate = false) :
    Writable (Json.texts values) := by
  rw [Json.texts, Writable, writable_items_iff]
  intro item member
  obtain ⟨text, given, rfl⟩ := List.mem_map.mp member
  exact clean text given

theorem writable_list {α : Type} (write : α → Json) (items : List α) (each : ∀ item ∈ items, Writable (write item)) :
    Writable (Json.ofList write items) := by
  rw [Json.ofList, Writable, writable_items_iff]
  intro written member
  obtain ⟨item, given, rfl⟩ := List.mem_map.mp member
  exact each item given

def WritableEntries (entries : List (Text × Json)) : Prop :=
  ∀ entry ∈ entries, entry.1.hasSurrogate = false ∧ Writable entry.2

theorem writable_entries_nil : WritableEntries [] := by simp [WritableEntries]

theorem writable_entries_cons (name : String) (value : Json) (rest : List (Text × Json)) (first : Writable value)
    (others : WritableEntries rest) : WritableEntries ((name, value) :: rest) :=
  List.forall_mem_cons.mpr ⟨⟨Text.has_surrogate_of_string name, first⟩, others⟩

theorem writable_entries_null (name : String) (rest : List (Text × Json)) (others : WritableEntries rest) :
    WritableEntries ((name, .null) :: rest) :=
  writable_entries_cons name .null rest trivial others

theorem writable_entries_append (a b : List (Text × Json)) (first : WritableEntries a) (second : WritableEntries b) :
    WritableEntries (a ++ b) := by
  intro entry member
  rcases List.mem_append.mp member with front | back
  · exact first entry front
  · exact second entry back

theorem writable_record (nulls : Nulls) (entries : List (Text × Json)) (writable : WritableEntries entries) :
    Writable (nulls.record entries) := by
  rw [Nulls.record, Writable, writable_fields_iff]
  intro entry member
  cases nulls with
  | kept => exact writable entry member
  | dropped => exact writable entry (List.mem_filter.mp member).1

theorem writable_record_moved {α : Type} (write : α → Json) (name : Text) (front back : List (Text × Json))
    (items others : List α) (moved : items.Perm others)
    (writable : Writable (Nulls.dropped.record (front ++ (name, Json.ofList write items) :: back))) :
    Writable (Nulls.dropped.record (front ++ (name, Json.ofList write others) :: back)) := by
  have kept (given : List α) : Nulls.dropped.entries (front ++ (name, Json.ofList write given) :: back) =
      Nulls.dropped.entries front ++ (name, Json.ofList write given) :: Nulls.dropped.entries back := by
    rw [Nulls.entries, List.filter_append]
    rfl
  rw [Nulls.record, kept, Writable, writable_fields_iff, List.forall_mem_append, List.forall_mem_cons] at writable ⊢
  obtain ⟨before, ⟨clean, list⟩, behind⟩ := writable
  refine ⟨before, ⟨clean, ?_⟩, behind⟩
  rw [Json.ofList, Writable, writable_items_iff, List.forall_mem_map] at list ⊢
  exact fun item inside => list item (moved.mem_iff.mpr inside)

theorem action_tag_clean (action : Action) : action.tag.hasSurrogate = false := by
  cases action with
  | request kind _ => cases kind <;> exact Text.has_surrogate_of_string _
  | _ => exact Text.has_surrogate_of_string _

theorem writable_node (nulls : Nulls) (node : Node) (id : node.id.hasSurrogate = false)
    (waits : ∀ dependency ∈ node.dependsOn.getD [], dependency.hasSurrogate = false)
    (action : WritableEntries (node.action.entries nulls)) : Writable (node.toJson nulls) := by
  have dependencies : Writable (Json.ofOption Json.texts node.dependsOn) := by
    cases given : node.dependsOn with
    | none => trivial
    | some values =>
        rw [given] at waits
        exact writable_texts values waits
  apply writable_record
  refine writable_entries_append _ _ ?_ action
  exact writable_entries_cons _ _ _ id (writable_entries_cons _ _ _ (action_tag_clean node.action)
    (writable_entries_cons _ _ _ dependencies writable_entries_nil))

theorem writable_output (nulls : Nulls) (output : OutputRef) (name : output.name.hasSurrogate = false)
    (source : output.source.hasSurrogate = false) (pointer : output.pointer = none) :
    Writable (output.toJson nulls) := by
  apply writable_record
  refine writable_entries_cons _ _ _ name (writable_entries_cons _ _ _ source ?_)
  rw [pointer]
  exact writable_entries_null _ _ writable_entries_nil

structure Request.Spoken (r : Request) (names : List Text) : Prop where
  rest : r = { Request.empty with system := r.system, user := r.user, tools := r.tools, toolMode := r.toolMode }
  named : r.tools.getD [] = names.map .named

theorem writable_spoken (nulls : Nulls) (r : Request) (names : List Text) (spoken : r.Spoken names)
    (system : ∀ text ∈ r.system.toList, text.hasSurrogate = false) (user : ∀ text ∈ r.user.toList, text.hasSurrogate = false)
    (tools : ∀ name ∈ names, name.hasSurrogate = false) : WritableEntries (r.entries nulls) := by
  have written_tools : Writable (Json.ofOption (Json.ofList Tool.toJson) r.tools) := by
    cases given : r.tools with
    | none => trivial
    | some list =>
        have named : list = names.map .named := by simpa [given] using spoken.named
        refine writable_list Tool.toJson list fun tool member => ?_
        rw [named] at member
        obtain ⟨name, inside, rfl⟩ := List.mem_map.mp member
        exact tools name inside
  have written_mode : Writable (Json.ofOption ToolMode.toJson r.toolMode) := by
    cases r.toolMode with
    | none => trivial
    | some mode =>
        refine (writable_fields_iff _).mpr (writable_entries_cons _ _ _ ?_ writable_entries_nil)
        cases mode <;> exact Text.has_surrogate_of_string _
  rw [spoken.rest]
  refine writable_entries_null _ _ ?_
  refine writable_entries_cons _ _ _ (writable_text r.system system) ?_
  refine writable_entries_cons _ _ _ (writable_text r.user user) ?_
  refine writable_entries_null _ _ (writable_entries_null _ _ ?_)
  refine writable_entries_cons _ _ _ written_tools ?_
  refine writable_entries_cons _ _ _ written_mode ?_
  exact writable_entries_null _ _ (writable_entries_null _ _ writable_entries_nil)

theorem spoken_freeform (r : Request) (names : List Text) (spoken : r.Spoken names) : r.freeform = [] := by
  have input : r.input = none := by rw [spoken.rest]; rfl
  rw [Request.freeform, input, spoken.named, List.flatMap_map]
  simp [Tool.freeform]

theorem digest_of_writable (spec : Spec) (freeform : spec.freeform = []) (writable : Writable spec.toPayload) :
    ∃ digest, spec.digest = .ok digest := by
  obtain ⟨text, written⟩ := (Json.Canonical.write_ok spec.toPayload).mpr writable
  refine ⟨Json.Canonical.digest text, ?_⟩
  rw [Spec.digest, Spec.canonicalText, Spec.payload, freeform]
  change (Outcome.ofCanonical (Json.Canonical.write spec.toPayload)).map Json.Canonical.digest = _
  rw [written]
  rfl

end PlanFlow
