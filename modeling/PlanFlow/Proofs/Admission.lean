import PlanFlow.Proofs.RoundTrip

/-!
What the readers let through. A specification that is read from JSON in which every object has distinct keys is valid,
and holds no floating-point numbers that were not there.
-/

set_option autoImplicit false

namespace PlanFlow

open Schema
open Checked (map_eq_valid seq_eq_valid and_then_eq_valid under_eq_valid)

namespace Payload

variable {α : Type}

def Carries : Payload α → Json → Prop
  | .parsed _, _ => False
  | .value given, json => given = json
  | .text t, json => Json.readUnmarked t = .ok json
  | .octets bytes, json => ∃ t, Octets.decode bytes = .ok t ∧ Json.read t = .ok json

theorem check_object_eq_ok (label : Text) (check : Json → Checked α) (json : Json) (value : α) :
    checkObject label check json = .ok value ↔ (∃ fields, json = .obj fields) ∧ check json = .valid value := by
  cases json with
  | obj fields => cases checked : check (.obj fields) <;> simp [checkObject, checked, Outcome.reject]
  | _ => simp [checkObject, Outcome.reject]

theorem carried_read (p : Payload α) (json : Json) (carries : p.Carries json) (label : Text) (check : Json → Checked α)
    (value : α) : p.read label check = .ok value ↔ (∃ fields, json = .obj fields) ∧ check json = .valid value := by
  rw [← check_object_eq_ok label]
  cases p with
  | parsed given => exact carries.elim
  | value given =>
      obtain rfl : given = json := carries
      cases given <;> simp [read, checkObject, Outcome.reject]
  | text t =>
      have opened : Json.readUnmarked t = .ok json := carries
      rw [read, opened, ofRead, ok_bind]
  | octets bytes =>
      obtain ⟨t, decoded, opened⟩ := carries
      rw [read, decode, decoded]
      simp only [opened, ofRead, ok_bind]

end Payload

namespace Schema

variable {α : Type} {numbers : Binary64 → Prop} {check : Json → Checked α} {p : α → Prop}

def Admits (numbers : Binary64 → Prop) (check : Json → Checked α) (p : α → Prop) : Prop :=
  ∀ input, input.Regular numbers → ∀ value, check input = .valid value → p value

structure Proper (numbers : Binary64 → Prop) (fields : Table Json) : Prop where
  plain : Table.Plain fields
  values : ∀ entry ∈ fields, entry.2.Regular numbers

def AdmitsFields (numbers : Binary64 → Prop) (read : Table Json → Checked α) (p : α → Prop) : Prop :=
  ∀ fields, Proper numbers fields → ∀ value, read fields = .valid value → p value

theorem find_regular (label : Label) (fields : Table Json) (proper : Proper numbers fields) (name : Text) (given : Json)
    (found : label.find? fields = some (name, given)) : given.Regular numbers := by
  obtain ⟨key, member⟩ := find_mem label fields name given found
  exact proper.values (key, given) member

theorem required_admits (label : Label) (admits : Admits numbers check p) : AdmitsFields numbers (required label check) p := by
  intro fields proper value valid
  obtain ⟨entry, found, fits⟩ := (required_eq_valid label check fields value).mp valid
  exact admits entry.2 (find_regular label fields proper _ _ found) value fits

theorem defaulted_admits (label : Label) (fallback : α) (own : p fallback) (admits : Admits numbers check p) :
    AdmitsFields numbers (defaulted label check fallback) p := by
  intro fields proper value valid
  rcases (defaulted_eq_valid label check fallback fields value).mp valid with ⟨_, rfl⟩ | ⟨entry, found, fits⟩
  · exact own
  · exact admits entry.2 (find_regular label fields proper _ _ found) value fits

theorem absentable_admits (label : Label) (admits : Admits numbers check p) :
    AdmitsFields numbers (absentable label check) fun given => ∀ value ∈ given, p value := by
  refine defaulted_admits label none nofun fun input regular given valid value held => ?_
  obtain rfl := Option.mem_def.mp held
  cases input with
  | null => cases valid
  | _ =>
      obtain ⟨inner, fits, same⟩ := (map_eq_valid some _ _).mp valid
      exact Option.some.inj same ▸ admits _ regular inner fits

theorem list_from_admits (admits : Admits numbers check p) (items : List Json) (regular : ∀ item ∈ items, item.Regular numbers)
    (start : Nat) (values : List α) (valid : listFrom check start items = .valid values) :
    ∀ value ∈ values, p value := by
  induction items generalizing start values with
  | nil =>
      obtain rfl := Checked.valid.inj valid
      exact nofun
  | cons head tail ih =>
      simp only [listFrom, seq_eq_valid, map_eq_valid, under_eq_valid] at valid
      obtain ⟨_, others, ⟨first, fits, rfl⟩, rest, rfl⟩ := valid
      obtain ⟨head_regular, tail_regular⟩ := List.forall_mem_cons.mp regular
      exact List.forall_mem_cons.mpr ⟨admits head head_regular first fits, ih tail_regular _ others rest⟩

theorem list_admits (admits : Admits numbers check p) : Admits numbers (listOf check) fun values => ∀ value ∈ values, p value := by
  intro input regular values valid
  cases input with
  | arr items => exact list_from_admits admits items ((Json.regular_items_iff _ items).mp regular) 0 values valid
  | _ => cases valid

theorem table_from_admits (admits : Admits numbers check p) (fields : Table Json)
    (regular : ∀ entry ∈ fields, entry.2.Regular numbers) (table : Table α) (valid : tableFrom check fields = .valid table) :
    ∀ entry ∈ table, p entry.2 := by
  induction fields generalizing table with
  | nil =>
      obtain rfl := Checked.valid.inj valid
      exact nofun
  | cons head tail ih =>
      simp only [tableFrom, seq_eq_valid, map_eq_valid] at valid
      obtain ⟨_, others, ⟨entry, first, rfl⟩, rest, rfl⟩ := valid
      obtain ⟨value, fits, rfl⟩ : ∃ value, check head.2 = .valid value ∧ (head.1, value) = entry := by
        cases given : check head.2 with
        | invalid issues => simp [given, Checked.under, Checked.map] at first
        | valid value => exact ⟨value, rfl, by simpa [given, Checked.under, Checked.map] using first⟩
      obtain ⟨head_regular, tail_regular⟩ := List.forall_mem_cons.mp regular
      exact List.forall_mem_cons.mpr ⟨admits _ head_regular value fits, ih tail_regular others rest⟩

theorem table_admits (admits : Admits numbers check p) :
    Admits numbers (tableOf check) fun table => ∀ entry ∈ table, p entry.2 := by
  intro input regular table valid
  cases input with
  | obj fields =>
      exact table_from_admits admits fields ((Json.regular_fields_iff _ fields).mp regular.2) table valid
  | _ => cases valid

theorem extras_proper (labels : List Label) (fields : Table Json) (proper : Proper numbers fields) :
    Proper numbers (extras labels fields) ∧ ∀ name ∈ labels.map Label.name, name ∉ Table.keys (extras labels fields) := by
  have part : (extras labels fields).Sublist fields := List.filter_sublist
  obtain ⟨distinct, clean⟩ := proper.plain
  have names := part.map Prod.fst
  refine ⟨⟨⟨distinct.sublist names, fun key member => clean key (names.subset member)⟩, fun entry member => ?_⟩,
    fun name known member => ?_⟩
  · exact proper.values entry (part.subset member)
  · obtain ⟨value, inside⟩ := (Table.mem_keys _ _).mp member
    obtain ⟨held, unclaimed⟩ := List.mem_filter.mp inside
    have own := claimed_of_key labels fields name known (List.mem_map_of_mem held)
    simp [← claimed.eq_def, own] at unclaimed

theorem keyed_eq_valid (fields other : Table Json) (valid : keyed fields = .valid other) :
    other = fields ∧ ∀ key ∈ Table.keys fields, key.hasSurrogate = false := by
  cases placed : (Table.keys fields).find? Text.hasSurrogate with
  | some key => simp [keyed, placed, Checked.fail] at valid
  | none =>
      refine ⟨by simpa [keyed, placed] using valid.symm, fun key member => ?_⟩
      exact Bool.eq_false_iff.mpr (List.find?_eq_none.mp placed key member)

theorem keyed_proper (fields other : Table Json) (regular : (Json.obj fields).Regular numbers)
    (valid : keyed fields = .valid other) : Proper numbers other := by
  obtain ⟨rfl, clean⟩ := keyed_eq_valid fields other valid
  exact ⟨⟨regular.1, clean⟩, (Json.regular_fields_iff _ _).mp regular.2⟩

theorem record_admits (name : Text) (read : Json → Table Json → Checked α)
    (each : ∀ input, AdmitsFields numbers (read input) p) :
    Admits numbers (fun input => (record name input).andThen (read input)) p := by
  intro input regular value valid
  obtain ⟨fields, opened, made⟩ := (and_then_eq_valid _ _ _).mp valid
  cases input with
  | obj given => exact each _ fields (keyed_proper given fields regular opened) value made
  | _ => cases opened

theorem read_tagged_eq_valid (readers : TaggedReader α) (fields : Table Json) (value : α) :
    readTagged readers (.obj fields) = .valid value ↔ ∃ tag read, Table.get? "type" fields = some (.str tag) ∧
      Table.get? tag readers = some read ∧ ∃ given, keyed fields = .valid given ∧ read given = .valid value := by
  constructor
  · intro valid
    cases tagged : Table.get? "type" fields with
    | none => simp [readTagged, tagged, Checked.fail] at valid
    | some tag =>
        cases tag with
        | str name =>
            cases known : Table.get? name readers with
            | none => simp [readTagged, tagged, known, Checked.fail] at valid
            | some read =>
                simp only [readTagged, tagged, known, Option.map_some, under_eq_valid] at valid
                exact ⟨name, read, rfl, known, (and_then_eq_valid _ _ _).mp valid⟩
        | _ => simp [readTagged, tagged, Checked.fail] at valid
  · rintro ⟨tag, read, tagged, known, opened⟩
    simp only [readTagged, tagged, known, Option.map_some, under_eq_valid]
    exact (and_then_eq_valid _ _ _).mpr opened

theorem tagged_admits (readers : TaggedReader α) (each : ∀ entry ∈ readers, AdmitsFields numbers entry.2 p) :
    Admits numbers (readTagged readers) p := by
  intro input regular value valid
  cases input with
  | obj fields =>
      obtain ⟨tag, read, _, known, given, opened, made⟩ := (read_tagged_eq_valid readers fields value).mp valid
      exact each _ (Table.mem_of_get tag readers read known) given (keyed_proper fields given regular opened) value made
  | _ => cases valid

theorem name_admitted : Admits numbers nonEmptyText Text.Names := by
  intro input _ t valid
  cases input with
  | str given =>
      by_cases lone : given.hasSurrogate = true
      · simp [nonEmptyText, lone, Checked.fail] at valid
      by_cases empty : given.isEmpty = true
      · simp [nonEmptyText, lone, empty, Checked.fail] at valid
      · rw [nonEmptyText, if_neg lone, if_neg empty, Checked.valid.injEq] at valid
        subst valid
        exact ⟨by simpa using empty, Bool.eq_false_iff.mpr lone⟩
  | _ => cases valid

theorem count_admitted : Admits numbers positiveInteger Counts := fun input _ n valid => count_of_valid input n valid

theorem free_admitted : Admits numbers Checked.valid (Json.Regular numbers) :=
  fun _ regular _ valid => Checked.valid.inj valid ▸ regular

end Schema

variable {numbers : Binary64 → Prop}

theorem condition_admitted : Admits numbers Condition.ofJson (Condition.Valid numbers) := by
  refine record_admits "Condition" _ fun input fields proper c valid => ?_
  simp only [and_then_eq_valid, closed_eq_valid, seq_eq_valid, map_eq_valid] at valid
  obtain ⟨made, ⟨⟨_, value, ⟨_, path, ⟨_, op, ⟨source, _, rfl⟩, _, rfl⟩, pathed, rfl⟩, valued, rfl⟩, _⟩, rooted⟩ := valid
  have named := required_admits "path" name_admitted fields proper path pathed
  have free := defaulted_admits "value" .null trivial free_admitted fields proper value valued
  by_cases starts : path.startsWith "$" = true
  · rw [Condition.checkPath, if_pos starts, Checked.valid.injEq] at rooted
    subst rooted
    exact ⟨starts, named.2, free⟩
  · rw [Condition.checkPath, if_neg starts] at rooted
    cases rooted

theorem edge_admitted : Admits numbers Edge.ofJson (Edge.Valid numbers) := by
  refine record_admits "Edge" _ fun input fields proper e valid => ?_
  simp only [closed_eq_valid, seq_eq_valid, map_eq_valid] at valid
  obtain ⟨⟨_, condition, ⟨_, target, ⟨source, first, rfl⟩, second, rfl⟩, third, rfl⟩, _⟩ := valid
  exact ⟨required_admits .source name_admitted fields proper source first,
    required_admits "to" name_admitted fields proper target second,
    absentable_admits "when" condition_admitted fields proper condition third⟩

theorem output_admitted : Admits numbers OutputRef.ofJson OutputRef.Faithful := by
  refine record_admits "OutputRef" _ fun input fields proper o valid => ?_
  simp only [closed_eq_valid, seq_eq_valid, map_eq_valid] at valid
  obtain ⟨⟨_, pointer, ⟨_, source, ⟨name, first, rfl⟩, second, rfl⟩, third, rfl⟩, _⟩ := valid
  exact ⟨required_admits "name" name_admitted fields proper name first,
    required_admits .source name_admitted fields proper source second⟩

theorem block_admitted : Admits numbers ContentBlock.ofJson (ContentBlock.Valid numbers) := by
  refine record_admits "ContentBlock" _ fun input fields proper b valid => ?_
  simp only [seq_eq_valid, map_eq_valid, Checked.valid.injEq] at valid
  obtain ⟨_, extra, ⟨_, text, ⟨kind, _, rfl⟩, _, rfl⟩, rfl, rfl⟩ := valid
  obtain ⟨others, beyond⟩ := extras_proper ["type", "text"] fields proper
  exact ⟨others.plain, ⟨beyond "type" (by simp), beyond "text" (by simp)⟩, others.values⟩

theorem message_admitted : Admits numbers Message.ofJson (Message.Valid numbers) := by
  refine record_admits "InputMessage" _ fun input fields proper m valid => ?_
  simp only [closed_eq_valid, seq_eq_valid, map_eq_valid] at valid
  obtain ⟨⟨_, content, ⟨_, role, ⟨kind, _, rfl⟩, second, rfl⟩, third, rfl⟩, _⟩ := valid
  exact ⟨required_admits "role" name_admitted fields proper role second,
    defaulted_admits "content" [] nofun (list_admits block_admitted) fields proper content third⟩

theorem check_target_valid (input : Json) (given b : Binding) (valid : Binding.checkTarget input given = .valid b) :
    b = given ∧ (given.target.bind Text.orAbsent).isSome ≠ (given.placeholder.bind Text.orAbsent).isSome := by
  by_cases both : (given.target.bind Text.orAbsent).isSome = (given.placeholder.bind Text.orAbsent).isSome
  · simp [Binding.checkTarget, both, Checked.fail] at valid
  · rw [Binding.checkTarget, if_neg (by simpa using both), Checked.valid.injEq] at valid
    exact ⟨valid.symm, both⟩

theorem binding_admitted : Admits numbers Binding.ofJson Binding.Faithful := by
  refine record_admits "Binding" _ fun input fields proper b valid => ?_
  simp only [and_then_eq_valid, closed_eq_valid, seq_eq_valid, map_eq_valid] at valid
  obtain ⟨_, ⟨⟨_, encoding, ⟨_, placeholder, ⟨_, target, ⟨_, pointer, ⟨source, first, rfl⟩, _, rfl⟩, _, rfl⟩, _, rfl⟩,
    _, rfl⟩, _⟩, aimed⟩ := valid
  obtain ⟨rfl, one⟩ := check_target_valid input _ b aimed
  exact ⟨required_admits .source name_admitted fields proper source first, one⟩

theorem tool_admitted : Admits numbers Tool.ofJson (Tool.Valid numbers) := by
  intro input regular tool valid
  cases input with
  | str name => exact Checked.valid.inj valid ▸ trivial
  | obj fields => exact Checked.valid.inj valid ▸ regular
  | _ => cases valid

theorem value_ref_admitted : Admits numbers ValueRef.ofJson fun ref => ref.source.Names := by
  refine record_admits "ValueRef" _ fun input fields proper r valid => ?_
  simp only [closed_eq_valid, seq_eq_valid, map_eq_valid] at valid
  obtain ⟨⟨_, pointer, ⟨source, first, rfl⟩, _, rfl⟩, _⟩ := valid
  exact required_admits .source name_admitted fields proper source first

theorem request_admitted : AdmitsFields numbers Request.ofFields (Request.Valid numbers) := by
  intro fields proper r valid
  simp only [Request.ofFields, seq_eq_valid, map_eq_valid] at valid
  obtain ⟨_, bindings, ⟨_, limits, ⟨_, mode, ⟨_, tools, ⟨_, stream, ⟨_, messages, ⟨_, user, ⟨_, system, ⟨model, _, rfl⟩,
    _, rfl⟩, _, rfl⟩, input, rfl⟩, _, rfl⟩, used, rfl⟩, _, rfl⟩, limited, rfl⟩, bound, rfl⟩ := valid
  exact ⟨absentable_admits "input" (list_admits message_admitted) fields proper messages input,
    absentable_admits "tools" (list_admits tool_admitted) fields proper tools used,
    absentable_admits "bindings" (list_admits binding_admitted) fields proper bindings bound⟩

theorem transform_admitted : AdmitsFields numbers Transform.ofFields Transform.Valid := by
  intro fields proper t valid
  simp only [Transform.ofFields, seq_eq_valid, map_eq_valid] at valid
  obtain ⟨_, merge, ⟨object, first, rfl⟩, second, rfl⟩ := valid
  exact ⟨absentable_admits "object" (table_admits value_ref_admitted) fields proper object first,
    absentable_admits "merge" (list_admits value_ref_admitted) fields proper merge second⟩

theorem frame_admitted (tag : Text) : AdmitsFields numbers (Frame.ofFields tag) fun frame => frame.id.Names := by
  intro fields proper frame valid
  simp only [Frame.ofFields, seq_eq_valid, map_eq_valid] at valid
  obtain ⟨_, waits, ⟨_, _, ⟨id, first, rfl⟩, _, rfl⟩, _, rfl⟩ := valid
  exact required_admits "id" name_admitted fields proper id first

theorem map_admits {α β : Type} {read : Table Json → Checked α} {p : α → Prop} {q : β → Prop} (f : α → β)
    (step : ∀ value, p value → q (f value)) (admits : AdmitsFields numbers read p) :
    AdmitsFields numbers (fun fields => (read fields).map f) q := by
  intro fields proper value valid
  obtain ⟨inner, made, rfl⟩ := (map_eq_valid f _ _).mp valid
  exact step inner (admits fields proper inner made)

theorem subnode_read_admits (tag : Text) (labels : List Label) (action : Table Json → Checked SubAction)
    (admits : AdmitsFields numbers action (SubAction.Valid numbers)) :
    AdmitsFields numbers (SubNode.read tag labels action) (SubNode.Valid numbers) := by
  intro fields proper n valid
  simp only [SubNode.read, closed_eq_valid, seq_eq_valid, map_eq_valid] at valid
  obtain ⟨⟨_, does, ⟨frame, framed, rfl⟩, acted, rfl⟩, _⟩ := valid
  exact ⟨frame_admitted tag fields proper frame framed, admits fields proper does acted⟩

theorem subnode_admitted : Admits numbers SubNode.ofJson (SubNode.Valid numbers) := by
  refine tagged_admits _ ?_
  simp only [SubNode.readers, List.forall_mem_cons]
  have request (kind : RequestKind) : AdmitsFields numbers (SubNode.readRequest kind) (SubNode.Valid numbers) :=
    subnode_read_admits _ _ _ (map_admits (SubAction.request kind) (fun _ => id) request_admitted)
  exact ⟨request .llm, request .routeSwitch,
    subnode_read_admits _ _ _ (map_admits SubAction.transform (fun _ => id) transform_admitted), List.forall_mem_nil _⟩

-- Whether a fan-out names one source of items is checked later, with the node.
theorem fan_out_admitted : AdmitsFields numbers FanOut.ofFields fun f => f.hasOneSource = true → f.Valid numbers := by
  intro fields proper f valid one
  simp only [FanOut.ofFields, seq_eq_valid, map_eq_valid] at valid
  obtain ⟨_, bound, ⟨_, bindings, ⟨_, subnode, ⟨_, pointer, ⟨_, given, ⟨source, _, rfl⟩, _, rfl⟩, _, rfl⟩, inner, rfl⟩,
    filled, rfl⟩, parallel, rfl⟩ := valid
  exact ⟨one, required_admits "subnode" subnode_admitted fields proper subnode inner,
    absentable_admits "item_bindings" (list_admits binding_admitted) fields proper bindings filled,
    absentable_admits "max_parallelism" count_admitted fields proper bound parallel⟩

theorem node_read_admits (tag : Text) (labels : List Label) (action : Table Json → Checked Action) (p : Action → Prop)
    (admits : AdmitsFields numbers action p) : AdmitsFields numbers (Node.read tag labels action) fun n => n.id.Names ∧ p n.action := by
  intro fields proper n valid
  simp only [Node.read, closed_eq_valid, seq_eq_valid, map_eq_valid] at valid
  obtain ⟨⟨_, does, ⟨frame, framed, rfl⟩, acted, rfl⟩, _⟩ := valid
  exact ⟨frame_admitted tag fields proper frame framed, admits fields proper does acted⟩

theorem node_admits (tag : Text) (labels : List Label) (action : Table Json → Checked Action)
    (admits : AdmitsFields numbers action (Action.Valid numbers)) : AdmitsFields numbers (Node.read tag labels action) (Node.Valid numbers) := by
  intro fields proper n valid
  obtain ⟨names, acts⟩ := node_read_admits tag labels action (Action.Valid numbers) admits fields proper n valid
  exact ⟨names, acts⟩

theorem join_collect_admitted : AdmitsFields numbers (fun fields =>
    Action.joinCollect <$> absentable "limit" positiveInteger fields <*> absentable "timeout_ms" positiveInteger fields
      <*> absentable "predicate" Condition.ofJson fields) (Action.Valid numbers) := by
  intro fields proper action valid
  simp only [seq_eq_valid, map_eq_valid] at valid
  obtain ⟨_, predicate, ⟨_, timeout, ⟨limit, first, rfl⟩, second, rfl⟩, third, rfl⟩ := valid
  exact ⟨absentable_admits "limit" count_admitted fields proper limit first,
    absentable_admits "timeout_ms" count_admitted fields proper timeout second,
    absentable_admits "predicate" condition_admitted fields proper predicate third⟩

theorem Node.check_items_eq_valid (input : Json) (n made : Node) : checkItems input n = .valid made ↔
    n = made ∧ ∀ f, n.action = .mapFanout f → f.hasOneSource = true := by
  cases does : n.action with
  | mapFanout f => by_cases one : f.hasOneSource = true <;> simp [checkItems, does, one, Checked.fail]
  | _ => simp [checkItems, does]

theorem read_fan_out_admitted : AdmitsFields numbers Node.readFanOut (Node.Valid numbers) := by
  intro fields proper n valid
  obtain ⟨made, read, checked⟩ := (and_then_eq_valid _ _ _).mp valid
  obtain ⟨rfl, one⟩ := (Node.check_items_eq_valid _ made n).mp checked
  have action := map_admits (q := fun action => ∃ f, action = Action.mapFanout f ∧ (f.hasOneSource = true → f.Valid numbers))
    Action.mapFanout (fun f fits => ⟨f, rfl, fits⟩) fan_out_admitted
  obtain ⟨names, f, does, fits⟩ := node_read_admits _ _ _ _ action fields proper made read
  have acts : made.action.Valid numbers := does ▸ fits (one f does)
  exact ⟨names, acts⟩

theorem node_admitted : Admits numbers Node.ofJson (Node.Valid numbers) := by
  refine tagged_admits _ ?_
  simp only [Node.readers, List.forall_mem_cons]
  have request (kind : RequestKind) : AdmitsFields numbers (Node.readRequest kind) (Node.Valid numbers) :=
    node_admits _ _ _ (map_admits (Action.request kind) (fun _ => id) request_admitted)
  have all : AdmitsFields numbers (fun _ => Checked.valid Action.joinAll) (Action.Valid numbers) :=
    fun _ _ _ valid => Checked.valid.inj valid ▸ trivial
  have any := map_admits (q := Action.Valid numbers) Action.joinAny (fun _ => id)
    (absentable_admits "predicate" condition_admitted)
  exact ⟨request .llm, request .routeSwitch, node_admits _ _ _ all, node_admits _ _ _ any,
    node_admits _ _ _ join_collect_admitted,
    node_admits _ _ _ (map_admits Action.transform (fun _ => id) transform_admitted),
    read_fan_out_admitted, List.forall_mem_nil _⟩

theorem nodes_admitted : AdmitsFields numbers (defaulted "nodes" (listOf Node.ofJson) [])
    fun nodes => ∀ node ∈ nodes, node.Valid numbers :=
  defaulted_admits "nodes" [] (List.forall_mem_nil _) (list_admits node_admitted)

theorem edges_admitted : AdmitsFields numbers (defaulted "edges" (listOf Edge.ofJson) [])
    fun edges => ∀ edge ∈ edges, edge.Valid numbers :=
  defaulted_admits "edges" [] (List.forall_mem_nil _) (list_admits edge_admitted)

theorem outputs_admitted : AdmitsFields numbers (defaulted "outputs" (listOf OutputRef.ofJson) [])
    fun outputs => ∀ output ∈ outputs, output.Faithful :=
  defaulted_admits "outputs" [] (List.forall_mem_nil _) (list_admits output_admitted)

theorem spec_admitted : Admits numbers Spec.ofJson (Spec.Valid numbers) := by
  refine record_admits "WorkflowSpec" _ fun input fields proper s valid => ?_
  simp only [closed_eq_valid, seq_eq_valid, map_eq_valid] at valid
  obtain ⟨⟨_, outputs, ⟨_, edges, ⟨_, nodes, ⟨_, bound, ⟨_, model, ⟨_, name, ⟨_, _, rfl⟩, _, rfl⟩, _, rfl⟩, parallel, rfl⟩,
    listed, rfl⟩, linked, rfl⟩, answered, rfl⟩, _⟩ := valid
  have each_node : ∀ node ∈ nodes, node.Valid numbers := nodes_admitted fields proper nodes listed
  have each_edge : ∀ edge ∈ edges, edge.Valid numbers := edges_admitted fields proper edges linked
  have each_output : ∀ output ∈ outputs, output.Faithful := outputs_admitted fields proper outputs answered
  have counted := absentable_admits "max_parallelism" count_admitted fields proper bound parallel
  exact ⟨counted, each_node, each_edge, each_output⟩

end PlanFlow
