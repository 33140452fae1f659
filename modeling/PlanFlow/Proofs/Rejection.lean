import PlanFlow.Proofs.Targets

/-!
What normalizing an object ends with. Reading it, building it and settling its tools all end with a result or a rejection,
except where a numeral of a binding target is beyond the limit of digits or the value of a condition cannot be written.
-/

set_option autoImplicit false

namespace PlanFlow

namespace Spec

theorem read_bound (input : Json) (s : Spec) (valid : Spec.ofJson input = .valid s) :
    Draft.checkParallelism (Json.ofInt? s.maxParallelism) = .valid s.maxParallelism := by
  have counts (n : Int) (given : s.maxParallelism = some n) : Counts n := by
    obtain ⟨fields, _, checked⟩ := (Checked.and_then_eq_valid _ _ _).mp valid
    obtain ⟨made, _⟩ := (Schema.closed_eq_valid _ _ _ _).mp checked
    simp only [Checked.seq_eq_valid, Checked.map_eq_valid] at made
    obtain ⟨_, _, ⟨_, _, ⟨_, _, ⟨_, bound, ⟨_, _, ⟨_, _, ⟨_, _, rfl⟩, _, rfl⟩, _, rfl⟩, bounded, rfl⟩, _, rfl⟩, _, rfl⟩,
      _, rfl⟩ := made
    have same : bound = some n := given
    obtain ⟨entry, _, fits⟩ := Schema.absentable_valid _ _ _ n (same ▸ bounded)
    exact Schema.count_of_valid entry.2 n fits
  exact (Plan.check_bound_eq_valid _ _ fun n given => (counts n given).1).mpr ⟨rfl, fun n given => (counts n given).2⟩

theorem read_object (fields : Table Json) :
    (∃ s, Spec.ofJson (.obj fields) = .valid s ∧ read (.value (.obj fields)) = .ok s) ∨
    ∃ issues, read (.value (.obj fields)) = .error (.rejected (.misshapen "workflow intent" issues)) := by
  cases checked : Spec.ofJson (.obj fields) with
  | valid s => exact Or.inl ⟨s, rfl, by simp [read, Payload.read, Payload.checkObject, checked]⟩
  | invalid issues => exact Or.inr ⟨issues, by simp [read, Payload.read, Payload.checkObject, checked, Outcome.reject]⟩

theorem with_tools_error (registry : ToolRegistry) (s : Spec) (failure : Failure)
    (failed : s.withTools registry = .error failure) : ∃ e, failure = .rejected e := by
  obtain ⟨e, _, rfl⟩ := (map_error_eq_error _ _ _).mp failed
  exact ⟨e, rfl⟩

end Spec

theorem normalize_ends (fields : Table Json) (context : Context) :
    (∃ spec, normalize (.value (.obj fields)) context = .ok spec) ∨
    (∃ e, normalize (.value (.obj fields)) context = .error (.rejected e)) ∨
    ∃ intent, Spec.ofJson (.obj fields) = .valid intent ∧
      ((∃ node ∈ intent.nodes, ∃ digits, node.Overlong digits ∧
          normalize (.value (.obj fields)) context = .error (.tooManyDigits (some digits.length))) ∨
        (∃ e ∈ intent.edges, ∃ obstacle, e.Blocked obstacle ∧
          normalize (.value (.obj fields)) context = .error (.unwritable obstacle)) ∨
        ∃ e ∈ intent.edges, e.Unprintable ∧ normalize (.value (.obj fields)) context = .error (.tooManyDigits none)) := by
  cases outcome : normalize (.value (.obj fields)) context with
  | ok spec => exact Or.inl ⟨spec, rfl⟩
  | error failure =>
      rcases Spec.read_object fields with ⟨intent, valid, read⟩ | ⟨issues, refused⟩
      · rw [normalize, read, ok_bind] at outcome
        rcases (bind_eq_error _ _ _).mp outcome with stopped | ⟨spec, _, unusable⟩
        · cases (Draft.ofSpec intent).build_stops _ (intent.read_bound _ valid) failure stopped with
          | rejected _ kind =>
              obtain ⟨e, rfl, _⟩ := kind
              exact Or.inr (Or.inl ⟨e, rfl⟩)
          | numeral node member digits long =>
              exact Or.inr (Or.inr ⟨intent, valid, Or.inl ⟨node, member, digits, long, rfl⟩⟩)
          | condition e member obstacle blocked =>
              exact Or.inr (Or.inr ⟨intent, valid, Or.inr (Or.inl ⟨e, member, obstacle, blocked, rfl⟩)⟩)
          | number e member long => exact Or.inr (Or.inr ⟨intent, valid, Or.inr (Or.inr ⟨e, member, long, rfl⟩)⟩)
        · obtain ⟨e, rfl⟩ := Spec.with_tools_error context.tools spec failure unusable
          exact Or.inr (Or.inl ⟨e, rfl⟩)
      · rw [normalize, refused] at outcome
        obtain rfl : .rejected _ = failure := Except.error.inj outcome
        exact Or.inr (Or.inl ⟨_, rfl⟩)

namespace Sample

def splicingInput (pointer : Text) : Json := .obj [
  ("nodes", .arr [.obj [("id", .str "notes"), ("type", .str "llm")],
    .obj [("id", .str "summary"), ("type", .str "llm"), ("system", .str "You sum up."), ("user", .str "Sum up."),
      ("bindings", .arr [.obj [("from", .str "notes"), ("to", .str pointer)]])]]),
  ("outputs", .arr [.obj [("name", .str "result"), ("from", .str "summary")]])]

theorem splicing_read (rest : Text) :
    Spec.read (.value (splicingInput ("/input/" ++ rest))) = .ok (splicing ("/input/" ++ rest)) := rfl

-- All checks before those of the bindings pass, so how these fail is how the workflow fails.
theorem splicing_stops (pointer : Text) (failure : Failure)
    (failed : Target.checkBindings "summary" summing.messages [aiming pointer] = .error failure) :
    (Draft.ofSpec (splicing pointer)).build = .error failure := by
  have nonempty : (splicing pointer).nodes.isEmpty = false := rfl
  have distinct : Draft.checkDistinctIds [] (splicing pointer).nodes = .ok ["notes", "summary"] := rfl
  have ordered : Edge.canonicalOrder (splicing pointer).edges = .ok [] := rfl
  have dependencies : (splicing pointer).nodes.forM (Draft.checkDependencies ["notes", "summary"]) = .ok () := rfl
  have answered : (OutputRef.canonicalOrder (splicing pointer).outputs).isEmpty = false := rfl
  have outputs : (OutputRef.canonicalOrder (splicing pointer).outputs).forM (Draft.checkOutput ["notes", "summary"]) = .ok () :=
    rfl
  have sources : Draft.checkBindingSources ["notes", "summary"] "summary" 0 [aiming pointer] = .ok () := rfl
  have messages : ({ summing with bindings := some [aiming pointer] } : Request).messages = summing.messages := rfl
  have first : Draft.checkNode ["notes", "summary"] ⟨"notes", none, .request .llm Request.empty⟩ = .ok () := rfl
  have second : Draft.checkNode ["notes", "summary"]
      ⟨"summary", none, .request .llm { summing with bindings := some [aiming pointer] }⟩ = .error failure := by
    simp only [Draft.checkNode, Draft.checkRequest, Option.getD_some, sources, ok_bind, messages, failed]
  have nodes : (splicing pointer).nodes.forM (Draft.checkNode ["notes", "summary"]) = .error failure := by
    simp [splicing, first, second, bind, Except.bind]
  simp only [Draft.build, Draft.buildCounted, Draft.ofSpec, nonempty, distinct, ordered, dependencies, answered, outputs, nodes,
    ok_bind, Bool.false_eq_true, if_false]
  rfl

theorem splicing_overlong (digits : Text) (leads : Target.Leads digits []) (long : Decimal.digitLimit < digits.length)
    (context : Context) :
    normalize (.value (splicingInput ("/input/" ++ digits))) context = .error (.tooManyDigits (some digits.length)) := by
  have points := Target.indices_leading digits [] leads
  rw [List.append_nil] at points
  have checked : Target.check summing.messages ("/input/" ++ digits) = .error (.tooManyDigits (some digits.length)) := by
    simp only [Target.check, points, Target.number, gt_iff_lt, if_pos long]
  have given : (aiming ("/input/" ++ digits)).target.bind Text.orAbsent = some ("/input/" ++ digits) := rfl
  have failed : Target.checkBindings "summary" summing.messages [aiming ("/input/" ++ digits)] =
      .error (.tooManyDigits (some digits.length)) := by
    simp only [Target.checkBindings, Target.checkBindingsFrom, Target.checkBinding, given, checked]
  rw [normalize, splicing_read, ok_bind, splicing_stops _ _ failed]
  rfl

def bare : Context := ⟨AgentRegistry.ofList [], ToolRegistry.standard, []⟩

def nines (count : Nat) : Text := List.replicate count '9'

theorem nines_lead (count : Nat) (filled : count ≠ 0) : Target.Leads (nines count) [] where
  filled := fun none => filled (by simpa [nines] using none)
  each c member := by
    rw [List.eq_of_mem_replicate member]
    rfl
  stops := nofun

end Sample

theorem sample_overlong_unrejected :
    normalize (.value (Sample.splicingInput ("/input/" ++ Sample.nines 4301))) Sample.bare = .error (.tooManyDigits (some 4301)) ∧
    ∀ e, Failure.tooManyDigits (some 4301) ≠ .rejected e := by
  have many : (Sample.nines 4301).length = 4301 := List.length_replicate
  have long : Decimal.digitLimit < (Sample.nines 4301).length := by
    rw [many]
    decide
  have stopped := Sample.splicing_overlong _ (Sample.nines_lead 4301 (by decide)) long Sample.bare
  rw [many] at stopped
  exact ⟨stopped, nofun⟩

end PlanFlow
