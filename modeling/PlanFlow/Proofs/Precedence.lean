import PlanFlow.Proofs.Sketch
import PlanFlow.Proofs.Validation

/-!
Which steps of a plan come before which, and how the synthesizer finds that out. In a valid plan the recorded
outputs that a step builds on are those of the steps it follows, the lookup of them never fails, and the last
node brings together the outputs of the steps that no step follows.
-/

set_option autoImplicit false

namespace PlanFlow

namespace Plan

-- In an explicit plan a step follows those whose ids it names, in any other the one right before it.
def Follows (plan : Plan) (later earlier : Nat) : Prop :=
  if plan.isExplicit then
    ∃ step source, plan.steps[later]? = some step ∧ plan.steps[earlier]? = some source ∧
      source.trimmedId ∈ step.dependencies.map Text.trim
  else later = earlier + 1 ∧ later < plan.steps.length

def Final (plan : Plan) (j : Nat) : Prop := j < plan.steps.length ∧ ∀ i, ¬ plan.Follows i j

section

variable (plan : Plan) (registry : AgentRegistry) (valid : plan.Valid registry)

theorem follows_of_explicit (explicit : plan.isExplicit = true) (later earlier : Nat) :
    plan.Follows later earlier ↔ ∃ step source, plan.steps[later]? = some step ∧
      plan.steps[earlier]? = some source ∧ source.trimmedId ∈ step.dependencies.map Text.trim := by
  rw [Follows, if_pos explicit]

theorem follows_of_implicit (implicit : ¬ plan.isExplicit = true) (later earlier : Nat) :
    plan.Follows later earlier ↔ later = earlier + 1 ∧ later < plan.steps.length := by
  rw [Follows, if_neg implicit]

theorem follows_found (later earlier : Nat) (follows : plan.Follows later earlier) :
    (∃ step, plan.steps[later]? = some step) ∧ ∃ source, plan.steps[earlier]? = some source := by
  by_cases explicit : plan.isExplicit = true
  · obtain ⟨step, source, found, before, _⟩ := (plan.follows_of_explicit explicit later earlier).mp follows
    exact ⟨⟨step, found⟩, ⟨source, before⟩⟩
  · obtain ⟨next, bound⟩ := (plan.follows_of_implicit explicit later earlier).mp follows
    have below : earlier < plan.steps.length := by omega
    exact ⟨⟨_, List.getElem?_eq_getElem bound⟩, ⟨_, List.getElem?_eq_getElem below⟩⟩

theorem keyed_outputs : plan.stepKeys.zip ((plan.outputsBefore plan.steps.length).map StepOutput.node) =
    (plan.entriesBefore plan.steps.length).map fun entry => (entry.1.key entry.2, entry.1.outputId entry.2) := by
  have keys : plan.stepKeys = (plan.entriesBefore plan.steps.length).map fun entry => entry.1.key entry.2 := by
    rw [stepKeys, entriesBefore, List.take_length, List.mapIdx_eq_zipIdx_map]
  rw [keys, outputsBefore, List.map_map, List.zip_map']
  rfl

theorem last_output (j : Nat) (source : PlanStep) (at_source : plan.steps[j]? = some source) :
    (plan.outputsBefore (j + 1)).getLast? = some (source.output j) := by
  rw [outputsBefore, plan.entries_before_succ j source at_source, List.map_append, List.map_singleton,
    List.getLast?_concat]

theorem mem_resolved_implicit (implicit : ¬ plan.isExplicit = true) (i : Nat) (step : PlanStep)
    (found : plan.steps[i]? = some step) (id : Text) :
    id ∈ (plan.resolved i step).map Prompt.Dependency.node ↔ ∃ (j : Nat) (source : PlanStep),
      plan.Follows i j ∧ plan.steps[j]? = some source ∧ id = source.outputId j := by
  simp only [resolved, if_neg implicit, List.map_map, List.mem_map, Option.mem_toList, plan.follows_of_implicit implicit]
  have bound := (List.getElem?_eq_some_iff.mp found).1
  cases i with
  | zero =>
      have nothing : (plan.outputsBefore 0).getLast? = none := rfl
      simp [nothing]
  | succ j =>
      have below : j < plan.steps.length := Nat.lt_of_succ_lt bound
      have at_source := List.getElem?_eq_getElem below
      simp only [plan.last_output j _ at_source, Option.some.injEq]
      constructor
      · rintro ⟨_, rfl, rfl⟩
        exact ⟨j, _, ⟨rfl, bound⟩, at_source, rfl⟩
      · rintro ⟨k, source, ⟨next, _⟩, at_other, rfl⟩
        obtain rfl : j = k := Nat.succ.inj next
        obtain rfl := Option.some.inj (at_source.symm.trans at_other)
        exact ⟨_, rfl, rfl⟩

theorem final_of_implicit (implicit : ¬ plan.isExplicit = true) (j : Nat) :
    plan.Final j ↔ j + 1 = plan.steps.length := by
  simp only [Final, plan.follows_of_implicit implicit]
  constructor
  · rintro ⟨bound, free⟩
    by_contra different
    exact free (j + 1) ⟨rfl, by omega⟩
  · intro last
    exact ⟨by omega, by omega⟩

theorem mem_terminals_implicit (implicit : ¬ plan.isExplicit = true) (nonempty : plan.steps ≠ []) (id : Text) :
    id ∈ plan.terminals ↔ ∃ (j : Nat) (source : PlanStep),
      plan.Final j ∧ plan.steps[j]? = some source ∧ id = source.outputId j := by
  obtain ⟨last, count⟩ := Nat.exists_eq_succ_of_ne_zero (mt List.length_eq_zero_iff.mp nonempty)
  have below : last < plan.steps.length := by omega
  have at_last := List.getElem?_eq_getElem below
  have ends : ((plan.outputsBefore plan.steps.length).map StepOutput.node).getLast? =
      some (plan.steps[last].outputId last) := by
    rw [count, List.getLast?_map, plan.last_output last _ at_last]
    rfl
  simp only [terminals, terminalOutputs, if_neg implicit, ends, Option.toList_some, List.mem_singleton,
    plan.final_of_implicit implicit]
  constructor
  · rintro rfl
    exact ⟨last, _, count.symm, at_last, rfl⟩
  · rintro ⟨j, source, final, at_source, rfl⟩
    obtain rfl : last = j := by omega
    obtain rfl := Option.some.inj (at_last.symm.trans at_source)
    rfl

theorem position_found (j : Nat) (source : PlanStep) (at_source : plan.steps[j]? = some source) :
    ∃ position ≤ j, plan.position? (source.key j) = some position := by
  obtain ⟨bound, rfl⟩ := List.getElem?_eq_some_iff.mp at_source
  have inside : j < plan.stepKeys.length := by simpa [stepKeys] using bound
  have key : plan.stepKeys[j] = plan.steps[j].key j := by simp [stepKeys]
  cases found : plan.position? (plan.steps[j].key j) with
  | none =>
      have missing := List.findIdx?_eq_none_iff.mp found _ (List.getElem_mem inside)
      simp [key] at missing
  | some position =>
      obtain ⟨_, _, first⟩ := List.findIdx?_eq_some_iff_getElem.mp found
      refine ⟨position, Nat.le_of_not_lt fun before => ?_, rfl⟩
      exact first j before (by simp [key])

include valid

theorem explicit_key (explicit : plan.isExplicit = true) (i : Nat) (step : PlanStep)
    (found : plan.steps[i]? = some step) : step.key i = step.trimmedId ∧ step.trimmedId ≠ [] := by
  have given := valid.givenIds explicit step (List.mem_of_getElem? found)
  simp [PlanStep.key, given]

theorem explicit_position (explicit : plan.isExplicit = true) (i j : Nat) (a b : PlanStep)
    (first : plan.steps[i]? = some a) (second : plan.steps[j]? = some b) (same : a.trimmedId = b.trimmedId) : i = j :=
  valid.distinctIds i j a b first second (valid.givenIds explicit a (List.mem_of_getElem? first)) same

theorem follows_earlier (later earlier : Nat) (follows : plan.Follows later earlier) : earlier < later := by
  by_cases explicit : plan.isExplicit = true
  · obtain ⟨step, source, found, before, named⟩ := (plan.follows_of_explicit explicit later earlier).mp follows
    obtain ⟨raw, member, same⟩ := List.mem_map.mp named
    obtain ⟨_, j, other, backward, at_other, other_id⟩ := valid.backward later step found raw member
    obtain rfl := plan.explicit_position registry valid explicit j earlier other source at_other before
      (other_id.trans same)
    exact backward
  · obtain ⟨next, _⟩ := (plan.follows_of_implicit explicit later earlier).mp follows
    omega

theorem follows_all_earlier (later earlier : Nat) (follows : Relation.TransGen plan.Follows later earlier) :
    earlier < later := by
  induction follows with
  | single direct => exact plan.follows_earlier registry valid _ _ direct
  | tail _ direct ih => exact Nat.lt_trans (plan.follows_earlier registry valid _ _ direct) ih

-- Ids are distinct, so what is recorded last under an id is the output of the only step that has it.
theorem latest_eq_some (explicit : plan.isExplicit = true) (index : Nat) (key node : Text) :
    Sketch.latest? (plan.outputsBefore index) key = some node ↔ ∃ (j : Nat) (source : PlanStep),
      j < index ∧ plan.steps[j]? = some source ∧ source.trimmedId = key ∧ node = source.outputId j := by
  have recorded (id : Text) (latest : Sketch.latest? (plan.outputsBefore index) key = some id) :
      ∃ (j : Nat) (source : PlanStep),
        j < index ∧ plan.steps[j]? = some source ∧ source.trimmedId = key ∧ id = source.outputId j := by
    obtain ⟨j, source, before, found, same⟩ := (plan.mem_outputs_before index _).mp (Sketch.latest_recorded _ _ _ latest)
    have keys : key = source.key j := congrArg StepOutput.key same
    have nodes : id = source.outputId j := congrArg StepOutput.node same
    exact ⟨j, source, before, found, ((plan.explicit_key registry valid explicit j source found).1.symm.trans keys.symm), nodes⟩
  constructor
  · exact recorded node
  · rintro ⟨j, source, before, found, rfl, rfl⟩
    have member := (plan.mem_outputs_before index (source.output j)).mpr ⟨j, source, before, found, rfl⟩
    have key := (plan.explicit_key registry valid explicit j source found).1
    cases latest : Sketch.latest? (plan.outputsBefore index) source.trimmedId with
    | none =>
        have missing := List.find?_eq_none.mp (Option.map_eq_none_iff.mp latest) _ (List.mem_reverse.mpr member)
        simp [PlanStep.output, key] at missing
    | some id =>
        obtain ⟨i, other, _, at_other, same, rfl⟩ := recorded id latest
        obtain rfl := plan.explicit_position registry valid explicit i j other source at_other found same
        obtain rfl := Option.some.inj (at_other.symm.trans found)
        rfl

theorem mem_resolved_explicit (explicit : plan.isExplicit = true) (i : Nat) (step : PlanStep)
    (found : plan.steps[i]? = some step) (id : Text) :
    id ∈ (plan.resolved i step).map Prompt.Dependency.node ↔ ∃ (j : Nat) (source : PlanStep),
      plan.Follows i j ∧ plan.steps[j]? = some source ∧ id = source.outputId j := by
  simp only [resolved, if_pos explicit, List.mem_map, List.mem_filterMap, mem_distinct, Option.map_eq_some_iff]
  constructor
  · rintro ⟨_, ⟨_, ⟨raw, member, rfl⟩, node, latest, rfl⟩, rfl⟩
    obtain ⟨j, source, _, at_source, same, rfl⟩ := (plan.latest_eq_some registry valid explicit i _ _).mp latest
    refine ⟨j, source, (plan.follows_of_explicit explicit i j).mpr ⟨step, source, found, at_source, ?_⟩, at_source, rfl⟩
    exact List.mem_map.mpr ⟨raw, member, same.symm⟩
  · rintro ⟨j, source, follows, at_source, rfl⟩
    have before := plan.follows_earlier registry valid i j follows
    obtain ⟨step', source', found', at_source', named⟩ := (plan.follows_of_explicit explicit i j).mp follows
    obtain rfl := Option.some.inj (found.symm.trans found')
    obtain rfl := Option.some.inj (at_source.symm.trans at_source')
    exact ⟨_, ⟨_, List.mem_map.mp named, _,
      (plan.latest_eq_some registry valid explicit i _ _).mpr ⟨j, source, before, at_source, rfl, rfl⟩, rfl⟩, rfl⟩

theorem mem_resolved (i : Nat) (step : PlanStep) (found : plan.steps[i]? = some step) (id : Text) :
    id ∈ (plan.resolved i step).map Prompt.Dependency.node ↔ ∃ (j : Nat) (source : PlanStep),
      plan.Follows i j ∧ plan.steps[j]? = some source ∧ id = source.outputId j := by
  by_cases explicit : plan.isExplicit = true
  · exact plan.mem_resolved_explicit registry valid explicit i step found id
  · exact plan.mem_resolved_implicit explicit i step found id

theorem mem_terminals_explicit (explicit : plan.isExplicit = true) (id : Text) :
    id ∈ plan.terminals ↔ ∃ (j : Nat) (source : PlanStep),
      plan.Final j ∧ plan.steps[j]? = some source ∧ id = source.outputId j := by
  simp only [terminals, terminalOutputs, if_pos explicit, keyed_outputs, List.mem_map, List.mem_filter, Prod.exists]
  constructor
  · rintro ⟨key, _, ⟨⟨source, j, entry, same⟩, free⟩, rfl⟩
    have at_source := (plan.mem_entries j source).mp entry
    have bound := (List.getElem?_eq_some_iff.mp at_source).1
    obtain ⟨rfl, rfl⟩ := Prod.mk.injEq .. ▸ same
    refine ⟨j, source, ⟨bound, fun i follows => ?_⟩, at_source, rfl⟩
    obtain ⟨step, other, found, at_other, named⟩ := (plan.follows_of_explicit explicit i j).mp follows
    obtain rfl := Option.some.inj (at_source.symm.trans at_other)
    have depended : source.key j ∈ plan.steps.flatMap fun step => step.dependencies.map Text.trim := by
      rw [(plan.explicit_key registry valid explicit j source at_source).1]
      exact List.mem_flatMap.mpr ⟨step, List.mem_of_getElem? found, named⟩
    simp [depended] at free
  · rintro ⟨j, source, ⟨_, free⟩, at_source, rfl⟩
    have entry := (plan.mem_entries j source).mpr at_source
    refine ⟨source.key j, _, ⟨⟨source, j, entry, rfl⟩, ?_⟩, rfl⟩
    rw [(plan.explicit_key registry valid explicit j source at_source).1, Bool.not_eq_true', ← Bool.not_eq_true,
      List.contains_iff_mem]
    intro depended
    obtain ⟨step, member, named⟩ := List.mem_flatMap.mp depended
    obtain ⟨i, found⟩ := List.mem_iff_getElem?.mp member
    exact free i ((plan.follows_of_explicit explicit i j).mpr ⟨step, source, found, at_source, named⟩)

theorem mem_terminals (id : Text) :
    id ∈ plan.terminals ↔ ∃ (j : Nat) (source : PlanStep),
      plan.Final j ∧ plan.steps[j]? = some source ∧ id = source.outputId j := by
  by_cases explicit : plan.isExplicit = true
  · exact plan.mem_terminals_explicit registry valid explicit id
  · exact plan.mem_terminals_implicit explicit valid.nonempty id

theorem dependencies_found (context : Context) (configured : List Text) (job : Job) (i : Nat) (step : PlanStep)
    (found : plan.steps[i]? = some step) :
    ∃ answer, plan.dependencies (plan.sketchBefore context configured job i) i step = .ok answer := by
  by_cases explicit : plan.isExplicit = true
  · have outputs (key : Text) (member : key ∈ distinct (step.dependencies.map Text.trim)) :
        plan.dependency (plan.sketchBefore context configured job i) i key =
          .ok ⟨key, (Sketch.latest? (plan.outputsBefore i) key).getD []⟩ := by
      obtain ⟨raw, given, rfl⟩ := List.mem_map.mp ((mem_distinct _ _).mp member)
      obtain ⟨_, j, source, before, at_source, same⟩ := valid.backward i step found raw given
      obtain ⟨position, bound, placed⟩ := plan.position_found j source at_source
      have latest := (plan.latest_eq_some registry valid explicit i raw.trim _).mpr ⟨j, source, before, at_source, same, rfl⟩
      rw [(plan.explicit_key registry valid explicit j source at_source).1, same] at placed
      rw [latest]
      exact (plan.dependency_eq_ok _ _ _ _).mpr ⟨_, position, latest, placed, Nat.lt_of_le_of_lt bound before, rfl⟩
    rw [dependencies, if_pos explicit]
    exact ⟨_, map_m_ok_of_pure _ _ _ outputs⟩
  · exact ⟨_, by rw [dependencies, if_neg explicit]⟩

end

end Plan

structure PlanStep.TiedAlike (step other : PlanStep) : Prop where
  id : step.trimmedId = other.trimmedId
  named : step.dependencies.map Text.trim = other.dependencies.map Text.trim

theorem PlanStep.TiedAlike.key {step other : PlanStep} (alike : step.TiedAlike other) (index : Nat) :
    step.key index = other.key index := by
  rw [PlanStep.key, PlanStep.key, alike.id]

namespace Plan

section

variable (plan other : Plan) (alike : List.Forall₂ PlanStep.TiedAlike plan.steps other.steps)

include alike

theorem tied_explicit : plan.isExplicit = other.isExplicit := by
  have any (steps : List PlanStep) : steps.any PlanStep.hasDependencies =
      (steps.map fun step => step.dependencies.map Text.trim).any fun named => !named.isEmpty := by
    rw [List.any_map]
    exact congrArg steps.any (funext fun step => by simp [PlanStep.hasDependencies])
  have each := map_matched PlanStep.TiedAlike (fun step => step.dependencies.map Text.trim) _ plan.steps other.steps alike
    fun _ _ same => same.named
  rw [isExplicit, isExplicit, any, any, each]

theorem tied_keys : plan.stepKeys = other.stepKeys := by
  rw [stepKeys, stepKeys, List.mapIdx_eq_zipIdx_map, List.mapIdx_eq_zipIdx_map]
  refine map_matched _ _ _ _ _ (matched_positions _ _ _ alike 0) ?_
  rintro ⟨step, i⟩ ⟨twin, _⟩ ⟨same, rfl⟩
  exact same.key i

theorem tied_terminals (outputs : List Text) : plan.terminalOutputs outputs = other.terminalOutputs outputs := by
  have depended : (plan.steps.flatMap fun step => step.dependencies.map Text.trim) =
      other.steps.flatMap fun step => step.dependencies.map Text.trim :=
    congrArg List.flatten (map_matched PlanStep.TiedAlike _ _ plan.steps other.steps alike fun _ _ same => same.named)
  rw [terminalOutputs, terminalOutputs, plan.tied_explicit other alike, depended, plan.tied_keys other alike]

theorem tied_dependencies (s : Sketch) (index : Nat) (step twin : PlanStep) (same : step.TiedAlike twin) :
    plan.dependencies s index step = other.dependencies s index twin := by
  have found (key : Text) : plan.dependency s index key = other.dependency s index key := by
    rw [dependency, dependency, position?, position?, plan.tied_keys other alike]
  rw [dependencies, dependencies, plan.tied_explicit other alike, same.named, funext found]

end

end Plan

end PlanFlow
