import PlanFlow.Proofs.Compilation
import PlanFlow.Proofs.Decimal
import PlanFlow.Proofs.Precedence

/-!
A plan without dependencies as a chain. Giving every step its key for an id and the key of the step before as its
only dependency changes nothing about what becomes of the plan, and nothing about how it is refused.
-/

set_option autoImplicit false

namespace PlanFlow

namespace PlanStep

theorem generated_key_trimmed (index : Nat) :
    (("step_" : Text) ++ Decimal.ofNat (index + 1)).trim = ("step_" : Text) ++ Decimal.ofNat (index + 1) := by
  refine Text.trim_while_eq_self _ _ (fun c first => ?_) (fun c last => ?_)
  · obtain rfl : CodePoint.ofChar 's' = c := Option.some.inj first
    decide
  · rw [List.getLast?_append_of_ne_nil _ (Decimal.of_nat_ne_nil _)] at last
    have digit := Decimal.digit_of_mem _ c (List.mem_of_getLast? last)
    simp only [CodePoint.isDigit, Bool.and_eq_true, decide_eq_true_eq] at digit
    simp only [CodePoint.isBlank, CodePoint.isWhiteSpace, Bool.or_eq_false_iff, Bool.and_eq_false_iff,
      decide_eq_false_iff_not, beq_eq_false_iff_ne]
    omega

theorem key_trimmed (step : PlanStep) (index : Nat) : (step.key index).trim = step.key index := by
  by_cases blank : step.trimmedId.isEmpty = true
  · rw [key, if_pos blank]
    exact generated_key_trimmed index
  · rw [key, if_neg blank]
    exact Text.trim_trim _

theorem key_ne_nil (step : PlanStep) (index : Nat) : step.key index ≠ [] := by
  by_cases blank : step.trimmedId.isEmpty = true
  · rw [key, if_pos blank]
    exact List.append_ne_nil_of_right_ne_nil _ (Decimal.of_nat_ne_nil _)
  · rw [key, if_neg blank]
    simpa using blank

theorem key_of_id (step : PlanStep) (index : Nat) (given : step.trimmedId ≠ []) : step.key index = step.trimmedId := by
  simp [key, given]

def linked (step : PlanStep) (index : Nat) (before : Option Text) : PlanStep :=
  ⟨some (step.key index), step.agents, before.map fun key => [key]⟩

theorem linked_id (step : PlanStep) (index : Nat) (before : Option Text) :
    (step.linked index before).trimmedId = step.key index :=
  step.key_trimmed index

theorem linked_key (step : PlanStep) (index : Nat) (before : Option Text) :
    (step.linked index before).key index = step.key index := by
  have id := step.linked_id index before
  rw [key_of_id _ _ (id.trans_ne (step.key_ne_nil index)), id]

end PlanStep

namespace Plan

def keyBefore? (plan : Plan) : Nat → Option Text
  | 0 => none
  | index + 1 => plan.stepKeys[index]?

-- The explicit plan in which every step but the first depends on the step before it.
def chained (plan : Plan) : Plan :=
  ⟨plan.maxParallelism, plan.steps.mapIdx fun index step => step.linked index (plan.keyBefore? index)⟩

section

variable (plan : Plan)

theorem chained_at (index : Nat) (step : PlanStep) (found : plan.steps[index]? = some step) :
    plan.chained.steps[index]? = some (step.linked index (plan.keyBefore? index)) := by
  simp [chained, found]

theorem chained_length : plan.chained.steps.length = plan.steps.length := by simp [chained]

theorem chained_keys : plan.chained.stepKeys = plan.stepKeys := by
  simp [stepKeys, chained, List.mapIdx_mapIdx, Function.comp_def, PlanStep.linked_key]

theorem chained_agents : plan.chained.steps.map PlanStep.agents = plan.steps.map PlanStep.agents := by
  apply List.ext_getElem?
  intro index
  simp only [chained, List.getElem?_map, List.getElem?_mapIdx, Option.map_map]
  rfl

theorem step_of_chained (index : Nat) (step : PlanStep) (found : plan.chained.steps[index]? = some step) :
    ∃ source, plan.steps[index]? = some source ∧ step = source.linked index (plan.keyBefore? index) := by
  have bound := (List.getElem?_eq_some_iff.mp found).1
  rw [chained_length] at bound
  have given := List.getElem?_eq_getElem bound
  exact ⟨_, given, Option.some.inj (found.symm.trans (plan.chained_at index _ given))⟩

theorem chained_depended (key : Text) :
    key ∈ (plan.chained.steps.flatMap fun step => step.dependencies.map Text.trim) ↔ key ∈ plan.stepKeys.dropLast := by
  have length : plan.stepKeys.length = plan.steps.length := by simp [stepKeys]
  have named (before : Nat) (source : PlanStep) : key ∈ (source.linked (before + 1) (plan.keyBefore? (before + 1))).dependencies.map
      Text.trim ↔ plan.stepKeys[before]? = some key := by
    cases at_before : plan.steps[before]? with
    | none => simp [PlanStep.dependencies, PlanStep.linked, keyBefore?, stepKeys, at_before]
    | some step =>
        simp [PlanStep.dependencies, PlanStep.linked, keyBefore?, stepKeys, at_before, PlanStep.key_trimmed, eq_comm (a := key)]
  rw [List.mem_flatMap, List.mem_iff_getElem?]
  simp only [List.getElem?_dropLast, length]
  constructor
  · rintro ⟨step, member, waits⟩
    obtain ⟨index, found⟩ := List.mem_iff_getElem?.mp member
    obtain ⟨source, at_source, rfl⟩ := plan.step_of_chained index step found
    have bound := (List.getElem?_eq_some_iff.mp at_source).1
    cases index with
    | zero => cases waits
    | succ before =>
        refine ⟨before, ?_⟩
        rw [if_pos (by omega)]
        exact (named before source).mp waits
  · rintro ⟨before, found⟩
    by_cases inside : before < plan.steps.length - 1
    · rw [if_pos inside] at found
      have bound : before + 1 < plan.steps.length := by omega
      have there := plan.chained_at (before + 1) _ (List.getElem?_eq_getElem bound)
      exact ⟨_, List.mem_of_getElem? there, (named before _).mpr found⟩
    · rw [if_neg inside] at found
      cases found

theorem chained_ids_required : requireIds 0 plan.chained.steps = .ok () := by
  rw [require_ids_eq_ok]
  intro step member
  obtain ⟨index, found⟩ := List.mem_iff_getElem?.mp member
  obtain ⟨source, _, rfl⟩ := plan.step_of_chained index step found
  exact (PlanStep.linked_id _ _ _).trans_ne (PlanStep.key_ne_nil _ _)

theorem not_explicit (implicit : ∀ step ∈ plan.steps, step.dependencies = []) : ¬ plan.isExplicit = true := by
  simpa [isExplicit, PlanStep.hasDependencies] using implicit

def checkStaff (registry : AgentRegistry) : Nat → List Text → List (List Selection) → Except CompileError (List Text)
  | _, seen, [] => .ok seen
  | index, seen, agents :: rest =>
      if agents.isEmpty then .error (.stepWithoutAgents index)
      else
        match agents.foldlM (checkSelection registry index) seen with
        | .error e => .error e
        | .ok seen => checkStaff registry (index + 1) seen rest

theorem check_steps_eq_staff (registry : AgentRegistry) (ids : Table Nat) (index : Nat) (seen : List Text)
    (steps : List PlanStep)
    (fine : ∀ entry ∈ steps.zipIdx index, entry.1.dependencies.forM (checkDependency ids entry.2) = .ok ()) :
    checkSteps registry ids index seen steps = checkStaff registry index seen (steps.map PlanStep.agents) := by
  induction steps generalizing index seen with
  | nil => rfl
  | cons step rest ih =>
      rw [List.zipIdx_cons, List.forall_mem_cons] at fine
      rw [checkSteps, List.map_cons, checkStaff, checkStep, fine.1]
      by_cases empty : step.agents.isEmpty = true
      · rw [if_pos empty, if_pos empty]
      · rw [if_neg empty, if_neg empty]
        dsimp only
        cases step.agents.foldlM (checkSelection registry index) seen with
        | error e => rfl
        | ok next => exact ih (index + 1) next fine.2

section

variable (distinct : plan.stepKeys.Nodup)

include distinct

theorem key_position (i j : Nat) (a b : PlanStep) (first : plan.steps[i]? = some a) (second : plan.steps[j]? = some b)
    (same : a.key i = b.key j) : i = j := by
  have at_a : plan.stepKeys[i]? = some (a.key i) := by simp [stepKeys, first]
  have at_b : plan.stepKeys[j]? = some (b.key j) := by simp [stepKeys, second]
  exact (List.getElem?_inj (List.getElem?_eq_some_iff.mp at_a).1 distinct).mp (at_a.trans (same ▸ at_b.symm))

theorem ids_collected : collectIds [] 0 plan.steps = .ok (idTable 0 plan.steps) ∧
    (Table.keys (idTable 0 plan.steps)).Nodup := by
  have apart : (Table.keys (idTable 0 plan.steps)).Nodup := by
    refine (id_table_distinct plan.steps).mpr fun i j a b first second given same => ?_
    refine plan.key_position distinct i j a b first second ?_
    rw [a.key_of_id i given, b.key_of_id j (same ▸ given), same]
  exact ⟨(collect_ids_eq_ok [] 0 plan.steps _ List.nodup_nil).mpr ⟨apart, rfl⟩, apart⟩

theorem chained_dependencies_checked (index : Nat) (step : PlanStep) (found : plan.chained.steps[index]? = some step) :
    step.dependencies.forM (checkDependency (idTable 0 plan.chained.steps) index) = .ok () := by
  obtain ⟨source, given, rfl⟩ := plan.step_of_chained index step found
  rw [for_m_eq_ok]
  cases index with
  | zero => exact fun key member => nomatch member
  | succ before =>
      have below : before < plan.steps.length := Nat.lt_of_succ_lt (List.getElem?_eq_some_iff.mp given).1
      have at_before := List.getElem?_eq_getElem below
      have key_before : plan.stepKeys[before]? = some (plan.steps[before].key before) := by simp [stepKeys, at_before]
      intro raw member
      have same : raw = plan.steps[before].key before := by
        simpa [PlanStep.dependencies, PlanStep.linked, keyBefore?, key_before] using member
      have apart := (plan.chained.ids_collected (by rwa [chained_keys])).2
      rw [check_dependency_eq_ok, same, PlanStep.key_trimmed]
      refine ⟨PlanStep.key_ne_nil _ _, before, Table.get_of_mem _ _ _ apart ?_, Nat.lt_succ_self before⟩
      exact (mem_id_table _ _ _).mpr ⟨_, plan.chained_at before _ at_before, PlanStep.linked_id _ _ _,
        PlanStep.key_ne_nil _ _⟩

variable (implicit : ∀ step ∈ plan.steps, step.dependencies = [])

include implicit

theorem chained_validate (registry : AgentRegistry) : plan.chained.validate registry = plan.validate registry := by
  have plain := plan.not_explicit implicit
  have staff := check_steps_eq_staff registry (idTable 0 plan.steps) 0 [] plan.steps fun entry member => by
    rw [implicit entry.1 (List.mem_of_getElem? (List.mem_zipIdx_iff_getElem?.mp member))]
    rfl
  have chainedStaff := check_steps_eq_staff registry (idTable 0 plan.chained.steps) 0 [] plan.chained.steps
    fun entry member => plan.chained_dependencies_checked distinct entry.2 entry.1 (List.mem_zipIdx_iff_getElem?.mp member)
  have empty : plan.chained.steps.isEmpty = plan.steps.isEmpty := by
    rw [Bool.eq_iff_iff, List.isEmpty_iff_length_eq_zero, List.isEmpty_iff_length_eq_zero, chained_length]
  have parallel : plan.chained.checkParallelism = plan.checkParallelism := rfl
  simp only [validate, parallel, empty, (plan.ids_collected distinct).1,
    (plan.chained.ids_collected (by rwa [chained_keys])).1, ok_bind, plain, staff, chainedStaff, chained_agents,
    plan.chained_ids_required]
  by_cases explicit : plan.chained.isExplicit = true <;> simp [explicit]

end

section

variable (context : Context) (configured : List Text) (job : Job) (implicit : ∀ step ∈ plan.steps, step.dependencies = [])

include implicit

-- The key before a step finds what the step before has recorded, which is what the step builds on anyway.
theorem chained_dependencies (index : Nat) (step : PlanStep) (found : plan.steps[index]? = some step) :
    plan.chained.dependencies (plan.sketchBefore context configured job index) index
        (step.linked index (plan.keyBefore? index)) =
      plan.dependencies (plan.sketchBefore context configured job index) index step := by
  have recorded : (plan.sketchBefore context configured job index).outputs = plan.outputsBefore index := rfl
  by_cases explicit : plan.chained.isExplicit = true
  · rw [dependencies, dependencies, if_pos explicit, if_neg (plan.not_explicit implicit), recorded]
    cases index with
    | zero => rfl
    | succ before =>
        have below : before < plan.steps.length := Nat.lt_of_succ_lt (List.getElem?_eq_some_iff.mp found).1
        have at_before := List.getElem?_eq_getElem below
        have key_before : plan.keyBefore? (before + 1) = some (plan.steps[before].key before) := by
          simp [keyBefore?, stepKeys, at_before]
        have last := plan.last_output before _ at_before
        obtain ⟨others, outputs⟩ := List.getLast?_eq_some_iff.mp last
        have latest : Sketch.latest? (plan.outputsBefore (before + 1)) (plan.steps[before].key before) =
            some (plan.steps[before].outputId before) := by
          simp [Sketch.latest?, outputs, PlanStep.output]
        obtain ⟨position, bound, placed⟩ := plan.chained.position_found before _ (plan.chained_at before _ at_before)
        rw [PlanStep.linked_key] at placed
        have looked_up := (plan.chained.dependency_eq_ok (plan.sketchBefore context configured job (before + 1)) (before + 1)
          _ _).mpr ⟨_, position, latest, placed, Nat.lt_succ_of_le bound, rfl⟩
        have names : distinct ((step.linked (before + 1) (plan.keyBefore? (before + 1))).dependencies.map Text.trim) =
            [plan.steps[before].key before] := by
          simp [PlanStep.dependencies, PlanStep.linked, key_before, PlanStep.key_trimmed, distinct]
        rw [names, last, List.mapM_cons, looked_up]
        rfl
  · rw [dependencies, dependencies, if_neg explicit, if_neg (plan.not_explicit implicit)]

theorem chained_add_step (index : Nat) (step : PlanStep) (found : plan.steps[index]? = some step) :
    plan.chained.addStep context configured job (plan.sketchBefore context configured job index) index
        (step.linked index (plan.keyBefore? index)) =
      plan.addStep context configured job (plan.sketchBefore context configured job index) index step := by
  rw [addStep, addStep, plan.chained_dependencies context configured job implicit index step found, PlanStep.linked_key]
  rfl

-- By induction on the steps that are left: both runs go through the sketches of the plan, or stop at the same step.
theorem chained_add_steps (index : Nat) (steps : List PlanStep) (rest : plan.steps.drop index = steps)
    (unique : (plan.layoutIdsBefore index).Nodup) :
    plan.chained.addSteps context configured job (plan.sketchBefore context configured job index) index
        (plan.chained.steps.drop index) =
      plan.addSteps context configured job (plan.sketchBefore context configured job index) index steps := by
  induction steps generalizing index with
  | nil =>
      have finished : plan.chained.steps.length ≤ index := by
        rw [chained_length]
        exact List.drop_eq_nil_iff.mp rest
      rw [List.drop_of_length_le finished]
      rfl
  | cons step tail ih =>
      obtain ⟨found, next⟩ := plan.steps_left index step tail rest
      have there := plan.chained_at index step found
      obtain ⟨bound, same⟩ := List.getElem?_eq_some_iff.mp there
      rw [List.drop_eq_getElem_cons bound, same, add_steps_cons, add_steps_cons,
        plan.chained_add_step context configured job implicit index step found]
      cases added : plan.addStep context configured job (plan.sketchBefore context configured job index) index step with
      | error e => rfl
      | ok s =>
          obtain ⟨_, grown, rfl⟩ := (plan.add_step_eq_ok context configured job index step s found unique).mp added
          exact ih (index + 1) next grown

theorem chained_terminals (distinct : plan.stepKeys.Nodup) (outputs : List Text)
    (complete : outputs.length = plan.steps.length) :
    plan.chained.terminalOutputs outputs = plan.terminalOutputs outputs := by
  rw [terminalOutputs, terminalOutputs, if_neg (plan.not_explicit implicit), chained_keys]
  by_cases explicit : plan.chained.isExplicit = true
  · rw [if_pos explicit]
    simp only [List.contains_eq_mem, chained_depended]
    have length : plan.stepKeys.length = outputs.length := by simp [stepKeys, complete]
    rcases List.eq_nil_or_concat' plan.stepKeys with nothing | ⟨keys, key, split⟩
    · have none_left : outputs = [] := List.length_eq_zero_iff.mp (by rw [← length, nothing]; rfl)
      simp [nothing, none_left]
    · rcases List.eq_nil_or_concat' outputs with empty | ⟨others, output, ends⟩
      · simp [split, empty] at length
      · rw [split] at distinct
        rw [split, ends] at length
        have front : keys.length = others.length := by simpa using length
        have fresh := ((nodup_append_one _ _).mp distinct).1
        have dropped : (keys.zip others).filter (fun entry => !decide (entry.1 ∈ keys)) = [] := by
          rw [List.filter_eq_nil_iff]
          intro entry member
          simp [(List.of_mem_zip member).1]
        rw [split, ends, List.dropLast_concat, List.zip_append front, List.filter_append, dropped]
        simp [fresh]
  · rw [if_neg explicit]

end

variable (distinct : plan.stepKeys.Nodup) (implicit : ∀ step ∈ plan.steps, step.dependencies = [])

include distinct implicit

theorem chained_sketch (context : Context) (settings : Settings) (job : Job) :
    plan.chained.sketch context settings job = plan.sketch context settings job := by
  have run := plan.chained_add_steps context settings.defaultTools job implicit 0 plan.steps rfl List.nodup_nil
  rw [sketch_before_zero, List.drop_zero] at run
  rw [sketch, sketch, run]
  cases made : plan.addSteps context settings.defaultTools job .empty 0 plan.steps with
  | error e => rfl
  | ok s =>
      obtain ⟨_, _, rfl⟩ := (plan.add_steps_eq_ok context settings.defaultTools job 0 plan.steps s rfl (Nat.zero_le _)
        List.nodup_nil).mp made
      have complete : ((plan.sketchBefore context settings.defaultTools job plan.steps.length).outputs.map
          StepOutput.node).length = plan.steps.length := by
        simp [sketchBefore, outputsBefore, entriesBefore]
      have terminals := plan.chained_terminals implicit distinct _ complete
      simp only [Except.mapError, ok_bind, terminals]

theorem chained_synthesize (context : Context) (settings : Settings) (job : Job) :
    plan.chained.synthesize context settings job = plan.synthesize context settings job := by
  rw [synthesize, synthesize, plan.chained_sketch distinct implicit]
  rfl

end

end Plan

theorem compile_chained (payload chain : Payload Plan) (context : Context) (settings : Settings) (job : Job) (plan : Plan)
    (given : Plan.read payload = .ok plan) (implicit : ∀ step ∈ plan.steps, step.dependencies = [])
    (distinct : plan.stepKeys.Nodup) (linked : Plan.read chain = .ok plan.chained) :
    compile chain context settings job = compile payload context settings job := by
  rw [compile, compile, given, linked, ok_bind, ok_bind, plan.chained_validate distinct implicit,
    plan.chained_synthesize distinct implicit]

def Sample.sequence : Plan :=
  ⟨some 2, [⟨some " prepare ", [⟨"drafter", "writes"⟩, ⟨"checker", "knows"⟩], none⟩,
    ⟨none, [⟨"editor", "polishes"⟩], some []⟩]⟩

set_option maxRecDepth 100000 in
theorem sample_chained : ∃ spec, compile (.parsed Sample.sequence) Sample.context .standard Sample.job = .ok spec ∧
    compile (.value Sample.sequence.chained.toJson) Sample.context .standard Sample.job = .ok spec ∧
    Sample.sequence.chained.steps.map PlanStep.dependsOn = [none, some [("prepare" : Text)]] := by
  have same := compile_chained (.parsed Sample.sequence) (.value Sample.sequence.chained.toJson) Sample.context .standard
    Sample.job Sample.sequence rfl (by decide) (by decide +kernel) (by rfl)
  have accepted : (compile (.parsed Sample.sequence) Sample.context .standard Sample.job).isOk = true := by decide +kernel
  cases answer : compile (.parsed Sample.sequence) Sample.context .standard Sample.job with
  | error e =>
      rw [answer] at accepted
      cases accepted
  | ok spec => exact ⟨spec, rfl, same.trans answer, by decide +kernel⟩

end PlanFlow
