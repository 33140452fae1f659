import PlanFlow.Proofs.FirstFault
import PlanFlow.Proofs.Validation

/-!
What can be wrong with a plan, and which of it is reported: of all faults that a plan has, the one at the first place. The
whole plan comes first, then the ids of its steps, and then the steps one by one: first that a step has agents, then its
dependencies, and then its agents, each of them in order.
-/

set_option autoImplicit false

namespace PlanFlow

inductive Selection.Fault (registry : AgentRegistry) (index : Nat) (earlier : List Text) (selection : Selection) :
    List Nat → CompileError → Prop where
  | unnamed (blank : selection.id.trim = []) : Fault registry index earlier selection [0] (.blankAgent index)
  | unknown (nobody : registry.find? selection.id.trim = none) :
      Fault registry index earlier selection [1] (.unknownAgent index selection.id.trim)
  | undescribed (agent : Agent) (found : registry.find? selection.id.trim = some agent)
      (blank : agent.hasDescription = false) :
      Fault registry index earlier selection [2] (.missingDescription (some index) selection.id.trim)
  | unreasoned (blank : selection.reason.trim = []) :
      Fault registry index earlier selection [3] (.missingReason index selection.id.trim)
  | repeated (before : selection.id.trim ∈ earlier) :
      Fault registry index earlier selection [4] (.repeatedAgent index selection.id.trim)

inductive PlanStep.DependencyFault (steps : List PlanStep) (index : Nat) (raw : Text) : List Nat → CompileError → Prop where
  | blank (blank : raw.trim = []) : DependencyFault steps index raw [0] (.blankDependency index)
  | unknown (nowhere : ∀ step ∈ steps, step.trimmedId ≠ raw.trim) :
      DependencyFault steps index raw [1] (.unknownStep index raw.trim)
  | own (step : PlanStep) (found : steps[index]? = some step) (same : step.trimmedId = raw.trim) :
      DependencyFault steps index raw [2] (.selfStep index raw.trim)
  | future (j : Nat) (step : PlanStep) (later : index < j) (found : steps[j]? = some step)
      (same : step.trimmedId = raw.trim) : DependencyFault steps index raw [3] (.futureStep index raw.trim)

inductive PlanStep.Fault (registry : AgentRegistry) (steps : List PlanStep) (index : Nat) (earlier : List Text)
    (step : PlanStep) : List Nat → CompileError → Prop where
  | unstaffed (nobody : step.agents = []) : Fault registry steps index earlier step [0] (.stepWithoutAgents index)
  | dependency (k : Nat) (raw : Text) (given : step.dependencies[k]? = some raw) (place : List Nat) (e : CompileError)
      (fault : DependencyFault steps index raw place e) : Fault registry steps index earlier step (1 :: k :: place) e
  | selection (k : Nat) (selection : Selection) (given : step.agents[k]? = some selection) (place : List Nat)
      (e : CompileError)
      (fault : selection.Fault registry index (earlier ++ (step.agents.take k).map fun other => other.id.trim) place e) :
      Fault registry steps index earlier step (2 :: k :: place) e

namespace Plan

-- What is wrong with a plan. Agents are repeated if an earlier step, or the same one before, selects them.
inductive Fault (plan : Plan) (registry : AgentRegistry) : List Nat → CompileError → Prop where
  | parallelism (n : Int) (given : plan.maxParallelism = some n) (small : n < 1) :
      Fault plan registry [0] (.parallelismTooSmall n)
  | empty (nothing : plan.steps = []) : Fault plan registry [1] .noSteps
  | repeatedId (i j : Nat) (step other : PlanStep) (found : plan.steps[i]? = some step) (given : step.trimmedId ≠ [])
      (before : j < i) (there : plan.steps[j]? = some other) (same : other.trimmedId = step.trimmedId) :
      Fault plan registry [2, i] (.duplicateStep i step.trimmedId)
  | missingId (explicit : plan.isExplicit = true) (i : Nat) (step : PlanStep) (found : plan.steps[i]? = some step)
      (blank : step.trimmedId = []) : Fault plan registry [3, i] (.stepWithoutId i)
  | step (i : Nat) (step : PlanStep) (found : plan.steps[i]? = some step) (place : List Nat) (e : CompileError)
      (fault : step.Fault registry plan.steps i (agentIds (plan.steps.take i)) place e) :
      Fault plan registry (4 :: i :: place) e

end Plan

theorem Selection.fault_unique (registry : AgentRegistry) (index : Nat) (earlier : List Text) (selection : Selection) :
    Faults.Unique (selection.Fault registry index earlier) := by
  intro place e e' one other
  cases one <;> cases other <;> rfl

namespace PlanStep

theorem dependency_fault_unique (steps : List PlanStep) (index : Nat) (raw : Text) :
    Faults.Unique (DependencyFault steps index raw) := by
  intro place e e' one other
  cases one <;> cases other <;> rfl

theorem fault_unique (registry : AgentRegistry) (steps : List PlanStep) (index : Nat) (earlier : List Text) (step : PlanStep) :
    Faults.Unique (step.Fault registry steps index earlier) := by
  intro place e e' one other
  cases one with
  | unstaffed _ =>
      cases other
      rfl
  | dependency k raw given place _ fault =>
      cases other with
      | dependency _ _ there _ _ theirs =>
          obtain rfl := Option.some.inj (given.symm.trans there)
          exact dependency_fault_unique steps index raw place e e' fault theirs
  | selection k selection given place _ fault =>
      cases other with
      | selection _ _ there _ _ theirs =>
          obtain rfl := Option.some.inj (given.symm.trans there)
          exact selection.fault_unique registry index _ place e e' fault theirs

end PlanStep

namespace Plan

theorem fault_unique (plan : Plan) (registry : AgentRegistry) : Faults.Unique (plan.Fault registry) := by
  intro place e e' one other
  cases one with
  | parallelism n given _ =>
      cases other with
      | parallelism _ there _ => rw [Option.some.inj (given.symm.trans there)]
  | empty _ =>
      cases other
      rfl
  | repeatedId i _ step _ found _ _ _ _ =>
      cases other with
      | repeatedId _ _ _ _ there _ _ _ _ => rw [Option.some.inj (found.symm.trans there)]
  | missingId _ i _ _ _ =>
      cases other
      rfl
  | step i step found place _ fault =>
      cases other with
      | step _ _ there _ _ theirs =>
          obtain rfl := Option.some.inj (found.symm.trans there)
          exact step.fault_unique registry _ i _ place e e' fault theirs

section

variable (registry : AgentRegistry)

theorem check_selection_finds (index : Nat) (earlier : List Text) (selection : Selection) :
    FindsFirst (selection.Fault registry index earlier) (checkSelection registry index earlier selection) := by
  refine .of_onward_zero _ nofun ?_
  simp only [checkSelection, List.isEmpty_iff, List.contains_iff_mem]
  refine .refuse 0 _ _ _ .unnamed (fun _ _ fault => ?_) fun _ => ?_
  · cases fault with
    | unnamed blank => exact blank
  cases found : registry.find? selection.id.trim with
  | none => exact .stop 1 _ (.unknown found)
  | some agent =>
      refine .skip 1 _ (fun _ _ fault => ?_) ?_
      · cases fault with
        | unknown nobody => simp [found] at nobody
      refine .refuse 2 _ _ _ (fun blank => .undescribed agent found (by simpa using blank)) (fun _ _ fault => ?_) fun _ => ?_
      · cases fault with
        | undescribed other there blank =>
            obtain rfl := Option.some.inj (found.symm.trans there)
            simp [blank]
      refine .refuse 3 _ _ _ .unreasoned (fun _ _ fault => ?_) fun _ => ?_
      · cases fault with
        | unreasoned blank => exact blank
      refine .refuse 4 _ _ _ .repeated (fun _ _ fault => ?_) fun _ => ?_
      · cases fault with
        | repeated before => exact before
      exact .finish 5 _ fun k _ _ beyond fault => by cases fault <;> omega

section

variable (steps : List PlanStep)

theorem id_found (distinct : (Table.keys (idTable 0 steps)).Nodup) (id : Text) (given : id ≠ []) (i : Nat) :
    Table.get? id (idTable 0 steps) = some i ↔ ∃ step, steps[i]? = some step ∧ step.trimmedId = id := by
  simp [Table.get_eq_some_iff _ _ _ distinct, mem_id_table, given]

theorem id_missing (id : Text) (given : id ≠ []) (missing : Table.get? id (idTable 0 steps) = none) :
    ∀ step ∈ steps, step.trimmedId ≠ id := by
  rintro step member rfl
  obtain ⟨i, found⟩ := List.mem_iff_getElem?.mp member
  have entry := (mem_id_table steps step.trimmedId i).mpr ⟨step, found, rfl, given⟩
  obtain ⟨j, there⟩ := Table.get_of_key _ _ ((Table.mem_keys _ _).mpr ⟨i, entry⟩)
  simp [missing] at there

theorem check_dependency_finds (distinct : (Table.keys (idTable 0 steps)).Nodup) (index : Nat) (raw : Text) :
    FindsFirst (PlanStep.DependencyFault steps index raw) (checkDependency (idTable 0 steps) index raw) := by
  refine .of_onward_zero _ nofun ?_
  simp only [checkDependency, List.isEmpty_iff]
  refine .refuse 0 _ _ _ .blank (fun _ _ fault => ?_) fun given => ?_
  · cases fault with
    | blank blank => exact blank
  have found := id_found steps distinct raw.trim given
  cases position : Table.get? raw.trim (idTable 0 steps) with
  | none => exact .stop 1 _ (.unknown (id_missing steps raw.trim given position))
  | some j =>
      obtain ⟨step, there, same⟩ := (found j).mp position
      have only (i : Nat) (other : PlanStep) (here : steps[i]? = some other) (named : other.trimmedId = raw.trim) : i = j :=
        Option.some.inj (((found i).mpr ⟨other, here, named⟩).symm.trans position)
      refine .skip 1 _ (fun _ _ fault => ?_) ?_
      · cases fault with
        | unknown nowhere => exact nowhere step (List.mem_of_getElem? there) same
      refine .refuse 2 _ _ _ (fun own => .own step (own ▸ there) same) (fun _ _ fault => ?_) fun _ => ?_
      · cases fault with
        | own other here named => exact (only index other here named).symm
      refine .refuse 3 _ _ _ (fun later => .future j step later there same) (fun _ _ fault => ?_) fun _ => ?_
      · cases fault with
        | future i other later here named => exact only i other here named ▸ later
      exact .finish 4 _ fun k _ _ beyond fault => by cases fault <;> omega

end

section

variable (steps : List PlanStep) (index : Nat) (earlier : List Text) (step : PlanStep)

theorem check_dependencies_find (distinct : (Table.keys (idTable 0 steps)).Nodup) :
    FindsFirst (Faults.part (step.Fault registry steps index earlier) 1)
      (step.dependencies.forM (checkDependency (idTable 0 steps) index)) := by
  refine .for_each _ step.dependencies (fun k raw given => ?_) (fun k place e fault => ?_) nofun
  · refine .congr _ _ (check_dependency_finds steps distinct index raw) fun place e => ?_
    refine ⟨fun fault => ?_, fun fault => .dependency k raw given place e fault⟩
    cases fault with
    | dependency _ _ there _ _ fault => exact Option.some.inj (there.symm.trans given) ▸ fault
  · cases fault with
    | dependency _ _ given _ _ _ => exact (List.getElem?_eq_some_iff.mp given).1

-- The agents selected so far are the state of the loop.
theorem check_selections_find : FindsFirst (Faults.part (step.Fault registry steps index earlier) 2)
    (step.agents.foldlM (checkSelection registry index) earlier) := by
  let before (k : Nat) : List Text := earlier ++ (step.agents.take k).map fun other => other.id.trim
  refine .fold _ step.agents before (fun k selection given => ?_) (fun k selection seen given passed => ?_)
    (fun k place e fault => ?_) earlier (by simp [before]) nofun
  · refine .congr _ _ (check_selection_finds registry index (before k) selection) fun place e => ?_
    refine ⟨fun fault => ?_, fun fault => .selection k selection given place e fault⟩
    cases fault with
    | selection _ _ there _ _ fault => exact Option.some.inj (there.symm.trans given) ▸ fault
  · obtain ⟨_, _, rfl⟩ := (check_selection_eq_ok _ _ _ _ _).mp passed
    simp [before, List.take_add_one, given]
  · cases fault with
    | selection _ _ given _ _ _ => exact (List.getElem?_eq_some_iff.mp given).1

theorem check_selections_keep (selections : List Selection) (answer : List Text)
    (passed : selections.foldlM (checkSelection registry index) earlier = .ok answer) :
    answer = earlier ++ selections.map fun selection => selection.id.trim := by
  induction selections generalizing earlier with
  | nil => simpa using (Except.ok.inj passed).symm
  | cons head tail ih =>
      rw [List.foldlM_cons] at passed
      obtain ⟨next, first, rest⟩ := (bind_eq_ok _ _ _).mp passed
      obtain ⟨_, _, rfl⟩ := (check_selection_eq_ok _ _ _ _ _).mp first
      rw [ih _ rest, List.map_cons, List.append_assoc, List.singleton_append]

theorem check_step_parts (ids : Table Nat) : checkStep registry ids index earlier step =
    if step.agents = [] then .error (.stepWithoutAgents index)
    else step.dependencies.forM (checkDependency ids index) >>= fun _ =>
      step.agents.foldlM (checkSelection registry index) earlier := by
  simp only [checkStep, List.isEmpty_iff]
  cases step.dependencies.forM (checkDependency ids index) <;> rfl

theorem check_step_keep (ids : Table Nat) (answer : List Text)
    (passed : checkStep registry ids index earlier step = .ok answer) : answer = earlier ++ agentIds [step] := by
  rw [check_step_parts] at passed
  split_ifs at passed
  obtain ⟨_, _, selected⟩ := (bind_eq_ok _ _ _).mp passed
  simpa [agentIds] using check_selections_keep registry index earlier step.agents answer selected

theorem check_step_finds (distinct : (Table.keys (idTable 0 steps)).Nodup) :
    FindsFirst (step.Fault registry steps index earlier) (checkStep registry (idTable 0 steps) index earlier step) := by
  refine .of_onward_zero _ nofun ?_
  rw [check_step_parts]
  refine .refuse 0 _ _ _ .unstaffed (fun _ _ fault => ?_) fun _ => ?_
  · cases fault with
    | unstaffed nobody => exact nobody
  refine .bind 1 _ _ (check_dependencies_find registry steps index earlier step distinct) fun _ _ => ?_
  rw [← bind_pure (step.agents.foldlM (checkSelection registry index) earlier)]
  refine .bind 2 _ _ (check_selections_find registry steps index earlier step) fun seen _ => ?_
  exact .finish 3 seen fun k _ _ beyond fault => by cases fault <;> omega

end

section

variable (plan : Plan)

theorem check_parallelism_finds : FindsFirst (Faults.part (plan.Fault registry) 0) plan.checkParallelism := by
  cases given : plan.maxParallelism with
  | none =>
      rw [checkParallelism, given]
      refine .passed () fun _ _ fault => ?_
      cases fault with
      | parallelism _ there _ => simp [given] at there
  | some n =>
      rw [checkParallelism, given]
      refine .test (n < 1) _ () (fun small => .parallelism n given small) fun _ _ fault => ?_
      cases fault with
      | parallelism _ there small => exact Option.some.inj (given.symm.trans there) ▸ small

theorem id_table_snoc (i : Nat) (step : PlanStep) (found : plan.steps[i]? = some step) :
    idTable 0 (plan.steps.take (i + 1)) = idTable 0 (plan.steps.take i) ++ idTable i [step] := by
  have inside := (List.getElem?_eq_some_iff.mp found).1
  have count : (plan.steps.take i).length = i := List.length_take_of_le (Nat.le_of_lt inside)
  rw [List.take_add_one, found, idTable, List.zipIdx_append, List.filterMap_append, count, Nat.zero_add]
  rfl

theorem id_before (i : Nat) (id : Text) (given : id ≠ []) : Table.hasKey id (idTable 0 (plan.steps.take i)) = true ↔
    ∃ j other, j < i ∧ plan.steps[j]? = some other ∧ other.trimmedId = id := by
  simp [Table.mem_keys, mem_id_table, List.getElem?_take, given, and_assoc]

-- The ids of the steps before are the state of the loop.
theorem collect_ids_finds : FindsFirst (Faults.part (plan.Fault registry) 2) (collectIds [] 0 plan.steps) := by
  refine .loop (fun index found steps => collectIds found index steps) (fun _ _ => rfl) (fun index found step rest => ?_)
    plan.steps (fun k => idTable 0 (plan.steps.take k)) (fun i step found => ?_) (fun i step state found passed => ?_)
    (fun k place e fault => ?_) [] rfl nofun
  · simp only [collectIds]
    split_ifs <;> rfl
  · by_cases blank : step.trimmedId = []
    · simp only [collectIds, blank, List.isEmpty_nil, if_true]
      refine .passed _ fun _ _ fault => ?_
      cases fault with
      | repeatedId _ _ _ _ there given _ _ _ =>
          obtain rfl := Option.some.inj (found.symm.trans there)
          exact given blank
    · have before := plan.id_before i step.trimmedId blank
      simp only [collectIds, List.isEmpty_iff, blank, if_false]
      refine .test _ _ _ (fun repeated => ?_) fun _ _ fault => ?_
      · obtain ⟨j, other, earlier, there, same⟩ := before.mp repeated
        exact .repeatedId i j step other found blank earlier there same
      · cases fault with
        | repeatedId _ j _ other here _ earlier there same =>
            obtain rfl := Option.some.inj (found.symm.trans here)
            exact before.mpr ⟨j, other, earlier, there, same⟩
  · rw [plan.id_table_snoc i step found, id_table_cons]
    simp only [collectIds, List.isEmpty_iff] at passed
    split_ifs at passed with blank repeated
    · rw [if_pos blank]
      simpa [idTable] using (Except.ok.inj passed).symm
    · rw [if_neg blank]
      simpa [idTable] using (Except.ok.inj passed).symm
  · cases fault with
    | repeatedId _ _ _ _ found _ _ _ _ => exact (List.getElem?_eq_some_iff.mp found).1

theorem require_ids_finds (explicit : plan.isExplicit = true) :
    FindsFirst (Faults.part (plan.Fault registry) 3) (requireIds 0 plan.steps) := by
  refine .loop (fun index _ steps => requireIds index steps) (fun _ _ => rfl) (fun index _ step rest => ?_)
    plan.steps (fun _ => ()) (fun i step found => ?_) (fun _ _ _ _ _ => rfl) (fun k place e fault => ?_) () rfl nofun
  · simp only [requireIds]
    split_ifs <;> rfl
  · simp only [requireIds, List.isEmpty_iff]
    refine .test _ _ _ (fun blank => .missingId explicit i step found blank) fun _ _ fault => ?_
    cases fault with
    | missingId _ _ _ there blank => exact Option.some.inj (found.symm.trans there) ▸ blank
  · cases fault with
    | missingId _ _ _ found _ => exact (List.getElem?_eq_some_iff.mp found).1

theorem check_steps_single (ids : Table Nat) (index : Nat) (seen : List Text) (step : PlanStep) :
    checkSteps registry ids index seen [step] = checkStep registry ids index seen step := by
  rw [checkSteps]
  cases checkStep registry ids index seen step <;> rfl

theorem check_steps_finds (distinct : (Table.keys (idTable 0 plan.steps)).Nodup) :
    FindsFirst (Faults.part (plan.Fault registry) 4) (checkSteps registry (idTable 0 plan.steps) 0 [] plan.steps) := by
  refine .loop (fun index seen steps => checkSteps registry (idTable 0 plan.steps) index seen steps) (fun _ _ => rfl)
    (fun index seen step rest => ?_) plan.steps (fun k => agentIds (plan.steps.take k)) (fun i step found => ?_)
    (fun i step state found passed => ?_) (fun k place e fault => ?_) [] rfl nofun
  · simp only [checkSteps]
    cases checkStep registry (idTable 0 plan.steps) index seen step <;> rfl
  · rw [check_steps_single]
    refine .congr _ _ (check_step_finds registry plan.steps i _ step distinct) fun place e => ?_
    refine ⟨fun fault => ?_, fun fault => .step i step found place e fault⟩
    cases fault with
    | step _ _ there _ _ fault => exact Option.some.inj (there.symm.trans found) ▸ fault
  · rw [check_steps_single] at passed
    rw [check_step_keep registry i _ step _ state passed, List.take_add_one, found]
    simp [agentIds]
  · cases fault with
    | step _ _ found _ _ _ => exact (List.getElem?_eq_some_iff.mp found).1

theorem validate_finds : FindsFirst (plan.Fault registry) (plan.validate registry) := by
  refine .of_onward_zero _ nofun ?_
  rw [validate]
  refine .bind 0 _ _ (plan.check_parallelism_finds registry) fun _ _ => ?_
  refine .refuse 1 _ _ _ (fun nothing => .empty (List.isEmpty_iff.mp nothing)) (fun _ _ fault => ?_) fun _ => ?_
  · cases fault with
    | empty nothing => exact List.isEmpty_iff.mpr nothing
  refine .bind 2 _ _ (plan.collect_ids_finds registry) fun ids collected => ?_
  obtain ⟨distinct, rfl⟩ := (collect_ids_eq_ok [] 0 plan.steps ids List.nodup_nil).mp collected
  rw [List.nil_append] at distinct ⊢
  have steps : FindsFirst (Faults.onward (plan.Fault registry) 4)
      (checkSteps registry (idTable 0 plan.steps) 0 [] plan.steps) := by
    rw [← bind_pure (checkSteps registry (idTable 0 plan.steps) 0 [] plan.steps)]
    refine .bind 4 _ _ (plan.check_steps_finds registry distinct) fun agents _ => ?_
    exact .finish 5 agents fun k _ _ beyond fault => by cases fault <;> omega
  by_cases explicit : plan.isExplicit = true
  · simp only [explicit, if_true]
    exact .bind 3 _ _ (plan.require_ids_finds registry explicit) fun _ _ => steps
  · simp only [explicit]
    refine .skip 3 _ (fun _ _ fault => ?_) steps
    cases fault with
    | missingId given _ _ _ _ => exact explicit given

end

end

end Plan

theorem validate_first_fault (plan : Plan) (registry : AgentRegistry) :
    ((∃ agents, plan.validate registry = .ok agents) ↔ plan.Valid registry) ∧
      ∀ e, plan.validate registry = .error e ↔
        ∃ place, plan.Fault registry place e ∧ ∀ other e', plan.Fault registry other e' → ¬ other < place := by
  constructor
  · simp [Plan.validate_eq_ok]
  · exact (plan.validate_finds registry).eq_error_iff (plan.fault_unique registry) _

end PlanFlow
