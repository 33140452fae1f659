import PlanFlow.Plan.Validation
import PlanFlow.Proofs.Outcome
import PlanFlow.Proofs.Sorted
import PlanFlow.Proofs.Table

/-!
The plans that pass validation, said without the order in which the checks are made.
-/

set_option autoImplicit false

namespace PlanFlow

namespace Selection

structure Acceptable (selection : Selection) (registry : AgentRegistry) : Prop where
  named : selection.id.trim ≠ []
  known : ∃ agent, registry.find? selection.id.trim = some agent ∧ agent.hasDescription = true
  reasoned : selection.reason.trim ≠ []

end Selection

namespace Plan

def agentIds (steps : List PlanStep) : List Text :=
  steps.flatMap fun step => step.agents.map fun selection => selection.id.trim

structure Valid (plan : Plan) (registry : AgentRegistry) : Prop where
  parallel : ∀ n, plan.maxParallelism = some n → 1 ≤ n
  nonempty : plan.steps ≠ []
  distinctIds : ∀ (i j : Nat) (a b : PlanStep), plan.steps[i]? = some a → plan.steps[j]? = some b →
    a.trimmedId ≠ [] → a.trimmedId = b.trimmedId → i = j
  givenIds : plan.isExplicit = true → ∀ step ∈ plan.steps, step.trimmedId ≠ []
  staffed : ∀ step ∈ plan.steps, step.agents ≠ []
  backward : ∀ (i : Nat) (step : PlanStep), plan.steps[i]? = some step → ∀ raw ∈ step.dependencies,
    raw.trim ≠ [] ∧ ∃ (j : Nat) (source : PlanStep),
      j < i ∧ plan.steps[j]? = some source ∧ source.trimmedId = raw.trim
  acceptable : ∀ step ∈ plan.steps, ∀ selection ∈ step.agents, selection.Acceptable registry
  distinctAgents : (agentIds plan.steps).Nodup

def idTable (index : Nat) (steps : List PlanStep) : Table Nat :=
  (steps.zipIdx index).filterMap fun entry => entry.1.trimmedId.orAbsent.map fun id => (id, entry.2)

theorem id_table_cons (index : Nat) (step : PlanStep) (rest : List PlanStep) :
    idTable index (step :: rest) =
      if step.trimmedId = [] then idTable (index + 1) rest
      else (step.trimmedId, index) :: idTable (index + 1) rest := by
  by_cases blank : step.trimmedId = [] <;> simp [idTable, Text.orAbsent, blank]

theorem id_entry_eq_some (step : PlanStep) (i : Nat) (entry : Text × Nat) :
    (step.trimmedId.orAbsent.map fun id => (id, i)) = some entry ↔
      step.trimmedId ≠ [] ∧ entry = (step.trimmedId, i) := by
  by_cases blank : step.trimmedId = []
  · simp [Text.orAbsent, blank]
  · simpa [Text.orAbsent, blank] using eq_comm

theorem mem_id_table (steps : List PlanStep) (id : Text) (i : Nat) :
    (id, i) ∈ idTable 0 steps ↔ ∃ step, steps[i]? = some step ∧ step.trimmedId = id ∧ id ≠ [] := by
  simp only [idTable, List.mem_filterMap, Prod.exists, List.mem_zipIdx_iff_getElem?, id_entry_eq_some,
    Prod.mk.injEq]
  constructor
  · rintro ⟨step, position, found, given, rfl, rfl⟩
    exact ⟨step, found, rfl, given⟩
  · rintro ⟨step, found, rfl, given⟩
    exact ⟨step, i, found, given, rfl, rfl⟩

theorem collect_ids_eq_ok (found : Table Nat) (index : Nat) (steps : List PlanStep) (table : Table Nat)
    (unique : (Table.keys found).Nodup) :
    collectIds found index steps = .ok table ↔
      (Table.keys (found ++ idTable index steps)).Nodup ∧ table = found ++ idTable index steps := by
  induction steps generalizing found index with
  | nil => simp [collectIds, idTable, unique, eq_comm]
  | cons step rest ih =>
      by_cases blank : step.trimmedId = []
      · simp only [collectIds, blank, List.isEmpty_nil, if_true, id_table_cons]
        exact ih found (index + 1) unique
      · by_cases repeated : step.trimmedId ∈ Table.keys found
        · have clash : ¬ (Table.keys (found ++ idTable index (step :: rest))).Nodup := by
            rw [id_table_cons, if_neg blank, Table.keys_append, List.nodup_append]
            exact fun apart => apart.2.2 _ repeated _ List.mem_cons_self rfl
          simp [collectIds, blank, repeated, clash]
        · have extended : (Table.keys (found ++ [(step.trimmedId, index)])).Nodup := by
            rw [Table.keys_append]
            exact (nodup_append_one _ _).mpr ⟨repeated, unique⟩
          simp only [collectIds, List.isEmpty_iff, blank, if_false, Table.has_key_iff, repeated]
          rw [ih (found ++ [(step.trimmedId, index)]) (index + 1) extended, id_table_cons, if_neg blank,
            List.append_assoc, List.singleton_append]

theorem require_ids_eq_ok (index : Nat) (steps : List PlanStep) :
    requireIds index steps = .ok () ↔ ∀ step ∈ steps, step.trimmedId ≠ [] := by
  induction steps generalizing index with
  | nil => simp [requireIds]
  | cons step rest ih => by_cases blank : step.trimmedId = [] <;> simp [requireIds, blank, ih]

theorem check_dependency_eq_ok (ids : Table Nat) (index : Nat) (raw : Text) :
    checkDependency ids index raw = .ok () ↔
      raw.trim ≠ [] ∧ ∃ position, Table.get? raw.trim ids = some position ∧ position < index := by
  by_cases blank : raw.trim = []
  · simp [checkDependency, blank]
  · cases found : Table.get? raw.trim ids with
    | none => simp [checkDependency, blank, found]
    | some position =>
        by_cases same : position = index
        · simp [checkDependency, blank, found, same]
        · by_cases later : index < position
          · simp [checkDependency, blank, found, same, later, Nat.le_of_lt later]
          · have earlier : position < index := by omega
            simp [checkDependency, blank, found, same, later, earlier]

theorem check_selection_eq_ok (registry : AgentRegistry) (index : Nat) (seen : List Text)
    (selection : Selection) (answer : List Text) :
    checkSelection registry index seen selection = .ok answer ↔
      selection.Acceptable registry ∧ selection.id.trim ∉ seen ∧ answer = seen ++ [selection.id.trim] := by
  constructor
  · intro accepted
    rw [checkSelection] at accepted
    split at accepted
    · cases accepted
    · rename_i named
      split at accepted
      · cases accepted
      · rename_i agent found
        by_cases described : agent.hasDescription = true
        · by_cases unreasoned : selection.reason.trim = []
          · simp [described, unreasoned] at accepted
          · by_cases repeated : selection.id.trim ∈ seen
            · simp [described, unreasoned, repeated] at accepted
            · simp [described, unreasoned, repeated] at accepted
              exact ⟨⟨by simpa using named, ⟨agent, found, described⟩, unreasoned⟩, repeated, accepted.symm⟩
        · simp [described] at accepted
  · rintro ⟨⟨named, ⟨agent, found, described⟩, reasoned⟩, fresh, rfl⟩
    simp [checkSelection, named, found, described, reasoned, fresh]

theorem check_selections_eq_ok (registry : AgentRegistry) (index : Nat) (seen : List Text)
    (selections : List Selection) (answer : List Text) (unique : seen.Nodup) :
    selections.foldlM (checkSelection registry index) seen = .ok answer ↔
      (∀ selection ∈ selections, selection.Acceptable registry) ∧
        (seen ++ selections.map fun selection => selection.id.trim).Nodup ∧
        answer = seen ++ selections.map fun selection => selection.id.trim := by
  induction selections generalizing seen with
  | nil => simp [pure, Except.pure, unique, eq_comm]
  | cons head tail ih =>
      rw [List.foldlM_cons, bind_eq_ok, List.map_cons, List.append_cons]
      constructor
      · rintro ⟨next, first, rest⟩
        obtain ⟨acceptable, fresh, rfl⟩ := (check_selection_eq_ok _ _ _ _ _).mp first
        obtain ⟨others, distinct, same⟩ := (ih _ ((nodup_append_one _ _).mpr ⟨fresh, unique⟩)).mp rest
        exact ⟨List.forall_mem_cons.mpr ⟨acceptable, others⟩, distinct, same⟩
      · rintro ⟨acceptable, distinct, same⟩
        have extended := (List.nodup_append.mp distinct).1
        have fresh := ((nodup_append_one _ _).mp extended).1
        have heads := List.forall_mem_cons.mp acceptable
        exact ⟨_, (check_selection_eq_ok _ _ _ _ _).mpr ⟨heads.1, fresh, rfl⟩,
          (ih _ extended).mpr ⟨heads.2, distinct, same⟩⟩

-- What is checked of a single step, apart from agents that were selected before.
structure StepFits (registry : AgentRegistry) (ids : Table Nat) (index : Nat) (step : PlanStep) : Prop where
  staffed : step.agents ≠ []
  backward : ∀ raw ∈ step.dependencies,
    raw.trim ≠ [] ∧ ∃ position, Table.get? raw.trim ids = some position ∧ position < index
  acceptable : ∀ selection ∈ step.agents, selection.Acceptable registry

theorem check_step_eq_ok (registry : AgentRegistry) (ids : Table Nat) (index : Nat) (seen : List Text)
    (step : PlanStep) (answer : List Text) (unique : seen.Nodup) :
    checkStep registry ids index seen step = .ok answer ↔
      StepFits registry ids index step ∧ (seen ++ agentIds [step]).Nodup ∧ answer = seen ++ agentIds [step] := by
  have ids_of_step : agentIds [step] = step.agents.map fun selection => selection.id.trim := by simp [agentIds]
  have dependencies := for_m_eq_ok (checkDependency ids index) step.dependencies ()
  simp only [check_dependency_eq_ok] at dependencies
  by_cases empty : step.agents = []
  · simp only [checkStep, empty, List.isEmpty_nil, if_true]
    exact ⟨nofun, fun fits => absurd empty fits.1.staffed⟩
  · simp only [checkStep, List.isEmpty_iff, empty, if_false, ids_of_step]
    cases checked : step.dependencies.forM (checkDependency ids index) with
    | error e =>
        refine ⟨nofun, fun fits => ?_⟩
        rw [dependencies.mpr fits.1.backward] at checked
        cases checked
    | ok _ =>
        have backward := dependencies.mp checked
        simp only [check_selections_eq_ok registry index seen step.agents answer unique]
        exact ⟨fun ⟨acceptable, rest⟩ => ⟨⟨empty, backward, acceptable⟩, rest⟩,
          fun ⟨fits, rest⟩ => ⟨fits.acceptable, rest⟩⟩

theorem check_steps_eq_ok (registry : AgentRegistry) (ids : Table Nat) (index : Nat) (seen : List Text)
    (steps : List PlanStep) (answer : List Text) (unique : seen.Nodup) :
    checkSteps registry ids index seen steps = .ok answer ↔
      (∀ entry ∈ steps.zipIdx index, StepFits registry ids entry.2 entry.1) ∧
        (seen ++ agentIds steps).Nodup ∧ answer = seen ++ agentIds steps := by
  induction steps generalizing index seen with
  | nil => simp [checkSteps, agentIds, unique, eq_comm]
  | cons step rest ih =>
      have split_ids : seen ++ agentIds (step :: rest) = seen ++ agentIds [step] ++ agentIds rest := by
        simp [agentIds]
      rw [split_ids, List.zipIdx_cons, List.forall_mem_cons, checkSteps]
      cases checked : checkStep registry ids index seen step with
      | error e =>
          refine ⟨nofun, fun ⟨⟨fits, _⟩, distinct, _⟩ => ?_⟩
          have passes := (check_step_eq_ok registry ids index seen step _ unique).mpr
            ⟨fits, (List.nodup_append.mp distinct).1, rfl⟩
          rw [checked] at passes
          cases passes
      | ok next =>
          obtain ⟨fits, extended, rfl⟩ := (check_step_eq_ok registry ids index seen step next unique).mp checked
          simp only [ih (index + 1) _ extended, fits, true_and]

theorem check_parallelism_eq_ok (plan : Plan) :
    plan.checkParallelism = .ok () ↔ ∀ n, plan.maxParallelism = some n → 1 ≤ n := by
  cases given : plan.maxParallelism with
  | none => simp [checkParallelism, given]
  | some n =>
      by_cases small : n < 1
      · simp [checkParallelism, given, small]
      · simp [checkParallelism, given, Int.not_lt.mp small]

theorem id_table_distinct (steps : List PlanStep) :
    (Table.keys (idTable 0 steps)).Nodup ↔ ∀ (i j : Nat) (a b : PlanStep),
      steps[i]? = some a → steps[j]? = some b → a.trimmedId ≠ [] → a.trimmedId = b.trimmedId → i = j := by
  constructor
  · intro distinct i j a b first second given same
    have atFirst := (mem_id_table steps a.trimmedId i).mpr ⟨a, first, rfl, given⟩
    have atSecond := (mem_id_table steps a.trimmedId j).mpr ⟨b, second, same.symm, given⟩
    have one := Table.get_of_mem _ _ _ distinct atFirst
    have other := Table.get_of_mem _ _ _ distinct atSecond
    exact Option.some.inj (one.symm.trans other)
  · intro apart
    have positions : ((steps.zipIdx).map Prod.snd).Nodup := by
      simpa using List.nodup_range' (s := 0) (n := steps.length)
    rw [Table.keys, List.Nodup, List.pairwise_map, idTable, List.pairwise_filterMap]
    refine (List.pairwise_map.mp positions).imp_of_mem ?_
    rintro ⟨a, i⟩ ⟨b, j⟩ first second different entry isFirst other isSecond same
    obtain ⟨given, rfl⟩ := (id_entry_eq_some a i entry).mp isFirst
    obtain ⟨_, rfl⟩ := (id_entry_eq_some b j other).mp isSecond
    exact different (apart i j a b (List.mem_zipIdx_iff_getElem?.mp first)
      (List.mem_zipIdx_iff_getElem?.mp second) given same)

theorem step_fits_iff (plan : Plan) (registry : AgentRegistry) (i : Nat) (step : PlanStep)
    (distinct : (Table.keys (idTable 0 plan.steps)).Nodup) :
    StepFits registry (idTable 0 plan.steps) i step ↔
      step.agents ≠ [] ∧ (∀ raw ∈ step.dependencies, raw.trim ≠ [] ∧ ∃ (j : Nat) (source : PlanStep),
        j < i ∧ plan.steps[j]? = some source ∧ source.trimmedId = raw.trim) ∧
      ∀ selection ∈ step.agents, selection.Acceptable registry := by
  have earlier (raw : Text) : (raw.trim ≠ [] ∧ ∃ position,
      Table.get? raw.trim (idTable 0 plan.steps) = some position ∧ position < i) ↔
      raw.trim ≠ [] ∧ ∃ (j : Nat) (source : PlanStep),
        j < i ∧ plan.steps[j]? = some source ∧ source.trimmedId = raw.trim := by
    simp only [Table.get_eq_some_iff _ _ _ distinct, mem_id_table]
    constructor
    · rintro ⟨given, j, ⟨source, found, same, _⟩, before⟩
      exact ⟨given, j, source, before, found, same⟩
    · rintro ⟨given, j, source, before, found, same⟩
      exact ⟨given, j, ⟨source, found, same, given⟩, before⟩
  constructor
  · intro fits
    exact ⟨fits.staffed, fun raw member => (earlier raw).mp (fits.backward raw member), fits.acceptable⟩
  · rintro ⟨staffed, backward, acceptable⟩
    exact ⟨staffed, fun raw member => (earlier raw).mpr (backward raw member), acceptable⟩

theorem validate_stages (plan : Plan) (registry : AgentRegistry) (agents : List Text) :
    plan.validate registry = .ok agents ↔
      plan.checkParallelism = .ok () ∧ plan.steps ≠ [] ∧ ∃ ids, collectIds [] 0 plan.steps = .ok ids ∧
        (plan.isExplicit = true → requireIds 0 plan.steps = .ok ()) ∧
        checkSteps registry ids 0 [] plan.steps = .ok agents := by
  dsimp only [validate]
  rw [check_bind_eq_ok]
  simp only [guard_eq_ok, List.isEmpty_iff, bind_eq_ok]
  by_cases explicit : plan.isExplicit = true <;> simp [explicit, check_bind_eq_ok]

theorem validate_eq_ok (plan : Plan) (registry : AgentRegistry) (agents : List Text) :
    plan.validate registry = .ok agents ↔ plan.Valid registry ∧ agents = agentIds plan.steps := by
  simp only [validate_stages, check_parallelism_eq_ok, require_ids_eq_ok,
    collect_ids_eq_ok [] 0 plan.steps _ List.nodup_nil, check_steps_eq_ok registry _ 0 [] plan.steps agents List.nodup_nil,
    List.nil_append]
  constructor
  · rintro ⟨parallel, nonempty, _, ⟨distinct, rfl⟩, given, fits, distinctAgents, same⟩
    have fit (i : Nat) (step : PlanStep) (found : plan.steps[i]? = some step) :=
      (step_fits_iff plan registry i step distinct).mp (fits (step, i) (List.mem_zipIdx_iff_getElem?.mpr found))
    have fit_member (step : PlanStep) (member : step ∈ plan.steps) :
        step.agents ≠ [] ∧ ∀ selection ∈ step.agents, selection.Acceptable registry := by
      obtain ⟨i, found⟩ := List.mem_iff_getElem?.mp member
      exact ⟨(fit i step found).1, (fit i step found).2.2⟩
    exact ⟨{
      parallel := parallel
      nonempty := nonempty
      distinctIds := (id_table_distinct plan.steps).mp distinct
      givenIds := given
      staffed := fun step member => (fit_member step member).1
      backward := fun i step found => (fit i step found).2.1
      acceptable := fun step member => (fit_member step member).2
      distinctAgents := distinctAgents }, same⟩
  · rintro ⟨valid, same⟩
    have distinct := (id_table_distinct plan.steps).mpr valid.distinctIds
    refine ⟨valid.parallel, valid.nonempty, _, ⟨distinct, rfl⟩, valid.givenIds, ?_, valid.distinctAgents, same⟩
    rintro ⟨step, i⟩ entry
    have found := List.mem_zipIdx_iff_getElem?.mp entry
    have member := List.mem_of_getElem? found
    exact (step_fits_iff plan registry i step distinct).mpr
      ⟨valid.staffed step member, valid.backward i step found, valid.acceptable step member⟩

end Plan

end PlanFlow
