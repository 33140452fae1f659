import PlanFlow.Proofs.Assembly

/-!
What each check of the builder accepts, and that what it refuses is refused with an error of the builder. The one
exception is a numeral in a binding target that is beyond the limit of digits, which no check accepts or refuses.
-/

set_option autoImplicit false

namespace PlanFlow

def ErrorKind.OfBuild : ErrorKind → Prop
  | .invalidWorkflow | .bindingTarget | .mapFanoutInput => True
  | _ => False

def Failure.OfBuild (failure : Failure) : Prop := ∃ e, failure = .rejected e ∧ e.kind.OfBuild

theorem reject_of_build {α : Type} (e : CompileError) (failure : Failure)
    (failed : (Outcome.reject e : Outcome α) = .error failure) (kind : e.kind.OfBuild) : failure.OfBuild :=
  ⟨e, (Except.error.inj failed).symm, kind⟩

def Failure.OfCheck (failure : Failure) (overlong : Text → Prop) : Prop :=
  failure.OfBuild ∨ ∃ digits, overlong digits ∧ failure = .tooManyDigits (some digits.length)

theorem Failure.OfCheck.imp (failure : Failure) (overlong wider : Text → Prop) (fails : failure.OfCheck overlong)
    (step : ∀ digits, overlong digits → wider digits) : failure.OfCheck wider :=
  Or.imp_right (fun ⟨digits, long, same⟩ => ⟨digits, step digits long, same⟩) fails

namespace Target

def Present (messages : List Message) (target : Text) : Prop :=
  ∀ message content, indices? target = some (message, content) →
    ∃ found, messages[Decimal.valueOfAnyScript message]? = some found ∧
      ∀ digits, content = some digits → Decimal.valueOfAnyScript digits < found.content.length

def Short (target : Text) : Prop :=
  ∀ message content, indices? target = some (message, content) →
    message.length ≤ Decimal.digitLimit ∧ ∀ digits, content = some digits → digits.length ≤ Decimal.digitLimit

def Overlong (target digits : Text) : Prop :=
  Decimal.digitLimit < digits.length ∧
    ∃ message content, indices? target = some (message, content) ∧ (digits = message ∨ content = some digits)

theorem short_not_overlong (target digits : Text) (short : Short target) : ¬ Overlong target digits := by
  rintro ⟨beyond, message, content, points, named⟩
  obtain ⟨shortMessage, shortContent⟩ := short message content points
  rcases named with rfl | given
  · exact absurd shortMessage (Nat.not_le.mpr beyond)
  · exact absurd (shortContent digits given) (Nat.not_le.mpr beyond)

theorem number_short (digits : Text) (short : digits.length ≤ Decimal.digitLimit) :
    number digits = .ok (Decimal.valueOfAnyScript digits) := if_neg (Nat.not_lt.mpr short)

theorem check_short (messages : List Message) (target : Text) (short : Short target) :
    ∃ answer, check messages target = .ok answer ∧ (answer = none ↔ Present messages target) := by
  cases points : indices? target with
  | none => exact ⟨none, by simp [check, points], by simp [Present, points]⟩
  | some parts =>
      obtain ⟨message, content⟩ := parts
      obtain ⟨shortMessage, shortContent⟩ := short message content points
      have index := number_short message shortMessage
      cases found : messages[Decimal.valueOfAnyScript message]? with
      | none =>
          have absent : ¬ Present messages target := by
            intro present
            obtain ⟨other, there, _⟩ := present message content points
            rw [found] at there
            cases there
          by_cases empty : messages.isEmpty = true
          · exact ⟨some _, by simp [check, points, index, found, empty]; rfl, by simp [absent]⟩
          · exact ⟨some _, by simp [check, points, index, found, empty]; rfl, by simp [absent]⟩
      | some other =>
          cases content with
          | none =>
              refine ⟨none, by simp [check, points, index, found], ?_⟩
              simp [Present, points, found]
          | some digits =>
              have place := number_short digits (shortContent digits rfl)
              refine ⟨_, by simp [check, points, index, found, place, Except.map]; rfl, ?_⟩
              by_cases inside : Decimal.valueOfAnyScript digits < other.content.length <;>
                simp [checkContent, inside, Present, points, found]

theorem number_error (digits : Text) (failure : Failure) (failed : number digits = .error failure) :
    Decimal.digitLimit < digits.length ∧ failure = .tooManyDigits (some digits.length) := by
  rw [number] at failed
  split_ifs at failed with beyond
  exact ⟨beyond, (Except.error.inj failed).symm⟩

theorem check_error (messages : List Message) (target : Text) (failure : Failure)
    (failed : check messages target = .error failure) :
    ∃ digits, Overlong target digits ∧ failure = .tooManyDigits (some digits.length) := by
  cases points : indices? target with
  | none => simp [check, points] at failed
  | some parts =>
      obtain ⟨message, content⟩ := parts
      cases index : number message with
      | error other =>
          obtain rfl : other = failure := by simpa [check, points, index] using failed
          obtain ⟨beyond, rfl⟩ := number_error message other index
          exact ⟨message, ⟨beyond, message, content, points, Or.inl rfl⟩, rfl⟩
      | ok position =>
          cases found : messages[position]? with
          | none => by_cases empty : messages.isEmpty = true <;> simp [check, points, index, found, empty] at failed
          | some there =>
              cases content with
              | none => simp [check, points, index, found] at failed
              | some digits =>
                  have stopped : number digits = .error failure := by
                    cases place : number digits with
                    | ok _ => simp [check, points, index, found, place, Except.map] at failed
                    | error other => simpa [check, points, index, found, place, Except.map] using failed
                  obtain ⟨beyond, rfl⟩ := number_error digits failure stopped
                  exact ⟨digits, ⟨beyond, message, some digits, points, Or.inr rfl⟩, rfl⟩

end Target

def Binding.Fits (binding : Binding) (messages : List Message) : Prop :=
  ∀ target, binding.target.bind Text.orAbsent = some target → Target.Present messages target

def Binding.Short (binding : Binding) : Prop :=
  ∀ target, binding.target.bind Text.orAbsent = some target → Target.Short target

def Binding.Overlong (binding : Binding) (digits : Text) : Prop :=
  ∃ target, binding.target.bind Text.orAbsent = some target ∧ Target.Overlong target digits

namespace Target

section

variable (node : Text) (messages : List Message)

theorem check_binding_eq_ok (index : Nat) (binding : Binding) (short : binding.Short) :
    checkBinding node messages index binding = .ok () ↔ binding.Fits messages := by
  cases given : binding.target.bind Text.orAbsent with
  | none => simp [checkBinding, given, Binding.Fits]
  | some target =>
      obtain ⟨answer, checked, fits⟩ := check_short messages target (short target given)
      cases answer with
      | none => simpa [checkBinding, given, checked, Binding.Fits] using fits.mp rfl
      | some fault =>
          have absent : ¬ Present messages target := fun present => by simpa using fits.mpr present
          simp [checkBinding, given, checked, Binding.Fits, Outcome.reject, absent]

theorem check_binding_error (index : Nat) (binding : Binding) (failure : Failure)
    (failed : checkBinding node messages index binding = .error failure) : failure.OfCheck binding.Overlong := by
  cases given : binding.target.bind Text.orAbsent with
  | none => simp [checkBinding, given] at failed
  | some target =>
      cases checked : check messages target with
      | error other =>
          obtain rfl : other = failure := by simpa [checkBinding, given, checked] using failed
          obtain ⟨digits, long, same⟩ := check_error messages target other checked
          exact Or.inr ⟨digits, ⟨target, given, long⟩, same⟩
      | ok answer =>
          cases answer with
          | none => simp [checkBinding, given, checked] at failed
          | some fault =>
              simp only [checkBinding, given, checked] at failed
              exact Or.inl (reject_of_build _ failure failed trivial)

theorem check_bindings_eq_ok (index : Nat) (bindings : List Binding) (short : ∀ binding ∈ bindings, binding.Short) :
    checkBindingsFrom node messages index bindings = .ok () ↔ ∀ binding ∈ bindings, binding.Fits messages := by
  induction bindings generalizing index with
  | nil => simp [checkBindingsFrom]
  | cons head tail ih =>
      obtain ⟨first, rest⟩ := List.forall_mem_cons.mp short
      have fits := check_binding_eq_ok node messages index head first
      rw [List.forall_mem_cons, ← fits, ← ih (index + 1) rest]
      cases checked : checkBinding node messages index head <;> simp [checkBindingsFrom, checked]

theorem check_bindings_error (index : Nat) (bindings : List Binding) (failure : Failure)
    (failed : checkBindingsFrom node messages index bindings = .error failure) :
    failure.OfCheck fun digits => ∃ binding ∈ bindings, binding.Overlong digits := by
  induction bindings generalizing index with
  | nil => cases failed
  | cons head tail ih =>
      cases checked : checkBinding node messages index head with
      | error other =>
          obtain rfl : other = failure := by simpa [checkBindingsFrom, checked] using failed
          exact (check_binding_error node messages index head other checked).imp _ _ _
            fun digits long => ⟨head, List.mem_cons_self, long⟩
      | ok _ =>
          rw [checkBindingsFrom, checked] at failed
          exact (ih (index + 1) failed).imp _ _ _
            fun digits ⟨binding, member, long⟩ => ⟨binding, List.mem_cons_of_mem head member, long⟩

end

end Target

def Node.Short (node : Node) : Prop :=
  ∀ kind request, node.action = .request kind request → ∀ binding ∈ request.bindings.getD [], binding.Short

def Node.Overlong (node : Node) (digits : Text) : Prop :=
  ∃ kind request, node.action = .request kind request ∧ ∃ binding ∈ request.bindings.getD [], binding.Overlong digits

theorem Node.short_not_overlong (node : Node) (digits : Text) (short : node.Short) : ¬ node.Overlong digits := by
  rintro ⟨kind, request, does, binding, member, target, given, long⟩
  exact Target.short_not_overlong target digits (short kind request does binding member target given) long

def Node.Sound (ids : List Text) (node : Node) : Prop :=
  match node.action with
  | .request _ r =>
      (∀ binding ∈ r.bindings.getD [], binding.source ∈ ids) ∧ ∀ binding ∈ r.bindings.getD [], binding.Fits r.messages
  | .transform t => ∀ ref ∈ t.sources, ref.source ∈ ids
  | .mapFanout f => (∀ source, f.itemsFrom.bind Text.orAbsent = some source → source ∈ ids) ∧ f.checkShape = .ok ()
  | .joinAll | .joinAny _ | .joinCollect _ _ _ => True

namespace Draft

section

variable (ids : List Text)

theorem check_sources_eq_ok (node : Text) (index : Nat) (bindings : List Binding) :
    checkBindingSources ids node index bindings = .ok () ↔ ∀ binding ∈ bindings, binding.source ∈ ids := by
  induction bindings generalizing index with
  | nil => simp [checkBindingSources]
  | cons head tail ih => by_cases known : head.source ∈ ids <;> simp [checkBindingSources, known, ih, Outcome.reject]

theorem check_sources_error (node : Text) (index : Nat) (bindings : List Binding) (failure : Failure)
    (failed : checkBindingSources ids node index bindings = .error failure) : failure.OfBuild := by
  induction bindings generalizing index with
  | nil => cases failed
  | cons head tail ih =>
      by_cases known : head.source ∈ ids
      · simp only [checkBindingSources, List.contains_iff_mem, known, if_true] at failed
        exact ih (index + 1) failed
      · simp only [checkBindingSources, List.contains_iff_mem, known, if_false] at failed
        exact reject_of_build _ failure failed trivial

theorem check_reference_eq_ok (node : Text) (ref : ValueRef) :
    checkReference ids node ref = .ok () ↔ ref.source ∈ ids := by
  by_cases known : ref.source ∈ ids <;> simp [checkReference, known, Outcome.reject]

theorem check_reference_error (node : Text) (ref : ValueRef) (failure : Failure)
    (failed : checkReference ids node ref = .error failure) : failure.OfBuild := by
  by_cases known : ref.source ∈ ids
  · simp [checkReference, known] at failed
  · simp only [checkReference, List.contains_iff_mem, known, if_false] at failed
    exact reject_of_build _ failure failed trivial

theorem check_fan_out_eq_ok (node : Text) (f : FanOut) :
    checkFanOut ids node f = .ok () ↔
      (∀ source, f.itemsFrom.bind Text.orAbsent = some source → source ∈ ids) ∧ f.checkShape = .ok () := by
  cases given : f.itemsFrom.bind Text.orAbsent with
  | none => simp [checkFanOut, given, FanOut.validate, map_error_eq_ok]
  | some source =>
      by_cases known : source ∈ ids
      · simp [checkFanOut, given, known, FanOut.validate, map_error_eq_ok]
      · simp [checkFanOut, given, known, Outcome.reject, bind, Except.bind]

theorem validate_error (node : Text) (f : FanOut) (failure : Failure) (failed : f.validate node = .error failure) :
    failure.OfBuild := by
  obtain ⟨fault, _, rfl⟩ := (map_error_eq_error _ _ _).mp failed
  exact ⟨_, rfl, trivial⟩

theorem check_fan_out_error (node : Text) (f : FanOut) (failure : Failure)
    (failed : checkFanOut ids node f = .error failure) : failure.OfBuild := by
  cases given : f.itemsFrom.bind Text.orAbsent with
  | none =>
      simp only [checkFanOut, given] at failed
      exact validate_error node f failure failed
  | some source =>
      by_cases known : source ∈ ids
      · simp only [checkFanOut, given, List.contains_iff_mem, known, if_true] at failed
        exact validate_error node f failure failed
      · simp only [checkFanOut, given, List.contains_iff_mem, known, if_false] at failed
        exact reject_of_build _ failure failed trivial

theorem check_node_eq_ok (node : Node) (short : node.Short) : checkNode ids node = .ok () ↔ node.Sound ids := by
  cases does : node.action with
  | request kind request =>
      have targets := Target.check_bindings_eq_ok node.id request.messages 0 (request.bindings.getD [])
        (short kind request does)
      simp only [checkNode, Node.Sound, does, checkRequest, Target.checkBindings]
      rw [check_bind_eq_ok, check_sources_eq_ok, targets]
  | transform t => simp only [checkNode, Node.Sound, does, for_m_eq_ok, check_reference_eq_ok]
  | mapFanout f => simp only [checkNode, Node.Sound, does, check_fan_out_eq_ok]
  | _ => simp [checkNode, Node.Sound, does]

theorem check_node_error (node : Node) (failure : Failure) (failed : checkNode ids node = .error failure) :
    failure.OfCheck node.Overlong := by
  cases does : node.action with
  | request kind request =>
      simp only [checkNode, does, checkRequest] at failed
      rcases (bind_eq_error _ _ _).mp failed with sources | ⟨_, _, targets⟩
      · exact Or.inl (check_sources_error ids node.id 0 _ failure sources)
      · exact (Target.check_bindings_error node.id _ 0 _ failure targets).imp _ _ _
          fun digits long => ⟨kind, request, does, long⟩
  | transform t =>
      simp only [checkNode, does] at failed
      obtain ⟨ref, _, unknown⟩ := for_m_error _ _ _ failed
      exact Or.inl (check_reference_error ids node.id ref failure unknown)
  | mapFanout f =>
      simp only [checkNode, does] at failed
      exact Or.inl (check_fan_out_error ids node.id f failure failed)
  | _ => simp [checkNode, does] at failed

theorem check_dependency_eq_ok (node dependency : Text) :
    checkDependency ids node dependency = .ok () ↔ dependency ∈ ids ∧ dependency ≠ node := by
  by_cases own : dependency = node
  · simp [checkDependency, own, Outcome.reject]
  · by_cases known : dependency ∈ ids <;> simp [checkDependency, own, known, Outcome.reject]

theorem check_dependency_error (node dependency : Text) (failure : Failure)
    (failed : checkDependency ids node dependency = .error failure) : failure.OfBuild := by
  by_cases own : dependency = node
  · simp only [checkDependency, own, if_true] at failed
    exact reject_of_build _ failure failed trivial
  · by_cases known : dependency ∈ ids
    · simp [checkDependency, own, known] at failed
    · simp only [checkDependency, own, List.contains_iff_mem, known, if_false] at failed
      exact reject_of_build _ failure failed trivial

theorem check_edge_error (e : Edge) (failure : Failure) (failed : checkEdge ids e = .error failure) :
    failure.OfBuild := by
  rw [checkEdge] at failed
  split_ifs at failed
  · exact reject_of_build _ failure failed trivial
  · exact reject_of_build _ failure failed trivial
  · exact reject_of_build _ failure failed trivial

theorem check_output_error (output : OutputRef) (failure : Failure) (failed : checkOutput ids output = .error failure) :
    failure.OfBuild := by
  by_cases known : output.source ∈ ids
  · simp [checkOutput, known] at failed
  · simp only [checkOutput, List.contains_iff_mem, known, if_false] at failed
    exact reject_of_build _ failure failed trivial

theorem check_distinct_ids_error (seen : List Text) (nodes : List Node) (failure : Failure)
    (failed : checkDistinctIds seen nodes = .error failure) : failure.OfBuild := by
  induction nodes generalizing seen with
  | nil => cases failed
  | cons head tail ih =>
      by_cases repeated : head.id ∈ seen
      · simp only [checkDistinctIds, List.contains_iff_mem, repeated, if_true] at failed
        exact reject_of_build _ failure failed trivial
      · simp only [checkDistinctIds, List.contains_iff_mem, repeated, if_false] at failed
        exact ih _ failed

theorem check_acyclic_error (relation : Dependencies) (failure : Failure)
    (failed : checkAcyclic relation = .error failure) : failure.OfBuild := by
  cases found : relation.findCycle? with
  | none => simp [checkAcyclic, found] at failed
  | some cycle =>
      simp only [checkAcyclic, found] at failed
      exact reject_of_build _ failure failed trivial

end

end Draft

end PlanFlow
