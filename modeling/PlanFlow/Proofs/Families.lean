import PlanFlow.Plan.Basic
import PlanFlow.Proofs.Decimal
import PlanFlow.Proofs.Token

/-!
Which ids of nodes can be the same. Ids of agents meet ids of agents only, ids of joins meet ids of joins only, and only by
their tokens; the keys of steps without an id never meet.
-/

set_option autoImplicit false

namespace PlanFlow

namespace NodeId

theorem token_generated (n : Nat) : token (("step_" : Text) ++ Decimal.ofNat n) = ("step_" : Text) ++ Decimal.ofNat n := by
  have digits (c : CodePoint) (member : c ∈ Decimal.ofNat n) : 0x30 ≤ c.val ∧ c.val ≤ 0x39 := by
    simpa [CodePoint.isDigit] using Decimal.digit_of_mem n c member
  have split : runs (("step_" : Text) ++ Decimal.ofNat n) = [("step" : Text), Decimal.ofNat n] := by
    have number : runs (Decimal.ofNat n) = [Decimal.ofNat n] :=
      Text.runs_whole _ _ (Decimal.of_nat_ne_nil n) fun c member => by
        simp [CodePoint.isAlphanumeric, CodePoint.isDigit, digits c member]
    have letters : ("step" : Text).all CodePoint.isAlphanumeric = true := by decide
    rw [← number]
    refine Text.runs_first _ "step" (Decimal.ofNat n) (by decide) (fun c member => ?_) underscore rfl
    rw [List.all_eq_true.mp letters c member, Bool.not_true]
  have small : Text.lower (Decimal.ofNat n) = Decimal.ofNat n := by
    refine (List.map_congr_left fun c member => ?_).trans (List.map_id _)
    have low := (digits c member).2
    exact Fin.ext ((CodePoint.lower_val c).trans (if_neg (by
      simp only [CodePoint.isUpper, Bool.and_eq_true, decide_eq_true_eq]
      omega)))
  rw [token_eq_join, split, List.map_cons, List.map_singleton, small]
  rfl

theorem join_of_anonymous (step : PlanStep) (index : Nat) (anonymous : step.trimmedId = []) :
    ofJoin (step.key index) = .ok (join (step.key index)) ∧ stem (step.key index) = Decimal.ofNat (index + 1) := by
  have key : step.key index = ("step_" : Text) ++ Decimal.ofNat (index + 1) := by simp [PlanStep.key, anonymous]
  have own := token_generated (index + 1)
  rw [key]
  refine ⟨of_join_usable _ ?_, stem_of_generated _ _ own⟩
  rw [own]
  exact List.append_ne_nil_of_right_ne_nil _ (Decimal.of_nat_ne_nil _)

theorem ids_meet_by_token :
    (∀ a b, token a ≠ [] → token b ≠ [] → ∃ x y, ofAgent a = .ok x ∧ ofAgent b = .ok y ∧ (x = y ↔ token a = token b)) ∧
    (∀ k l, token k ≠ [] → token l ≠ [] → ∃ x y, ofJoin k = .ok x ∧ ofJoin l = .ok y ∧ (x = y ↔ stem k = stem l)) ∧
    (∀ a k, token a ≠ [] → token k ≠ [] → ∃ x y, ofAgent a = .ok x ∧ ofJoin k = .ok y ∧ x ≠ y ∧
      x ≠ Settings.standard.synthesisNodeId ∧ y ≠ Settings.standard.synthesisNodeId) ∧
    ∀ (s t : PlanStep) (i j : Nat), s.trimmedId = [] → t.trimmedId = [] → i ≠ j →
      ∃ x y, ofJoin (s.key i) = .ok x ∧ ofJoin (t.key j) = .ok y ∧ x ≠ y := by
  refine ⟨fun a b usable_a usable_b => ?_, fun k l usable_k usable_l => ?_, fun a k usable_a usable_k => ?_,
    fun s t i j anonymous_s anonymous_t different => ?_⟩
  · exact ⟨_, _, of_agent_usable a usable_a, of_agent_usable b usable_b, agent_eq_iff a b⟩
  · exact ⟨_, _, of_join_usable k usable_k, of_join_usable l usable_l, join_eq_iff k l⟩
  · exact ⟨_, _, of_agent_usable a usable_a, of_join_usable k usable_k, agent_ne_join a k, agent_ne_standard a,
      join_ne_standard k⟩
  · obtain ⟨made_s, stem_s⟩ := join_of_anonymous s i anonymous_s
    obtain ⟨made_t, stem_t⟩ := join_of_anonymous t j anonymous_t
    refine ⟨_, _, made_s, made_t, fun same => different ?_⟩
    have digits : Decimal.ofNat (i + 1) = Decimal.ofNat (j + 1) := by
      rw [← stem_s, ← stem_t]
      exact (join_eq_iff _ _).mp same
    have numbers := congrArg Decimal.value digits
    rw [Decimal.value_of_nat, Decimal.value_of_nat] at numbers
    exact Nat.succ.inj numbers

theorem sample_ids_meet : (∃ x, ofAgent "Code Reviewer" = .ok x ∧ ofAgent "code-reviewer" = .ok x) ∧
    (∃ x, ofJoin "step_step" = .ok x ∧ ofJoin " Step " = .ok x) ∧
    (∃ x y, ofAgent "step_join" = .ok x ∧ ofJoin "step_join" = .ok y ∧ x ≠ y) ∧
    ∃ x y, ofJoin (PlanStep.key ⟨none, [], none⟩ 0) = .ok x ∧ ofJoin (PlanStep.key ⟨some "  ", [], none⟩ 10) = .ok y ∧ x ≠ y := by
  obtain ⟨agents, joins, families, anonymous⟩ := ids_meet_by_token
  obtain ⟨x, y, made, met, same⟩ := agents "Code Reviewer" "code-reviewer" (by decide) (by decide)
  obtain ⟨z, w, joined, rejoined, alike⟩ := joins "step_step" " Step " (by decide) (by decide)
  obtain ⟨u, v, agent, join, apart, _⟩ := families "step_join" "step_join" (by decide) (by decide)
  obtain rfl := same.mpr (by decide)
  obtain rfl := alike.mpr (by decide)
  exact ⟨⟨x, made, met⟩, ⟨z, joined, rejoined⟩, ⟨u, v, agent, join, apart⟩, anonymous _ _ 0 10 (by decide) (by decide) (by decide)⟩

end NodeId

end PlanFlow
