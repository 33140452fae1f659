import PlanFlow.Plan.Reader
import PlanFlow.Proofs.Table

/-!
Schema checks that find nothing wrong, read back into the checks they consist of.
-/

set_option autoImplicit false

namespace PlanFlow

namespace Checked

variable {α β : Type}

theorem map_eq_valid (f : α → β) (checked : Checked α) (result : β) :
    f <$> checked = .valid result ↔ ∃ value, checked = .valid value ∧ f value = result := by
  cases checked <;> simp [Functor.map, map]

theorem seq_eq_valid (f : Checked (α → β)) (checked : Checked α) (result : β) :
    f <*> checked = .valid result ↔ ∃ g value, f = .valid g ∧ checked = .valid value ∧ g value = result := by
  cases f <;> cases checked <;> simp [Seq.seq, apply]

theorem and_then_eq_valid (f : α → Checked β) (checked : Checked α) (result : β) :
    checked.andThen f = .valid result ↔ ∃ value, checked = .valid value ∧ f value = .valid result := by
  cases checked <;> simp [andThen]

theorem under_eq_valid (step : Step) (checked : Checked α) (result : α) :
    checked.under step = .valid result ↔ checked = .valid result := by
  cases checked <;> simp [under]

end Checked

namespace Schema

open Checked (map_eq_valid seq_eq_valid and_then_eq_valid under_eq_valid)

variable {α : Type}

theorem closed_eq_valid (labels : List Label) (fields : Table Json) (checked : Checked α) (result : α) :
    closed labels fields checked = .valid result ↔ checked = .valid result ∧ noExtras labels fields = .valid () := by
  simp only [closed, map_eq_valid, seq_eq_valid]
  constructor
  · rintro ⟨_, _, ⟨value, valid, rfl⟩, free, rfl⟩
    exact ⟨valid, free⟩
  · rintro ⟨valid, free⟩
    exact ⟨_, (), ⟨result, valid, rfl⟩, free, rfl⟩

theorem list_from_eq_valid (check : Json → Checked α) (start : Nat) (items : List Json) (values : List α) :
    listFrom check start items = .valid values ↔ List.Forall₂ (fun item value => check item = .valid value) items values := by
  induction items generalizing start values with
  | nil => simp [listFrom, eq_comm]
  | cons head tail ih =>
      rw [List.forall₂_cons_left_iff]
      simp only [listFrom, seq_eq_valid, map_eq_valid, under_eq_valid, ih]
      constructor
      · rintro ⟨_, others, ⟨value, fits, rfl⟩, rest, rfl⟩
        exact ⟨value, others, fits, rest, rfl⟩
      · rintro ⟨value, others, fits, rest, rfl⟩
        exact ⟨_, others, ⟨value, fits, rfl⟩, rest, rfl⟩

theorem find_mem (label : Label) (fields : Table Json) (name : Text) (given : Json)
    (found : label.find? fields = some (name, given)) : ∃ key, (key, given) ∈ fields := by
  cases own : Table.get? label.name fields with
  | some value =>
      simp only [Label.find?, own, Option.some.injEq, Prod.mk.injEq] at found
      exact ⟨label.name, found.2 ▸ Table.mem_of_get _ fields value own⟩
  | none =>
      cases other : label.alternative with
      | none => simp [Label.find?, own, other] at found
      | some spelling =>
          simp only [Label.find?, own, other, Option.map_eq_some_iff, Prod.mk.injEq] at found
          obtain ⟨value, held, _, rfl⟩ := found
          exact ⟨spelling, Table.mem_of_get spelling fields value held⟩

theorem required_eq_valid (label : Label) (check : Json → Checked α) (fields : Table Json) (value : α) :
    required label check fields = .valid value ↔ ∃ entry, label.find? fields = some entry ∧ check entry.2 = .valid value := by
  cases found : label.find? fields with
  | none => simp [required, found, Checked.fail, Checked.under]
  | some entry => simp [required, found, under_eq_valid]

theorem defaulted_eq_valid (label : Label) (check : Json → Checked α) (fallback : α) (fields : Table Json) (value : α) :
    defaulted label check fallback fields = .valid value ↔ label.find? fields = none ∧ fallback = value ∨
      ∃ entry, label.find? fields = some entry ∧ check entry.2 = .valid value := by
  cases found : label.find? fields with
  | none => simp [defaulted, found]
  | some entry => simp [defaulted, found, under_eq_valid]

theorem absentable_valid (label : Label) (check : Json → Checked α) (fields : Table Json) (value : α)
    (valid : absentable label check fields = .valid (some value)) : ∃ entry ∈ fields, check entry.2 = .valid value := by
  rcases (defaulted_eq_valid label (optional check) none fields _).mp valid with ⟨_, absent⟩ | ⟨⟨name, given⟩, found, valid⟩
  · cases absent
  · obtain ⟨key, member⟩ := find_mem label fields name given found
    refine ⟨(key, given), member, ?_⟩
    cases given with
    | null => cases valid
    | _ =>
        obtain ⟨inner, fits, same⟩ := (map_eq_valid some _ _).mp valid
        exact Option.some.inj same ▸ fits

theorem record_valid (name : Text) (input : Json) (fields : Table Json) (valid : record name input = .valid fields) :
    input = .obj fields := by
  cases input with
  | obj given =>
      simp only [record, keyed] at valid
      split at valid
      · cases valid
      · exact congrArg Json.obj (Checked.valid.inj valid)
  | _ => cases valid

theorem integer_at_most_limit_valid (input : Json) (n : Int) (valid : integerAtMostLimit input = .valid n) :
    n ≤ integerLimit := by
  obtain ⟨value, _, bounded⟩ := (and_then_eq_valid _ _ _).mp valid
  by_cases small : value ≤ integerLimit
  · rw [if_pos small, Checked.valid.injEq] at bounded
    exact bounded ▸ small
  · rw [if_neg small] at bounded
    cases bounded

theorem count_of_valid (input : Json) (n : Int) (valid : positiveInteger input = .valid n) : 0 < n ∧ n ≤ integerLimit := by
  obtain ⟨value, bounded, positive⟩ := (and_then_eq_valid _ _ _).mp valid
  have most := integer_at_most_limit_valid input value bounded
  by_cases above : 0 < value
  · rw [if_pos above, Checked.valid.injEq] at positive
    exact positive ▸ ⟨above, most⟩
  · rw [if_neg above] at positive
    cases positive

end Schema

namespace Plan

def Parsed (plan : Plan) : Prop := ∃ input, Plan.ofJson input = .valid plan

theorem bound_read (input : Json) (plan : Plan) (valid : Plan.ofJson input = .valid plan) (n : Int)
    (given : plan.maxParallelism = some n) :
    ∃ fields, input = .obj fields ∧ ∃ entry ∈ fields, Schema.integerAtMostLimit entry.2 = .valid n := by
  obtain ⟨fields, opened, checked⟩ := (Checked.and_then_eq_valid _ _ _).mp valid
  obtain ⟨made, _⟩ := (Schema.closed_eq_valid _ _ _ _).mp checked
  obtain ⟨_, steps, front, _, rfl⟩ := (Checked.seq_eq_valid _ _ _).mp made
  obtain ⟨_, bound, first, bounded, rfl⟩ := (Checked.seq_eq_valid _ _ _).mp front
  obtain ⟨_, _, rfl⟩ := (Checked.map_eq_valid _ _ _).mp first
  have same : bound = some n := given
  rw [same] at bounded
  exact ⟨fields, Schema.record_valid _ input fields opened, Schema.absentable_valid _ _ _ n bounded⟩

theorem parsed_bounded (plan : Plan) (parsed : plan.Parsed) (n : Int) (given : plan.maxParallelism = some n) :
    n ≤ Schema.integerLimit := by
  obtain ⟨input, valid⟩ := parsed
  obtain ⟨_, _, entry, _, fits⟩ := bound_read input plan valid n given
  exact Schema.integer_at_most_limit_valid entry.2 n fits

end Plan

end PlanFlow
