import Mathlib
import PlanFlow.Failure

/-!
Successful and failed computations, read back into the steps they consist of.
-/

set_option autoImplicit false

namespace PlanFlow

section

variable {ε ε' α β : Type}

theorem bind_eq_ok (first : Except ε α) (next : α → Except ε β) (result : β) :
    first >>= next = .ok result ↔ ∃ value, first = .ok value ∧ next value = .ok result := by
  cases first <;> simp [bind, Except.bind]

theorem check_bind_eq_ok (check : Except ε Unit) (next : Unit → Except ε β) (result : β) :
    check >>= next = .ok result ↔ check = .ok () ∧ next () = .ok result := by
  cases check <;> simp [bind, Except.bind]

theorem bind_eq_error (first : Except ε α) (next : α → Except ε β) (e : ε) :
    first >>= next = .error e ↔ first = .error e ∨ ∃ value, first = .ok value ∧ next value = .error e := by
  cases first <;> simp [bind, Except.bind]

theorem ok_bind (value : α) (next : α → Except ε β) : (Except.ok value : Except ε α) >>= next = next value :=
  rfl

theorem pure_eq_ok (value result : α) : (pure value : Except ε α) = .ok result ↔ value = result := by
  simp [pure, Except.pure]

theorem exists_ok (x : Except ε α) (passed : x.isOk = true) : ∃ value, x = .ok value := by
  cases x with
  | error e => cases passed
  | ok value => exact ⟨value, rfl⟩

theorem guard_eq_ok (refused : Prop) [Decidable refused] (e : ε) (next : α → Except ε β)
    (rest : Except ε β) (result : β) :
    (if refused then (Except.error e : Except ε α) >>= next else rest) = .ok result ↔
      ¬ refused ∧ rest = .ok result := by
  by_cases holds : refused <;> simp [holds, bind, Except.bind]

theorem guard_eq_error (refused : Prop) [Decidable refused] (e : ε) (next : α → Except ε β)
    (rest : Except ε β) (failure : ε) :
    (if refused then (Except.error e : Except ε α) >>= next else rest) = .error failure ↔
      refused ∧ e = failure ∨ ¬ refused ∧ rest = .error failure := by
  by_cases holds : refused <;> simp [holds, bind, Except.bind]

theorem map_eq_ok (f : α → β) (x : Except ε α) (result : β) :
    x.map f = .ok result ↔ ∃ value, x = .ok value ∧ f value = result := by
  cases x <;> simp [Except.map]

theorem map_passes (f : α → β) (x : Except ε α) : (∃ result, x.map f = .ok result) ↔ ∃ value, x = .ok value := by
  cases x <;> simp [Except.map]

theorem map_eq_error (f : α → β) (x : Except ε α) (e : ε) : x.map f = .error e ↔ x = .error e := by
  cases x <;> simp [Except.map]

theorem map_error_eq_ok (f : ε → ε') (x : Except ε α) (result : α) :
    x.mapError f = .ok result ↔ x = .ok result := by
  cases x <;> simp [Except.mapError]

theorem map_error_eq_error (f : ε → ε') (x : Except ε α) (e : ε') :
    x.mapError f = .error e ↔ ∃ cause, x = .error cause ∧ f cause = e := by
  cases x <;> simp [Except.mapError]

theorem for_m_eq_ok (check : α → Except ε Unit) (items : List α) (answer : Unit) :
    items.forM check = .ok answer ↔ ∀ item ∈ items, check item = .ok () := by
  induction items with
  | nil => simp [pure, Except.pure]
  | cons head tail ih =>
      rw [List.forM_eq_forM] at ih
      rw [List.forM_eq_forM, List.forM_cons, bind_eq_ok]
      simp only [List.mem_cons, forall_eq_or_imp]
      constructor
      · rintro ⟨⟨⟩, first, rest⟩
        exact ⟨first, ih.mp rest⟩
      · rintro ⟨first, rest⟩
        exact ⟨(), first, ih.mpr rest⟩

theorem for_m_error (check : α → Except ε Unit) (items : List α) (e : ε) (failed : items.forM check = .error e) :
    ∃ item ∈ items, check item = .error e := by
  induction items with
  | nil => cases failed
  | cons head tail ih =>
      rw [List.forM_eq_forM] at ih failed
      rw [List.forM_cons] at failed
      rcases (bind_eq_error _ _ _).mp failed with here | ⟨_, _, later⟩
      · exact ⟨head, List.mem_cons_self, here⟩
      · obtain ⟨item, member, stopped⟩ := ih later
        exact ⟨item, List.mem_cons_of_mem head member, stopped⟩

theorem map_m_error (f : α → Except ε β) (items : List α) (e : ε) (failed : items.mapM f = .error e) :
    ∃ item ∈ items, f item = .error e := by
  induction items with
  | nil => cases failed
  | cons head tail ih =>
      rw [List.mapM_cons] at failed
      rcases (bind_eq_error _ _ _).mp failed with here | ⟨_, _, failed⟩
      · exact ⟨head, List.mem_cons_self, here⟩
      · rcases (bind_eq_error _ _ _).mp failed with later | ⟨_, _, done⟩
        · obtain ⟨item, member, stopped⟩ := ih later
          exact ⟨item, List.mem_cons_of_mem head member, stopped⟩
        · cases done

theorem fold_m_error (f : β → α → Except ε β) (items : List α) (start : β) (e : ε)
    (failed : items.foldlM f start = .error e) : ∃ state, ∃ item ∈ items, f state item = .error e := by
  induction items generalizing start with
  | nil => cases failed
  | cons head tail ih =>
      rw [List.foldlM_cons] at failed
      rcases (bind_eq_error _ _ _).mp failed with here | ⟨next, _, later⟩
      · exact ⟨start, head, List.mem_cons_self, here⟩
      · obtain ⟨state, item, member, stopped⟩ := ih next later
        exact ⟨state, item, List.mem_cons_of_mem head member, stopped⟩

theorem map_m_eq_ok (f : α → Except ε β) (items : List α) (results : List β) :
    items.mapM f = .ok results ↔ List.Forall₂ (fun item result => f item = .ok result) items results := by
  induction items generalizing results with
  | nil => simp [pure, Except.pure, eq_comm]
  | cons head tail ih =>
      rw [List.mapM_cons, bind_eq_ok, List.forall₂_cons_left_iff]
      constructor
      · rintro ⟨first, headOk, rest⟩
        obtain ⟨others, tailOk, same⟩ := (bind_eq_ok _ _ _).mp rest
        exact ⟨first, others, headOk, (ih others).mp tailOk, ((pure_eq_ok _ _).mp same).symm⟩
      · rintro ⟨first, others, headOk, tailOk, same⟩
        refine ⟨first, headOk, ?_⟩
        rw [(ih others).mpr tailOk, ok_bind, same]
        rfl

theorem map_m_passes (f : α → Except ε β) (items : List α) :
    (∃ results, items.mapM f = .ok results) ↔ ∀ item ∈ items, ∃ result, f item = .ok result := by
  induction items with
  | nil => simp [pure, Except.pure]
  | cons head tail ih =>
      rw [List.mapM_cons, List.forall_mem_cons, ← ih]
      cases f head with
      | error e => simp [bind, Except.bind]
      | ok result => cases tail.mapM f <;> simp [bind, Except.bind, pure, Except.pure]

theorem map_m_ok_of_pure (f : α → Except ε β) (g : α → β) (items : List α)
    (agrees : ∀ item ∈ items, f item = .ok (g item)) : items.mapM f = .ok (items.map g) := by
  rw [map_m_eq_ok, List.forall₂_map_right_iff, List.forall₂_same]
  exact agrees

end

end PlanFlow
