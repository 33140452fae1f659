import PlanFlow.Proofs.Outcome

/-!
Checks that answer with the first of several faults. Every fault has a place in the order of the checks: a list of numbers,
compared number by number from the left. What a check answers is a fault than which no other has an earlier place.
-/

set_option autoImplicit false

namespace PlanFlow

abbrev Faults (ε : Type) := List Nat → ε → Prop

-- A check passes where there is no fault, and fails with the first one otherwise.
inductive FindsFirst {ε α : Type} (faults : Faults ε) : Except ε α → Prop where
  | passed (value : α) (clear : ∀ place e, ¬ faults place e) : FindsFirst faults (.ok value)
  | failed (e : ε) (place : List Nat) (found : faults place e)
      (first : ∀ other e', faults other e' → ¬ other < place) : FindsFirst faults (.error e)

namespace Faults

variable {ε : Type} (faults : Faults ε) (n : Nat)

def part : Faults ε := fun place => faults (n :: place)

def onward : Faults ε := fun place e => ∃ k rest, place = k :: rest ∧ n ≤ k ∧ faults.part k rest e

def Unique : Prop := ∀ place e e', faults place e → faults place e' → e = e'

end Faults

namespace FindsFirst

variable {ε α β σ : Type} {faults : Faults ε}

theorem eq_error_iff (unique : faults.Unique) (x : Except ε α) (finds : FindsFirst faults x) (e : ε) :
    x = .error e ↔ ∃ place, faults place e ∧ ∀ other e', faults other e' → ¬ other < place := by
  cases finds with
  | passed value clear => exact ⟨nofun, fun ⟨place, fault, _⟩ => absurd fault (clear place e)⟩
  | failed found place fault first =>
      constructor
      · rintro ⟨⟩
        exact ⟨place, fault, first⟩
      · rintro ⟨other, theirs, earliest⟩
        have same : place = other := le_antisymm (not_lt.mp (first other e theirs)) (not_lt.mp (earliest place found fault))
        rw [unique other e found theirs (same ▸ fault)]

theorem not_passed_iff (x : Except ε α) (finds : FindsFirst faults x) :
    (∃ e, x = .error e) ↔ ∃ place e, faults place e := by
  cases finds with
  | passed value clear => exact ⟨nofun, fun ⟨place, e, fault⟩ => absurd fault (clear place e)⟩
  | failed e place fault _ => exact ⟨fun _ => ⟨place, e, fault⟩, fun _ => ⟨e, rfl⟩⟩

theorem test (refused : Prop) [Decidable refused] (e : ε) (value : α) (found : refused → faults [] e)
    (only : ∀ place e', faults place e' → refused) : FindsFirst faults (if refused then .error e else .ok value) := by
  by_cases holds : refused
  · rw [if_pos holds]
    exact .failed e [] (found holds) fun other _ _ => List.not_lt_nil other
  · rw [if_neg holds]
    exact .passed value fun place e' fault => holds (only place e' fault)

theorem congr (others : Faults ε) (x : Except ε α) (finds : FindsFirst faults x)
    (same : ∀ place e, others place e ↔ faults place e) : FindsFirst others x := by
  rwa [funext₂ fun place e => propext (same place e)]

theorem of_onward_zero (x : Except ε α) (placed : ∀ e, ¬ faults [] e) (finds : FindsFirst (faults.onward 0) x) :
    FindsFirst faults x := by
  refine congr faults x finds fun place e => ?_
  cases place with
  | nil => simpa [Faults.onward] using placed e
  | cons k rest => simp [Faults.onward, Faults.part]

theorem map (f : α → β) (x : Except ε α) (finds : FindsFirst faults x) : FindsFirst faults (x.map f) := by
  cases finds with
  | passed value clear => exact .passed (f value) clear
  | failed e place found first => exact .failed e place found first

theorem of_map (f : α → β) (x : Except ε α) (finds : FindsFirst faults (x.map f)) : FindsFirst faults x := by
  cases x with
  | ok value =>
      cases finds with
      | passed _ clear => exact .passed value clear
  | error e =>
      cases finds with
      | failed _ place found first => exact .failed e place found first

section

variable (n : Nat)

theorem stop (e : ε) (found : faults.part n [] e) : FindsFirst (faults.onward n) (.error e : Except ε α) := by
  refine .failed e [n] ⟨n, [], rfl, le_rfl, found⟩ ?_
  rintro _ _ ⟨k, rest, rfl, later, _⟩ before
  rcases List.cons_lt_cons_iff.mp before with less | ⟨_, nothing⟩
  · exact Nat.not_lt.mpr later less
  · exact List.not_lt_nil rest nothing

theorem skip (x : Except ε α) (clear : ∀ place e, ¬ faults.part n place e) (finds : FindsFirst (faults.onward (n + 1)) x) :
    FindsFirst (faults.onward n) x := by
  refine congr _ x finds fun place e =>
    ⟨?_, fun ⟨k, rest, given, later, fault⟩ => ⟨k, rest, given, Nat.le_of_succ_le later, fault⟩⟩
  rintro ⟨k, rest, given, later, fault⟩
  have other : n ≠ k := by
    rintro rfl
    exact clear rest e fault
  exact ⟨k, rest, given, Nat.lt_of_le_of_ne later other, fault⟩

theorem refuse (refused : Prop) [Decidable refused] (e : ε) (rest : Except ε α) (found : refused → faults.part n [] e)
    (only : ∀ place e', faults.part n place e' → refused)
    (finds : ¬ refused → FindsFirst (faults.onward (n + 1)) rest) :
    FindsFirst (faults.onward n) (if refused then .error e else rest) := by
  by_cases holds : refused
  · rw [if_pos holds]
    exact stop n e (found holds)
  · rw [if_neg holds]
    exact skip n rest (fun place e' fault => holds (only place e' fault)) (finds holds)

theorem finish (value : α) (clear : ∀ k place e, n ≤ k → ¬ faults.part k place e) :
    FindsFirst (faults.onward n) (.ok value : Except ε α) :=
  .passed value fun _ e ⟨k, rest, _, later, fault⟩ => clear k rest e later fault

theorem bind (x : Except ε α) (next : α → Except ε β) (first : FindsFirst (faults.part n) x)
    (rest : ∀ value, x = .ok value → FindsFirst (faults.onward (n + 1)) (next value)) :
    FindsFirst (faults.onward n) (x >>= next) := by
  cases first with
  | passed value clear => exact skip n (next value) clear (rest value rfl)
  | failed e place found first =>
      refine .failed e (n :: place) ⟨n, place, rfl, le_rfl, found⟩ ?_
      rintro _ e' ⟨k, other, rfl, later, fault⟩ before
      rcases List.cons_lt_cons_iff.mp before with less | ⟨rfl, inner⟩
      · exact Nat.not_lt.mpr later less
      · exact first other e' fault inner

end

section

variable (run : Nat → σ → List α → Except ε σ) (none_left : ∀ n state, run n state [] = .ok state)
  (one_first : ∀ n state item rest, run n state (item :: rest) = run n state [item] >>= fun after => run (n + 1) after rest)
  (items : List α) (states : Nat → σ)
  (each : ∀ k item, items[k]? = some item → FindsFirst (faults.part k) (run k (states k) [item]))
  (next : ∀ k item state, items[k]? = some item → run k (states k) [item] = .ok state → state = states (k + 1))
  (inside : ∀ k place e, faults.part k place e → k < items.length)

include none_left one_first each next inside

-- By induction on the items that are left, in the state that those before them have led to.
theorem loop_from (n : Nat) (rest : List α) (left : items.drop n = rest) :
    FindsFirst (faults.onward n) (run n (states n) rest) := by
  induction rest generalizing n with
  | nil =>
      rw [none_left]
      refine finish n (states n) fun k place e later fault => ?_
      have passed := List.drop_eq_nil_iff.mp left
      exact absurd (inside k place e fault) (Nat.not_lt.mpr (passed.trans later))
  | cons item tail ih =>
      have found : items[n]? = some item := by rw [← List.head?_drop, left, List.head?_cons]
      have after : items.drop (n + 1) = tail := by rw [← List.tail_drop, left, List.tail_cons]
      rw [one_first]
      refine bind n _ _ (each n item found) fun state passed => ?_
      rw [next n item state found passed]
      exact ih (n + 1) after

theorem loop (start : σ) (begins : states 0 = start) (placed : ∀ e, ¬ faults [] e) : FindsFirst faults (run 0 start items) :=
  begins ▸ of_onward_zero _ placed (loop_from run none_left one_first items states each next inside 0 items rfl)

end

theorem fold (f : σ → α → Except ε σ) (items : List α) (states : Nat → σ)
    (each : ∀ k item, items[k]? = some item → FindsFirst (faults.part k) (f (states k) item))
    (next : ∀ k item state, items[k]? = some item → f (states k) item = .ok state → state = states (k + 1))
    (inside : ∀ k place e, faults.part k place e → k < items.length) (start : σ) (begins : states 0 = start)
    (placed : ∀ e, ¬ faults [] e) : FindsFirst faults (items.foldlM f start) := by
  have single (state : σ) (item : α) : [item].foldlM f state = f state item := by
    rw [List.foldlM_cons]
    exact bind_pure (f state item)
  refine loop (fun _ state rest => rest.foldlM f state) (fun _ _ => rfl) (fun _ state item rest => ?_) items states
    (fun k item found => ?_) (fun k item state found passed => ?_) inside start begins placed
  · rw [single, List.foldlM_cons]
  · rw [single]
    exact each k item found
  · exact next k item state found (single _ item ▸ passed)

theorem for_each (check : α → Except ε Unit) (items : List α)
    (each : ∀ k item, items[k]? = some item → FindsFirst (faults.part k) (check item))
    (inside : ∀ k place e, faults.part k place e → k < items.length) (placed : ∀ e, ¬ faults [] e) :
    FindsFirst faults (items.forM check) := by
  have folded (rest : List α) : rest.forM check = rest.foldlM (fun _ item => check item) () := by
    induction rest with
    | nil => rfl
    | cons head tail ih =>
        rw [List.forM_eq_forM] at ih ⊢
        rw [List.forM_cons, List.foldlM_cons, ih]
  rw [folded]
  exact fold _ items (fun _ => ()) each (fun _ _ _ _ _ => rfl) inside () rfl placed

theorem map_each (f : α → Except ε β) (items : List α)
    (each : ∀ k item, items[k]? = some item → FindsFirst (faults.part k) (f item))
    (inside : ∀ k place e, faults.part k place e → k < items.length) (placed : ∀ e, ¬ faults [] e) :
    FindsFirst faults (items.mapM f) := by
  let check (item : α) : Except ε Unit := (f item).map fun _ => ()
  have discarded (rest : List α) : (rest.mapM f).map (fun _ => ()) = rest.forM check := by
    induction rest with
    | nil => rfl
    | cons head tail ih =>
        rw [List.forM_eq_forM] at ih ⊢
        have own : check head = (f head).map fun _ => () := rfl
        rw [List.mapM_cons, List.forM_cons, ← ih, own]
        cases f head with
        | error e => rfl
        | ok result => cases tail.mapM f <;> rfl
  refine .of_map (fun _ => ()) _ ?_
  rw [discarded]
  exact for_each check items (fun k item found => .map _ _ (each k item found)) inside placed

end FindsFirst

end PlanFlow
