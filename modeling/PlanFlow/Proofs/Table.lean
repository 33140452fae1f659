import Mathlib
import PlanFlow.Table

/-!
Looking up keys. In a table without repeated keys a lookup answers exactly what the table holds.
-/

set_option autoImplicit false

namespace PlanFlow

namespace Table

variable {α : Type}

@[simp] theorem has_key_iff (key : Text) (table : Table α) : hasKey key table = true ↔ key ∈ keys table := by
  simp [hasKey, keys]

theorem keys_append (a b : Table α) : keys (a ++ b) = keys a ++ keys b := List.map_append

theorem keys_map {β : Type} (f : α → β) (table : Table α) :
    keys (table.map fun entry => (entry.1, f entry.2)) = keys table := by
  simp [keys]

theorem mem_of_get (key : Text) (table : Table α) (value : α) (found : get? key table = some value) :
    (key, value) ∈ table := by
  induction table with
  | nil => simp [get?] at found
  | cons entry rest ih =>
      by_cases same : entry.1 = key
      · rw [get?, if_pos same, Option.some.injEq] at found
        rw [← same, ← found]
        exact List.mem_cons_self
      · rw [get?, if_neg same] at found
        exact List.mem_cons_of_mem entry (ih found)

theorem get_of_mem (key : Text) (table : Table α) (value : α) (unique : (keys table).Nodup)
    (member : (key, value) ∈ table) : get? key table = some value := by
  induction table with
  | nil => simp at member
  | cons entry rest ih =>
      obtain ⟨absent, uniqueRest⟩ := List.nodup_cons.mp unique
      rcases List.mem_cons.mp member with first | later
      · rw [← first, get?, if_pos rfl]
      · have different : entry.1 ≠ key := by
          rintro rfl
          exact absent (List.mem_map.mpr ⟨_, later, rfl⟩)
        rw [get?, if_neg different]
        exact ih uniqueRest later

theorem get_of_key (key : Text) (table : Table α) (known : key ∈ keys table) : ∃ value, get? key table = some value := by
  induction table with
  | nil => cases known
  | cons entry rest ih =>
      by_cases same : entry.1 = key
      · exact ⟨entry.2, by rw [get?, if_pos same]⟩
      · rw [get?, if_neg same]
        exact ih ((List.mem_cons.mp known).resolve_left fun first => same first.symm)

theorem get_eq_some_iff (key : Text) (table : Table α) (value : α) (unique : (keys table).Nodup) :
    get? key table = some value ↔ (key, value) ∈ table :=
  ⟨mem_of_get key table value, get_of_mem key table value unique⟩

theorem put_fresh (key : Text) (value : α) (table : Table α) (fresh : key ∉ keys table) :
    put key value table = table ++ [(key, value)] := by
  induction table with
  | nil => rfl
  | cons entry rest ih =>
      have different : entry.1 ≠ key := fun same => fresh (same ▸ List.mem_cons_self)
      rw [put, if_neg different, ih fun inside => fresh (List.mem_cons_of_mem _ inside), List.cons_append]

theorem put_all_fresh (pairs : List (Text × α)) (table : Table α) (distinct : (keys (table ++ pairs)).Nodup) :
    pairs.foldl (fun table pair => put pair.1 pair.2 table) table = table ++ pairs := by
  induction pairs generalizing table with
  | nil => exact (List.append_nil table).symm
  | cons head tail ih =>
      have fresh : head.1 ∉ keys table := fun inside => by
        rw [keys_append] at distinct
        exact (List.nodup_append.mp distinct).2.2 head.1 inside head.1 List.mem_cons_self rfl
      have joined : table ++ [head] ++ tail = table ++ head :: tail := by simp
      rw [List.foldl_cons, put_fresh head.1 head.2 table fresh, ← joined]
      exact ih _ (joined ▸ distinct)

theorem of_pairs_distinct (pairs : List (Text × α)) (distinct : (keys pairs).Nodup) : ofPairs pairs = pairs :=
  put_all_fresh pairs [] distinct

theorem keys_put_known (key : Text) (value : α) (table : Table α) (known : key ∈ keys table) :
    keys (put key value table) = keys table := by
  induction table with
  | nil => cases known
  | cons entry rest ih =>
      by_cases same : entry.1 = key
      · rw [put, if_pos same]
        rfl
      · have later := (List.mem_cons.mp known).resolve_left fun first => same first.symm
        rw [put, if_neg same]
        exact congrArg (entry.1 :: ·) (ih later)

theorem keys_put (key : Text) (value other : α) (table : Table α) :
    keys (put key value table) = keys (put key other table) := by
  by_cases known : key ∈ keys table
  · rw [keys_put_known key value table known, keys_put_known key other table known]
  · rw [put_fresh key value table known, put_fresh key other table known, keys_append, keys_append]
    rfl

theorem get_put (key name : Text) (value : α) (table : Table α) :
    get? name (put key value table) = if key = name then some value else get? name table := by
  induction table with
  | nil => rfl
  | cons entry rest ih =>
      by_cases own : entry.1 = key
      · by_cases same : key = name <;> simp [put, get?, own, same]
      · rw [put, if_neg own, get?, get?, ih]
        by_cases here : entry.1 = name
        · have other : ¬ key = name := fun same => own (here.trans same.symm)
          rw [if_pos here, if_neg other, if_pos here]
        · rw [if_neg here, if_neg here]

theorem put_nodup (key : Text) (value : α) (table : Table α) (distinct : (keys table).Nodup) :
    (keys (put key value table)).Nodup := by
  by_cases known : key ∈ keys table
  · rw [keys_put_known key value table known]
    exact distinct
  · rw [put_fresh key value table known, keys_append, List.nodup_append_comm]
    exact List.nodup_cons.mpr ⟨known, distinct⟩

theorem put_all_nodup (pairs : List (Text × α)) (table : Table α) (distinct : (keys table).Nodup) :
    (keys (pairs.foldl (fun table pair => put pair.1 pair.2 table) table)).Nodup := by
  induction pairs generalizing table with
  | nil => exact distinct
  | cons head tail ih => exact ih _ (put_nodup head.1 head.2 table distinct)

theorem of_pairs_nodup (pairs : List (Text × α)) : (keys (ofPairs pairs)).Nodup := put_all_nodup pairs [] List.nodup_nil

theorem encodable_nodup (table : Table α) : (keys (encodable table)).Nodup := of_pairs_nodup _

theorem put_nonempty (key : Text) (value : α) (table : Table α) : put key value table ≠ [] := by
  cases table with
  | nil => exact List.cons_ne_nil _ _
  | cons head tail =>
      rw [put]
      split <;> exact List.cons_ne_nil _ _

theorem put_all_nonempty (pairs : List (Text × α)) (table : Table α) (filled : table ≠ []) :
    pairs.foldl (fun table pair => put pair.1 pair.2 table) table ≠ [] := by
  induction pairs generalizing table with
  | nil => exact filled
  | cons head tail ih => exact ih _ (put_nonempty head.1 head.2 table)

theorem encodable_is_empty (table : Table α) : (encodable table).isEmpty = table.isEmpty := by
  cases table with
  | nil => rfl
  | cons head tail =>
      rw [encodable, ofPairs, List.map_cons, List.foldl_cons]
      exact List.isEmpty_eq_false_iff.mpr (put_all_nonempty _ _ (put_nonempty _ _ []))

theorem put_map {β : Type} (f : α → β) (key : Text) (value : α) (table : Table α) :
    put key (f value) (table.map fun entry => (entry.1, f entry.2)) =
      (put key value table).map fun entry => (entry.1, f entry.2) := by
  induction table with
  | nil => rfl
  | cons entry rest ih => by_cases same : entry.1 = key <;> simp [put, same, ih]

theorem put_all_map {β : Type} (f : α → β) (pairs : List (Text × α)) (table : Table α) :
    (pairs.map fun entry => (entry.1, f entry.2)).foldl (fun table pair => put pair.1 pair.2 table)
        (table.map fun entry => (entry.1, f entry.2)) =
      (pairs.foldl (fun table pair => put pair.1 pair.2 table) table).map fun entry => (entry.1, f entry.2) := by
  induction pairs generalizing table with
  | nil => rfl
  | cons head tail ih =>
      rw [List.map_cons, List.foldl_cons, List.foldl_cons, ← ih (put head.1 head.2 table)]
      exact congrArg (fun start => List.foldl _ start _) (put_map f head.1 head.2 table)

theorem encodable_map {β : Type} (f : α → β) (table : Table α) :
    encodable (table.map fun entry => (entry.1, f entry.2)) = (encodable table).map fun entry => (entry.1, f entry.2) := by
  have keyed := put_all_map f (table.map fun entry => (Text.replaceSurrogates entry.1, entry.2)) []
  rw [List.map_map] at keyed
  rw [encodable, ofPairs, List.map_map]
  exact keyed

theorem mem_keys (key : Text) (table : Table α) : key ∈ keys table ↔ ∃ value, (key, value) ∈ table := by
  simp [keys]

end Table

end PlanFlow
