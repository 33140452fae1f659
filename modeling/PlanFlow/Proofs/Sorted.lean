import Mathlib
import PlanFlow.Tool
import PlanFlow.Workflow.Order

/-!
Laws of lists without repetitions and of sorting by a key. A strictly ascending list depends only on which
items it holds, so neither the order nor the number of times that they are given matters.
-/

set_option autoImplicit false

namespace PlanFlow

theorem nodup_append_one {α : Type} (items : List α) (item : α) :
    (items ++ [item]).Nodup ↔ item ∉ items ∧ items.Nodup := by
  rw [← List.concat_eq_append]
  exact List.nodup_concat items item

theorem forall_of_cons {α : Type} (all : List α → Prop) (each : α → Prop) (done : all [])
    (step : ∀ item rest, all (item :: rest) ↔ each item ∧ all rest) (items : List α) :
    all items ↔ ∀ item ∈ items, each item := by
  induction items with
  | nil => exact iff_of_true done (List.forall_mem_nil each)
  | cons head tail ih => rw [step, ih, List.forall_mem_cons]

theorem map_of_cons {α β : Type} (f : List α → List β) (g : α → β) (done : f [] = [])
    (step : ∀ item rest, f (item :: rest) = g item :: f rest) (items : List α) : f items = items.map g := by
  induction items with
  | nil => exact done
  | cons head tail ih => rw [step, ih, List.map_cons]

theorem exists_matching {α β : Type} (related : α → β → Prop) (items : List α) (others : List β)
    (all : List.Forall₂ related items others) (other : β) (member : other ∈ others) : ∃ item ∈ items, related item other := by
  induction all with
  | nil => cases member
  | @cons item first _ _ own _ ih =>
      rcases List.mem_cons.mp member with rfl | later
      · exact ⟨item, List.mem_cons_self, own⟩
      · obtain ⟨found, inside, matching⟩ := ih later
        exact ⟨found, List.mem_cons_of_mem item inside, matching⟩

theorem exists_matched_at {α β : Type} (related : α → β → Prop) (items : List α) (others : List β)
    (all : List.Forall₂ related items others) (i : Nat) (item : α) (found : items[i]? = some item) :
    ∃ other, others[i]? = some other ∧ related item other := by
  induction all generalizing i with
  | nil => cases found
  | @cons _ first _ _ own _ ih =>
      cases i with
      | zero => exact ⟨first, rfl, Option.some.inj found ▸ own⟩
      | succ i => exact ih i found

theorem matched_positions {α β : Type} (related : α → β → Prop) (items : List α) (others : List β)
    (all : List.Forall₂ related items others) (start : Nat) :
    List.Forall₂ (fun a b => related a.1 b.1 ∧ a.2 = b.2) (items.zipIdx start) (others.zipIdx start) := by
  induction all generalizing start with
  | nil => exact .nil
  | cons own _ ih => exact .cons ⟨own, rfl⟩ (ih (start + 1))

theorem map_matched {α β γ : Type} (related : α → β → Prop) (f : α → γ) (g : β → γ) (items : List α) (others : List β)
    (all : List.Forall₂ related items others) (same : ∀ a b, related a b → f a = g b) : items.map f = others.map g := by
  induction all with
  | nil => rfl
  | cons own _ ih => rw [List.map_cons, List.map_cons, same _ _ own, ih]

theorem flat_map_matched {α β γ : Type} (related : α → β → Prop) (f : α → List γ) (g : β → List γ) (items : List α)
    (others : List β) (all : List.Forall₂ related items others) (moved : ∀ a b, related a b → (f a).Perm (g b)) :
    (items.flatMap f).Perm (others.flatMap g) := by
  induction all with
  | nil => exact .refl []
  | cons own _ ih => exact (moved _ _ own).append ih

theorem exists_permuted {α β : Type} (related : α → β → Prop) (items moved : List α) (others : List β)
    (matching : List.Forall₂ related items others) (order : items.Perm moved) :
    ∃ results, others.Perm results ∧ List.Forall₂ related moved results := by
  have joined : Relation.Comp List.Perm (List.Forall₂ related) moved others := ⟨items, order.symm, matching⟩
  rw [← List.forall₂_comp_perm_eq_perm_comp_forall₂] at joined
  obtain ⟨results, last, same⟩ := joined
  exact ⟨results, same.symm, last⟩

theorem exists_rematching {α β γ δ : Type} (related : α → β → Prop) (given : α → γ → Prop) (result : β → δ → Prop)
    (other : γ → δ → Prop) (items : List α) (others : List β) (values : List γ) (matching : List.Forall₂ related items others)
    (answered : List.Forall₂ given items values)
    (step : ∀ item ∈ items, ∀ b c, related item b → given item c → ∃ d, result b d ∧ other c d) :
    ∃ results, List.Forall₂ result others results ∧ List.Forall₂ other values results := by
  induction matching generalizing values with
  | nil =>
      cases answered
      exact ⟨[], .nil, .nil⟩
  | cons pair _ ih =>
      obtain ⟨value, rest, first, later, rfl⟩ := List.forall₂_cons_left_iff.mp answered
      obtain ⟨head, tail⟩ := List.forall_mem_cons.mp step
      obtain ⟨d, own, same⟩ := head _ value pair first
      obtain ⟨results, owns, sames⟩ := ih rest later tail
      exact ⟨d :: results, .cons own owns, .cons same sames⟩

theorem position_before {α : Type} [BEq α] [LawfulBEq α] (before after : List α) (item other : α)
    (unique : (before ++ item :: after).Nodup) (earlier : other ∈ before) :
    (before ++ item :: after).idxOf other < (before ++ item :: after).idxOf item := by
  have fresh : item ∉ before := fun inside =>
    (List.nodup_append.mp unique).2.2 item inside item List.mem_cons_self rfl
  rw [List.idxOf_append_of_mem earlier, List.idxOf_append_of_notMem fresh]
  exact Nat.lt_of_lt_of_le (List.idxOf_lt_length_iff.mpr earlier) (Nat.le_add_right _ _)

theorem mem_distinct {α : Type} [DecidableEq α] (item : α) (items : List α) :
    item ∈ distinct items ↔ item ∈ items := by
  induction items with
  | nil => rfl
  | cons head tail ih =>
      rw [distinct, List.mem_cons, List.mem_cons, List.mem_filter, ih]
      by_cases same : item = head <;> simp [same]

theorem distinct_nodup {α : Type} [DecidableEq α] (items : List α) : (distinct items).Nodup := by
  induction items with
  | nil => exact List.nodup_nil
  | cons head tail ih => exact List.nodup_cons.mpr ⟨by simp, ih.filter _⟩

theorem distinct_filter {α : Type} [DecidableEq α] (keep : α → Bool) (items : List α) :
    distinct (items.filter keep) = (distinct items).filter keep := by
  induction items with
  | nil => rfl
  | cons head tail ih =>
      by_cases kept : keep head = true
      · rw [List.filter_cons_of_pos kept, distinct, distinct, List.filter_cons_of_pos kept, ih, List.filter_filter,
          List.filter_filter]
        simp only [Bool.and_comm]
      · have gone (item : α) : (keep item && decide (item ≠ head)) = keep item := by
          by_cases same : item = head <;> simp_all
        rw [List.filter_cons_of_neg kept, distinct, List.filter_cons_of_neg kept, ih, List.filter_filter]
        simp only [gone]

theorem distinct_eq_erase_dups {α : Type} [DecidableEq α] [BEq α] [LawfulBEq α] (items : List α) :
    distinct items = items.eraseDups := by
  induction size : items.length using Nat.strongRecOn generalizing items with
  | ind bound ih =>
      cases items with
      | nil => rfl
      | cons head tail =>
          have shorter : (tail.filter fun item => !item == head).length < bound :=
            size ▸ Nat.lt_succ_of_le (List.length_filter_le _ tail)
          have same : (fun item => decide (item ≠ head)) = fun item => !item == head := by
            funext item
            by_cases equal : item = head <;> simp [equal]
          rw [List.eraseDups_cons, ← ih _ shorter _ rfl, distinct_filter, distinct, same]

section

variable {α κ : Type} [LT κ] [DecidableLT κ]

theorem insert_on_perm (key : α → κ) (item : α) (items : List α) :
    (insertOn key item items).Perm (item :: items) := by
  induction items with
  | nil => rfl
  | cons head tail ih =>
      rw [insertOn]
      split
      · exact (ih.cons head).trans (List.Perm.swap item head tail)
      · rfl

theorem sort_on_perm (key : α → κ) (items : List α) : (sortOn key items).Perm items := by
  induction items with
  | nil => rfl
  | cons head tail ih => exact (insert_on_perm key head (sortOn key tail)).trans (ih.cons head)

theorem mem_sort_on (key : α → κ) (item : α) (items : List α) : item ∈ sortOn key items ↔ item ∈ items :=
  (sort_on_perm key items).mem_iff

theorem insert_on_map {β : Type} (key : α → κ) (other : β → κ) (f : α → β) (same : ∀ item, other (f item) = key item)
    (item : α) (items : List α) : insertOn other (f item) (items.map f) = (insertOn key item items).map f := by
  induction items with
  | nil => rfl
  | cons head tail ih => by_cases smaller : key head < key item <;> simp [insertOn, same, smaller, ih]

theorem sort_on_map {β : Type} (key : α → κ) (other : β → κ) (f : α → β) (same : ∀ item, other (f item) = key item)
    (items : List α) : sortOn other (items.map f) = (sortOn key items).map f := by
  induction items with
  | nil => rfl
  | cons head tail ih => rw [List.map_cons, sortOn, ih, insert_on_map key other f same, sortOn]

theorem insert_on_least (key : α → κ) (item : α) (items : List α) (least : ∀ other ∈ items, ¬ key other < key item) :
    insertOn key item items = item :: items := by
  cases items with
  | nil => rfl
  | cons head tail => rw [insertOn, if_neg (least head List.mem_cons_self)]

theorem sort_on_of_ascending (key : α → κ) (items : List α) (ascending : items.Pairwise fun a b => ¬ key b < key a) :
    sortOn key items = items := by
  induction items with
  | nil => rfl
  | cons head tail ih =>
      obtain ⟨least, rest⟩ := List.pairwise_cons.mp ascending
      rw [sortOn, ih rest, insert_on_least key head tail least]

theorem unique_on_of_ascending (key : α → κ) (items : List α) (ascending : items.Pairwise fun a b => key a < key b) :
    uniqueOn key items = items := by
  induction items with
  | nil => rfl
  | cons head tail ih =>
      obtain ⟨least, rest⟩ := List.pairwise_cons.mp ascending
      rw [uniqueOn, ih rest]
      cases tail with
      | nil => rfl
      | cons next others => rw [insertUniqueOn, if_pos (least next List.mem_cons_self)]

theorem sort_on_append (key : α → κ) (front back ordered : List α) (done : sortOn key ordered = sortOn key back) :
    sortOn key (front ++ ordered) = sortOn key (front ++ back) := by
  induction front with
  | nil => exact done
  | cons head tail ih => rw [List.cons_append, List.cons_append, sortOn, sortOn, ih]

theorem insert_unique_keys (key : α → κ) (item : α) (items : List α) :
    (insertUniqueOn key item items).map key = insertUniqueOn id (key item) (items.map key) := by
  induction items with
  | nil => rfl
  | cons head tail ih =>
      by_cases before : key item < key head
      · simp [insertUniqueOn, before]
      · by_cases behind : key head < key item
        · simp [insertUniqueOn, before, behind, ih]
        · simp [insertUniqueOn, before, behind]

theorem unique_keys (key : α → κ) (items : List α) :
    (uniqueOn key items).map key = uniqueOn id (items.map key) := by
  induction items with
  | nil => rfl
  | cons head tail ih => rw [uniqueOn, insert_unique_keys, ih]; rfl

theorem mem_of_mem_insert_unique (key : α → κ) (item other : α) (items : List α)
    (member : other ∈ insertUniqueOn key item items) : other = item ∨ other ∈ items := by
  induction items with
  | nil => simpa [insertUniqueOn] using member
  | cons head tail ih =>
      rw [insertUniqueOn] at member
      split at member
      · exact List.mem_cons.mp member
      · split at member
        · rcases List.mem_cons.mp member with first | later
          · exact .inr (first ▸ List.mem_cons_self)
          · exact (ih later).imp_right (List.mem_cons_of_mem head)
        · exact (List.mem_cons.mp member).imp_right (List.mem_cons_of_mem head)

theorem mem_of_mem_unique (key : α → κ) (item : α) (items : List α) (member : item ∈ uniqueOn key items) :
    item ∈ items := by
  induction items with
  | nil => exact member
  | cons head tail ih =>
      rcases mem_of_mem_insert_unique key head item _ member with first | later
      · exact first ▸ List.mem_cons_self
      · exact List.mem_cons_of_mem head (ih later)

end

section

variable {κ : Type} [LT κ] [DecidableLT κ] [IsStrictTotalOrder κ (· < ·)]

theorem mem_insert_unique (key item : κ) (items : List κ) :
    item ∈ insertUniqueOn id key items ↔ item = key ∨ item ∈ items := by
  induction items with
  | nil => simp [insertUniqueOn]
  | cons head tail ih =>
      by_cases before : key < head
      · simp [insertUniqueOn, before]
      · by_cases behind : head < key
        · simp only [insertUniqueOn, id_eq, before, if_false, behind, if_true, List.mem_cons, ih]
          tauto
        · have same : key = head := Std.Trichotomous.trichotomous key head before behind
          simp [insertUniqueOn, same, irrefl head]

theorem mem_unique (item : κ) (items : List κ) : item ∈ uniqueOn id items ↔ item ∈ items := by
  induction items with
  | nil => rfl
  | cons head tail ih => rw [uniqueOn, mem_insert_unique, ih, List.mem_cons]

theorem insert_unique_ascending (key : κ) (items : List κ) (ascending : items.Pairwise (· < ·)) :
    (insertUniqueOn id key items).Pairwise (· < ·) := by
  induction items with
  | nil => simp [insertUniqueOn]
  | cons head tail ih =>
      obtain ⟨least, rest⟩ := List.pairwise_cons.mp ascending
      by_cases before : key < head
      · simp only [insertUniqueOn, id_eq, before, if_true, List.pairwise_cons, List.mem_cons, forall_eq_or_imp]
        exact ⟨⟨trivial, fun item member => IsTrans.trans _ _ _ before (least item member)⟩, least, rest⟩
      · by_cases behind : head < key
        · simp only [insertUniqueOn, id_eq, before, if_false, behind, if_true]
          refine List.pairwise_cons.mpr ⟨fun item member => ?_, ih rest⟩
          rcases (mem_insert_unique key item tail).mp member with same | old
          · exact same ▸ behind
          · exact least item old
        · have same : key = head := Std.Trichotomous.trichotomous key head before behind
          subst same
          simpa only [insertUniqueOn, id_eq, before, if_false] using ascending

theorem unique_ascending (items : List κ) : (uniqueOn id items).Pairwise (· < ·) := by
  induction items with
  | nil => exact .nil
  | cons head tail ih => exact insert_unique_ascending head _ ih

theorem unique_eq_of_same_members (a b : List κ) (same : ∀ item, item ∈ a ↔ item ∈ b) :
    uniqueOn id a = uniqueOn id b := by
  apply List.Pairwise.eq_of_mem_iff (unique_ascending a) (unique_ascending b)
  intro item
  rw [mem_unique, mem_unique, same]

variable {α : Type}

theorem mem_unique_of_key (key : α → κ) (item : α) (items : List α) (member : item ∈ items) :
    ∃ kept ∈ uniqueOn key items, key kept = key item := by
  have kept : key item ∈ (uniqueOn key items).map key := by
    rw [unique_keys, mem_unique]
    exact List.mem_map_of_mem member
  exact List.mem_map.mp kept

end

section

variable {α κ : Type} [LT κ] [DecidableLT κ] [IsStrictTotalOrder κ (· < ·)]

theorem not_less_trans (a b c : κ) (first : ¬ b < a) (second : ¬ c < b) : ¬ c < a := by
  intro less
  by_cases before : b < c
  · exact first (IsTrans.trans _ _ _ before less)
  · have same : b = c := Std.Trichotomous.trichotomous b c before second
    exact first (same ▸ less)

theorem insert_on_ascending (key : α → κ) (item : α) (items : List α)
    (ascending : items.Pairwise fun a b => ¬ key b < key a) :
    (insertOn key item items).Pairwise fun a b => ¬ key b < key a := by
  induction items with
  | nil => exact List.pairwise_singleton _ item
  | cons head tail ih =>
      obtain ⟨least, rest⟩ := List.pairwise_cons.mp ascending
      by_cases smaller : key head < key item
      · rw [insertOn, if_pos smaller]
        refine List.pairwise_cons.mpr ⟨fun other member => ?_, ih rest⟩
        rcases List.mem_cons.mp ((insert_on_perm key item tail).mem_iff.mp member) with rfl | inside
        · exact asymm smaller
        · exact least other inside
      · rw [insertOn, if_neg smaller]
        refine List.pairwise_cons.mpr ⟨fun other member => ?_, ascending⟩
        rcases List.mem_cons.mp member with rfl | inside
        · exact smaller
        · exact not_less_trans _ _ _ smaller (least other inside)

theorem sort_on_ascending (key : α → κ) (items : List α) :
    (sortOn key items).Pairwise fun a b => ¬ key b < key a := by
  induction items with
  | nil => exact .nil
  | cons head tail ih => exact insert_on_ascending key head _ ih

theorem insert_on_filter (key : α → κ) (keep : α → Bool) (item : α) (items : List α)
    (ascending : items.Pairwise fun a b => ¬ key b < key a) :
    (insertOn key item items).filter keep =
      if keep item then insertOn key item (items.filter keep) else items.filter keep := by
  induction items with
  | nil => by_cases kept : keep item = true <;> simp [insertOn, kept]
  | cons head tail ih =>
      obtain ⟨least, rest⟩ := List.pairwise_cons.mp ascending
      by_cases smaller : key head < key item
      · rw [insertOn, if_pos smaller]
        by_cases kept : keep head = true
        · rw [List.filter_cons_of_pos kept, List.filter_cons_of_pos kept, ih rest, insertOn, if_pos smaller]
          split <;> rfl
        · rw [List.filter_cons_of_neg kept, List.filter_cons_of_neg kept, ih rest]
      · have behind : ∀ other ∈ (head :: tail).filter keep, ¬ key other < key item := by
          intro other member
          rcases List.mem_cons.mp (List.mem_filter.mp member).1 with rfl | inside
          · exact smaller
          · exact not_less_trans _ _ _ smaller (least other inside)
        rw [insertOn, if_neg smaller, insert_on_least key item _ behind]
        by_cases kept : keep item = true <;> simp [List.filter_cons, kept]

theorem sort_on_sort_on (key : α → κ) (items : List α) : sortOn key (sortOn key items) = sortOn key items :=
  sort_on_of_ascending key _ (sort_on_ascending key items)

theorem sort_on_of_perm (key : α → κ) (items others : List α) (moved : items.Perm others)
    (apart : ∀ a ∈ items, ∀ b ∈ items, key a = key b → a = b) : sortOn key items = sortOn key others := by
  refine List.Perm.eq_of_pairwise (fun a b first second later before => ?_) (sort_on_ascending key items)
    (sort_on_ascending key others) ((sort_on_perm key items).trans (moved.trans (sort_on_perm key others).symm))
  have inside := (mem_sort_on key a items).mp first
  have held := moved.mem_iff.mpr ((mem_sort_on key b others).mp second)
  exact apart a inside b held (Std.Trichotomous.trichotomous (key a) (key b) before later)

theorem unique_on_ascending (key : α → κ) (items : List α) :
    (uniqueOn key items).Pairwise fun a b => key a < key b := by
  rw [← List.pairwise_map, unique_keys]
  exact unique_ascending _

theorem unique_of_nodup (items : List κ) (apart : items.Nodup) : uniqueOn id items = sortOn id items := by
  have ascending := unique_ascending items
  have once : (uniqueOn id items).Nodup := ascending.imp fun less => ne_of_irrefl less
  have members : (uniqueOn id items).Perm items :=
    (List.perm_ext_iff_of_nodup once apart).mpr fun item => mem_unique item items
  calc uniqueOn id items = sortOn id (uniqueOn id items) := (sort_on_of_ascending id _ (ascending.imp asymm)).symm
    _ = sortOn id items := sort_on_of_perm id _ _ members fun _ _ _ _ same => same

theorem sort_on_filter (key : α → κ) (keep : α → Bool) (items : List α) :
    (sortOn key items).filter keep = sortOn key (items.filter keep) := by
  induction items with
  | nil => rfl
  | cons head tail ih =>
      rw [sortOn, insert_on_filter key keep head _ (sort_on_ascending key tail), ih]
      by_cases kept : keep head = true
      · rw [if_pos kept, List.filter_cons_of_pos kept, sortOn]
      · rw [if_neg kept, List.filter_cons_of_neg kept]

end

theorem mem_canonical_dependencies (id : Text) (dependencies : List Text) :
    id ∈ canonicalDependencies dependencies ↔ id ∈ dependencies :=
  mem_unique id dependencies

theorem canonical_dependencies_of_same_members (a b : List Text) (same : ∀ id, id ∈ a ↔ id ∈ b) :
    canonicalDependencies a = canonicalDependencies b :=
  unique_eq_of_same_members a b same

theorem canonical_dependencies_eq_nil (dependencies : List Text) :
    canonicalDependencies dependencies = [] ↔ dependencies = [] := by
  simp only [List.eq_nil_iff_forall_not_mem, mem_canonical_dependencies]

end PlanFlow
