import PlanFlow.Proofs.Resending

/-!
The order of keys. Values that are equal up to the order of the keys in their objects, and tables whose entries were put
in another order; what is asked of one of them is asked of the other, and one canonical text is written for both.
-/

set_option autoImplicit false

namespace PlanFlow

open Json.Canonical (memberKey)

namespace Text

theorem units_cons_inj (c d : CodePoint) (s t : List Nat) (first : CodePoint.isSurrogate c = false)
    (second : CodePoint.isSurrogate d = false) (same : CodePoint.units c ++ s = CodePoint.units d ++ t) : c = d ∧ s = t := by
  simp only [CodePoint.isSurrogate, Bool.and_eq_false_iff, decide_eq_false_iff_not] at first second
  by_cases low : c.val < 0x10000 <;> by_cases other : d.val < 0x10000 <;>
    simp only [CodePoint.units, low, other, if_true, if_false, List.cons_append, List.nil_append, List.cons.injEq] at same
  · exact ⟨Fin.ext same.1, same.2⟩
  · omega
  · omega
  · exact ⟨Fin.ext (by omega), same.2.2⟩

theorem units_injective (a b : Text) (first : a.hasSurrogate = false) (second : b.hasSurrogate = false)
    (same : a.units = b.units) : a = b := by
  have filled (c : CodePoint) (rest : List Nat) : CodePoint.units c ++ rest ≠ [] := by
    by_cases low : c.val < 0x10000 <;> simp [CodePoint.units, low]
  induction a generalizing b with
  | nil =>
      cases b with
      | nil => rfl
      | cons d rest => exact absurd same.symm (filled d _)
  | cons c others ih =>
      cases b with
      | nil => exact absurd same (filled c _)
      | cons d rest =>
          obtain ⟨clean, cleaner⟩ := List.forall_mem_cons.mp ((no_surrogate_iff _).mp first)
          obtain ⟨plain, plainer⟩ := List.forall_mem_cons.mp ((no_surrogate_iff _).mp second)
          obtain ⟨rfl, tails⟩ := units_cons_inj c d _ _ clean plain same
          rw [ih rest ((no_surrogate_iff _).mpr cleaner) ((no_surrogate_iff _).mpr plainer) tails]

end Text

namespace Table

variable {α β γ δ : Type}

abbrev Matched (related : α → β → Prop) (table : Table α) (other : Table β) : Prop :=
  List.Forall₂ (fun a b => a.1 = b.1 ∧ related a.2 b.2) table other

def Moved (related : α → β → Prop) (table : Table α) (other : Table β) : Prop :=
  ∃ moved, Matched related table moved ∧ moved.Perm other

section

variable {related : α → β → Prop}

theorem matched_iff (table : Table α) (other : Table β) : Matched related table other ↔
    keys table = keys other ∧ List.Forall₂ related (values table) (values other) := by
  induction table generalizing other with
  | nil => cases other <;> simp [keys, values]
  | cons head tail ih =>
      cases other with
      | nil => simp [keys]
      | cons first rest =>
          simp only [Matched, List.forall₂_cons] at ih ⊢
          rw [ih rest]
          simp only [keys, values, List.map_cons, List.cons.injEq, List.forall₂_cons]
          tauto

theorem keys_renamed (rename : Text → Text) (f : α → β) (table : Table α) :
    keys (table.map fun entry => (rename entry.1, f entry.2)) = (keys table).map rename := by
  rw [keys, keys, List.map_map, List.map_map]
  rfl

theorem moved_keys (table : Table α) (other : Table β) (moved : Moved related table other) :
    (keys table).Perm (keys other) := by
  obtain ⟨mid, each, order⟩ := moved
  rw [((matched_iff table mid).mp each).1]
  exact order.map Prod.fst

theorem moved_nodup (table : Table α) (other : Table β) (moved : Moved related table other) (distinct : (keys table).Nodup) :
    (keys other).Nodup := (moved_keys table other moved).nodup_iff.mp distinct

theorem moved_given (table : Table α) (other : Table β) (moved : Moved related table other) (entry : Text × β)
    (member : entry ∈ other) : ∃ given ∈ table, given.1 = entry.1 ∧ related given.2 entry.2 := by
  obtain ⟨mid, each, order⟩ := moved
  exact exists_matching _ table mid each entry (order.mem_iff.mpr member)

theorem moved_map {mapped : γ → δ → Prop} (f : α → γ) (g : β → δ) (rename : Text → Text) (table : Table α)
    (other : Table β) (moved : Moved related table other)
    (step : ∀ a ∈ values table, ∀ b, related a b → mapped (f a) (g b)) :
    Moved mapped (table.map fun entry => (rename entry.1, f entry.2))
    (other.map fun entry => (rename entry.1, g entry.2)) := by
  obtain ⟨mid, each, order⟩ := moved
  refine ⟨mid.map fun entry => (rename entry.1, g entry.2), ?_, order.map _⟩
  rw [Matched, List.forall₂_map_left_iff, List.forall₂_map_right_iff]
  have inside := (List.forall₂_and_left _ _).mpr
    ⟨fun entry member => (List.mem_map_of_mem member : entry.2 ∈ values table), each⟩
  exact inside.imp fun a b ⟨held, key, own⟩ => ⟨congrArg rename key, step a.2 held b.2 own⟩

theorem moved_filter (keep : Text × α → Bool) (also : Text × β → Bool) (table : Table α) (other : Table β)
    (moved : Moved related table other) (same : ∀ a b, a.1 = b.1 ∧ related a.2 b.2 → keep a = also b) :
    Moved related (table.filter keep) (other.filter also) := by
  obtain ⟨mid, each, order⟩ := moved
  exact ⟨mid.filter also, List.rel_filter (fun a b own => iff_of_eq (congrArg (· = true) (same a b own))) each,
    order.filter also⟩

theorem moved_append {related : α → α → Prop} (front table other : Table α)
    (own : ∀ value ∈ values front, related value value)
    (moved : Moved related table other) : Moved related (front ++ table) (front ++ other) := by
  obtain ⟨mid, each, order⟩ := moved
  refine ⟨front ++ mid, List.rel_append (List.forall₂_same.mpr fun entry member => ?_) each, order.append_left front⟩
  exact ⟨rfl, own entry.2 (List.mem_map_of_mem member)⟩

theorem moved_imp {wider : α → β → Prop} (table : Table α) (other : Table β) (moved : Moved related table other)
    (step : ∀ a ∈ values table, ∀ b, related a b → wider a b) : Moved wider table other := by
  simpa using moved_map id id id table other moved step

theorem matched_get (key : Text) (table : Table α) (other : Table β) (each : Matched related table other) :
    Option.Rel related (get? key table) (get? key other) := by
  induction each with
  | nil => exact .none
  | @cons a b _ _ own _ ih =>
      by_cases same : a.1 = key
      · rw [get?, get?, if_pos same, if_pos (own.1 ▸ same)]
        exact .some own.2
      · rw [get?, get?, if_neg same, if_neg (own.1 ▸ same)]
        exact ih

theorem get_order (key : Text) (table other : Table α) (order : table.Perm other) (distinct : (keys table).Nodup) :
    get? key table = get? key other := by
  have there : (keys other).Nodup := (order.map Prod.fst).nodup_iff.mp distinct
  refine Option.ext fun value => ?_
  rw [get_eq_some_iff key table value distinct, get_eq_some_iff key other value there]
  exact order.mem_iff

theorem moved_get (key : Text) (table : Table α) (other : Table β) (moved : Moved related table other)
    (distinct : (keys table).Nodup) : Option.Rel related (get? key table) (get? key other) := by
  obtain ⟨mid, each, order⟩ := moved
  have middle : (keys mid).Nodup := ((matched_iff table mid).mp each).1 ▸ distinct
  rw [← get_order key mid other order middle]
  exact matched_get key table mid each

end

theorem moved_refl {related : α → α → Prop} (table : Table α) (own : ∀ value ∈ values table, related value value) :
    Moved related table table :=
  ⟨table, List.forall₂_same.mpr fun entry member => ⟨rfl, own entry.2 (List.mem_map_of_mem member)⟩, .rfl⟩

theorem moved_perm (table other : Table α) (moved : Moved Eq table other) : table.Perm other := by
  obtain ⟨mid, each, order⟩ := moved
  have same : table = mid := by
    rw [← List.forall₂_eq_eq_eq]
    exact each.imp fun a b own => Prod.ext own.1 own.2
  exact same ▸ order

theorem moved_symm {related : α → β → Prop} {back : β → α → Prop} (table : Table α) (other : Table β)
    (moved : Moved related table other) (step : ∀ a ∈ values table, ∀ b, related a b → back b a) :
    Moved back other table := by
  obtain ⟨mid, each, order⟩ := moved
  have inside := (List.forall₂_and_left _ _).mpr
    ⟨fun entry member => (List.mem_map_of_mem member : entry.2 ∈ values table), each⟩
  have turned : Matched back mid table := inside.flip.imp fun b a ⟨held, key, own⟩ => ⟨key.symm, step a.2 held b.2 own⟩
  obtain ⟨results, permuted, last⟩ := exists_permuted _ mid other table turned order
  exact ⟨results, last, permuted.symm⟩

end Table

namespace Json

-- Values that are equal up to the order of the keys in their objects, at every depth.
inductive Reordered : Json → Json → Prop where
  | same (value : Json) : Reordered value value
  | arr (items others : List Json) (each : List.Forall₂ Reordered items others) : Reordered (.arr items) (.arr others)
  | obj (fields moved others : Table Json) (keys : Table.keys fields = Table.keys moved)
      (each : List.Forall₂ Reordered (Table.values fields) (Table.values moved)) (order : moved.Perm others) :
      Reordered (.obj fields) (.obj others)

theorem reordered_arr (items : List Json) (b : Json) :
    Reordered (.arr items) b ↔ ∃ others, b = .arr others ∧ List.Forall₂ Reordered items others := by
  constructor
  · intro moved
    cases moved with
    | same => exact ⟨items, rfl, List.forall₂_same.mpr fun item _ => .same item⟩
    | arr _ others each => exact ⟨others, rfl, each⟩
  · rintro ⟨others, rfl, each⟩
    exact .arr items others each

theorem reordered_obj (fields : Table Json) (b : Json) :
    Reordered (.obj fields) b ↔ ∃ others, b = .obj others ∧ Table.Moved Reordered fields others := by
  constructor
  · intro moved
    cases moved with
    | same => exact ⟨fields, rfl, Table.moved_refl fields fun value _ => .same value⟩
    | obj _ mid others keys each order => exact ⟨others, rfl, mid, (Table.matched_iff fields mid).mpr ⟨keys, each⟩, order⟩
  · rintro ⟨others, rfl, mid, each, order⟩
    obtain ⟨keys, values⟩ := (Table.matched_iff fields mid).mp each
    exact .obj fields mid others keys values order

@[elab_as_elim]
theorem reordered_by_parts {motive : Json → Json → Prop} (same : ∀ value, motive value value)
    (arr : ∀ items others, List.Forall₂ motive items others → motive (.arr items) (.arr others))
    (obj : ∀ fields others, Table.Moved motive fields others → motive (.obj fields) (.obj others))
    (a b : Json) (moved : a.Reordered b) : motive a b := by
  induction a using by_parts generalizing b with
  | arr items ih =>
      obtain ⟨others, rfl, each⟩ := (reordered_arr items b).mp moved
      have inside := (List.forall₂_and_left _ _).mpr ⟨ih, each⟩
      exact arr items others (inside.imp fun item other ⟨step, own⟩ => step other own)
  | obj fields ih =>
      obtain ⟨others, rfl, order⟩ := (reordered_obj fields b).mp moved
      refine obj fields others (Table.moved_imp fields others order fun value member other own => ?_)
      obtain ⟨entry, inside, rfl⟩ := List.mem_map.mp member
      exact ih entry inside other own
  | _ =>
      cases moved
      exact same _

theorem write_obj_moved (fields others : Table Json)
    (moved : Table.Moved (fun a b => Canonical.write b = Canonical.write a) fields others)
    (distinct : (Table.keys fields).Nodup)
    (clean : ∀ key ∈ Table.keys fields, key.hasSurrogate = false) :
    Canonical.write (.obj others) = Canonical.write (.obj fields) := by
  have keys := Table.moved_keys fields others moved
  have placed : (Table.keys fields).find? Text.hasSurrogate = none :=
    List.find?_eq_none.mpr fun key member => by simp [clean key member]
  have also : (Table.keys others).find? Text.hasSurrogate = none :=
    List.find?_eq_none.mpr fun key member => by simp [clean key (keys.mem_iff.mpr member)]
  obtain ⟨mid, each, order⟩ := moved
  have written : Canonical.writeFields fields = Canonical.writeFields mid := by
    rw [write_fields_map, write_fields_map, ← List.forall₂_eq_eq_eq, List.forall₂_map_left_iff, List.forall₂_map_right_iff]
    exact each.imp fun a b own => Prod.ext own.1 own.2.symm
  have named : Table.keys (Canonical.writeFields mid) = Table.keys fields := by
    rw [← written, write_fields_map, Table.keys_map]
  have permuted : (Canonical.writeFields mid).Perm (Canonical.writeFields others) := by
    rw [write_fields_map, write_fields_map]
    exact order.map _
  have sorted : sortOn memberKey (Canonical.writeFields mid) = sortOn memberKey (Canonical.writeFields others) := by
    refine sort_on_of_perm memberKey _ _ permuted fun a first b second same => ?_
    have known (entry : Text × Except Canonical.Fault Text) (member : entry ∈ Canonical.writeFields mid) :
        entry.1.hasSurrogate = false := clean _ (named ▸ List.mem_map_of_mem member)
    have unit := Text.units_injective a.1 b.1 (known a first) (known b second) same
    exact List.inj_on_of_nodup_map (named ▸ distinct : (Table.keys (Canonical.writeFields mid)).Nodup) first second unit
  rw [Canonical.write, Canonical.write, placed, also, written, sorted]

section

variable (a b : Json) (moved : a.Reordered b)

include moved

theorem reordered_is_null : b.isNull = a.isNull := by cases moved <;> rfl

theorem reordered_symm : b.Reordered a := by
  refine reordered_by_parts ?same ?arr ?obj a b moved
  case same => exact .same
  case arr => exact fun items others each => .arr others items each.flip
  case obj =>
    intro fields others order
    exact (reordered_obj others _).mpr ⟨fields, rfl, Table.moved_symm fields others order fun _ _ _ back => back⟩

theorem reordered_regular (numbers : Binary64 → Prop) (regular : a.Regular numbers) : b.Regular numbers := by
  revert regular
  refine reordered_by_parts ?same ?arr ?obj a b moved
  case same => exact fun _ regular => regular
  case arr =>
    intro items others each regular
    refine (regular_items_iff numbers others).mpr fun other member => ?_
    obtain ⟨item, inside, own⟩ := exists_matching _ items others each other member
    exact own ((regular_items_iff numbers items).mp regular item inside)
  case obj =>
    intro fields others order regular
    refine ⟨Table.moved_nodup fields others order regular.1, (regular_fields_iff numbers others).mpr fun entry member => ?_⟩
    obtain ⟨given, held, _, own⟩ := Table.moved_given fields others order entry member
    exact own ((regular_fields_iff numbers fields).mp regular.2 given held)

theorem reordered_orderly (orderly : a.Orderly) : b.Orderly := by
  revert orderly
  refine reordered_by_parts ?same ?arr ?obj a b moved
  case same => exact fun _ orderly => orderly
  case arr =>
    intro items others each orderly
    refine (orderly_arr others).mpr fun other member => ?_
    obtain ⟨item, inside, own⟩ := exists_matching _ items others each other member
    exact own ((orderly_arr items).mp orderly item inside)
  case obj =>
    intro fields others order orderly
    refine (orderly_obj others).mpr fun entry member => ?_
    obtain ⟨given, held, key, own⟩ := Table.moved_given fields others order entry member
    obtain ⟨clean, value⟩ := (orderly_obj fields).mp orderly given held
    exact ⟨key ▸ clean, own value⟩

theorem reordered_depth_le : b.depth ≤ a.depth := by
  refine reordered_by_parts ?same ?arr ?obj a b moved
  case same => exact fun _ => Nat.le_refl _
  case arr =>
    intro items others each
    exact arr_depth_le others items fun other member => exists_matching _ items others each other member
  case obj =>
    intro fields others order
    refine obj_depth_le others fields fun entry member => ?_
    obtain ⟨given, held, _, own⟩ := Table.moved_given fields others order entry member
    exact ⟨given, held, own⟩

theorem write_reordered (numbers : Binary64 → Prop) (regular : a.Regular numbers) (orderly : a.Orderly) :
    Canonical.write b = Canonical.write a := by
  revert regular orderly
  refine reordered_by_parts ?same ?arr ?obj a b moved
  case same => exact fun _ _ _ => rfl
  case arr =>
    intro items others each regular orderly
    refine (Canonical.write_arr_congr items others ?_).symm
    have inside := (List.forall₂_and_left _ _).mpr ⟨fun item member => member, each⟩
    exact inside.imp fun item other ⟨member, text⟩ =>
      (text ((regular_items_iff numbers items).mp regular item member) ((orderly_arr items).mp orderly item member)).symm
  case obj =>
    intro fields others order regular orderly
    have values := (regular_fields_iff numbers fields).mp regular.2
    have clean := (orderly_obj fields).mp orderly
    refine write_obj_moved fields others ?_ regular.1 fun key member => ?_
    · refine Table.moved_imp fields others order fun value member other text => ?_
      obtain ⟨entry, inside, rfl⟩ := List.mem_map.mp member
      exact text (values entry inside) (clean entry inside).2
    · obtain ⟨value, inside⟩ := (Table.mem_keys key fields).mp member
      exact (clean _ inside).1

end

end Json

def Table.Apart {α : Type} (table : Table α) : Prop := ((keys table).map Text.replaceSurrogates).Nodup

instance {α : Type} (table : Table α) : Decidable table.Apart :=
  inferInstanceAs (Decidable ((Table.keys table).map Text.replaceSurrogates).Nodup)

namespace Table

variable {α : Type}

theorem apart_moved {β : Type} {related : α → β → Prop} (table : Table α) (other : Table β)
    (moved : Moved related table other)
    (apart : Apart table) : Apart other :=
  ((moved_keys table other moved).map _).nodup_iff.mp apart

theorem encodable_apart (table : Table α) (apart : Apart table) :
    encodable table = table.map fun entry => (Text.replaceSurrogates entry.1, entry.2) := by
  refine of_pairs_distinct _ ?_
  have named := keys_renamed Text.replaceSurrogates id table
  exact named ▸ apart

end Table

namespace Freeform

section

variable (a b : Json) (moved : a.Reordered b)

include moved

theorem finite_reordered : (finite a).Reordered (finite b) := by
  refine Json.reordered_by_parts ?same ?arr ?obj a b moved
  case same => exact fun value => .same _
  case arr =>
    intro items others each
    rw [finite, finite, finite_items_map, finite_items_map]
    refine .arr _ _ ?_
    rwa [List.forall₂_map_left_iff, List.forall₂_map_right_iff]
  case obj =>
    intro fields others order
    rw [finite, finite, finite_fields_map, finite_fields_map]
    exact (Json.reordered_obj _ _).mpr
      ⟨_, rfl, Table.moved_map finite finite id fields others order fun _ _ _ own => own⟩

end

theorem regular_finite (numbers : Binary64 → Prop) (value : Json) (regular : value.Regular numbers) :
    (finite value).Regular numbers := by
  induction value using Json.by_parts with
  | float x =>
      rw [finite]
      split
      · exact regular
      · trivial
  | arr items ih =>
      rw [finite, finite_items_map]
      refine (Json.regular_items_iff numbers _).mpr (List.forall_mem_map.mpr fun item member => ?_)
      exact ih item member ((Json.regular_items_iff numbers items).mp regular item member)
  | obj fields ih =>
      rw [finite, finite_fields_map]
      refine ⟨?_, (Json.regular_fields_iff numbers _).mpr (List.forall_mem_map.mpr fun entry member => ?_)⟩
      · rw [Table.keys_map]
        exact regular.1
      · exact ih entry member ((Json.regular_fields_iff numbers fields).mp regular.2 entry member)
  | _ => exact regular

theorem regular_field (numbers : Binary64 → Prop) (value : Json) (regular : value.Regular numbers) :
    (field value).toJson.Regular numbers := by
  have whole := regular_finite numbers value regular
  cases value with
  | arr items => exact whole
  | obj fields =>
      refine ⟨Table.encodable_nodup _, (Json.regular_fields_iff numbers _).mpr fun entry member => ?_⟩
      obtain ⟨_, key, inside⟩ := Table.mem_encodable _ entry member
      exact (Json.regular_fields_iff numbers _).mp whole.2 (key, entry.2) inside
  | _ => exact regular

end Freeform

def Json.Apart : Json → Prop
  | .obj fields => Table.Apart fields
  | _ => True

theorem Json.apart_reordered (a b : Json) (moved : a.Reordered b) (apart : a.Apart) : b.Apart := by
  cases a with
  | obj fields =>
      obtain ⟨others, rfl, order⟩ := (reordered_obj fields b).mp moved
      exact Table.apart_moved fields others order apart
  | arr items =>
      obtain ⟨others, rfl, _⟩ := (reordered_arr items b).mp moved
      trivial
  | _ =>
      cases moved
      trivial

structure Json.Twin (a b : Json) : Prop where
  text : Canonical.write b = Canonical.write a
  null : b.isNull = a.isNull

namespace Freeform

inductive Reordered : Freeform → Freeform → Prop where
  | field (a b : Json) (moved : a.Reordered b) : Reordered (.field a) (.field b)
  | extra (a b : Json) (moved : a.Reordered b) : Reordered (.extra a) (.extra b)

theorem reordered_clear (f g : Freeform) (moved : f.Reordered g) (clear : f.obstacle? = none) : g.obstacle? = none := by
  cases moved with
  | field a b moved =>
      obtain ⟨orderly, shallow⟩ := (obstacle_field_eq_none a).mp clear
      have depth := (Json.reordered_depth_le a b moved).trans shallow
      refine (obstacle_field_eq_none b).mpr ⟨fun part member => ?_, depth⟩
      cases a with
      | arr items =>
          obtain ⟨others, rfl, each⟩ := (Json.reordered_arr items b).mp moved
          obtain ⟨item, inside, own⟩ := exists_matching _ items others each part member
          exact Json.reordered_orderly item part own (orderly item inside)
      | obj fields =>
          obtain ⟨others, rfl, order⟩ := (Json.reordered_obj fields b).mp moved
          obtain ⟨entry, inside, rfl⟩ := List.mem_map.mp member
          obtain ⟨given, held, _, own⟩ := Table.moved_given fields others order entry inside
          exact Json.reordered_orderly given.2 entry.2 own (orderly given.2 (List.mem_map_of_mem held))
      | _ =>
          cases moved
          exact absurd member List.not_mem_nil
  | extra a b moved =>
      obtain ⟨orderly, shallow⟩ := (obstacle_in_eq_none depthLimit a).mp clear
      exact (obstacle_in_eq_none depthLimit b).mpr
        ⟨Json.reordered_orderly a b moved orderly, (Json.reordered_depth_le a b moved).trans shallow⟩

section

variable (a b : Json) (moved : a.Reordered b)

include moved

theorem field_reordered (apart : a.Apart) : (field a).toJson.Reordered (field b).toJson := by
  have whole := finite_reordered a b moved
  cases a with
  | arr items =>
      obtain ⟨others, rfl, _⟩ := (Json.reordered_arr items b).mp moved
      exact whole
  | obj fields =>
      obtain ⟨others, rfl, order⟩ := (Json.reordered_obj fields b).mp moved
      obtain ⟨_, same, finite_order⟩ := (Json.reordered_obj _ _).mp whole
      obtain rfl := Json.obj.inj same
      have first : Table.Apart (finiteFields fields) := by rwa [finite_fields_map, Table.Apart, Table.keys_map]
      have second := Table.apart_moved _ _ finite_order first
      rw [toJson, toJson, Table.encodable_apart _ first, Table.encodable_apart _ second]
      refine (Json.reordered_obj _ _).mpr ⟨_, rfl, ?_⟩
      exact Table.moved_map id id Text.replaceSurrogates _ _ finite_order fun _ _ _ own => own
  | _ =>
      cases moved
      exact .same _

variable (numbers : Binary64 → Prop) (regular : a.Regular numbers)

include regular

theorem field_twin (apart : a.Apart) (clear : (field a).obstacle? = none) : (field a).toJson.Twin (field b).toJson := by
  have order := field_reordered a b moved apart
  exact ⟨Json.write_reordered _ _ order numbers (regular_field numbers a regular) (field_orderly a clear),
    Json.reordered_is_null _ _ order⟩

theorem extra_twin (clear : (extra a).obstacle? = none) : (extra a).toJson.Twin (extra b).toJson := by
  have order := finite_reordered a b moved
  exact ⟨Json.write_reordered _ _ order numbers (regular_finite numbers a regular) (extra_orderly a clear),
    Json.reordered_is_null _ _ order⟩

end

end Freeform

end PlanFlow
