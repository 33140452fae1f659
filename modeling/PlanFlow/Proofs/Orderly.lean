import PlanFlow.Proofs.Canonical
import PlanFlow.Proofs.Table
import PlanFlow.Workflow.Canonical

/-!
Keys that have a place in the order of keys. A value whose keys all have one either has a canonical text or is
refused with a report, and what is written of a specification is such a value once nothing keeps its free-form
values from being written.
-/

set_option autoImplicit false

namespace PlanFlow

namespace Json

mutual

def Orderly : Json → Prop
  | .null => True
  | .bool _ => True
  | .int _ => True
  | .float _ => True
  | .str _ => True
  | .arr items => OrderlyItems items
  | .obj fields => OrderlyFields fields

def OrderlyItems : List Json → Prop
  | [] => True
  | item :: rest => Orderly item ∧ OrderlyItems rest

def OrderlyFields : List (Text × Json) → Prop
  | [] => True
  | (key, value) :: rest => (key.hasSurrogate = false ∧ Orderly value) ∧ OrderlyFields rest

end

mutual

def depth : Json → Nat
  | .null => 0
  | .bool _ => 0
  | .int _ => 0
  | .float _ => 0
  | .str _ => 0
  | .arr items => depthOfItems items + 1
  | .obj fields => depthOfFields fields + 1

def depthOfItems : List Json → Nat
  | [] => 0
  | item :: rest => max (depth item) (depthOfItems rest)

def depthOfFields : List (Text × Json) → Nat
  | [] => 0
  | (_, value) :: rest => max (depth value) (depthOfFields rest)

end

theorem orderly_items_iff (items : List Json) : OrderlyItems items ↔ ∀ item ∈ items, Orderly item :=
  forall_of_cons OrderlyItems Orderly trivial (fun _ _ => .rfl) items

theorem orderly_fields_iff (fields : List (Text × Json)) :
    OrderlyFields fields ↔ ∀ entry ∈ fields, entry.1.hasSurrogate = false ∧ Orderly entry.2 :=
  forall_of_cons OrderlyFields _ trivial (fun _ _ => .rfl) fields

@[simp] theorem orderly_null : Orderly .null := trivial

@[simp] theorem orderly_bool (value : Bool) : Orderly (.bool value) := trivial

@[simp] theorem orderly_int (value : Int) : Orderly (.int value) := trivial

@[simp] theorem orderly_str (value : Text) : Orderly (.str value) := trivial

@[simp] theorem orderly_arr (items : List Json) : Orderly (.arr items) ↔ ∀ item ∈ items, Orderly item :=
  orderly_items_iff items

@[simp] theorem orderly_obj (fields : List (Text × Json)) :
    Orderly (.obj fields) ↔ ∀ entry ∈ fields, entry.1.hasSurrogate = false ∧ Orderly entry.2 :=
  orderly_fields_iff fields

theorem depth_items_iff (items : List Json) (room : Nat) : depthOfItems items ≤ room ↔ ∀ item ∈ items, item.depth ≤ room :=
  forall_of_cons (fun items => depthOfItems items ≤ room) _ (Nat.zero_le room) (fun _ _ => Nat.max_le) items

theorem depth_fields_iff (fields : List (Text × Json)) (room : Nat) :
    depthOfFields fields ≤ room ↔ ∀ entry ∈ fields, entry.2.depth ≤ room :=
  forall_of_cons (fun fields => depthOfFields fields ≤ room) _ (Nat.zero_le room) (fun _ _ => Nat.max_le) fields

namespace Canonical

theorem join_members_error (members : List (Text × Except Fault Text)) (fault : Fault)
    (failed : joinMembers members = .error fault) : ∃ member ∈ members, member.2 = .error fault := by
  rw [join_members_eq] at failed
  obtain ⟨member, inside, at_fault⟩ := map_m_error _ members fault failed
  exact ⟨member, inside, (map_eq_error _ _ _).mp at_fault⟩

theorem enclose_error (opening closing : Text) (parts : Except Fault (List Text)) (fault : Fault) :
    enclose opening closing parts = .error fault ↔ parts = .error fault := by
  cases parts <;> simp [enclose]

def Blames : Fault → Json → Prop
  | .unsafeInteger number, value => number ∈ value.wholes
  | .unorderedKey _, value => ¬ Orderly value
  | .notFinite _, _ | .notUtf8, _ => True

theorem blames_item (fault : Fault) (items : List Json) (item : Json) (inside : item ∈ items) (blamed : Blames fault item) :
    Blames fault (.arr items) := by
  cases fault with
  | unsafeInteger number => exact (mem_wholes_arr number items).mpr ⟨item, inside, blamed⟩
  | unorderedKey key => exact fun orderly => blamed ((orderly_arr items).mp orderly item inside)
  | _ => trivial

theorem blames_entry (fault : Fault) (fields : List (Text × Json)) (entry : Text × Json) (inside : entry ∈ fields)
    (blamed : Blames fault entry.2) : Blames fault (.obj fields) := by
  cases fault with
  | unsafeInteger number => exact (mem_wholes_obj number fields).mpr ⟨entry, inside, blamed⟩
  | unorderedKey key => exact fun orderly => blamed ((orderly_obj fields).mp orderly entry inside).2
  | _ => trivial

theorem write_error (value : Json) (fault : Fault) (failed : write value = .error fault) : Blames fault value := by
  induction value using by_parts with
  | null => cases failed
  | bool flag => cases flag <;> cases failed
  | int number =>
      by_cases safe : (-safeLimit ≤ number && number ≤ safeLimit) = true
      · simp [write, ofInt, safe] at failed
      · obtain rfl : Fault.unsafeInteger number = fault := by simpa [write, ofInt, safe] using failed
        exact List.mem_singleton_self number
  | float number =>
      by_cases finite : number.isFinite = true
      · simp [write, ofFloat, finite] at failed
      · obtain rfl : Fault.notFinite number = fault := by simpa [write, ofFloat, finite] using failed
        trivial
  | str text =>
      by_cases lone : text.hasSurrogate = true
      · obtain rfl : Fault.notUtf8 = fault := by simpa [write, ofText, lone] using failed
        trivial
      · simp [write, ofText, lone] at failed
  | arr items ih =>
      rw [write, enclose_error, write_items_eq] at failed
      obtain ⟨item, inside, at_fault⟩ := map_m_error write items _ failed
      exact blames_item fault items item inside (ih item inside at_fault)
  | obj fields ih =>
      cases placed : (Table.keys fields).find? Text.hasSurrogate with
      | some key =>
          obtain rfl : Fault.unorderedKey key = fault := by simpa [write, placed] using failed
          obtain ⟨entry, inside, rfl⟩ := List.mem_map.mp (List.mem_of_find?_eq_some placed)
          intro orderly
          have plain := ((orderly_obj fields).mp orderly entry inside).1
          simp [List.find?_some placed] at plain
      | none =>
          simp only [write, placed, enclose_error] at failed
          obtain ⟨member, inside, at_fault⟩ := join_members_error _ _ failed
          rw [mem_sort_on, write_fields_map] at inside
          obtain ⟨entry, given, rfl⟩ := List.mem_map.mp inside
          exact blames_entry fault fields entry given (ih entry given at_fault)

theorem of_canonical_ordered (value : Json) (orderly : Orderly value) (failure : Failure)
    (failed : Outcome.ofCanonical (write value) = .error failure) :
    (∃ report, failure = .rejected (.notCanonical report)) ∨
      failure = .tooManyDigits none ∧ ∃ n ∈ value.wholes, Decimal.printable n = false := by
  obtain ⟨fault, stopped, rfl⟩ := (map_error_eq_error _ _ _).mp failed
  cases fault with
  | unsafeInteger number =>
      by_cases short : Decimal.printable number = true
      · exact Or.inl ⟨_, if_pos short⟩
      · exact Or.inr ⟨if_neg short, number, write_error value _ stopped, by simpa using short⟩
  | notFinite number => exact Or.inl ⟨_, rfl⟩
  | notUtf8 => exact Or.inl ⟨_, rfl⟩
  | unorderedKey key => exact absurd orderly (write_error value _ stopped)

end Canonical

end Json

namespace Table

variable {α : Type}

theorem mem_put (key : Text) (value : α) (table : Table α) (entry : Text × α) (member : entry ∈ put key value table) :
    entry ∈ table ∨ entry = (key, value) := by
  induction table with
  | nil => exact Or.inr (List.mem_singleton.mp member)
  | cons head tail ih =>
      by_cases same : head.1 = key
      · rw [put, if_pos same] at member
        rcases List.mem_cons.mp member with first | rest
        · exact Or.inr (by rw [first, same])
        · exact Or.inl (List.mem_cons_of_mem _ rest)
      · rw [put, if_neg same] at member
        rcases List.mem_cons.mp member with first | rest
        · exact Or.inl (first ▸ List.mem_cons_self)
        · exact (ih rest).imp (List.mem_cons_of_mem head) id

theorem mem_put_all (pairs : List (Text × α)) (table : Table α) (entry : Text × α)
    (member : entry ∈ pairs.foldl (fun table pair => put pair.1 pair.2 table) table) : entry ∈ table ∨ entry ∈ pairs := by
  induction pairs generalizing table with
  | nil => exact Or.inl member
  | cons head tail ih =>
      rcases ih (put head.1 head.2 table) member with before | later
      · rcases mem_put head.1 head.2 table entry before with kept | added
        · exact Or.inl kept
        · exact Or.inr (added ▸ List.mem_cons_self)
      · exact Or.inr (List.mem_cons_of_mem head later)

theorem mem_of_pairs (pairs : List (Text × α)) (entry : Text × α) (member : entry ∈ ofPairs pairs) : entry ∈ pairs :=
  (mem_put_all pairs [] entry member).resolve_left List.not_mem_nil

theorem given_of_encodable (table : Table α) (entry : Text × α) (member : entry ∈ encodable table) :
    ∃ given ∈ table, (given.1.replaceSurrogates, given.2) = entry :=
  List.mem_map.mp (mem_of_pairs _ entry member)

theorem mem_encodable (table : Table α) (entry : Text × α) (member : entry ∈ encodable table) :
    entry.1.hasSurrogate = false ∧ ∃ key, (key, entry.2) ∈ table := by
  obtain ⟨given, inside, rfl⟩ := given_of_encodable table entry member
  exact ⟨Text.replace_surrogates_clean given.1, given.1, inside⟩

end Table

namespace Freeform

open Json (Orderly OrderlyItems OrderlyFields depth depthOfItems depthOfFields)

theorem obstacle_in_items_eq_none (room : Nat) (items : List Json) :
    obstacleInItems? room items = none ↔ ∀ item ∈ items, obstacleIn? room item = none := by
  refine forall_of_cons (fun items => obstacleInItems? room items = none) _ rfl (fun item rest => ?_) items
  cases one : obstacleIn? room item <;> simp [obstacleInItems?, one]

theorem obstacle_in_fields_eq_none (room : Nat) (fields : List (Text × Json)) : obstacleInFields? room fields = none ↔
    ∀ entry ∈ fields, entry.1.hasSurrogate = false ∧ obstacleIn? room entry.2 = none := by
  refine forall_of_cons (fun fields => obstacleInFields? room fields = none) _ rfl (fun entry rest => ?_) fields
  by_cases lone : entry.1.hasSurrogate = true
  · simp [obstacleInFields?, lone]
  · cases one : obstacleIn? room entry.2 <;> simp [obstacleInFields?, lone, one]

theorem obstacle_in_eq_none (room : Nat) (value : Json) :
    obstacleIn? room value = none ↔ Orderly value ∧ depth value ≤ room := by
  induction value using Json.by_parts generalizing room with
  | arr items ih =>
      cases room with
      | zero => simp [obstacleIn?, depth]
      | succ room =>
          rw [obstacleIn?, if_neg (Nat.succ_ne_zero room), Nat.add_sub_cancel, obstacle_in_items_eq_none, Json.orderly_arr,
            depth, Nat.add_le_add_iff_right, Json.depth_items_iff, ← forall₂_and]
          exact forall₂_congr fun item member => ih item member room
  | obj fields ih =>
      cases room with
      | zero => simp [obstacleIn?, depth]
      | succ room =>
          rw [obstacleIn?, if_neg (Nat.succ_ne_zero room), Nat.add_sub_cancel, obstacle_in_fields_eq_none, Json.orderly_obj,
            depth, Nat.add_le_add_iff_right, Json.depth_fields_iff, ← forall₂_and]
          exact forall₂_congr fun entry member => by rw [ih entry member room, and_assoc]
  | _ => simp [obstacleIn?, depth, Orderly]

theorem parts_shallow_iff (value : Json) (room : Nat) : (∀ part ∈ parts value, depth part ≤ room) ↔ depth value ≤ room + 1 := by
  cases value with
  | arr items => rw [parts, depth, Nat.add_le_add_iff_right, Json.depth_items_iff]
  | obj fields => rw [parts, depth, Nat.add_le_add_iff_right, Json.depth_fields_iff, Table.values, List.forall_mem_map]
  | _ => simp [parts, depth]

theorem parts_orderly (value : Json) (orderly : Orderly value) : ∀ part ∈ parts value, Orderly part := by
  cases value with
  | arr items => exact (Json.orderly_items_iff items).mp orderly
  | obj fields =>
      intro part member
      obtain ⟨entry, inside, rfl⟩ := List.mem_map.mp member
      exact ((Json.orderly_fields_iff fields).mp orderly entry inside).2
  | _ => exact nofun

theorem obstacle_field_eq_none (value : Json) : obstacle? (.field value) = none ↔
    (∀ part ∈ parts value, Orderly part) ∧ depth value ≤ depthLimit + 1 := by
  have inner := obstacle_in_items_eq_none depthLimit (parts value)
  simp only [obstacle_in_eq_none, forall₂_and, parts_shallow_iff] at inner
  rw [← inner]
  cases found : obstacleInItems? depthLimit (parts value) with
  | none => simp [obstacle?, found]
  | some obstacle =>
      simp only [obstacle?, found, reduceCtorEq, iff_false]
      intro whole
      obtain ⟨orderly, shallow⟩ := (obstacle_in_eq_none depthLimit value).mp whole
      have clear := inner.mpr ⟨parts_orderly value orderly, shallow.trans (Nat.le_succ _)⟩
      rw [found] at clear
      cases clear

theorem finite_items_map (items : List Json) : finiteItems items = items.map finite :=
  map_of_cons finiteItems finite rfl (fun _ _ => rfl) items

theorem finite_fields_map (fields : List (Text × Json)) :
    finiteFields fields = fields.map fun entry => (entry.1, finite entry.2) :=
  map_of_cons finiteFields _ rfl (fun _ _ => rfl) fields

theorem finite_orderly (value : Json) (orderly : Orderly value) : Orderly (finite value) := by
  induction value using Json.by_parts with
  | float number => by_cases bounded : number.isFinite = true <;> simp [finite, bounded, Orderly]
  | arr items ih =>
      have each := (Json.orderly_arr items).mp orderly
      rw [finite, finite_items_map, Json.orderly_arr, List.forall_mem_map]
      exact fun item member => ih item member (each item member)
  | obj fields ih =>
      have each := (Json.orderly_obj fields).mp orderly
      rw [finite, finite_fields_map, Json.orderly_obj, List.forall_mem_map]
      exact fun entry member => ⟨(each entry member).1, ih entry member (each entry member).2⟩
  | _ => trivial

theorem finite_wholes (value : Json) (n : Int) (held : n ∈ (finite value).wholes) : n ∈ value.wholes := by
  induction value using Json.by_parts with
  | float number => by_cases bounded : number.isFinite = true <;> simp [finite, bounded, Json.wholes] at held
  | arr items ih =>
      rw [finite, finite_items_map, Json.mem_wholes_arr] at held
      obtain ⟨_, member, held⟩ := held
      obtain ⟨item, inside, rfl⟩ := List.mem_map.mp member
      exact (Json.mem_wholes_arr n items).mpr ⟨item, inside, ih item inside held⟩
  | obj fields ih =>
      rw [finite, finite_fields_map, Json.mem_wholes_obj] at held
      obtain ⟨_, member, held⟩ := held
      obtain ⟨entry, inside, rfl⟩ := List.mem_map.mp member
      exact (Json.mem_wholes_obj n fields).mpr ⟨entry, inside, ih entry inside held⟩
  | _ => exact held

theorem field_wholes (value : Json) (n : Int) (held : n ∈ (toJson (.field value)).wholes) : n ∈ value.wholes := by
  cases value with
  | arr items => exact finite_wholes (.arr items) n held
  | obj fields =>
      obtain ⟨entry, member, inner⟩ := (Json.mem_wholes_obj n _).mp held
      obtain ⟨_, key, given⟩ := Table.mem_encodable _ entry member
      exact finite_wholes (.obj fields) n ((Json.mem_wholes_obj n _).mpr ⟨(key, entry.2), given, inner⟩)
  | _ => exact held

-- Keys of the outermost object are brought into UTF-8 form, so nothing is asked of them.
theorem field_orderly (value : Json) (clear : obstacle? (.field value) = none) : Orderly (toJson (.field value)) := by
  have each := ((obstacle_field_eq_none value).mp clear).1
  cases value with
  | arr items => exact finite_orderly (.arr items) ((Json.orderly_arr items).mpr each)
  | obj fields =>
      refine (Json.orderly_fields_iff _).mpr fun entry member => ?_
      obtain ⟨plain, key, given⟩ := Table.mem_encodable _ entry member
      rw [finite_fields_map] at given
      obtain ⟨original, inside, same⟩ := List.mem_map.mp given
      have value : entry.2 = finite original.2 := (congrArg Prod.snd same).symm
      exact ⟨plain, value ▸ finite_orderly original.2 (each original.2 (List.mem_map.mpr ⟨original, inside, rfl⟩))⟩
  | _ => trivial

theorem extra_orderly (value : Json) (clear : obstacle? (.extra value) = none) : Orderly (toJson (.extra value)) :=
  finite_orderly value ((obstacle_in_eq_none depthLimit value).mp clear).1

theorem first_obstacle_eq_none (values : List Freeform) :
    firstObstacle? values = none ↔ ∀ value ∈ values, value.obstacle? = none := by
  rw [firstObstacle?, List.findSome?_eq_none_iff]

end Freeform

theorem Outcome.written_eq_ok (values : List Freeform) (form result : Json) :
    Outcome.written values form = .ok result ↔ Freeform.firstObstacle? values = none ∧ form = result := by
  cases blocked : Freeform.firstObstacle? values <;> simp [Outcome.written, blocked]

theorem Outcome.canonical_eq_ok (values : List Freeform) (form : Json) (t : Text) :
    (Outcome.written values form >>= fun form => Outcome.ofCanonical (Json.Canonical.write form)) = .ok t ↔
      Freeform.firstObstacle? values = none ∧ Json.Canonical.write form = .ok t := by
  constructor
  · intro canonical
    obtain ⟨result, presented, written⟩ := (bind_eq_ok _ _ _).mp canonical
    obtain ⟨clear, rfl⟩ := (Outcome.written_eq_ok values form result).mp presented
    exact ⟨clear, (map_error_eq_ok _ _ _).mp written⟩
  · rintro ⟨clear, written⟩
    exact (bind_eq_ok _ _ _).mpr ⟨form, (Outcome.written_eq_ok _ _ _).mpr ⟨clear, rfl⟩, (map_error_eq_ok _ _ _).mpr written⟩

end PlanFlow
