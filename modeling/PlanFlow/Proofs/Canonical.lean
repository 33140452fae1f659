import PlanFlow.Json.Canonical
import PlanFlow.Json.Literal
import PlanFlow.Proofs.Outcome
import PlanFlow.Proofs.Sorted
import PlanFlow.Proofs.Text

/-!
The values that have a canonical text: those whose whole numbers are safe, whose floats are finite and whose
texts and keys have no lone surrogates.
-/

set_option autoImplicit false

namespace PlanFlow

namespace Json

@[elab_as_elim]
theorem by_parts {motive : Json → Prop} (null : motive .null) (bool : ∀ value, motive (.bool value))
    (int : ∀ value, motive (.int value)) (float : ∀ value, motive (.float value)) (str : ∀ value, motive (.str value))
    (arr : ∀ items, (∀ item ∈ items, motive item) → motive (.arr items))
    (obj : ∀ fields, (∀ entry ∈ fields, motive entry.2) → motive (.obj fields)) (value : Json) : motive value :=
  @Json.rec motive (fun items => ∀ item ∈ items, motive item) (fun fields => ∀ entry ∈ fields, motive entry.2)
    (fun entry => motive entry.2) null bool int float str arr obj nofun
    (fun _ _ first rest => List.forall_mem_cons.mpr ⟨first, rest⟩) nofun
    (fun _ _ first rest => List.forall_mem_cons.mpr ⟨first, rest⟩) (fun _ _ value => value) value

theorem wholes_items_eq (items : List Json) : wholesOfItems items = items.flatMap wholes := by
  induction items with
  | nil => rfl
  | cons head tail ih => rw [wholesOfItems, ih, List.flatMap_cons]

theorem wholes_fields_eq (fields : List (Text × Json)) : wholesOfFields fields = fields.flatMap fun entry => entry.2.wholes := by
  induction fields with
  | nil => rfl
  | cons head tail ih => rw [wholesOfFields, ih, List.flatMap_cons]

@[simp] theorem mem_wholes_arr (n : Int) (items : List Json) : n ∈ (arr items).wholes ↔ ∃ item ∈ items, n ∈ item.wholes := by
  rw [wholes, wholes_items_eq, List.mem_flatMap]

@[simp] theorem mem_wholes_obj (n : Int) (fields : List (Text × Json)) :
    n ∈ (obj fields).wholes ↔ ∃ entry ∈ fields, n ∈ entry.2.wholes := by
  rw [wholes, wholes_fields_eq, List.mem_flatMap]

theorem printable_iff (value : Json) : value.printable = true ↔ ∀ n ∈ value.wholes, Decimal.printable n = true :=
  List.all_eq_true

theorem write_fields_map (fields : List (Text × Json)) :
    Canonical.writeFields fields = fields.map fun entry => (entry.1, Canonical.write entry.2) :=
  map_of_cons Canonical.writeFields _ rfl (fun _ _ => rfl) fields

namespace Canonical

mutual

def Writable : Json → Prop
  | .null => True
  | .bool _ => True
  | .int value => -safeLimit ≤ value ∧ value ≤ safeLimit
  | .float value => value.isFinite = true
  | .str value => value.hasSurrogate = false
  | .arr items => WritableItems items
  | .obj fields => WritableFields fields

def WritableItems : List Json → Prop
  | [] => True
  | item :: rest => Writable item ∧ WritableItems rest

def WritableFields : List (Text × Json) → Prop
  | [] => True
  | (key, value) :: rest => (key.hasSurrogate = false ∧ Writable value) ∧ WritableFields rest

end

theorem writable_items_iff (items : List Json) : WritableItems items ↔ ∀ item ∈ items, Writable item :=
  forall_of_cons WritableItems Writable trivial (fun _ _ => .rfl) items

theorem writable_fields_iff (fields : List (Text × Json)) :
    WritableFields fields ↔ ∀ entry ∈ fields, entry.1.hasSurrogate = false ∧ Writable entry.2 :=
  forall_of_cons WritableFields _ trivial (fun _ _ => .rfl) fields

theorem enclose_ok (opening closing : Text) (parts : Except Fault (List Text)) :
    (∃ t, enclose opening closing parts = .ok t) ↔ ∃ texts, parts = .ok texts := by
  cases parts <;> simp [enclose]

theorem write_items_eq (items : List Json) : writeItems items = items.mapM write := by
  induction items with
  | nil => rfl
  | cons head tail ih =>
      rw [writeItems, List.mapM_cons, ← ih]
      cases write head with
      | error fault => rfl
      | ok text => cases writeItems tail <;> rfl

theorem join_members_eq (members : List (Text × Except Fault Text)) :
    joinMembers members = members.mapM fun member => member.2.map fun text => escape member.1 ++ (":" : Text) ++ text := by
  induction members with
  | nil => rfl
  | cons head tail ih =>
      obtain ⟨key, value⟩ := head
      rw [List.mapM_cons, ← ih]
      cases value with
      | error fault => rfl
      | ok text => cases rest : joinMembers tail <;> simp [joinMembers, rest, Except.map, bind, Except.bind, pure, Except.pure]

theorem join_members_ok (members : List (Text × Except Fault Text)) :
    (∃ texts, joinMembers members = .ok texts) ↔ ∀ member ∈ members, ∃ t, member.2 = .ok t := by
  rw [join_members_eq, map_m_passes]
  exact forall₂_congr fun member _ => map_passes _ member.2

theorem sorted_members_ok (members : List (Text × Except Fault Text)) :
    (∃ texts, joinMembers (sortOn memberKey members) = .ok texts) ↔ ∀ member ∈ members, ∃ t, member.2 = .ok t := by
  rw [join_members_ok]
  simp only [mem_sort_on]

theorem write_arr_congr (items others : List Json) (same : List.Forall₂ (fun a b => write a = write b) items others) :
    write (.arr items) = write (.arr others) := by
  have inside : writeItems items = writeItems others := by
    induction same with
    | nil => rfl
    | cons first _ ih => rw [writeItems, writeItems, first, ih]
  rw [write, write, inside]

theorem write_obj_congr (fields others : List (Text × Json))
    (same : List.Forall₂ (fun a b => a.1 = b.1 ∧ write a.2 = write b.2) fields others) :
    write (.obj fields) = write (.obj others) := by
  have inside : Table.keys fields = Table.keys others ∧ writeFields fields = writeFields others := by
    induction same with
    | nil => exact ⟨rfl, rfl⟩
    | @cons a b _ _ first _ ih =>
        obtain ⟨keys, members⟩ := ih
        exact ⟨congrArg₂ List.cons first.1 keys, by rw [writeFields, writeFields, first.1, first.2, members]⟩
  rw [write, write, inside.1, inside.2]

-- The induction is on the parts; of an object the keys are looked at before the values.
theorem write_ok (value : Json) : (∃ t, write value = .ok t) ↔ Writable value := by
  induction value using by_parts with
  | null => simp [write, Writable]
  | bool flag => cases flag <;> simp [write, Writable]
  | int number =>
      by_cases safe : -safeLimit ≤ number ∧ number ≤ safeLimit
      · simp [write, ofInt, Writable, safe]
      · simp only [write, ofInt, Writable, safe, iff_false, not_exists]
        intro t
        rw [if_neg (by simpa using safe)]
        exact nofun
  | float number => by_cases finite : number.isFinite = true <;> simp [write, ofFloat, Writable, finite]
  | str text => by_cases lone : text.hasSurrogate = true <;> simp [write, ofText, Writable, lone]
  | arr items ih =>
      rw [write, enclose_ok, write_items_eq, map_m_passes, Writable, writable_items_iff]
      exact forall₂_congr ih
  | obj fields ih =>
      rw [Writable, writable_fields_iff]
      cases found : (Table.keys fields).find? Text.hasSurrogate with
      | some key =>
          obtain ⟨entry, member, rfl⟩ := List.mem_map.mp (List.mem_of_find?_eq_some found)
          have lone := List.find?_some found
          simp only [write, found]
          refine ⟨nofun, fun writable => ?_⟩
          simp [(writable entry member).1] at lone
      | none =>
          have clean : ∀ entry ∈ fields, entry.1.hasSurrogate = false := fun entry member => by
            simpa using List.find?_eq_none.mp found entry.1 (List.mem_map.mpr ⟨entry, member, rfl⟩)
          simp only [write, found]
          rw [enclose_ok, sorted_members_ok, write_fields_map, List.forall_mem_map]
          exact ⟨fun all entry member => ⟨clean entry member, (ih entry member).mp (all entry member)⟩,
            fun all entry member => (ih entry member).mpr (all entry member).2⟩

end Canonical

end Json

end PlanFlow
