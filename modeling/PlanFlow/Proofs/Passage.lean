import PlanFlow.Proofs.Orderly

/-!
Ways that JSON takes from a writer to a reader. On the way the members of an object may change their order and a
floating-point number may become a whole one; what has arrived is not changed by taking the same way again.
-/

set_option autoImplicit false

namespace PlanFlow

namespace Json

open Canonical (memberKey)

mutual

def Regular (numbers : Binary64 → Prop) : Json → Prop
  | .null => True
  | .bool _ => True
  | .int _ => True
  | .float value => numbers value
  | .str _ => True
  | .arr items => RegularItems numbers items
  | .obj fields => (Table.keys fields).Nodup ∧ RegularFields numbers fields

def RegularItems (numbers : Binary64 → Prop) : List Json → Prop
  | [] => True
  | item :: rest => Regular numbers item ∧ RegularItems numbers rest

def RegularFields (numbers : Binary64 → Prop) : List (Text × Json) → Prop
  | [] => True
  | (_, value) :: rest => Regular numbers value ∧ RegularFields numbers rest

end

-- A number arrives as it is or as a whole number. Bringing members into their order leaves alone what is kept of them,
-- and does nothing to those that are in order already.
structure Passage where
  arrange : {α : Type} → List (Text × α) → List (Text × α)
  number : Binary64 → Json
  carries : Binary64 → Prop
  perm : ∀ {α : Type} (fields : List (Text × α)), (arrange fields).Perm fields
  map : ∀ {α β : Type} (f : α → β) (fields : List (Text × α)),
    arrange (fields.map fun entry => (entry.1, f entry.2)) = (arrange fields).map fun entry => (entry.1, f entry.2)
  filter : ∀ {α : Type} (keep : Text × α → Bool) (fields : List (Text × α)),
    (arrange fields).filter keep = arrange (fields.filter keep)
  append : ∀ {α : Type} (front back : List (Text × α)), arrange (front ++ arrange back) = arrange (front ++ back)
  simple : ∀ x, number x = .float x ∨ ∃ n, number x = .int n
  finite : ∀ x, carries x → x.isFinite = true

mutual

def recast (w : Passage) : Json → Json
  | .null => .null
  | .bool value => .bool value
  | .int value => .int value
  | .float value => w.number value
  | .str value => .str value
  | .arr items => .arr (recastItems w items)
  | .obj fields => .obj (w.arrange (recastFields w fields))

def recastItems (w : Passage) : List Json → List Json
  | [] => []
  | item :: rest => recast w item :: recastItems w rest

def recastFields (w : Passage) : List (Text × Json) → List (Text × Json)
  | [] => []
  | (key, value) :: rest => (key, recast w value) :: recastFields w rest

end

section

variable (numbers : Binary64 → Prop)

theorem regular_items_iff (items : List Json) : RegularItems numbers items ↔ ∀ item ∈ items, item.Regular numbers :=
  forall_of_cons (RegularItems numbers) (Regular numbers) trivial (fun _ _ => .rfl) items

theorem regular_fields_iff (fields : List (Text × Json)) :
    RegularFields numbers fields ↔ ∀ entry ∈ fields, entry.2.Regular numbers :=
  forall_of_cons (RegularFields numbers) _ trivial (fun _ _ => .rfl) fields

@[simp] theorem regular_null : Regular numbers .null := trivial

@[simp] theorem regular_bool (value : Bool) : Regular numbers (.bool value) := trivial

@[simp] theorem regular_int (value : Int) : Regular numbers (.int value) := trivial

@[simp] theorem regular_str (value : Text) : Regular numbers (.str value) := trivial

@[simp] theorem regular_of_text (value : Option Text) : Regular numbers (ofText? value) := by cases value <;> trivial

@[simp] theorem regular_of_int (value : Option Int) : Regular numbers (ofInt? value) := by cases value <;> trivial

end

namespace Passage

def sorted (number : Binary64 → Json) (carries : Binary64 → Prop) (simple : ∀ x, number x = .float x ∨ ∃ n, number x = .int n)
    (finite : ∀ x, carries x → x.isFinite = true) : Passage where
  arrange := sortOn memberKey
  number := number
  carries := carries
  perm := sort_on_perm memberKey
  map f fields := sort_on_map memberKey memberKey (fun entry => (entry.1, f entry.2)) (fun _ => rfl) fields
  filter := sort_on_filter memberKey
  append front back := sort_on_append memberKey front back _ (sort_on_sort_on memberKey back)
  simple := simple
  finite := finite

theorem float_simple (x : Binary64) : Json.float x = .float x ∨ ∃ n, Json.float x = .int n := .inl rfl

def direct : Passage where
  arrange := id
  number := .float
  carries x := x.isFinite = true
  perm _ := .rfl
  map _ _ := rfl
  filter _ _ := rfl
  append _ _ := rfl
  simple := float_simple
  finite _ := id

variable (w : Passage)

theorem arrange_twice {α : Type} (fields : List (Text × α)) : w.arrange (w.arrange fields) = w.arrange fields :=
  w.append [] fields

theorem mem_arrange {α : Type} (fields : List (Text × α)) (entry : Text × α) : entry ∈ w.arrange fields ↔ entry ∈ fields :=
  (w.perm fields).mem_iff

theorem arrange_keys {α : Type} (fields : List (Text × α)) (key : Text) :
    key ∈ Table.keys (w.arrange fields) ↔ key ∈ Table.keys fields :=
  ((w.perm fields).map Prod.fst).mem_iff

theorem arrange_nodup {α : Type} (fields : List (Text × α)) (distinct : (Table.keys fields).Nodup) :
    (Table.keys (w.arrange fields)).Nodup :=
  ((w.perm fields).map Prod.fst).nodup_iff.mpr distinct

end Passage

section

variable (w : Passage)

theorem recast_items_map (items : List Json) : recastItems w items = items.map (recast w) :=
  map_of_cons (recastItems w) (recast w) rfl (fun _ _ => rfl) items

theorem recast_fields_map (fields : List (Text × Json)) :
    recastFields w fields = fields.map fun entry => (entry.1, recast w entry.2) :=
  map_of_cons (recastFields w) _ rfl (fun _ _ => rfl) fields

theorem recast_arr (items : List Json) : recast w (.arr items) = .arr (items.map (recast w)) := by
  rw [recast, recast_items_map]

theorem recast_obj (fields : List (Text × Json)) :
    recast w (.obj fields) = .obj (w.arrange (fields.map fun entry => (entry.1, recast w entry.2))) := by
  rw [recast, recast_fields_map]

theorem recast_is_null (value : Json) : (value.recast w).isNull = value.isNull := by
  cases value with
  | float x =>
      rw [recast]
      rcases w.simple x with same | ⟨n, whole⟩
      · rw [same]
      · rw [whole]
        rfl
  | _ => rfl

theorem recast_twice (value : Json) : (value.recast w).recast w = value.recast w := by
  induction value using by_parts with
  | float x =>
      rw [recast]
      rcases w.simple x with same | ⟨n, whole⟩
      · rw [same, recast, same]
      · rw [whole, recast]
  | arr items ih =>
      rw [recast_arr, recast_arr, List.map_map]
      exact congrArg Json.arr (List.map_congr_left ih)
  | obj fields ih =>
      have members : (fields.map fun entry => (entry.1, recast w (recast w entry.2))) =
          fields.map fun entry => (entry.1, recast w entry.2) :=
        List.map_congr_left fun entry member => by rw [ih entry member]
      rw [recast_obj, recast_obj, ← w.map, List.map_map]
      exact congrArg Json.obj ((congrArg (fun fields => w.arrange (w.arrange fields)) members).trans (w.arrange_twice _))
  | _ => rfl

theorem regular_moved (numbers others : Binary64 → Prop) (moved : ∀ x, numbers x → (w.number x).Regular others)
    (value : Json) (regular : value.Regular numbers) : (value.recast w).Regular others := by
  induction value using by_parts with
  | float x => exact moved x regular
  | arr items ih =>
      have each := (regular_items_iff _ items).mp regular
      rw [recast_arr]
      refine (regular_items_iff _ _).mpr fun item member => ?_
      obtain ⟨given, inside, rfl⟩ := List.mem_map.mp member
      exact ih given inside (each given inside)
  | obj fields ih =>
      have each := (regular_fields_iff _ fields).mp regular.2
      rw [recast_obj]
      refine ⟨w.arrange_nodup _ (by rw [Table.keys_map]; exact regular.1), (regular_fields_iff _ _).mpr fun entry member => ?_⟩
      obtain ⟨given, inside, rfl⟩ := List.mem_map.mp ((w.mem_arrange _ _).mp member)
      exact ih given inside (each given inside)
  | _ => trivial

theorem regular_recast (numbers : Binary64 → Prop) (value : Json) (regular : value.Regular numbers) :
    (value.recast w).Regular numbers := by
  refine regular_moved w numbers numbers (fun x held => ?_) value regular
  rcases w.simple x with same | ⟨n, whole⟩
  · rwa [same]
  · rw [whole]
    trivial

theorem recast_orderly (value : Json) (orderly : value.Orderly) : (value.recast w).Orderly := by
  induction value using by_parts with
  | float x =>
      rw [recast]
      rcases w.simple x with same | ⟨n, whole⟩
      · rwa [same]
      · rw [whole]
        trivial
  | arr items ih =>
      rw [recast_arr]
      refine (orderly_arr _).mpr fun item member => ?_
      obtain ⟨given, inside, rfl⟩ := List.mem_map.mp member
      exact ih given inside ((orderly_arr items).mp orderly given inside)
  | obj fields ih =>
      rw [recast_obj]
      refine (orderly_obj _).mpr fun entry member => ?_
      obtain ⟨given, inside, rfl⟩ := List.mem_map.mp ((w.mem_arrange _ _).mp member)
      obtain ⟨clean, own⟩ := (orderly_obj fields).mp orderly given inside
      exact ⟨clean, ih given inside own⟩
  | _ => trivial

end

theorem recast_direct (value : Json) : value.recast .direct = value := by
  induction value using by_parts with
  | arr items ih =>
      have same : items.map (recast .direct) = items.map id := List.map_congr_left ih
      rw [recast_arr, same, List.map_id]
  | obj fields ih =>
      have same : (fields.map fun entry => (entry.1, recast .direct entry.2)) = fields.map id :=
        List.map_congr_left fun entry member => by rw [ih entry member, id]
      rw [recast_obj, same, List.map_id]
      rfl
  | _ => rfl

end Json

end PlanFlow
