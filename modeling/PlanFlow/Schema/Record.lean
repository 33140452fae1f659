import PlanFlow.Schema.Scalar

/-!
Checks of lists, tables and records. A record has fields of its own; each is looked up by its label, and
what no label has claimed is an extra field.
-/

set_option autoImplicit false

namespace PlanFlow

namespace Schema

open Checked (fail)

variable {α : Type}

def listFrom (check : Json → Checked α) : Nat → List Json → Checked (List α)
  | _, [] => .valid []
  | i, item :: rest => List.cons <$> (check item).under (.index i) <*> listFrom check (i + 1) rest

def listOf (check : Json → Checked α) : Json → Checked (List α)
  | .arr items => listFrom check 0 items
  | other => fail .listType other

/-- Issues are placed under keys in their UTF-8 form; the table has the keys as given. -/
def tableFrom (check : Json → Checked α) : List (Text × Json) → Checked (Table α)
  | [] => .valid []
  | (key, value) :: rest =>
      List.cons <$> ((check value).under (.key (Text.replaceSurrogates key))).map (Prod.mk key)
        <*> tableFrom check rest

def tableOf (check : Json → Checked α) : Json → Checked (Table α)
  | .obj fields => tableFrom check fields
  | other => fail .tableType other

structure Label where
  name : Text
  alternative : Option Text

instance : Coe String Label := ⟨fun name => ⟨name, none⟩⟩

namespace Label

def source : Label := ⟨"from", some ("from_" : Text)⟩

def find? (label : Label) (fields : Table Json) : Option (Text × Json) :=
  match Table.get? label.name fields with
  | some value => some (label.name, value)
  | none =>
      match label.alternative with
      | none => none
      | some name => (Table.get? name fields).map fun value => (name, value)

end Label

/-- The keys of a record need a UTF-8 form. Where one has none, nothing else of the record is checked. -/
def keyed (fields : Table Json) : Checked (Table Json) :=
  match (Table.keys fields).find? Text.hasSurrogate with
  | some key => fail .textNotUnicode (.str key)
  | none => .valid fields

def record (name : Text) : Json → Checked (Table Json)
  | .obj fields => keyed fields
  | other => fail (.recordType name) other

def required (label : Label) (check : Json → Checked α) (fields : Table Json) : Checked α :=
  match label.find? fields with
  | some (name, value) => (check value).under (.key name)
  | none => (fail .missing (.obj fields)).under (.key label.name)

def defaulted (label : Label) (check : Json → Checked α) (fallback : α) (fields : Table Json) :
    Checked α :=
  match label.find? fields with
  | some (name, value) => (check value).under (.key name)
  | none => .valid fallback

def absentable (label : Label) (check : Json → Checked α) (fields : Table Json) : Checked (Option α) :=
  defaulted label (optional check) none fields

def extras (labels : List Label) (fields : Table Json) : Table Json :=
  let claimed := labels.filterMap fun label => (label.find? fields).map Prod.fst
  fields.filter fun entry => !claimed.contains entry.1

def noExtras (labels : List Label) (fields : Table Json) : Checked Unit :=
  match extras labels fields with
  | [] => .valid ()
  | first :: more =>
      .invalid ((first :: more).map fun entry => ⟨.extraForbidden, [.key entry.1], entry.2⟩)

def closed (labels : List Label) (fields : Table Json) (value : Checked α) : Checked α :=
  Function.const Unit <$> value <*> noExtras labels fields

end Schema

end PlanFlow
