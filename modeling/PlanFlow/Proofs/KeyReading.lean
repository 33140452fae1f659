import PlanFlow.Proofs.Admission
import PlanFlow.Proofs.Reordering

/-!
What the readers make of the order of keys. A value and the same value with the keys of its objects in another order are
read alike: what is read of the one has the tables of what is read of the other, with their entries in another order.
-/

set_option autoImplicit false

namespace PlanFlow

open Schema
open Checked (map_eq_valid seq_eq_valid and_then_eq_valid under_eq_valid)

namespace Schema

variable {α β γ : Type} {numbers : Binary64 → Prop} {check : Json → Checked α} {related : α → α → Prop}

def Respects (numbers : Binary64 → Prop) (check : Json → Checked α) (related : α → α → Prop) : Prop :=
  ∀ input, input.Regular numbers → ∀ other, input.Reordered other → ∀ value, check input = .valid value →
    ∃ result, check other = .valid result ∧ related value result

def RespectsFields (numbers : Binary64 → Prop) (read again : Table Json → Checked α) (related : α → α → Prop) : Prop :=
  ∀ fields, Proper numbers fields → ∀ others, Table.Moved Json.Reordered fields others →
    ∀ value, read fields = .valid value → ∃ result, again others = .valid result ∧ related value result

structure Flat (check : Json → Checked α) : Prop where
  arr : ∀ items value, check (.arr items) ≠ .valid value
  obj : ∀ fields value, check (.obj fields) ≠ .valid value

theorem flat_respects (flat : Flat check) : Respects numbers check Eq := by
  intro input _ other moved value valid
  cases moved with
  | same => exact ⟨value, valid, rfl⟩
  | arr items => exact absurd valid (flat.arr items value)
  | obj fields => exact absurd valid (flat.obj fields value)

theorem respects_imp {wider : α → α → Prop} (step : ∀ a b, related a b → wider a b)
    (respects : Respects numbers check related) : Respects numbers check wider := by
  intro input regular other moved value valid
  obtain ⟨result, again, own⟩ := respects input regular other moved value valid
  exact ⟨result, again, step _ _ own⟩

theorem optional_respects (respects : Respects numbers check related) :
    Respects numbers (optional check) (Option.Rel related) := by
  intro input regular other moved given valid
  cases null : input.isNull with
  | true =>
      cases input with
      | null =>
          cases moved
          obtain rfl := Checked.valid.inj valid
          exact ⟨none, rfl, .none⟩
      | _ => cases null
  | false =>
      rw [optional_given input null] at valid
      obtain ⟨value, fits, rfl⟩ := (map_eq_valid some _ _).mp valid
      obtain ⟨result, again, own⟩ := respects input regular other moved value fits
      have kept : other.isNull = false := (Json.reordered_is_null input other moved).trans null
      rw [optional_given other kept]
      exact ⟨some result, (map_eq_valid some _ _).mpr ⟨result, again, rfl⟩, .some own⟩

theorem list_respects (respects : Respects numbers check related) :
    Respects numbers (listOf check) (List.Forall₂ related) := by
  intro input regular other moved values valid
  cases input with
  | arr items =>
      obtain ⟨others, rfl, each⟩ := (Json.reordered_arr items other).mp moved
      have given := (Json.regular_items_iff numbers items).mp regular
      have read := (list_from_eq_valid check 0 items values).mp valid
      obtain ⟨results, again, own⟩ :=
        exists_rematching _ _ _ _ items others values each read fun item member other value same fits =>
          respects item (given item member) other same value fits
      exact ⟨results, (list_from_eq_valid check 0 others results).mpr again, own⟩
  | _ => cases valid

theorem table_from_eq_valid (fields : Table Json) (table : Table α) : tableFrom check fields = .valid table ↔
    List.Forall₂ (fun field entry => field.1 = entry.1 ∧ check field.2 = .valid entry.2) fields table := by
  induction fields generalizing table with
  | nil => simp [tableFrom, eq_comm]
  | cons head tail ih =>
      rw [List.forall₂_cons_left_iff]
      simp only [tableFrom, seq_eq_valid, map_eq_valid, ih]
      constructor
      · rintro ⟨_, others, ⟨entry, first, rfl⟩, rest, rfl⟩
        cases fits : check head.2 with
        | invalid issues => simp [fits, Checked.under, Checked.map] at first
        | valid value =>
            obtain rfl : (head.1, value) = entry := by simpa [fits, Checked.under, Checked.map] using first
            exact ⟨_, others, ⟨rfl, rfl⟩, rest, rfl⟩
      · rintro ⟨⟨key, value⟩, others, ⟨rfl, fits⟩, rest, rfl⟩
        exact ⟨_, others, ⟨(head.1, value), by rw [fits]; rfl, rfl⟩, rest, rfl⟩

theorem table_respects (respects : Respects numbers check related) :
    Respects numbers (tableOf check) (Table.Moved related) := by
  intro input regular other moved table valid
  cases input with
  | obj fields =>
      obtain ⟨others, rfl, mid, each, order⟩ := (Json.reordered_obj fields other).mp moved
      have given := (Json.regular_fields_iff numbers fields).mp regular.2
      have read := (table_from_eq_valid fields table).mp valid
      obtain ⟨table_mid, again, own⟩ := exists_rematching _ _
        (fun field (entry : Text × α) => field.1 = entry.1 ∧ check field.2 = .valid entry.2)
        (fun a b => a.1 = b.1 ∧ related a.2 b.2) fields mid table each read
        fun field member other entry ⟨key, same⟩ ⟨name, fits⟩ => by
          obtain ⟨result, reread, own⟩ := respects field.2 (given field member) other.2 same entry.2 fits
          exact ⟨(other.1, result), ⟨rfl, reread⟩, name.symm.trans key, own⟩
      obtain ⟨results, permuted, last⟩ := exists_permuted _ mid others table_mid again order
      exact ⟨results, (table_from_eq_valid others results).mpr last, table_mid, own, permuted⟩
  | _ => cases valid

section

variable (label : Label) (fields others : Table Json) (proper : Proper numbers fields)
  (moved : Table.Moved Json.Reordered fields others)

include proper moved

theorem find_moved : Option.Rel (fun a b => a.1 = b.1 ∧ a.2.Reordered b.2) (label.find? fields) (label.find? others) := by
  have found (key : Text) := Table.moved_get key fields others moved proper.plain.1
  have own := found label.name
  rw [Label.find?, Label.find?]
  generalize Table.get? label.name fields = first, Table.get? label.name others = second at own ⊢
  cases own with
  | some same => exact .some ⟨rfl, same⟩
  | none =>
      cases label.alternative with
      | none => exact .none
      | some spelling =>
          have other := found spelling
          simp only
          generalize Table.get? spelling fields = first, Table.get? spelling others = second at other ⊢
          cases other with
          | some same => exact .some ⟨rfl, same⟩
          | none => exact .none

theorem find_none_moved (found : label.find? fields = none) : label.find? others = none := by
  have both := find_moved label fields others proper moved
  rw [found] at both
  generalize label.find? others = other at both ⊢
  cases both
  rfl

theorem find_some_moved (name : Text) (given : Json) (found : label.find? fields = some (name, given)) :
    ∃ other, label.find? others = some (name, other) ∧ given.Reordered other := by
  have both := find_moved label fields others proper moved
  rw [found] at both
  generalize label.find? others = other at both ⊢
  cases both with
  | @some _ entry same => exact ⟨entry.2, congrArg some (Prod.ext same.1.symm rfl), same.2⟩

end

theorem find_respects (label : Label) (respects : Respects numbers check related) (fields : Table Json)
    (proper : Proper numbers fields) (others : Table Json) (moved : Table.Moved Json.Reordered fields others)
    (entry : Text × Json) (found : label.find? fields = some entry) (value : α) (fits : check entry.2 = .valid value) :
    ∃ result, (∃ other, label.find? others = some other ∧ check other.2 = .valid result) ∧ related value result := by
  obtain ⟨other, there, same⟩ := find_some_moved label fields others proper moved _ _ found
  obtain ⟨result, again, own⟩ := respects entry.2 (find_regular label fields proper _ _ found) other same value fits
  exact ⟨result, ⟨_, there, again⟩, own⟩

theorem required_respects (label : Label) (respects : Respects numbers check related) :
    RespectsFields numbers (required label check) (required label check) related := by
  intro fields proper others moved value valid
  obtain ⟨entry, found, fits⟩ := (required_eq_valid label check fields value).mp valid
  obtain ⟨result, there, own⟩ := find_respects label respects fields proper others moved entry found value fits
  exact ⟨result, (required_eq_valid label check others result).mpr there, own⟩

theorem defaulted_respects (label : Label) (fallback : α) (own : related fallback fallback)
    (respects : Respects numbers check related) :
    RespectsFields numbers (defaulted label check fallback) (defaulted label check fallback) related := by
  intro fields proper others moved value valid
  rcases (defaulted_eq_valid label check fallback fields value).mp valid with ⟨absent, rfl⟩ | ⟨entry, found, fits⟩
  · have gone := find_none_moved label fields others proper moved absent
    exact ⟨fallback, (defaulted_eq_valid label check fallback others _).mpr (.inl ⟨gone, rfl⟩), own⟩
  · obtain ⟨result, there, own⟩ := find_respects label respects fields proper others moved entry found value fits
    exact ⟨result, (defaulted_eq_valid label check fallback others result).mpr (.inr there), own⟩

theorem absentable_respects (label : Label) (respects : Respects numbers check related) :
    RespectsFields numbers (absentable label check) (absentable label check) (Option.Rel related) :=
  defaulted_respects label none .none (optional_respects respects)

theorem absentable_same (label : Label) (respects : Respects numbers check Eq) :
    RespectsFields numbers (absentable label check) (absentable label check) Eq := by
  refine defaulted_respects label none rfl (respects_imp (fun a b own => ?_) (optional_respects respects))
  cases own with
  | some same => rw [same]
  | none => rfl

theorem required_flat (label : Label) (flat : Flat check) :
    RespectsFields numbers (required label check) (required label check) Eq :=
  required_respects label (flat_respects flat)

theorem absentable_flat (label : Label) (flat : Flat check) :
    RespectsFields numbers (absentable label check) (absentable label check) Eq :=
  absentable_same label (flat_respects flat)

theorem list_same (respects : Respects numbers check Eq) : Respects numbers (listOf check) Eq :=
  respects_imp (fun _ _ own => List.forall₂_eq_eq_eq ▸ own) (list_respects respects)

theorem table_same (respects : Respects numbers check Eq) : Respects numbers (tableOf check) List.Perm :=
  respects_imp (fun _ _ own => Table.moved_perm _ _ own) (table_respects respects)

section

variable {f g : Table Json → Checked (α → β)} {read again : Table Json → Checked α} {other : β → β → Prop}

theorem RespectsFields.map (make : α → β) (step : ∀ a b, related a b → other (make a) (make b))
    (respects : RespectsFields numbers read again related) :
    RespectsFields numbers (fun fields => make <$> read fields) (fun fields => make <$> again fields) other := by
  intro fields proper others moved value valid
  obtain ⟨inner, fits, rfl⟩ := (map_eq_valid make _ _).mp valid
  obtain ⟨result, reread, own⟩ := respects fields proper others moved inner fits
  exact ⟨make result, (map_eq_valid make _ _).mpr ⟨result, reread, rfl⟩, step _ _ own⟩

theorem RespectsFields.seq
    (front : RespectsFields numbers f g fun make remake => ∀ a b, related a b → other (make a) (remake b))
    (respects : RespectsFields numbers read again related) :
    RespectsFields numbers (fun fields => f fields <*> read fields) (fun fields => g fields <*> again fields) other := by
  intro fields proper others moved value valid
  obtain ⟨make, inner, made, fits, rfl⟩ := (seq_eq_valid _ _ _).mp valid
  obtain ⟨remake, remade, step⟩ := front fields proper others moved make made
  obtain ⟨result, reread, own⟩ := respects fields proper others moved inner fits
  exact ⟨remake result, (seq_eq_valid _ _ _).mpr ⟨remake, result, remade, reread, rfl⟩, step _ _ own⟩

theorem RespectsFields.andThen (kept : α → α → Prop) (first second : α → Checked β)
    (respects : RespectsFields numbers read again kept)
    (step : ∀ a b, kept a b → ∀ value, first a = .valid value → ∃ result, second b = .valid result ∧ other value result) :
    RespectsFields numbers (fun fields => (read fields).andThen first) (fun fields => (again fields).andThen second)
      other := by
  intro fields proper others moved value valid
  obtain ⟨inner, fits, checked⟩ := (and_then_eq_valid first _ _).mp valid
  obtain ⟨result, reread, own⟩ := respects fields proper others moved inner fits
  obtain ⟨final, rechecked, same⟩ := step inner result own value checked
  exact ⟨final, (and_then_eq_valid second _ _).mpr ⟨result, reread, rechecked⟩, same⟩

end

section

variable (labels : List Label) (fields others : Table Json) (proper : Proper numbers fields)
  (moved : Table.Moved Json.Reordered fields others)

include proper moved

theorem claimed_moved : claimed labels others = claimed labels fields := by
  refine List.filterMap_congr fun label _ => ?_
  have both := find_moved label fields others proper moved
  generalize label.find? fields = first, label.find? others = second at both ⊢
  cases both with
  | some same => exact congrArg some same.1.symm
  | none => rfl

theorem no_extras_moved (free : noExtras labels fields = .valid ()) : noExtras labels others = .valid () := by
  rw [no_extras_iff] at free ⊢
  rw [claimed_moved labels fields others proper moved]
  exact fun key member => free key ((Table.moved_keys fields others moved).mem_iff.mpr member)

theorem extras_moved : Table.Moved Json.Reordered (extras labels fields) (extras labels others) := by
  rw [extras_claimed, extras_claimed, claimed_moved labels fields others proper moved]
  exact Table.moved_filter _ _ fields others moved fun a b own => by rw [own.1]

end

theorem RespectsFields.closed (labels : List Label) {read again : Table Json → Checked α}
    (respects : RespectsFields numbers read again related) :
    RespectsFields numbers (fun fields => Schema.closed labels fields (read fields))
      (fun fields => Schema.closed labels fields (again fields)) related := by
  intro fields proper others moved value valid
  obtain ⟨fits, free⟩ := (closed_eq_valid labels fields _ value).mp valid
  obtain ⟨result, reread, own⟩ := respects fields proper others moved value fits
  exact ⟨result, (closed_eq_valid labels others _ result).mpr
    ⟨reread, no_extras_moved labels fields others proper moved free⟩, own⟩

theorem keyed_moved (fields others opened : Table Json) (regular : (Json.obj fields).Regular numbers)
    (moved : Table.Moved Json.Reordered fields others) (valid : keyed fields = .valid opened) :
    opened = fields ∧ Proper numbers fields ∧ keyed others = .valid others := by
  obtain ⟨rfl, clean⟩ := keyed_eq_valid fields opened valid
  refine ⟨rfl, keyed_proper _ _ regular valid, keyed_clean others fun key member => ?_⟩
  exact clean key ((Table.moved_keys _ others moved).mem_iff.mpr member)

theorem record_respects (name : Text) (read : Json → Table Json → Checked α)
    (each : ∀ input other, RespectsFields numbers (read input) (read other) related) :
    Respects numbers (fun input => (record name input).andThen (read input)) related := by
  intro input regular other moved value valid
  obtain ⟨opened, given, made⟩ := (and_then_eq_valid _ _ _).mp valid
  cases input with
  | obj fields =>
      obtain ⟨others, rfl, order⟩ := (Json.reordered_obj fields other).mp moved
      obtain ⟨rfl, proper, reopened⟩ := keyed_moved fields others opened regular order given
      obtain ⟨result, again, own⟩ := each _ _ opened proper others order value made
      exact ⟨result, (and_then_eq_valid _ _ _).mpr ⟨others, reopened, again⟩, own⟩
  | _ => cases given

theorem tagged_respects (readers : TaggedReader α)
    (each : ∀ entry ∈ readers, RespectsFields numbers entry.2 entry.2 related) :
    Respects numbers (readTagged readers) related := by
  intro input regular other moved value valid
  cases input with
  | obj fields =>
      obtain ⟨others, rfl, order⟩ := (Json.reordered_obj fields other).mp moved
      obtain ⟨tag, read, tagged, known, opened, given, made⟩ := (read_tagged_eq_valid readers fields value).mp valid
      obtain ⟨rfl, proper, reopened⟩ := keyed_moved fields others opened regular order given
      obtain ⟨result, again, own⟩ :=
        each _ (Table.mem_of_get tag readers read known) opened proper others order value made
      -- A tag is a text, and a text has nothing to reorder.
      have retagged : Table.get? "type" others = some (.str tag) := by
        have both := Table.moved_get "type" opened others order regular.1
        rw [tagged] at both
        generalize Table.get? "type" others = second at both ⊢
        cases both with
        | some same =>
            cases same
            rfl
      exact ⟨result, (read_tagged_eq_valid readers others result).mpr ⟨tag, read, retagged, known, others, reopened, again⟩, own⟩
  | _ => cases valid

theorem any_text_flat : Flat anyText := ⟨nofun, nofun⟩

theorem name_flat : Flat nonEmptyText := ⟨nofun, nofun⟩

theorem flag_flat : Flat flag := ⟨nofun, nofun⟩

theorem integer_flat : Flat integer := ⟨nofun, nofun⟩

theorem count_flat : Flat positiveInteger := ⟨nofun, nofun⟩

theorem choice_flat (options : List (Text × α)) : Flat (choice options) := ⟨nofun, nofun⟩

theorem literal_flat (expected : Text) : Flat (literal expected) := ⟨nofun, nofun⟩

end Schema

structure Condition.Reordered (c d : Condition) : Prop where
  value : c.value.Reordered d.value
  rest : d = { c with value := d.value }

structure Edge.Reordered (e f : Edge) : Prop where
  condition : Option.Rel Condition.Reordered e.condition f.condition
  rest : f = { e with condition := f.condition }

structure ContentBlock.Reordered (b c : ContentBlock) : Prop where
  extra : Table.Moved Json.Reordered b.extra c.extra
  rest : c = { b with extra := c.extra }

structure Message.Reordered (m n : Message) : Prop where
  content : List.Forall₂ ContentBlock.Reordered m.content n.content
  rest : n = { m with content := n.content }

inductive Tool.Reordered : Tool → Tool → Prop where
  | named (name : Text) : Reordered (.named name) (.named name)
  | described (fields others : Table Json) (moved : Table.Moved Json.Reordered fields others) :
      Reordered (.described fields) (.described others)

structure Request.Reordered (r q : Request) : Prop where
  input : Option.Rel (List.Forall₂ Message.Reordered) r.input q.input
  tools : Option.Rel (List.Forall₂ Tool.Reordered) r.tools q.tools
  limits : Option.Rel List.Perm r.toolLimits q.toolLimits
  rest : q = { r with input := q.input, tools := q.tools, toolLimits := q.toolLimits }

structure Transform.Reordered (t u : Transform) : Prop where
  object : Option.Rel List.Perm t.object u.object
  rest : u = { t with object := u.object }

inductive SubAction.Reordered : SubAction → SubAction → Prop where
  | request (kind : RequestKind) (r q : Request) (moved : r.Reordered q) : Reordered (.request kind r) (.request kind q)
  | transform (t u : Transform) (moved : t.Reordered u) : Reordered (.transform t) (.transform u)

structure SubNode.Reordered (n m : SubNode) : Prop where
  action : n.action.Reordered m.action
  rest : m = { n with action := m.action }

structure FanOut.Reordered (f g : FanOut) : Prop where
  subnode : f.subnode.Reordered g.subnode
  rest : g = { f with subnode := g.subnode }

inductive Action.Reordered : Action → Action → Prop where
  | request (kind : RequestKind) (r q : Request) (moved : r.Reordered q) : Reordered (.request kind r) (.request kind q)
  | joinAll : Reordered .joinAll .joinAll
  | joinAny (c d : Option Condition) (moved : Option.Rel Condition.Reordered c d) : Reordered (.joinAny c) (.joinAny d)
  | joinCollect (limit timeout : Option Int) (c d : Option Condition) (moved : Option.Rel Condition.Reordered c d) :
      Reordered (.joinCollect limit timeout c) (.joinCollect limit timeout d)
  | transform (t u : Transform) (moved : t.Reordered u) : Reordered (.transform t) (.transform u)
  | mapFanout (f g : FanOut) (moved : f.Reordered g) : Reordered (.mapFanout f) (.mapFanout g)

structure Node.Reordered (n m : Node) : Prop where
  action : n.action.Reordered m.action
  rest : m = { n with action := m.action }

structure Spec.Reordered (s t : Spec) : Prop where
  nodes : List.Forall₂ Node.Reordered s.nodes t.nodes
  edges : List.Forall₂ Edge.Reordered s.edges t.edges
  rest : t = { s with nodes := t.nodes, edges := t.edges }

variable {numbers : Binary64 → Prop}

theorem condition_respects : Respects numbers Condition.ofJson Condition.Reordered := by
  have value : RespectsFields numbers (defaulted "value" .valid .null) (defaulted "value" .valid .null) Json.Reordered :=
    defaulted_respects "value" _ (.same _) fun _ _ other moved value valid => ⟨other, rfl, Checked.valid.inj valid ▸ moved⟩
  refine record_respects "Condition" _ fun input other => .andThen Condition.Reordered _ _ (.closed _ (((
    (RespectsFields.map Condition.mk ?made (required_flat "source" (choice_flat _))).seq
      (required_flat "op" (choice_flat _))).seq (required_flat "path" name_flat)).seq value)) ?checked
  case made =>
    rintro source _ rfl op _ rfl path _ rfl value changed moved
    exact ⟨moved, rfl⟩
  case checked =>
    rintro c d moved made valid
    rw [Condition.checkPath] at valid ⊢
    have path : d.path = c.path := by rw [moved.rest]
    rw [path]
    split at valid
    · obtain rfl := Checked.valid.inj valid
      exact ⟨d, by rw [if_pos ‹_›], moved⟩
    · cases valid

theorem edge_respects : Respects numbers Edge.ofJson Edge.Reordered := by
  refine record_respects "Edge" _ fun _ _ => .closed _ (((RespectsFields.map Edge.mk ?made
    (required_flat .source name_flat)).seq (required_flat "to" name_flat)).seq
    (absentable_respects "when" condition_respects))
  rintro source _ rfl target _ rfl condition other moved
  exact ⟨moved, rfl⟩

theorem output_respects : Respects numbers OutputRef.ofJson Eq := by
  refine record_respects "OutputRef" _ fun _ _ => .closed _ (((RespectsFields.map OutputRef.mk ?made
    (required_flat "name" name_flat)).seq (required_flat .source name_flat)).seq (absentable_flat "pointer" any_text_flat))
  rintro name _ rfl source _ rfl pointer _ rfl
  rfl

theorem block_respects : Respects numbers ContentBlock.ofJson ContentBlock.Reordered := by
  have more : RespectsFields numbers (fun fields => .valid (extras ["type", "text"] fields))
      (fun fields => .valid (extras ["type", "text"] fields)) (Table.Moved Json.Reordered) := by
    intro fields proper others moved extra valid
    exact ⟨_, rfl, Checked.valid.inj valid ▸ extras_moved _ fields others proper moved⟩
  refine record_respects "ContentBlock" _ fun _ _ => ((RespectsFields.map ContentBlock.mk ?made
    (defaulted_respects "type" ("text" : Text) rfl (flat_respects any_text_flat))).seq
    (absentable_flat "text" any_text_flat)).seq more
  rintro kind _ rfl text _ rfl extra other moved
  exact ⟨moved, rfl⟩

theorem message_respects : Respects numbers Message.ofJson Message.Reordered := by
  refine record_respects "InputMessage" _ fun _ _ => .closed _
    (((RespectsFields.map (fun _ role content => Message.mk role content) ?made
      (defaulted_respects "type" () rfl (flat_respects (literal_flat _)))).seq (required_flat "role" name_flat)).seq
      (defaulted_respects "content" [] .nil (list_respects block_respects)))
  rintro _ _ rfl role _ rfl content other moved
  exact ⟨moved, rfl⟩

theorem binding_respects : Respects numbers Binding.ofJson Eq := by
  refine record_respects "Binding" _ fun input other => .andThen Eq _ _ (.closed _ (((((
    (RespectsFields.map Binding.mk ?made (required_flat .source name_flat)).seq
      (absentable_flat "pointer" any_text_flat))).seq (absentable_flat "to" any_text_flat)).seq
      (absentable_flat "to_placeholder" any_text_flat)).seq
      (defaulted_respects "encoding" Encoding.jsonString rfl (flat_respects (choice_flat _))))) ?checked
  case made =>
    rintro source _ rfl pointer _ rfl target _ rfl placeholder _ rfl encoding _ rfl
    rfl
  case checked =>
    rintro b _ rfl made valid
    obtain ⟨rfl, one⟩ := check_target_valid input b made valid
    exact ⟨made, by rw [Binding.checkTarget, if_neg (by simpa using one)], rfl⟩

theorem mode_respects : Respects numbers ToolMode.ofJson Eq :=
  record_respects "ToolExecution" _ fun _ _ => .closed _ (required_flat "mode" (choice_flat _))

theorem tool_respects : Respects numbers Tool.ofJson Tool.Reordered := by
  intro input _ other moved tool valid
  cases input with
  | str name =>
      cases moved
      exact ⟨.named name, rfl, Checked.valid.inj valid ▸ .named name⟩
  | obj fields =>
      obtain ⟨others, rfl, order⟩ := (Json.reordered_obj fields other).mp moved
      exact ⟨.described others, rfl, Checked.valid.inj valid ▸ .described fields others order⟩
  | _ => cases valid

theorem value_ref_respects : Respects numbers ValueRef.ofJson Eq := by
  refine record_respects "ValueRef" _ fun _ _ => .closed _ ((RespectsFields.map ValueRef.mk ?made
    (required_flat .source name_flat)).seq (absentable_flat "pointer" any_text_flat))
  rintro source _ rfl pointer _ rfl
  rfl

theorem request_respects : RespectsFields numbers Request.ofFields Request.ofFields Request.Reordered := by
  refine ((((((((RespectsFields.map Request.mk ?made (absentable_flat "model" any_text_flat)).seq
    (absentable_flat "system" any_text_flat)).seq (absentable_flat "user" any_text_flat)).seq
    (absentable_respects "input" (list_respects message_respects))).seq (absentable_flat "stream" flag_flat)).seq
    (absentable_respects "tools" (list_respects tool_respects))).seq (absentable_same "tool_execution" mode_respects)).seq
    (absentable_respects "tool_limits" (table_same (flat_respects integer_flat)))).seq
    (absentable_same "bindings" (list_same binding_respects))
  rintro model _ rfl system _ rfl user _ rfl input messages heard stream _ rfl tools others used mode _ rfl limits bounds bounded
    bindings _ rfl
  exact ⟨heard, used, bounded, rfl⟩

theorem transform_respects : RespectsFields numbers Transform.ofFields Transform.ofFields Transform.Reordered := by
  refine (RespectsFields.map Transform.mk ?made (absentable_respects "object" (table_same value_ref_respects))).seq
    (absentable_same "merge" (list_same value_ref_respects))
  rintro object other moved merge _ rfl
  exact ⟨moved, rfl⟩

theorem frame_respects (tag : Text) : RespectsFields numbers (Frame.ofFields tag) (Frame.ofFields tag) Eq := by
  refine ((RespectsFields.map (fun id _ dependsOn => Frame.mk id dependsOn) ?made (required_flat "id" name_flat)).seq
    (defaulted_respects "type" () rfl (flat_respects (literal_flat _)))).seq
    (absentable_same "depends_on" (list_same (flat_respects any_text_flat)))
  rintro id _ rfl _ _ rfl waits _ rfl
  rfl

theorem subnode_read_respects (tag : Text) (labels : List Label) (action : Table Json → Checked SubAction)
    (respects : RespectsFields numbers action action SubAction.Reordered) :
    RespectsFields numbers (SubNode.read tag labels action) (SubNode.read tag labels action) SubNode.Reordered := by
  refine .closed _ ((RespectsFields.map (fun frame action => SubNode.mk frame.id frame.dependsOn action) ?made
    (frame_respects tag)).seq respects)
  rintro frame _ rfl does other moved
  exact ⟨moved, rfl⟩

theorem subnode_respects : Respects numbers SubNode.ofJson SubNode.Reordered := by
  refine tagged_respects _ ?_
  simp only [SubNode.readers, List.forall_mem_cons]
  have request (kind : RequestKind) :
      RespectsFields numbers (SubNode.readRequest kind) (SubNode.readRequest kind) SubNode.Reordered :=
    subnode_read_respects _ _ _ (.map (SubAction.request kind) (fun r q moved => .request kind r q moved) request_respects)
  exact ⟨request .llm, request .routeSwitch,
    subnode_read_respects _ _ _ (.map SubAction.transform .transform transform_respects), List.forall_mem_nil _⟩

theorem fan_out_respects : RespectsFields numbers FanOut.ofFields FanOut.ofFields FanOut.Reordered := by
  refine (((((RespectsFields.map FanOut.mk ?made (absentable_flat "items_from" any_text_flat)).seq
    (absentable_flat "items_from_input" any_text_flat)).seq (absentable_flat "items_pointer" any_text_flat)).seq
    (required_respects "subnode" subnode_respects)).seq (absentable_same "item_bindings" (list_same binding_respects))).seq
    (absentable_flat "max_parallelism" count_flat)
  rintro source _ rfl given _ rfl pointer _ rfl subnode other moved bindings _ rfl bound _ rfl
  exact ⟨moved, rfl⟩

theorem node_read_respects (tag : Text) (labels : List Label) (action : Table Json → Checked Action)
    (respects : RespectsFields numbers action action Action.Reordered) :
    RespectsFields numbers (Node.read tag labels action) (Node.read tag labels action) Node.Reordered := by
  refine .closed _ ((RespectsFields.map (fun frame action => Node.mk frame.id frame.dependsOn action) ?made
    (frame_respects tag)).seq respects)
  rintro frame _ rfl does other moved
  exact ⟨moved, rfl⟩

theorem one_source_moved (n m : Node) (moved : n.Reordered m)
    (one : ∀ f, n.action = .mapFanout f → f.hasOneSource = true) : ∀ g, m.action = .mapFanout g → g.hasOneSource = true := by
  intro g does
  have action := moved.action
  rw [does] at action
  generalize own : n.action = given at action
  cases action with
  | mapFanout f _ moved =>
      have same : g.hasOneSource = f.hasOneSource := by rw [moved.rest]; rfl
      exact same.trans (one f own)

theorem read_fan_out_respects : RespectsFields numbers Node.readFanOut Node.readFanOut Node.Reordered := by
  intro fields proper others moved value valid
  obtain ⟨made, read, checked⟩ := (and_then_eq_valid _ _ _).mp valid
  obtain ⟨rfl, one⟩ := (Node.check_items_eq_valid _ made value).mp checked
  have action : RespectsFields numbers (fun fields => Action.mapFanout <$> FanOut.ofFields fields) _ Action.Reordered :=
    .map Action.mapFanout .mapFanout fan_out_respects
  obtain ⟨result, again, own⟩ := node_read_respects _ _ _ action fields proper others moved made read
  have rechecked := (Node.check_items_eq_valid (.obj others) result result).mpr ⟨rfl, one_source_moved made result own one⟩
  exact ⟨result, (and_then_eq_valid _ _ _).mpr ⟨result, again, rechecked⟩, own⟩

theorem join_collect_respects : RespectsFields numbers Node.readJoinCollect Node.readJoinCollect Node.Reordered := by
  refine node_read_respects _ _ _ (((RespectsFields.map Action.joinCollect ?made (absentable_flat "limit" count_flat)).seq
    (absentable_flat "timeout_ms" count_flat)).seq (absentable_respects "predicate" condition_respects))
  rintro limit _ rfl timeout _ rfl predicate other moved
  exact .joinCollect limit timeout predicate other moved

theorem node_respects : Respects numbers Node.ofJson Node.Reordered := by
  refine tagged_respects _ ?_
  simp only [Node.readers, List.forall_mem_cons]
  have request (kind : RequestKind) :
      RespectsFields numbers (Node.readRequest kind) (Node.readRequest kind) Node.Reordered :=
    node_read_respects _ _ _ (.map (Action.request kind) (fun r q moved => .request kind r q moved) request_respects)
  have all :
      RespectsFields numbers (fun _ => Checked.valid Action.joinAll) (fun _ => Checked.valid Action.joinAll) Action.Reordered :=
    fun _ _ _ _ action valid => ⟨.joinAll, rfl, Checked.valid.inj valid ▸ .joinAll⟩
  exact ⟨request .llm, request .routeSwitch, node_read_respects _ _ _ all,
    node_read_respects _ _ _ (.map Action.joinAny .joinAny (absentable_respects "predicate" condition_respects)),
    join_collect_respects, node_read_respects _ _ _ (.map Action.transform .transform transform_respects),
    read_fan_out_respects, List.forall_mem_nil _⟩

theorem spec_respects : Respects numbers Spec.ofJson Spec.Reordered := by
  refine record_respects "WorkflowSpec" _ fun _ _ => .closed _ (((((((RespectsFields.map
    (fun _ name model maxParallelism nodes edges outputs => Spec.mk name model maxParallelism nodes edges outputs) ?made
    (defaulted_respects "kind" () rfl (flat_respects (literal_flat _)))).seq (absentable_flat "name" any_text_flat)).seq
    (absentable_flat "model" any_text_flat)).seq (absentable_flat "max_parallelism" count_flat)).seq
    (defaulted_respects "nodes" [] .nil (list_respects node_respects))).seq
    (defaulted_respects "edges" [] .nil (list_respects edge_respects))).seq
    (defaulted_respects "outputs" [] rfl (list_same output_respects)))
  rintro _ _ rfl name _ rfl model _ rfl bound _ rfl nodes others listed edges links linked outputs _ rfl
  exact ⟨listed, linked, rfl⟩

end PlanFlow
