import PlanFlow.Proofs.Checked
import PlanFlow.Proofs.Decoding
import PlanFlow.Workflow.Reader

/-!
Records read back. Of a record that is written its fields are received without those that are null; each is found
under its label as what was written, in the way that it took.
-/

set_option autoImplicit false

namespace PlanFlow

open Json (ofOption ofList ofTable ofText? ofInt?)
open Json (Passage)

namespace Json

def received (w : Passage) (entries : Table Json) : Table Json :=
  w.arrange ((Nulls.dropped.entries entries).map fun entry => (entry.1, entry.2.recast w))

def found? (w : Passage) (value : Json) : Option Json := if value.isNull then none else some (value.recast w)

def Holds (w : Passage) (entries fields : Table Json) : Prop :=
  ∀ entry ∈ entries, Table.get? entry.1 fields = found? w entry.2

section

variable (w : Passage)

theorem record_recast (entries : Table Json) : (Nulls.dropped.record entries).recast w = .obj (received w entries) := by
  rw [Nulls.record, recast_obj, received]

theorem mem_received (entries : Table Json) (key : Text) (value : Json) :
    (key, value) ∈ received w entries ↔ ∃ given, (key, given) ∈ entries ∧ given.isNull = false ∧ given.recast w = value := by
  rw [received, w.mem_arrange, List.mem_map]
  constructor
  · rintro ⟨entry, member, same⟩
    obtain ⟨inside, given⟩ := List.mem_filter.mp member
    obtain ⟨rfl, rfl⟩ := Prod.mk.inj same
    exact ⟨entry.2, inside, by simpa using given, rfl⟩
  · rintro ⟨given, inside, kept, rfl⟩
    exact ⟨(key, given), List.mem_filter.mpr ⟨inside, by simpa using kept⟩, rfl⟩

theorem received_keys (entries : Table Json) (key : Text) (member : key ∈ Table.keys (received w entries)) :
    key ∈ Table.keys entries := by
  obtain ⟨value, inside⟩ := (Table.mem_keys _ _).mp member
  obtain ⟨given, held, _⟩ := (mem_received w entries key value).mp inside
  exact (Table.mem_keys _ _).mpr ⟨given, held⟩

theorem kept_distinct (entries : Table Json) (distinct : (Table.keys entries).Nodup) :
    (Table.keys (Nulls.dropped.entries entries)).Nodup :=
  distinct.sublist (List.filter_sublist.map Prod.fst)

theorem received_distinct (entries : Table Json) (distinct : (Table.keys entries).Nodup) :
    (Table.keys (received w entries)).Nodup := by
  refine w.arrange_nodup _ ?_
  rw [Table.keys_map]
  exact kept_distinct entries distinct

theorem holds_append (a b fields : Table Json) : Holds w (a ++ b) fields ↔ Holds w a fields ∧ Holds w b fields :=
  List.forall_mem_append

theorem holds_received (entries : Table Json) (distinct : (Table.keys entries).Nodup) :
    Holds w entries (received w entries) := by
  rintro ⟨key, value⟩ member
  have own := Table.get_of_mem key entries value distinct member
  by_cases null : value.isNull = true
  · rw [found?, if_pos null]
    cases found : Table.get? key (received w entries) with
    | none => rfl
    | some other =>
        obtain ⟨given, inside, kept, _⟩ := (mem_received w entries key other).mp (Table.mem_of_get key _ other found)
        have same := Table.get_of_mem key entries given distinct inside
        rw [own, Option.some.injEq] at same
        rw [← same, null] at kept
        cases kept
  · rw [found?, if_neg null]
    exact Table.get_of_mem key _ _ (received_distinct w entries distinct)
      ((mem_received w entries key _).mpr ⟨value, member, Bool.eq_false_iff.mpr null, rfl⟩)

theorem regular_record (numbers : Binary64 → Prop) (entries : Table Json) (distinct : (Table.keys entries).Nodup)
    (each : ∀ entry ∈ entries, entry.2.Regular numbers) : (Nulls.dropped.record entries).Regular numbers := by
  refine ⟨kept_distinct entries distinct, (regular_fields_iff _ _).mpr fun entry member => ?_⟩
  exact each entry (List.mem_filter.mp member).1

end

end Json

namespace Schema

open Json (Holds received found?)

structure ReadsBack {α : Type} (w : Passage) (check : Json → Checked α) (written : Json) (value : α) : Prop where
  regular : written.Regular w.carries
  given : written.isNull = false
  valid : check (written.recast w) = .valid value

section

variable {α β : Type} {w : Passage} {check : Json → Checked β} {entries fields : Table Json} (held : Holds w entries fields)

theorem optional_given (value : Json) (given : value.isNull = false) : optional check value = (check value).map some := by
  cases value with
  | null => cases given
  | _ => rfl

theorem regular_option {write : α → Json} {value : Option α} {result : α → β}
    (reads : ∀ v ∈ value, ReadsBack w check (write v) (result v)) : (ofOption write value).Regular w.carries := by
  cases value with
  | none => trivial
  | some v => exact (reads v rfl).regular

include held

theorem find_given (label : Label) (value : Json) (given : value.isNull = false) (entry : (label.name, value) ∈ entries) :
    label.find? fields = some (label.name, value.recast w) := by
  have found := held _ entry
  simp only [found?, given] at found
  simp [Label.find?, found]

theorem find_null (label : Label) (plain : label.alternative = none) (entry : (label.name, .null) ∈ entries) :
    label.find? fields = none := by
  have found : Table.get? label.name fields = none := held _ entry
  simp [Label.find?, found, plain]

theorem required_reads (label : Label) {written : Json} {result : β} (reads : ReadsBack w check written result)
    (entry : (label.name, written) ∈ entries) : required label check fields = .valid result :=
  (required_eq_valid label check fields result).mpr ⟨_, find_given held label written reads.given entry, reads.valid⟩

theorem defaulted_reads (label : Label) (fallback : β) {written : Json} {result : β} (reads : ReadsBack w check written result)
    (entry : (label.name, written) ∈ entries) : defaulted label check fallback fields = .valid result :=
  (defaulted_eq_valid label check fallback fields result).mpr
    (.inr ⟨_, find_given held label written reads.given entry, reads.valid⟩)

theorem absentable_reads (label : Label) (plain : label.alternative = none) {write : α → Json} {value : Option α}
    {result : α → β} (reads : ∀ v ∈ value, ReadsBack w check (write v) (result v))
    (entry : (label.name, ofOption write value) ∈ entries) :
    absentable label check fields = .valid (value.map result) := by
  cases value with
  | none => simp [absentable, defaulted, find_null held label plain entry]
  | some v =>
      obtain ⟨_, given, valid⟩ := reads v rfl
      have kept : ((write v).recast w).isNull = false := by rw [Json.recast_is_null, given]
      simp only [absentable, defaulted, find_given held label (write v) given entry, optional_given _ kept, valid]
      rfl

theorem defaulted_free (label : Label) (plain : label.alternative = none) (value : Json)
    (entry : (label.name, value) ∈ entries) : defaulted label .valid .null fields = .valid (value.recast w) := by
  cases null : value.isNull with
  | true =>
      obtain rfl : value = .null := by
        cases value with
        | null => rfl
        | _ => cases null
      rw [defaulted, find_null held label plain entry]
      rfl
  | false =>
      rw [defaulted, find_given held label value null entry]
      rfl

theorem absentable_kept (label : Label) (plain : label.alternative = none) {write : β → Json} {value : Option β}
    (reads : ∀ v ∈ value, ReadsBack w check (write v) v) (entry : (label.name, ofOption write value) ∈ entries) :
    absentable label check fields = .valid value := by
  have each : ∀ v ∈ value, ReadsBack w check (write v) (id v) := reads
  rw [absentable_reads held label plain each entry, Option.map_id, id]

theorem absentable_text (label : Label) (plain : label.alternative = none) (value : Option Text)
    (entry : (label.name, ofText? value) ∈ entries) : absentable label anyText fields = .valid value := by
  have written : ofText? value = ofOption .str value := by cases value <;> rfl
  have each : ∀ v ∈ value, ReadsBack w anyText (.str v) v := fun v _ => ⟨trivial, rfl, rfl⟩
  rw [written] at entry
  exact absentable_kept held label plain each entry

end

def claimed (labels : List Label) (fields : Table Json) : List Text :=
  labels.filterMap fun label => (label.find? fields).map Prod.fst

theorem extras_claimed (labels : List Label) (fields : Table Json) :
    extras labels fields = fields.filter fun entry => !(claimed labels fields).contains entry.1 := rfl

theorem claimed_of_key (labels : List Label) (fields : Table Json) (name : Text) (known : name ∈ labels.map Label.name)
    (key : name ∈ Table.keys fields) : name ∈ claimed labels fields := by
  obtain ⟨label, inside, rfl⟩ := List.mem_map.mp known
  obtain ⟨value, found⟩ := Table.get_of_key label.name fields key
  exact List.mem_filterMap.mpr ⟨label, inside, by simp [Label.find?, found]⟩

theorem key_of_claimed (labels : List Label) (plain : ∀ label ∈ labels, label.alternative = none) (fields : Table Json)
    (name : Text) (member : name ∈ claimed labels fields) : name ∈ labels.map Label.name := by
  obtain ⟨label, inside, named⟩ := List.mem_filterMap.mp member
  refine List.mem_map.mpr ⟨label, inside, ?_⟩
  cases found : Table.get? label.name fields with
  | none => simp [Label.find?, found, plain label inside] at named
  | some value => simpa [Label.find?, found] using named

theorem no_extras_iff (labels : List Label) (fields : Table Json) :
    noExtras labels fields = .valid () ↔ ∀ key ∈ Table.keys fields, key ∈ claimed labels fields := by
  rw [Table.keys, List.forall_mem_map]
  cases more : extras labels fields with
  | nil =>
      refine iff_of_true (by rw [noExtras, more]) fun entry member => ?_
      have kept := List.filter_eq_nil_iff.mp (extras_claimed labels fields ▸ more) entry member
      rwa [Bool.not_eq_true, Bool.not_eq_false', List.contains_iff_mem] at kept
  | cons first others =>
      refine iff_of_false (by simp [noExtras, more]) fun all => ?_
      have inside : first ∈ extras labels fields := more ▸ List.mem_cons_self
      obtain ⟨held, unclaimed⟩ := List.mem_filter.mp (extras_claimed labels fields ▸ inside)
      simp [all first held] at unclaimed

theorem no_extras_known (labels : List Label) (fields : Table Json)
    (known : ∀ key ∈ Table.keys fields, key ∈ labels.map Label.name) : noExtras labels fields = .valid () :=
  (no_extras_iff labels fields).mpr fun key member => claimed_of_key labels fields key (known key member) member

theorem extras_received (w : Passage) (labels : List Label) (plain : ∀ label ∈ labels, label.alternative = none)
    (own others : Table Json) (named : Table.keys own = labels.map Label.name)
    (beyond : ∀ name ∈ Table.keys others, name ∉ labels.map Label.name) :
    extras labels (received w (own ++ others)) = received w others := by
  have same : extras labels (received w (own ++ others)) =
      (received w (own ++ others)).filter fun entry => decide (entry.1 ∉ labels.map Label.name) := by
    rw [extras_claimed]
    refine List.filter_congr fun entry member => ?_
    have key : entry.1 ∈ Table.keys (received w (own ++ others)) := List.mem_map_of_mem member
    have iff : entry.1 ∈ claimed labels (received w (own ++ others)) ↔ entry.1 ∈ labels.map Label.name :=
      ⟨key_of_claimed labels plain _ entry.1, fun known => claimed_of_key labels _ entry.1 known key⟩
    rw [List.contains_eq_mem, decide_eq_decide.mpr iff, decide_not]
  have split : received w (own ++ others) = w.arrange
      (((Nulls.dropped.entries own).map fun entry => (entry.1, entry.2.recast w)) ++
        (Nulls.dropped.entries others).map fun entry => (entry.1, entry.2.recast w)) := by
    rw [received, ← List.map_append, Nulls.entries, List.filter_append]
    rfl
  rw [same, split, w.filter, List.filter_append]
  have front : ((Nulls.dropped.entries own).map fun entry => (entry.1, entry.2.recast w)).filter
      (fun entry => decide (entry.1 ∉ labels.map Label.name)) = [] := by
    refine List.filter_eq_nil_iff.mpr fun entry member => ?_
    obtain ⟨given, inside, rfl⟩ := List.mem_map.mp member
    have known : given.1 ∈ labels.map Label.name := named ▸ List.mem_map_of_mem (List.mem_filter.mp inside).1
    simpa using known
  have back : ((Nulls.dropped.entries others).map fun entry => (entry.1, entry.2.recast w)).filter
      (fun entry => decide (entry.1 ∉ labels.map Label.name)) =
        (Nulls.dropped.entries others).map fun entry => (entry.1, entry.2.recast w) := by
    refine List.filter_eq_self.mpr fun entry member => ?_
    obtain ⟨given, inside, rfl⟩ := List.mem_map.mp member
    exact decide_eq_true (beyond given.1 (List.mem_map_of_mem (List.mem_filter.mp inside).1))
  rw [front, back, List.nil_append, received]

theorem keyed_clean (fields : Table Json) (clean : ∀ key ∈ Table.keys fields, key.hasSurrogate = false) :
    keyed fields = .valid fields := by
  have placed : (Table.keys fields).find? Text.hasSurrogate = none :=
    List.find?_eq_none.mpr fun key member => by simp [clean key member]
  rw [keyed, placed]

def Apart (names : List Text) : Prop := names.Nodup ∧ ∀ name ∈ names, name.hasSurrogate = false

instance (names : List Text) : Decidable (Apart names) :=
  inferInstanceAs (Decidable (names.Nodup ∧ ∀ name ∈ names, name.hasSurrogate = false))

section

variable {α : Type} {w : Passage} (labels : List Label) (entries : Table Json)
  (named : Table.keys entries = labels.map Label.name) (apart : Apart (labels.map Label.name))
  (regular : ∀ entry ∈ entries, entry.2.Regular w.carries) (result : α)

include named apart regular

theorem reads_fields (read : Json → Table Json → Checked α) (check : Json → Checked α)
    (opened : ∀ fields, keyed fields = .valid fields → Holds w entries fields → check (.obj fields) = read (.obj fields) fields)
    (valid : ∀ fields, Holds w entries fields → noExtras labels fields = .valid () → read (.obj fields) fields = .valid result) :
    ReadsBack w check (Nulls.dropped.record entries) result := by
  have distinct : (Table.keys entries).Nodup := named ▸ apart.1
  have clean : ∀ key ∈ Table.keys entries, key.hasSurrogate = false := named ▸ apart.2
  have holds := Json.holds_received w entries distinct
  have free := no_extras_known labels (received w entries) fun key member => named ▸ Json.received_keys w entries key member
  have keys := keyed_clean (received w entries) fun key member => clean key (Json.received_keys w entries key member)
  refine ⟨Json.regular_record _ entries distinct regular, rfl, ?_⟩
  rw [Json.record_recast, opened _ keys holds]
  exact valid _ holds free

theorem reads_record (name : Text) (read : Json → Table Json → Checked α)
    (valid : ∀ fields, Holds w entries fields → noExtras labels fields = .valid () → read (.obj fields) fields = .valid result) :
    ReadsBack w (fun input => (record name input).andThen (read input)) (Nulls.dropped.record entries) result := by
  refine reads_fields labels entries named apart regular result read _ (fun fields keys _ => ?_) valid
  rw [record, keys, Checked.andThen]

theorem reads_tagged (readers : TaggedReader α) (tag : Text) (typed : (("type" : Text), Json.str tag) ∈ entries)
    (read : Table Json → Checked α) (known : Table.get? tag readers = some read)
    (valid : ∀ fields, Holds w entries fields → noExtras labels fields = .valid () → read fields = .valid result) :
    ReadsBack w (readTagged readers) (Nulls.dropped.record entries) result := by
  refine reads_fields labels entries named apart regular result (fun _ fields => (read fields).under (.key tag)) _
    (fun fields keys holds => ?_) fun fields holds free => ?_
  · have found : Table.get? "type" fields = some (.str tag) := holds _ typed
    simp only [readTagged, found, known, Option.map_some, keys, Checked.andThen]
  · rw [valid fields holds free, Checked.under]

end

theorem reads_list {α β : Type} {w : Passage} {check : Json → Checked β} (write : α → Json) (result : α → β) (items : List α)
    (each : ∀ item ∈ items, ReadsBack w check (write item) (result item)) :
    ReadsBack w (listOf check) (ofList write items) (items.map result) := by
  have from_start (start : Nat) :
      listFrom check start ((items.map write).map (Json.recast w)) = .valid (items.map result) := by
    induction items generalizing start with
    | nil => rfl
    | cons head tail ih =>
        obtain ⟨first, rest⟩ := List.forall_mem_cons.mp each
        rw [List.map_cons, List.map_cons, listFrom, first.valid, ih rest]
        rfl
  refine ⟨(Json.regular_items_iff _ _).mpr fun written member => ?_, rfl, ?_⟩
  · obtain ⟨item, inside, rfl⟩ := List.mem_map.mp member
    exact (each item inside).regular
  · rw [ofList, Json.recast_arr, listOf, from_start]

end Schema

end PlanFlow
