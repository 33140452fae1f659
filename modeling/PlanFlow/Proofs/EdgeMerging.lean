import PlanFlow.Proofs.KeyOrder

/-!
Which edges become one when edges are put in order. Where conditions hold no floating-point numbers and all their keys have
a UTF-8 form, these are the edges that are equal up to the order of keys: the canonical text of a value brings the value
back, its members in the order of their keys.
-/

set_option autoImplicit false

namespace PlanFlow

namespace Json

open Canonical (memberKey write)

theorem exact_orderly (value : Json) (exact : value.Exact) : value.Orderly := by
  induction value using by_parts with
  | arr items ih =>
      have each := (exact_items_iff items).mp exact
      exact (orderly_arr items).mpr fun item member => ih item member (each item member)
  | obj fields ih =>
      refine (orderly_obj fields).mpr fun entry member => ?_
      obtain ⟨clean, own⟩ := (exact_fields_iff fields).mp exact.2 entry member
      exact ⟨clean, ih entry member own⟩
  | _ => trivial

theorem is_null_eq (value : Json) (null : value.isNull = true) : value = .null := by cases value <;> first | rfl | cases null

theorem reordered_of_ordered (a b : Json) (same : a.ordered = b.ordered) : a.Reordered b := by
  induction a using by_parts generalizing b with
  | arr items ih =>
      cases b with
      | arr others =>
          rw [ordered, ordered, ordered_items_map, ordered_items_map, Json.arr.injEq, ← List.forall₂_eq_eq_eq,
            List.forall₂_map_left_iff, List.forall₂_map_right_iff] at same
          have inside := (List.forall₂_and_left _ _).mpr ⟨fun item member => ih item member, same⟩
          exact .arr items others (inside.imp fun item other both => both.1 other both.2)
      | _ => cases same
  | obj fields ih =>
      cases b with
      | obj others =>
          rw [ordered, ordered, ordered_fields_map, ordered_fields_map, Json.obj.injEq] at same
          let order (entry : Text × Json) : Text × Json := (entry.1, entry.2.ordered)
          have permuted : (others.map order).Perm (fields.map order) :=
            (sort_on_perm memberKey _).symm.trans (same ▸ sort_on_perm memberKey _)
          have own : List.Forall₂ (fun x entry => x = order entry) (others.map order) others := by
            rw [List.forall₂_map_left_iff]
            exact List.forall₂_same.mpr fun _ _ => rfl
          obtain ⟨mid, moved, each⟩ := exists_permuted _ _ _ others own permuted
          rw [List.forall₂_map_left_iff] at each
          have inside := (List.forall₂_and_left _ _).mpr ⟨fun entry member => ih entry member, each⟩
          have matched : Table.Matched Reordered fields mid := inside.imp fun entry other both => by
            obtain ⟨back, matching⟩ := both
            obtain ⟨key, value⟩ := Prod.mk.inj matching
            exact ⟨key, back other.2 value⟩
          exact (reordered_obj fields _).mpr ⟨others, rfl, mid, matched, moved.symm⟩
      | _ => cases same
  | _ =>
      cases b <;> cases same
      exact .same _

theorem exact_text_iff (a b : Json) (first : a.Exact) (second : b.Exact) (s t : Text) (here : write a = .ok s)
    (there : write b = .ok t) : s = t ↔ a.Reordered b := by
  constructor
  · rintro rfl
    have own := read_written .exact exact_through a (exact_regular a first) s here
    have other := read_written .exact exact_through b (exact_regular b second) s there
    rw [recast_ordered] at own other
    exact reordered_of_ordered a b (Except.ok.inj (own.symm.trans other))
  · intro moved
    have same := write_reordered a b moved _ (exact_regular a first) (exact_orderly a first)
    exact Except.ok.inj (here.symm.trans (same.symm.trans there))

end Json

namespace Condition

def fields (c : Condition) : Table Json :=
  [("source", .str c.source.name), ("op", .str c.op.name), ("path", .str c.path), ("value", c.value)]

section

variable (c : Condition)

theorem form_fields (exact : c.value.Exact) : c.toJson .dropped = .obj (Nulls.dropped.entries c.fields) := by
  have value : (Freeform.field c.value).toJson = c.value := by
    rw [Freeform.field_written .exact c.value (Json.exact_regular _ exact), Json.encodable_exact _ exact]
  rw [toJson, value]
  rfl

theorem form_exact (exact : c.value.Exact) : (c.toJson .dropped).Exact := by
  have named : Table.keys c.fields = [("source" : Text), ("op" : Text), ("path" : Text), ("value" : Text)] := rfl
  have clean : ∀ key ∈ Table.keys c.fields, key.hasSurrogate = false := named ▸ by decide
  rw [c.form_fields exact]
  refine ⟨Json.kept_distinct c.fields (named ▸ by decide), (Json.exact_fields_iff _).mpr fun entry member => ?_⟩
  have inside : entry ∈ c.fields := (List.mem_filter.mp member).1
  refine ⟨clean _ (List.mem_map_of_mem inside), ?_⟩
  simp only [fields, List.mem_cons, List.not_mem_nil, or_false] at inside
  rcases inside with rfl | rfl | rfl | rfl
  · trivial
  · trivial
  · trivial
  · exact exact

theorem form_get : let form := Nulls.dropped.entries c.fields
    Table.get? "source" form = some (.str c.source.name) ∧ Table.get? "op" form = some (.str c.op.name) ∧
      Table.get? "path" form = some (.str c.path) ∧
      Table.get? "value" form = if c.value.isNull then none else some c.value := by
  obtain ⟨source, op, path, value⟩ := c
  refine ⟨rfl, rfl, rfl, ?_⟩
  cases value <;> rfl

end

theorem source_name_injective : Function.Injective ConditionSource.name := by
  intro a b same
  cases a <;> cases b <;> first | rfl | exact absurd same (by decide)

theorem op_name_injective : Function.Injective ConditionOp.name := by
  intro a b same
  cases a <;> cases b <;> first | rfl | exact absurd same (by decide)

theorem text_found (key s t : Text) (form others : Table Json) (here : Table.get? key form = some (.str s))
    (there : Table.get? key others = some (.str t))
    (found : Option.Rel Json.Reordered (Table.get? key form) (Table.get? key others)) : t = s := by
  rw [here, there] at found
  cases found with
  | some same =>
      cases same
      rfl

section

variable (c d : Condition) (exact : c.value.Exact) (also : d.value.Exact)

include exact also

theorem form_reordered_iff : (c.toJson .dropped).Reordered (d.toJson .dropped) ↔ c.Reordered d := by
  have distinct := (c.form_exact exact)
  rw [c.form_fields exact] at distinct ⊢
  rw [d.form_fields also]
  constructor
  · intro moved
    obtain ⟨others, same, order⟩ := (Json.reordered_obj _ _).mp moved
    obtain rfl := Json.obj.inj same
    have found (key : Text) := Table.moved_get key _ _ order distinct.1
    obtain ⟨source, op, path, value⟩ := c.form_get
    obtain ⟨otherSource, otherOp, otherPath, otherValue⟩ := d.form_get
    have sources := source_name_injective (text_found _ _ _ _ _ source otherSource (found _))
    have ops := op_name_injective (text_found _ _ _ _ _ op otherOp (found _))
    have paths := text_found _ _ _ _ _ path otherPath (found _)
    have values := found "value"
    rw [value, otherValue] at values
    refine ⟨?_, by rw [← sources, ← ops, ← paths]⟩
    cases here : c.value.isNull <;> cases there : d.value.isNull <;> rw [here, there] at values <;> cases values
    · assumption
    · rw [Json.is_null_eq _ here, Json.is_null_eq _ there]
      exact .same _
  · intro moved
    have other : d.fields = { c with value := d.value }.fields := congrArg fields moved.rest
    have each : Table.Moved Json.Reordered c.fields d.fields := by
      refine ⟨d.fields, ?_, .rfl⟩
      rw [other]
      exact .cons ⟨rfl, .same _⟩ (.cons ⟨rfl, .same _⟩ (.cons ⟨rfl, .same _⟩ (.cons ⟨rfl, moved.value⟩ .nil)))
    refine (Json.reordered_obj _ _).mpr ⟨_, rfl, Table.moved_filter _ _ _ _ each fun a b own => ?_⟩
    rw [Json.reordered_is_null _ _ own.2]

end

end Condition

namespace Edge

section

variable (a b : Edge) (exactA : ∀ c ∈ a.condition, c.value.Exact) (exactB : ∀ c ∈ b.condition, c.value.Exact)
  (s t : Text) (first : a.conditionText = .ok s) (second : b.conditionText = .ok t)

include exactA exactB first second

theorem condition_text_iff : s = t ↔ Option.Rel Condition.Reordered a.condition b.condition := by
  have filled (e : Edge) (c : Condition) (given : e.condition = some c) : e.conditionText ≠ .ok [] := fun empty => by
    obtain ⟨_, written⟩ := (e.condition_text_eq_ok c given []).mp empty
    obtain ⟨_, _, object⟩ := Json.write_object _ _ written
    cases object
  cases here : a.condition with
  | none =>
      obtain rfl : [] = s := by simpa [conditionText, here] using first
      cases there : b.condition with
      | none =>
          obtain rfl : [] = t := by simpa [conditionText, there] using second
          exact ⟨fun _ => .none, fun _ => rfl⟩
      | some d => exact ⟨fun same => absurd (same ▸ second) (filled b d there), fun related => by cases related⟩
  | some c =>
      cases there : b.condition with
      | none =>
          obtain rfl : [] = t := by simpa [conditionText, there] using second
          exact ⟨fun same => absurd (same ▸ first) (filled a c here), fun related => by cases related⟩
      | some d =>
          have own := exactA c here
          have other := exactB d there
          obtain ⟨_, written⟩ := (a.condition_text_eq_ok c here s).mp first
          obtain ⟨_, also⟩ := (b.condition_text_eq_ok d there t).mp second
          rw [Json.exact_text_iff _ _ (c.form_exact own) (d.form_exact other) s t written also,
            c.form_reordered_iff d own other]
          refine ⟨.some, fun related => ?_⟩
          cases related with
          | some moved => exact moved

theorem same_iff_reordered : a.Same b ↔ a.Reordered b := by
  have texts := condition_text_iff a b exactA exactB s t first second
  constructor
  · rintro ⟨key, here, there⟩
    obtain ⟨source, target⟩ := same_ends a b key here there
    obtain ⟨_, own, rfl⟩ := (a.sort_key_eq_ok key).mp here
    obtain ⟨_, other, keys⟩ := (b.sort_key_eq_ok _).mp there
    obtain rfl := Except.ok.inj (first.symm.trans own)
    obtain rfl := Except.ok.inj (second.symm.trans other)
    have same : t = s := by simpa [source, target] using keys
    exact ⟨texts.mp same.symm, by rw [source, target]⟩
  · intro moved
    obtain rfl := texts.mpr moved.condition
    have ends : b.source = a.source ∧ b.target = a.target := by rw [moved.rest]; exact ⟨rfl, rfl⟩
    refine ⟨_, (a.sort_key_eq_ok _).mpr ⟨s, first, rfl⟩, (b.sort_key_eq_ok _).mpr ⟨s, second, ?_⟩⟩
    rw [ends.1, ends.2]

end

theorem same_joined (kept a b : Edge) (first : kept.Same a) (second : kept.Same b) : a.Same b := by
  obtain ⟨key, own, here⟩ := first
  obtain ⟨_, other, there⟩ := second
  obtain rfl := Except.ok.inj (own.symm.trans other)
  exact ⟨key, here, there⟩

theorem not_before_same (a b : Edge) (same : a.Same b) : ¬ a.Before b := by
  rintro ⟨_, _, own, other, less⟩
  obtain ⟨key, here, there⟩ := same
  obtain rfl := Except.ok.inj (here.symm.trans own)
  obtain rfl := Except.ok.inj (there.symm.trans other)
  exact lt_irrefl _ less

theorem in_order_once (edges : List Edge) (inOrder : InOrder edges) (a b : Edge) (first : a ∈ edges) (second : b ∈ edges)
    (same : a.Same b) : a = b := by
  have ascending := List.pairwise_iff_getElem.mp inOrder.ascending
  obtain ⟨i, inside, rfl⟩ := List.mem_iff_getElem.mp first
  obtain ⟨j, also, rfl⟩ := List.mem_iff_getElem.mp second
  rcases lt_trichotomy i j with less | rfl | greater
  · exact absurd (ascending i j inside also less) (not_before_same _ _ same)
  · rfl
  · exact absurd (ascending j i also inside greater) (not_before_same _ _ (same_symm _ _ same))

end Edge

theorem edges_merged_exactly (edges : List Edge) (canonical : ∀ e ∈ edges, ∃ text, e.conditionText = .ok text)
    (exact : ∀ e ∈ edges, ∀ c ∈ e.condition, c.value.Exact) :
    ∃ ordered, Edge.canonicalOrder edges = .ok ordered ∧
      (∀ e ∈ ordered, e ∈ edges) ∧ ordered.Pairwise Edge.Before ∧
      (∀ e ∈ edges, ∃! kept, kept ∈ ordered ∧ kept.Same e) ∧
      ∀ a ∈ edges, ∀ b ∈ edges, (∃ kept ∈ ordered, kept.Same a ∧ kept.Same b) ↔ a.Reordered b := by
  obtain ⟨ordered, done⟩ := (Edge.ordered_iff edges).mpr canonical
  obtain ⟨given, represented⟩ := Edge.ordered_members edges ordered done
  have inOrder := Edge.ordered_in_order edges ordered done
  refine ⟨ordered, done, given, inOrder.ascending, fun e member => ?_, fun a first b second => ?_⟩
  · obtain ⟨kept, chosen, same⟩ := represented e member
    refine ⟨kept, ⟨chosen, same⟩, fun other ⟨also, alike⟩ => ?_⟩
    have joined := Edge.same_joined e other kept (Edge.same_symm _ _ alike) (Edge.same_symm _ _ same)
    exact Edge.in_order_once ordered inOrder other kept also chosen joined
  · obtain ⟨s, own⟩ := canonical a first
    obtain ⟨t, other⟩ := canonical b second
    rw [← Edge.same_iff_reordered a b (exact a first) (exact b second) s t own other]
    constructor
    · rintro ⟨kept, _, here, there⟩
      exact Edge.same_joined kept a b here there
    · intro same
      obtain ⟨kept, chosen, here⟩ := represented a first
      exact ⟨kept, chosen, here, Edge.same_joined a kept b (Edge.same_symm _ _ here) same⟩

namespace Sample

def pairOf (first second : Text) (one two : Int) : Json := .obj [(first, .int one), (second, .int two)]

def branches : List Edge :=
  [answered (pairOf "b" "a" 1 2), always, answered (pairOf "a" "b" 2 1), answered (.bool true), answered (.int 1)]

theorem branches_canonical : ∀ e ∈ branches, ∃ text, e.conditionText = .ok text := by
  have each : branches.all (fun e => e.conditionText.toBool) = true := by decide +kernel
  intro e member
  have written := List.all_eq_true.mp each e member
  cases outcome : e.conditionText with
  | ok text => exact ⟨text, rfl⟩
  | error failure => simp [outcome, Except.toBool] at written

theorem branches_exact : ∀ e ∈ branches, ∀ c ∈ e.condition, c.value.Exact := by
  have own (value : Json) (exact : value.Exact) : ∀ c ∈ (answered value).condition, c.value.Exact :=
    fun c given => Option.some.inj given ▸ exact
  have pair (first second : Text) (one two : Int) (apart : first ≠ second)
      (clean : first.hasSurrogate = false ∧ second.hasSurrogate = false) : (pairOf first second one two).Exact :=
    ⟨by simpa [Table.keys] using apart, ⟨clean.1, trivial⟩, ⟨clean.2, trivial⟩, trivial⟩
  simp only [branches, List.forall_mem_cons]
  have free : ∀ c ∈ always.condition, c.value.Exact := fun c given => by cases given
  exact ⟨own _ (pair _ _ 1 2 (by decide) (by decide)), free, own _ (pair _ _ 2 1 (by decide) (by decide)), own _ trivial,
    own _ trivial, List.forall_mem_nil _⟩

theorem pair_reordered (first second : Text) (one two : Int) :
    (answered (pairOf first second one two)).Reordered (answered (pairOf second first two one)) := by
  have order : Table.Moved Json.Reordered [(first, Json.int one), (second, .int two)] [(second, .int two), (first, .int one)] :=
    ⟨_, List.forall₂_same.mpr fun _ _ => ⟨rfl, .same _⟩, .swap _ _ _⟩
  exact ⟨.some ⟨(Json.reordered_obj _ _).mpr ⟨_, rfl, order⟩, rfl⟩, rfl⟩

def loneEdge (key : Nat) : Edge := answered (.obj [([CodePoint.ofNat key], .int 1)])

end Sample

theorem sample_edges_merged : ∃ ordered, Edge.canonicalOrder Sample.branches = .ok ordered ∧
    (∃ kept ∈ ordered, kept.Same (Sample.answered (Sample.pairOf "b" "a" 1 2)) ∧
      kept.Same (Sample.answered (Sample.pairOf "a" "b" 2 1))) ∧
    ¬ ∃ kept ∈ ordered, kept.Same (Sample.answered (.bool true)) ∧ kept.Same (Sample.answered (.int 1)) := by
  obtain ⟨ordered, done, _, _, _, merged⟩ :=
    edges_merged_exactly Sample.branches Sample.branches_canonical Sample.branches_exact
  refine ⟨ordered, done, (merged _ (by simp [Sample.branches]) _ (by simp [Sample.branches])).mpr ?_, fun both => ?_⟩
  · exact Sample.pair_reordered "b" "a" 1 2
  · have moved := (merged _ (by simp [Sample.branches]) _ (by simp [Sample.branches])).mp both
    cases moved.condition with
    | some own => cases own.value

theorem sample_lone_conditions_merged :
    (∀ key, (Json.obj [([CodePoint.ofNat key], .int 1)]).Regular fun _ => False) ∧
    Edge.canonicalOrder [Sample.loneEdge 0xD800, Sample.loneEdge 0xDFFF] = .ok [Sample.loneEdge 0xD800] ∧
    ¬ (Sample.loneEdge 0xD800).Reordered (Sample.loneEdge 0xDFFF) := by
  refine ⟨fun key => ⟨List.nodup_singleton _, trivial, trivial⟩, rfl, fun moved => ?_⟩
  cases moved.condition with
  | some own =>
      obtain ⟨_, same, order⟩ := (Json.reordered_obj _ _).mp own.value
      obtain rfl := Json.obj.inj same
      exact absurd (Table.moved_keys _ _ order) (by decide)

end PlanFlow
