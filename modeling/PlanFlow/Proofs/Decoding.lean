import PlanFlow.Proofs.Quoting
import PlanFlow.Proofs.Decimal
import PlanFlow.Proofs.Passage

/-!
Canonical text decodes back. Whole numbers, texts and names are read as what they were written for, and lists and
objects part by part, so a value is read from its canonical text with the members of every object in the order of their
keys, and its floating-point numbers as what their texts spell.
-/

set_option autoImplicit false

namespace PlanFlow

namespace Json

open Canonical (write writeItems writeFields joinMembers enclose escape memberKey)

def Opens (t : Text) : Prop := ∃ c rest, t = c :: rest ∧ isGap c = false ∧ c ≠ ']' ∧ c ≠ '\x7d'

theorem skip_gap_opens (t rest : Text) (opens : Opens t) : skipGap (t ++ rest) = t ++ rest := by
  obtain ⟨c, more, rfl, solid, _⟩ := opens
  simp [skipGap, solid]

structure Spells (written : Text) (value : Json) : Prop where
  opens : Opens written
  reads : ∀ fuel rest, 2 * written.length < fuel → Ends rest → readValue fuel (written ++ rest) = .ok (value, rest)

theorem ends_mark (mark : Char) (rest : Text) (apart : CodePoint.isDigit mark = false)
    (plain : (mark : CodePoint) ≠ '.' ∧ (mark : CodePoint) ≠ 'e' ∧ (mark : CodePoint) ≠ 'E') :
    Ends ((mark : CodePoint) :: rest) := by
  intro c head
  obtain rfl := Option.some.inj head
  exact ⟨apart, plain⟩

theorem skip_gap_solid (c : CodePoint) (rest : Text) (solid : isGap c = false) : skipGap (c :: rest) = c :: rest := by
  simp [skipGap, solid]

section

variable {α : Type} (close : Char) (item : α) (more : Text → Read (List α))

theorem read_behind_close (rest : Text) (solid : isGap close = false) :
    readBehind close item more ((close : CodePoint) :: rest) = .ok ([item], rest) := by
  rw [readBehind, skip_gap_solid _ rest solid]
  simp

theorem read_behind_comma (others rest : Text) (items : List α) (apart : (',' : CodePoint) ≠ close)
    (opens : Opens others) (found : more (others ++ (close : CodePoint) :: rest) = .ok (items, rest)) :
    readBehind close item more ((',' : CodePoint) :: (others ++ (close : CodePoint) :: rest)) = .ok (item :: items, rest) := by
  rw [readBehind, skip_gap_solid _ _ (by decide)]
  simp only [apart, if_false, if_true, skip_gap_opens others _ opens, found]

end

theorem join_cons (part next : Text) (others : List Text) :
    Text.join "," (part :: next :: others) = part ++ ((',' : CodePoint) :: Text.join "," (next :: others)) := by
  rw [Text.join, List.append_assoc]
  · rfl
  · exact List.cons_ne_nil next others

theorem join_opens (part : Text) (others : List Text) (opens : Opens part) : Opens (Text.join "," (part :: others)) := by
  cases others with
  | nil => exact opens
  | cons next others =>
      obtain ⟨c, more, rfl, solid, apart⟩ := opens
      exact ⟨c, _, join_cons _ next others, solid, apart⟩

-- Parts that are joined by commas are read one by one up to the closing mark. The induction is on the parts; a part
-- and its comma pay for the fuel of one round.
theorem read_joined {α : Type} (close : Char) (apart : (',' : CodePoint) ≠ close) (solid : isGap close = false)
    (ends : ∀ rest, Ends ((close : CodePoint) :: rest)) (readAll : Nat → Text → Read (List α)) (Part : Text → α → Prop)
    (opens : ∀ part item, Part part item → Opens part)
    (step : ∀ fuel part item rest, Part part item → 2 * part.length < fuel → Ends rest →
      readAll (fuel + 1) (part ++ rest) = readBehind close item (readAll fuel) rest)
    (parts : List Text) (items : List α) (each : List.Forall₂ Part parts items) (nonempty : parts ≠ [])
    (fuel : Nat) (rest : Text) (enough : 2 * (Text.join "," parts).length + 1 < fuel) :
    readAll fuel (Text.join "," parts ++ (close : CodePoint) :: rest) = .ok (items, rest) := by
  induction each generalizing fuel with
  | nil => exact absurd rfl nonempty
  | @cons part item others found first remaining ih =>
      obtain ⟨fuel, rfl⟩ : ∃ left, fuel = left + 1 := ⟨fuel - 1, by omega⟩
      cases remaining with
      | nil =>
          rw [Text.join] at enough ⊢
          rw [step fuel part item _ first (by omega) (ends rest), read_behind_close close item _ rest solid]
      | @cons next second behind _ opening remaining =>
          rw [join_cons] at enough ⊢
          simp only [List.length_append, List.length_cons] at enough
          have inner := ih (List.cons_ne_nil _ _) fuel (by omega)
          rw [List.append_assoc, List.cons_append,
            step fuel part item _ first (by omega) (ends_mark ',' _ (by decide) (by decide))]
          exact read_behind_comma close item _ _ rest _ apart (join_opens next behind (opens next second opening)) inner

theorem spells_name (name : Text) (value : Json) (opens : Opens name)
    (plain : name.head? ≠ some ('"' : CodePoint) ∧ name.head? ≠ some ('[' : CodePoint) ∧
      name.head? ≠ some ('\x7b' : CodePoint))
    (named : ∀ rest, readWord (name ++ rest) = some (value, rest)) : Spells name value := by
  refine ⟨opens, fun fuel rest enough _ => ?_⟩
  obtain ⟨c, more, rfl, _⟩ := opens
  obtain ⟨fuel, rfl⟩ : ∃ left, fuel = left + 1 := ⟨fuel - 1, by omega⟩
  obtain ⟨quote, list, object⟩ := plain
  have found := named rest
  rw [List.cons_append] at found ⊢
  have apart (mark : CodePoint) (other : (c :: more).head? ≠ some mark) : c ≠ mark := fun same => other (congrArg some same)
  rw [readValue, if_neg (apart _ quote), if_neg (apart _ list), if_neg (apart _ object), found]

theorem spells_null : Spells "null" .null :=
  spells_name "null" .null ⟨_, _, rfl, by decide⟩ (by decide) fun _ => rfl

theorem spells_bool (value : Bool) : ∃ t, write (.bool value) = .ok t ∧ Spells t (.bool value) := by
  cases value with
  | false => exact ⟨"false", rfl, spells_name "false" _ ⟨_, _, rfl, by decide⟩ (by decide) fun _ => rfl⟩
  | true => exact ⟨"true", rfl, spells_name "true" _ ⟨_, _, rfl, by decide⟩ (by decide) fun _ => rfl⟩

theorem numeral_of_nat (n : Nat) : Numeral (Decimal.ofNat n) where
  nonempty := Decimal.of_nat_ne_nil n
  each := Decimal.digit_of_mem n
  lead := by
    intro zero
    rcases Nat.eq_zero_or_pos n with rfl | positive
    · exact Decimal.of_zero
    · exact absurd zero (Decimal.lead_of_positive n positive)

theorem safe_short (n : Nat) (safe : (n : Int) ≤ Canonical.safeLimit) : ¬ (Decimal.ofNat n).length > Decimal.digitLimit := by
  have below : n < 10 ^ 16 := by
    simp only [Canonical.safeLimit] at safe
    omega
  have short := (Decimal.length_le_iff n 16 (by decide)).mpr below
  simp only [Decimal.digitLimit]
  omega

theorem spells_signed (negative : Bool) (body : Text) (value : Json) (c : CodePoint) (starts : body.head? = some c)
    (digit : CodePoint.isDigit c = true)
    (reads : ∀ t rest, Ends rest → readUnsigned t negative (body ++ rest) = .ok (value, rest)) :
    Spells ((if negative then ("-" : Text) else []) ++ body) value := by
  obtain ⟨more, rfl⟩ := List.head?_eq_some_iff.mp starts
  have apart (mark : Char) := digit_ne c digit mark
  cases negative with
  | false =>
      refine ⟨⟨c, more, rfl, ?_, apart ']' (by decide), apart '\x7d' (by decide)⟩, fun fuel rest enough ends => ?_⟩
      · simp [isGap, apart ' ' (by decide), apart '\t' (by decide), apart '\n' (by decide), apart '\r' (by decide)]
      · obtain ⟨fuel, rfl⟩ : ∃ left, fuel = left + 1 := ⟨fuel - 1, by omega⟩
        exact (read_value_digit fuel c _ digit).trans (reads _ rest ends)
  | true =>
      refine ⟨⟨_, _, rfl, by decide⟩, fun fuel rest enough ends => ?_⟩
      obtain ⟨fuel, rfl⟩ : ∃ left, fuel = left + 1 := ⟨fuel - 1, by omega⟩
      have unnamed : readWord (('-' : CodePoint) :: (c :: more ++ rest)) = none :=
        read_word_digit _ 1 c (by decide) rfl digit
      have given : ((if true then ("-" : Text) else []) ++ c :: more) ++ rest = ('-' : CodePoint) :: (c :: more ++ rest) := rfl
      rw [given, readValue, if_neg (by decide), if_neg (by decide), if_neg (by decide), unnamed]
      exact (read_number_negative _).trans (reads _ rest ends)

theorem spells_whole (negative : Bool) (n : Nat) (short : ¬ (Decimal.ofNat n).length > Decimal.digitLimit) :
    Spells ((if negative then ("-" : Text) else []) ++ Decimal.ofNat n) (.int (signed negative n)) := by
  obtain ⟨c, more, digits⟩ := List.exists_cons_of_ne_nil (Decimal.of_nat_ne_nil n)
  have digit := Decimal.digit_of_mem n c (digits ▸ List.mem_cons_self)
  refine spells_signed negative _ _ c (by rw [digits]; rfl) digit fun t rest ends => ?_
  rw [read_unsigned_numeral t _ rest negative (numeral_of_nat n) ends, if_neg short, Decimal.value_of_nat]

theorem spells_int (n : Int) (t : Text) (written : write (.int n) = .ok t) : Spells t (.int n) := by
  by_cases safe : -Canonical.safeLimit ≤ n ∧ n ≤ Canonical.safeLimit
  · rw [write, Canonical.ofInt, if_pos (by simpa using safe), Except.ok.injEq] at written
    subst written
    cases n with
    | ofNat n => exact spells_whole false n (safe_short n safe.2)
    | negSucc n => exact spells_whole true (n + 1) (safe_short (n + 1) (by have := safe.1; omega))
  · rw [write, Canonical.ofInt, if_neg (by simpa using safe)] at written
    cases written

theorem escape_append (t rest : Text) :
    escape t ++ rest = ('"' : CodePoint) :: (t.flatMap Canonical.escapeOne ++ ('"' : CodePoint) :: rest) := by
  simp only [escape, List.append_assoc]
  rfl

theorem spells_text (value : Text) : Spells (escape value) (.str value) := by
  refine ⟨⟨_, _, rfl, by decide⟩, fun fuel rest enough _ => ?_⟩
  obtain ⟨fuel, rfl⟩ : ∃ left, fuel = left + 1 := ⟨fuel - 1, by omega⟩
  rw [escape_append, readValue, if_pos rfl, read_text_written]

theorem sort_members_map {α β : Type} (f : α → β) (fields : List (Text × α)) :
    sortOn memberKey (fields.map fun entry => (entry.1, f entry.2)) =
      (sortOn memberKey fields).map fun entry => (entry.1, f entry.2) :=
  sort_on_map memberKey memberKey (fun entry => (entry.1, f entry.2)) (fun _ => rfl) fields

theorem spells_items (w : Passage) (items : List Json)
    (each : ∀ item ∈ items, ∀ t, write item = .ok t → Spells t (item.recast w)) (parts : List Text)
    (written : writeItems items = .ok parts) : List.Forall₂ Spells parts (items.map (recast w)) := by
  rw [Canonical.write_items_eq, map_m_eq_ok] at written
  have inside := (List.forall₂_and_left _ _).mpr ⟨each, written⟩
  rw [List.forall₂_map_right_iff]
  exact inside.flip.imp fun text item ⟨spells, own⟩ => spells text own

def Member (part : Text) (entry : Text × Json) : Prop :=
  ∃ t, part = escape entry.1 ++ (":" : Text) ++ t ∧ Spells t entry.2

theorem join_members_spell (w : Passage) (fields : List (Text × Json))
    (each : ∀ entry ∈ fields, ∀ t, write entry.2 = .ok t → Spells t (entry.2.recast w)) (parts : List Text)
    (written : joinMembers (fields.map fun entry => (entry.1, write entry.2)) = .ok parts) :
    List.Forall₂ Member parts (fields.map fun entry => (entry.1, entry.2.recast w)) := by
  rw [Canonical.join_members_eq, map_m_eq_ok, List.forall₂_map_left_iff] at written
  have inside := (List.forall₂_and_left _ _).mpr ⟨each, written⟩
  rw [List.forall₂_map_right_iff]
  refine inside.flip.imp fun part entry ⟨spells, own⟩ => ?_
  obtain ⟨text, one, rfl⟩ := (map_eq_ok _ _ _).mp own
  exact ⟨text, rfl, spells text one⟩

theorem member_append (key value rest : Text) : escape key ++ (":" : Text) ++ value ++ rest =
    ('"' : CodePoint) :: (key.flatMap Canonical.escapeOne ++ ('"' : CodePoint) :: (':' : CodePoint) :: (value ++ rest)) := by
  rw [List.append_assoc, List.append_assoc, escape_append]
  rfl

theorem member_opens (part : Text) (entry : Text × Json) (member : Member part entry) : Opens part := by
  obtain ⟨t, rfl, _⟩ := member
  exact ⟨_, _, rfl, by decide⟩

theorem read_items_part (fuel : Nat) (part : Text) (item : Json) (rest : Text) (spelled : Spells part item)
    (enough : 2 * part.length < fuel) (ends : Ends rest) :
    readItems (fuel + 1) (part ++ rest) = readBehind ']' item (readItems fuel) rest :=
  read_items_value fuel _ rest item (spelled.reads fuel rest enough ends)

theorem read_members_part (fuel : Nat) (part : Text) (entry : Text × Json) (rest : Text) (member : Member part entry)
    (enough : 2 * part.length < fuel) (ends : Ends rest) :
    readMembers (fuel + 1) (part ++ rest) = readBehind '\x7d' entry (readMembers fuel) rest := by
  obtain ⟨t, rfl, spelled⟩ := member
  simp only [List.length_append] at enough
  have value := spelled.reads fuel rest (by omega) ends
  rw [← skip_gap_opens t rest spelled.opens] at value
  rw [member_append]
  exact read_members_value fuel _ _ (t ++ rest) rest entry.1 entry.2 (read_text_written _ entry.1 _)
    (skip_gap_solid _ _ (by decide)) value

theorem read_opened_joined {α : Type} (expected : Fault) (close : Char) (mark : close = ']' ∨ close = '\x7d')
    (make : List α → Json) (readAll : Nat → Text → Read (List α)) (Part : Text → α → Prop)
    (opens : ∀ part item, Part part item → Opens part)
    (step : ∀ fuel part item rest, Part part item → 2 * part.length < fuel → Ends rest →
      readAll (fuel + 1) (part ++ rest) = readBehind close item (readAll fuel) rest)
    (parts : List Text) (items : List α) (each : List.Forall₂ Part parts items) (fuel : Nat) (rest : Text)
    (enough : 2 * (Text.join "," parts).length + 1 < fuel) :
    readOpened expected close make (readAll fuel) (Text.join "," parts ++ (close : CodePoint) :: rest) =
      .ok (make items, rest) := by
  have solid : isGap close = false := by rcases mark with rfl | rfl <;> rfl
  cases each with
  | nil =>
      rw [Text.join, List.nil_append, readOpened, skip_gap_solid _ rest solid]
      exact if_pos rfl
  | @cons part item others found first remaining =>
      have comma : (',' : CodePoint) ≠ close := by rcases mark with rfl | rfl <;> decide
      have ends (rest : Text) : Ends ((close : CodePoint) :: rest) := by
        rcases mark with rfl | rfl
        · exact ends_mark ']' rest (by decide) (by decide)
        · exact ends_mark '\x7d' rest (by decide) (by decide)
      have inside := read_joined close comma solid ends readAll Part opens step _ _ (.cons first remaining)
        (List.cons_ne_nil _ _) fuel rest enough
      obtain ⟨c, more, starts, gapless, list, object⟩ := join_opens part others (opens part item first)
      have apart : c ≠ (close : CodePoint) := by rcases mark with rfl | rfl <;> assumption
      rw [starts, List.cons_append] at inside ⊢
      rw [readOpened, skip_gap_solid c _ gapless]
      simp only [apart, if_false, inside]

theorem spells_list (parts : List Text) (items : List Json) (each : List.Forall₂ Spells parts items) :
    Spells (('[' : CodePoint) :: (Text.join "," parts ++ [(']' : CodePoint)])) (.arr items) := by
  refine ⟨⟨_, _, rfl, by decide⟩, fun fuel rest enough _ => ?_⟩
  obtain ⟨fuel, rfl⟩ : ∃ left, fuel = left + 1 := ⟨fuel - 1, by omega⟩
  simp only [List.length_cons, List.length_append, List.length_nil] at enough
  rw [List.cons_append, List.append_assoc, read_value_list]
  exact read_opened_joined _ ']' (.inl rfl) .arr readItems Spells (fun _ _ spelled => spelled.opens) read_items_part
    parts items each fuel rest (by omega)

theorem spells_object (parts : List Text) (fields : List (Text × Json)) (each : List.Forall₂ Member parts fields)
    (distinct : (Table.keys fields).Nodup) :
    Spells (('\x7b' : CodePoint) :: (Text.join "," parts ++ [('\x7d' : CodePoint)])) (.obj fields) := by
  refine ⟨⟨_, _, rfl, by decide⟩, fun fuel rest enough _ => ?_⟩
  obtain ⟨fuel, rfl⟩ : ∃ left, fuel = left + 1 := ⟨fuel - 1, by omega⟩
  simp only [List.length_cons, List.length_append, List.length_nil] at enough
  have members := read_opened_joined .expectedKey '\x7d' (.inr rfl) (fun members => .obj (Table.ofPairs members)) readMembers
    Member member_opens read_members_part parts fields each fuel rest (by omega)
  rw [Table.of_pairs_distinct fields distinct] at members
  rw [List.cons_append, List.append_assoc, read_value_object]
  exact members

theorem write_object (fields : List (Text × Json)) (t : Text) (written : write (.obj fields) = .ok t) :
    ∃ parts, joinMembers ((sortOn memberKey fields).map fun entry => (entry.1, write entry.2)) = .ok parts ∧
      t = ('\x7b' : CodePoint) :: (Text.join "," parts ++ [('\x7d' : CodePoint)]) := by
  cases placed : (Table.keys fields).find? Text.hasSurrogate with
  | some key => simp [write, placed] at written
  | none =>
      cases joined : joinMembers (sortOn memberKey (writeFields fields)) with
      | error fault => simp [write, placed, joined, enclose] at written
      | ok parts =>
          simp only [write, placed, joined, enclose, Except.ok.injEq] at written
          rw [write_fields_map, sort_members_map] at joined
          exact ⟨parts, joined, written.symm⟩

structure Passage.ThroughText (w : Passage) : Prop where
  arrange : ∀ {α : Type} (fields : List (Text × α)), w.arrange fields = sortOn memberKey fields
  spelled : ∀ x, w.carries x → Spells (Binary64.render Canonical.layout x) (w.number x)

section

variable (w : Passage) (through : w.ThroughText)

include through

-- What is written for a value spells what it is received as. The induction is on its parts.
theorem write_spells (value : Json) (regular : value.Regular w.carries) (t : Text) (written : write value = .ok t) :
    Spells t (value.recast w) := by
  induction value using by_parts generalizing t with
  | null => exact Except.ok.inj written ▸ spells_null
  | bool flag =>
      obtain ⟨name, named, spelled⟩ := spells_bool flag
      rw [named] at written
      exact Except.ok.inj written ▸ spelled
  | int n => exact spells_int n t written
  | float x =>
      rw [write, Canonical.ofFloat, if_pos (w.finite x regular), Except.ok.injEq] at written
      exact written ▸ through.spelled x regular
  | str value =>
      by_cases lone : value.hasSurrogate = true
      · simp [write, Canonical.ofText, lone] at written
      · rw [write, Canonical.ofText, if_neg lone, Except.ok.injEq] at written
        exact written ▸ spells_text value
  | arr items ih =>
      have each := (regular_items_iff _ items).mp regular
      cases parts : writeItems items with
      | error fault => simp [write, parts, enclose] at written
      | ok texts =>
          rw [write, parts, enclose, Except.ok.injEq] at written
          rw [recast_arr, ← written]
          exact spells_list texts _ (spells_items w items (fun item member => ih item member (each item member)) texts parts)
  | obj fields ih =>
      obtain ⟨distinct, fields_regular⟩ := regular
      have each := (regular_fields_iff _ fields).mp fields_regular
      have inside : ∀ entry ∈ sortOn memberKey fields, ∀ t, write entry.2 = .ok t → Spells t (entry.2.recast w) := by
        intro entry member
        have given := (mem_sort_on _ _ _).mp member
        exact ih entry given (each entry given)
      have apart : (Table.keys (sortOn memberKey fields)).Nodup :=
        ((sort_on_perm memberKey fields).map Prod.fst).nodup_iff.mpr distinct
      obtain ⟨parts, joined, rfl⟩ := write_object fields t written
      rw [recast_obj, through.arrange, sort_members_map]
      exact spells_object parts _ (join_members_spell w _ inside parts joined) (by rwa [Table.keys_map])

theorem read_written (value : Json) (regular : value.Regular w.carries) (t : Text) (written : write value = .ok t) :
    read t = .ok (value.recast w) := by
  have spelled := write_spells w through value regular t written
  have solid := skip_gap_opens t [] spelled.opens
  have found := spelled.reads (2 * t.length + 2) [] (by omega) ends_nil
  rw [List.append_nil] at solid found
  simp only [read, solid, found]
  rfl

theorem read_unmarked_written (fields : List (Text × Json)) (regular : (obj fields).Regular w.carries) (t : Text)
    (written : write (.obj fields) = .ok t) : readUnmarked t = .ok ((obj fields).recast w) := by
  have found := read_written w through (.obj fields) regular t written
  obtain ⟨parts, _, rfl⟩ := write_object fields t written
  exact found

end

end Json

end PlanFlow
