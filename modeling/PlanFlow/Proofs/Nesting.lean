import PlanFlow.Proofs.Decimal
import PlanFlow.Proofs.Numerals
import PlanFlow.Proofs.Orderly

/-!
How deep JSON text is nested, and what that says about the value it is read as: the value has no more levels than the text,
and no whole number in it is beyond the limit of digits.
-/

set_option autoImplicit false

namespace PlanFlow

namespace Text

-- Where a place in a text is: outside of quotes, between them, or there behind a backslash.
inductive Scan where
  | outside
  | quoted
  | escaped
deriving DecidableEq

def Scan.next : Scan → CodePoint → Scan
  | .outside, c => if c = '"' then .quoted else .outside
  | .quoted, c => if c = '"' then .outside else if c = '\\' then .escaped else .quoted
  | .escaped, _ => .quoted

def Scan.level (level : Nat) : Scan → CodePoint → Nat
  | .outside, c =>
      if c = '[' || c = '\x7b' then level + 1 else if c = ']' || c = '\x7d' then level - 1 else level
  | .quoted, _ | .escaped, _ => level

def deepest (scan : Scan) (level : Nat) : Text → Nat
  | [] => level
  | c :: rest => max level (deepest (scan.next c) (scan.level level c) rest)

def nesting (t : Text) : Nat := deepest .outside 0 t

theorem level_le_deepest (scan : Scan) (level : Nat) (t : Text) : level ≤ deepest scan level t := by
  cases t with
  | nil => exact Nat.le_refl level
  | cons c rest => exact Nat.le_max_left _ _

theorem deepest_cons (scan : Scan) (level : Nat) (c : CodePoint) (rest : Text) (rises : level ≤ scan.level level c) :
    deepest scan level (c :: rest) = deepest (scan.next c) (scan.level level c) rest :=
  Nat.max_eq_right (rises.trans (level_le_deepest _ _ rest))

theorem deepest_quoted (level : Nat) (c : CodePoint) (rest : Text) (quote : c ≠ '"') (backslash : c ≠ '\\') :
    deepest .quoted level (c :: rest) = deepest .quoted level rest := by
  rw [deepest_cons _ _ _ _ (Nat.le_refl level), Scan.next, if_neg quote, if_neg backslash, Scan.level]

theorem deepest_escape (level : Nat) (c : CodePoint) (rest : Text) :
    deepest .quoted level ('\\' :: c :: rest) = deepest .quoted level rest := by
  rw [deepest_cons _ _ _ _ (Nat.le_refl level)]
  exact deepest_cons .escaped level c rest (Nat.le_refl level)

theorem deepest_quote (level : Nat) (rest : Text) : deepest .outside level ('"' :: rest) = deepest .quoted level rest :=
  deepest_cons .outside level '"' rest (Nat.le_refl level)

theorem deepest_unquote (level : Nat) (rest : Text) : deepest .quoted level ('"' :: rest) = deepest .outside level rest :=
  deepest_cons .quoted level '"' rest (Nat.le_refl level)

theorem deepest_plain (level : Nat) (c : CodePoint) (rest : Text) (plain : CodePoint.isMark c = false) :
    deepest .outside level (c :: rest) = deepest .outside level rest := by
  simp only [CodePoint.isMark, Bool.or_eq_false_iff, decide_eq_false_iff_not] at plain
  obtain ⟨⟨⟨⟨quote, bracket⟩, ended⟩, brace⟩, closed⟩ := plain
  have stays : Scan.level level .outside c = level := by simp [Scan.level, bracket, brace, ended, closed]
  rw [deepest_cons _ _ _ _ stays.ge, stays, Scan.next, if_neg quote]

theorem deepest_passes (level : Nat) (t rest : Text) (passes : t.Passes rest) :
    deepest .outside level t = deepest .outside level rest := by
  obtain ⟨front, rfl, each⟩ := passes
  induction front with
  | nil => rfl
  | cons c front ih =>
      obtain ⟨plain, others⟩ := List.forall_mem_cons.mp each
      exact (deepest_plain level c _ plain).trans (ih others)

def Opens (c : CodePoint) : Prop := c = '[' ∨ c = '\x7b'

def Closes (c : CodePoint) : Prop := c = ']' ∨ c = '\x7d'

theorem deepest_opened (level : Nat) (c : CodePoint) (rest : Text) (opens : Opens c) :
    deepest .outside level (c :: rest) = deepest .outside (level + 1) rest := by
  rcases opens with rfl | rfl <;> exact deepest_cons .outside level _ rest (Nat.le_succ level)

theorem deepest_closed (level : Nat) (c : CodePoint) (rest : Text) (closes : Closes c) :
    deepest .outside level rest ≤ deepest .outside (level + 1) (c :: rest) := by
  rcases closes with rfl | rfl <;> exact Nat.le_max_right _ _

end Text

namespace Json

open Text (deepest Opens Closes level_le_deepest deepest_passes)

theorem skip_gap_passes (t : Text) : t.Passes (skipGap t) := by
  refine ⟨t.takeWhile isGap, List.takeWhile_append_dropWhile, fun c member => ?_⟩
  have gap := List.mem_takeWhile_imp member
  simp only [isGap, Bool.or_eq_true, decide_eq_true_eq] at gap
  rcases gap with ((rfl | rfl) | rfl) | rfl <;> rfl

theorem push_eq_ok (piece : Piece) (answer : Read (List Piece)) (pieces : List Piece) (rest : Text)
    (pushed : push piece answer = .ok (pieces, rest)) : ∃ others, answer = .ok (others, rest) := by
  cases answer with
  | error e => cases pushed
  | ok pair =>
      simp only [push, Except.ok.injEq, Prod.mk.injEq] at pushed
      exact ⟨pair.1, by rw [← pushed.2]⟩

theorem hex_digit_unquoted (c : CodePoint) (n : Nat) (known : hexDigit? c = some n) : c ≠ '"' ∧ c ≠ '\\' := by
  constructor <;> rintro rfl <;> cases known

theorem deepest_unit (level : Nat) (a b d e value : CodePoint) (rest : Text) (known : unit? a b d e = some value) :
    deepest .quoted level ('\\' :: 'u' :: a :: b :: d :: e :: rest) = deepest .quoted level rest := by
  simp only [unit?, Option.bind_eq_bind, Option.bind_eq_some_iff] at known
  obtain ⟨_, first, _, second, _, third, _, fourth, _⟩ := known
  have digit (c : CodePoint) (n : Nat) (hex : hexDigit? c = some n) (rest : Text) :=
    Text.deepest_quoted level c rest (hex_digit_unquoted c n hex).1 (hex_digit_unquoted c n hex).2
  rw [Text.deepest_escape, digit a _ first, digit b _ second, digit d _ third, digit e _ fourth]

theorem read_pieces_deepest (opening t : Text) (level : Nat) (pieces : List Piece) (rest : Text)
    (found : readPieces opening t = .ok (pieces, rest)) : deepest .quoted level t = deepest .outside level rest := by
  fun_induction readPieces opening t generalizing pieces with
  | case2 after =>
      obtain ⟨_, rfl⟩ := Prod.mk.inj (Except.ok.inj found)
      exact Text.deepest_unquote level after
  | case6 a b d e more _ value known _ ih =>
      obtain ⟨others, inner⟩ := push_eq_ok _ _ pieces rest found
      exact (deepest_unit level a b d e value more known).trans (ih others inner)
  | case8 letter after _ value _ _ ih =>
      obtain ⟨others, inner⟩ := push_eq_ok _ _ pieces rest found
      exact (Text.deepest_escape level letter after).trans (ih others inner)
  | case11 c after quote backslash _ ih =>
      obtain ⟨others, inner⟩ := push_eq_ok _ _ pieces rest found
      exact (Text.deepest_quoted level c after quote backslash).trans (ih others inner)
  | _ => cases found

theorem read_text_deepest (t key rest : Text) (level : Nat) (found : readText ('"' :: t) t = .ok (key, rest)) :
    deepest .outside level ('"' :: t) = deepest .outside level rest := by
  cases pieces : readPieces ('"' :: t) t with
  | error e => simp [readText, pieces] at found
  | ok pair =>
      simp only [readText, pieces, Except.ok.injEq, Prod.mk.injEq] at found
      obtain ⟨_, rfl⟩ := found
      exact (Text.deepest_quote level t).trans (read_pieces_deepest _ t level pair.1 pair.2 pieces)

structure Fits (before after : Nat) (t rest : Text) (values : List Json) : Prop where
  shallow : ∀ value ∈ values, before + value.depth ≤ deepest .outside before t
  printable : ∀ value ∈ values, value.printable = true
  left : deepest .outside after rest ≤ deepest .outside before t

-- What a reader reads fits, wherever it starts; where so many brackets are open already, it also reads the last that closes.
def ReadsFit {α : Type} (opened : Nat) (values : α → List Json) (read : Text → Read α) : Prop :=
  ∀ level t found rest, read t = .ok (found, rest) → Fits (level + opened) level t rest (values found)

theorem fits_earlier (before after : Nat) (t later rest : Text) (values : List Json)
    (behind : deepest .outside before later ≤ deepest .outside before t) (fits : Fits before after later rest values) :
    Fits before after t rest values where
  shallow value member := (fits.shallow value member).trans behind
  printable := fits.printable
  left := fits.left.trans behind

theorem fits_flat (level : Nat) (t rest : Text) (value : Json) (flat : value.depth = 0) (shown : value.printable = true)
    (left : deepest .outside level t = deepest .outside level rest) : Fits level level t rest [value] where
  shallow := by simpa [flat] using level_le_deepest .outside level t
  printable := by simpa using shown
  left := left.ge

section

variable {α : Type} (f : α → Json) (level : Nat)

theorem read_behind_fits (close : CodePoint) (closes : Closes close) (item : α) (more : Text → Read (List α))
    (each : ReadsFit 1 (List.map f) more) (t behind rest : Text) (first : Fits (level + 1) (level + 1) t behind [f item])
    (items : List α) (found : readBehind close item more behind = .ok (items, rest)) :
    Fits (level + 1) level t rest (items.map f) := by
  have skipped := deepest_passes (level + 1) behind _ (skip_gap_passes behind)
  rcases read_behind_eq_ok close item more behind rest items found with ⟨ended, rfl⟩ | ⟨after, others, comma, given, rfl⟩
  · rw [ended] at skipped
    exact ⟨first.shallow, first.printable, (Text.deepest_closed level close rest closes).trans (skipped ▸ first.left)⟩
  · rw [comma, Text.deepest_plain _ ',' after rfl, deepest_passes _ after _ (skip_gap_passes after)] at skipped
    have last := fits_earlier _ _ t _ _ _ (skipped ▸ first.left) (each level (skipGap after) others rest given)
    exact {
      shallow := List.forall_mem_cons.mpr ⟨first.shallow _ List.mem_cons_self, last.shallow⟩
      printable := List.forall_mem_cons.mpr ⟨first.printable _ List.mem_cons_self, last.printable⟩
      left := last.left }

theorem read_opened_fits (opening close : CodePoint) (opens : Opens opening) (closes : Closes close) (expected : Fault)
    (make : List α → Json)
    (made : ∀ items room, (∀ item ∈ items, (f item).depth ≤ room ∧ (f item).printable = true) →
      (make items).depth ≤ room + 1 ∧ (make items).printable = true)
    (held : Text → Read (List α)) (each : ReadsFit 1 (List.map f) held) (t rest : Text) (value : Json)
    (found : readOpened expected close make held t = .ok (value, rest)) : Fits level level (opening :: t) rest [value] := by
  have entered : deepest .outside level (opening :: t) = deepest .outside (level + 1) (skipGap t) := by
    rw [Text.deepest_opened level opening t opens, deepest_passes _ t _ (skip_gap_passes t)]
  have inside := level_le_deepest .outside (level + 1) (skipGap t)
  rcases read_opened_eq_ok expected close make held t rest value found with ⟨ended, rfl⟩ | ⟨items, given, rfl⟩
  · obtain ⟨flat, shown⟩ := made [] 0 (List.forall_mem_nil _)
    refine ⟨List.forall_mem_singleton.mpr ?_, List.forall_mem_singleton.mpr shown, ?_⟩
    · omega
    · exact entered ▸ ended ▸ Text.deepest_closed level close rest closes
  · have parts := each level (skipGap t) items rest given
    have room : ∀ item ∈ items, (f item).depth ≤ deepest .outside level (opening :: t) - (level + 1) ∧
        (f item).printable = true := by
      intro item member
      have shallow := parts.shallow (f item) (List.mem_map_of_mem member)
      exact ⟨by omega, parts.printable (f item) (List.mem_map_of_mem member)⟩
    obtain ⟨deep, shown⟩ := made items _ room
    refine ⟨List.forall_mem_singleton.mpr ?_, List.forall_mem_singleton.mpr shown, entered ▸ parts.left⟩
    omega

end

theorem read_unsigned_fits (t body rest : Text) (negative : Bool) (value : Json) (level : Nat) (passes : t.Passes body)
    (found : readUnsigned t negative body = .ok (value, rest)) : Fits level level t rest [value] := by
  cases split : readWhole body with
  | none => simp [readUnsigned, split] at found
  | some parts =>
      obtain ⟨digits, behind⟩ := parts
      obtain ⟨joined, each⟩ := read_whole_digits body digits behind split
      have whole : body.Passes behind := ⟨digits, joined, fun c member => CodePoint.digit_unmarked c (each c member)⟩
      have all := ((passes.trans whole).trans (read_fraction_passes behind)).trans (read_exponent_passes _)
      have left := deepest_passes level _ _ all
      simp only [readUnsigned, split] at found
      by_cases plain : ((readFraction behind).1.isNone && (readExponent (readFraction behind).2).1.isNone) = true
      · rw [if_pos plain] at found
        by_cases long : digits.length > Decimal.digitLimit
        · simp [long] at found
        · rw [if_neg long] at found
          obtain ⟨rfl, rfl⟩ := Prod.mk.inj (Except.ok.inj found)
          have size : (signed negative (Decimal.value digits)).natAbs = Decimal.value digits := by
            cases negative <;> simp [signed]
          have shown := Decimal.printable_of_digits digits each (Nat.le_of_not_lt long) _ size
          exact fits_flat level t _ _ rfl ((printable_iff _).mpr (List.forall_mem_singleton.mpr shown)) left
      · rw [if_neg plain] at found
        obtain ⟨rfl, rfl⟩ := Prod.mk.inj (Except.ok.inj found)
        exact fits_flat level t _ _ rfl rfl left

theorem read_number_fits (t rest : Text) (value : Json) (level : Nat) (found : readNumber t = .ok (value, rest)) :
    Fits level level t rest [value] := by
  by_cases negative : t.head? = some ('-' : CodePoint)
  · obtain ⟨body, rfl⟩ := List.head?_eq_some_iff.mp negative
    rw [read_number_negative] at found
    exact read_unsigned_fits _ body rest true value level (Text.passes_cons '-' body body rfl (Text.passes_rfl body)) found
  · rw [read_number_plain t negative] at found
    exact read_unsigned_fits t t rest false value level (Text.passes_rfl t) found

theorem read_word_fits (t rest : Text) (value : Json) (level : Nat) (found : readWord t = some (value, rest)) :
    Fits level level t rest [value] := by
  obtain ⟨entry, member, matched⟩ := List.exists_of_findSome?_eq_some found
  obtain ⟨_, _, same⟩ := Option.map_eq_some_iff.mp matched
  have flat : ∀ entry ∈ words, entry.2.depth = 0 ∧ entry.2.printable = true := by simp [words, depth, printable, wholes]
  obtain ⟨leaf, shown⟩ := flat entry member
  have named : entry.2 = value := congrArg Prod.fst same
  have left := deepest_passes level t rest (read_word_passes t rest value found)
  exact fits_flat level t rest value (named ▸ leaf) (named ▸ shown) left

theorem list_made (items : List Json) (room : Nat) (each : ∀ item ∈ items, item.depth ≤ room ∧ item.printable = true) :
    (arr items).depth ≤ room + 1 ∧ (arr items).printable = true := by
  refine ⟨Nat.succ_le_succ ((depth_items_iff items room).mpr fun item member => (each item member).1), ?_⟩
  refine (printable_iff _).mpr fun n held => ?_
  obtain ⟨item, member, inner⟩ := (mem_wholes_arr n items).mp held
  exact (printable_iff item).mp (each item member).2 n inner

theorem object_made (members : List (Text × Json)) (room : Nat)
    (each : ∀ entry ∈ members, entry.2.depth ≤ room ∧ entry.2.printable = true) :
    (obj (Table.ofPairs members)).depth ≤ room + 1 ∧ (obj (Table.ofPairs members)).printable = true := by
  have kept (entry : Text × Json) (member : entry ∈ Table.ofPairs members) :=
    each entry (Table.mem_of_pairs members entry member)
  refine ⟨Nat.succ_le_succ ((depth_fields_iff _ room).mpr fun entry member => (kept entry member).1), ?_⟩
  refine (printable_iff _).mpr fun n held => ?_
  obtain ⟨entry, member, inner⟩ := (mem_wholes_obj n _).mp held
  exact (printable_iff entry.2).mp (kept entry member).2 n inner

section

variable (fuel : Nat)

theorem read_value_fits_step (items : ReadsFit 1 (List.map id) (readItems fuel))
    (members : ReadsFit 1 (List.map Prod.snd) (readMembers fuel)) :
    ReadsFit 0 (fun value => [value]) (readValue (fuel + 1)) := by
  intro level t value rest found
  cases t with
  | nil => cases found
  | cons c tail =>
      by_cases quoted : c = '"'
      · subst quoted
        rw [readValue, if_pos rfl] at found
        cases one : readText ('"' :: tail) tail with
        | error e => simp [one] at found
        | ok pair =>
            simp only [one, Except.ok.injEq, Prod.mk.injEq] at found
            obtain ⟨rfl, rfl⟩ := found
            exact fits_flat level _ _ _ rfl rfl (read_text_deepest tail pair.1 pair.2 level one)
      by_cases list : c = '['
      · subst list
        rw [read_value_list] at found
        exact read_opened_fits id level '[' ']' (Or.inl rfl) (Or.inl rfl) _ .arr list_made _ items tail rest value found
      by_cases object : c = '\x7b'
      · subst object
        rw [read_value_object] at found
        exact read_opened_fits Prod.snd level '\x7b' '\x7d' (Or.inr rfl) (Or.inr rfl) _ _ object_made _ members tail rest
          value found
      rw [readValue, if_neg quoted, if_neg list, if_neg object] at found
      cases word : readWord (c :: tail) with
      | some pair =>
          rw [word] at found
          obtain rfl := Except.ok.inj found
          exact read_word_fits _ rest value level word
      | none =>
          rw [word] at found
          exact read_number_fits _ rest value level found

variable (values : ReadsFit 0 (fun value => [value]) (readValue fuel))

include values

theorem read_items_fits_step (items : ReadsFit 1 (List.map id) (readItems fuel)) :
    ReadsFit 1 (List.map id) (readItems (fuel + 1)) := by
  intro level t found rest read
  cases one : readValue fuel t with
  | error e => simp [readItems, one] at read
  | ok pair =>
      rw [read_items_value fuel t pair.2 pair.1 one] at read
      have first := values (level + 1) t pair.1 pair.2 one
      exact read_behind_fits id level ']' (Or.inl rfl) pair.1 _ items t pair.2 rest first found read

theorem read_members_fits_step (members : ReadsFit 1 (List.map Prod.snd) (readMembers fuel)) :
    ReadsFit 1 (List.map Prod.snd) (readMembers (fuel + 1)) := by
  intro level t found rest read
  obtain ⟨inside, key, behind, after, left, value, rfl, named, colon, given, more⟩ := read_members_eq_ok fuel t rest found read
  have begun : deepest .outside (level + 1) ('"' :: inside) = deepest .outside (level + 1) (skipGap after) := by
    rw [read_text_deepest inside key behind _ named, deepest_passes _ behind _ (skip_gap_passes behind), colon,
      Text.deepest_plain _ ':' after rfl, deepest_passes _ after _ (skip_gap_passes after)]
  have first := fits_earlier _ _ ('"' :: inside) _ _ _ begun.ge (values (level + 1) (skipGap after) value left given)
  exact read_behind_fits Prod.snd level '\x7d' (Or.inr rfl) (key, value) _ members _ left rest first found more

end

-- The induction is on the fuel, as in `read_within`.
theorem reads_fit (fuel : Nat) : ReadsFit 0 (fun value => [value]) (readValue fuel) ∧
    ReadsFit 1 (List.map id) (readItems fuel) ∧ ReadsFit 1 (List.map Prod.snd) (readMembers fuel) := by
  induction fuel with
  | zero => exact ⟨nofun, nofun, nofun⟩
  | succ fuel ih =>
      obtain ⟨values, items, members⟩ := ih
      exact ⟨read_value_fits_step fuel items members, read_items_fits_step fuel values items,
        read_members_fits_step fuel values members⟩

theorem read_fits (t : Text) (value : Json) (found : read t = .ok value) :
    value.depth ≤ t.nesting ∧ value.printable = true := by
  cases one : readValue (2 * t.length + 2) (skipGap t) with
  | error e => simp [read, one] at found
  | ok pair =>
      obtain ⟨given, rest⟩ := pair
      have fits := (reads_fit _).1 0 (skipGap t) given rest one
      obtain rfl : given = value := by
        cases gap : skipGap rest with
        | nil => simpa [read, one, gap] using found
        | cons c after => simp [read, one, gap] at found
      have shallow := fits.shallow given List.mem_cons_self
      rw [Nat.zero_add, ← deepest_passes 0 t _ (skip_gap_passes t)] at shallow
      exact ⟨shallow, fits.printable given List.mem_cons_self⟩

theorem read_unmarked_fits (t : Text) (value : Json) (found : readUnmarked t = .ok value) :
    value.depth ≤ t.nesting ∧ value.printable = true := by
  cases t with
  | nil => exact read_fits [] value found
  | cons c rest =>
      by_cases marked : c.val = 0xFEFF
      · simp [readUnmarked, marked] at found
      · rw [readUnmarked, if_neg marked] at found
        exact read_fits (c :: rest) value found

end Json

end PlanFlow
