import PlanFlow.Proofs.Outcome
import PlanFlow.Proofs.Text
import PlanFlow.Payload

/-!
Reading goes through a text from its start to its end, and a numeral that is refused for its length stands in the
text that is read.
-/

set_option autoImplicit false

namespace PlanFlow

def Text.HasDigits (count : Nat) (t : Text) : Prop :=
  ∃ digits, digits <:+: t ∧ digits.length = count ∧ ∀ c ∈ digits, CodePoint.isDigit c = true

theorem Text.digits_of_suffix (count : Nat) (t whole : Text) (suffix : t <:+ whole) (held : t.HasDigits count) :
    whole.HasDigits count := by
  obtain ⟨digits, inside, long, each⟩ := held
  exact ⟨digits, inside.trans suffix.isInfix, long, each⟩

def CodePoint.isMark (c : CodePoint) : Bool := c = '"' || c = '[' || c = ']' || c = '\x7b' || c = '\x7d'

theorem CodePoint.digit_unmarked (c : CodePoint) (digit : c.isDigit = true) : c.isMark = false := by
  rw [Bool.eq_false_iff]
  intro marked
  simp only [isMark, Bool.or_eq_true, decide_eq_true_eq] at marked
  rcases marked with (((rfl | rfl) | rfl) | rfl) | rfl <;> cases digit

namespace Text

def Passes (t rest : Text) : Prop := ∃ front, front ++ rest = t ∧ ∀ c ∈ front, CodePoint.isMark c = false

theorem passes_rfl (t : Text) : t.Passes t := ⟨[], rfl, nofun⟩

theorem passes_cons (c : CodePoint) (t rest : Text) (plain : CodePoint.isMark c = false) (passes : t.Passes rest) :
    Text.Passes (c :: t) rest := by
  obtain ⟨front, rfl, each⟩ := passes
  exact ⟨c :: front, rfl, List.forall_mem_cons.mpr ⟨plain, each⟩⟩

theorem Passes.trans {t u v : Text} (first : t.Passes u) (second : u.Passes v) : t.Passes v := by
  obtain ⟨front, rfl, each⟩ := first
  obtain ⟨others, rfl, rest⟩ := second
  exact ⟨front ++ others, List.append_assoc front others v, List.forall_mem_append.mpr ⟨each, rest⟩⟩

theorem Passes.suffix {t rest : Text} (passes : t.Passes rest) : rest <:+ t := passes.imp fun _ joined => joined.1

end Text

namespace Json

def Within {α : Type} (t : Text) : Read α → Prop
  | .ok (_, rest) => rest <:+ t
  | .error (.malformed _ _) => True
  | .error (.tooManyDigits count) => Decimal.digitLimit < count ∧ t.HasDigits count

theorem within_of_suffix {α : Type} (t whole : Text) (suffix : t <:+ whole) (answer : Read α) (within : Within t answer) :
    Within whole answer := by
  match answer with
  | .ok (_, rest) => exact List.IsSuffix.trans within suffix
  | .error (.malformed _ _) => trivial
  | .error (.tooManyDigits count) => exact ⟨within.1, Text.digits_of_suffix count t whole suffix within.2⟩

theorem within_error {α β : Type} (t : Text) (e : ReadError) (within : Within (α := α) t (.error e)) :
    Within (α := β) t (.error e) := by
  cases e with
  | malformed => trivial
  | tooManyDigits => exact within

theorem skip_gap_suffix (t : Text) : skipGap t <:+ t := List.dropWhile_suffix isGap

theorem push_within (t : Text) (piece : Piece) (answer : Read (List Piece)) (within : Within t answer) :
    Within t (push piece answer) := by
  cases answer with
  | ok found => exact within
  | error e => exact within_error t e within

theorem read_pieces_within (opening t : Text) : Within t (readPieces opening t) := by
  fun_induction readPieces opening t with
  | case1 => trivial
  | case2 rest => exact List.suffix_cons _ rest
  | case6 a b d e more _ value _ _ ih =>
      exact push_within _ _ _ (within_of_suffix more _ ⟨['\\', 'u', a, b, d, e], rfl⟩ _ ih)
  | case8 letter after _ value _ _ ih => exact push_within _ _ _ (within_of_suffix after _ ⟨['\\', letter], rfl⟩ _ ih)
  | case11 c rest _ _ _ ih => exact push_within _ _ _ (within_of_suffix rest _ (List.suffix_cons c rest) _ ih)
  | _ => trivial

theorem read_text_within (opening t : Text) : Within t (readText opening t) := by
  have within := read_pieces_within opening t
  cases outcome : readPieces opening t with
  | ok found =>
      rw [outcome] at within
      simp only [readText, outcome]
      exact within
  | error e =>
      rw [outcome] at within
      simpa only [readText, outcome] using within_error t e within

theorem read_word_passes (t rest : Text) (value : Json) (found : readWord t = some (value, rest)) : t.Passes rest := by
  obtain ⟨entry, member, matched⟩ := List.exists_of_findSome?_eq_some found
  obtain ⟨after, given, same⟩ := Option.map_eq_some_iff.mp matched
  obtain rfl : after = rest := congrArg Prod.snd same
  have lettered : ∀ entry ∈ words, entry.1.any CodePoint.isMark = false := by decide
  by_cases starts : entry.1.isPrefixOf t = true
  · rw [Text.after?, if_pos starts, Option.some.injEq] at given
    refine ⟨entry.1, given ▸ List.prefix_iff_eq_append.mp (List.isPrefixOf_iff_prefix.mp starts), fun c inside => ?_⟩
    exact Bool.eq_false_iff.mpr (List.any_eq_false.mp (lettered entry member) c inside)
  · simp [Text.after?, starts] at given

theorem span_digits_passes (t : Text) : t.Passes (spanDigits t).2 :=
  ⟨(spanDigits t).1, List.takeWhile_append_dropWhile, fun c member =>
    CodePoint.digit_unmarked c (List.mem_takeWhile_imp member)⟩

theorem read_fraction_passes (t : Text) : t.Passes (readFraction t).2 := by
  cases t with
  | nil => exact Text.passes_rfl []
  | cons point rest =>
      simp only [readFraction]
      split
      case isTrue fraction =>
        obtain ⟨rfl, _⟩ := Bool.and_eq_true_iff.mp fraction |>.imp_left of_decide_eq_true
        exact Text.passes_cons _ rest _ rfl (span_digits_passes rest)
      case isFalse => exact Text.passes_rfl _

theorem sign_passes (sign : CodePoint) (more : Text) : Text.Passes (sign :: more)
    (if sign = '-' then (true, more) else if sign = '+' then (false, more) else (false, sign :: more) : Bool × Text).2 := by
  by_cases minus : sign = '-'
  · rw [if_pos minus]
    exact Text.passes_cons sign _ _ (minus ▸ rfl) (Text.passes_rfl more)
  · by_cases plus : sign = '+'
    · rw [if_neg minus, if_pos plus]
      exact Text.passes_cons sign _ _ (plus ▸ rfl) (Text.passes_rfl more)
    · rw [if_neg minus, if_neg plus]
      exact Text.passes_rfl _

theorem read_exponent_passes (t : Text) : t.Passes (readExponent t).2 := by
  cases t with
  | nil => exact Text.passes_rfl []
  | cons mark rest =>
      by_cases marked : (mark = 'e' || mark = 'E') = true
      · have plain : CodePoint.isMark mark = false := by
          rcases Bool.or_eq_true_iff.mp marked with lower | upper
          · rw [of_decide_eq_true lower]; rfl
          · rw [of_decide_eq_true upper]; rfl
        cases rest with
        | nil => simpa [readExponent, marked, spanDigits] using Text.passes_rfl [mark]
        | cons sign more =>
            simp only [readExponent, marked, if_true]
            have body := sign_passes sign more
            generalize (if sign = '-' then (true, more) else if sign = '+' then (false, more) else
                (false, sign :: more) : Bool × Text) = signed at body ⊢
            split
            · exact Text.passes_rfl _
            · exact Text.passes_cons mark _ _ plain (body.trans (span_digits_passes signed.2))
      · simp only [readExponent, marked]
        exact Text.passes_rfl _

theorem read_whole_digits (t digits rest : Text) (found : readWhole t = some (digits, rest)) :
    digits ++ rest = t ∧ ∀ c ∈ digits, CodePoint.isDigit c = true := by
  cases t with
  | nil => cases found
  | cons c tail =>
      by_cases zero : c = '0'
      · simp only [readWhole, zero, if_true, Option.some.injEq, Prod.mk.injEq] at found
        obtain ⟨rfl, rfl⟩ := found
        exact ⟨by rw [zero]; rfl, fun d member => by rw [List.mem_singleton.mp member]; rfl⟩
      · by_cases digit : CodePoint.isDigit c = true
        · simp only [readWhole, zero, digit, if_true, if_false, Option.some.injEq] at found
          obtain ⟨rfl, rfl⟩ := Prod.mk.inj found
          exact ⟨List.takeWhile_append_dropWhile, fun d member => List.mem_takeWhile_imp member⟩
        · simp [readWhole, zero, digit] at found

def readUnsigned (t : Text) (negative : Bool) (body : Text) : Read Json :=
  match readWhole body with
  | none => .error (.malformed .expectedValue t)
  | some (whole, rest) =>
      let (fraction, behind) := readFraction rest
      let (exponent, behind) := readExponent behind
      if fraction.isNone && exponent.isNone then
        if whole.length > Decimal.digitLimit then .error (.tooManyDigits whole.length)
        else .ok (.int (signed negative (Decimal.value whole)), behind)
      else
        .ok (.float (Binary64.ofDecimal negative (Decimal.value (whole ++ fraction.getD []))
          (exponent.getD 0 - (fraction.getD []).length)), behind)

theorem read_number_negative (rest : Text) : readNumber ('-' :: rest) = readUnsigned ('-' :: rest) true rest := by
  cases found : readWhole rest <;> simp [readNumber, readUnsigned, found]

theorem read_number_plain (t : Text) (plain : t.head? ≠ some ('-' : CodePoint)) : readNumber t = readUnsigned t false t := by
  cases t with
  | nil => rfl
  | cons c rest =>
      have unsigned : c ≠ '-' := fun same => plain (congrArg some same)
      cases found : readWhole (c :: rest) <;> simp [readNumber, readUnsigned, unsigned, found]

theorem read_unsigned_within (t body : Text) (negative : Bool) (left : body <:+ t) :
    Within t (readUnsigned t negative body) := by
  cases found : readWhole body with
  | none => simp [readUnsigned, found, Within]
  | some parts =>
      obtain ⟨whole, rest⟩ := parts
      obtain ⟨joined, each⟩ := read_whole_digits body whole rest found
      have behind : rest <:+ t := List.IsSuffix.trans ⟨whole, joined⟩ left
      have fraction := (read_fraction_passes rest).suffix.trans behind
      have exponent := (read_exponent_passes (readFraction rest).2).suffix.trans fraction
      simp only [readUnsigned, found]
      by_cases plain : ((readFraction rest).1.isNone && (readExponent (readFraction rest).2).1.isNone) = true
      · rw [if_pos plain]
        by_cases long : whole.length > Decimal.digitLimit
        · rw [if_pos long]
          exact ⟨long, whole, List.IsInfix.trans ⟨[], rest, by simpa using joined⟩ left.isInfix, rfl, each⟩
        · rw [if_neg long]
          exact exponent
      · rw [if_neg plain]
        exact exponent

theorem read_number_within (t : Text) : Within t (readNumber t) := by
  by_cases negative : t.head? = some ('-' : CodePoint)
  · obtain ⟨rest, rfl⟩ := List.head?_eq_some_iff.mp negative
    rw [read_number_negative]
    exact read_unsigned_within _ rest true (List.suffix_cons _ rest)
  · rw [read_number_plain t negative]
    exact read_unsigned_within t t false List.suffix_rfl

def readBehind {α : Type} (close : CodePoint) (item : α) (more : Text → Read (List α)) (rest : Text) : Read (List α) :=
  match skipGap rest with
  | [] => .error (.malformed .expectedComma [])
  | c :: after =>
      if c = close then .ok ([item], after)
      else if c = ',' then
        match more (skipGap after) with
        | .error e => .error e
        | .ok (items, rest) => .ok (item :: items, rest)
      else .error (.malformed .expectedComma (c :: after))

theorem read_behind_eq_ok {α : Type} (close : CodePoint) (item : α) (more : Text → Read (List α)) (behind rest : Text)
    (items : List α) (found : readBehind close item more behind = .ok (items, rest)) :
    (skipGap behind = close :: rest ∧ items = [item]) ∨ ∃ after others, skipGap behind = (',' : CodePoint) :: after ∧
      more (skipGap after) = .ok (others, rest) ∧ items = item :: others := by
  cases gap : skipGap behind with
  | nil => simp [readBehind, gap] at found
  | cons c after =>
      simp only [readBehind, gap] at found
      by_cases closed : c = close
      · rw [if_pos closed] at found
        obtain ⟨rfl, rfl⟩ := Prod.mk.inj (Except.ok.inj found)
        exact Or.inl ⟨closed ▸ rfl, rfl⟩
      rw [if_neg closed] at found
      by_cases comma : c = ','
      · subst comma
        cases given : more (skipGap after) with
        | error e => simp [given] at found
        | ok pair =>
            simp only [if_true, given, Except.ok.injEq, Prod.mk.injEq] at found
            obtain ⟨rfl, rfl⟩ := found
            exact Or.inr ⟨after, pair.1, rfl, given, rfl⟩
      · simp [comma] at found

theorem read_behind_within {α : Type} (t rest : Text) (left : rest <:+ t) (close : CodePoint) (item : α)
    (more : Text → Read (List α)) (each : ∀ t, Within t (more t)) : Within t (readBehind close item more rest) := by
  have behind : skipGap rest <:+ t := (skip_gap_suffix rest).trans left
  cases gap : skipGap rest with
  | nil => simp [readBehind, gap, Within]
  | cons c after =>
      rw [gap] at behind
      have next : after <:+ t := (List.suffix_cons c after).trans behind
      simp only [readBehind, gap]
      by_cases closed : c = close
      · rw [if_pos closed]
        exact next
      · rw [if_neg closed]
        by_cases comma : c = ','
        · have others := within_of_suffix _ t ((skip_gap_suffix after).trans next) _ (each (skipGap after))
          rw [if_pos comma]
          cases rest : more (skipGap after) with
          | error e =>
              rw [rest] at others
              exact within_error t e others
          | ok found =>
              rw [rest] at others
              exact others
        · rw [if_neg comma]
          trivial

def readOpened {α : Type} (expected : Fault) (close : CodePoint) (make : List α → Json) (held : Text → Read (List α))
    (rest : Text) : Read Json :=
  match skipGap rest with
  | [] => .error (.malformed expected [])
  | c :: after =>
      if c = close then .ok (make [], after)
      else
        match held (c :: after) with
        | .error e => .error e
        | .ok (items, rest) => .ok (make items, rest)

theorem read_opened_eq_ok {α : Type} (expected : Fault) (close : CodePoint) (make : List α → Json)
    (held : Text → Read (List α)) (t rest : Text) (value : Json)
    (found : readOpened expected close make held t = .ok (value, rest)) :
    (skipGap t = close :: rest ∧ value = make []) ∨ ∃ items, held (skipGap t) = .ok (items, rest) ∧ value = make items := by
  cases gap : skipGap t with
  | nil => simp [readOpened, gap] at found
  | cons c after =>
      simp only [readOpened, gap] at found
      by_cases closed : c = close
      · rw [if_pos closed] at found
        obtain ⟨rfl, rfl⟩ := Prod.mk.inj (Except.ok.inj found)
        exact Or.inl ⟨closed ▸ rfl, rfl⟩
      rw [if_neg closed] at found
      cases inner : held (c :: after) with
      | error e => simp [inner] at found
      | ok pair =>
          simp only [inner, Except.ok.injEq, Prod.mk.injEq] at found
          obtain ⟨rfl, rfl⟩ := found
          exact Or.inr ⟨pair.1, rfl, rfl⟩

theorem read_opened_within {α : Type} (t rest : Text) (left : rest <:+ t) (expected : Fault) (close : CodePoint)
    (make : List α → Json) (held : Text → Read (List α)) (each : ∀ t, Within t (held t)) :
    Within t (readOpened expected close make held rest) := by
  have behind : skipGap rest <:+ t := (skip_gap_suffix rest).trans left
  cases gap : skipGap rest with
  | nil => simp [readOpened, gap, Within]
  | cons c after =>
      rw [gap] at behind
      have inside := within_of_suffix _ t behind _ (each (c :: after))
      simp only [readOpened, gap]
      by_cases closed : c = close
      · rw [if_pos closed]
        exact (List.suffix_cons c after).trans behind
      · rw [if_neg closed]
        cases given : held (c :: after) with
        | error e =>
            rw [given] at inside
            exact within_error t e inside
        | ok found =>
            rw [given] at inside
            exact inside

theorem read_value_list (fuel : Nat) (rest : Text) :
    readValue (fuel + 1) ('[' :: rest) = readOpened .expectedValue ']' .arr (readItems fuel) rest := by
  rw [readValue, if_neg (by decide), if_pos rfl, readOpened]
  cases skipGap rest with
  | nil => rfl
  | cons c after => cases held : readItems fuel (c :: after) <;> simp [held]

theorem read_value_object (fuel : Nat) (rest : Text) : readValue (fuel + 1) ('\x7b' :: rest) =
    readOpened .expectedKey '\x7d' (fun members => .obj (Table.ofPairs members)) (readMembers fuel) rest := by
  rw [readValue, if_neg (by decide), if_neg (by decide), if_pos rfl, readOpened]
  cases skipGap rest with
  | nil => rfl
  | cons c after => cases held : readMembers fuel (c :: after) <;> simp [held, Table.ofPairs]

theorem read_items_value (fuel : Nat) (t rest : Text) (item : Json) (first : readValue fuel t = .ok (item, rest)) :
    readItems (fuel + 1) t = readBehind ']' item (readItems fuel) rest := by
  cases gap : skipGap rest with
  | nil => simp [readItems, readBehind, first, gap]
  | cons c after =>
      by_cases closed : c = ']'
      · simp [readItems, readBehind, first, gap, closed]
      · cases more : readItems fuel (skipGap after) <;> simp [readItems, readBehind, first, gap, closed, more]

theorem read_members_value (fuel : Nat) (t behind after rest key : Text) (value : Json)
    (named : readText ('"' :: t) t = .ok (key, behind)) (colon : skipGap behind = (':' : CodePoint) :: after)
    (given : readValue fuel (skipGap after) = .ok (value, rest)) :
    readMembers (fuel + 1) ('"' :: t) = readBehind '\x7d' (key, value) (readMembers fuel) rest := by
  cases gap : skipGap rest with
  | nil => simp [readMembers, readBehind, named, colon, given, gap]
  | cons c after =>
      by_cases closed : c = '\x7d'
      · simp [readMembers, readBehind, named, colon, given, gap, closed]
      · cases more : readMembers fuel (skipGap after) <;>
          simp [readMembers, readBehind, named, colon, given, gap, closed, more]

theorem read_members_eq_ok (fuel : Nat) (t rest : Text) (members : List (Text × Json))
    (found : readMembers (fuel + 1) t = .ok (members, rest)) :
    ∃ (inside key behind after left : Text) (value : Json), t = ('"' : CodePoint) :: inside ∧
      readText ('"' :: inside) inside = .ok (key, behind) ∧ skipGap behind = (':' : CodePoint) :: after ∧
      readValue fuel (skipGap after) = .ok (value, left) ∧
      readBehind '\x7d' (key, value) (readMembers fuel) left = .ok (members, rest) := by
  cases t with
  | nil => cases found
  | cons quote inside =>
      by_cases quoted : quote = '"'
      case neg => simp [readMembers, quoted] at found
      subst quoted
      cases named : readText ('"' :: inside) inside with
      | error e => simp [readMembers, named] at found
      | ok key =>
          cases gap : skipGap key.2 with
          | nil => simp [readMembers, named, gap] at found
          | cons colon after =>
              by_cases marked : colon = ':'
              case neg => simp [readMembers, named, gap, marked] at found
              subst marked
              cases given : readValue fuel (skipGap after) with
              | error e => simp [readMembers, named, gap, given] at found
              | ok value =>
                  rw [read_members_value fuel inside key.2 after value.2 key.1 value.1 named gap given] at found
                  exact ⟨inside, key.1, key.2, after, value.2, value.1, rfl, named, gap, given, found⟩

section

variable (fuel : Nat) (values : ∀ t, Within t (readValue fuel t))

include values

theorem read_items_step (items : ∀ t, Within t (readItems fuel t)) (t : Text) : Within t (readItems (fuel + 1) t) := by
  have first := values t
  cases one : readValue fuel t with
  | error e =>
      rw [one] at first
      rw [readItems, one]
      exact within_error t e first
  | ok found =>
      rw [one] at first
      rw [read_items_value fuel t found.2 found.1 one]
      exact read_behind_within t found.2 first ']' found.1 (readItems fuel) items

theorem read_members_step (members : ∀ t, Within t (readMembers fuel t)) (t : Text) :
    Within t (readMembers (fuel + 1) t) := by
  cases t with
  | nil => trivial
  | cons quote t =>
      by_cases quoted : quote = '"'
      · subst quoted
        have key := within_of_suffix t ('"' :: t) (List.suffix_cons _ t) _ (read_text_within ('"' :: t) t)
        cases one : readText ('"' :: t) t with
        | error e =>
            rw [one] at key
            simpa only [readMembers, one, if_true] using within_error _ e key
        | ok found =>
            rw [one] at key
            have behind : skipGap found.2 <:+ '"' :: t := (skip_gap_suffix found.2).trans key
            cases gap : skipGap found.2 with
            | nil => simp [readMembers, one, gap, Within]
            | cons colon after =>
                rw [gap] at behind
                have rest : skipGap after <:+ '"' :: t :=
                  (skip_gap_suffix after).trans ((List.suffix_cons colon after).trans behind)
                have value := within_of_suffix _ ('"' :: t) rest _ (values (skipGap after))
                by_cases marked : colon = ':'
                · subst marked
                  cases given : readValue fuel (skipGap after) with
                  | error e =>
                      rw [given] at value
                      simpa only [readMembers, one, gap, given, if_true] using within_error _ e value
                  | ok pair =>
                      rw [given] at value
                      rw [read_members_value fuel t found.2 after pair.2 found.1 pair.1 one gap given]
                      exact read_behind_within _ pair.2 value '\x7d' (found.1, pair.1) (readMembers fuel) members
                · simp [readMembers, one, gap, marked, Within]
      · simp [readMembers, quoted, Within]

end

theorem read_value_text_within (fuel : Nat) (rest : Text) : Within ('"' :: rest) (readValue (fuel + 1) ('"' :: rest)) := by
  have own : rest <:+ '"' :: rest := List.suffix_cons _ rest
  have text := within_of_suffix rest _ own _ (read_text_within ('"' :: rest) rest)
  rw [readValue, if_pos rfl]
  cases one : readText ('"' :: rest) rest with
  | error e =>
      rw [one] at text
      exact within_error _ e text
  | ok found =>
      rw [one] at text
      exact text

theorem read_value_step (fuel : Nat) (items : ∀ t, Within t (readItems fuel t))
    (members : ∀ t, Within t (readMembers fuel t)) (t : Text) : Within t (readValue (fuel + 1) t) := by
  cases t with
  | nil => trivial
  | cons c rest =>
      by_cases quoted : c = '"'
      · subst quoted
        exact read_value_text_within fuel rest
      by_cases list : c = '['
      · subst list
        rw [read_value_list]
        exact read_opened_within _ rest (List.suffix_cons _ rest) _ ']' _ (readItems fuel) items
      by_cases object : c = '\x7b'
      · subst object
        rw [read_value_object]
        exact read_opened_within _ rest (List.suffix_cons _ rest) _ '\x7d' _ (readMembers fuel) members
      rw [readValue, if_neg quoted, if_neg list, if_neg object]
      cases word : readWord (c :: rest) with
      | some found => exact (read_word_passes _ found.2 found.1 word).suffix
      | none => exact read_number_within (c :: rest)

-- The induction is on the fuel; items and members are read with what is left of it.
theorem read_within (fuel : Nat) : (∀ t, Within t (readValue fuel t)) ∧ (∀ t, Within t (readItems fuel t)) ∧
    ∀ t, Within t (readMembers fuel t) := by
  induction fuel with
  | zero => exact ⟨fun _ => trivial, fun _ => trivial, fun _ => trivial⟩
  | succ fuel ih =>
      obtain ⟨values, items, members⟩ := ih
      exact ⟨read_value_step fuel items members, read_items_step fuel values items, read_members_step fuel values members⟩

theorem read_too_many_digits (t : Text) (count : Nat) (failed : read t = .error (.tooManyDigits count)) :
    Decimal.digitLimit < count ∧ t.HasDigits count := by
  have within := (read_within (2 * t.length + 2)).1 (skipGap t)
  cases one : readValue (2 * t.length + 2) (skipGap t) with
  | error e =>
      simp only [read, one, Except.error.injEq] at failed
      rw [one, failed] at within
      exact ⟨within.1, Text.digits_of_suffix count _ t (skip_gap_suffix t) within.2⟩
  | ok found =>
      cases gap : skipGap found.2 with
      | nil => simp [read, one, gap] at failed
      | cons c after => simp [read, one, gap] at failed

theorem read_unmarked_too_many_digits (t : Text) (count : Nat) (failed : readUnmarked t = .error (.tooManyDigits count)) :
    Decimal.digitLimit < count ∧ t.HasDigits count := by
  cases t with
  | nil => exact read_too_many_digits [] count failed
  | cons c rest =>
      by_cases marked : c.val = 0xFEFF
      · simp [readUnmarked, marked] at failed
      · rw [readUnmarked, if_neg marked] at failed
        exact read_too_many_digits (c :: rest) count failed

structure Numeral (digits : Text) : Prop where
  nonempty : digits ≠ []
  each : ∀ c ∈ digits, CodePoint.isDigit c = true
  lead : digits.head? = some ('0' : CodePoint) → digits = ['0']

def Stops (rest : Text) : Prop := ∀ c ∈ rest.head?, CodePoint.isDigit c = false

def Ends (rest : Text) : Prop :=
  ∀ c ∈ rest.head?, CodePoint.isDigit c = false ∧ c ≠ '.' ∧ c ≠ 'e' ∧ c ≠ 'E'

theorem ends_nil : Ends [] := nofun

theorem ends_stops (rest : Text) (ends : Ends rest) : Stops rest := fun c head => (ends c head).1

theorem span_digits_append (digits rest : Text) (each : ∀ c ∈ digits, CodePoint.isDigit c = true) (stops : Stops rest) :
    spanDigits (digits ++ rest) = (digits, rest) := by
  have none : rest.takeWhile CodePoint.isDigit = [] ∧ rest.dropWhile CodePoint.isDigit = rest := by
    cases rest with
    | nil => exact ⟨rfl, rfl⟩
    | cons c more => simp [stops c rfl]
  rw [spanDigits, List.takeWhile_append_of_pos each, List.dropWhile_append_of_pos each, none.1, none.2, List.append_nil]

theorem read_whole_numeral (digits rest : Text) (numeral : Numeral digits) (stops : Stops rest) :
    readWhole (digits ++ rest) = some (digits, rest) := by
  cases digits with
  | nil => exact absurd rfl numeral.nonempty
  | cons c tail =>
      by_cases zero : c = '0'
      · obtain rfl : tail = [] := (List.cons.inj (numeral.lead (congrArg some zero))).2
        simp [readWhole, zero]
      · have digit := numeral.each c List.mem_cons_self
        have span := span_digits_append (c :: tail) rest numeral.each stops
        simp only [List.cons_append] at span ⊢
        rw [readWhole, if_neg zero, if_pos digit, span]

theorem read_fraction_ends (rest : Text) (ends : Ends rest) : readFraction rest = (none, rest) := by
  cases rest with
  | nil => rfl
  | cons c more => simp [readFraction, (ends c rfl).2.1]

theorem read_exponent_ends (rest : Text) (ends : Ends rest) : readExponent rest = (none, rest) := by
  cases rest with
  | nil => rfl
  | cons c more => simp [readExponent, (ends c rfl).2.2.1, (ends c rfl).2.2.2]

theorem read_unsigned_numeral (t digits rest : Text) (negative : Bool) (numeral : Numeral digits) (ends : Ends rest) :
    readUnsigned t negative (digits ++ rest) =
      if digits.length > Decimal.digitLimit then .error (.tooManyDigits digits.length)
      else .ok (.int (signed negative (Decimal.value digits)), rest) := by
  simp [readUnsigned, read_whole_numeral digits rest numeral (ends_stops rest ends), read_fraction_ends rest ends,
    read_exponent_ends rest ends]

theorem digit_ne (c : CodePoint) (digit : CodePoint.isDigit c = true) (mark : Char)
    (apart : CodePoint.isDigit mark = false) : c ≠ mark := by
  rintro rfl
  rw [digit] at apart
  cases apart

theorem read_word_digit (t : Text) (i : Nat) (c : CodePoint) (early : i < 3) (given : t[i]? = some c)
    (digit : CodePoint.isDigit c = true) : readWord t = none := by
  refine List.findSome?_eq_none_iff.mpr fun entry member => ?_
  have lettered : ∀ entry ∈ words, 3 ≤ entry.1.length ∧ entry.1.any CodePoint.isDigit = false := by decide
  obtain ⟨long, letters⟩ := lettered entry member
  have different : entry.1.isPrefixOf t = false := by
    rw [Bool.eq_false_iff, ne_eq, List.isPrefixOf_iff_prefix]
    rintro ⟨rest, rfl⟩
    rw [List.getElem?_append_left (by omega)] at given
    have letter := List.any_eq_false.mp letters c (List.mem_of_getElem? given)
    exact letter digit
  simp [Text.after?, different]

theorem read_value_digit (fuel : Nat) (c : CodePoint) (rest : Text) (digit : CodePoint.isDigit c = true) :
    readValue (fuel + 1) (c :: rest) = readUnsigned (c :: rest) false (c :: rest) := by
  have apart (mark : Char) := digit_ne c digit mark
  have unsigned : (c :: rest).head? ≠ some ('-' : CodePoint) := fun same => apart '-' (by decide) (Option.some.inj same)
  rw [readValue, if_neg (apart '"' (by decide)), if_neg (apart '[' (by decide)), if_neg (apart '\x7b' (by decide)),
    read_word_digit (c :: rest) 0 c (by decide) rfl digit]
  exact read_number_plain (c :: rest) unsigned

theorem skip_gap_digit (c : CodePoint) (rest : Text) (digit : CodePoint.isDigit c = true) :
    skipGap (c :: rest) = c :: rest := by
  have apart (mark : Char) := digit_ne c digit mark
  simp [skipGap, isGap, apart ' ' (by decide), apart '\t' (by decide), apart '\n' (by decide), apart '\r' (by decide)]

theorem read_long_numeral (digits : Text) (numeral : Numeral digits) (long : Decimal.digitLimit < digits.length) :
    readUnmarked digits = .error (.tooManyDigits digits.length) := by
  obtain ⟨c, tail, rfl⟩ := List.exists_cons_of_ne_nil numeral.nonempty
  have digit := numeral.each c List.mem_cons_self
  have unmarked : ¬ c.val = 0xFEFF := by
    simp only [CodePoint.isDigit, Bool.and_eq_true, decide_eq_true_eq] at digit
    omega
  have refused := read_unsigned_numeral (c :: tail) (c :: tail) [] false numeral ends_nil
  rw [List.append_nil, if_pos long] at refused
  rw [readUnmarked, if_neg unmarked, read, skip_gap_digit c tail digit, read_value_digit _ c tail digit, refused]

end Json

end PlanFlow
