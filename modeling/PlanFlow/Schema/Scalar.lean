import PlanFlow.Schema.Checked
import PlanFlow.Text.Blank

/-!
Checks of values without parts. Texts are taken as they are; whole numbers may also be given as a flag, as
a float without fraction or as a numeral, flags also as 0 or 1 or by the usual words.
-/

set_option autoImplicit false

namespace PlanFlow

namespace Schema

open Checked (fail)

def anyText : Json → Checked Text
  | .str value => .valid value
  | other => fail .textType other

def nonEmptyText : Json → Checked Text
  | .str value =>
      if value.hasSurrogate then fail .textNotUnicode (.str value)
      else if value.isEmpty then fail .textTooShort (.str value)
      else .valid value
  | other => fail .textType other

def opensNumeral (c : CodePoint) : Bool := CodePoint.isDigit c || c = '-'

/-- Drops leading zeros, with the underscores among them, as far as a numeral or a point follows; in front of
a point and at the end the last of them stays. -/
def dropLeadingZeros? (t : Text) : Option Text :=
  let zeros := t.takeWhile fun c : CodePoint => c = '0' || c = '_'
  match t.head?, (t.drop zeros.length).head? with
  | none, _ => none
  | some first, next =>
      if first ≠ '0' then (if opensNumeral first then some t else none)
      else
        match next with
        | none => some (t.drop (zeros.length - 1))
        | some c =>
            if opensNumeral c then some (t.drop zeros.length)
            else if c = '.' then some (t.drop (zeros.length - 1))
            else none

def settleSign? : Text → Option Text
  | [] => none
  | c :: rest =>
      if c = '-' then (dropLeadingZeros? rest).map (c :: ·)
      else if c = '+' then
        if Text.startsWith rest "-" then none else dropLeadingZeros? rest
      else dropLeadingZeros? (c :: rest)

def dropFraction (t : Text) : Text :=
  let whole := t.takeWhile fun c : CodePoint => c ≠ '.'
  let places := t.drop (whole.length + 1)
  if !places.isEmpty && places.all (fun c : CodePoint => c = '0') then whole else t

def ungrouped? : Text → Option Text
  | [] => none
  | [c] => if c = '_' then none else some [c]
  | c :: d :: rest =>
      if c = '_' then none
      else (if d = '_' then ungrouped? rest else ungrouped? (d :: rest)).map (c :: ·)

def plainNumeral? (t : Text) : Option Text :=
  (settleSign? (t.trimWhile CodePoint.isWhiteSpace)).map fun settled =>
    let whole := dropFraction settled
    (ungrouped? whole).getD whole

/-- Reads a plain numeral: digits, possibly behind a minus sign, and no zero in front of other digits. Only
digits count against the limit. -/
def integerOfNumeral (numeral : Text) : Except IssueKind Int :=
  let sign : Text := numeral.takeWhile fun c : CodePoint => c = '-'
  let body := numeral.drop sign.length
  let digits := body.takeWhile CodePoint.isDigit
  let padded := 1 < digits.length && Text.startsWith digits "0"
  if 1 < sign.length || digits.isEmpty || padded then .error .integerParsing
  else if Decimal.digitLimit < digits.length then .error .integerSize
  else if digits.length < body.length then .error .integerParsing
  else
    let size : Int := Decimal.value digits
    .ok (if sign.isEmpty then size else -size)

def integerOfText (t : Text) : Checked Int :=
  if t.hasSurrogate then fail .textNotUnicode (.str t)
  else
    match plainNumeral? t with
    | none => fail .integerParsing (.str t)
    | some numeral =>
        match integerOfNumeral numeral with
        | .ok n => .valid n
        | .error kind => fail kind (.str t)

def floatBound : Int := 0x8000000000000000

def integerOfFloat (x : Binary64) : Checked Int :=
  if !x.isFinite then fail .finiteNumber (.float x)
  else
    match x.toInt? with
    | none => fail .integerFraction (.float x)
    | some n => if -floatBound < n && n < floatBound then .valid n else fail .integerSize (.float x)

def integer : Json → Checked Int
  | .int value => .valid value
  | .bool value => .valid (if value then 1 else 0)
  | .float value => integerOfFloat value
  | .str value => integerOfText value
  | other => fail .integerType other

def integerLimit : Int := 0x1FFFFFFFFFFFFF

def integerAtMostLimit (input : Json) : Checked Int :=
  (integer input).andThen fun n => if n ≤ integerLimit then .valid n else fail (.atMost integerLimit) input

def positiveInteger (input : Json) : Checked Int :=
  (integerAtMostLimit input).andThen fun n => if 0 < n then .valid n else fail (.greaterThan 0) input

def falseWords : List Text := ["0", "off", "f", "false", "n", "no"]

def trueWords : List Text := ["1", "on", "t", "true", "y", "yes"]

def flag : Json → Checked Bool
  | .bool value => .valid value
  | .str value =>
      if value.hasSurrogate then fail .textNotUnicode (.str value)
      else if trueWords.any (Text.sameIgnoringCase value) then .valid true
      else if falseWords.any (Text.sameIgnoringCase value) then .valid false
      else fail .flagParsing (.str value)
  | .int value =>
      if value = 0 then .valid false
      else if value = 1 then .valid true
      else if -floatBound ≤ value && value < floatBound then fail .flagParsing (.int value)
      else fail .flagType (.int value)
  | .float value =>
      match integerOfFloat value with
      | .valid n =>
          if n = 0 then .valid false
          else if n = 1 then .valid true
          else fail .flagParsing (.float value)
      | .invalid _ => fail .flagType (.float value)
  | other => fail .flagType other

def choice {α : Type} (options : List (Text × α)) (input : Json) : Checked α :=
  match input with
  | .str value =>
      if value.hasSurrogate then fail .textNotUnicode input
      else
        match Table.get? value options with
        | some option => .valid option
        | none => fail (.choice (Table.keys options)) input
  | other => fail (.choice (Table.keys options)) other

def literal (expected : Text) (input : Json) : Checked Unit :=
  match input with
  | .str value =>
      if value.hasSurrogate then fail .textNotUnicode input
      else if value = expected then .valid () else fail (.literal expected) input
  | other => fail (.literal expected) other

def optional {α : Type} (check : Json → Checked α) : Json → Checked (Option α)
  | .null => .valid none
  | input => (check input).map some

end Schema

end PlanFlow
