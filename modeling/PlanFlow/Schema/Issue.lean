import PlanFlow.Json.Literal

/-!
What a schema check finds wrong with a value: the cause, the way from the outermost value to the
offending one, and the offending value.
-/

set_option autoImplicit false

namespace PlanFlow

inductive Step where
  | key (name : Text)
  | index (position : Nat)
deriving DecidableEq

def Step.toText : Step → Text
  | .key name => name
  | .index position => Decimal.ofNat position

inductive IssueKind where
  | missing
  | extraForbidden
  | textType
  | textNotUnicode
  | textTooShort
  | listType
  | tableType
  | recordType (name : Text)
  | taggedType
  | tagMissing
  | tagInvalid (tag : Text) (expected : List Text)
  | literal (expected : Text)
  | choice (expected : List Text)
  | integerType
  | integerParsing
  | integerSize
  | integerFraction
  | finiteNumber
  | greaterThan (bound : Int)
  | atMost (bound : Int)
  | flagType
  | flagParsing
  | refused (reason : Text)
deriving DecidableEq

namespace IssueKind

def apostrophes (t : Text) : Text := ("'" : Text) ++ t ++ ("'" : Text)

def alternatives : List Text → Text
  | [] => []
  | [last] => apostrophes last
  | [before, last] => Text.concat [apostrophes before, " or ", apostrophes last]
  | first :: rest => Text.concat [apostrophes first, ", ", alternatives rest]

def code : IssueKind → Text
  | .missing => "missing"
  | .extraForbidden => "extra_forbidden"
  | .textType => "string_type"
  | .textNotUnicode => "string_unicode"
  | .textTooShort => "string_too_short"
  | .listType => "list_type"
  | .tableType => "dict_type"
  | .recordType _ => "model_type"
  | .taggedType => "model_attributes_type"
  | .tagMissing => "union_tag_not_found"
  | .tagInvalid _ _ => "union_tag_invalid"
  | .literal _ => "literal_error"
  | .choice _ => "enum"
  | .integerType => "int_type"
  | .integerParsing => "int_parsing"
  | .integerSize => "int_parsing_size"
  | .integerFraction => "int_from_float"
  | .finiteNumber => "finite_number"
  | .greaterThan _ => "greater_than"
  | .atMost _ => "less_than_equal"
  | .flagType => "bool_type"
  | .flagParsing => "bool_parsing"
  | .refused _ => "value_error"

def message : IssueKind → Text
  | .missing => "Field required"
  | .extraForbidden => "Extra inputs are not permitted"
  | .textType => "Input should be a valid string"
  | .textNotUnicode => "Input should be a valid string, unable to parse raw data as a unicode string"
  | .textTooShort => "String should have at least 1 character"
  | .listType => "Input should be a valid list"
  | .tableType => "Input should be a valid dictionary"
  | .recordType name => Text.concat ["Input should be a valid dictionary or instance of ", name]
  | .taggedType => "Input should be a valid dictionary or object to extract fields from"
  | .tagMissing => "Unable to extract tag using discriminator 'type'"
  | .tagInvalid tag expected =>
      Text.concat ["Input tag ", apostrophes tag,
        " found using 'type' does not match any of the expected tags: ",
        Text.join ", " (expected.map apostrophes)]
  | .literal expected => Text.concat ["Input should be ", apostrophes expected]
  | .choice expected => Text.concat ["Input should be ", alternatives expected]
  | .integerType => "Input should be a valid integer"
  | .integerParsing => "Input should be a valid integer, unable to parse string as an integer"
  | .integerSize => "Unable to parse input string as an integer, exceeded maximum size"
  | .integerFraction => "Input should be a valid integer, got a number with a fractional part"
  | .finiteNumber => "Input should be a finite number"
  | .greaterThan bound => Text.concat ["Input should be greater than ", Decimal.ofInt bound]
  | .atMost bound => Text.concat ["Input should be less than or equal to ", Decimal.ofInt bound]
  | .flagType => "Input should be a valid boolean"
  | .flagParsing => "Input should be a valid boolean, unable to interpret input"
  | .refused reason => Text.concat ["Value error, ", reason]

end IssueKind

structure Issue where
  kind : IssueKind
  path : List Step
  input : Json

namespace Issue

def place (issue : Issue) : Text :=
  ((Text.join "." (issue.path.map Step.toText)).orAbsent).getD "$"

def summary (issue : Issue) : Text := Text.concat [issue.place, ": ", issue.kind.message]

def summarize (issues : List Issue) : Text := Text.join "; " (issues.map summary)

end Issue

end PlanFlow
