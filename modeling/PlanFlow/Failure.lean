import PlanFlow.Error
import PlanFlow.Json.Freeform
import PlanFlow.Schema.Checked

/-!
Everything that can end a computation early. Most of it is a rejection with a cause; the rest are inputs
outside what the program promises to turn into a rejection.
-/

set_option autoImplicit false

namespace PlanFlow

inductive Failure where
  | rejected (error : CompileError)
  | invalid (issues : List Issue)
  /-- A whole number beyond the limit of digits. Only one that is read has its digits counted. -/
  | tooManyDigits (count : Option Nat)
  | unwritable (obstacle : Freeform.Obstacle)
  | unorderedKey (key : Text)
  | noSuchNode (id : Text)
  | unsupportedOptions (names : List Text)
  | notAList (typeName : Text)
  | unknownToolMode (name : Text)
  | unreadableSetting (name : Text)

namespace Failure

def surrogateRun (key : Text) : Nat × Text :=
  let before := key.takeWhile fun c => !CodePoint.isSurrogate c
  (before.length, (key.drop before.length).takeWhile CodePoint.isSurrogate)

def unencodableMessage (encoding key : Text) : Text :=
  let (start, run) := surrogateRun key
  let codec := Text.concat ["'", encoding, "' codec can't encode "]
  if encoding = "utf-8" && 1 < run.length then
    Text.concat [codec, "characters in position ", Decimal.ofNat start, "-",
      Decimal.ofNat (start + run.length - 1), ": surrogates not allowed"]
  else
    Text.concat [codec, "character ", Text.quoted (run.take 1), " in position ", Decimal.ofNat start,
      ": surrogates not allowed"]

def digitsMessage (count : Option Nat) : Text :=
  let counted : Text := match count with
    | some count => Text.concat [": value has ", Decimal.ofNat count, " digits"]
    | none => []
  Text.concat ["Exceeds the limit (", Decimal.ofNat Decimal.digitLimit, " digits) for integer string conversion",
    counted, "; use sys.set_int_max_str_digits() to increase the limit"]

def message : Failure → Text
  | .rejected error => error.fullMessage
  | .invalid issues => Issue.summarize issues
  | .tooManyDigits count => digitsMessage count
  | .unwritable (.key key) => unencodableMessage "utf-8" key
  | .unwritable .depth => "Maximum serialization depth exceeded"
  | .unorderedKey key => unencodableMessage "utf-16-be" key
  | .noSuchNode id => Text.quoted id
  | .unsupportedOptions names =>
      Text.concat ["unsupported request node options: ", Literal.list (names.map Text.quoted)]
  | .notAList typeName => Text.concat ["'", typeName, "' object is not iterable"]
  | .unknownToolMode name => Text.concat [Text.quoted name, " is not a valid ToolExecutionMode"]
  | .unreadableSetting name =>
      Text.concat ["error parsing value for field \"", name, "\" from source \"EnvSettingsSource\""]

/-- What a value without canonical form leads to. Keys without a place in the order of keys, and numbers that the
report could not show, are outside what is turned into a rejection. -/
def ofCanonicalFault : Json.Canonical.Fault → Failure
  | .unsafeInteger value =>
      if Decimal.printable value then
        .rejected (.notCanonical
          (Text.concat [Decimal.ofInt value, " exceeds safe integer domain for JSON floats"]))
      else .tooManyDigits none
  | .notFinite value =>
      .rejected (.notCanonical (Text.concat [value.specialName, " is not representable in JCS"]))
  | .notUtf8 => .rejected (.notCanonical "input contains non-UTF-8 codepoints")
  | .unorderedKey key => .unorderedKey key

end Failure

abbrev Outcome (α : Type) := Except Failure α

namespace Outcome

variable {α : Type}

def reject (error : CompileError) : Outcome α := .error (.rejected error)

def ofChecked : Checked α → Outcome α
  | .valid value => .ok value
  | .invalid issues => .error (.invalid issues)

def ofCanonical (result : Except Json.Canonical.Fault α) : Outcome α :=
  result.mapError Failure.ofCanonicalFault

/-- A JSON form counts only if the free-form values in it can be written. -/
def written (values : List Freeform) (form : Json) : Outcome Json :=
  match Freeform.firstObstacle? values with
  | some obstacle => .error (.unwritable obstacle)
  | none => .ok form

def report (e : CompileError) : Outcome Text :=
  if e.inputs.all Json.printable then .ok (("Rejected orchestration plan: " : Text) ++ e.literal)
  else .error (.tooManyDigits none)

end Outcome

end PlanFlow
