import PlanFlow.Json.Basic
import PlanFlow.Number.Layout
import PlanFlow.Sorted
import PlanFlow.Text.Units
import PlanFlow.Text.Utf8
import PlanFlow.Digest.Sha256

/-!
Canonical JSON: no white space, object members in the order of the UTF-16 units of their keys, shortest
escapes, numbers in their shortest digits. Equal values up to the order of keys have equal canonical
text, so its digest identifies a value.

A value has no canonical text when it holds a whole number that no 64-bit float represents exactly, a
number that is not finite, or a text that has no UTF-8 form.
-/

set_option autoImplicit false

namespace PlanFlow

namespace Json

namespace Canonical

inductive Fault where
  | unsafeInteger (value : Int)
  | notFinite (value : Binary64)
  | notUtf8
  | unorderedKey (key : Text)
deriving DecidableEq

def safeLimit : Int := 0x1FFFFFFFFFFFFF

/-- Whole numbers show no point, and exponents start at `1e+21` and `1e-7`. -/
def layout : Binary64.Layout := ⟨-6, 21, [], 1, false⟩

def escapeOne (c : CodePoint) : Text :=
  if c = '"' || c = '\\' then ['\\', c]
  else if c.val = 0x08 then "\\b"
  else if c.val = 0x09 then "\\t"
  else if c.val = 0x0A then "\\n"
  else if c.val = 0x0C then "\\f"
  else if c.val = 0x0D then "\\r"
  else if c.val < 0x20 then ("\\u" : Text) ++ Decimal.hex 4 c.val
  else [c]

def escape (t : Text) : Text := ("\"" : Text) ++ t.flatMap escapeOne ++ ("\"" : Text)

def ofText (t : Text) : Except Fault Text :=
  if t.hasSurrogate then .error .notUtf8 else .ok (escape t)

def ofInt (n : Int) : Except Fault Text :=
  if -safeLimit ≤ n && n ≤ safeLimit then .ok (Decimal.ofInt n) else .error (.unsafeInteger n)

def ofFloat (x : Binary64) : Except Fault Text :=
  if x.isFinite then .ok (Binary64.render layout x) else .error (.notFinite x)

def joinMembers : List (Text × Except Fault Text) → Except Fault (List Text)
  | [] => .ok []
  | (key, value) :: rest =>
      match value with
      | .error fault => .error fault
      | .ok value =>
          match joinMembers rest with
          | .error fault => .error fault
          | .ok members => .ok ((escape key ++ (":" : Text) ++ value) :: members)

def enclose (opening closing : Text) : Except Fault (List Text) → Except Fault Text
  | .error fault => .error fault
  | .ok parts => .ok (opening ++ Text.join "," parts ++ closing)

def memberKey {α : Type} (entry : Text × α) : List Nat := Text.units entry.1

mutual

def write : Json → Except Fault Text
  | .null => .ok "null"
  | .bool true => .ok "true"
  | .bool false => .ok "false"
  | .int value => ofInt value
  | .float value => ofFloat value
  | .str value => ofText value
  | .arr items => enclose "[" "]" (writeItems items)
  | .obj fields =>
      match (Table.keys fields).find? Text.hasSurrogate with
      | some key => .error (.unorderedKey key)
      | none => enclose "\x7b" "\x7d" (joinMembers (sortOn memberKey (writeFields fields)))

def writeItems : List Json → Except Fault (List Text)
  | [] => .ok []
  | item :: rest =>
      match write item with
      | .error fault => .error fault
      | .ok first =>
          match writeItems rest with
          | .error fault => .error fault
          | .ok others => .ok (first :: others)

def writeFields : List (Text × Json) → List (Text × Except Fault Text)
  | [] => []
  | (key, value) :: rest => (key, write value) :: writeFields rest

end

def digest (canonical : Text) : Text := Sha256.hexDigest (Utf8.encode canonical)

def version : Text := "sha256-rfc8785-v1"

end Canonical

end Json

end PlanFlow
