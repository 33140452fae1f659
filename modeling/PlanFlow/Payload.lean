import PlanFlow.Failure
import PlanFlow.Json.Reader
import PlanFlow.Text.Octets

/-!
What a plan or a workflow is read from: JSON text, octets that hold JSON text, a JSON value, or a value that
has been read already. Every way in which reading fails is a rejection, except for a numeral that is too
long.
-/

set_option autoImplicit false

namespace PlanFlow

inductive Payload (α : Type) where
  | text (t : Text)
  | octets (bytes : List UInt8)
  | value (j : Json)
  | parsed (value : α)

namespace Payload

variable {α : Type}

/-- A JSON value that is a text is itself JSON text. -/
def ofJson : Json → Payload α
  | .str t => .text t
  | j => .value j

def ofRead (label whole : Text) : Except Json.ReadError Json → Outcome Json
  | .ok j => .ok j
  | .error (.malformed fault rest) => Outcome.reject (.malformedPayload label (fault.report whole rest))
  | .error (.tooManyDigits count) => .error (.tooManyDigits (some count))

def decode (label : Text) (bytes : List UInt8) : Outcome Json :=
  match Octets.decode bytes with
  | .ok t => ofRead label t (Json.read t)
  | .error (encoding, fault) =>
      Outcome.reject (.malformedPayload label (Octets.report encoding fault))

def checkObject (label : Text) (check : Json → Checked α) : Json → Outcome α
  | .obj fields =>
      match check (.obj fields) with
      | .valid checked => .ok checked
      | .invalid issues => Outcome.reject (.misshapen label issues)
  | _ => Outcome.reject (.payloadNotObject label)

def read (label : Text) (check : Json → Checked α) : Payload α → Outcome α
  | .parsed given => .ok given
  | .text t => ofRead label t (Json.readUnmarked t) >>= checkObject label check
  | .octets bytes => decode label bytes >>= checkObject label check
  | .value (.obj fields) => checkObject label check (.obj fields)
  | .value j => Outcome.reject (.unsupportedPayload j.typeName)

end Payload

end PlanFlow
