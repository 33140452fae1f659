import PlanFlow.Failure
import PlanFlow.Text.Digit
import PlanFlow.Workflow.Basic

/-!
Binding targets. A target that starts like a pointer into the messages of a request has to point at a message,
and at a content block if it goes on, that the request has. Other targets are not checked.
-/

set_option autoImplicit false

namespace PlanFlow

namespace Target

/-- Digits of any script at the start of a text, and the rest. -/
def spanDigits (t : Text) : Text × Text :=
  let digits := t.takeWhile fun c => (CodePoint.digitValue? c).isSome
  (digits, t.drop digits.length)

def indices? (target : Text) : Option (Text × Option Text) :=
  match Text.after? "/input/" target with
  | none => none
  | some rest =>
      let (message, rest) := spanDigits rest
      if message.isEmpty then none
      else
        match Text.after? "/content/" rest with
        | none => some (message, none)
        | some rest =>
            let (content, _) := spanDigits rest
            some (message, if content.isEmpty then none else some content)

def number (digits : Text) : Outcome Nat :=
  if digits.length > Decimal.digitLimit then .error (.tooManyDigits (some digits.length))
  else .ok (Decimal.valueOfAnyScript digits)

def checkContent (content : List ContentBlock) (message index : Nat) : Option TargetFault :=
  if index < content.length then none else some (.noSuchContent index message content.length)

def check (messages : List Message) (target : Text) : Outcome (Option TargetFault) :=
  match indices? target with
  | none => .ok none
  | some (messageDigits, contentDigits) =>
      match number messageDigits with
      | .error failure => .error failure
      | .ok index =>
          match messages[index]? with
          | none =>
              if messages.isEmpty then .ok (some (.noMessages index))
              else .ok (some (.noSuchMessage index messages.length))
          | some message =>
              match contentDigits with
              | none => .ok none
              | some digits => (number digits).map (checkContent message.content index)

def checkBinding (node : Text) (messages : List Message) (index : Nat) (binding : Binding) :
    Outcome Unit :=
  match binding.target.bind Text.orAbsent with
  | none => .ok ()
  | some target =>
      match check messages target with
      | .error failure => .error failure
      | .ok none => .ok ()
      | .ok (some fault) => Outcome.reject (.bindingTarget node index target fault)

def checkBindingsFrom (node : Text) (messages : List Message) : Nat → List Binding → Outcome Unit
  | _, [] => .ok ()
  | index, binding :: rest =>
      match checkBinding node messages index binding with
      | .error failure => .error failure
      | .ok _ => checkBindingsFrom node messages (index + 1) rest

def checkBindings (node : Text) (messages : List Message) (bindings : List Binding) : Outcome Unit :=
  checkBindingsFrom node messages 0 bindings

end Target

def inputPointer (message content field : Text) : Text :=
  Text.concat ["/input/", message, "/content/", content, "/", field]

def outputPointer (output content field : Text) : Text :=
  Text.concat ["/output/", output, "/content/", content, "/", field]

def textOutputPointer : Text := outputPointer "0" "0" "text"

def systemTextPointer : Text := inputPointer "0" "0" "text"

def userTextPointer : Text := inputPointer "1" "0" "text"

end PlanFlow
