import Paddock.Fault

/-!
# Expected failures

What can keep a command from doing its work, as opposed to a fault of the program. Each failure has
a message for the user and one of three codes.
-/

namespace Paddock

set_option autoImplicit false

inductive FailureCode where
  | validation
  | precondition
  | externalCommand
deriving DecidableEq, Repr

def FailureCode.text : FailureCode → Text
  | validation => "validation_failed"
  | precondition => "precondition_failed"
  | externalCommand => "external_command_failed"

inductive Failure where
  | nameMissing
  | nameInvalid
  | nameHasSeparator
  | notInRepository
  | rootRefused (e : PathError)
  | poolExhausted
  | nameInUse (name : Text)
  | branchExists (name : Text)
  | addFailed (name details : Text)
  | removeFailed (name details : Text)
deriving DecidableEq, Repr

namespace Failure

def code : Failure → FailureCode
  | nameMissing | nameInvalid | nameHasSeparator => .validation
  | notInRepository | rootRefused _ | poolExhausted | nameInUse _ | branchExists _ => .precondition
  | addFailed _ _ | removeFailed _ _ => .externalCommand

/-- A message with the details, if there are any, on a line of their own. -/
def withDetails (message details : Text) : Text :=
  if details = [] then message else message ++ Text.newline :: details

def message : Failure → Text
  | nameMissing => "Usage: :destroy <animal>"
  | nameInvalid => "Workspace name must be lowercase letters or dashes."
  | nameHasSeparator => "Workspace name must not include path separators."
  | notInRepository => "Not inside a git repository."
  | rootRefused e => Text.ofString "Failed to create workspace root: " ++ e.message
  | poolExhausted => "No unused animal names available. Use :create <unique-name>."
  | nameInUse name =>
    Text.ofString "Workspace name '" ++ name ++ Text.ofString "' is already in use. Choose another."
  | branchExists name =>
    Text.ofString "Branch '" ++ name ++
      Text.ofString "' already exists. Choose another workspace name."
  | addFailed name details =>
    withDetails (Text.ofString "Failed to create workspace '" ++ name ++ Text.ofString "'.") details
  | removeFailed name details =>
    withDetails (Text.ofString "Failed to remove workspace '" ++ name ++ Text.ofString "'.") details

end Failure

end Paddock
