import Paddock.Command.Catalogue
import Paddock.Command.Lifecycle

/-!
# Performing commands

A command is performed by name. Its failure becomes a reply; a fault goes on.
-/

namespace Paddock.Command

set_option autoImplicit false

inductive Verb where
  | help
  | create
  | destroy
  | list
  /-- A command that only says that it is to come. -/
  | pending (notice : Text)
deriving DecidableEq, Repr

namespace Verb

def table : List (Text × Verb) := [
  ("help", help), ("create", create), ("destroy", destroy), ("list", list),
  ("create-pr", pending "PR creation is not implemented yet."),
  ("open-pr", pending "PR opening is not implemented yet."),
  ("merge-pr", pending "PR merge is not implemented yet.")]

def ofName? (name : Text) : Option Verb := table.lookup name

end Verb

def failureNotice (name : Text) (f : Failure) : Text :=
  .char ':' :: name ++ Text.ofString " failed (" ++ f.code.text ++ Text.ofString ")"

variable {σ : Type}

/-- The reply to a failure of the command called `name`, which is also logged. -/
def replyTo (name : Text) (f : Failure) : Action σ Fault Reply := do
  World.say .debug (failureNotice name f)
  pure ⟨false, f.message⟩

/-- Turns a failure of the command called `name` into a reply. -/
def settle (name : Text) (action : Action σ Halt Reply) : Action σ Fault Reply := fun w =>
  match action w with
  | .ok reply w => .ok reply w
  | .error (.fault f) w => .error f w
  | .error (.failure f) w => replyTo name f w

def unhandled (name : Text) (args : List Text) : Reply :=
  ⟨false, Text.trim (Text.ofString "Unhandled command: " ++ name ++ Text.space :: Text.words args)⟩

/-- Carries out what a command name stands for; `cwd` is the directory that it is given in. -/
def act (runner : Runner σ) (pool args : List Text) (cwd : Place) : Verb → Action σ Halt Reply
  | .help => pure ⟨true, Text.unlines (helpLines standard)⟩
  | .create => create runner pool args cwd
  | .destroy => destroy runner args cwd
  | .list => list runner cwd
  | .pending notice => pure ⟨true, notice⟩

def perform (runner : Runner σ) (pool : List Text) (name : Text) (args : List Text)
    (cwd : Place) : Action σ Fault Reply :=
  match Verb.ofName? name with
  | some verb => settle name (act runner pool args cwd verb)
  | none => pure (unhandled name args)

end Paddock.Command
