import Paddock.Console.State
import Paddock.Failure
import Paddock.FileTree.Directories
import Paddock.Git.Request
import Paddock.Workspace.Layout

/-!
# What commands act on

A world holds everything that a command can look at or change: what the runner of git requests
remembers, the file tree, the environment, the console, and the requests made so far. It also has
the room that recursions have in it. An action changes the world and gives a result or an error;
changes made before the error stay.
-/

namespace Paddock

set_option autoImplicit false

structure World (σ : Type) where
  git : σ
  files : FileTree
  /-- The working directory of the program. -/
  cwd : Address
  environment : Environment
  console : Console
  requests : List Request
  room : Room := .standard

abbrev Action (σ ε α : Type) := EStateM ε (World σ) α

/-- What stops a command: a failure that it reports, or a fault. -/
inductive Halt where
  | failure (f : Failure)
  | fault (f : Fault)
deriving DecidableEq, Repr

/-- An error type with the faults among its errors. -/
class HasFaults (ε : Type) where
  ofFault : Fault → ε

instance : HasFaults Fault := ⟨id⟩

instance : HasFaults Halt := ⟨.fault⟩

namespace World

variable {σ ε : Type}

/-- Writes a message in the style of its level. -/
def say [HasFaults ε] (level : Level) (message : Text) : Action σ ε Unit := fun w =>
  match w.console.emit w.environment level [] message with
  | .ok console => .ok () { w with console }
  | .error f => .error (HasFaults.ofFault f) w

def write (x : Text) : Action σ ε Unit :=
  modify fun w => { w with console := w.console.writeStdout x }

/-- Makes a request and keeps it in the list. -/
def ask (runner : Runner σ) (request : Request) : Action σ ε Outcome :=
  modifyGet fun w =>
    let (outcome, git) := runner request w.git
    (outcome, { w with git, requests := w.requests ++ [request] })

end World

end Paddock
