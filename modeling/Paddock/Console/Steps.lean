import Paddock.Console.State

/-!
# Sequences of console operations

The operations that change or consult the console, as steps. A sequence is carried out from a
console and an environment, and each step has an answer.
-/

namespace Paddock.Console

set_option autoImplicit false

inductive Step where
  | setLevel (setting : Option Text)
  | askLevel
  | askEnabled (level : Level)
  | setNoColour (value : Bool)
  | setVariable (name : Text) (value : Option Text)
  | emit (level : Level) (definition message : Text)
deriving DecidableEq, Repr

inductive Answer where
  | done
  | level (level : Level)
  | enabled (value : Bool)
  /-- What a message added to the two streams. -/
  | written (stdout stderr : Text)
deriving DecidableEq, Repr

/-- A console and the environment that it consults. -/
structure Setting where
  environment : Environment
  console : Console
deriving Repr

namespace Setting

def change (s : Setting) (f : Console → Console) : Setting := { s with console := f s.console }

def levelAnswer (s : Setting) : Answer × Setting :=
  let (level, console) := s.console.levelInForce s.environment
  (.level level, { s with console })

def perform (s : Setting) : Step → Except Fault (Answer × Setting)
  | .setLevel setting => .ok (s.change (Console.setLevel setting)).levelAnswer
  | .askLevel => .ok s.levelAnswer
  | .askEnabled level =>
    let (enabled, console) := s.console.isEnabled s.environment level
    .ok (.enabled enabled, { s with console })
  | .setNoColour value => .ok (.done, s.change (Console.setNoColour value))
  | .setVariable name value => .ok (.done, { s with environment := s.environment.set name value })
  | .emit level definition message => do
    let console ← s.console.emit s.environment level definition message
    .ok (.written (console.stdout.drop s.console.stdout.length)
      (console.stderr.drop s.console.stderr.length), { s with console })

/-- A fault ends the sequence. -/
def performAll (s : Setting) : List Step → Except Fault (List Answer × Setting)
  | [] => .ok ([], s)
  | step :: rest => do
    let (answer, next) ← s.perform step
    let (answers, last) ← next.performAll rest
    .ok (answer :: answers, last)

end Setting

end Paddock.Console
