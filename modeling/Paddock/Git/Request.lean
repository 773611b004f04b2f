import Paddock.Path.Place
import Paddock.Text.Blank

/-!
# Requests to git

A request is a command line and the place to run it in; an outcome is what came of it. Exit code
zero is success. A negative code is a signal, or -1 if the program could not be started.
-/

namespace Paddock

set_option autoImplicit false

structure Request where
  argv : List Text
  cwd : Place
deriving DecidableEq, Repr

structure Outcome where
  exitCode : Int
  stdout : Text
  stderr : Text
deriving DecidableEq, Repr

/-- Something that answers requests, and may remember them. -/
abbrev Runner (σ : Type) := Request → σ → Outcome × σ

namespace Outcome

def ok (o : Outcome) : Bool := o.exitCode == 0

/-- Both streams trimmed, one line apart; a blank stream is left out. -/
def details (o : Outcome) : Text :=
  Text.unlines ([Text.trim o.stdout, Text.trim o.stderr].filter (· ≠ []))

end Outcome

end Paddock
