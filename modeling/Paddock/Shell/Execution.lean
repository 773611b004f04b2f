import Paddock.Command.Completion
import Paddock.Command.Perform

/-!
# Executing command lines

A command line is read against the standard catalogue and performed, and its reply is logged.
-/

namespace Paddock.Shell

set_option autoImplicit false

open Command (Reply)

variable {σ : Type} (runner : Runner σ) (pool : List Text)

/-- What a line answers: the reply of its command, or what is wrong with it. -/
def answer (line : Text) (cwd : Place) : Action σ Fault Reply :=
  match Command.parseLine Command.standard line with
  | .ok command => Command.perform runner pool command.name command.args cwd
  | .error misread => pure ⟨false, Command.explain Command.standard misread.error⟩

def report (reply : Reply) : Action σ Fault Unit :=
  World.say (if reply.ok then .success else .error) reply.message

def execute (line : Text) (cwd : Place) : Action σ Fault Reply := do
  let reply ← answer runner pool line cwd
  report reply
  pure reply

end Paddock.Shell
