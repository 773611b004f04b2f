import Paddock.KeyChord
import Paddock.Settings.Load
import Paddock.Shell.Execution
import Paddock.Shell.Input

/-!
# Shell sessions

A session greets, then reads command lines and executes them one after the other until the input
ends. A line that is blank, or a colon alone, is passed over.
-/

namespace Paddock.Shell

set_option autoImplicit false

def advice : Text := "Type :help for commands. "

def farewellAdvice : Text := "End input (ctrl+d) to quit."

/-- Greets with the chord of the settings; a setting that is no chord is warned about. -/
def greet {σ : Type} (settings : Settings) : Action σ Fault Unit :=
  match KeyChord.ofText? settings.toggleMode with
  | some chord =>
    World.say .info (advice ++ Text.ofString "Mode toggle: " ++ chord.describe ++
      Text.ofString ". " ++ farewellAdvice)
  | none => do
    World.say .warning (Text.ofString "ignoring invalid keymap.toggle_mode: " ++
      Text.quoted settings.toggleMode)
    World.say .info (advice ++ farewellAdvice)

/-- Whether a line holds nothing to execute. -/
def isIdle (line : Text) : Bool :=
  Text.trim line == [] || Text.trim line == [Command.colon]

variable {σ : Type} (runner : Runner σ) (pool : List Text)

def obey (cwd : Place) (line : Text) : Action σ Fault Unit :=
  if isIdle line then pure ()
  else do
    let _ ← execute runner pool line cwd
    pure ()

/-- Reads and obeys the answers up to the end, writing `prompt` before each reading. -/
def serve (cwd : Place) (prompt : Text) : List (Option Text) → Action σ Fault Unit
  | [] => World.write prompt
  | none :: _ => World.write prompt
  | some line :: rest => do
    World.write prompt
    obey runner pool cwd line
    serve cwd prompt rest

def session (settings : Settings) (input : Input) (cwd : Place) : Action σ Fault Unit := do
  greet settings
  serve runner pool cwd input.prompt input.answers

end Paddock.Shell
