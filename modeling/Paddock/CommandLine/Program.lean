import Paddock.CommandLine.Invocation
import Paddock.Json.Printer
import Paddock.Shell.Session

/-!
# The program

An invocation is carried out and ends with an exit code: zero, one for a task that failed, two for
arguments that make no invocation. Help and complaints about arguments are laid out for the screen.
-/

namespace Paddock.CommandLine

set_option autoImplicit false

def versionText : Text := "0.1.0"

def helpText : Text := Text.unlines [
  "Manage disposable git worktree workspaces from a command line.",
  "",
  "  run WORDS...   execute one command line",
  "  shell          execute command lines until input ends",
  "  config         print the settings as JSON",
  "",
  "  --log-level NAME   --no-color   --version   --help"]

def writeLine {σ : Type} (x : Text) : Action σ Fault Unit := World.write (x ++ [Text.newline])

def writeNotice {σ : Type} (x : Text) : Action σ Fault Unit :=
  modify fun w => { w with console := w.console.writeStderr (x ++ [Text.newline]) }

def codeOf (reply : Command.Reply) : Nat := if reply.ok then 0 else 1

def configure {σ : Type} (options : Options) : Action σ Fault Unit := do
  if options.level.isSome then
    modify fun w => { w with console := w.console.setLevel options.level }
  if options.noColour then
    modify fun w => { w with console := w.console.setNoColour true }

def failWithout {σ : Type} (e : Settings.LoadError) : Action σ Fault Nat := do
  World.say .error e.message
  pure 1

/-- Carries out a task with the settings that hold in `cwd`; without settings it fails. -/
def withSettings {σ : Type} (cwd : Place) (task : Settings → Action σ Fault Nat) :
    Action σ Fault Nat := fun w =>
  match Settings.load (Settings.userFile w.environment) cwd w with
  | .ok settings w => task settings w
  | .error (.fault f) w => .error f w
  | .error e w => failWithout e w

def printSettings {σ : Type} (settings : Settings) : Action σ Fault Nat := do
  match Json.print (← get).room.items (.table settings.toTable) with
  | .ok document =>
    writeLine document
    pure 0
  | .error f => throw f

/-- Writes what is laid out for the screen: nothing if there is no room for it. -/
def layOut {σ : Type} (write : Action σ Fault Unit) : Action σ Fault Unit := fun w =>
  match Screen.hasRoom w.environment w.console.terminal with
  | .ok true => write w
  | .ok false => .ok () w
  | .error f => .error f w

variable {σ : Type} (runner : Runner σ) (pool : List Text)

def performTask (input : Shell.Input) (cwd : Place) : Task → Action σ Fault Nat
  | .run words => do
    let reply ← Shell.execute runner pool (Text.words words) cwd
    pure (codeOf reply)
  | .shell => withSettings cwd fun settings => do
    Shell.session runner pool settings input cwd
    pure 0
  | .config => withSettings cwd printSettings

def carryOut (input : Shell.Input) : Invocation → Action σ Fault Nat
  | .version => do
    writeLine versionText
    pure 0
  | .help => do
    layOut (World.write helpText)
    writeLine []
    pure 0
  | .task options task => do
    configure options
    performTask runner pool input (.ofAddress (← get).cwd) task

def usageCode : Nat := 2

def program (input : Shell.Input) (arguments : List Text) : Action σ Fault Nat :=
  match Invocation.ofArguments arguments with
  | .ok invocation => carryOut runner pool input invocation
  | .error e => do
    layOut (writeNotice e.message)
    pure usageCode

end Paddock.CommandLine
