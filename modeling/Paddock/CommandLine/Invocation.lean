import Paddock.Console.Level

/-!
# Invocations

The program's arguments are options, the name of a task, and what the task takes. Options stand
before the task's name; `--` ends them, and a dash alone is no option. A task's own arguments are
looked through for options too, of which `--help` is the only one. Asking for the version or for
help comes before anything that the other options say. What stands in the place of a task's name and
is none may still be an option that was kept from being read as one.
-/

namespace Paddock.CommandLine

set_option autoImplicit false

inductive Task where
  /-- Executes the words as one command line. -/
  | run (words : List Text)
  | shell
  | config
deriving DecidableEq, Repr

structure Options where
  /-- The level to set, by name. -/
  level : Option Text := none
  noColour : Bool := false
deriving DecidableEq, Repr

inductive Invocation where
  | version
  | help
  | task (options : Options) (task : Task)
deriving DecidableEq, Repr

inductive UsageError where
  | noArguments
  | unknownOption (argument : Text)
  | valueMissing (option : Text)
  | valueUnexpected (option : Text)
  | unknownLevel (value : Text)
  | taskMissing
  | unknownTask (name : Text)
  | wordsMissing
  | extraArgument (argument : Text)
deriving DecidableEq, Repr

namespace UsageError

def message : UsageError → Text
  | noArguments => "an argument is needed"
  | unknownOption argument => Text.ofString "no such option: " ++ argument
  | valueMissing option => Text.ofString "a value is needed after " ++ option
  | valueUnexpected option => Text.ofString "no value may follow " ++ option
  | unknownLevel value =>
    Text.ofString "no such level: " ++ value ++ Text.ofString "; there are " ++
      Text.joinWith (Text.ofString ", ") (Level.all.map Level.name)
  | taskMissing => "a task is needed: run, shell or config"
  | unknownTask name => Text.ofString "no such task: " ++ name
  | wordsMissing => "run needs a command line"
  | extraArgument argument => Text.ofString "unexpected argument: " ++ argument

end UsageError

def dash : Glyph := .char '-'

def endOfOptions : Text := "--"

/-- A dash with something after it. -/
def isOption (argument : Text) : Bool := argument.head? == some dash && 1 < argument.length

def splitValue (argument : Text) : Text × Option Text :=
  let isName (g : Glyph) : Bool := g != .char '='
  (argument.takeWhile isName, (argument.dropWhile isName).tail?)

structure Preamble where
  options : Options := {}
  /-- The first of the options that ask for the version or for help. -/
  asked : Option Invocation := none
deriving DecidableEq, Repr

namespace Preamble

def ask (invocation : Invocation) (p : Preamble) : Preamble :=
  { p with asked := p.asked.or (some invocation) }

def setLevel (value : Text) (p : Preamble) : Preamble :=
  { p with options := { p.options with level := some value } }

/-- The preamble with an option that takes no value; none if there is no such option. -/
def flag? (name : Text) (p : Preamble) : Option Preamble :=
  if name = Text.ofString "--no-color" then
    some { p with options := { p.options with noColour := true } }
  else if name = Text.ofString "--version" then some (p.ask .version)
  else if name = Text.ofString "--help" then some (p.ask .help)
  else none

def levelOption : Text := "--log-level"

/-- Reads options up to the first argument that is none, and leaves the rest. -/
def read (p : Preamble) : List Text → Except UsageError (Preamble × List Text)
  | [] => .ok (p, [])
  | argument :: rest =>
    if argument = endOfOptions then .ok (p, rest)
    else if !isOption argument then .ok (p, argument :: rest)
    else
      let (name, value?) := splitValue argument
      if name = levelOption then
        match value? with
        | some value => read (p.setLevel value) rest
        | none =>
          match rest with
          | value :: rest => read (p.setLevel value) rest
          | [] => .error (.valueMissing name)
      else
        match p.flag? name, value? with
        | none, _ => .error (.unknownOption argument)
        | some _, some _ => .error (.valueUnexpected name)
        | some p, none => read p rest

end Preamble

/-- A task's arguments apart from options, and whether `--help` is among them. -/
def readWords : List Text → Except UsageError (Bool × List Text)
  | [] => .ok (false, [])
  | argument :: rest =>
    if argument = endOfOptions then .ok (false, rest)
    else if !isOption argument then do
      let (help, words) ← readWords rest
      .ok (help, argument :: words)
    else if argument = Text.ofString "--help" then do
      let (_, words) ← readWords rest
      .ok (true, words)
    else .error (.unknownOption argument)

def bare (task : Task) (words : List Text) : Except UsageError Task :=
  match words with
  | [] => .ok task
  | argument :: _ => .error (.extraArgument argument)

def taskOf (name : Text) (words : List Text) : Except UsageError Task :=
  if name = Text.ofString "run" then
    if words = [] then .error .wordsMissing else .ok (.run words)
  else if name = Text.ofString "shell" then bare .shell words
  else if name = Text.ofString "config" then bare .config words
  else .error (.unknownTask name)

def taskNames : List Text := ["run", "shell", "config"]

/-- The invocation of arguments that begin with no task's name. They are read as options once more,
and asking for the version or for help is answered. -/
def readMisplaced (name : Text) (arguments : List Text) : Except UsageError Invocation := do
  let (preamble, _) ← Preamble.read {} (name :: arguments)
  match preamble.asked with
  | some invocation => .ok invocation
  | none => .error (.unknownTask name)

/-- Reads the name of a task and what it takes. -/
def readTask (options : Options) : List Text → Except UsageError Invocation
  | [] => .error .taskMissing
  | name :: arguments =>
    if name ∉ taskNames then readMisplaced name arguments
    else do
      let (help, words) ← readWords arguments
      if help then .ok .help else .ok (.task options (← taskOf name words))

def checkLevel (options : Options) : Except UsageError Unit :=
  match options.level with
  | none => .ok ()
  | some value => if (Level.ofText? value).isSome then .ok () else .error (.unknownLevel value)

def Invocation.ofArguments (arguments : List Text) : Except UsageError Invocation := do
  if arguments = [] then .error .noArguments
  else
    let (preamble, rest) ← Preamble.read {} arguments
    match preamble.asked with
    | some invocation => .ok invocation
    | none =>
      checkLevel preamble.options
      readTask preamble.options rest

end Paddock.CommandLine
