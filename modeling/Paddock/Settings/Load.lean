import Paddock.Failure
import Paddock.Settings.Basic
import Paddock.Settings.Key
import Paddock.Settings.Location
import Paddock.Settings.Merge
import Paddock.Toml.Reader
import Paddock.Workspace.Root
import Paddock.World

/-!
# Loading settings

The user's file is read first and the workspace's laid over it. A missing or blank file counts for
nothing. The merged table is validated as a whole.
-/

namespace Paddock.Settings

set_option autoImplicit false

/-- Why there are no settings. What the readers of TOML and of settings say of a flaw themselves is
not told. -/
inductive LoadError where
  /-- The file is not TOML. -/
  | malformed (file : Place)
  /-- The values of the files do not fit. -/
  | invalid (files : List Place) (issue : Issue)
  | fault (f : Fault)
deriving DecidableEq, Repr

instance : HasFaults LoadError := ⟨.fault⟩

def invalidNotice (source : Text) : Text :=
  if source = [] then "invalid config" else Text.ofString "invalid config from " ++ source

def sourceText (files : List Place) : Text :=
  Text.joinWith (Text.ofString ", ") (files.map Place.text)

def LoadError.message : LoadError → Text
  | malformed file => Text.ofString "invalid config at " ++ file.text
  | invalid files _ => invalidNotice (sourceText files)
  | fault f => f.message

/-- The table that a file's content describes; none if the content is blank. -/
def tableOf? (room : Nat) (file : Place) (content : List UInt8) : Except LoadError (Option Table) :=
  match Utf8.strict? content with
  | none => .error (.fault .undecodable)
  | some chars =>
    let x := Text.plainNewlines (Text.ofChars chars)
    if Text.isBlank x then .ok none
    else
      match Toml.read (x.filterMap fun | .char c => some c | .raw _ => none) room with
      | .ok table => .ok (some table)
      | .error .malformed => .error (.malformed file)
      | .error (.tooManyDigits n) => .error (.fault (.integerTooLong n))
      | .error (.tooDeep overrun) => .error (.fault (.tooDeep overrun))

/-- The table with its keys normalised, where there is room for its depth. -/
def normalized (room : Nat) (table : Table) : Except LoadError Table :=
  if room < tableDepth (.table table) then .error (.fault (.tooDeep .primitive))
  else .ok (normalizeKeys table)

variable {σ : Type}

/-- The content of a file, if there is one. A path with a NUL leads to none. -/
def contentOf? (w : World σ) (file : Place) : Except LoadError (Option (List UInt8)) :=
  if Workspace.nul ∈ file.text then .ok none
  else
    match FileTree.readFile w.files w.cwd file with
    | .ok content => .ok content
    | .error r => .error (.fault (.refused ⟨r, file⟩))

def lift {α : Type} (r : Except LoadError α) : Action σ LoadError α :=
  match r with
  | .ok a => pure a
  | .error e => throw e

/-- Loads one file, its keys normalised; none if it is missing or blank. -/
def loadFile (file : Place) : Action σ LoadError (Option Table) := do
  let w ← get
  match ← lift (contentOf? w file) with
  | none => pure none
  | some content =>
    match ← lift (tableOf? w.room.values file content) with
    | none => pure none
    | some table =>
      World.say .debug (Text.ofString "loaded config from " ++ file.text)
      pure (some (← lift (normalized w.room.tables table)))

def presentFiles : List Place → Action σ LoadError (List Place)
  | [] => pure []
  | file :: rest => do
    let content ← lift (contentOf? (← get) file)
    let others ← presentFiles rest
    pure (if content.isSome then file :: others else others)

def loadAll (under : Table) : List Place → Action σ LoadError Table
  | [] => pure under
  | file :: rest => do
    let table ← loadFile file
    loadAll (overlay under (table.getD [])) rest

/-- The settings that hold in a directory. -/
def load (userFile cwd : Place) : Action σ LoadError Settings := do
  let files := [userFile, workspaceFile cwd]
  let present ← presentFiles files
  let table ← loadAll [] files
  match Settings.ofValue (.table table) with
  | .ok settings => pure settings
  | .error issue => throw (.invalid present issue)

end Paddock.Settings
