import Paddock.CommandLine.Program
import Paddock.Git.Launch

/-!
# Entry point

Reads the environment, the settings files and standard input, runs the program on them, and writes
what it leaves on the console. No program is started from here, so git counts as not installed.
-/

namespace Paddock.EntryPoint

set_option autoImplicit false

def toText (s : String) : Text := Text.ofString s

def toString (x : Text) : String :=
  String.ofList (x.filterMap fun
    | .char c => some c
    | .raw _ => none)

def variableNames : List String :=
  ["XDG_CONFIG_HOME", "HOME", "BLACKPEPPER_LOG_LEVEL", "NO_COLOR", "BLACKPEPPER_NO_COLOR",
    "TTY_COMPATIBLE", "FORCE_COLOR", "TERM", "COLORTERM", "COLUMNS", "LINES"]

def readEnvironment : IO Environment :=
  variableNames.filterMapM fun name => do
    let value ← IO.getEnv name
    pure (value.map fun v => (toText name, toText v))

/-- The tree with the file at a place in it, if there is one. -/
def readFile (cwd : Address) (tree : FileTree) (file : Place) : IO FileTree := do
  try
    let content ← IO.FS.readBinFile (toString file.text)
    pure (FileTree.withFile tree (FileTree.start cwd file ++ file.parts) content.toList)
  catch _ => pure tree

partial def readAll (stream : IO.FS.Stream) (done : ByteArray) : IO ByteArray := do
  let chunk ← stream.read 65536
  if chunk.isEmpty then pure done else readAll stream (done ++ chunk)

def readInput (arguments : List Text) : IO Shell.Input := do
  match CommandLine.Invocation.ofArguments arguments with
  | .ok (.task _ .shell) =>
    let content ← readAll (← IO.getStdin) ByteArray.empty
    pure (Shell.Input.ofText (Utf8.lenient content.toList))
  | _ => pure (Shell.Input.ofText [])

def writeAll (stream : IO.FS.Stream) (x : Text) : IO Unit := do
  stream.write (ByteArray.mk (Utf8.encode x).toArray)
  stream.flush

def run (arguments : List Text) : IO UInt32 := do
  let environment ← readEnvironment
  let cwd := (Place.ofText (toText (← IO.currentDir).toString)).parts
  let places := [Settings.userFile environment, Settings.workspaceFile (.ofAddress cwd)]
  let tree := FileTree.withDirectories [] [] cwd
  let files ← places.foldlM (readFile cwd) tree
  let input ← readInput arguments
  let stdout ← IO.getStdout
  let terminal ← stdout.isTty
  let world : World Unit :=
    { git := (), files, cwd, environment, console := { terminal }, requests := [] }
  let (code, world, notice) :=
    match CommandLine.program Launch.absent Workspace.animals input arguments world with
    | .ok code world => (code, world, [])
    | .error f world => (1, world, f.message ++ [Text.newline])
  writeAll stdout world.console.stdout
  writeAll (← IO.getStderr) (world.console.stderr ++ notice)
  pure (UInt32.ofNat code)

end Paddock.EntryPoint

def main (arguments : List String) : IO UInt32 :=
  Paddock.EntryPoint.run (arguments.map Paddock.EntryPoint.toText)
