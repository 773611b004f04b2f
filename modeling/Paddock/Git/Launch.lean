import Paddock.Git.Query
import Paddock.Workspace.Root

/-!
# Starting programs

A request is answered by a program found in a file tree: in the directory of the request if its
name has a slash, otherwise along a search path. A program that cannot be started is an outcome
that says why. Output is read leniently as UTF-8 with plain newlines.
-/

namespace Paddock.Launch

set_option autoImplicit false

inductive Ending where
  | exited (code : Nat)
  | killed (signal : Nat)
deriving DecidableEq, Repr

/-- The code of an ending: a signal counts below zero. -/
def Ending.code : Ending → Int
  | exited code => code
  | killed signal => -signal

structure Run where
  stdout : List UInt8
  stderr : List UInt8
  ending : Ending
deriving DecidableEq, Repr

structure Host where
  files : FileTree
  cwd : Address
  searchPath : List Text
  isExecutable : Address → Bool
  /-- What the program at an address does in a directory with its arguments. -/
  run : (program directory : Address) → (arguments : List Text) → Run

def notStarted : Int := -1

def refusedOutcome (r : Refusal) (subject : Text) : Outcome :=
  ⟨notStarted, [], r.message subject⟩

def decoded (bytes : List UInt8) : Text := Text.plainNewlines (Utf8.lenient bytes)

def outcomeOf (r : Run) : Outcome := ⟨r.ending.code, decoded r.stdout, decoded r.stderr⟩

def directoryAt (host : Host) (p : Place) : Except Refusal Address := do
  match ← FileTree.locate host.files host.cwd p with
  | (a, .directory) => .ok a
  | (_, .file _) => .error .notDirectory

/-- Whether a path can only lead to a directory. -/
def endsInDirectory (path : Text) : Bool :=
  [[], [Glyph.char '.'], [.char '.', .char '.']].contains
    ((Text.splitAt Text.slash path).getLast?.getD [])

def programAt (host : Host) (directory : Address) (path : Text) : Except Refusal Address := do
  if path = [] then .error .noEntry
  else if FileTree.pathLimit < FileTree.byteLength path then .error .nameTooLong
  else
    match ← FileTree.locate host.files directory (.ofText path) with
    | (_, .directory) => .error .denied
    | (a, .file _) =>
      if endsInDirectory path then .error .notDirectory
      else if host.isExecutable a then .ok a
      else .error .denied

/-- Whether a refusal only says that the program is not there. -/
def isAbsence (r : Refusal) : Bool := r == .noEntry || r == .notDirectory

/-- The first program among the paths. Where there is none, a refusal that says more than absence
is the reason, the last of several; `reason` is the one so far. -/
def firstProgram (host : Host) (directory : Address) (reason : Refusal) :
    List Text → Except Refusal Address
  | [] => .error reason
  | path :: rest =>
    match programAt host directory path with
    | .ok a => .ok a
    | .error r =>
      firstProgram host directory (if isAbsence r && !isAbsence reason then reason else r) rest

/-- The paths at which a program of a name may be. -/
def candidates (host : Host) (name : Text) : List Text :=
  if Text.slash ∈ name then [name]
  else host.searchPath.map fun directory => directory ++ Text.slash :: name

def quotedPlace (p : Place) : Text :=
  Text.ofString "PosixPath(" ++ Text.quoted p.text ++ Text.ofString ")"

/-- The longest word that a program can be given, in bytes. -/
def wordLimit : Nat := 131071

def start (host : Host) (request : Request) : Except Fault Outcome :=
  match request.argv with
  | [] => .error .noProgram
  | name :: arguments =>
    if request.argv.any (·.contains Workspace.nul) || request.cwd.text.contains Workspace.nul then
      .error .embeddedNul
    else
      match directoryAt host request.cwd with
      | .error r => .ok (refusedOutcome r (quotedPlace request.cwd))
      | .ok directory =>
        match firstProgram host directory .noEntry (candidates host name) with
        | .error r => .ok (refusedOutcome r (Text.quoted name))
        | .ok program =>
          if request.argv.any fun word => wordLimit < FileTree.byteLength word then
            .ok (refusedOutcome .argumentTooLong (Text.quoted name))
          else .ok (outcomeOf (host.run program directory arguments))

def absent {σ : Type} : Runner σ := fun request git =>
  (refusedOutcome .noEntry (Text.quoted (request.argv.headD [])), git)

variable {σ : Type}

/-- Runs a command line on a host. A request that cannot be put to the host is announced first. -/
def run (host : Host) (argv : List Text) (cwd : Place) : Action σ Fault Outcome :=
  match start host ⟨argv, cwd⟩ with
  | .ok outcome => Git.run (fun _ git => (outcome, git)) argv cwd
  | .error f => do
    World.say .debug (Git.announcement argv cwd)
    throw f

/-- The root of the repository that a directory of the host lies in. -/
def repoRoot? (host : Host) (cwd : Place) : Action σ Fault (Option Text) :=
  Git.rootFrom (run host · cwd)

/-- A program that exits with zero, and no other, makes an outcome that is ok. -/
theorem outcomeOf_ok_iff (r : Run) : (outcomeOf r).ok = true ↔ r.ending.code = 0 := by
  simp [outcomeOf, Outcome.ok]

end Paddock.Launch
