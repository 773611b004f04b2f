import Paddock.Git.Argv
import Paddock.World
import Paddock.Worktree.Porcelain

/-!
# Asking git

Every request is logged before it is made, its output after, and its exit code if it failed. A
failed query is no answer, not an error.
-/

namespace Paddock.Git

set_option autoImplicit false

open World (say ask)

variable {σ ε : Type} [HasFaults ε] (runner : Runner σ)

def announcement (argv : List Text) (cwd : Place) : Text :=
  Text.ofString "$ " ++ Text.words argv ++ Text.ofString " (cwd=" ++ cwd.text ++ Text.ofString ")"

def exitNotice (argv : List Text) (exitCode : Int) : Text :=
  Text.ofString "exit " ++ Text.ofInt exitCode ++ Text.ofString ": " ++ Text.words argv

def traceOutput (x : Text) : Action σ ε Unit :=
  if Text.isBlank x then pure () else say .trace (Text.trimRight x)

def run (argv : List Text) (cwd : Place) : Action σ ε Outcome := do
  say .debug (announcement argv cwd)
  let outcome ← ask runner ⟨argv, cwd⟩
  traceOutput outcome.stdout
  traceOutput outcome.stderr
  if outcome.ok then pure () else say .debug (exitNotice argv outcome.exitCode)
  pure outcome

/-- The text without one line feed at its end. -/
def dropLineFeed (x : Text) : Text :=
  if x.getLast? = some Text.newline then x.dropLast else x

/-- The repository root that the answer to `showToplevel` names. -/
def rootOf (outcome : Outcome) : Option Text :=
  let root := dropLineFeed outcome.stdout
  if outcome.ok && root ≠ [] then some root else none

/-- The root that is named where `showToplevel` is run, given how to run it. -/
def rootFrom (run : List Text → Action σ ε Outcome) : Action σ ε (Option Text) := do
  let outcome ← run showToplevel
  pure (rootOf outcome)

/-- The root of the repository that a directory lies in. -/
def repoRoot? (cwd : Place) : Action σ ε (Option Text) := rootFrom (run runner · cwd)

/-- The worktrees that the answer to `listWorktrees` names; none if it failed. -/
def worktreesOf (outcome : Outcome) : List Worktree :=
  if outcome.ok then Worktree.ofPorcelain outcome.stdout else []

def worktrees (repoRoot : Text) : Action σ ε (List Worktree) := do
  let outcome ← run runner listWorktrees (.ofText repoRoot)
  pure (worktreesOf outcome)

def branchExists (repoRoot name : Text) : Action σ ε Bool := do
  let outcome ← run runner (verifyBranch name) (.ofText repoRoot)
  pure outcome.ok

end Paddock.Git
