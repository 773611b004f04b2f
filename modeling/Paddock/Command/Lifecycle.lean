import Paddock.Git.Query
import Paddock.Workspace.Name
import Paddock.Workspace.Root
import Paddock.Worktree.Names

/-!
# Making, removing and listing workspaces

Each command checks what it can before it asks git, and asks git for a change only when nothing
speaks against it.
-/

namespace Paddock.Command

set_option autoImplicit false

open World (say)

structure Reply where
  ok : Bool
  message : Text
deriving DecidableEq, Repr

variable {σ : Type} (runner : Runner σ)

def fail {α : Type} (f : Failure) : Action σ Halt α := throw (.failure f)

def requireSome {α : Type} (f : Failure) : Option α → Action σ Halt α
  | some a => pure a
  | none => fail f

def requireValid (name : Text) : Action σ Halt Unit :=
  if Workspace.isValidName name then pure () else fail .nameInvalid

def requireRoot (cwd : Place) : Action σ Halt Text := do
  requireSome .notInRepository (← Git.repoRoot? runner cwd)

/-- The name for a new workspace: the first argument, or else the first unused name of the pool. -/
def chooseName (pool used args : List Text) : Option Text :=
  match args with
  | name :: _ => some name
  | [] => Workspace.pickUnused used pool

def createdMessage (name path : Text) : Text :=
  Text.ofString "Created workspace '" ++ name ++ Text.ofString "' at " ++ path ++ Text.ofString "."

def removedMessage (name path : Text) : Text :=
  Text.ofString "Removed workspace '" ++ name ++ Text.ofString "' from " ++ path ++
    Text.ofString "."

/-- Requires that a workspace of this name can be made beside the names in use. -/
def requireFree (repoRoot : Text) (used : List Text) (name : Text) : Action σ Halt Unit := do
  requireValid name
  if used.contains name then fail (.nameInUse name)
  if ← Git.branchExists runner repoRoot name then fail (.branchExists name)

def add (repoRoot name : Text) : Action σ Halt Reply := do
  let path ← requireSome .nameHasSeparator (Workspace.relativePath? name)
  let argv ← requireSome .nameHasSeparator (Git.addWorktree? name Git.headRef)
  say .debug (Text.ofString "creating workspace: " ++ Text.words argv)
  let outcome ← Git.run runner argv (.ofText repoRoot)
  if outcome.ok then
    pure ⟨true, Failure.withDetails (createdMessage name path) outcome.details⟩
  else fail (.addFailed name outcome.details)

def create (pool args : List Text) (cwd : Place) : Action σ Halt Reply := do
  let repoRoot ← requireRoot runner cwd
  Workspace.prepareRoot repoRoot
  let used := Worktree.usedNames (← Git.worktrees runner repoRoot) repoRoot
  let name ← requireSome .poolExhausted (chooseName pool used args)
  requireFree runner repoRoot used name
  add runner repoRoot name

/-- Removes the worktree of a workspace; its branch stays. -/
def destroy (args : List Text) (cwd : Place) : Action σ Halt Reply := do
  let name ← requireSome .nameMissing args.head?
  requireValid name
  let repoRoot ← requireRoot runner cwd
  let path ← requireSome .nameHasSeparator (Workspace.relativePath? name)
  let argv ← requireSome .nameHasSeparator (Git.removeWorktree? name)
  let outcome ← Git.run runner argv (.ofText repoRoot)
  if outcome.ok then
    pure ⟨true, Failure.withDetails (removedMessage name path) outcome.details⟩
  else fail (.removeFailed name outcome.details)

def listing (names : List Text) : Text :=
  if names = [] then "No workspaces yet." else Text.unlines names

def list (cwd : Place) : Action σ Halt Reply := do
  let repoRoot ← requireRoot runner cwd
  let worktrees ← Git.worktrees runner repoRoot
  pure ⟨true, listing (Worktree.listedNames worktrees repoRoot)⟩

end Paddock.Command
