import Paddock.Workspace.Layout

/-!
# Command lines for git

The queries and changes that workspaces need, each as the command line that asks git for it.
-/

namespace Paddock.Git

set_option autoImplicit false

def showToplevel : List Text := List.map Text.ofString ["git", "rev-parse", "--show-toplevel"]

def listWorktrees : List Text := List.map Text.ofString ["git", "worktree", "list", "--porcelain"]

def verifyBranch (name : Text) : List Text :=
  List.map Text.ofString ["git", "show-ref", "--verify", "--quiet"] ++
    [Text.ofString "refs/heads/" ++ name]

def pruneWorktrees : List Text := List.map Text.ofString ["git", "worktree", "prune"]

/-- Where a new workspace starts unless another commit is named. -/
def headRef : Text := "HEAD"

/-- Adds a worktree for the workspace, on a new branch of its name that starts at `base`. -/
def addWorktree? (name base : Text) : Option (List Text) :=
  (Workspace.relativePath? name).map fun path =>
    ["git", "worktree", "add", path, "-b", name, base]

def removeWorktree? (name : Text) : Option (List Text) :=
  (Workspace.relativePath? name).map fun path => ["git", "worktree", "remove", path]

end Paddock.Git
