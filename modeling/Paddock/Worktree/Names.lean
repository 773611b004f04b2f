import Paddock.Worktree.Porcelain
import Paddock.Workspace.Layout

/-!
# Names taken by worktrees

A worktree takes the name of the workspace directory it lies in and the short name of the branch
checked out in it, so that a new workspace can collide with neither.
-/

namespace Paddock.Worktree

set_option autoImplicit false

def directoryNames (worktrees : List Worktree) (repoRoot : Text) : List Text :=
  worktrees.filterMap fun w => Workspace.nameOfPath? repoRoot w.path

/-- The short name of the branch checked out in the worktree. -/
def branchName? (w : Worktree) : Option Text :=
  if w.detached then none else w.branch.map shortBranch

def takenBy (repoRoot : Text) (w : Worktree) : List Text :=
  (Workspace.nameOfPath? repoRoot w.path).toList ++ w.branchName?.toList

/-- The names that a new workspace must not have. -/
def usedNames (worktrees : List Worktree) (repoRoot : Text) : List Text :=
  worktrees.flatMap (takenBy repoRoot)

/-- The workspaces that have a worktree, ascending. -/
def listedNames (worktrees : List Worktree) (repoRoot : Text) : List Text :=
  Text.sortedSet (directoryNames worktrees repoRoot)

theorem mem_usedNames_of_mem_directoryNames {worktrees : List Worktree} {repoRoot name : Text}
    (h : name ∈ directoryNames worktrees repoRoot) : name ∈ usedNames worktrees repoRoot := by
  obtain ⟨w, hw, hn⟩ := List.mem_filterMap.mp h
  exact List.mem_flatMap.mpr ⟨w, hw, by simp [takenBy, hn]⟩

end Paddock.Worktree
