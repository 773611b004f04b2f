import Paddock.Path.Slashed
import Paddock.Path.Place

/-!
# Where workspaces live

The workspaces of a repository are the directories below `workspaces` in its root. A marker file
there keeps the directory from vanishing when it is empty.
-/

namespace Paddock.Workspace

set_option autoImplicit false

open Text (slash)

def directoryName : Text := "workspaces"

def markerName : Text := ".pepper-keep"

/-- The directory that holds every workspace of the repository. -/
def root (repoRoot : Text) : Text := Path.join [repoRoot, directoryName]

def marker (repoRoot : Text) : Place := .ofText (Path.join [root repoRoot, markerName])

def hasSeparator (name : Text) : Bool := name.any fun g => g == slash || g == .char '\\'

/-- The workspace's directory seen from the repository root; none for a name of several
components. -/
def relativePath? (name : Text) : Option Text :=
  if hasSeparator name then none else some (Path.join [directoryName, name])

/-- A path seen from the repository root, unless it is absolute. -/
def resolve (repoRoot path : Text) : Text :=
  let normal := Path.normalize path
  if Text.startsWith [slash] normal then normal else Path.join [repoRoot, normal]

/-- The workspace that a worktree path lies in, if it lies below the repository's workspaces. -/
def nameOfPath? (repoRoot path : Text) : Option Text :=
  match Text.dropFront? (root repoRoot ++ [slash]) (resolve repoRoot path) with
  | none => none
  | some below =>
    let name := below.takeWhile (· != slash)
    if name = [] then none else some name

theorem slash_not_mem_nameOfPath? {repoRoot path name : Text}
    (h : nameOfPath? repoRoot path = some name) : slash ∉ name := by
  unfold nameOfPath? at h
  split at h
  · simp at h
  · rename_i below _
    simp only [] at h
    split at h
    · simp at h
    · obtain rfl := Option.some.inj h
      intro hm
      have hall : (below.takeWhile (· != slash)).all (· != slash) = true := List.all_takeWhile
      simpa using List.all_eq_true.mp hall slash hm

end Paddock.Workspace
