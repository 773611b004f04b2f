import Paddock.World

/-!
# The workspace root

Before a workspace is made, its parent directory is made with an empty marker file in it.
-/

namespace Paddock.Workspace

set_option autoImplicit false

def nul : Glyph := .char '\x00'

/-- The tree with the workspace root and its marker in it, or why not, and how far it came. -/
def prepare (tree : FileTree) (cwd : Address) (repoRoot : Text)
    (room : Nat := Room.standard.directories) : Except Fault Unit × FileTree :=
  let marker := marker repoRoot
  if nul ∈ marker.text then (.error .embeddedNul, tree)
  else
    match FileTree.ensureDirectory tree cwd marker.parent room with
    | (.error (.refused e), tree) => (.error (.refused e), tree)
    | (.error (.tooDeep overrun), tree) => (.error (.tooDeep overrun), tree)
    | (.ok _, tree) =>
      match FileTree.truncate tree cwd marker with
      | .ok tree => (.ok (), tree)
      | .error r => (.error (.refused ⟨r, marker⟩), tree)

/-- Prepares the root of a repository. A refused path is a failure of the command. -/
def prepareRoot {σ : Type} (repoRoot : Text) : Action σ Halt Unit := do
  let w ← get
  let (result, files) := prepare w.files w.cwd repoRoot w.room.directories
  set { w with files }
  match result with
  | .ok () => pure ()
  | .error (.refused e) => throw (.failure (.rootRefused e))
  | .error f => throw (.fault f)

end Paddock.Workspace
