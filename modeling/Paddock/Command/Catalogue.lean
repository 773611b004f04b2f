import Paddock.Text.Glyph

/-!
# The commands there are
-/

namespace Paddock.Command

set_option autoImplicit false

structure Entry where
  name : Text
  description : Text
deriving DecidableEq, Repr

abbrev Catalogue := List Entry

def standard : Catalogue := [
  ⟨"create", "Create a workspace worktree (auto-pick name if omitted)"⟩,
  ⟨"destroy", "Destroy a workspace worktree (name required)"⟩,
  ⟨"list", "List workspaces in this repository"⟩,
  ⟨"create-pr", "Create a pull request"⟩,
  ⟨"open-pr", "Open the current pull request"⟩,
  ⟨"merge-pr", "Merge the current pull request"⟩,
  ⟨"help", "Show available commands"⟩]

def names (catalogue : Catalogue) : List Text := catalogue.map (·.name)

def longestName (catalogue : Catalogue) : Nat := ((names catalogue).map List.length).foldl max 0

/-- One line for each command, the descriptions below each other. -/
def helpLines (catalogue : Catalogue) : List Text :=
  catalogue.map fun entry =>
    .char ':' :: Text.padRight (longestName catalogue) entry.name ++ Text.space :: entry.description

end Paddock.Command
