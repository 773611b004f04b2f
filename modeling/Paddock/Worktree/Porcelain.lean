import Paddock.Text.Blank

/-!
# Worktree listings

`git worktree list --porcelain` prints one stanza for each worktree: a line `worktree` with the
path, attribute lines, and an empty line. Reading goes line by line with at most one stanza open: a
`worktree` line opens one, an empty line or the next `worktree` line closes it, and lines outside a
stanza mean nothing. Lines are taken verbatim, so a path keeps its spaces.
-/

namespace Paddock

set_option autoImplicit false

structure Worktree where
  path : Text
  head : Option Text := none
  branch : Option Text := none
  detached : Bool := false
  bare : Bool := false
  locked : Bool := false
  prunable : Bool := false
deriving DecidableEq, Repr, Inhabited

namespace Worktree

def pathKeyword : Text := "worktree "

def branchPrefix : Text := "refs/heads/"

/-- A branch without its `refs/heads/`. -/
def shortBranch (ref : Text) : Text := (Text.dropFront? branchPrefix ref).getD ref

/-- The first word of an attribute line. -/
def keyword (line : Text) : Text := line.takeWhile (· != Text.space)

/-- What follows the first space of an attribute line, trimmed; none if that is blank. -/
def value? (line : Text) : Option Text :=
  let value := Text.trim ((line.dropWhile (· != Text.space)).drop 1)
  if value = [] then none else some value

/-- The worktree with one attribute line taken into account; unknown attributes change nothing. -/
def note (w : Worktree) (line : Text) : Worktree :=
  let key := keyword line
  if key = Text.ofString "HEAD" then { w with head := value? line }
  else if key = Text.ofString "branch" then { w with branch := value? line }
  else if key = Text.ofString "detached" then { w with detached := true }
  else if key = Text.ofString "bare" then { w with bare := true }
  else if key = Text.ofString "locked" then { w with locked := true }
  else if key = Text.ofString "prunable" then { w with prunable := true }
  else w

/-- The worktrees of the remaining lines, given the open stanza. -/
def ofLines : Option Worktree → List Text → List Worktree
  | current, [] => current.toList
  | current, line :: rest =>
    match Text.dropFront? pathKeyword line, current with
    | some path, _ => current.toList ++ ofLines (some { path }) rest
    | none, none => ofLines none rest
    | none, some w =>
      if line = [] then w :: ofLines none rest else ofLines (some (w.note line)) rest

/-- The worktrees of a listing, in its order. -/
def ofPorcelain (listing : Text) : List Worktree := ofLines none (Text.lines listing)

theorem ofPorcelain_nil : ofPorcelain [] = [] := rfl

end Worktree

end Paddock
