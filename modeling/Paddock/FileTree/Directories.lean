import Paddock.FileTree.Basic
import Paddock.Room

/-!
# Directories with their parents

Making a directory together with the missing directories above it. It is tried first by itself; if
something above it is missing then its parent is made in the same way, one call within the other.
What was made before a refusal stays, and so does what was made before there was no room left.
-/

namespace Paddock

set_option autoImplicit false

structure PathError where
  refusal : Refusal
  place : Place
deriving DecidableEq, Repr

inductive DirectoryError where
  | refused (e : PathError)
  /-- More directories above it are missing than there is room for. -/
  | tooDeep (overrun : Overrun)
deriving DecidableEq, Repr

namespace FileTree

/-- Makes the directory that a component leads to from the directory at `at_`, unless it is there,
and gives its address. -/
def ensureBelow (tree : FileTree) (at_ : Address) (part : Text) :
    Except Refusal (Address × FileTree) :=
  match find tree at_ part with
  | .ok .directory => .ok (below at_ part, tree)
  | .ok (.file _) => .error .alreadyExists
  | .error .noEntry => .ok (below at_ part, insert tree (below at_ part) .directory)
  | .error r => .error r

theorem get?_of_ensureBelow {tree made : FileTree} {at_ a : Address} {part : Text}
    (h : ensureBelow tree at_ part = .ok (a, made)) : get? made a = some .directory := by
  unfold ensureBelow find at h
  split at h
  · rename_i hf
    simp only [Except.ok.injEq, Prod.mk.injEq] at h
    obtain ⟨rfl, rfl⟩ := h
    split at hf
    · simp at hf
    · split at hf <;> simp_all
  · simp at h
  · rename_i hf
    simp only [Except.ok.injEq, Prod.mk.injEq] at h
    obtain ⟨rfl, rfl⟩ := h
    have hne : below at_ part ≠ [] := by
      intro he
      simp [he, get?] at hf
      split at hf <;> simp at hf
    simp [get?_insert hne]
  · simp at h

/-- Makes the directory at a place, unless it is there, below one that is. -/
def ensureAt (tree : FileTree) (cwd : Address) (p : Place) : Except Refusal (Address × FileTree) :=
  if pathLimit < byteLength p.text then .error .nameTooLong
  else
    match p.parts.getLast? with
    | none => .ok (start cwd p, tree)
    | some last => do
      let at_ ← enter tree (start cwd p) p.parts.dropLast
      ensureBelow tree at_ last

/-- How a call ends that tried to make the directory at `place`. What stands there already is looked
at, which takes one more call. -/
def settled (tree : FileTree) (place : Place) (room : Nat) :
    Except Refusal (Address × FileTree) → Except DirectoryError Address × FileTree
  | .ok (a, made) =>
    if room = 0 ∧ get? tree a ≠ none then (.error (.tooDeep .call), tree) else (.ok a, made)
  | .error r =>
    if room = 0 then (.error (.tooDeep .call), tree) else (.error (.refused ⟨r, place⟩), tree)

/-- Makes the directory whose components are `inner` reversed, and up to `room` of those above. -/
def ensureFrom (tree : FileTree) (cwd : Address) (leading : Nat) :
    (room : Nat) → (inner : List Text) → Except DirectoryError Address × FileTree
  | room, inner =>
    let place : Place := ⟨leading, inner.reverse⟩
    match ensureAt tree cwd place, inner, room with
    | .error .noEntry, _ :: _, 0 => (.error (.tooDeep .primitive), tree)
    | .error .noEntry, part :: above, room + 1 =>
      match ensureFrom tree cwd leading room above with
      | (.error e, tree) => (.error e, tree)
      -- tried again from within the call that made its parent
      | (.ok a, tree) => settled tree place room (ensureBelow tree a part)
    | tried, _, _ => settled tree place room tried

/-- Makes the directory at a place and those above it, unless they are there. There is room for
`room` calls within each other, and for one more that has nothing to look at. -/
def ensureDirectory (tree : FileTree) (cwd : Address) (p : Place) (room : Nat) :
    Except DirectoryError Address × FileTree :=
  ensureFrom tree cwd p.leading (room + 1) p.parts.reverse

/-- The tree with a directory at the address `above ++ parts` and at those in between. -/
def withDirectories (tree : FileTree) (above : Address) : (parts : List Text) → FileTree
  | [] => tree
  | part :: rest =>
    let a := above ++ [part]
    withDirectories (if (get? tree a).isSome then tree else insert tree a .directory) a rest

/-- The tree with a file at an address and directories above it. -/
def withFile (tree : FileTree) (a : Address) (content : List UInt8) : FileTree :=
  insert (withDirectories tree [] a.dropLast) a (.file content)

end FileTree

end Paddock
