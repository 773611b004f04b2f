import Paddock.Text.Glyph

/-!
# Places

A place names something in the file system: its leading slashes and its components. Reading a text
as a place collapses repeated slashes and drops `.` components and the trailing slash; `..` stays.
Exactly two leading slashes stay two, any other number above one becomes one.
-/

namespace Paddock

set_option autoImplicit false

structure Place where
  /-- Zero for a relative place, otherwise one or two. -/
  leading : Nat
  parts : List Text
deriving DecidableEq, Repr, Inhabited

namespace Place

open Text (slash)

def here : Place := ⟨0, []⟩

/-- The absolute place with the given components. -/
def ofAddress (parts : List Text) : Place := ⟨1, parts⟩

def components (x : Text) : List Text :=
  (Text.splitAt slash x).filter fun part => part ≠ [] ∧ part ≠ [.char '.']

theorem components_append (x y : Text) :
    components (x ++ slash :: y) = components x ++ components y := by
  rw [components, Text.splitAt_append, List.filter_append]
  rfl

theorem components_eq_singleton {x : Text} (hslash : slash ∉ x) (hne : x ≠ [])
    (hdot : x ≠ [.char '.']) : components x = [x] := by
  rw [components, Text.splitAt_eq_singleton hslash]
  simp [hne, hdot]

def leadingSlashes (x : Text) : Nat :=
  match (x.takeWhile (· == slash)).length with
  | 0 => 0
  | 2 => 2
  | _ => 1

def ofText (x : Text) : Place := ⟨leadingSlashes x, components x⟩

def text (p : Place) : Text :=
  let x := List.replicate p.leading slash ++ Text.joinWith [slash] p.parts
  if x = [] then [.char '.'] else x

def isAbsolute (p : Place) : Bool := p.leading != 0

/-- The place without its last component; a place without components is its own parent. -/
def parent (p : Place) : Place := { p with parts := p.parts.dropLast }

def child (p : Place) (part : Text) : Place := { p with parts := p.parts ++ [part] }

theorem parent_child (p : Place) (part : Text) : (p.child part).parent = p := by
  simp [parent, child]

end Place

end Paddock
