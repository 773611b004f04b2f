/-!
# Room for recursion

Going into data level by level takes a place on the interpreter's stack for each level. The stack
has a thousand places, of which the callers of a recursion hold some, so that the room it has is
given by the run and not by the recursion. Where it does not suffice there is a fault.
-/

namespace Paddock

set_option autoImplicit false

/-- The levels that there is room for in each recursion whose depth the data decides. The standard
figures are those of a thousand places less what the program's own calls hold of them. -/
structure Room where
  /-- Calls that read a value of a settings file. An array takes two of them for itself and an
  inline table three. -/
  values : Nat := 991
  /-- Tables within each other whose keys are normalised. Laying the outcome over another table
  needs no more. -/
  tables : Nat := 993
  /-- Missing directories above another one. -/
  directories : Nat := 986
  /-- Items within each other that are printed. -/
  items : Nat := 983
deriving DecidableEq, Repr

def Room.standard : Room := {}

/-- What was to be done when there was no room for it. -/
inductive Overrun where
  | call
  | primitive
  | comparison
  | typeCheck
deriving DecidableEq, Repr

end Paddock
