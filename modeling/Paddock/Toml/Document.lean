import Paddock.Value.Basic

/-!
# Documents under construction

A document grows statement by statement. A table remembers which section gave it its content, if
one did: a header can claim a table only once, and dotted keys extend only tables that no other
section has claimed. Values, inline tables and arrays among them, are never extended.
-/

namespace Paddock.Toml

set_option autoImplicit false

inductive Node where
  | leaf (value : Value)
  /-- A table and the number of the section that claimed it. -/
  | table (claim : Option Nat) (children : List (Text × Node))
  /-- An array of tables; only its last table can grow. -/
  | tables (earlier : List (List (Text × Node))) (last : List (Text × Node))

abbrev Children := Fields Node

mutual

def Node.toValue : Node → Value
  | .leaf value => value
  | .table _ children => .table (toFields children)
  | .tables earlier last => .array (toItems earlier ++ [.table (toFields last)])

def toFields : List (Text × Node) → List (Text × Value)
  | [] => []
  | (key, node) :: rest => (key, node.toValue) :: toFields rest

def toItems : List (List (Text × Node)) → List Value
  | [] => []
  | children :: rest => .table (toFields children) :: toItems rest

end

/-- The document with `change` made to the table that a header path leads to. Missing tables come
into being without a claim. -/
def within (change : Children → Option Children) : List Text → Children → Option Children
  | [], children => change children
  | key :: path, children =>
    match Fields.get? children key with
    | none =>
      (within change path []).map fun inner => Fields.put children key (.table none inner)
    | some (.table claim inner) =>
      (within change path inner).map fun inner => Fields.put children key (.table claim inner)
    | some (.tables earlier last) =>
      (within change path last).map fun last => Fields.put children key (.tables earlier last)
    | some (.leaf _) => none

/-- Puts a value under a dotted key, claiming the tables on the way for the section. -/
def assign (here : Nat) (value : Value) : List Text → Children → Option Children
  | [], _ => none
  | [key], children =>
    match Fields.get? children key with
    | none => some (Fields.put children key (.leaf value))
    | some _ => none
  | key :: path, children =>
    match Fields.get? children key with
    | none =>
      (assign here value path []).map fun inner =>
        Fields.put children key (.table (some here) inner)
    | some (.table claim inner) =>
      if claim = none ∨ claim = some here then
        (assign here value path inner).map fun inner =>
          Fields.put children key (.table (some here) inner)
      else none
    | some _ => none

/-- Claims the table under a key for a section. -/
def claimTable (here : Nat) (key : Text) (children : Children) : Option Children :=
  match Fields.get? children key with
  | none => some (Fields.put children key (.table (some here) []))
  | some (.table none inner) => some (Fields.put children key (.table (some here) inner))
  | some _ => none

/-- Starts the next table of the array under a key. -/
def startTable (key : Text) (children : Children) : Option Children :=
  match Fields.get? children key with
  | none => some (Fields.put children key (.tables [] []))
  | some (.tables earlier last) =>
    some (Fields.put children key (.tables (earlier ++ [last]) []))
  | some _ => none

def openSection (change : Text → Children → Option Children) (header : List Text)
    (children : Children) : Option Children :=
  match header.getLast? with
  | none => none
  | some key => within (change key) header.dropLast children

end Paddock.Toml
