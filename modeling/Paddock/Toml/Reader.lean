import Paddock.Toml.Value

/-!
# Reading documents

A document is read line by line: a line is blank, opens a section by a header, or assigns a value to
a key of the section; a comment may end it.
-/

namespace Paddock.Toml

set_option autoImplicit false

/-- What has been read: the content, and the section that is open. -/
structure Draft where
  content : Children
  number : Nat
  header : List Text

namespace Draft

def empty : Draft := ⟨[], 0, []⟩

def openNext (d : Draft) (header : List Text)
    (change : Nat → Text → Children → Option Children) : Except Flaw Draft :=
  match openSection (change (d.number + 1)) header d.content with
  | some content => .ok ⟨content, d.number + 1, header⟩
  | none => .error .malformed

def put (d : Draft) (path : List Text) (value : Value) : Except Flaw Draft :=
  match within (assign d.number value path) d.header d.content with
  | some content => .ok { d with content }
  | none => .error .malformed

end Draft

/-- A header without its first bracket. -/
def headerStatement (d : Draft) : List Char → Except Flaw (Draft × List Char)
  | '[' :: s => do
    let (path, s) ← key (skipBlank s)
    let d ← d.openNext path fun _ => startTable
    match s with
    | ']' :: ']' :: s => .ok (d, s)
    | _ => .error .malformed
  | s => do
    let (path, s) ← key (skipBlank s)
    let d ← d.openNext path claimTable
    match s with
    | ']' :: s => .ok (d, s)
    | _ => .error .malformed

def pairStatement (room : Nat) (d : Draft) (s : List Char) : Except Flaw (Draft × List Char) := do
  let (path, s) ← key s
  match s with
  | '=' :: s => do
    let (value, s) ← value room (skipBlank s)
    let d ← d.put path value
    .ok (d, s)
  | _ => .error .malformed

/-- What a line says, its comment and its end apart. -/
def statement (room : Nat) (d : Draft) (s : List Char) : Except Flaw (Draft × List Char) :=
  match s with
  | [] => .ok (d, [])
  | c :: rest =>
    if c = '[' then headerStatement d rest
    else if c = '#' ∨ c = '\n' then .ok (d, s)
    else pairStatement room d s

/-- Reads line by line; each line but the last takes its line feed. -/
def readLines (room : Nat) : (fuel : Nat) → Draft → List Char → Except Flaw Draft
  | 0, _, _ => .error .malformed
  | fuel + 1, d, s => do
    let (d, s) ← statement room d (skipBlank s)
    match ← skipComment (skipBlank s) with
    | [] => .ok d
    | '\n' :: s => readLines room fuel d s
    | _ => .error .malformed

def read (s : List Char) (room : Nat := Room.standard.values) : Except Flaw Table :=
  (readLines room (s.length + 1) Draft.empty s).map fun d => toFields d.content

end Paddock.Toml
