import Paddock.Room
import Paddock.Text.Glyph

/-!
# Scanning TOML

A scanner takes what it reads off the front of the characters and gives back the rest. Line ends are
single line feeds.
-/

namespace Paddock.Toml

set_option autoImplicit false

/-- What keeps a document from being read: it is malformed, has an integer of too many digits, or
has values too deep within each other. -/
inductive Flaw where
  | malformed
  | tooManyDigits (count : Nat)
  | tooDeep (overrun : Overrun)
deriving DecidableEq, Repr

def isBlank (c : Char) : Bool := c == ' ' || c == '\t'

/-- ASCII control characters other than the tab. -/
def isControl (c : Char) : Bool := (c.toNat < 32 && c != '\t') || c.toNat == 127

def skipBlank (s : List Char) : List Char := s.dropWhile isBlank

/-- The rest after a comment, which starts at `#` and ends before a line feed. -/
def skipComment : List Char → Except Flaw (List Char)
  | '#' :: s =>
    if (s.takeWhile (· != '\n')).any isControl then .error .malformed
    else .ok (s.dropWhile (· != '\n'))
  | s => .ok s

/-- The rest after blanks, line feeds and comments. -/
def skipFiller (inComment : Bool) : List Char → Except Flaw (List Char)
  | [] => .ok []
  | c :: s =>
    if c = '\n' then skipFiller false s
    else if inComment then (if isControl c then .error .malformed else skipFiller true s)
    else if c = '#' then skipFiller true s
    else if isBlank c then skipFiller false s
    else .ok (c :: s)

/-- The rest after `front`, if the characters start with it. -/
def dropFront? : (front s : List Char) → Option (List Char)
  | [], s => some s
  | _ :: _, [] => none
  | a :: front, b :: s => if a = b then dropFront? front s else none

end Paddock.Toml
