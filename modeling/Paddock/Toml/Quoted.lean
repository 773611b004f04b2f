import Paddock.Toml.Scan

/-!
# Strings

Basic strings stand in double quotes and have escapes; literal strings stand in single quotes and
have none. Tripled quotes let a string run over several lines; up to two more quotes before the
closing three belong to the string.
-/

namespace Paddock.Toml

set_option autoImplicit false

def hexValue? (c : Char) : Option Nat :=
  if '0' ≤ c ∧ c ≤ '9' then some (c.toNat - 48)
  else if 'a' ≤ c ∧ c ≤ 'f' then some (c.toNat - 87)
  else if 'A' ≤ c ∧ c ≤ 'F' then some (c.toNat - 55)
  else none

def scalar? (n : Nat) : Option Char := if h : n.isValidChar then some (Char.ofNatAux n h) else none

def escaped? : Char → Option Char
  | 'b' => some '\x08'
  | 't' => some '\t'
  | 'n' => some '\n'
  | 'f' => some '\x0c'
  | 'r' => some '\r'
  | '"' => some '"'
  | '\\' => some '\\'
  | _ => none

inductive Mode where
  | plain
  /-- After a backslash. -/
  | escape
  /-- In a numeric escape, with so many digits to come. -/
  | hex (left value : Nat)
  /-- In the blanks after a backslash that ends a line; whether the line end has come. -/
  | gap (ended : Bool)
deriving DecidableEq, Repr

/-- The first character that is not blank ends a gap once the line end has come. -/
def Mode.atChar (mode : Mode) (c : Char) : Mode :=
  match mode with
  | .gap true => if isBlank c || c == '\n' then mode else .plain
  | _ => mode

def isIllegal (multiline : Bool) (c : Char) : Bool := isControl c && !(multiline && c == '\n')

/-- At most two quotes at the front. -/
def extraQuotes (quote : Char) : List Char → List Char × List Char
  | a :: b :: s =>
    if a = quote then (if b = quote then ([a, b], s) else ([a], b :: s)) else ([], a :: b :: s)
  | [a] => if a = quote then ([a], []) else ([], [a])
  | [] => ([], [])

/-- The rest after the closing quotes, of which one has been read, and the quotes before them. -/
def close? (multiline : Bool) (quote : Char) (s : List Char) : Option (List Char × List Char) :=
  if multiline then (dropFront? [quote, quote] s).map (extraQuotes quote) else some ([], s)

def push (c : Char) (r : Except Flaw (List Char × List Char)) :
    Except Flaw (List Char × List Char) :=
  r.map fun (x, s) => (c :: x, s)

def basic (multiline : Bool) (mode : Mode) : List Char → Except Flaw (List Char × List Char)
  | [] => .error .malformed
  | c :: s =>
    match mode.atChar c with
    | .plain =>
      if c = '"' then
        match close? multiline '"' s with
        | some closed => .ok closed
        | none => push c (basic multiline .plain s)
      else if c = '\\' then basic multiline .escape s
      else if isIllegal multiline c then .error .malformed
      else push c (basic multiline .plain s)
    | .escape =>
      match escaped? c with
      | some e => push e (basic multiline .plain s)
      | none =>
        if c = 'u' then basic multiline (.hex 4 0) s
        else if c = 'U' then basic multiline (.hex 8 0) s
        else if multiline && isBlank c then basic multiline (.gap false) s
        else if multiline && c == '\n' then basic multiline (.gap true) s
        else .error .malformed
    | .hex left value =>
      match hexValue? c with
      | none => .error .malformed
      | some digit =>
        if 1 < left then basic multiline (.hex (left - 1) (value * 16 + digit)) s
        else
          match scalar? (value * 16 + digit) with
          | some e => push e (basic multiline .plain s)
          | none => .error .malformed
    | .gap ended =>
      if c = '\n' then basic multiline (.gap true) s
      else if isBlank c then basic multiline (.gap ended) s
      else .error .malformed

def literal (multiline : Bool) : List Char → Except Flaw (List Char × List Char)
  | [] => .error .malformed
  | c :: s =>
    if c = '\'' then
      match close? multiline '\'' s with
      | some closed => .ok closed
      | none => push c (literal multiline s)
    else if isIllegal multiline c then .error .malformed
    else push c (literal multiline s)

/-- A line feed right after the opening quotes does not count. -/
def dropFirstLineFeed : List Char → List Char
  | '\n' :: s => s
  | s => s

/-- A string on one line, given the quote it opens with. -/
def oneLine (quote : Char) (s : List Char) : Except Flaw (List Char × List Char) :=
  if quote = '"' then basic false .plain s else literal false s

/-- A string of either length, given its first quote. -/
def anyString (quote : Char) (s : List Char) : Except Flaw (List Char × List Char) :=
  match dropFront? [quote, quote] s with
  | some s =>
    if quote = '"' then basic true .plain (dropFirstLineFeed s)
    else literal true (dropFirstLineFeed s)
  | none => oneLine quote s

end Paddock.Toml
