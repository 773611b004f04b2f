import Paddock.Text.Digit
import Paddock.Toml.Quoted
import Paddock.Value.Basic

/-!
# Numbers

Integers are decimal with a sign, or hexadecimal, octal or binary without one; floats have a
fraction, an exponent or both. Single underscores may stand between digits.
-/

namespace Paddock.Toml

set_option autoImplicit false

def isDigit (c : Char) : Bool := '0' ≤ c && c ≤ '9'

def isHexDigit (c : Char) : Bool := (hexValue? c).isSome

def isOctalDigit (c : Char) : Bool := '0' ≤ c && c ≤ '7'

def isBinaryDigit (c : Char) : Bool := c == '0' || c == '1'

/-- The digits that continue a run; an underscore counts only before a digit. -/
def moreDigits (p : Char → Bool) : List Char → List Char × List Char
  | [] => ([], [])
  | [c] => if p c then ([c], []) else ([], [c])
  | c :: d :: s =>
    if p c then
      let (ds, r) := moreDigits p (d :: s)
      (c :: ds, r)
    else if c = '_' ∧ p d then
      let (ds, r) := moreDigits p s
      (d :: ds, r)
    else ([], c :: d :: s)

def digits? (p : Char → Bool) : List Char → Option (List Char × List Char)
  | [] => none
  | c :: s =>
    if p c then
      let (ds, r) := moreDigits p s
      some (c :: ds, r)
    else none

def valueOf (base : Nat) (digits : List Char) : Nat :=
  digits.foldl (fun n c => n * base + (hexValue? c).getD 0) 0

/-- An integer after its base mark. -/
def based? (s : List Char) : Option (Value × List Char) :=
  let reading (base : Nat) (p : Char → Bool) (s : List Char) :=
    (digits? p s).map fun (ds, r) => (Value.int (valueOf base ds), r)
  match s with
  | '0' :: 'x' :: s => reading 16 isHexDigit s
  | '0' :: 'b' :: s => reading 2 isBinaryDigit s
  | '0' :: 'o' :: s => reading 8 isOctalDigit s
  | _ => none

/-- The sign at the front, if there is one, and whether it is a minus. -/
def sign : List Char → Bool × List Char
  | '-' :: s => (true, s)
  | '+' :: s => (false, s)
  | s => (false, s)

/-- The digits of an integer part: `0`, or a run that starts with another digit. -/
def integerPart? : List Char → Option (List Char × List Char)
  | '0' :: s => some (['0'], s)
  | s => digits? isDigit s

def fractionPart? : List Char → Option (List Char × List Char)
  | '.' :: s => digits? isDigit s
  | _ => none

def exponentPart? : List Char → Option (Int × List Char)
  | c :: s =>
    if c = 'e' ∨ c = 'E' then
      let (negative, s) := sign s
      (digits? isDigit s).map fun (ds, r) =>
        (if negative then -(valueOf 10 ds : Int) else valueOf 10 ds, r)
    else none
  | [] => none

/-- A decimal integer or float. -/
def decimal? (s : List Char) : Option (Except Flaw (Value × List Char)) :=
  let (negative, s) := sign s
  match integerPart? s with
  | none => none
  | some (whole, s) =>
    let fraction := fractionPart? s
    let s := (fraction.map (·.2)).getD s
    let exponent := exponentPart? s
    let s := (exponent.map (·.2)).getD s
    if fraction.isNone && exponent.isNone then
      if Text.digitLimit < whole.length then some (.error (.tooManyDigits whole.length))
      else
        let n : Int := valueOf 10 whole
        some (.ok (.int (if negative then -n else n), s))
    else
      let behind := (fraction.map (·.1)).getD []
      let power : Int := (exponent.map (·.1)).getD 0
      let x := Binary64.ofDecimal negative (valueOf 10 (whole ++ behind)) (power - behind.length)
      some (.ok (.float x, s))

def special? (s : List Char) : Option (Value × List Char) :=
  let (negative, s) := sign s
  match s with
  | 'i' :: 'n' :: 'f' :: s => some (.float (.infinite negative), s)
  | 'n' :: 'a' :: 'n' :: s => some (.float .nan, s)
  | _ => none

end Paddock.Toml
