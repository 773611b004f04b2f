import Paddock.Binary64.Basic
import Paddock.Value.Basic

/-!
# Reading JSON

A document holds one value, with blanks between its parts. The strict reader takes what the standard
takes; the wide one takes also the names that readers commonly have for numbers that are not finite.
A number without fraction and exponent is an integer. Half a pair of surrogates is read as the raw
byte that it stands for, if it stands for one.
-/

namespace Paddock.Json

set_option autoImplicit false

def quote : Glyph := .char '"'

def backslash : Glyph := .char '\\'

def isBlank (g : Glyph) : Bool :=
  g == .char ' ' || g == .char '\t' || g == .char '\n' || g == .char '\r'

def skipBlank (x : Text) : Text := x.dropWhile isBlank

def digits : Text → List Char × Text
  | [] => ([], [])
  | .raw low :: x => ([], .raw low :: x)
  | .char c :: x =>
    if c.isDigit then (c :: (digits x).1, (digits x).2) else ([], .char c :: x)

def natOf (ds : List Char) : Nat := Nat.ofDigitChars 10 ds 0

def signed (negative : Bool) (n : Nat) : Int := if negative then -n else n

/-- Whether there is the mark at the front, and the rest after it. -/
def marked (mark : Char) : Text → Bool × Text
  | [] => (false, [])
  | g :: x => if g = .char mark then (true, x) else (false, g :: x)

/-- The digits of a whole part: a zero stands alone. -/
def isWhole : List Char → Bool
  | [] => false
  | [_] => true
  | c :: _ => c != '0'

/-- The digits after the point; none if there is no point. -/
def fraction? (x : Text) : Option (List Char × Text) :=
  if (marked '.' x).1 then
    if (digits (marked '.' x).2).1 = [] then none else some (digits (marked '.' x).2)
  else some ([], x)

def exponentSign (x : Text) : Bool × Text :=
  if (marked '-' x).1 then marked '-' x else (false, (marked '+' x).2)

def exponent? : Text → Option (Option Int × Text)
  | [] => some (none, [])
  | g :: x =>
    if g = .char 'e' ∨ g = .char 'E' then
      if (digits (exponentSign x).2).1 = [] then none
      else
        some (some (signed (exponentSign x).1 (natOf (digits (exponentSign x).2).1)),
          (digits (exponentSign x).2).2)
    else some (none, g :: x)

/-- The number of a sign, digits before and after the point, and an exponent. -/
def numberOf (negative : Bool) (whole behind : List Char) : Option Int → Value
  | some power =>
    .float (.ofDecimal negative (natOf (whole ++ behind)) (power - behind.length))
  | none =>
    if behind = [] then .int (signed negative (natOf whole))
    else .float (.ofDecimal negative (natOf (whole ++ behind)) (-behind.length))

def number? (x : Text) : Option (Value × Text) := do
  let (negative, x) := marked '-' x
  let (whole, x) := digits x
  if isWhole whole then
    let (behind, x) ← fraction? x
    let (power, x) ← exponent? x
    some (numberOf negative whole behind power, x)
  else none

def hexDigit? : Glyph → Option Nat
  | .raw _ => none
  | .char c =>
    if '0' ≤ c ∧ c ≤ '9' then some (c.toNat - 48)
    else if 'a' ≤ c ∧ c ≤ 'f' then some (c.toNat - 87)
    else if 'A' ≤ c ∧ c ≤ 'F' then some (c.toNat - 55)
    else none

/-- The codes of the signs that stand after a backslash. -/
def signs : List (Glyph × Nat) :=
  [(quote, 0x22), (backslash, 0x5C), (.char '/', 0x2F), (.char 'b', 0x08), (.char 'f', 0x0C),
    (.char 'n', 0x0A), (.char 'r', 0x0D), (.char 't', 0x09)]

/-- Where a string is being read. -/
inductive Mode where
  | plain
  /-- After a backslash. -/
  | escape
  /-- In the digits of a unit, with so many to come. -/
  | unit (left value : Nat)
deriving DecidableEq, Repr

def addCode (n : Nat) (r : Option (List Nat × Text)) : Option (List Nat × Text) :=
  r.map fun (codes, x) => (n :: codes, x)

def codes (mode : Mode) : Text → Option (List Nat × Text)
  | [] => none
  | g :: x =>
    match mode with
    | .plain =>
      if g = quote then some ([], x)
      else if g = backslash then codes .escape x
      else
        match g with
        | .raw _ => none
        | .char c => if c.toNat < 0x20 then none else addCode c.toNat (codes .plain x)
    | .escape =>
      if g = .char 'u' then codes (.unit 4 0) x
      else
        match signs.lookup g with
        | some n => addCode n (codes .plain x)
        | none => none
    | .unit left value =>
      match hexDigit? g with
      | none => none
      | some d =>
        if 1 < left then codes (.unit (left - 1) (16 * value + d)) x
        else addCode (16 * value + d) (codes .plain x)

def glyphOf? (n : Nat) : Option Glyph :=
  if h : n.isValidChar then some (.char (Char.ofNatAux n h))
  else if 0xDC80 ≤ n ∧ n < 0xDD00 then some (.raw (Fin.ofNat 128 (n - 0xDC80)))
  else none

/-- The two units stand for one code. -/
def isPair (high low : Nat) : Bool :=
  0xD800 ≤ high && high < 0xDC00 && 0xDC00 ≤ low && low < 0xE000

def joined (high low : Nat) : Nat := 0x10000 + (high - 0xD800) * 0x400 + (low - 0xDC00)

def addGlyph (n : Nat) (r : Option Text) : Option Text := do
  some ((← glyphOf? n) :: (← r))

/-- The text of codes, pairs of surrogates put together. -/
def ofCodes? : List Nat → Option Text
  | [] => some []
  | [n] => addGlyph n (some [])
  | n :: m :: rest =>
    if isPair n m then addGlyph (joined n m) (ofCodes? rest)
    else addGlyph n (ofCodes? (m :: rest))

def string? (x : Text) : Option (Text × Text) := do
  let (codes, x) ← codes .plain x
  some (← ofCodes? codes, x)

def names : List (Text × Value) := [("null", .null), ("true", .bool true), ("false", .bool false)]

def wideNames : List (Text × Value) :=
  [("NaN", .float .nan), ("Infinity", .float (.infinite false)),
    ("-Infinity", .float (.infinite true))]

def named? (wide : Bool) (x : Text) : Option (Value × Text) :=
  (names ++ if wide then wideNames else []).findSome? fun (name, value) =>
    (Text.dropFront? name x).map fun rest => (value, rest)

def scalar? (wide : Bool) (x : Text) : Option (Value × Text) :=
  match named? wide x with
  | some found => some found
  | none => number? x

/-- What follows the first of some items: a comma and more of them, or what closes them. -/
def following? {α : Type} (closing : Char) (more : Text → Option (List α × Text)) (first : α)
    (x : Text) : Option (List α × Text) :=
  match skipBlank x with
  | [] => none
  | g :: x =>
    if g = .char ',' then (more x).map fun (items, x) => (first :: items, x)
    else if g = .char closing then some ([first], x)
    else none

mutual

def value? (wide : Bool) : (fuel : Nat) → Text → Option (Value × Text)
  | 0, _ => none
  | fuel + 1, x =>
    match skipBlank x with
    | [] => none
    | g :: x =>
      if g = quote then (string? x).map fun (s, x) => (.text s, x)
      else if g = .char '[' then
        if (marked ']' (skipBlank x)).1 then some (.array [], (marked ']' (skipBlank x)).2)
        else (items? wide fuel x).map fun (items, x) => (.array items, x)
      else if g = .char '\x7b' then
        if (marked '\x7d' (skipBlank x)).1 then some (.table [], (marked '\x7d' (skipBlank x)).2)
        else (members? wide fuel x).map fun (members, x) => (.table (Fields.ofList members), x)
      else scalar? wide (g :: x)

/-- The items of an array up to its bracket, of which there is one at least. -/
def items? (wide : Bool) : (fuel : Nat) → Text → Option (List Value × Text)
  | 0, _ => none
  | fuel + 1, x => do
    let (item, x) ← value? wide fuel x
    following? ']' (fun x => items? wide fuel x) item x

/-- The members of an object up to its brace, of which there is one at least. -/
def members? (wide : Bool) : (fuel : Nat) → Text → Option (List (Text × Value) × Text)
  | 0, _ => none
  | fuel + 1, x =>
    if (marked '"' (skipBlank x)).1 then do
      let (key, x) ← string? (marked '"' (skipBlank x)).2
      if (marked ':' (skipBlank x)).1 then
        let (value, x) ← value? wide fuel (marked ':' (skipBlank x)).2
        following? '\x7d' (fun x => members? wide fuel x) (key, value) x
      else none
    else none

end

/-- The value that a document holds; where an object has a key twice the last value counts. Each
bracket uses up fuel twice, so the fuel lasts. -/
def read (wide : Bool) (x : Text) : Option Value := do
  let (value, x) ← value? wide (2 * x.length + 2) x
  if skipBlank x = [] then some value else none

end Paddock.Json
