import Paddock.Binary64.Shortest
import Paddock.Fault
import Paddock.Value.Basic

/-!
# JSON

A value is printed with each item of an array or table on a line of its own, two columns further in
than what holds it. Texts are written in ASCII. Numbers that are not finite have the names that
JSON readers commonly take. There is no form for dates and times, nor for integers of too many
digits, nor for items that stand deeper than there is room for; a float takes one level more.
-/

namespace Paddock.Json

set_option autoImplicit false

def unitEscape (unit : Nat) : Text := Text.ofString "\\u" ++ Text.hex 4 unit

/-- The escape of a code: one unit, or two beyond the sixteen-bit codes. -/
def codeEscape (n : Nat) : Text :=
  if n < 0x10000 then unitEscape n
  else unitEscape (0xD800 + (n - 0x10000) / 0x400) ++ unitEscape (0xDC00 + (n - 0x10000) % 0x400)

/-- The escapes that have a letter or a sign of their own. -/
def shortEscapes : List (Glyph × Glyph) :=
  [(.char '"', .char '"'), (.char '\\', .char '\\'), (.char '\n', .char 'n'),
    (.char '\r', .char 'r'), (.char '\t', .char 't'), (.char '\x0c', .char 'f'),
    (.char '\x08', .char 'b')]

def escaped (g : Glyph) : Text :=
  match shortEscapes.lookup g with
  | some sign => [.char '\\', sign]
  | none => if 0x20 ≤ g.code ∧ g.code ≤ 0x7E then [g] else codeEscape g.code

def stringText (x : Text) : Text := .char '"' :: x.flatMap escaped ++ [.char '"']

def intText (n : Int) : Except Fault Text :=
  if n.natAbs < Nat.pow 10 Text.digitLimit then .ok (Text.ofInt n) else .error .integerUnwritable

def floatText : Binary64 → Text
  | .infinite false => "Infinity"
  | .infinite true => "-Infinity"
  | .nan => "NaN"
  | x => x.text

/-- A line of a document, and how many brackets deep it stands. -/
structure Line where
  depth : Nat
  text : Text
deriving DecidableEq, Repr

def Line.indented (line : Line) : Text := List.replicate (2 * line.depth) Text.space ++ line.text

def startWith (front : Text) : List Line → List Line
  | [] => []
  | line :: rest => { line with text := front ++ line.text } :: rest

def endWith (back : Text) : List Line → List Line
  | [] => []
  | [line] => [{ line with text := line.text ++ back }]
  | line :: rest => line :: endWith back rest

/-- The lines of items, with a comma after each item but the last. -/
def separated : List (List Line) → List Line
  | [] => []
  | [item] => item
  | item :: rest => endWith [.char ','] item ++ separated rest

/-- Items between two brackets; brackets without items stay together. -/
def block (opening closing : Char) (depth : Nat) (items : List (List Line)) : List Line :=
  if items = [] then [⟨depth, [.char opening, .char closing]⟩]
  else ⟨depth, [.char opening]⟩ :: separated items ++ [⟨depth, [.char closing]⟩]

/-- Items may stand `depth + 1` brackets deep, or there are none. -/
def reach (room depth : Nat) (isEmpty : Bool) : Except Fault Unit :=
  if isEmpty || depth < room then .ok () else .error (.tooDeep .primitive)

/-- Why a date or time is not printed that stands `depth` brackets deep. To say that it has no form
takes two levels more. -/
def momentFault (room depth : Nat) (m : Moment) : Fault :=
  if depth + 1 < room then .momentUnwritable m.kind
  else .tooDeep (if depth + 1 = room then .primitive else .typeCheck)

mutual

/-- A value that stands `depth` brackets deep. -/
def valueLines (room depth : Nat) : Value → Except Fault (List Line)
  | .null => .ok [⟨depth, "null"⟩]
  | .bool true => .ok [⟨depth, "true"⟩]
  | .bool false => .ok [⟨depth, "false"⟩]
  | .int n => do .ok [⟨depth, ← intText n⟩]
  | .float x =>
    if depth < room then .ok [⟨depth, floatText x⟩] else .error (.tooDeep .comparison)
  | .text x => .ok [⟨depth, stringText x⟩]
  | .moment m => .error (momentFault room depth m)
  | .array items => do
    reach room depth items.isEmpty
    .ok (block '[' ']' depth (← itemLines room (depth + 1) items))
  | .table fields => do
    reach room depth fields.isEmpty
    .ok (block '\x7b' '\x7d' depth (← fieldLines room (depth + 1) fields))

def itemLines (room depth : Nat) : List Value → Except Fault (List (List Line))
  | [] => .ok []
  | item :: rest => do
    let lines ← valueLines room depth item
    .ok (lines :: (← itemLines room depth rest))

def fieldLines (room depth : Nat) : List (Text × Value) → Except Fault (List (List Line))
  | [] => .ok []
  | (key, value) :: rest => do
    let lines ← valueLines room depth value
    .ok (startWith (stringText key ++ Text.ofString ": ") lines :: (← fieldLines room depth rest))

end

/-- The document that holds a value; none for a value that has no JSON form. -/
def print (room : Nat) (value : Value) : Except Fault Text := do
  .ok (Text.unlines ((← valueLines room 0 value).map Line.indented))

end Paddock.Json
