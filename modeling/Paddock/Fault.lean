import Paddock.FileTree.Directories
import Paddock.Text.Digit
import Paddock.Text.Quoted
import Paddock.Value.Moment

/-!
# Refused paths and faults

A refused path is reported with the system's number and text and the quoted path. A fault is what no
command reports as its own failure: it ends the program.
-/

namespace Paddock

set_option autoImplicit false

def Refusal.message (r : Refusal) (subject : Text) : Text :=
  Text.ofString "[Errno " ++ Text.ofNat r.number ++ Text.ofString "] " ++ r.text ++
    Text.ofString ": " ++ subject

namespace PathError

def message (e : PathError) : Text := e.refusal.message (Text.quoted e.place.text)

end PathError

inductive Fault where
  /-- A path or an argument holds a NUL. -/
  | embeddedNul
  /-- A settings file is not UTF-8. -/
  | undecodable
  /-- A text to be read as a number is none. -/
  | notNumeral (x : Text)
  /-- A decimal integer to be read has too many digits. -/
  | integerTooLong (digits : Nat)
  /-- An integer has too many decimal digits to be written. -/
  | integerUnwritable
  /-- Values, tables or directories stand deeper within each other than there is room for. -/
  | tooDeep (overrun : Overrun)
  /-- A date or time has no JSON form. -/
  | momentUnwritable (kind : MomentKind)
  | refused (e : PathError)
  /-- A request names no program. -/
  | noProgram
deriving DecidableEq, Repr

def Overrun.text : Overrun → Text
  | call => []
  | primitive => " while calling a Python object"
  | comparison => " in comparison"
  | typeCheck => " in __instancecheck__"

namespace Fault

/-- The most glyphs of a quoted text that a message shows. -/
def quotationLimit : Nat := 200

def digitLimitText : Text :=
  Text.ofString "Exceeds the limit (" ++ Text.ofNat Text.digitLimit ++
    Text.ofString " digits) for integer string conversion"

def message : Fault → Text
  | embeddedNul => "embedded null byte"
  | undecodable => []
  | notNumeral x =>
    Text.ofString "invalid literal for int() with base 10: " ++
      (Text.quoted x).take quotationLimit
  | integerTooLong digits =>
    digitLimitText ++ Text.ofString ": value has " ++ Text.ofNat digits ++
      Text.ofString " digits; use sys.set_int_max_str_digits() to increase the limit"
  | integerUnwritable =>
    digitLimitText ++ Text.ofString "; use sys.set_int_max_str_digits() to increase the limit"
  | tooDeep overrun => Text.ofString "maximum recursion depth exceeded" ++ overrun.text
  | momentUnwritable kind =>
    Text.ofString "Object of type " ++ kind.name ++ Text.ofString " is not JSON serializable"
  | refused e => e.message
  | noProgram => "list index out of range"

end Fault

end Paddock
