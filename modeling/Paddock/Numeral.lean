import Paddock.Fault

/-!
# Numerals

A numeral writes a natural number in decimal digits of any script. Reading anything else is a fault,
and so is reading too many digits; the digits at the front are counted first.
-/

namespace Paddock.Numeral

set_option autoImplicit false

def read (x : Text) : Except Fault Nat :=
  let front := x.takeWhile Glyph.isDecimal
  if Text.digitLimit < front.length then .error (.integerTooLong front.length)
  else
    match Text.digits? x with
    | some (d :: digits) => .ok (Text.valueOf (d :: digits))
    | _ => .error (.notNumeral x)

end Paddock.Numeral
