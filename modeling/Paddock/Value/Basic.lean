import Paddock.Binary64.Basic
import Paddock.Value.Fields
import Paddock.Value.Moment

/-!
# Values of settings

A value is what a settings file can hold.
-/

namespace Paddock

set_option autoImplicit false

inductive Value where
  | null
  | bool (b : Bool)
  | int (n : Int)
  | float (x : Binary64)
  | text (x : Text)
  | moment (m : Moment)
  | array (items : List Value)
  | table (fields : List (Text × Value))
deriving Repr, Inhabited

abbrev Table := Fields Value

end Paddock
