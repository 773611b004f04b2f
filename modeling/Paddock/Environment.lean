import Paddock.Text.Glyph

/-!
# Environments

An environment gives texts to named variables.
-/

namespace Paddock

set_option autoImplicit false

/-- Environment variables, each at most once. -/
abbrev Environment := List (Text × Text)

namespace Environment

def get? (env : Environment) (name : Text) : Option Text := env.lookup name

def valueOf (env : Environment) (name : Text) : Text := (env.get? name).getD []

def set (env : Environment) (name : Text) (value : Option Text) : Environment :=
  (value.map fun v => (name, v)).toList ++ env.filter fun entry => entry.1 ≠ name

/-- Whether a variable is set to anything but the empty text. -/
def isOn (env : Environment) (name : Text) : Bool := env.valueOf name ≠ []

end Environment

end Paddock
