import Paddock.Text.Blank
import Paddock.Text.Lowercase

/-!
# Message levels
-/

namespace Paddock

set_option autoImplicit false

inductive Level where
  | trace
  | debug
  | info
  | success
  | warning
  | error
deriving DecidableEq, Repr, Inhabited

namespace Level

def all : List Level := [trace, debug, info, success, warning, error]

def rank : Level → Nat
  | trace => 10
  | debug => 20
  | info => 30
  | success => 35
  | warning => 40
  | error => 50

def name : Level → Text
  | trace => "trace"
  | debug => "debug"
  | info => "info"
  | success => "success"
  | warning => "warning"
  | error => "error"

def standard : Level := info

theorem mem_all (level : Level) : level ∈ all := by cases level <;> simp [all]

/-- The level that a setting names, without regard to case and surrounding blanks; `warn` is a
second name of `warning`. -/
def ofText? (setting : Text) : Option Level :=
  let key := Text.lower (Text.trim setting)
  if key = Text.ofString "warn" then some warning else all.find? fun level => level.name == key

theorem ofText?_name (level : Level) : ofText? level.name = some level := by
  cases level <;> decide

/-- Results go to standard output, diagnostics and problems to standard error. -/
def toStdout (level : Level) : Bool := level == info || level == success

end Level

end Paddock
