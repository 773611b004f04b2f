import Paddock.Console.Colour
import Paddock.Environment
import Paddock.Text.Blank

/-!
# The screen

The environment says what messages are written to: whether it is a terminal, how many colours it
has, and how large it is. On a screen without columns there is no room for a message.
-/

namespace Paddock.Screen

set_option autoImplicit false

/-- Whether the streams count as a terminal: two variables overrule what they are. -/
def isTerminal (env : Environment) (terminal : Bool) : Bool :=
  let compatible := env.valueOf "TTY_COMPATIBLE"
  if compatible = Text.ofString "0" then false
  else if compatible = Text.ofString "1" then true
  else
    match env.get? "FORCE_COLOR" with
    | some value => value ≠ []
    | none => terminal

def kind (env : Environment) : Text := Text.lower (env.valueOf "TERM")

/-- Whether the streams are a terminal that knows lines of plain text and nothing else. -/
def isDumb (env : Environment) (terminal : Bool) : Bool :=
  isTerminal env terminal && (["dumb", "unknown"].map Text.ofString).contains (kind env)

/-- The colours that messages can be painted in; none if they are not painted at all. -/
def depth? (env : Environment) (terminal : Bool) : Option Depth :=
  let family := (Text.splitAt (.char '-') (Text.trim (kind env))).getLastD []
  let full := Text.trim (Text.lower (env.valueOf "COLORTERM"))
  if !isTerminal env terminal || isDumb env terminal then none
  else if ["truecolor", "24bit"].map Text.ofString |>.contains full then some .full
  else if ["kitty", "256color"].map Text.ofString |>.contains family then some .palette
  else some .standard

/-- The number that a variable gives, if it holds nothing but digits. They are read as a numeral,
which can be a fault. -/
def dimension? (env : Environment) (name : Text) : Except Fault (Option Nat) :=
  let x := env.valueOf name
  if x ≠ [] ∧ x.all Glyph.isDigit then do .ok (some (← Numeral.read x)) else .ok none

/-- Whether there is room for messages. A dumb terminal has columns of its own unless it is given
both dimensions. -/
def hasRoom (env : Environment) (terminal : Bool) : Except Fault Bool := do
  let columns ← dimension? env "COLUMNS"
  let lines ← dimension? env "LINES"
  .ok (columns != some 0 || (lines.isNone && isDumb env terminal))

theorem dimension?_of_valueOf_nil {env : Environment} {name : Text} (h : env.valueOf name = []) :
    dimension? env name = .ok none := by
  simp [dimension?, h]

theorem hasRoom_of_valueOf_nil {env : Environment} (hc : env.valueOf "COLUMNS" = [])
    (hl : env.valueOf "LINES" = []) (terminal : Bool) : hasRoom env terminal = .ok true := by
  simp [hasRoom, dimension?_of_valueOf_nil hc, dimension?_of_valueOf_nil hl, bind, Except.bind]

end Paddock.Screen
