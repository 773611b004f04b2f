import Paddock.Text.Blank
import Paddock.Value.Basic

/-!
# Settings

The one setting the program reads is the chord that toggles its mode, `toggle_mode` in the table
`keymap`. Everything else in a settings file is kept as it is.
-/

namespace Paddock

set_option autoImplicit false

structure Settings where
  /-- The chord between command and work mode; never blank. -/
  toggleMode : Text
  /-- What else the table `keymap` holds. -/
  keymapRest : Table
  /-- What else there is. -/
  rest : Table
deriving Repr

namespace Settings

def keymapKey : Text := "keymap"

def toggleKey : Text := "toggle_mode"

def defaultToggle : Text := "ctrl+g"

/-- What is wrong with a value: it is not a table, or not a text. -/
inductive Defect where
  | notTable
  | notText
deriving DecidableEq, Repr

/-- A defect and the keys that lead to it. -/
structure Issue where
  location : List Text
  defect : Defect
deriving DecidableEq, Repr

/-- The chord of a setting: trimmed, and the default if it is null or blank. -/
def toggleOf : Option Value → Except Issue Text
  | none => .ok defaultToggle
  | some .null => .ok defaultToggle
  | some (.text x) => .ok (if Text.trim x = [] then defaultToggle else Text.trim x)
  | some _ => .error ⟨[keymapKey, toggleKey], .notText⟩

def ofValue : Value → Except Issue Settings
  | .table fields =>
    match Fields.get? fields keymapKey with
    | none => .ok ⟨defaultToggle, [], Fields.remove fields keymapKey⟩
    | some (.table keymap) => do
      let toggle ← toggleOf (Fields.get? keymap toggleKey)
      .ok ⟨toggle, Fields.remove keymap toggleKey, Fields.remove fields keymapKey⟩
    | some _ => .error ⟨[keymapKey], .notTable⟩
  | _ => .error ⟨[], .notTable⟩

/-- The settings as a table, the known keys first. -/
def toTable (s : Settings) : Table :=
  (keymapKey, .table ((toggleKey, .text s.toggleMode) :: s.keymapRest)) :: s.rest

end Settings

end Paddock
