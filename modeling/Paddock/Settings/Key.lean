import Paddock.Text.Lowercase
import Paddock.Value.Basic

/-!
# Setting keys

A key may be written in snake, camel or dashed case. Its normal form is snake case: an underscore
goes between an ASCII lowercase letter or digit and an ASCII capital, dashes become underscores, and
all is lower-cased. Keys of tables that stand inside arrays are left as they are.
-/

namespace Paddock.Settings

set_option autoImplicit false

/-- An ASCII lowercase letter or digit. -/
def endsHump : Glyph → Bool
  | .char c => ('a' ≤ c && c ≤ 'z') || ('0' ≤ c && c ≤ '9')
  | .raw _ => false

/-- An ASCII capital. -/
def startsHump : Glyph → Bool
  | .char c => 'A' ≤ c && c ≤ 'Z'
  | .raw _ => false

def splitHumps : Text → Text
  | [] => []
  | [g] => [g]
  | g :: h :: rest =>
    if endsHump g && startsHump h then g :: .char '_' :: splitHumps (h :: rest)
    else g :: splitHumps (h :: rest)

def undash (x : Text) : Text := x.map fun g => if g = .char '-' then .char '_' else g

def normalizeKey (key : Text) : Text := Text.lower (undash (splitHumps key))

mutual

def normalizeValue : Value → Value
  | .table fields => .table (normalizeOnto [] fields)
  | value => value

/-- `done` with the remaining fields put into it under their normal keys. -/
def normalizeOnto (done : Table) : List (Text × Value) → Table
  | [] => done
  | (key, value) :: rest =>
    normalizeOnto (Fields.put done (normalizeKey key) (normalizeValue value)) rest

end

def normalizeKeys (t : Table) : Table := normalizeOnto [] t

mutual

/-- How many tables with keys stand within each other, those in arrays apart. -/
def tableDepth : Value → Nat
  | .table fields => if fields.isEmpty then 0 else fieldsDepth fields + 1
  | _ => 0

def fieldsDepth : List (Text × Value) → Nat
  | [] => 0
  | (_, value) :: rest => max (tableDepth value) (fieldsDepth rest)

end

end Paddock.Settings
