import Paddock.Value.Basic

/-!
# Overlaying tables

The fields of one table laid over another. Where both hold a table under a key the two are merged;
otherwise the overlay's value wins. The base's keys come first, then the overlay's new ones.
-/

namespace Paddock.Settings

set_option autoImplicit false

mutual

/-- The value that an overlay's value leaves over the base's. -/
def overlayValue (base : Option Value) : Value → Value
  | .table fields =>
    match base with
    | some (.table under) => .table (overlay under fields)
    | _ => .table fields
  | value => value

/-- The base with the overlay's fields put over it. -/
def overlay (base : Table) : List (Text × Value) → Table
  | [] => base
  | (key, value) :: rest =>
    overlay (Fields.put base key (overlayValue (Fields.get? base key) value)) rest

end

theorem overlay_nil (base : Table) : overlay base [] = base := rfl

end Paddock.Settings
