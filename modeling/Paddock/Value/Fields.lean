import Paddock.Text.Glyph

/-!
# Fields in order

Fields keep the order in which their keys were first put; putting a key again replaces what stands
under it.
-/

namespace Paddock

set_option autoImplicit false

abbrev Fields (α : Type) := List (Text × α)

namespace Fields

variable {α : Type}

def get? (fields : Fields α) (key : Text) : Option α := fields.lookup key

def keys (fields : Fields α) : List Text := fields.map (·.1)

def put (fields : Fields α) (key : Text) (value : α) : Fields α :=
  match fields with
  | [] => [(key, value)]
  | (k, old) :: rest => if k = key then (k, value) :: rest else (k, old) :: put rest key value

def remove (fields : Fields α) (key : Text) : Fields α :=
  List.filter (fun field => field.1 ≠ key) fields

/-- The fields with repeated keys made one: the first place, the last value. -/
def ofList (fields : List (Text × α)) : Fields α :=
  fields.foldl (fun done field => put done field.1 field.2) []

theorem get?_put (fields : Fields α) (key other : Text) (value : α) :
    get? (put fields key value) other = if other = key then some value else get? fields other := by
  induction fields with
  | nil =>
    by_cases h : other = key
    · simp [put, get?, h]
    · simp [put, get?, List.lookup_cons, beq_eq_false_iff_ne.mpr h, h]
  | cons field rest ih =>
    obtain ⟨k, old⟩ := field
    unfold get? at ih ⊢
    by_cases ho : other = k
    · subst ho
      by_cases hk : other = key
      · simp [put, hk]
      · simp [put, hk]
    · have hok : (other == k) = false := beq_eq_false_iff_ne.mpr ho
      by_cases hk : k = key
      · subst hk; simp [put, List.lookup_cons, hok, ho]
      · simp [put, hk, List.lookup_cons, hok, ih]

/-- Putting a key leaves the others where they are, and comes last if it is new. -/
theorem keys_put (fields : Fields α) (key : Text) (value : α) :
    keys (put fields key value) =
      if key ∈ keys fields then keys fields else keys fields ++ [key] := by
  induction fields with
  | nil => rfl
  | cons field rest ih =>
    obtain ⟨k, old⟩ := field
    by_cases hk : k = key
    · simp [put, keys, hk]
    · have hk' : ¬ key = k := fun h => hk h.symm
      unfold keys at ih ⊢
      simp only [put, hk, if_false, List.map_cons, ih, List.mem_cons, hk', false_or]
      split <;> simp

end Fields

end Paddock
