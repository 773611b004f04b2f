import Paddock.Proofs.SnakeCase

/-!
# Keys that come to the same

Several keys of a table may come to the same key in snake case. It then stands once, at the place of
the first of them and with the value of the last, and a second pass changes nothing. A value that is
no table comes through as it is, also an array with tables in it.
-/

namespace Paddock

set_option autoImplicit false

namespace Fields

variable {α : Type}

theorem keys_ofList (fields : List (Text × α)) :
    keys (ofList fields) = (keys fields).eraseDups := by
  induction fields using List.reverseRecOn with
  | nil => rfl
  | append_singleton fields last ih =>
    have hkeys : keys (fields ++ [last]) = keys fields ++ [last.1] := List.map_append
    rw [ofList_concat, keys_put, ih, hkeys, List.eraseDups_append]
    by_cases h : last.1 ∈ keys fields
    · simp [List.removeAll, h]
    · simp [List.removeAll, h, List.eraseDups_cons]

end Fields

namespace Settings

variable {t : Table} {source : Text} {v : Value}

theorem keys_normalizeKeys (t : Table) :
    Fields.keys (normalizeKeys t) = ((Fields.keys t).map normalizeKey).eraseDups := by
  rw [normalizeKeys_eq_ofList, Fields.keys_ofList]
  congr 1
  simp only [Fields.keys, List.map_map]
  rfl

example : Fields.keys (normalizeKeys [("fooBar", .int 1), ("b", .int 2), ("foo-bar", .int 3)]) =
    ["foo_bar", "b"] := by decide

/-- A field of the table after which no key comes to the same as its own. -/
def IsLast (t : Table) (source : Text) (v : Value) : Prop :=
  ∃ before after, t = before ++ (source, v) :: after ∧
    ∀ later ∈ after, normalizeKey later.1 ≠ normalizeKey source

theorem get?_normalizeKeys_of_isLast (h : IsLast t source v) :
    Fields.get? (normalizeKeys t) (normalizeKey source) = some (normalizeValue v) := by
  obtain ⟨before, after, rfl, hlater⟩ := h
  have hafter : after.filter (fun field => normalizeKey field.1 = normalizeKey source) = [] := by
    rw [List.filter_eq_nil_iff]
    intro later hmem
    simpa using hlater later hmem
  rw [get?_normalizeKeys, List.filter_append, List.filter_cons_of_pos (by simp), hafter,
    List.getLast?_concat]
  rfl

/-- What normalising makes of a table: its keys in snake case, in the order of their first spellings
and with the values of the last. -/
structure Projects (t t' : Table) : Prop where
  mem_iff : ∀ {key}, key ∈ Fields.keys t' ↔ ∃ source ∈ Fields.keys t, normalizeKey source = key
  order : Fields.keys t' = ((Fields.keys t).map normalizeKey).eraseDups
  nested : ∀ {source inner}, IsLast t source (.table inner) →
    Fields.get? t' (normalizeKey source) = some (.table (normalizeKeys inner))
  verbatim : ∀ {source v}, v.isTable = false → IsLast t source v →
    Fields.get? t' (normalizeKey source) = some v
  again : normalizeKeys t' = t'

/-- Spellings of one key are made one, and normalising again changes nothing. -/
theorem normalizeKeys_projects (t : Table) : Projects t (normalizeKeys t) ∧
    ∀ key, normalizeKey (normalizeKey key) = normalizeKey key := by
  refine ⟨?_, normalizeKey_normalizeKey⟩
  constructor
  case mem_iff =>
    intro key
    rw [keys_normalizeKeys, List.mem_eraseDups, List.mem_map]
  case order => exact keys_normalizeKeys t
  case nested => exact get?_normalizeKeys_of_isLast
  case verbatim =>
    intro source v hv hlast
    rw [get?_normalizeKeys_of_isLast hlast, normalizeValue_of_not_table hv]
  case again => exact Value.table.inj (normalizeValue_normalizeValue (.table t))

/-- A table in an array is none of those that are normalised. -/
theorem arrayed_table_kept :
    Fields.get? (normalizeKeys [("a", .array [.table [("fooBar", .int 1)]])]) "a" =
        some (.array [.table [("fooBar", .int 1)]]) ∧
      normalizeValue (.table [("fooBar", .int 1)]) = .table [("foo_bar", .int 1)] :=
  ⟨rfl, rfl⟩

end Settings

end Paddock
