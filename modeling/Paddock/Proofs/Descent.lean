import Mathlib.Data.List.Induction
import Paddock.Proofs.Forms
import Paddock.Proofs.Soundness

/-!
# Values within tables

A path of keys leads from a table to a value through the tables within it. Arrays are not entered.
-/

namespace Paddock

set_option autoImplicit false

namespace Fields

variable {α : Type} {fields : Fields α} {key other : Text} {a : α}

theorem get?_cons (field : Text × α) (rest : Fields α) (key : Text) :
    get? (field :: rest) key = if key = field.1 then some field.2 else get? rest key := by
  unfold get?
  rw [List.lookup_cons]
  by_cases h : key = field.1
  · simp [h]
  · simp [h, beq_eq_false_iff_ne.mpr h]

theorem get?_eq_none_iff : get? fields key = none ↔ key ∉ keys fields := by
  induction fields with
  | nil => simp [get?, keys]
  | cons field rest ih =>
    rw [get?_cons, keys, List.map_cons, List.mem_cons, not_or, ← keys, ← ih]
    split
    · next h => simp [h]
    · next h => simp [h]

theorem get?_of_mem (hkeys : (keys fields).Nodup) (h : (key, a) ∈ fields) :
    get? fields key = some a := by
  induction fields with
  | nil => exact absurd h List.not_mem_nil
  | cons field rest ih =>
    obtain ⟨hnew, hrest⟩ := List.nodup_cons.mp hkeys
    rw [get?_cons]
    rcases List.mem_cons.mp h with rfl | h
    · exact if_pos rfl
    · have hkey : key ≠ field.1 := by
        rintro rfl
        exact hnew (List.mem_map.mpr ⟨_, h, rfl⟩)
      rw [if_neg hkey]
      exact ih hrest h

theorem put_eq_self (h : get? fields key = some a) : put fields key a = fields := by
  induction fields with
  | nil => exact nomatch h
  | cons field rest ih =>
    obtain ⟨k, old⟩ := field
    rw [get?_cons] at h
    rw [put]
    by_cases hk : k = key
    · rw [if_pos hk.symm] at h
      rw [if_pos hk, ← Option.some.inj h]
    · rw [if_neg (Ne.symm hk)] at h
      rw [if_neg hk, ih h]

variable {field : Text × α}

theorem ofList_concat (fields : List (Text × α)) (field : Text × α) :
    ofList (fields ++ [field]) = put (ofList fields) field.1 field.2 := by
  rw [ofList, List.foldl_append]
  rfl

theorem mem_ofList (h : field ∈ ofList fields) : field ∈ fields := by
  induction fields using List.reverseRecOn with
  | nil => exact h
  | append_singleton fields last ih =>
    rw [ofList_concat] at h
    rcases mem_put h with h | rfl
    · exact List.mem_append_left _ (ih h)
    · exact List.mem_append_right _ List.mem_cons_self

theorem nodup_keys_ofList (fields : List (Text × α)) : (keys (ofList fields)).Nodup := by
  induction fields using List.reverseRecOn with
  | nil => exact List.nodup_nil
  | append_singleton fields last ih =>
    rw [ofList_concat]
    exact nodup_keys_put ih _ _

/-- The last of the fields under a key is the one that is found. -/
theorem get?_ofList (fields : List (Text × α)) (key : Text) :
    get? (ofList fields) key = ((fields.filter fun field => field.1 = key).getLast?).map (·.2) := by
  induction fields using List.reverseRecOn with
  | nil => rfl
  | append_singleton fields last ih =>
    rw [ofList_concat, get?_put, List.filter_append]
    by_cases h : key = last.1
    · simp [h]
    · rw [if_neg h, ih, List.filter_singleton, decide_eq_false (Ne.symm h)]
      simp

end Fields

namespace Value

def isTable : Value → Bool
  | .table _ => true
  | _ => false

/-- The value that a path of keys leads to. -/
def get? : Value → List Text → Option Value
  | v, [] => some v
  | .table fields, key :: path => (Fields.get? fields key).bind fun v => v.get? path
  | _, _ :: _ => none

/-- A path of keys leads to a value, perhaps to others too. -/
inductive Leads : List Text → Value → Value → Prop where
  | here (v : Value) : Leads [] v v
  | field {key : Text} {path : List Text} {fields : Table} {v w : Value}
      (hfield : (key, v) ∈ fields) (h : Leads path v w) : Leads (key :: path) (.table fields) w

/-- No table has a key twice, those in arrays apart. -/
inductive Distinct : Value → Prop where
  | table {fields : Table} (hkeys : (Fields.keys fields).Nodup)
      (hfields : ∀ field ∈ fields, Distinct field.2) : Distinct (.table fields)
  | other {v : Value} (h : v.isTable = false) : Distinct v

variable {v w : Value} {fields : Table} {key : Text} {path : List Text}

@[simp] theorem get?_nil (v : Value) : v.get? [] = some v := by
  cases v <;> rfl

@[simp] theorem get?_table_cons (fields : Table) (key : Text) (path : List Text) :
    (Value.table fields).get? (key :: path) =
      (Fields.get? fields key).bind fun v => v.get? path := rfl

theorem get?_cons_of_not_table (h : v.isTable = false) (key : Text) (path : List Text) :
    v.get? (key :: path) = none := by
  cases v <;> first | rfl | exact nomatch h

theorem exists_table (h : v.isTable = true) : ∃ fields, v = .table fields := by
  cases v <;> first | exact ⟨_, rfl⟩ | exact nomatch h

theorem exists_of_get?_cons (h : v.get? (key :: path) = some w) :
    ∃ fields u, v = .table fields ∧ Fields.get? fields key = some u ∧ u.get? path = some w := by
  cases hv : v.isTable with
  | false => exact nomatch (get?_cons_of_not_table hv key path).symm.trans h
  | true =>
    obtain ⟨fields, rfl⟩ := exists_table hv
    obtain ⟨u, hu, hw⟩ := Option.bind_eq_some_iff.mp h
    exact ⟨fields, u, rfl, hu, hw⟩

/-- Induction on a value with what the tables in it hold. -/
theorem tableInduction {motive : Value → Prop} (other : ∀ v, v.isTable = false → motive v)
    (table : ∀ fields : Table, (∀ field ∈ fields, motive field.2) → motive (.table fields))
    (v : Value) : motive v := by
  induction v using Value.induction with
  | table fields ih => exact table fields ih
  | _ => exact other _ rfl

theorem Distinct.keys (h : (Value.table fields).Distinct) : (Fields.keys fields).Nodup := by
  cases h with
  | table hkeys _ => exact hkeys
  | other h => exact nomatch h

theorem Distinct.field (h : (Value.table fields).Distinct) {field : Text × Value}
    (hfield : field ∈ fields) : field.2.Distinct := by
  cases h with
  | table _ hfields => exact hfields field hfield
  | other h => exact nomatch h

/-- What goes from a table to its fields goes along every path. -/
theorem property_of_get? {P : Value → Prop}
    (hP : ∀ {fields field}, P (.table fields) → field ∈ fields → P field.2) (h : P v)
    (hget : v.get? path = some w) : P w := by
  induction path generalizing v with
  | nil =>
    obtain rfl : v = w := by simpa using hget
    exact h
  | cons key path ih =>
    obtain ⟨fields, u, rfl, hu, hw⟩ := exists_of_get?_cons hget
    exact ih (hP h (Fields.mem_of_get? hu)) hw

theorem Distinct.get? (h : v.Distinct) (hget : v.get? path = some w) : w.Distinct :=
  property_of_get? (fun h hfield => h.field hfield) h hget

theorem Storable.get?_path (h : v.Storable) (hget : v.get? path = some w) : w.Storable :=
  property_of_get? (fun h hfield => (table_iff.mp h).2 _ hfield) h hget

theorem Storable.distinct (h : v.Storable) : v.Distinct := by
  induction h with
  | table hkeys _ ih => exact .table hkeys ih
  | _ => exact .other rfl

end Value

end Paddock
