import Paddock.Proofs.Descent

/-!
# Tables laid over each other

What a path leads to in a table laid over another: the overlay's value where it has one, merged with
the base's where both have tables, and the base's where the overlay has nothing to say. The order of
the keys is settled too, and laying the same table over a base again changes nothing.
-/

namespace Paddock

set_option autoImplicit false

namespace Settings

open Value (Distinct)

variable {base atop fields : Table} {under : Option Value} {v w : Value} {key : Text}
  {path : List Text}

theorem overlay_cons (base : Table) (field : Text × Value) (rest : Table) :
    overlay base (field :: rest) =
      overlay (Fields.put base field.1 (overlayValue (Fields.get? base field.1) field.2)) rest :=
  rfl

theorem overlayValue_of_not_table (under : Option Value) (h : v.isTable = false) :
    overlayValue under v = v := by
  cases v <;> first | rfl | exact nomatch h

theorem overlayValue_none (v : Value) : overlayValue none v = v := by
  cases v <;> rfl

theorem get?_overlay_of_none (h : Fields.get? atop key = none) (base : Table) :
    Fields.get? (overlay base atop) key = Fields.get? base key := by
  induction atop generalizing base with
  | nil => rfl
  | cons field rest ih =>
    rw [Fields.get?_cons] at h
    split at h
    · exact nomatch h
    · next hkey => rw [overlay_cons, ih h, Fields.get?_put, if_neg hkey]

theorem get?_overlay_of_some (hkeys : (Fields.keys atop).Nodup)
    (h : Fields.get? atop key = some v) (base : Table) :
    Fields.get? (overlay base atop) key = some (overlayValue (Fields.get? base key) v) := by
  induction atop generalizing base with
  | nil => exact nomatch h
  | cons field rest ih =>
    obtain ⟨hnew, hrest⟩ := List.nodup_cons.mp hkeys
    rw [Fields.get?_cons] at h
    rw [overlay_cons]
    split at h
    · next hkey =>
      subst hkey
      rw [get?_overlay_of_none (Fields.get?_eq_none_iff.mpr hnew), Fields.get?_put, if_pos rfl,
        Option.some.inj h]
    · next hkey => rw [ih hrest h, Fields.get?_put, if_neg hkey]

/-- The base's keys stay where they are, and the overlay's new ones follow in its order. -/
theorem keys_overlay (hkeys : (Fields.keys atop).Nodup) (base : Table) :
    Fields.keys (overlay base atop) =
      Fields.keys base ++ (Fields.keys atop).filter fun key => key ∉ Fields.keys base := by
  induction atop generalizing base with
  | nil => exact (List.append_nil _).symm
  | cons field rest ih =>
    obtain ⟨hnew, hrest⟩ := List.nodup_cons.mp hkeys
    have hcons : Fields.keys (field :: rest) = field.1 :: Fields.keys rest := rfl
    rw [overlay_cons, ih hrest, Fields.keys_put, hcons, List.filter_cons]
    by_cases hmem : field.1 ∈ Fields.keys base
    · simp [hmem]
    · -- the key that is put last is not among the ones to come, so it takes none of them away
      have hsame : (Fields.keys rest).filter (fun key => key ∉ Fields.keys base ++ [field.1]) =
          (Fields.keys rest).filter fun key => key ∉ Fields.keys base := by
        apply List.filter_congr
        intro key hkey
        have hne : key ≠ field.1 := by
          rintro rfl
          exact hnew hkey
        simp [hne]
      simp only [hmem, if_false, hsame, not_false_eq_true, decide_true, if_true, List.append_assoc,
        List.singleton_append]

theorem overlay_of_disjoint (h : (Fields.keys (base ++ atop)).Nodup) :
    overlay base atop = base ++ atop := by
  induction atop generalizing base with
  | nil => exact (List.append_nil base).symm
  | cons field rest ih =>
    have hnew : field.1 ∉ Fields.keys base := by
      intro hmem
      rw [Fields.keys, List.map_append, List.map_cons] at h
      exact (List.nodup_append.mp h).2.2 _ hmem _ List.mem_cons_self rfl
    rw [overlay_cons, Fields.get?_eq_none_iff.mpr hnew, overlayValue_none,
      Fields.put_of_not_mem hnew, ih]
    · exact List.append_assoc _ _ _
    · rwa [List.append_assoc]

theorem overlay_empty (hkeys : (Fields.keys atop).Nodup) : overlay [] atop = atop :=
  overlay_of_disjoint hkeys

/-- An overlay that has nothing new to say changes nothing. -/
theorem overlay_eq_self (h : ∀ field ∈ atop, ∃ u, Fields.get? base field.1 = some u ∧
    overlayValue (some u) field.2 = u) : overlay base atop = base := by
  induction atop with
  | nil => rfl
  | cons field rest ih =>
    obtain ⟨⟨u, hu, hsame⟩, hrest⟩ := List.forall_mem_cons.mp h
    rw [overlay_cons, hu, hsame, Fields.put_eq_self hu, ih hrest]

def fieldsOf : Option Value → Table
  | some (.table fields) => fields
  | _ => []

theorem fieldsOf_eq_nil (h : ∀ fields, under ≠ some (.table fields)) : fieldsOf under = [] := by
  unfold fieldsOf
  split
  · exact absurd rfl (h _)
  · rfl

theorem overlayValue_table (hkeys : (Fields.keys fields).Nodup) (under : Option Value) :
    overlayValue under (.table fields) = .table (overlay (fieldsOf under) fields) := by
  unfold overlayValue
  split
  · rfl
  · next h => rw [fieldsOf_eq_nil h, overlay_empty hkeys]

theorem get?_fieldsOf (under : Option Value) (key : Text) (path : List Text) :
    (under.bind fun u => u.get? (key :: path)) =
      (Fields.get? (fieldsOf under) key).bind fun u => u.get? path := by
  unfold fieldsOf
  split
  · rfl
  · next h =>
    cases under with
    | none => rfl
    | some u =>
      have hu : u.isTable = false := by
        cases u <;> first | rfl | exact absurd rfl (h _)
      exact Value.get?_cons_of_not_table hu key path

theorem get?_overlayValue_cons {u : Value} (hfields : (Value.table fields).Distinct)
    (hu : Fields.get? fields key = some u) (under : Option Value) (path : List Text) :
    (overlayValue under (.table fields)).get? (key :: path) =
      (overlayValue (Fields.get? (fieldsOf under) key) u).get? path := by
  rw [overlayValue_table hfields.keys, Value.get?_table_cons,
    get?_overlay_of_some hfields.keys hu, Option.bind_some]

theorem get?_overlayValue_of_some (under : Option Value) (hv : v.Distinct)
    (h : v.get? path = some w) :
    (overlayValue under v).get? path =
      some (overlayValue (under.bind fun u => u.get? path) w) := by
  induction path generalizing v under with
  | nil =>
    obtain rfl : v = w := by simpa using h
    simp
  | cons key path ih =>
    obtain ⟨fields, u, rfl, hu, hw⟩ := Value.exists_of_get?_cons h
    rw [get?_overlayValue_cons hv hu, ih _ (hv.field (Fields.mem_of_get? hu)) hw, get?_fieldsOf]

theorem get?_overlayValue_of_shadow {rest : List Text} (under : Option Value) (hv : v.Distinct)
    (h : v.get? path = some w) (hw : w.isTable = false) (hrest : rest ≠ []) :
    (overlayValue under v).get? (path ++ rest) = none := by
  induction path generalizing v under with
  | nil =>
    obtain rfl : v = w := by simpa using h
    obtain ⟨key, rest, rfl⟩ := List.exists_cons_of_ne_nil hrest
    rw [overlayValue_of_not_table under hw]
    exact Value.get?_cons_of_not_table hw key rest
  | cons key path ih =>
    obtain ⟨fields, u, rfl, hu, hw'⟩ := Value.exists_of_get?_cons h
    rw [List.cons_append, get?_overlayValue_cons hv hu]
    exact ih _ (hv.field (Fields.mem_of_get? hu)) hw'

/-- Where only tables lead to nothing, the base is seen. -/
theorem get?_overlayValue_of_none (under : Option Value) (hv : v.Distinct)
    (h : v.get? path = none)
    (hopen : ∀ front u, front <+: path → v.get? front = some u → u.isTable = true) :
    (overlayValue under v).get? path = under.bind fun u => u.get? path := by
  induction path generalizing v under with
  | nil => exact nomatch (Value.get?_nil v).symm.trans h
  | cons key path ih =>
    obtain ⟨fields, rfl⟩ := Value.exists_table
      (hopen [] v (List.nil_prefix) (Value.get?_nil v))
    rw [get?_fieldsOf]
    cases hkey : Fields.get? fields key with
    | none => rw [overlayValue_table hv.keys, Value.get?_table_cons, get?_overlay_of_none hkey]
    | some u =>
      rw [Value.get?_table_cons, hkey, Option.bind_some] at h
      rw [get?_overlayValue_cons hv hkey]
      apply ih _ (hv.field (Fields.mem_of_get? hkey)) h
      intro front w hfront hw
      apply hopen (key :: front) w (List.cons_prefix_cons.mpr ⟨rfl, hfront⟩)
      rw [Value.get?_table_cons, hkey, Option.bind_some, hw]

theorem overlayValue_again (hv : v.Distinct) (under : Option Value) :
    overlayValue (some (overlayValue under v)) v = overlayValue under v := by
  -- by induction on the overlay: at each key the value below has absorbed its part already
  induction hv generalizing under with
  | other h => rw [overlayValue_of_not_table _ h, overlayValue_of_not_table _ h]
  | @table fields hkeys hfields ih =>
    rw [overlayValue_table hkeys, overlayValue_table hkeys]
    congr 1
    apply overlay_eq_self
    intro field hfield
    exact ⟨_, get?_overlay_of_some hkeys (Fields.get?_of_mem hkeys hfield) _, ih field hfield _⟩

theorem overlay_again (hatop : (Value.table atop).Distinct) (base : Table) :
    overlay (overlay base atop) atop = overlay base atop := by
  have h := overlayValue_again hatop (some (.table base))
  exact Value.table.inj h

theorem overlay_self (h : (Value.table base).Distinct) : overlay base base = base := by
  have hagain := overlay_again h []
  rwa [overlay_empty h.keys] at hagain

def keysAt (t : Table) (path : List Text) : List Text :=
  Fields.keys (fieldsOf ((Value.table t).get? path))

/-- What a table laid over a base holds, path by path and in order. -/
structure OverlayLaws (base atop : Table) : Prop where
  plain : ∀ {path v}, (Value.table atop).get? path = some v → v.isTable = false →
    (Value.table (overlay base atop)).get? path = some v
  merged : ∀ {path mine theirs}, (Value.table base).get? path = some (.table mine) →
    (Value.table atop).get? path = some (.table theirs) →
    (Value.table (overlay base atop)).get? path = some (.table (overlay mine theirs))
  fresh : ∀ {path theirs}, (∀ mine, (Value.table base).get? path ≠ some (.table mine)) →
    (Value.table atop).get? path = some (.table theirs) →
    (Value.table (overlay base atop)).get? path = some (.table theirs)
  shadowed : ∀ {path front v}, front <+: path → front ≠ path →
    (Value.table atop).get? front = some v → v.isTable = false →
    (Value.table (overlay base atop)).get? path = none
  kept : ∀ {path}, (Value.table atop).get? path = none →
    (∀ front v, front <+: path → (Value.table atop).get? front = some v → v.isTable = true) →
    (Value.table (overlay base atop)).get? path = (Value.table base).get? path
  order : ∀ {path fields}, (Value.table (overlay base atop)).get? path = some (.table fields) →
    Fields.keys fields =
      keysAt base path ++ (keysAt atop path).filter fun key => key ∉ keysAt base path
  self : overlay base base = base
  again : overlay (overlay base atop) atop = overlay base atop
  empty_left : overlay [] base = base
  empty_right : overlay base [] = base

variable {theirs mine : Table}

theorem get?_overlay_of_found (hatop : (Value.table atop).Distinct)
    (h : (Value.table atop).get? path = some w) (base : Table) :
    (Value.table (overlay base atop)).get? path =
      some (overlayValue ((Value.table base).get? path) w) :=
  get?_overlayValue_of_some (some (.table base)) hatop h

theorem get?_overlay_of_shadowed {front : List Text} (hatop : (Value.table atop).Distinct)
    (hfront : front <+: path) (hne : front ≠ path) (h : (Value.table atop).get? front = some v)
    (hv : v.isTable = false) (base : Table) :
    (Value.table (overlay base atop)).get? path = none := by
  obtain ⟨rest, rfl⟩ := hfront
  have hrest : rest ≠ [] := by
    rintro rfl
    exact hne (List.append_nil front).symm
  exact get?_overlayValue_of_shadow (some (.table base)) hatop h hv hrest

theorem get?_overlay_of_open (hatop : (Value.table atop).Distinct)
    (h : (Value.table atop).get? path = none)
    (hopen : ∀ front v, front <+: path → (Value.table atop).get? front = some v →
      v.isTable = true) (base : Table) :
    (Value.table (overlay base atop)).get? path = (Value.table base).get? path :=
  get?_overlayValue_of_none (some (.table base)) hatop h hopen

theorem keys_overlay_at (hatop : (Value.table atop).Distinct) (base : Table)
    (h : (Value.table (overlay base atop)).get? path = some (.table fields)) :
    Fields.keys fields =
      keysAt base path ++ (keysAt atop path).filter fun key => key ∉ keysAt base path := by
  unfold keysAt
  cases hfound : (Value.table atop).get? path with
  | some w =>
    rw [get?_overlay_of_found hatop hfound] at h
    have hvalue := Option.some.inj h
    cases hw : w.isTable with
    | true =>
      obtain ⟨theirs, rfl⟩ := Value.exists_table hw
      have hkeys := (hatop.get? hfound).keys
      rw [overlayValue_table hkeys] at hvalue
      rw [← Value.table.inj hvalue, keys_overlay hkeys]
      rfl
    | false =>
      rw [overlayValue_of_not_table _ hw] at hvalue
      rw [hvalue] at hw
      exact nomatch hw
  | none =>
    by_cases hopen : ∀ front v, front <+: path → (Value.table atop).get? front = some v →
        v.isTable = true
    · rw [get?_overlay_of_open hatop hfound hopen] at h
      rw [h]
      exact (List.append_nil _).symm
    · push Not at hopen
      obtain ⟨front, v, hfront, hv, htable⟩ := hopen
      have hne : front ≠ path := by
        rintro rfl
        exact nomatch hfound.symm.trans hv
      rw [get?_overlay_of_shadowed hatop hfront hne hv (Bool.not_eq_true _ ▸ htable)] at h
      exact nomatch h

theorem overlay_obeys (hbase : (Value.table base).Distinct)
    (hatop : (Value.table atop).Distinct) : OverlayLaws base atop where
  plain h hv := by rw [get?_overlay_of_found hatop h, overlayValue_of_not_table _ hv]
  merged hmine htheirs := by
    rw [get?_overlay_of_found hatop htheirs, hmine]
    rfl
  fresh hmine htheirs := by
    rw [get?_overlay_of_found hatop htheirs, overlayValue_table (hatop.get? htheirs).keys,
      fieldsOf_eq_nil hmine, overlay_empty (hatop.get? htheirs).keys]
  shadowed hfront hne h hv := get?_overlay_of_shadowed hatop hfront hne h hv base
  kept h hopen := get?_overlay_of_open hatop h hopen base
  order h := keys_overlay_at hatop base h
  self := overlay_self hbase
  again := overlay_again hatop base
  empty_left := overlay_empty hbase.keys
  empty_right := overlay_nil base

def clashingBase : Table :=
  [("a", .table [("x", .int 1), ("y", .table [])]), ("b", .int 5)]

def clashingOverlay : Table :=
  [("c", .text "s"), ("b", .table [("x", .bool true)]),
    ("a", .table [("z", .int 2), ("y", .int 3)])]

theorem overlay_obeys_on_clash : (Value.table clashingBase).Distinct ∧
    (Value.table clashingOverlay).Distinct ∧ OverlayLaws clashingBase clashingOverlay := by
  have hbase : (Value.table clashingBase).Distinct := by
    refine .table (by decide) ?_
    simp only [clashingBase, List.forall_mem_cons]
    refine ⟨.table (by decide) ?_, .other rfl, List.forall_mem_nil _⟩
    simp only [List.forall_mem_cons]
    exact ⟨.other rfl, .table List.nodup_nil (List.forall_mem_nil _), List.forall_mem_nil _⟩
  have hatop : (Value.table clashingOverlay).Distinct := by
    refine .table (by decide) ?_
    simp only [clashingOverlay, List.forall_mem_cons]
    refine ⟨.other rfl, .table (by decide) ?_, .table (by decide) ?_, List.forall_mem_nil _⟩
    · simp only [List.forall_mem_cons]
      exact ⟨.other rfl, List.forall_mem_nil _⟩
    · simp only [List.forall_mem_cons]
      exact ⟨.other rfl, .other rfl, List.forall_mem_nil _⟩
  exact ⟨hbase, hatop, overlay_obeys hbase hatop⟩

end Settings

end Paddock
