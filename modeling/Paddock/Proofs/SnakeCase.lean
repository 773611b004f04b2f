import Paddock.Proofs.Descent
import Paddock.Proofs.Lowering

/-!
# Keys in snake case

Normalising brings every key on a path of keys into snake case and leaves what is in snake case
alone, so the spelling of such a key does not matter. Arrays are kept as they are, with the keys of
the tables that stand in them.
-/

namespace Paddock

set_option autoImplicit false

namespace Value

mutual

/-- The keys of all tables within a value, those in arrays too. -/
def allKeys : Value → List Text
  | .table fields => fieldKeys fields
  | .array items => itemKeys items
  | _ => []

def itemKeys : List Value → List Text
  | [] => []
  | item :: rest => allKeys item ++ itemKeys rest

def fieldKeys : List (Text × Value) → List Text
  | [] => []
  | (key, value) :: rest => key :: (allKeys value ++ fieldKeys rest)

end

variable {key : Text} {v : Value} {fields : Table}

theorem mem_fieldKeys (h : key ∈ fieldKeys fields) :
    key ∈ Fields.keys fields ∨ ∃ field ∈ fields, key ∈ field.2.allKeys := by
  induction fields with
  | nil => exact absurd h List.not_mem_nil
  | cons field rest ih =>
    rw [fieldKeys, List.mem_cons, List.mem_append] at h
    rcases h with rfl | h | h
    · exact .inl List.mem_cons_self
    · exact .inr ⟨field, List.mem_cons_self, h⟩
    · rcases ih h with h | ⟨field, hfield, h⟩
      · exact .inl (List.mem_cons_of_mem _ h)
      · exact .inr ⟨field, List.mem_cons_of_mem _ hfield, h⟩

theorem leads_of_mem_allKeys (h : key ∈ v.allKeys) :
    (∃ path fields, Leads path v (.table fields) ∧ key ∈ Fields.keys fields) ∨
      ∃ path items, Leads path v (.array items) ∧ key ∈ itemKeys items := by
  induction v using tableInduction with
  | other v hv =>
    cases v with
    | array items => exact .inr ⟨[], items, .here _, h⟩
    | table => exact nomatch hv
    | _ => exact absurd h List.not_mem_nil
  | table fields ih =>
    rcases mem_fieldKeys h with hkey | ⟨field, hfield, h⟩
    · exact .inl ⟨[], fields, .here _, hkey⟩
    · rcases ih field hfield h with ⟨path, inner, hpath, hkey⟩ | ⟨path, items, hpath, hkey⟩
      · exact .inl ⟨field.1 :: path, inner, .field hfield hpath, hkey⟩
      · exact .inr ⟨field.1 :: path, items, .field hfield hpath, hkey⟩

end Value

namespace Settings

variable {x : Text} {g : Glyph} {t fields : Table} {field : Text × Value} {v v' w : Value}
  {path : List Text}

theorem lowerCode_ne_of_capital : ∀ n < 91, 65 ≤ n → Glyph.lowerCode n ≠ n := by decide

theorem not_startsHump (h : g.IsSmall) : startsHump g = false := by
  cases g with
  | raw low => rfl
  | char c =>
    rw [Bool.eq_false_iff]
    intro hcapital
    simp only [startsHump, Bool.and_eq_true, decide_eq_true_eq] at hcapital
    have hA : 65 ≤ c.toNat := UInt32.le_iff_toNat_le.mp hcapital.1
    have hZ : c.toNat ≤ 90 := UInt32.le_iff_toNat_le.mp hcapital.2
    have hdotted : c ≠ '\u0130' := by
      rintro rfl
      exact absurd hZ (by decide)
    have hlower := h.lower_eq
    rw [Glyph.lower_char hdotted] at hlower
    have hcode := Glyph.toNat_ofNat_lowerCode c
    rw [Glyph.char.inj (List.singleton_inj.mp hlower)] at hcode
    exact lowerCode_ne_of_capital c.toNat (by omega) hA hcode.symm

/-- The first glyph may start a hump, as no other stands before it. -/
theorem splitHumps_cons_eq_self (h : ∀ g ∈ x, startsHump g = false) :
    splitHumps (g :: x) = g :: x := by
  induction x generalizing g with
  | nil => rfl
  | cons next x ih =>
    obtain ⟨hnext, hx⟩ := List.forall_mem_cons.mp h
    rw [splitHumps, if_neg (by simp [hnext]), ih hx]

theorem splitHumps_eq_self (h : ∀ g ∈ x, startsHump g = false) : splitHumps x = x := by
  cases x with
  | nil => rfl
  | cons g x => exact splitHumps_cons_eq_self (List.forall_mem_cons.mp h).2

theorem undash_eq_self (h : .char '-' ∉ x) : undash x = x := by
  have hsame : ∀ g ∈ x, (if g = .char '-' then Glyph.char '_' else g) = g := by
    intro g hg
    apply if_neg
    rintro rfl
    exact h hg
  rw [undash, List.map_congr_left hsame, List.map_id']

theorem not_dash_mem_undash (x : Text) : .char '-' ∉ undash x := by
  intro h
  obtain ⟨g, -, hg⟩ := List.mem_map.mp h
  split at hg
  · exact absurd hg (by decide)
  · next hdash => exact hdash hg

theorem not_dash_mem_normalizeKey (key : Text) : .char '-' ∉ normalizeKey key :=
  fun h => not_dash_mem_undash _ (Text.mem_of_mem_lower h (by decide))

theorem normalizeKey_eq_self (hsmall : ∀ g ∈ x, g.IsSmall) (hdash : .char '-' ∉ x) :
    normalizeKey x = x := by
  rw [normalizeKey, splitHumps_eq_self fun g hg => not_startsHump (hsmall g hg),
    undash_eq_self hdash, Text.lower_eq_self hsmall]

theorem normalizeKey_normalizeKey (key : Text) :
    normalizeKey (normalizeKey key) = normalizeKey key :=
  normalizeKey_eq_self (fun _ => Text.isSmall_of_mem_lower) (not_dash_mem_normalizeKey key)

def normalField (field : Text × Value) : Text × Value :=
  (normalizeKey field.1, normalizeValue field.2)

theorem normalizeOnto_eq_foldl (done fields : Table) :
    normalizeOnto done fields =
      (fields.map normalField).foldl (fun done field => Fields.put done field.1 field.2) done := by
  induction fields generalizing done with
  | nil => rfl
  | cons field rest ih => exact ih _

theorem normalizeKeys_eq_ofList (t : Table) :
    normalizeKeys t = Fields.ofList (t.map normalField) := normalizeOnto_eq_foldl [] t

theorem normalizeValue_table (t : Table) :
    normalizeValue (.table t) = .table (normalizeKeys t) := rfl

theorem normalizeValue_of_not_table (h : v.isTable = false) : normalizeValue v = v := by
  cases v <;> first | rfl | exact nomatch h

@[simp] theorem isTable_normalizeValue (v : Value) : (normalizeValue v).isTable = v.isTable := by
  cases v <;> rfl

theorem mem_normalizeKeys (h : field ∈ normalizeKeys t) :
    ∃ source ∈ t, normalField source = field := by
  rw [normalizeKeys_eq_ofList] at h
  exact List.mem_map.mp (Fields.mem_ofList h)

theorem nodup_keys_normalizeKeys (t : Table) : (Fields.keys (normalizeKeys t)).Nodup := by
  rw [normalizeKeys_eq_ofList]
  exact Fields.nodup_keys_ofList _

theorem get?_normalizeKeys (t : Table) (key : Text) :
    Fields.get? (normalizeKeys t) key =
      ((t.filter fun field => normalizeKey field.1 = key).getLast?).map
        fun field => normalizeValue field.2 := by
  rw [normalizeKeys_eq_ofList, Fields.get?_ofList, List.filter_map, List.getLast?_map,
    Option.map_map]
  rfl

theorem normalizeValue_normalizeValue (v : Value) :
    normalizeValue (normalizeValue v) = normalizeValue v := by
  induction v using Value.tableInduction with
  | other v h => rw [normalizeValue_of_not_table h, normalizeValue_of_not_table h]
  | table fields ih =>
    have hfixed : ∀ field ∈ normalizeKeys fields, normalField field = field := by
      intro field hfield
      obtain ⟨source, hsource, rfl⟩ := mem_normalizeKeys hfield
      exact Prod.ext (normalizeKey_normalizeKey source.1) (ih source hsource)
    rw [normalizeValue_table, normalizeValue_table, normalizeKeys_eq_ofList (normalizeKeys fields),
      List.map_congr_left hfixed, List.map_id', Fields.ofList_of_nodup (nodup_keys_normalizeKeys _)]

/-- What a path leads to after normalising stood on a path that differs in spelling. -/
theorem leads_normalizeValue (h : Value.Leads path (normalizeValue v) w) :
    ∃ path' w', Value.Leads path' v w' ∧ path'.map normalizeKey = path ∧ normalizeValue w' = w := by
  induction path generalizing v with
  | nil =>
    cases h with
    | here => exact ⟨[], v, .here v, rfl, rfl⟩
  | cons key path ih =>
    cases htable : v.isTable with
    | false =>
      rw [normalizeValue_of_not_table htable] at h
      cases h with
      | field _ _ => exact nomatch htable
    | true =>
      obtain ⟨fields, rfl⟩ := Value.exists_table htable
      rw [normalizeValue_table] at h
      cases h with
      | field hfield h =>
        obtain ⟨source, hsource, hnormal⟩ := mem_normalizeKeys hfield
        obtain ⟨rfl, rfl⟩ := Prod.mk.inj hnormal
        obtain ⟨path', w', hpath', rfl, hw'⟩ := ih h
        exact ⟨source.1 :: path', w', .field hsource hpath', rfl, hw'⟩

theorem snake_of_leads (h : Value.Leads path (.table (normalizeKeys t)) (.table fields)) :
    (Fields.keys fields).Nodup ∧ ∀ key ∈ Fields.keys fields, normalizeKey key = key := by
  rw [← normalizeValue_table] at h
  obtain ⟨path', w', -, -, hw'⟩ := leads_normalizeValue h
  have htable : w'.isTable = true := by rw [← isTable_normalizeValue, hw']; rfl
  obtain ⟨source, rfl⟩ := Value.exists_table htable
  obtain rfl := Value.table.inj hw'
  refine ⟨nodup_keys_normalizeKeys source, ?_⟩
  intro key hkey
  obtain ⟨field, hfield, rfl⟩ := List.mem_map.mp hkey
  obtain ⟨origin, -, rfl⟩ := mem_normalizeKeys hfield
  exact normalizeKey_normalizeKey origin.1

theorem kept_of_leads (hv : v.isTable = false)
    (h : Value.Leads path (.table (normalizeKeys t)) v) :
    ∃ path', Value.Leads path' (.table t) v ∧ path'.map normalizeKey = path := by
  rw [← normalizeValue_table] at h
  obtain ⟨path', w', hpath', hspelt, rfl⟩ := leads_normalizeValue h
  rw [isTable_normalizeValue] at hv
  rw [normalizeValue_of_not_table hv]
  exact ⟨path', hpath', hspelt⟩

/-- Two values differ in the spelling of keys on paths of keys. -/
inductive Respelled : Value → Value → Prop where
  | refl (v : Value) : Respelled v v
  | field {before after : Table} {key key' : Text} {v v' : Value}
      (hkey : normalizeKey key = normalizeKey key') (h : Respelled v v') :
      Respelled (.table (before ++ (key, v) :: after)) (.table (before ++ (key', v') :: after))
  | trans {u v w : Value} (h : Respelled u v) (h' : Respelled v w) : Respelled u w

theorem Respelled.normalizeValue_eq (h : Respelled v v') :
    normalizeValue v = normalizeValue v' := by
  induction h with
  | refl => rfl
  | trans _ _ ih ih' => exact ih.trans ih'
  | @field before after key key' v v' hkey _ ih =>
    have hfield : normalField (key, v) = normalField (key', v') := Prod.ext hkey ih
    rw [normalizeValue_table, normalizeValue_table, normalizeKeys_eq_ofList,
      normalizeKeys_eq_ofList, List.map_append, List.map_append, List.map_cons, List.map_cons,
      hfield]

theorem fieldsDepth_append (fields rest : Table) :
    fieldsDepth (fields ++ rest) = max (fieldsDepth fields) (fieldsDepth rest) := by
  induction fields with
  | nil => exact (Nat.zero_max _).symm
  | cons field fields ih =>
    rw [List.cons_append, fieldsDepth, fieldsDepth, ih, Nat.max_assoc]

theorem Respelled.tableDepth_eq (h : Respelled v v') : tableDepth v = tableDepth v' := by
  induction h with
  | refl => rfl
  | trans _ _ ih ih' => exact ih.trans ih'
  | field _ _ ih =>
    have hnonempty : ∀ (before after : Table) field, (before ++ field :: after).isEmpty = false :=
      fun before after field => by simp
    rw [tableDepth, tableDepth, hnonempty, hnonempty, fieldsDepth_append, fieldsDepth_append,
      fieldsDepth, fieldsDepth, ih]

/-- What the normalised table is, and what it depends on. -/
structure NormalLaws (t : Table) : Prop where
  halts : ∀ room, normalized room t = .ok (normalizeKeys t) ↔ tableDepth (.table t) ≤ room
  snake : ∀ {path fields}, Value.Leads path (.table (normalizeKeys t)) (.table fields) →
    (Fields.keys fields).Nodup ∧ ∀ key ∈ Fields.keys fields, normalizeKey key = key
  kept : ∀ {path v}, v.isTable = false → Value.Leads path (.table (normalizeKeys t)) v →
    ∃ path', Value.Leads path' (.table t) v ∧ path'.map normalizeKey = path
  apart : ∀ {key}, key ∈ (Value.table (normalizeKeys t)).allKeys → normalizeKey key ≠ key →
    ∃ path items, Value.Leads path (.table t) (.array items) ∧ key ∈ Value.itemKeys items
  last : ∀ key, Fields.get? (normalizeKeys t) key =
    ((t.filter fun field => normalizeKey field.1 = key).getLast?).map
      fun field => normalizeValue field.2
  again : normalizeKeys (normalizeKeys t) = normalizeKeys t
  respelled : ∀ {t'}, Respelled (.table t) (.table t') → ∀ room,
    normalized room t' = normalized room t

theorem normalized_eq_ok_iff (t : Table) (room : ℕ) :
    normalized room t = .ok (normalizeKeys t) ↔ tableDepth (.table t) ≤ room := by
  unfold normalized
  split
  · next h => exact ⟨nofun, fun hle => absurd h (Nat.not_lt.mpr hle)⟩
  · next h => exact ⟨fun _ => Nat.not_lt.mp h, fun _ => rfl⟩

theorem normalizeKeys_obeys (t : Table) : NormalLaws t where
  halts := normalized_eq_ok_iff t
  snake := snake_of_leads
  kept := kept_of_leads
  apart := by
    intro key hkey hspelt
    rcases Value.leads_of_mem_allKeys hkey with
      ⟨path, fields, hpath, hmem⟩ | ⟨path, items, hpath, hitem⟩
    · exact absurd ((snake_of_leads hpath).2 key hmem) hspelt
    · obtain ⟨path', hpath', -⟩ := kept_of_leads rfl hpath
      exact ⟨path', items, hpath', hitem⟩
  last := get?_normalizeKeys t
  again := Value.table.inj (normalizeValue_normalizeValue (.table t))
  respelled := by
    intro t' h room
    have hkeys : normalizeKeys t = normalizeKeys t' := Value.table.inj h.normalizeValue_eq
    rw [normalized, normalized, h.tableDepth_eq, hkeys]

/-- The key of a table in an array stays as it is spelled. -/
theorem arrayed_key_keeps_hump :
    ((Toml.read "[[a]]\nfooBar = 1\n".toList).map fun t =>
        (Value.table (normalizeKeys t)).allKeys) = .ok ["a", "fooBar"] ∧
      normalizeKey "fooBar" ≠ "fooBar" := by
  decide +kernel

end Settings

end Paddock
