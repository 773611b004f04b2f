import Paddock.Proofs.Documents
import Paddock.Settings.Load

/-!
# Values that settings files hold

What is read from a file, normalised and laid over something else is storable: there is no null in
it, floats are in lowest form, and every table has each key once.
-/

namespace Paddock

set_option autoImplicit false

variable {v : Value} {fields : Table} {items : List Value} {key : Text}

/-- A settings file can hold the value. -/
inductive Value.Storable : Value → Prop where
  | bool (b : Bool) : Storable (.bool b)
  | int (n : ℤ) : Storable (.int n)
  | float {f : Binary64} (hf : f.IsCanonical) : Storable (.float f)
  | text (x : Text) : Storable (.text x)
  | moment (m : Moment) : Storable (.moment m)
  | array {items : List Value} (hitems : ∀ item ∈ items, Storable item) : Storable (.array items)
  | table {fields : Table} (hkeys : (Fields.keys fields).Nodup)
      (hfields : ∀ field ∈ fields, Storable field.2) : Storable (.table fields)

theorem Value.Storable.sound (h : v.Storable) : v.Sound := by
  induction h with
  | bool b => exact .bool b
  | int n => exact .int n
  | float hf => exact .float hf
  | text x => exact .text x
  | moment m => exact .moment m
  | array _ ih => exact .array ih
  | table hkeys _ ih => exact .table hkeys ih

namespace Fields

variable {α : Type} {fields : Fields α} {key : Text} {a : α}

theorem mem_of_get? (h : get? fields key = some a) : (key, a) ∈ fields := by
  obtain ⟨before, after, rfl, -⟩ := List.lookup_eq_some_iff.mp h
  simp

theorem nodup_keys_put (h : (keys fields).Nodup) (key : Text) (a : α) :
    (keys (put fields key a)).Nodup := by
  rw [keys_put]
  split
  · exact h
  · next hkey => exact List.nodup_append.mpr ⟨h, List.nodup_singleton key, by grind⟩

theorem mem_put {field : Text × α} (h : field ∈ put fields key a) :
    field ∈ fields ∨ field = (key, a) := by
  induction fields with
  | nil => exact .inr (List.mem_singleton.mp h)
  | cons first rest ih =>
    obtain ⟨k, old⟩ := first
    rw [put] at h
    split at h
    · next hk =>
      rcases List.mem_cons.mp h with rfl | h
      · exact .inr (by rw [hk])
      · exact .inl (List.mem_cons_of_mem _ h)
    · rcases List.mem_cons.mp h with rfl | h
      · exact .inl List.mem_cons_self
      · exact (ih h).imp (List.mem_cons_of_mem _) id

end Fields

namespace Value.Storable

theorem table_iff : (Value.table fields).Storable ↔
    (Fields.keys fields).Nodup ∧ ∀ field ∈ fields, field.2.Storable :=
  ⟨fun | .table hkeys hfields => ⟨hkeys, hfields⟩, fun h => .table h.1 h.2⟩

theorem array_iff : (Value.array items).Storable ↔ ∀ item ∈ items, item.Storable :=
  ⟨fun | .array hitems => hitems, .array⟩

theorem ne_null (h : v.Storable) : v ≠ .null := by
  rintro rfl
  cases h

theorem table_nil : (Value.table []).Storable := .table List.nodup_nil (List.forall_mem_nil _)

theorem get? (h : (Value.table fields).Storable) (hget : Fields.get? fields key = some v) :
    v.Storable :=
  (table_iff.mp h).2 (key, v) (Fields.mem_of_get? hget)

theorem put (h : (Value.table fields).Storable) (key : Text) (hv : v.Storable) :
    (Value.table (Fields.put fields key v)).Storable := by
  obtain ⟨hkeys, hfields⟩ := table_iff.mp h
  refine .table (Fields.nodup_keys_put hkeys key v) fun field hfield => ?_
  rcases Fields.mem_put hfield with hfield | rfl
  · exact hfields field hfield
  · exact hv

theorem remove (h : (Value.table fields).Storable) (key : Text) :
    (Value.table (Fields.remove fields key)).Storable := by
  obtain ⟨hkeys, hfields⟩ := table_iff.mp h
  have hsublist : (Fields.remove fields key).Sublist fields := List.filter_sublist
  exact .table (hkeys.sublist (hsublist.map _)) fun field hfield =>
    hfields field (hsublist.subset hfield)

theorem cons (h : (Value.table fields).Storable) (hkey : key ∉ Fields.keys fields)
    (hv : v.Storable) : (Value.table ((key, v) :: fields)).Storable := by
  obtain ⟨hkeys, hfields⟩ := table_iff.mp h
  exact .table (List.nodup_cons.mpr ⟨hkey, hkeys⟩) (List.forall_mem_cons.mpr ⟨hv, hfields⟩)

end Value.Storable

namespace Toml

theorem toFields_put (children : Children) (key : Text) (node : Node) :
    toFields (Fields.put children key node) = Fields.put (toFields children) key node.toValue := by
  induction children with
  | nil => rfl
  | cons child rest ih =>
    obtain ⟨k, old⟩ := child
    rw [Fields.put, toFields, Fields.put]
    split
    · rfl
    · rw [toFields, ih]

theorem get?_toFields (children : Children) (key : Text) :
    Fields.get? (toFields children) key = (Fields.get? children key).map Node.toValue := by
  induction children with
  | nil => rfl
  | cons child rest ih =>
    obtain ⟨k, node⟩ := child
    unfold Fields.get? at ih ⊢
    rw [toFields, List.lookup_cons, List.lookup_cons]
    split
    · rfl
    · exact ih

theorem toItems_append (earlier : List (List (Text × Node))) (children : Children) :
    toItems (earlier ++ [children]) = toItems earlier ++ [.table (toFields children)] := by
  induction earlier with
  | nil => rfl
  | cons first earlier ih => rw [List.cons_append, toItems, ih, toItems, List.cons_append]

/-- The table that children make up is storable. -/
def StorableChildren (children : Children) : Prop := (Value.table (toFields children)).Storable

variable {children changed inner last : Children} {node : Node} {claim : Option ℕ}
  {earlier : List (List (Text × Node))}

theorem StorableChildren.get? (h : StorableChildren children)
    (hget : Fields.get? children key = some node) : node.toValue.Storable := by
  have hfield : Fields.get? (toFields children) key = some node.toValue := by
    rw [get?_toFields, hget]
    rfl
  exact Value.Storable.get? h hfield

theorem StorableChildren.put (h : StorableChildren children) (key : Text)
    (hnode : node.toValue.Storable) : StorableChildren (Fields.put children key node) := by
  rw [StorableChildren, toFields_put]
  exact Value.Storable.put h key hnode

theorem storable_tables :
    (Node.tables earlier last).toValue.Storable ↔
      (∀ item ∈ toItems earlier, item.Storable) ∧ StorableChildren last := by
  rw [Node.toValue, Value.Storable.array_iff, List.forall_mem_append, List.forall_mem_singleton]
  rfl

/-- A change leads from storable tables to storable tables. -/
def KeepsStorable (change : Children → Option Children) : Prop :=
  ∀ children changed, change children = some changed → StorableChildren children →
    StorableChildren changed

variable {change : Children → Option Children}

theorem KeepsStorable.within (hchange : KeepsStorable change) (path : List Text) :
    KeepsStorable (Toml.within change path) := by
  -- the table that the path leads through is put back under its key, so its depth does not matter
  induction path with
  | nil => exact hchange
  | cons key path ih =>
    intro children changed h hstored
    rw [Toml.within] at h
    cases hget : Fields.get? children key with
    | none =>
      rw [hget] at h
      obtain ⟨inner, hinner, rfl⟩ := Option.map_eq_some_iff.mp h
      exact hstored.put key (ih [] inner hinner .table_nil)
    | some node =>
      have hnode := hstored.get? hget
      rw [hget] at h
      cases node with
      | leaf value => exact nomatch h
      | table claim inner =>
        obtain ⟨inner', hinner, rfl⟩ := Option.map_eq_some_iff.mp h
        exact hstored.put key (ih inner inner' hinner hnode)
      | tables earlier last =>
        obtain ⟨last', hlast, rfl⟩ := Option.map_eq_some_iff.mp h
        obtain ⟨hearlier, hlastStored⟩ := storable_tables.mp hnode
        exact hstored.put key (storable_tables.mpr ⟨hearlier, ih last last' hlast hlastStored⟩)

theorem keepsStorable_assign (here : ℕ) (hv : v.Storable) (path : List Text) :
    KeepsStorable (assign here v path) := by
  induction path with
  | nil => exact nofun
  | cons key path ih =>
    intro children changed h hstored
    cases path with
    | nil =>
      rw [assign] at h
      split at h
      · cases h
        exact hstored.put key hv
      · exact nomatch h
    | cons next path =>
      rw [assign] at h
      · split at h
        · obtain ⟨inner, hinner, rfl⟩ := Option.map_eq_some_iff.mp h
          exact hstored.put key (ih [] inner hinner .table_nil)
        · next claim inner hget =>
          split at h
          · obtain ⟨inner', hinner, rfl⟩ := Option.map_eq_some_iff.mp h
            exact hstored.put key (ih inner inner' hinner (hstored.get? hget))
          · exact nomatch h
        · exact nomatch h
      · exact List.cons_ne_nil next path

theorem keepsStorable_claimTable (here : ℕ) (key : Text) : KeepsStorable (claimTable here key) := by
  intro children changed h hstored
  rw [claimTable] at h
  split at h
  · cases h
    exact hstored.put key .table_nil
  · next inner hget =>
    cases h
    have hinner : StorableChildren inner := hstored.get? hget
    exact hstored.put key hinner
  · exact nomatch h

theorem keepsStorable_startTable (key : Text) : KeepsStorable (startTable key) := by
  intro children changed h hstored
  rw [startTable] at h
  split at h
  · cases h
    exact hstored.put key (storable_tables.mpr ⟨List.forall_mem_nil _, .table_nil⟩)
  · next earlier last hget =>
    cases h
    have hnode := hstored.get? hget
    refine hstored.put key (storable_tables.mpr ⟨?_, .table_nil⟩)
    rw [toItems_append]
    exact Value.Storable.array_iff.mp hnode
  · exact nomatch h

theorem keepsStorable_openSection {change : Text → Children → Option Children}
    (hchange : ∀ key, KeepsStorable (change key)) (header : List Text) :
    KeepsStorable (openSection change header) := by
  intro children changed h hstored
  rw [openSection] at h
  split at h
  · exact nomatch h
  · next key _ => exact (hchange key).within header.dropLast children changed h hstored

/-- What is scanned gives storable values. -/
def Scans (scan : List Char → Except Flaw (Value × List Char)) : Prop :=
  ∀ s v rest, scan s = .ok (v, rest) → v.Storable

theorem storable_moment? {s rest : List Char} (h : moment? s = some (.ok (v, rest))) :
    v.Storable := by
  rw [moment?] at h
  split at h
  · split at h
    · exact nomatch h
    · split at h
      · cases h
        exact .moment _
      · split at h <;> cases h <;> exact .moment _
  · obtain ⟨_, -, hv⟩ := Option.map_eq_some_iff.mp h
    cases hv
    exact .moment _

theorem storable_based? {s rest : List Char} (h : based? s = some (v, rest)) : v.Storable := by
  unfold based? at h
  simp only [] at h
  split at h
  · obtain ⟨_, -, hv⟩ := Option.map_eq_some_iff.mp h
    cases hv
    exact .int _
  · obtain ⟨_, -, hv⟩ := Option.map_eq_some_iff.mp h
    cases hv
    exact .int _
  · obtain ⟨_, -, hv⟩ := Option.map_eq_some_iff.mp h
    cases hv
    exact .int _
  · exact nomatch h

theorem storable_decimal? {s rest : List Char} (h : decimal? s = some (.ok (v, rest))) :
    v.Storable := by
  unfold decimal? at h
  simp only [] at h
  split at h
  · exact nomatch h
  · split at h
    · split at h
      · exact nomatch h
      · cases h
        exact .int _
    · cases h
      exact .float (Binary64.isCanonical_ofDecimal _ _ _)

theorem storable_special? {s rest : List Char} (h : special? s = some (v, rest)) : v.Storable := by
  unfold special? at h
  simp only [] at h
  split at h
  · cases h
    exact .float trivial
  · cases h
    exact .float trivial
  · exact nomatch h

theorem scans_scalarValue : Scans scalarValue := by
  intro s v rest h
  unfold scalarValue at h
  split at h
  · cases h
    exact .bool true
  · cases h
    exact .bool false
  · split at h
    · next hmoment =>
      rw [h] at hmoment
      exact storable_moment? hmoment
    · split at h
      · next hbased =>
        cases h
        exact storable_based? hbased
      · split at h
        · next hdecimal =>
          rw [h] at hdecimal
          exact storable_decimal? hdecimal
        · split at h
          · next hspecial =>
            cases h
            exact storable_special? hspecial
          · exact nomatch h

theorem scans_stringWithin (room : ℕ) (quote : Char) : Scans (stringWithin room quote) := by
  intro s v rest h
  unfold stringWithin at h
  split at h
  on_goal 2 => split at h
  -- the three kinds of string differ in the room that they need, not in what is read
  all_goals
    obtain ⟨_, -, h⟩ := bind_eq_ok.mp h
    obtain ⟨_, -, h⟩ := bind_eq_ok.mp h
    cases h
    exact .text _

/-- What the scanners of values, items and pairs give with so much fuel is storable. -/
structure ScansWithin (fuel : ℕ) : Prop where
  value : ∀ room, Scans (valueWithin fuel room)
  items : ∀ room s items rest, itemsWithin fuel room s = .ok (items, rest) →
    ∀ item ∈ items, item.Storable
  pairs : ∀ room done s children rest, pairsWithin fuel room done s = .ok (children, rest) →
    StorableChildren done → StorableChildren children

theorem scans_valueWithin_succ {fuel : ℕ} (ih : ScansWithin fuel) (room : ℕ) :
    Scans (valueWithin (fuel + 1) room) := by
  intro s v rest h
  cases s with
  | nil => exact nomatch h
  | cons c s =>
    rw [valueWithin] at h
    split at h
    · exact scans_stringWithin room c s v rest h
    split at h
    · obtain ⟨_, -, h⟩ := bind_eq_ok.mp h
      obtain ⟨_, -, h⟩ := bind_eq_ok.mp h
      obtain ⟨⟨items, rest⟩, hitems, h⟩ := bind_eq_ok.mp h
      cases h
      exact .array (ih.items _ _ items rest hitems)
    split at h
    · split at h
      · obtain ⟨_, -, h⟩ := bind_eq_ok.mp h
        cases h
        exact .table_nil
      · obtain ⟨_, -, h⟩ := bind_eq_ok.mp h
        obtain ⟨⟨children, rest⟩, hpairs, h⟩ := bind_eq_ok.mp h
        cases h
        exact ih.pairs _ [] _ children rest hpairs .table_nil
    · obtain ⟨⟨value, rest⟩, hscalar, h⟩ := bind_eq_ok.mp h
      have hstored := scans_scalarValue _ value rest hscalar
      simp only [] at h
      split at h
      · cases h
        exact hstored
      · obtain ⟨_, -, h⟩ := bind_eq_ok.mp h
        cases h
        exact hstored

theorem storable_itemsWithin_succ {fuel : ℕ} (ih : ScansWithin fuel) {room : ℕ} {s rest : List Char}
    (h : itemsWithin (fuel + 1) room s = .ok (items, rest)) : ∀ item ∈ items, item.Storable := by
  unfold itemsWithin at h
  split at h
  · cases h
    exact List.forall_mem_nil _
  · obtain ⟨⟨item, s⟩, hitem, h⟩ := bind_eq_ok.mp h
    have hstored := ih.value room _ item s hitem
    obtain ⟨filled, -, h⟩ := bind_eq_ok.mp h
    split at h
    · cases h
      exact List.forall_mem_singleton.mpr hstored
    · obtain ⟨_, -, h⟩ := bind_eq_ok.mp h
      obtain ⟨⟨more, rest⟩, hmore, h⟩ := bind_eq_ok.mp h
      cases h
      exact List.forall_mem_cons.mpr ⟨hstored, ih.items room _ more rest hmore⟩
    · exact nomatch h

theorem storable_pairsWithin_succ {fuel : ℕ} (ih : ScansWithin fuel) {room : ℕ} {done : Children}
    {s rest : List Char} (h : pairsWithin (fuel + 1) room done s = .ok (children, rest))
    (hdone : StorableChildren done) : StorableChildren children := by
  unfold pairsWithin at h
  obtain ⟨⟨path, s⟩, -, h⟩ := bind_eq_ok.mp h
  simp only [] at h
  split at h
  · obtain ⟨⟨value, s⟩, hvalue, h⟩ := bind_eq_ok.mp h
    have hstored := ih.value room _ value s hvalue
    simp only [] at h
    split at h
    · exact nomatch h
    · next assigned hassign =>
      have hassigned := keepsStorable_assign 0 hstored path done assigned hassign hdone
      split at h
      · cases h
        exact hassigned
      · exact ih.pairs room assigned _ children rest h hassigned
      · exact nomatch h
  · exact nomatch h

theorem scansWithin (fuel : ℕ) : ScansWithin fuel := by
  induction fuel with
  | zero => exact ⟨nofun, nofun, nofun⟩
  | succ fuel ih =>
    exact ⟨scans_valueWithin_succ ih, fun _ _ _ _ h => storable_itemsWithin_succ ih h,
      fun _ _ _ _ _ h hdone => storable_pairsWithin_succ ih h hdone⟩

theorem storable_openNext {d d' : Draft} {header : List Text}
    {change : ℕ → Text → Children → Option Children}
    (hchange : ∀ number key, KeepsStorable (change number key))
    (h : d.openNext header change = .ok d') (hd : StorableChildren d.content) :
    StorableChildren d'.content := by
  unfold Draft.openNext at h
  split at h
  · next content hcontent =>
    cases h
    exact keepsStorable_openSection (hchange _) header d.content content hcontent hd
  · exact nomatch h

theorem storable_put {d d' : Draft} {path : List Text} (hv : v.Storable) (h : d.put path v = .ok d')
    (hd : StorableChildren d.content) : StorableChildren d'.content := by
  unfold Draft.put at h
  split at h
  · next content hcontent =>
    cases h
    exact (keepsStorable_assign d.number hv path).within d.header d.content content hcontent hd
  · exact nomatch h

theorem storable_headerStatement {d d' : Draft} {s rest : List Char}
    (h : headerStatement d s = .ok (d', rest)) (hd : StorableChildren d.content) :
    StorableChildren d'.content := by
  unfold headerStatement at h
  split at h
  · obtain ⟨⟨path, s⟩, -, h⟩ := bind_eq_ok.mp h
    obtain ⟨opened, hopen, h⟩ := bind_eq_ok.mp h
    split at h
    · cases h
      exact storable_openNext (fun _ => keepsStorable_startTable) hopen hd
    · exact nomatch h
  · obtain ⟨⟨path, s⟩, -, h⟩ := bind_eq_ok.mp h
    obtain ⟨opened, hopen, h⟩ := bind_eq_ok.mp h
    split at h
    · cases h
      exact storable_openNext keepsStorable_claimTable hopen hd
    · exact nomatch h

theorem storable_statement {room : ℕ} {d d' : Draft} {s rest : List Char}
    (h : statement room d s = .ok (d', rest)) (hd : StorableChildren d.content) :
    StorableChildren d'.content := by
  unfold statement at h
  split at h
  · cases h
    exact hd
  · split at h
    · exact storable_headerStatement h hd
    split at h
    · cases h
      exact hd
    · unfold pairStatement at h
      obtain ⟨⟨path, s⟩, -, h⟩ := bind_eq_ok.mp h
      simp only [] at h
      split at h
      · obtain ⟨⟨value, s⟩, hvalue, h⟩ := bind_eq_ok.mp h
        obtain ⟨d'', hput, h⟩ := bind_eq_ok.mp h
        cases h
        exact storable_put ((scansWithin _).value _ _ value s hvalue) hput hd
      · exact nomatch h

theorem storable_readLines {room fuel : ℕ} {d d' : Draft} {s : List Char}
    (h : readLines room fuel d s = .ok d') (hd : StorableChildren d.content) :
    StorableChildren d'.content := by
  induction fuel generalizing d s with
  | zero => exact nomatch h
  | succ fuel ih =>
    unfold readLines at h
    obtain ⟨⟨next, s⟩, hstatement, h⟩ := bind_eq_ok.mp h
    have hnext := storable_statement hstatement hd
    obtain ⟨rest, -, h⟩ := bind_eq_ok.mp h
    split at h
    · cases h
      exact hnext
    · exact ih h hnext
    · exact nomatch h

theorem storable_read {s : List Char} {room : ℕ} {t : Table} (h : read s room = .ok t) :
    (Value.table t).Storable := by
  unfold read at h
  cases hlines : readLines room (s.length + 1) Draft.empty s with
  | error flaw =>
    rw [hlines] at h
    exact nomatch h
  | ok d =>
    rw [hlines] at h
    cases h
    exact storable_readLines hlines .table_nil

end Toml

namespace Settings

theorem storable_normalizeOnto {done : Table} (hdone : (Value.table done).Storable)
    (hfields : ∀ field ∈ fields, (normalizeValue field.2).Storable) :
    (Value.table (normalizeOnto done fields)).Storable := by
  induction fields generalizing done with
  | nil => exact hdone
  | cons field rest ih =>
    obtain ⟨hfield, hrest⟩ := List.forall_mem_cons.mp hfields
    exact ih (hdone.put _ hfield) hrest

theorem storable_normalizeValue (h : v.Storable) : (normalizeValue v).Storable := by
  induction h with
  | bool b => exact .bool b
  | int n => exact .int n
  | float hf => exact .float hf
  | text x => exact .text x
  | moment m => exact .moment m
  | array hitems _ => exact .array hitems
  | table _ _ ih => exact storable_normalizeOnto .table_nil ih

theorem storable_overlay {base : Table} (hbase : (Value.table base).Storable)
    (hfields : ∀ field ∈ fields, ∀ under : Option Value, (∀ u, under = some u → u.Storable) →
      (overlayValue under field.2).Storable) :
    (Value.table (overlay base fields)).Storable := by
  induction fields generalizing base with
  | nil => exact hbase
  | cons field rest ih =>
    obtain ⟨hfield, hrest⟩ := List.forall_mem_cons.mp hfields
    exact ih (hbase.put _ (hfield _ fun _ hget => hbase.get? hget)) hrest

theorem storable_overlayValue (h : v.Storable) (under : Option Value)
    (hunder : ∀ u, under = some u → u.Storable) : (overlayValue under v).Storable := by
  induction h generalizing under with
  | bool b => exact .bool b
  | int n => exact .int n
  | float hf => exact .float hf
  | text x => exact .text x
  | moment m => exact .moment m
  | array hitems _ => exact .array hitems
  | table hkeys hfields ih =>
    unfold overlayValue
    split
    · exact storable_overlay (hunder _ rfl) ih
    · exact .table hkeys hfields

theorem storable_overlay_table {base : Table} (hbase : (Value.table base).Storable)
    (h : (Value.table fields).Storable) : (Value.table (overlay base fields)).Storable :=
  storable_overlay hbase fun field hfield =>
    storable_overlayValue ((Value.Storable.table_iff.mp h).2 field hfield)

theorem not_mem_keys_remove (fields : Table) (key : Text) :
    key ∉ Fields.keys (Fields.remove fields key) := by
  intro h
  obtain ⟨field, hfield, hkey⟩ := List.mem_map.mp h
  have hne := (List.mem_filter.mp hfield).2
  exact (of_decide_eq_true hne) hkey

theorem storable_toTable {settings : Settings} (h : v.Storable)
    (hsettings : ofValue v = .ok settings) : (Value.table settings.toTable).Storable := by
  unfold ofValue at hsettings
  split at hsettings
  · next fields =>
    split at hsettings
    · cases hsettings
      have hkeymap : (Value.table [(toggleKey, .text defaultToggle)]).Storable :=
        Value.Storable.table_nil.cons List.not_mem_nil (.text _)
      exact (h.remove keymapKey).cons (not_mem_keys_remove fields keymapKey) hkeymap
    · next keymap hget =>
      obtain ⟨toggle, -, hsettings⟩ := bind_eq_ok.mp hsettings
      cases hsettings
      have hkeymap : (Value.table ((toggleKey, .text toggle) ::
          Fields.remove keymap toggleKey)).Storable :=
        ((h.get? hget).remove toggleKey).cons (not_mem_keys_remove keymap toggleKey) (.text toggle)
      exact (h.remove keymapKey).cons (not_mem_keys_remove fields keymapKey) hkeymap
    · exact nomatch hsettings
  · exact nomatch hsettings

end Settings

end Paddock
