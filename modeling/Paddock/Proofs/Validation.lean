import Paddock.Proofs.Overlaying
import Paddock.Proofs.Pieces

/-!
# Which values make settings

A value makes settings unless it is no table, or what stands for the key bindings is none, or the
chord in them is neither a text nor null. The chord is trimmed and never blank, all else is kept in
its order, and the settings as a table make the same settings again.
-/

namespace Paddock

set_option autoImplicit false

namespace Fields

variable {α : Type}

theorem get?_cons_self (key : Text) (a : α) (rest : Fields α) :
    get? ((key, a) :: rest) key = some a := by
  rw [get?_cons, if_pos rfl]

theorem remove_cons_self (key : Text) (a : α) (rest : Fields α) :
    remove ((key, a) :: rest) key = remove rest key := by
  simp [remove]

theorem remove_remove (fields : Fields α) (key : Text) :
    remove (remove fields key) key = remove fields key := by
  simp [remove]

end Fields

namespace Settings

variable {v u : Value} {fields keymap : Table} {given : Option Value} {x toggle : Text}
  {issue : Issue}

/-- The chord that a setting makes: its text trimmed, or the default where it has none. -/
inductive Sets : Option Value → Text → Prop where
  | given {x : Text} (h : Text.isBlank x = false) : Sets (some (.text x)) (Text.trim x)
  | blank {x : Text} (h : Text.isBlank x = true) : Sets (some (.text x)) defaultToggle
  | null : Sets (some .null) defaultToggle
  | absent : Sets none defaultToggle

theorem Sets.toggleOf_eq (h : Sets given toggle) : toggleOf given = .ok toggle := by
  cases h with
  | given h => rw [toggleOf, if_neg (by simp [Text.trim_eq_nil_iff, h])]
  | blank h => rw [toggleOf, if_pos (Text.trim_of_isBlank h)]
  | null => rfl
  | absent => rfl

theorem toggleOf_of_not_text (hnull : u ≠ .null) (htext : ∀ x, u ≠ .text x) :
    toggleOf (some u) = .error ⟨[keymapKey, toggleKey], .notText⟩ := by
  cases u with
  | null => exact absurd rfl hnull
  | text x => exact absurd rfl (htext x)
  | _ => rfl

theorem sets_or_not_text (given : Option Value) :
    (∃ toggle, Sets given toggle) ∨ ∃ u, given = some u ∧ u ≠ .null ∧ ∀ x, u ≠ .text x := by
  cases given with
  | none => exact .inl ⟨_, .absent⟩
  | some u =>
    cases u with
    | null => exact .inl ⟨_, .null⟩
    | text x =>
      cases hblank : Text.isBlank x with
      | true => exact .inl ⟨_, .blank hblank⟩
      | false => exact .inl ⟨_, .given hblank⟩
    | _ => exact .inr ⟨_, rfl, nofun, nofun⟩

theorem Sets.trimmed (h : Sets given toggle) : Text.IsTrimmed toggle := by
  have hdefault : Text.IsTrimmed defaultToggle := Text.isTrimmed_of_forall (by decide)
  cases h with
  | given => exact Text.isTrimmed_trim _
  | _ => exact hdefault

theorem Sets.filled (h : Sets given toggle) : Text.isBlank toggle = false := by
  have hdefault : Text.isBlank defaultToggle = false := by decide
  cases h with
  | given h =>
    apply Text.isBlank_eq_false (Text.isTrimmed_trim _)
    simp [Text.trim_eq_nil_iff, h]
  | _ => exact hdefault

theorem Sets.again (h : Sets given toggle) : Sets (some (.text toggle)) toggle := by
  have hagain := Sets.given h.filled
  rwa [Text.trim_eq_self h.trimmed] at hagain

def keymapOf (fields : Table) : Table := fieldsOf (Fields.get? fields keymapKey)

theorem keymapOf_of_table (h : Fields.get? fields keymapKey = some (.table keymap)) :
    keymapOf fields = keymap := by
  rw [keymapOf, h]
  rfl

theorem keymapOf_of_none (h : Fields.get? fields keymapKey = none) : keymapOf fields = [] := by
  rw [keymapOf, h]
  rfl

/-- What is wrong with a value that makes no settings, and where. -/
inductive Unfit : Value → Issue → Prop where
  | notTable {v : Value} (h : v.isTable = false) : Unfit v ⟨[], .notTable⟩
  | keymap {fields : Table} {u : Value} (h : Fields.get? fields keymapKey = some u)
      (hu : u.isTable = false) : Unfit (.table fields) ⟨[keymapKey], .notTable⟩
  | toggle {fields keymap : Table} {u : Value}
      (h : Fields.get? fields keymapKey = some (.table keymap))
      (hu : Fields.get? keymap toggleKey = some u) (hnull : u ≠ .null) (htext : ∀ x, u ≠ .text x) :
      Unfit (.table fields) ⟨[keymapKey, toggleKey], .notText⟩

theorem Unfit.ofValue_eq (h : Unfit v issue) : ofValue v = .error issue := by
  cases h with
  | notTable h => cases v <;> first | rfl | exact nomatch h
  | @keymap fields u h hu =>
    cases u with
    | table => exact nomatch hu
    | _ => simp only [ofValue, h]
  | toggle h hu hnull htext =>
    simp only [ofValue, h, hu, toggleOf_of_not_text hnull htext]
    rfl

def settingsOf (fields : Table) (toggle : Text) : Settings :=
  ⟨toggle, Fields.remove (keymapOf fields) toggleKey, Fields.remove fields keymapKey⟩

theorem ofValue_of_sets (hkeymap : ∀ u, Fields.get? fields keymapKey = some u → u.isTable = true)
    (h : Sets (Fields.get? (keymapOf fields) toggleKey) toggle) :
    ofValue (.table fields) = .ok (settingsOf fields toggle) := by
  cases hget : Fields.get? fields keymapKey with
  | none =>
    rw [keymapOf_of_none hget] at h
    cases h
    simp only [ofValue, hget, settingsOf, keymapOf_of_none hget]
    rfl
  | some u =>
    obtain ⟨keymap, rfl⟩ := Value.exists_table (hkeymap u hget)
    rw [keymapOf_of_table hget] at h
    simp only [ofValue, hget, h.toggleOf_eq, settingsOf, keymapOf_of_table hget]
    rfl

theorem fit_or_unfit (v : Value) : (∃ issue, Unfit v issue) ∨ ∃ fields toggle, v = .table fields ∧
    (∀ u, Fields.get? fields keymapKey = some u → u.isTable = true) ∧
    Sets (Fields.get? (keymapOf fields) toggleKey) toggle := by
  cases htable : v.isTable with
  | false => exact .inl ⟨_, .notTable htable⟩
  | true =>
    obtain ⟨fields, rfl⟩ := Value.exists_table htable
    cases hget : Fields.get? fields keymapKey with
    | none =>
      refine .inr ⟨fields, defaultToggle, rfl, (fun u hu => nomatch hget.symm.trans hu), ?_⟩
      rw [keymapOf_of_none hget]
      exact .absent
    | some u =>
      cases hu : u.isTable with
      | false => exact .inl ⟨_, .keymap hget hu⟩
      | true =>
        obtain ⟨keymap, rfl⟩ := Value.exists_table hu
        rcases sets_or_not_text (Fields.get? keymap toggleKey) with
          ⟨toggle, h⟩ | ⟨u, htoggle, hnull, htext⟩
        · refine .inr ⟨fields, toggle, rfl, ?_, ?_⟩
          · intro u hsame
            rw [← Option.some.inj (hget.symm.trans hsame)]
            rfl
          · rwa [keymapOf_of_table hget]
        · exact .inl ⟨_, .toggle hget htoggle hnull htext⟩

theorem keymapOf_toTable (s : Settings) :
    keymapOf s.toTable = (toggleKey, .text s.toggleMode) :: s.keymapRest :=
  keymapOf_of_table (Fields.get?_cons_self ..)

theorem settingsOf_toTable (fields : Table) (toggle : Text) :
    settingsOf (settingsOf fields toggle).toTable toggle = settingsOf fields toggle := by
  rw [settingsOf, keymapOf_toTable, toTable, Fields.remove_cons_self, Fields.remove_cons_self]
  simp only [settingsOf, Fields.remove_remove]

theorem isTable_of_get?_toTable {s : Settings} (h : Fields.get? s.toTable keymapKey = some u) :
    u.isTable = true := by
  rw [toTable, Fields.get?_cons_self] at h
  rw [← Option.some.inj h]
  rfl

/-- What of a table the settings hold that it makes. -/
structure Describes (fields : Table) (s : Settings) : Prop where
  sets : Sets (Fields.get? (keymapOf fields) toggleKey) s.toggleMode
  filled : Text.isBlank s.toggleMode = false
  trimmed : Text.IsTrimmed s.toggleMode
  chord : Fields.get? (keymapOf s.toTable) toggleKey = some (.text s.toggleMode)
  keymap : Fields.remove (keymapOf s.toTable) toggleKey =
    Fields.remove (keymapOf fields) toggleKey
  rest : Fields.remove s.toTable keymapKey = Fields.remove fields keymapKey
  again : ofValue (.table s.toTable) = .ok s

theorem describes_settingsOf (h : Sets (Fields.get? (keymapOf fields) toggleKey) toggle) :
    Describes fields (settingsOf fields toggle) := by
  have hchord : Fields.get? (keymapOf (settingsOf fields toggle).toTable) toggleKey =
      some (.text toggle) := by
    rw [keymapOf_toTable]
    exact Fields.get?_cons_self ..
  have hsame := settingsOf_toTable fields toggle
  have hagain := ofValue_of_sets (fun _ => isTable_of_get?_toTable) (hchord ▸ h.again)
  rw [hsame] at hagain
  exact ⟨h, h.filled, h.trimmed, hchord, congrArg keymapRest hsame, congrArg Settings.rest hsame,
    hagain⟩

/-- The verdict on a value, and what is kept of one that makes settings. -/
structure Validated (v : Value) : Prop where
  refused : ∀ {issue}, ofValue v = .error issue ↔ Unfit v issue
  accepted : (∀ issue, ¬ Unfit v issue) →
    ∃ fields s, v = .table fields ∧ ofValue v = .ok s ∧ Describes fields s

theorem ofValue_validated (v : Value) : Validated v where
  refused := by
    intro issue
    refine ⟨fun h => ?_, Unfit.ofValue_eq⟩
    rcases fit_or_unfit v with ⟨issue', hunfit⟩ | ⟨fields, toggle, rfl, hkeymap, hsets⟩
    · rw [hunfit.ofValue_eq] at h
      exact Except.error.inj h ▸ hunfit
    · exact nomatch (ofValue_of_sets hkeymap hsets).symm.trans h
  accepted := by
    intro hfit
    rcases fit_or_unfit v with ⟨issue, hunfit⟩ | ⟨fields, toggle, rfl, hkeymap, hsets⟩
    · exact absurd hunfit (hfit issue)
    · exact ⟨fields, settingsOf fields toggle, rfl, ofValue_of_sets hkeymap hsets,
        describes_settingsOf hsets⟩

end Settings

end Paddock
