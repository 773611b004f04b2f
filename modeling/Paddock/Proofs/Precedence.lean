import Paddock.Proofs.Display
import Paddock.Proofs.Overlaying
import Paddock.Proofs.SnakeCase
import Paddock.Proofs.Validation

/-!
# Which file's chord counts

A chord in the workspace's file counts whatever the user's file has in its place. Where the
workspace's file has none, the chord is chosen as if there were only the user's file, and what does
not fit in the workspace's file is an error whatever the user's file has.
-/

namespace Paddock

set_option autoImplicit false

namespace Settings

open World

variable {σ : Type} {userFile cwd : Place} {v w : World σ} {base atop t keymap : Table}
  {mine theirs mine' theirs' : Table} {u : Value} {x : Text}

/-- The chord that a table sets, or what is wrong with it. -/
def chordOf (t : Table) : Except Issue Text :=
  match Fields.get? t keymapKey with
  | none => .ok defaultToggle
  | some (.table keymap) => toggleOf (Fields.get? keymap toggleKey)
  | some _ => .error ⟨[keymapKey], .notTable⟩

theorem chordOf_of_none (h : Fields.get? t keymapKey = none) : chordOf t = .ok defaultToggle := by
  rw [chordOf, h]

theorem chordOf_of_table (h : Fields.get? t keymapKey = some (.table keymap)) :
    chordOf t = toggleOf (Fields.get? keymap toggleKey) := by
  rw [chordOf, h]

theorem chordOf_of_not_table (h : Fields.get? t keymapKey = some u) (hu : u.isTable = false) :
    chordOf t = .error ⟨[keymapKey], .notTable⟩ := by
  rw [chordOf, h]
  cases u <;> first | rfl | exact nomatch hu

theorem chordOf_of_found (h : (Value.table t).get? [keymapKey, toggleKey] = some u) :
    chordOf t = toggleOf (some u) := by
  obtain ⟨fields, value, hfields, hkeymap, htoggle⟩ := Value.exists_of_get?_cons h
  obtain ⟨keymap, u', rfl, hu', hsame⟩ := Value.exists_of_get?_cons htoggle
  obtain rfl : t = fields := Value.table.inj hfields
  obtain rfl : u' = u := by simpa using hsame
  rw [chordOf_of_table hkeymap, hu']

theorem map_toggleMode_ofValue (t : Table) :
    (ofValue (.table t)).map toggleMode = chordOf t := by
  cases hkeymap : Fields.get? t keymapKey with
  | none =>
    rw [chordOf_of_none hkeymap]
    simp only [ofValue, hkeymap]
    rfl
  | some value =>
    cases htable : value.isTable with
    | false =>
      rw [chordOf_of_not_table hkeymap htable]
      cases value with
      | table keymap => cases htable
      | _ =>
        simp only [ofValue, hkeymap]
        rfl
    | true =>
      obtain ⟨keymap, rfl⟩ := Value.exists_table htable
      rw [chordOf_of_table hkeymap]
      simp only [ofValue, hkeymap]
      cases toggleOf (Fields.get? keymap toggleKey) <;> rfl

theorem toggleOf_text (x : Text) :
    toggleOf (some (.text x)) =
      .ok (if Text.trim x = [] then defaultToggle else Text.trim x) := rfl

theorem chordOf_overlay_of_text (hatop : (Value.table atop).Storable)
    (h : (Value.table atop).get? [keymapKey, toggleKey] = some (.text x)) (base : Table) :
    chordOf (overlay base atop) =
      .ok (if Text.trim x = [] then defaultToggle else Text.trim x) := by
  have hfound := get?_overlay_of_found hatop.distinct h base
  rw [overlayValue_of_not_table _ rfl] at hfound
  rw [chordOf_of_found hfound, toggleOf_text]

theorem chordOf_overlay_of_not_table (hatop : (Value.table atop).Storable)
    (h : Fields.get? atop keymapKey = some u) (hu : u.isTable = false) (base : Table) :
    chordOf (overlay base atop) = .error ⟨[keymapKey], .notTable⟩ := by
  have hfound := get?_overlay_of_some hatop.distinct.keys h base
  rw [overlayValue_of_not_table _ hu] at hfound
  exact chordOf_of_not_table hfound hu

theorem chordOf_overlay_of_not_text (hatop : (Value.table atop).Storable)
    (h : (Value.table atop).get? [keymapKey, toggleKey] = some u) (hu : ∀ x, u ≠ .text x)
    (base : Table) : chordOf (overlay base atop) = .error ⟨[keymapKey, toggleKey], .notText⟩ := by
  have hfound := get?_overlay_of_found hatop.distinct h base
  rw [chordOf_of_found hfound]
  cases htable : u.isTable with
  | false =>
    rw [overlayValue_of_not_table _ htable]
    exact toggleOf_of_not_text (hatop.get?_path h).ne_null hu
  | true =>
    obtain ⟨fields, rfl⟩ := Value.exists_table htable
    unfold overlayValue
    split <;> rfl

/-- A table has no chord of its own, and none of the other's chord is hidden by it. -/
def Yields (atop base : Table) : Prop :=
  Fields.get? atop keymapKey = none ∨
    (∃ keymap, Fields.get? atop keymapKey = some (.table keymap) ∧
      Fields.get? keymap toggleKey = none) ∧
    ∀ u, Fields.get? base keymapKey = some u → u.isTable = true

theorem chordOf_overlay_of_yields (hatop : (Value.table atop).Storable) (h : Yields atop base) :
    chordOf (overlay base atop) = chordOf base := by
  rcases h with hnone | ⟨⟨keymap, hkeymap, htoggle⟩, hbase⟩
  · have hsame := get?_overlay_of_none hnone base
    rw [chordOf, hsame, ← chordOf]
  · have hfound := get?_overlay_of_some hatop.distinct.keys hkeymap base
    rw [overlayValue_table (hatop.get? hkeymap).distinct.keys] at hfound
    rw [chordOf_of_table hfound, get?_overlay_of_none htoggle]
    cases hunder : Fields.get? base keymapKey with
    | none =>
      rw [chordOf_of_none hunder]
      rfl
    | some u =>
      obtain ⟨under, rfl⟩ := Value.exists_table (hbase u hunder)
      rw [chordOf_of_table hunder]
      rfl

/-- A file that has the content, or is missing, holds the table. -/
inductive Denotes (room : Room) : Option (List UInt8) → Table → Prop where
  | missing : Denotes room none []
  | blank {bytes : List UInt8} {chars : List Char} (hdecoded : Utf8.strict? bytes = some chars)
      (hblank : Text.isBlank (Text.plainNewlines (Text.ofChars chars)) = true) :
      Denotes room (some bytes) []
  | table {bytes : List UInt8} {chars : List Char} {t : Table} (h : Holds bytes chars)
      (hread : Toml.read (document chars) room.values = .ok t) : Denotes room (some bytes) t

theorem Denotes.exists_readsAs {room : Room} {content : Option (List UInt8)}
    (h : Denotes room content t) (hdepth : tableDepth (.table t) ≤ room.tables) (file : Place) :
    ∃ reading, ReadsAs room file content (.ok reading) ∧ reading.getD [] = normalizeKeys t := by
  cases h with
  | missing => exact ⟨none, .missing, rfl⟩
  | blank hdecoded hblank => exact ⟨none, .blank hdecoded hblank, rfl⟩
  | table h hread => exact ⟨_, .table h hread hdepth, rfl⟩

/-- The two files of settings hold tables that are not too deep for their keys to be normalised. -/
structure Stored (userFile cwd : Place) (w : World σ) (mine theirs : Table) : Prop where
  user : ∃ content, contentOf? w userFile = .ok content ∧ Denotes w.room content mine
  workspace : ∃ content, contentOf? w (workspaceFile cwd) = .ok content ∧
    Denotes w.room content theirs
  userDepth : tableDepth (.table mine) ≤ w.room.tables
  workspaceDepth : tableDepth (.table theirs) ≤ w.room.tables
  canLog : w.CanLog

theorem Stored.exists_readsAs (h : Stored userFile cwd w mine theirs) :
    ∃ mineContent theirContent under atop, contentOf? w userFile = .ok mineContent ∧
      contentOf? w (workspaceFile cwd) = .ok theirContent ∧
      ReadsAs w.room userFile mineContent (.ok under) ∧
      ReadsAs w.room (workspaceFile cwd) theirContent (.ok atop) ∧
      under.getD [] = normalizeKeys mine ∧ atop.getD [] = normalizeKeys theirs := by
  obtain ⟨mineContent, hmineContent, hmine⟩ := h.user
  obtain ⟨theirContent, htheirContent, htheirs⟩ := h.workspace
  obtain ⟨under, hunder, hsame⟩ := hmine.exists_readsAs h.userDepth userFile
  obtain ⟨atop, hatop, hsame'⟩ := htheirs.exists_readsAs h.workspaceDepth (workspaceFile cwd)
  exact ⟨mineContent, theirContent, under, atop, hmineContent, htheirContent, hunder, hatop, hsame,
    hsame'⟩

theorem Stored.storable (h : Stored userFile cwd w mine theirs) :
    (Value.table (normalizeKeys mine)).Storable ∧
      (Value.table (normalizeKeys theirs)).Storable := by
  obtain ⟨_, _, _, _, -, -, hunder, hatop, hsame, hsame'⟩ := h.exists_readsAs
  rw [← hsame, ← hsame']
  exact ⟨storable_of_readsAs hunder, storable_of_readsAs hatop⟩

theorem Stored.result_load (h : Stored userFile cwd w mine theirs) :
    ∃ files, resultOf (load userFile cwd) w =
      (ofValue (.table (overlay (normalizeKeys mine) (normalizeKeys theirs)))).mapError
        (.invalid files) := by
  obtain ⟨mineContent, theirContent, under, atop, hmineContent, htheirContent, hunder, hatop,
    hsame, hsame'⟩ := h.exists_readsAs
  refine ⟨existing [(userFile, mineContent), (workspaceFile cwd, theirContent)], ?_⟩
  rw [← overlay_empty h.storable.1.distinct.keys, ← hsame, ← hsame']
  rcases Settings.result_load hmineContent htheirContent hunder hatop with hresult | ⟨g, hg, -⟩
  · exact hresult
  · exact absurd h.canLog hg.not_canLog

def LoadError.unlisted : LoadError → LoadError
  | .invalid _ issue => .invalid [] issue
  | e => e

/-- The chord that is loaded, or what is wrong, whatever files are named. -/
def choice (r : Except LoadError Settings) : Except LoadError Text :=
  (r.map toggleMode).mapError LoadError.unlisted

theorem Stored.chord_load (h : Stored userFile cwd w mine theirs) :
    ∃ files, (resultOf (load userFile cwd) w).map toggleMode =
      (chordOf (overlay (normalizeKeys mine) (normalizeKeys theirs))).mapError
        (.invalid files) := by
  obtain ⟨files, hresult⟩ := h.result_load
  refine ⟨files, ?_⟩
  rw [hresult, ← map_toggleMode_ofValue]
  cases ofValue (.table (overlay (normalizeKeys mine) (normalizeKeys theirs))) <;> rfl

theorem Stored.choice_load (h : Stored userFile cwd w mine theirs) :
    choice (resultOf (load userFile cwd) w) =
      (chordOf (overlay (normalizeKeys mine) (normalizeKeys theirs))).mapError (.invalid []) := by
  obtain ⟨files, hchord⟩ := h.chord_load
  rw [choice, hchord]
  cases chordOf (overlay (normalizeKeys mine) (normalizeKeys theirs)) <;> rfl

theorem Stored.load_of_chordOf_ok (h : Stored userFile cwd w mine theirs)
    (hchord : chordOf (overlay (normalizeKeys mine) (normalizeKeys theirs)) = .ok x) :
    (resultOf (load userFile cwd) w).map toggleMode = .ok x := by
  obtain ⟨files, hload⟩ := h.chord_load
  rw [hload, hchord]
  rfl

theorem eq_error_of_map {ε α β : Type} {r : Except ε α} {f : α → β} {e : ε}
    (h : r.map f = .error e) : r = .error e := by
  cases r with
  | ok a => exact nomatch h
  | error e' =>
    obtain rfl : e' = e := Except.error.inj h
    rfl

theorem Stored.load_of_chordOf_error {issue : Issue} (h : Stored userFile cwd w mine theirs)
    (hchord : chordOf (overlay (normalizeKeys mine) (normalizeKeys theirs)) = .error issue) :
    ∃ files, resultOf (load userFile cwd) w = .error (.invalid files issue) := by
  obtain ⟨files, hload⟩ := h.chord_load
  rw [hchord] at hload
  exact ⟨files, eq_error_of_map hload⟩

/-- How the chord is chosen from what the user's file and the workspace's hold. -/
structure ChordLaws (userFile cwd : Place) (w : World σ) (mine theirs : Table) : Prop where
  workspace : ∀ {x}, (Value.table (normalizeKeys theirs)).get? [keymapKey, toggleKey] =
      some (.text x) →
    (resultOf (load userFile cwd) w).map toggleMode =
      .ok (if Text.trim x = [] then defaultToggle else Text.trim x)
  user : Yields (normalizeKeys theirs) (normalizeKeys mine) →
    ∀ {v : World σ}, Stored userFile cwd v mine [] →
      choice (resultOf (load userFile cwd) w) = choice (resultOf (load userFile cwd) v)
  notTable : ∀ {u}, Fields.get? (normalizeKeys theirs) keymapKey = some u → u.isTable = false →
    ∃ files, resultOf (load userFile cwd) w = .error (.invalid files ⟨[keymapKey], .notTable⟩)
  notText : ∀ {u}, (Value.table (normalizeKeys theirs)).get? [keymapKey, toggleKey] = some u →
    (∀ x, u ≠ .text x) → ∃ files, resultOf (load userFile cwd) w =
      .error (.invalid files ⟨[keymapKey, toggleKey], .notText⟩)
  respelled : ∀ {mine' theirs'}, Respelled (.table mine) (.table mine') →
    Respelled (.table theirs) (.table theirs') →
    ∀ {v : World σ}, Stored userFile cwd v mine' theirs' →
      (resultOf (load userFile cwd) w).mapError LoadError.unlisted =
        (resultOf (load userFile cwd) v).mapError LoadError.unlisted

theorem Stored.load_respelled (h : Stored userFile cwd w mine theirs)
    (h' : Stored userFile cwd v mine' theirs') (hmine : Respelled (.table mine) (.table mine'))
    (htheirs : Respelled (.table theirs) (.table theirs')) :
    (resultOf (load userFile cwd) w).mapError LoadError.unlisted =
      (resultOf (load userFile cwd) v).mapError LoadError.unlisted := by
  have hsame : normalizeKeys mine = normalizeKeys mine' := Value.table.inj hmine.normalizeValue_eq
  have hsame' : normalizeKeys theirs = normalizeKeys theirs' :=
    Value.table.inj htheirs.normalizeValue_eq
  obtain ⟨files, hresult⟩ := h.result_load
  obtain ⟨files', hresult'⟩ := h'.result_load
  rw [hresult, hresult', hsame, hsame']
  cases ofValue (.table (overlay (normalizeKeys mine') (normalizeKeys theirs'))) <;> rfl

theorem chord_decided (h : Stored userFile cwd w mine theirs) :
    ChordLaws userFile cwd w mine theirs where
  workspace hchord := h.load_of_chordOf_ok (chordOf_overlay_of_text h.storable.2 hchord _)
  user := by
    intro hyields v hv
    rw [h.choice_load, hv.choice_load, chordOf_overlay_of_yields h.storable.2 hyields]
    rfl
  notTable hkeymap hu :=
    h.load_of_chordOf_error (chordOf_overlay_of_not_table h.storable.2 hkeymap hu _)
  notText htoggle hu :=
    h.load_of_chordOf_error (chordOf_overlay_of_not_text h.storable.2 htoggle hu _)
  respelled hmine htheirs := fun hv => h.load_respelled hv hmine htheirs

end Settings

namespace CommandLine

open Settings World

def storingBoth (user workspace : Text) : World Unit :=
  { storing user with
    files := List.append (storing user).files [([".config"], .directory),
      ([".config", "blackpepper"], .directory),
      ([".config", "blackpepper", "pepper.toml"], .file (Utf8.encode workspace))] }

theorem exists_denotes (chars : List Char)
    (h : Settings.Holds (Utf8.encode (Text.ofChars chars)) chars)
    (hread : ((Toml.read (document chars)).map fun t =>
      decide (tableDepth (.table t) ≤ Room.standard.tables)) = .ok true) :
    ∃ t, Denotes .standard (some (Utf8.encode (Text.ofChars chars))) t ∧
      tableDepth (.table t) ≤ Room.standard.tables := by
  cases ht : Toml.read (document chars) with
  | error e =>
    rw [ht] at hread
    exact nomatch hread
  | ok t =>
    rw [ht] at hread
    exact ⟨t, .table h ht, of_decide_eq_true (Except.ok.inj hread)⟩

/-- The user's file would be refused if there were no other. -/
def maskedSettings : World Unit :=
  storingBoth "keymap = 3\n" "[keymap]\ntoggleMode = ' ctrl+x '\n"

theorem chord_decided_in_maskedSettings : ∃ mine theirs,
    Stored (userFile maskedSettings.environment) .here maskedSettings mine theirs ∧
      ChordLaws (userFile maskedSettings.environment) .here maskedSettings mine theirs := by
  obtain ⟨mine, hmine, hmineDepth⟩ := exists_denotes "keymap = 3\n".toList
    ⟨by decide +kernel, by decide +kernel⟩ (by decide +kernel)
  obtain ⟨theirs, htheirs, htheirDepth⟩ :=
    exists_denotes "[keymap]\ntoggleMode = ' ctrl+x '\n".toList
      ⟨by decide +kernel, by decide +kernel⟩ (by decide +kernel)
  have hstored : Stored (userFile maskedSettings.environment) .here maskedSettings mine theirs :=
    { user := ⟨_, by decide +kernel, hmine⟩
      workspace := ⟨_, by decide +kernel, htheirs⟩
      userDepth := hmineDepth
      workspaceDepth := htheirDepth
      canLog := fun hshown => absurd hshown (by decide +kernel) }
  exact ⟨mine, theirs, hstored, chord_decided hstored⟩

def deepHeader (depth : Nat) : List Char :=
  '[' :: ((List.replicate depth 'a').intersperse '.' ++ [']'])

/-- The user's file nests tables too deep, and the workspace's holds no table where one is due. -/
def deepSettings : World Unit := storingBoth (Text.ofChars (deepHeader 1000)) "keymap = 's'\n"

/-- The workspace's file sets a chord, which is to be announced on a screen of unreadable size. -/
def squaredSettings : World Unit :=
  { storingBoth "" "[keymap]\ntoggle_mode = 'x'\n" with
    environment := [("XDG_CONFIG_HOME", "/user"), ("COLUMNS", "²")]
    console := { level := some .debug } }

/-- Two limits come before any judgement of the chord: how deep tables may stand within each other,
and whether what is loaded can be announced. -/
theorem limits_precede_chord :
    ((Toml.read (deepHeader 1000)).isOk = true ∧
      ((Toml.read "keymap = 's'\n".toList).map fun t =>
        (Fields.get? (normalizeKeys t) keymapKey).map Value.isTable) = .ok (some false) ∧
      (resultOf (load (userFile deepSettings.environment) .here) deepSettings).map toggleMode =
        .error (.fault (.tooDeep .primitive))) ∧
    ((Toml.read "[keymap]\ntoggle_mode = 'x'\n".toList).map fun t =>
        chordOf (normalizeKeys t)) = .ok (.ok "x") ∧
      (resultOf (load (userFile squaredSettings.environment) .here) squaredSettings).map
        toggleMode = .error (.fault (.notNumeral "²")) := by
  refine ⟨⟨?_, ?_, ?_⟩, ?_, ?_⟩ <;> decide +kernel

end CommandLine

end Paddock
