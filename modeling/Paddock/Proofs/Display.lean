import Paddock.Proofs.Loading
import Paddock.Proofs.Soundness

/-!
# What settings are displayed as

Settings that could be loaded are printed as a document that holds them, unless one of their values
has no form: nothing is printed then, and the task does not end with an exit code.
-/

namespace Paddock

set_option autoImplicit false

namespace Settings

open World

variable {σ : Type} {w v : World σ} {userFile file cwd : Place} {content : Option (List UInt8)}
  {settings : Settings}

/-- A table is that of the two files, the workspace's laid over the user's. -/
inductive Merged (userFile cwd : Place) (w : World σ) : Table → Prop where
  | intro {mineContent theirContent : Option (List UInt8)} {mine theirs : Option Table}
      (hmine : contentOf? w userFile = .ok mineContent)
      (htheirs : contentOf? w (workspaceFile cwd) = .ok theirContent)
      (hmineReads : ReadsAs w.room userFile mineContent (.ok mine))
      (htheirReads : ReadsAs w.room (workspaceFile cwd) theirContent (.ok theirs)) :
      Merged userFile cwd w (overlay (overlay [] (mine.getD [])) (theirs.getD []))

theorem storable_of_readsAs {room : Room} {table : Option Table}
    (h : ReadsAs room file content (.ok table)) :
    (Value.table (table.getD [])).Storable := by
  cases h with
  | missing => exact .table_nil
  | blank => exact .table_nil
  | table _ hread _ => exact storable_normalizeValue (Toml.storable_read hread)

theorem Merged.storable {t : Table} (h : Merged userFile cwd w t) :
    (Value.table t).Storable := by
  cases h with
  | intro _ _ hmineReads htheirReads =>
    have hmine := storable_overlay_table .table_nil (storable_of_readsAs hmineReads)
    exact storable_overlay_table hmine (storable_of_readsAs htheirReads)

theorem merged_of_load (h : load userFile cwd w = .ok settings v) :
    ∃ t, Merged userFile cwd w t ∧ ofValue (.table t) = .ok settings := by
  have hresult := resultOf_of_ok h
  cases hmine : contentOf? w userFile with
  | error e =>
    rw [result_load_of_refused (.inl hmine)] at hresult
    exact nomatch hresult
  | ok mineContent =>
    cases htheirs : contentOf? w (workspaceFile cwd) with
    | error e =>
      rw [result_load_of_refused (.inr ⟨_, hmine, htheirs⟩)] at hresult
      exact nomatch hresult
    | ok theirContent =>
      obtain ⟨mine, hmineReads⟩ := exists_readsAs w.room userFile mineContent
      obtain ⟨theirs, htheirReads⟩ := exists_readsAs w.room (workspaceFile cwd) theirContent
      rcases result_load hmine htheirs hmineReads htheirReads with hmerge | ⟨g, -, hfault⟩
      · obtain ⟨mineTable, rfl, hrest⟩ := bind_eq_ok.mp (hmerge.symm.trans hresult)
        obtain ⟨theirTable, rfl, hsettle⟩ := bind_eq_ok.mp hrest
        refine ⟨_, .intro hmine htheirs hmineReads htheirReads, ?_⟩
        rcases settle_cases _ mineTable theirTable with
          ⟨merged, hvalue, hmerged⟩ | ⟨issue, -, hfault⟩
        · obtain rfl : merged = settings := Except.ok.inj (hmerged.symm.trans hsettle)
          exact hvalue
        · exact nomatch hfault.symm.trans hsettle
      · rw [hfault] at hresult
        exact nomatch hresult

end Settings

namespace CommandLine

open World

variable {σ : Type} {cwd : Place} {w v : World σ} {settings : Settings}

/-- What displaying a table comes to: a document that is read back as it, if necessary with the
names of numbers that are not finite, or the fault of its first value that has no form. -/
inductive Displayed (t : Table) (v : World σ) : EStateM.Result Fault (World σ) Nat → Prop where
  | printed {document : Text} (hform : Json.HasForm v.room.items 0 (.table t))
      (hread : Json.read true document = some (.table t))
      (hstrict : Json.read false document =
        if (Value.table t).isFinite then some (.table t) else none) :
      Displayed t v (.ok 0 { v with console := v.console.writeStdout (document ++ [Text.newline]) })
  | refused {f : Fault} (h : Json.Blocked v.room.items 0 (.table t) f) :
      Displayed t v (.error f v)

theorem displayed_printSettings (hsound : (Value.table settings.toTable).Sound) (v : World σ) :
    Displayed settings.toTable v (printSettings settings v) := by
  rcases Json.hasForm_or_blocked v.room.items (.table settings.toTable) 0 with
    hform | ⟨f, hblocked⟩
  · obtain ⟨document, hprint⟩ := hform.exists_print
    have hshown : printSettings settings v =
        .ok 0 { v with console := v.console.writeStdout (document ++ [Text.newline]) } := by
      rw [printSettings, bind_ok (Workspace.run_get v), hprint]
      rfl
    rw [hshown]
    exact .printed hform (Json.read_print hsound hprint true) (Json.read_print hsound hprint false)
  · have hshown : printSettings settings v = .error f v := by
      rw [printSettings, bind_ok (Workspace.run_get v), hblocked.print_eq]
      rfl
    rw [hshown]
    exact .refused hblocked

/-- Whatever could be loaded is displayed as it is merged from the two files. -/
theorem config_displays_settings (runner : Runner σ) (pool : List Text) (input : Shell.Input)
    (hload : Settings.load (Settings.userFile w.environment) cwd w = .ok settings v) :
    (∃ t, Settings.Merged (Settings.userFile w.environment) cwd w t ∧
        Settings.ofValue (.table t) = .ok settings) ∧
      Displayed settings.toTable v (performTask runner pool input cwd .config w) := by
  obtain ⟨t, hmerged, hvalue⟩ := Settings.merged_of_load hload
  refine ⟨⟨t, hmerged, hvalue⟩, ?_⟩
  have htask : performTask runner pool input cwd .config w = printSettings settings v := by
    rw [performTask, withSettings_eq, hload]
  rw [htask]
  exact displayed_printSettings (Settings.storable_toTable hmerged.storable hvalue).sound v

open Command (bareWorld leftoverOtter)

def storing (content : Text) : World Unit :=
  { bareWorld with
    environment := [("XDG_CONFIG_HOME", "/user")]
    files := [(["user"], .directory), (["user", "blackpepper"], .directory),
      (["user", "blackpepper", "pepper.toml"], .file (Utf8.encode content))] }

def ratioSetting : World Unit := storing "ratio = 2.5e-1\n"

def dateSetting : World Unit := storing "d=1979-05-27"

theorem config_displays_ratio :
    ∃ settings v, Settings.load (Settings.userFile ratioSetting.environment) .here ratioSetting =
        .ok settings v ∧
      (∃ t, Settings.Merged (Settings.userFile ratioSetting.environment) .here ratioSetting t ∧
        Settings.ofValue (.table t) = .ok settings) ∧
      Displayed settings.toTable v
        (performTask leftoverOtter ["lynx"] (.ofText []) .here .config ratioSetting) := by
  obtain ⟨settings, v, hload⟩ : ∃ settings v,
      Settings.load (Settings.userFile ratioSetting.environment) .here ratioSetting =
        .ok settings v := exists_ok_of_isOk (by decide +kernel)
  exact ⟨settings, v, hload,
    config_displays_settings leftoverOtter ["lynx"] (.ofText []) hload⟩

/-- A date can be loaded, but there is no document that it could be displayed in. -/
theorem config_refuses_date :
    (∃ settings v, Settings.load (Settings.userFile dateSetting.environment) .here dateSetting =
        .ok settings v) ∧
      resultOf (performTask leftoverOtter ["lynx"] (.ofText []) .here .config) dateSetting =
        .error (.momentUnwritable .date) :=
  ⟨exists_ok_of_isOk (by decide +kernel), by decide +kernel⟩

end CommandLine

end Paddock
