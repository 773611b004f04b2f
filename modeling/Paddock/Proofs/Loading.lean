import Paddock.Proofs.Transcript

/-!
# What keeps settings from being loaded

A settings file that is not TOML, and values that do not fit, are reported with the files they are
in. A file's content gets past that in three ways, two of which are limits on how much can be read:
it is not UTF-8, it has an integer of too many digits, or its tables or values stand too deep within
each other. Whatever else a file holds, a session goes on as it would without settings.
-/

namespace Paddock

set_option autoImplicit false

namespace World

variable {σ ε α : Type} {v w : World σ}

theorem Akin.canLog (h : Akin v w) (hlog : w.CanLog) : v.CanLog := by
  intro hshown
  rw [h.console.isEnabled_eq, h.environment] at hshown
  rw [h.environment, h.console.terminal]
  exact hlog hshown

theorem CannotLog.of_akin {f : Fault} (h : Akin v w) (hv : v.CannotLog f) : w.CannotLog f where
  shown := by
    rw [← hv.shown, ← h.environment]
    exact (h.console.isEnabled_eq .debug).symm
  unreadable := by rw [← h.environment, ← h.console.terminal, hv.unreadable]

theorem say_debug [HasFaults ε] (w : World σ) (message : Text) :
    (∃ v, (say .debug message : Action σ ε Unit) w = .ok () v) ∨
      ∃ f, w.CannotLog f ∧
        (say .debug message : Action σ ε Unit) w = .error (HasFaults.ofFault f) w := by
  by_cases hlog : w.CanLog
  · obtain ⟨console, hsaid, -⟩ := say_of_canLog (ε := ε) hlog (Nat.le_refl _) message
    exact .inl ⟨_, hsaid⟩
  · obtain ⟨f, hf⟩ := cannotLog_of_not_canLog hlog
    exact .inr ⟨f, hf, say_of_cannotLog hf message⟩

theorem eq_error_of_resultOf {m : Action σ ε α} {e : ε} (h : resultOf m w = .error e) :
    m w = .error e (worldAfter m w) := by
  unfold resultOf at h
  unfold worldAfter
  cases hm : m w with
  | ok a v => simp [hm] at h
  | error e' v => rw [hm] at h; rw [Except.error.inj h]

theorem resultOf_of_ok {m : Action σ ε α} {a : α} (h : m w = .ok a v) : resultOf m w = .ok a := by
  rw [resultOf, h]

theorem resultOf_of_error {m : Action σ ε α} {e : ε} (h : m w = .error e v) :
    resultOf m w = .error e := by
  rw [resultOf, h]

theorem resultOf_eq_of_agree {R : World σ → World σ → Prop} {m : Action σ ε α}
    (h : AgreeUpTo R (m v) (m w)) : resultOf m v = resultOf m w := by
  unfold resultOf
  rcases h.cases with ⟨a, v', w', hv, hw, -⟩ | ⟨e, v', w', hv, hw, -⟩
  · rw [hv, hw]
  · rw [hv, hw]

theorem respects_write (v₀ w₀ : World σ) (x : Text) :
    Respects (InStep v₀ w₀) (write x : Action σ ε Unit) := by
  rintro v w ⟨hakin, out, err, made, hv, hw⟩
  refine ⟨rfl, ⟨hakin.git, hakin.files, hakin.cwd, hakin.environment, hakin.room,
    hakin.console.level, hakin.console.noColour, hakin.console.terminal, hakin.console.depth⟩,
    out ++ x, err, made, ⟨⟨?_, hv.console.stderr⟩, hv.requests⟩,
    ⟨⟨?_, hw.console.stderr⟩, hw.requests⟩⟩
  · rw [← List.append_assoc, ← hv.console.stdout]
    rfl
  · rw [← List.append_assoc, ← hw.console.stdout]
    rfl

end World

namespace Settings

open World

variable {σ : Type} {file userFile cwd : Place} {v w : World σ} {content : Option (List UInt8)}
  {reading mine theirs : Except LoadError (Option Table)} {f : Fault} {room : Room}

/-- A document as it is read: every line end is a line feed. -/
def document (chars : List Char) : List Char :=
  (Text.plainNewlines (Text.ofChars chars)).filterMap fun
    | .char c => some c
    | .raw _ => none

/-- Bytes are the UTF-8 of characters that are not all blank. -/
structure Holds (bytes : List UInt8) (chars : List Char) : Prop where
  decoded : Utf8.strict? bytes = some chars
  inked : Text.isBlank (Text.plainNewlines (Text.ofChars chars)) = false

/-- What a file comes to that has the content, or is missing: a table with its keys normalised, none
at all, or what keeps it from being read. -/
inductive ReadsAs (room : Room) (file : Place) :
    Option (List UInt8) → Except LoadError (Option Table) → Prop where
  | missing : ReadsAs room file none (.ok none)
  | blank {bytes : List UInt8} {chars : List Char} (hdecoded : Utf8.strict? bytes = some chars)
      (hblank : Text.isBlank (Text.plainNewlines (Text.ofChars chars)) = true) :
      ReadsAs room file (some bytes) (.ok none)
  | table {bytes : List UInt8} {chars : List Char} {t : Table} (h : Holds bytes chars)
      (hread : Toml.read (document chars) room.values = .ok t)
      (hdepth : tableDepth (.table t) ≤ room.tables) :
      ReadsAs room file (some bytes) (.ok (some (normalizeKeys t)))
  | malformed {bytes : List UInt8} {chars : List Char} (h : Holds bytes chars)
      (hread : Toml.read (document chars) room.values = .error .malformed) :
      ReadsAs room file (some bytes) (.error (.malformed file))
  | undecodable {bytes : List UInt8} (h : Utf8.strict? bytes = none) :
      ReadsAs room file (some bytes) (.error (.fault .undecodable))
  | overlong {bytes : List UInt8} {chars : List Char} {digits : Nat} (h : Holds bytes chars)
      (hread : Toml.read (document chars) room.values = .error (.tooManyDigits digits)) :
      ReadsAs room file (some bytes) (.error (.fault (.integerTooLong digits)))
  | nested {bytes : List UInt8} {chars : List Char} {overrun : Overrun} (h : Holds bytes chars)
      (hread : Toml.read (document chars) room.values = .error (.tooDeep overrun)) :
      ReadsAs room file (some bytes) (.error (.fault (.tooDeep overrun)))
  | deep {bytes : List UInt8} {chars : List Char} {t : Table} (h : Holds bytes chars)
      (hread : Toml.read (document chars) room.values = .ok t)
      (hdepth : room.tables < tableDepth (.table t)) :
      ReadsAs room file (some bytes) (.error (.fault (.tooDeep .primitive)))

theorem exists_readsAs (room : Room) (file : Place) (content : Option (List UInt8)) :
    ∃ reading, ReadsAs room file content reading := by
  cases content with
  | none => exact ⟨_, .missing⟩
  | some bytes =>
    cases hdecoded : Utf8.strict? bytes with
    | none => exact ⟨_, .undecodable hdecoded⟩
    | some chars =>
      cases hblank : Text.isBlank (Text.plainNewlines (Text.ofChars chars)) with
      | true => exact ⟨_, .blank hdecoded hblank⟩
      | false =>
        have h : Holds bytes chars := ⟨hdecoded, hblank⟩
        match hread : Toml.read (document chars) room.values with
        | .error .malformed => exact ⟨_, .malformed h hread⟩
        | .error (.tooManyDigits digits) => exact ⟨_, .overlong h hread⟩
        | .error (.tooDeep overrun) => exact ⟨_, .nested h hread⟩
        | .ok t =>
          by_cases hdepth : room.tables < tableDepth (.table t)
          · exact ⟨_, .deep h hread hdepth⟩
          · exact ⟨_, .table h hread (Nat.not_lt.mp hdepth)⟩

theorem tableOf?_of_holds {bytes : List UInt8} {chars : List Char} (h : Holds bytes chars) :
    tableOf? room.values file bytes =
      match Toml.read (document chars) room.values with
      | .ok table => .ok (some table)
      | .error .malformed => .error (.malformed file)
      | .error (.tooManyDigits n) => .error (.fault (.integerTooLong n))
      | .error (.tooDeep overrun) => .error (.fault (.tooDeep overrun)) := by
  simp only [tableOf?, h.decoded, h.inked]
  rfl

theorem contentOf?_of_akin (h : Akin v w) (file : Place) :
    contentOf? v file = contentOf? w file := by
  rw [contentOf?, contentOf?, h.files, h.cwd]

theorem lift_ok {α : Type} {r : Except LoadError α} {a : α} (h : r = .ok a) (w : World σ) :
    lift r w = .ok a w := by
  rw [h]
  rfl

theorem lift_error {α : Type} {r : Except LoadError α} {e : LoadError} (h : r = .error e)
    (w : World σ) : lift r w = .error e w := by
  rw [h]
  rfl

theorem loadFile_of_missing (h : contentOf? w file = .ok none) :
    loadFile file w = .ok none w := by
  rw [loadFile, bind_ok (Workspace.run_get w), bind_ok (lift_ok h w)]
  rfl

variable {bytes : List UInt8}

theorem loadFile_of_blank (h : contentOf? w file = .ok (some bytes))
    (htable : tableOf? w.room.values file bytes = .ok none) : loadFile file w = .ok none w := by
  rw [loadFile, bind_ok (Workspace.run_get w), bind_ok (lift_ok h w)]
  exact bind_ok (lift_ok htable w) _

theorem loadFile_of_error {e : LoadError} (h : contentOf? w file = .ok (some bytes))
    (htable : tableOf? w.room.values file bytes = .error e) : loadFile file w = .error e w := by
  rw [loadFile, bind_ok (Workspace.run_get w), bind_ok (lift_ok h w)]
  exact bind_error (lift_error htable w) _

/-- The table of a file is announced before its keys are looked at. -/
theorem result_loadFile_of_table {t : Table} (h : contentOf? w file = .ok (some bytes))
    (htable : tableOf? w.room.values file bytes = .ok (some t)) :
    resultOf (loadFile file) w = (normalized w.room.tables t).map some ∨
      ∃ g, w.CannotLog g ∧ resultOf (loadFile file) w = .error (.fault g) := by
  have hload : loadFile file w = (do
      World.say .debug (Text.ofString "loaded config from " ++ file.text)
      pure (some (← lift (normalized w.room.tables t))) : Action σ LoadError (Option Table)) w := by
    rw [loadFile, bind_ok (Workspace.run_get w), bind_ok (lift_ok h w)]
    exact bind_ok (lift_ok htable w) _
  rcases say_debug (ε := LoadError) w (Text.ofString "loaded config from " ++ file.text) with
    ⟨v, hsaid⟩ | ⟨g, hg, hsaid⟩
  · left
    rw [bind_ok hsaid] at hload
    cases hnormal : normalized w.room.tables t with
    | ok t' => exact resultOf_of_ok (hload.trans (bind_ok (lift_ok hnormal v) _))
    | error e => exact resultOf_of_error (hload.trans (bind_error (lift_error hnormal v) _))
  · exact .inr ⟨g, hg, resultOf_of_error (hload.trans (bind_error hsaid _))⟩

theorem result_loadFile (h : contentOf? w file = .ok content)
    (hreads : ReadsAs w.room file content reading) :
    resultOf (loadFile file) w = reading ∨
      ∃ g, w.CannotLog g ∧ resultOf (loadFile file) w = .error (.fault g) := by
  cases hreads with
  | missing => exact .inl (resultOf_of_ok (loadFile_of_missing h))
  | @blank bytes chars hdecoded hblank =>
    have htable : tableOf? w.room.values file bytes = .ok none := by
      simp only [tableOf?, hdecoded, hblank]
      rfl
    exact .inl (resultOf_of_ok (loadFile_of_blank h htable))
  | undecodable hdecoded =>
    exact .inl (resultOf_of_error (loadFile_of_error h (by simp only [tableOf?, hdecoded])))
  | malformed hholds hread =>
    exact .inl (resultOf_of_error (loadFile_of_error h (by rw [tableOf?_of_holds hholds, hread])))
  | overlong hholds hread =>
    exact .inl (resultOf_of_error (loadFile_of_error h (by rw [tableOf?_of_holds hholds, hread])))
  | nested hholds hread =>
    exact .inl (resultOf_of_error (loadFile_of_error h (by rw [tableOf?_of_holds hholds, hread])))
  | @table bytes chars t hholds hread hdepth =>
    have hnormal : normalized w.room.tables t = .ok (normalizeKeys t) :=
      if_neg (Nat.not_lt.mpr hdepth)
    have hresult := result_loadFile_of_table h (t := t) (by rw [tableOf?_of_holds hholds, hread])
    rwa [hnormal] at hresult
  | @deep bytes chars t hholds hread hdepth =>
    have hnormal : normalized w.room.tables t = .error (.fault (.tooDeep .primitive)) :=
      if_pos hdepth
    have hresult := result_loadFile_of_table h (t := t) (by rw [tableOf?_of_holds hholds, hread])
    rwa [hnormal] at hresult

def existing (files : List (Place × Option (List UInt8))) : List Place :=
  (files.filter (·.2.isSome)).map (·.1)

theorem presentFiles_eq {mineContent theirContent : Option (List UInt8)} {workspace : Place}
    (hmine : contentOf? w userFile = .ok mineContent)
    (htheirs : contentOf? w workspace = .ok theirContent) :
    presentFiles [userFile, workspace] w =
      .ok (existing [(userFile, mineContent), (workspace, theirContent)]) w := by
  simp only [presentFiles]
  rw [bind_ok (Workspace.run_get w), bind_ok (lift_ok hmine w), bind_assoc,
    bind_ok (Workspace.run_get w), bind_assoc, bind_ok (lift_ok htheirs w)]
  cases mineContent <;> cases theirContent <;> rfl

/-- The settings that two tables make, the second laid over the first. -/
def settle (present : List Place) (under atop : Option Table) : Except LoadError Settings :=
  (ofValue (.table (overlay (overlay [] (under.getD [])) (atop.getD [])))).mapError
    (.invalid present)

theorem settle_cases (present : List Place) (under atop : Option Table) :
    (∃ settings,
      ofValue (.table (overlay (overlay [] (under.getD [])) (atop.getD []))) = .ok settings ∧
        settle present under atop = .ok settings) ∨
      ∃ issue,
        ofValue (.table (overlay (overlay [] (under.getD [])) (atop.getD []))) = .error issue ∧
          settle present under atop = .error (.invalid present issue) := by
  unfold settle
  cases ofValue (.table (overlay (overlay [] (under.getD [])) (atop.getD []))) with
  | ok settings => exact .inl ⟨settings, rfl, rfl⟩
  | error issue => exact .inr ⟨issue, rfl, rfl⟩

/-- The settings of two files, the first one's flaw coming first. -/
def merge (present : List Place) (mine theirs : Except LoadError (Option Table)) :
    Except LoadError Settings := do
  settle present (← mine) (← theirs)

theorem loadAll_pair {under : Table} {workspace : Place} :
    (loadAll under [userFile, workspace] : Action σ LoadError Table) = (do
      let mine ← loadFile userFile
      let theirs ← loadFile workspace
      pure (overlay (overlay under (mine.getD [])) (theirs.getD []))) := rfl

/-- Two files are loaded as their contents read, unless that cannot be logged. -/
theorem result_load {mineContent theirContent : Option (List UInt8)}
    (hmine : contentOf? w userFile = .ok mineContent)
    (htheirs : contentOf? w (workspaceFile cwd) = .ok theirContent)
    (hmineReads : ReadsAs w.room userFile mineContent mine)
    (htheirReads : ReadsAs w.room (workspaceFile cwd) theirContent theirs) :
    resultOf (load userFile cwd) w =
        merge (existing [(userFile, mineContent), (workspaceFile cwd, theirContent)]) mine theirs ∨
      ∃ g, w.CannotLog g ∧ resultOf (load userFile cwd) w = .error (.fault g) := by
  let present := existing [(userFile, mineContent), (workspaceFile cwd, theirContent)]
  have hload : load userFile cwd w =
      (loadFile userFile >>= fun mine => loadFile (workspaceFile cwd) >>= fun theirs =>
        lift (settle present mine theirs)) w := by
    rw [load, bind_ok (presentFiles_eq hmine htheirs), loadAll_pair]
    simp only [bind_assoc, pure_bind]
    refine congrFun (bind_congr fun mine => bind_congr fun theirs => ?_) w
    unfold settle
    cases ofValue (.table (overlay (overlay [] (mine.getD [])) (theirs.getD []))) <;> rfl
  -- the workspace's file is read in the world that reading the user's leaves, where nothing but
  -- what has been written is different
  have hspoke := speaks_loadFile (σ := σ) userFile w
  rcases result_loadFile hmine hmineReads with hresult | ⟨g, hg, hresult⟩
  swap
  · rw [bind_error (eq_error_of_resultOf hresult)] at hload
    exact .inr ⟨g, hg, resultOf_of_error hload⟩
  cases mine with
  | error e =>
    rw [bind_error (eq_error_of_resultOf hresult)] at hload
    exact .inl (resultOf_of_error hload)
  | ok mine =>
    rw [bind_ok (eq_ok_of_resultOf hresult)] at hload
    generalize worldAfter (loadFile userFile) w = v at hload hspoke
    rw [← contentOf?_of_akin hspoke.akin] at htheirs
    rw [← hspoke.akin.room] at htheirReads
    rcases result_loadFile htheirs htheirReads with hresult' | ⟨g, hg, hresult'⟩
    swap
    · rw [bind_error (eq_error_of_resultOf hresult')] at hload
      exact .inr ⟨g, hg.of_akin hspoke.akin, resultOf_of_error hload⟩
    cases theirs with
    | error e =>
      rw [bind_error (eq_error_of_resultOf hresult')] at hload
      exact .inl (resultOf_of_error hload)
    | ok theirs =>
      left
      rw [bind_ok (eq_ok_of_resultOf hresult')] at hload
      show _ = settle present mine theirs
      cases hsettle : settle present mine theirs with
      | ok settings => exact resultOf_of_ok (hload.trans (lift_ok hsettle _))
      | error e => exact resultOf_of_error (hload.trans (lift_error hsettle _))

/-- What loading comes to, the texts of its complaints included: the first file that is not TOML is
named, or else all files there are if their values do not fit. -/
inductive Judged (room : Room) (userFile cwd : Place)
    (mineContent theirContent : Option (List UInt8)) : Except Text Settings → Prop where
  | user (h : ReadsAs room userFile mineContent (.error (.malformed userFile))) :
      Judged room userFile cwd mineContent theirContent
        (.error (Text.ofString "invalid config at " ++ userFile.text))
  | workspace {under : Option Table} (h : ReadsAs room userFile mineContent (.ok under))
      (h' : ReadsAs room (workspaceFile cwd) theirContent
        (.error (.malformed (workspaceFile cwd)))) :
      Judged room userFile cwd mineContent theirContent
        (.error (Text.ofString "invalid config at " ++ (workspaceFile cwd).text))
  | values {under atop : Option Table} {issue : Issue}
      (h : ReadsAs room userFile mineContent (.ok under))
      (h' : ReadsAs room (workspaceFile cwd) theirContent (.ok atop))
      (hvalue : ofValue (.table (overlay (overlay [] (under.getD [])) (atop.getD []))) =
        .error issue) :
      Judged room userFile cwd mineContent theirContent
        (.error (Text.ofString "invalid config from " ++ Text.joinWith (Text.ofString ", ")
          ((existing [(userFile, mineContent), (workspaceFile cwd, theirContent)]).map Place.text)))
  | settings {under atop : Option Table} {settings : Settings}
      (h : ReadsAs room userFile mineContent (.ok under))
      (h' : ReadsAs room (workspaceFile cwd) theirContent (.ok atop))
      (hvalue : ofValue (.table (overlay (overlay [] (under.getD [])) (atop.getD []))) =
        .ok settings) :
      Judged room userFile cwd mineContent theirContent (.ok settings)

/-- A fault of the user's file, or of the workspace's where the user's has none. -/
inductive Stopped (room : Room) (userFile cwd : Place)
    (mineContent theirContent : Option (List UInt8)) : Fault → Prop where
  | user {f : Fault} (h : ReadsAs room userFile mineContent (.error (.fault f))) :
      Stopped room userFile cwd mineContent theirContent f
  | workspace {under : Option Table} {f : Fault} (h : ReadsAs room userFile mineContent (.ok under))
      (h' : ReadsAs room (workspaceFile cwd) theirContent (.error (.fault f))) :
      Stopped room userFile cwd mineContent theirContent f

theorem Place.text_ne_nil (p : Place) : p.text ≠ [] := by
  unfold Place.text
  simp only []
  split
  · exact List.cons_ne_nil _ _
  · assumption

theorem sourceText_ne_nil {files : List Place} (h : files ≠ []) : sourceText files ≠ [] := by
  cases files with
  | nil => exact absurd rfl h
  | cons p files =>
    intro hnil
    cases files <;> simp_all [sourceText, Text.joinWith, Place.text_ne_nil]

theorem existing_ne_nil {mineContent theirContent : Option (List UInt8)} {workspace : Place}
    {under atop : Option Table} {issue : Issue} (h : ReadsAs room userFile mineContent (.ok under))
    (h' : ReadsAs room workspace theirContent (.ok atop))
    (hvalue : ofValue (.table (overlay (overlay [] (under.getD [])) (atop.getD []))) =
      .error issue) :
    existing [(userFile, mineContent), (workspace, theirContent)] ≠ [] := by
  intro hnone
  cases h with
  | missing =>
    cases h' with
    | missing => exact absurd hvalue (by simp [overlay, ofValue, Fields.get?])
    | blank => simp [existing] at hnone
    | table => simp [existing] at hnone
  | blank => simp [existing] at hnone
  | table => simp [existing] at hnone

theorem ReadsAs.eq_malformed {e : LoadError} (h : ReadsAs room file content (.error e))
    (hfault : ∀ f, e ≠ .fault f) : e = .malformed file := by
  cases h with
  | malformed => rfl
  | _ => exact absurd rfl (hfault _)

theorem judged_merge {mineContent theirContent : Option (List UInt8)}
    (h : ReadsAs room userFile mineContent mine)
    (h' : ReadsAs room (workspaceFile cwd) theirContent theirs)
    (hfault : ∀ f,
      merge (existing [(userFile, mineContent), (workspaceFile cwd, theirContent)]) mine theirs ≠
        .error (.fault f)) :
    Judged room userFile cwd mineContent theirContent
      ((merge (existing [(userFile, mineContent), (workspaceFile cwd, theirContent)]) mine
        theirs).mapError LoadError.message) := by
  cases mine with
  | error e =>
    obtain rfl := h.eq_malformed fun f hf => hfault f (by rw [hf]; rfl)
    exact .user h
  | ok under =>
    cases theirs with
    | error e =>
      obtain rfl := h'.eq_malformed fun f hf => hfault f (by rw [hf]; rfl)
      exact .workspace h h'
    | ok atop =>
      show Judged room _ _ _ _ ((settle _ under atop).mapError LoadError.message)
      rcases settle_cases (existing [(userFile, mineContent), (workspaceFile cwd, theirContent)])
        under atop with ⟨settings, hvalue, hsettle⟩ | ⟨issue, hvalue, hsettle⟩
      · rw [hsettle]
        exact .settings h h' hvalue
      · have hne := sourceText_ne_nil (existing_ne_nil h h' hvalue)
        have hjudged := Judged.values h h' hvalue
        rw [← sourceText] at hjudged
        simpa [hsettle, Except.mapError, LoadError.message, invalidNotice, hne] using hjudged

theorem stopped_of_merge {mineContent theirContent : Option (List UInt8)} {present : List Place}
    (h : ReadsAs room userFile mineContent mine)
    (h' : ReadsAs room (workspaceFile cwd) theirContent theirs)
    (hmerge : merge present mine theirs = .error (.fault f)) :
    Stopped room userFile cwd mineContent theirContent f := by
  cases mine with
  | error e =>
    obtain rfl : e = .fault f := Except.error.inj hmerge
    exact .user h
  | ok under =>
    cases theirs with
    | error e =>
      obtain rfl : e = .fault f := Except.error.inj hmerge
      exact .workspace h h'
    | ok atop =>
      have hfault : settle present under atop = .error (.fault f) := hmerge
      rcases settle_cases present under atop with ⟨settings, -, hsettle⟩ | ⟨issue, -, hsettle⟩
      · exact nomatch hsettle.symm.trans hfault
      · exact nomatch hsettle.symm.trans hfault

/-- What loading comes to, for every content of the two files: what they are judged to be, or a
fault. A fault comes from a content that has one, and from nothing else but a path that cannot be
looked up and a message that cannot be logged. -/
structure LoadReported (userFile cwd : Place) (w : World σ) : Prop where
  judged : ∀ {mineContent theirContent}, contentOf? w userFile = .ok mineContent →
    contentOf? w (workspaceFile cwd) = .ok theirContent →
    (∀ f, resultOf (load userFile cwd) w ≠ .error (.fault f)) →
    Judged w.room userFile cwd mineContent theirContent
      ((resultOf (load userFile cwd) w).mapError LoadError.message)
  stopped : ∀ {mineContent theirContent f}, contentOf? w userFile = .ok mineContent →
    contentOf? w (workspaceFile cwd) = .ok theirContent → w.CanLog →
    (resultOf (load userFile cwd) w = .error (.fault f) ↔
      Stopped w.room userFile cwd mineContent theirContent f)
  fault : ∀ {f}, resultOf (load userFile cwd) w = .error (.fault f) →
    (∃ mineContent theirContent, contentOf? w userFile = .ok mineContent ∧
      contentOf? w (workspaceFile cwd) = .ok theirContent ∧
      Stopped w.room userFile cwd mineContent theirContent f) ∨
    w.CannotLog f ∨ contentOf? w userFile = .error (.fault f) ∨
      contentOf? w (workspaceFile cwd) = .error (.fault f)

theorem result_load_of_refused {e : LoadError} (h : contentOf? w userFile = .error e ∨
    ∃ content, contentOf? w userFile = .ok content ∧ contentOf? w (workspaceFile cwd) = .error e) :
    resultOf (load userFile cwd) w = .error e := by
  have hpresent : presentFiles [userFile, workspaceFile cwd] w = .error e w := by
    simp only [presentFiles]
    rw [bind_ok (Workspace.run_get w)]
    rcases h with h | ⟨content, hmine, htheirs⟩
    · exact bind_error (lift_error h w) _
    · rw [bind_ok (lift_ok hmine w), bind_assoc, bind_ok (Workspace.run_get w), bind_assoc]
      exact bind_error (lift_error htheirs w) _
  exact resultOf_of_error (bind_error hpresent _)

theorem result_load_of_stopped {mineContent theirContent : Option (List UInt8)}
    (hmine : contentOf? w userFile = .ok mineContent)
    (htheirs : contentOf? w (workspaceFile cwd) = .ok theirContent) (hlog : w.CanLog)
    (h : Stopped w.room userFile cwd mineContent theirContent f) :
    resultOf (load userFile cwd) w = .error (.fault f) := by
  cases h with
  | user h =>
    obtain ⟨theirs, htheirReads⟩ := exists_readsAs w.room (workspaceFile cwd) theirContent
    rcases result_load hmine htheirs h htheirReads with hresult | ⟨g, hg, -⟩
    · exact hresult
    · exact absurd hlog hg.not_canLog
  | workspace h h' =>
    rcases result_load hmine htheirs h h' with hresult | ⟨g, hg, -⟩
    · exact hresult
    · exact absurd hlog hg.not_canLog

theorem load_reported (userFile cwd : Place) (w : World σ) : LoadReported userFile cwd w := by
  -- either both files are found, and loading is settled by what they read as, or one is refused
  constructor
  case judged =>
    intro mineContent theirContent hmine htheirs hfault
    obtain ⟨mine, hmineReads⟩ := exists_readsAs w.room userFile mineContent
    obtain ⟨theirs, htheirReads⟩ := exists_readsAs w.room (workspaceFile cwd) theirContent
    rcases result_load hmine htheirs hmineReads htheirReads with hresult | ⟨g, -, hresult⟩
    · rw [hresult] at hfault ⊢
      exact judged_merge hmineReads htheirReads hfault
    · exact absurd hresult (hfault g)
  case stopped =>
    intro mineContent theirContent f hmine htheirs hlog
    refine ⟨fun hfault => ?_, result_load_of_stopped hmine htheirs hlog⟩
    obtain ⟨mine, hmineReads⟩ := exists_readsAs w.room userFile mineContent
    obtain ⟨theirs, htheirReads⟩ := exists_readsAs w.room (workspaceFile cwd) theirContent
    rcases result_load hmine htheirs hmineReads htheirReads with hresult | ⟨g, hg, -⟩
    · exact stopped_of_merge hmineReads htheirReads (hresult.symm.trans hfault)
    · exact absurd hlog hg.not_canLog
  case fault =>
    intro f hfault
    cases hmine : contentOf? w userFile with
    | error e =>
      rw [result_load_of_refused (.inl hmine)] at hfault
      exact .inr (.inr (.inl (congrArg _ (Except.error.inj hfault))))
    | ok mineContent =>
      cases htheirs : contentOf? w (workspaceFile cwd) with
      | error e =>
        rw [result_load_of_refused (.inr ⟨_, hmine, htheirs⟩)] at hfault
        exact .inr (.inr (.inr (congrArg _ (Except.error.inj hfault))))
      | ok theirContent =>
        obtain ⟨mine, hmineReads⟩ := exists_readsAs w.room userFile mineContent
        obtain ⟨theirs, htheirReads⟩ := exists_readsAs w.room (workspaceFile cwd) theirContent
        rcases result_load hmine htheirs hmineReads htheirReads with hresult | ⟨g, hg, hresult⟩
        · exact .inl ⟨_, _, rfl, rfl,
            stopped_of_merge hmineReads htheirReads (hresult.symm.trans hfault)⟩
        · rw [hresult] at hfault
          obtain rfl := LoadError.fault.inj (Except.error.inj hfault)
          exact .inr (.inl hg)

end Settings

namespace Shell

open World

variable {σ : Type} {runner : Runner σ} {pool : List Text} {cwd : Place} {v w : World σ}

theorem respects_obey {R : World σ → World σ → Prop} (h : Steady R runner)
    (hsay : ∀ level message, Respects R (say level message : Action σ Fault Unit)) (line : Text) :
    Respects R (obey runner pool cwd line) := by
  apply respects_ite (respects_pure _)
  exact respects_bind (respects_execute h hsay line) fun _ => respects_pure _

theorem respects_serve (v₀ w₀ : World σ) (prompt : Text) (answers : List (Option Text)) :
    Respects (InStep v₀ w₀) (serve runner pool cwd prompt answers) := by
  induction answers with
  | nil => exact respects_write v₀ w₀ prompt
  | cons answer rest ih =>
    cases answer with
    | none => exact respects_write v₀ w₀ prompt
    | some line =>
      refine respects_bind (respects_write v₀ w₀ prompt) fun _ => ?_
      refine respects_bind ?_ fun _ => ih
      exact respects_obey (steady_inStep v₀ w₀ runner) (respects_say v₀ w₀) line

theorem result_session (settings : Settings) {input : Input} {room : Bool} (h : Akin v w)
    (hroom : Screen.hasRoom w.environment w.console.terminal = .ok room) :
    resultOf (session runner pool settings input cwd) v =
      resultOf (serve runner pool cwd input.prompt input.answers) w := by
  have hroom' : Screen.hasRoom v.environment v.console.terminal = .ok room := by
    rwa [h.environment, h.console.terminal]
  obtain ⟨greeted, hgreet⟩ := greet_of_hasRoom settings hroom'
  have hspoke := speaks_greet settings v
  rw [worldAfter_of_ok hgreet] at hspoke
  have hsession : session runner pool settings input cwd v =
      serve runner pool cwd input.prompt input.answers greeted := bind_ok hgreet _
  rw [resultOf, hsession, ← resultOf]
  exact resultOf_eq_of_agree (respects_serve greeted w input.prompt input.answers greeted w
    (hspoke.akin.trans h).inStep)

end Shell

namespace CommandLine

open World

variable {σ : Type} {cwd : Place} {w : World σ}

def answered (loaded : Except Settings.LoadError Settings) (task : Settings → Except Fault Nat) :
    Except Fault Nat :=
  match loaded with
  | .ok settings => task settings
  | .error (.fault f) => .error f
  | .error _ => .ok 1

def complained (e : Settings.LoadError) (v : World σ) : World σ :=
  worldAfter (World.say .error e.message : Action σ Fault Unit) v

theorem resultOf_map {α β ε : Type} {m : Action σ ε α} (f : α → β) (w : World σ) :
    resultOf (m >>= fun a => pure (f a)) w = (resultOf m w).map f := by
  cases hm : m w with
  | ok a v =>
    have hmap : (m >>= fun a => pure (f a)) w = .ok (f a) v := bind_ok hm _
    rw [resultOf_of_ok hm, resultOf_of_ok hmap]
    rfl
  | error e v =>
    rw [resultOf_of_error hm, resultOf_of_error (bind_error hm _)]
    rfl

theorem resultOf_printSettings (settings : Settings) (w : World σ) :
    resultOf (printSettings settings) w =
      (Json.print w.room.items (.table settings.toTable)).map fun _ => 0 := by
  rw [printSettings, resultOf, bind_ok (Workspace.run_get w)]
  cases Json.print w.room.items (.table settings.toTable) <;> rfl

theorem failWithout_of_hasRoom {room : Bool} (e : Settings.LoadError)
    (hroom : Screen.hasRoom w.environment w.console.terminal = .ok room) :
    failWithout e w = .ok 1 (complained e w) := by
  obtain ⟨console, hsaid, -⟩ := say_of_hasRoom (ε := Fault) hroom .error e.message
  rw [complained, worldAfter_of_ok hsaid]
  exact bind_ok hsaid _

theorem withSettings_eq (task : Settings → Action σ Fault Nat) :
    withSettings cwd task w =
      match Settings.load (Settings.userFile w.environment) cwd w with
      | .ok settings v => task settings v
      | .error (.fault f) v => .error f v
      | .error e v => failWithout e v := rfl

theorem result_withSettings {room : Bool} {task : Settings → Action σ Fault Nat}
    {outcome : Settings → Except Fault Nat}
    (hroom : Screen.hasRoom w.environment w.console.terminal = .ok room)
    (htask : ∀ settings v, Akin v w → resultOf (task settings) v = outcome settings) :
    resultOf (withSettings cwd task) w =
      answered (resultOf (Settings.load (Settings.userFile w.environment) cwd) w) outcome := by
  have hspoke := Settings.speaks_load (Settings.userFile w.environment) cwd w
  cases hload : Settings.load (Settings.userFile w.environment) cwd w with
  | ok settings v =>
    rw [worldAfter_of_ok hload] at hspoke
    rw [resultOf_of_ok hload, resultOf, withSettings_eq, hload]
    exact htask settings v hspoke.akin
  | error e v =>
    rw [worldAfter_of_error hload] at hspoke
    rw [← hspoke.akin.environment, ← hspoke.akin.console.terminal] at hroom
    rw [resultOf_of_error hload, resultOf, withSettings_eq, hload]
    cases e with
    | fault f => rfl
    | malformed file => simp only [failWithout_of_hasRoom _ hroom]; rfl
    | invalid files issue => simp only [failWithout_of_hasRoom _ hroom]; rfl

/-- What the two tasks with settings come to, from what loading came to, wherever a message can be
written. A complaint is written and ends them with code one; a session depends on its settings in
nothing else, and printing them has the faults of the printer. -/
structure TasksReported (runner : Runner σ) (pool : List Text) (input : Shell.Input) (cwd : Place)
    (w : World σ) : Prop where
  shell : resultOf (performTask runner pool input cwd .shell) w =
    answered (resultOf (Settings.load (Settings.userFile w.environment) cwd) w) fun _ =>
      (resultOf (Shell.serve runner pool cwd input.prompt input.answers) w).map fun _ => 0
  config : resultOf (performTask runner pool input cwd .config) w =
    answered (resultOf (Settings.load (Settings.userFile w.environment) cwd) w) fun settings =>
      (Json.print w.room.items (.table settings.toTable)).map fun _ => 0
  told : ∀ {e v}, Settings.load (Settings.userFile w.environment) cwd w = .error e v →
    (∀ f, e ≠ .fault f) → ∀ {task}, task = .shell ∨ task = .config →
    worldAfter (performTask runner pool input cwd task) w = complained e v

variable {runner : Runner σ} {pool : List Text} {input : Shell.Input} {room : Bool}

theorem withSettings_of_complaint {e : Settings.LoadError} {v : World σ}
    (hroom : Screen.hasRoom w.environment w.console.terminal = .ok room)
    (hload : Settings.load (Settings.userFile w.environment) cwd w = .error e v)
    (hfault : ∀ f, e ≠ .fault f) (task : Settings → Action σ Fault Nat) :
    withSettings cwd task w = .ok 1 (complained e v) := by
  have hspoke := Settings.speaks_load (Settings.userFile w.environment) cwd w
  rw [worldAfter_of_error hload] at hspoke
  rw [← hspoke.akin.environment, ← hspoke.akin.console.terminal] at hroom
  rw [withSettings_eq, hload]
  cases e with
  | fault f => exact absurd rfl (hfault f)
  | malformed file => exact failWithout_of_hasRoom _ hroom
  | invalid files issue => exact failWithout_of_hasRoom _ hroom

theorem tasks_reported (hroom : Screen.hasRoom w.environment w.console.terminal = .ok room) :
    TasksReported runner pool input cwd w where
  shell := by
    apply result_withSettings hroom
    intro settings v hakin
    rw [← Shell.result_session settings hakin hroom]
    exact resultOf_map (fun _ => 0) v
  config := by
    apply result_withSettings hroom
    intro settings v hakin
    rw [resultOf_printSettings, hakin.room]
  told := by
    intro e v hload hfault task htask
    rcases htask with rfl | rfl
    · exact worldAfter_of_ok (withSettings_of_complaint hroom hload hfault _)
    · exact worldAfter_of_ok (withSettings_of_complaint hroom hload hfault _)

/-- What is wrong with settings files is reported, by loading and by the tasks that need settings,
but for the faults that a file's content can have. -/
theorem settings_reported (runner : Runner σ) (pool : List Text) (input : Shell.Input)
    (cwd : Place) (w : World σ) :
    (∀ userFile, Settings.LoadReported userFile cwd w) ∧
      ((∃ room, Screen.hasRoom w.environment w.console.terminal = .ok room) →
        TasksReported runner pool input cwd w) :=
  ⟨fun userFile => Settings.load_reported userFile cwd w, fun ⟨_, hroom⟩ => tasks_reported hroom⟩

open Command (bareWorld leftoverOtter)

/-- A world whose user's file of settings holds one byte, which no UTF-8 has. -/
def spoiltSettings : World Unit :=
  { bareWorld with
    environment := [("XDG_CONFIG_HOME", "/user")]
    files := [(["user"], .directory), (["user", "blackpepper"], .directory),
      (["user", "blackpepper", "pepper.toml"], .file [0xFF])] }

/-- Bytes that are no text are not reported as settings that are not TOML. -/
theorem undecodable_settings_escape :
    Settings.contentOf? spoiltSettings (Settings.userFile spoiltSettings.environment) =
        .ok (some [0xFF]) ∧
      resultOf (Settings.load (Settings.userFile spoiltSettings.environment) .here)
        spoiltSettings = .error (.fault .undecodable) ∧
      resultOf (performTask leftoverOtter ["lynx"] (.ofText []) .here .config) spoiltSettings =
        .error .undecodable := by
  have hmine : Settings.contentOf? spoiltSettings (Settings.userFile spoiltSettings.environment) =
      .ok (some [0xFF]) := by decide +kernel
  have htheirs : Settings.contentOf? spoiltSettings (Settings.workspaceFile .here) =
      .ok none := by decide +kernel
  have hlog : spoiltSettings.CanLog := fun hshown => absurd hshown (by decide +kernel)
  have hload : resultOf (Settings.load (Settings.userFile spoiltSettings.environment) .here)
      spoiltSettings = .error (.fault .undecodable) :=
    Settings.result_load_of_stopped hmine htheirs hlog (.user (.undecodable rfl))
  refine ⟨hmine, hload, ?_⟩
  have hroom : Screen.hasRoom spoiltSettings.environment spoiltSettings.console.terminal =
      .ok true := by decide +kernel
  rw [(tasks_reported hroom).config, hload]
  rfl

end CommandLine

end Paddock
