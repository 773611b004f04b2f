import Paddock.Proofs.Decision

/-!
# Where files are written

Preparing the root of a repository makes one directory below it and one file in that directory, and
no command writes anything else. This holds for the repository's path as it is printed, unless there
is a backslash in it: the place of the marker is found by joining paths, and joining turns
backslashes into slashes.
-/

namespace Paddock

set_option autoImplicit false

open Text (slash)

namespace FileTree

variable {tree made next : FileTree} {cwd a b : Address} {p : Place} {part : Text}

/-- Whatever differs between two trees lies at the address or below it. -/
def ChangedBelow (a : Address) (tree made : FileTree) : Prop :=
  ∀ b, get? made b ≠ get? tree b → a <+: b

theorem changedBelow_refl (a : Address) (tree : FileTree) : ChangedBelow a tree tree :=
  fun _ h => absurd rfl h

theorem ChangedBelow.trans (h : ChangedBelow a tree made) (h' : ChangedBelow a made next) :
    ChangedBelow a tree next := by
  intro b hb
  by_cases hsame : get? next b = get? made b
  · exact h b (hsame ▸ hb)
  · exact h' b hsame

theorem changedBelow_insert {entry : Entry} (hb : b ≠ []) (h : a <+: b) :
    ChangedBelow a tree (insert tree b entry) := by
  intro c hc
  by_cases he : c = b
  · exact he ▸ h
  · rw [get?_insert hb, if_neg he] at hc
    exact absurd rfl hc

theorem ensureBelow_cases (tree : FileTree) (a : Address) (part : Text) :
    (∃ made, ensureBelow tree a part = .ok (below a part, made) ∧
      ChangedBelow (below a part) tree made) ∨
    ∃ r, r ≠ .noEntry ∧ ensureBelow tree a part = .error r := by
  unfold ensureBelow
  split
  · exact .inl ⟨tree, rfl, changedBelow_refl _ tree⟩
  · exact .inr ⟨.alreadyExists, Refusal.noConfusion, rfl⟩
  · rename_i hf
    have hno : get? tree (below a part) ≠ some .directory := by
      simp [(find_eq_noEntry_iff.mp hf).2]
    exact .inl ⟨_, rfl, changedBelow_insert (ne_nil_of_get? hno) List.prefix_rfl⟩
  · rename_i r hr _
    exact .inr ⟨r, hr, rfl⟩

theorem ensureAt_child_cases (h : enter tree (start cwd p) p.parts = .ok a) (part : Text) :
    (∃ made, ensureAt tree cwd (p.child part) = .ok (below a part, made) ∧
      ChangedBelow (below a part) tree made) ∨
    ∃ r, r ≠ .noEntry ∧ ensureAt tree cwd (p.child part) = .error r := by
  have hstart : start cwd (p.child part) = start cwd p := rfl
  have hparts : (p.child part).parts = p.parts ++ [part] := rfl
  unfold ensureAt
  split
  · exact .inr ⟨.nameTooLong, Refusal.noConfusion, rfl⟩
  · simp only [hparts, hstart, List.getLast?_concat, List.dropLast_concat, h, bind, Except.bind]
    exact ensureBelow_cases tree a part

theorem ensureDirectory_child_cases (h : enter tree (start cwd p) p.parts = .ok a) (part : Text)
    (room : Nat) :
    (∃ made, ensureDirectory tree cwd (p.child part) room = (.ok (below a part), made) ∧
      ChangedBelow (below a part) tree made) ∨
    ∃ e, ensureDirectory tree cwd (p.child part) room = (.error (.refused e), tree) := by
  rcases ensureAt_child_cases h part with ⟨made, hmade, hchanged⟩ | ⟨r, hr, herror⟩
  · exact .inl ⟨made, ensureDirectory_of_ensureAt_ok hmade room, hchanged⟩
  · exact .inr ⟨_, ensureDirectory_of_ensureAt_error hr herror room⟩

theorem truncate_child_eq_ok (h : enter tree (start cwd p) p.parts = .ok a)
    (htruncate : truncate tree cwd (p.child part) = .ok made) :
    ChangedBelow (a ++ [part]) tree made ∧ get? made (a ++ [part]) = some (.file []) := by
  obtain ⟨_, last, b, hlast, hdots, henter, _, hdir, rfl⟩ := truncate_eq_ok htruncate
  have hne : below b last ≠ [] := ne_nil_of_get? hdir
  have hlast' : (p.parts ++ [part]).getLast? = some last := hlast
  obtain rfl : part = last := by
    rw [List.getLast?_concat] at hlast'
    exact Option.some.inj hlast'
  obtain rfl : a = b := by
    have henter' : enter tree (start cwd p) (p.parts ++ [part]).dropLast = .ok b := henter
    rw [List.dropLast_concat, h] at henter'
    exact Except.ok.inj henter'
  have hbelow : below a part = a ++ [part] := if_neg hdots
  rw [hbelow] at hne ⊢
  exact ⟨changedBelow_insert hne List.prefix_rfl, by rw [get?_insert hne, if_pos rfl]⟩

end FileTree

namespace Place

theorem leadingSlashes_ne_zero {x : Text} (h : x.head? = some slash) : leadingSlashes x ≠ 0 := by
  obtain ⟨rest, rfl⟩ := List.head?_eq_some_iff.mp h
  have hlength : ((slash :: rest).takeWhile (· == slash)).length ≠ 0 := by simp
  unfold leadingSlashes
  split
  · exact absurd ‹_› hlength
  · exact Nat.succ_ne_zero 1
  · exact Nat.succ_ne_zero 0

end Place

namespace Workspace

open FileTree

variable {tree : FileTree} {cwd a : Address} {repoRoot : Text} {room : Nat}

/-- The path of a directory that is there, as git prints it. -/
structure RootAt (tree : FileTree) (repoRoot : Text) (a : Address) : Prop where
  absolute : repoRoot.head? = some slash
  ended : repoRoot = [slash] ∨ repoRoot.getLast? ≠ some slash
  entered : enter tree [] (Place.components repoRoot) = .ok a

theorem markerPath_eq (hb : Glyph.char '\\' ∉ repoRoot) (hne : repoRoot ≠ [])
    (hend : repoRoot.getLast? ≠ some slash) :
    Path.join [root repoRoot, markerName] =
      (repoRoot ++ slash :: directoryName) ++ slash :: markerName := by
  have hslash : Glyph.char '\\' ∉ repoRoot ++ [slash] := by
    rw [List.mem_append, not_or]
    exact ⟨hb, by simp [slash]⟩
  have htidy : Path.Tidy ((repoRoot ++ [slash]) ++ directoryName) :=
    Path.Tidy.append hslash tidy_directoryName (by decide)
  rw [List.append_assoc] at htidy
  rw [root_eq ⟨hb, hend⟩ hne]
  exact Path.join_pair htidy tidy_markerName (List.append_ne_nil_of_left_ne_nil hne _)
    (by decide) (by decide)

theorem exists_marker_eq (hb : Glyph.char '\\' ∉ repoRoot) (habs : repoRoot.head? = some slash)
    (hend : repoRoot = [slash] ∨ repoRoot.getLast? ≠ some slash) :
    ∃ above : Place, above.isAbsolute = true ∧ above.parts = Place.components repoRoot ∧
      marker repoRoot = (above.child directoryName).child markerName := by
  rcases hend with rfl | hend
  · exact ⟨⟨1, []⟩, rfl, rfl, by decide⟩
  have hne : repoRoot ≠ [] := by
    rintro rfl
    simp at habs
  have hhead : ((repoRoot ++ slash :: directoryName) ++ slash :: markerName).head? =
      some slash := by
    rw [List.append_assoc, List.head?_append_of_ne_nil _ hne, habs]
  refine ⟨⟨_, Place.components repoRoot⟩,
    bne_iff_ne.mpr (Place.leadingSlashes_ne_zero hhead), rfl, ?_⟩
  rw [marker, markerPath_eq hb hne hend, Place.ofText, Place.components_append,
    Place.components_append, components_directoryName, components_markerName]
  rfl

/-- Preparing a root writes nothing outside of the workspaces' directory. If it gets through then
the marker is there and empty. -/
theorem prepare_confined (h : RootAt tree repoRoot a) (hb : Glyph.char '\\' ∉ repoRoot) :
    ChangedBelow (a ++ [directoryName]) tree (prepare tree cwd repoRoot room).2 ∧
      ((prepare tree cwd repoRoot room).1 = .ok () →
        get? (prepare tree cwd repoRoot room).2 (a ++ [directoryName, markerName]) =
          some (.file [])) := by
  obtain ⟨above, habs, hparts, hmarker⟩ := exists_marker_eq hb h.absolute h.ended
  have henter : enter tree (start cwd above) above.parts = .ok a := by
    rw [start, if_pos habs, hparts]
    exact h.entered
  have hbelow : below a directoryName = a ++ [directoryName] := if_neg (by decide)
  have hunchanged := changedBelow_refl (a ++ [directoryName]) tree
  unfold prepare
  simp only [hmarker, Place.parent_child]
  split
  · exact ⟨hunchanged, by simp⟩
  rcases ensureDirectory_child_cases henter directoryName room with
    ⟨made, hmade, hchanged⟩ | ⟨e, he⟩
  swap
  · rw [he]
    exact ⟨hunchanged, by simp⟩
  have hinside := (enter_of_ensureDirectory hmade).2
  rw [hbelow] at hmade hchanged hinside
  rw [hmade]
  simp only []
  split
  swap
  · -- the directory was made, and the marker refused
    exact ⟨hchanged, by simp⟩
  rename_i final htruncate
  obtain ⟨hfile, hmarked⟩ := truncate_child_eq_ok hinside htruncate
  rw [List.append_assoc] at hfile hmarked
  refine ⟨hchanged.trans ?_, fun _ => hmarked⟩
  intro b hdiffers
  exact List.IsPrefix.trans (by simp) (hfile b hdiffers)

end Workspace

namespace Command

open World FileTree
open Workspace (directoryName markerName RootAt prepare)

variable {σ : Type} {runner : Runner σ} {pool args : List Text} {cwd : Place} {w : World σ}
  {command repoRoot : Text} {made : List Request} {left : FileTree} {a : Address}

/-- The worktrees are asked for, which comes right after the workspace root was prepared. -/
def AsksWorktrees (made : List Request) : Prop := ∃ q ∈ made, q.argv = Git.listWorktrees

/-- What a command leaves of the files, in the repository at `a`. -/
structure Confined (runner : Runner σ) (cwd : Place) (w : World σ) (repoRoot : Text) (a : Address)
    (command : Text) (made : List Request) (left : FileTree) : Prop where
  below : ChangedBelow (a ++ [directoryName]) w.files left
  unchanged : command ≠ "create" → left = w.files
  asks_iff : command = "create" →
    (AsksWorktrees made ↔ w.CanLog ∧ Ready runner cwd w repoRoot)
  marked : command = "create" → AsksWorktrees made →
    get? left (a ++ [directoryName, markerName]) = some (.file [])

theorem confined_of_unchanged {v : World σ} (hno : command = "create" → ¬ w.CanLog) (h : v = w) :
    ∃ made, v.requests = w.requests ++ made ∧
      Confined runner cwd w repoRoot a command made v.files := by
  subst h
  have hasks : ¬ AsksWorktrees [] := by
    rintro ⟨q, hq, _⟩
    exact absurd hq List.not_mem_nil
  refine ⟨[], (List.append_nil _).symm, changedBelow_refl _ _, fun _ => rfl, ?_, ?_⟩
  · intro hcreate
    exact iff_of_false hasks fun hready => hno hcreate hready.1
  · intro _ h
    exact absurd h hasks

theorem asksWorktrees_of_bar {halt : Halt} (h : Bar runner pool args cwd w halt made) :
    AsksWorktrees made ↔ ∃ repoRoot, Ready runner cwd w repoRoot := by
  have hfirst : ¬ AsksWorktrees [Request.toplevel cwd] := by
    simp [AsksWorktrees, Request.toplevel, Git.showToplevel, Git.listWorktrees]
  have hnext : ∀ repoRoot rest,
      AsksWorktrees (Request.toplevel cwd :: Request.listing repoRoot :: rest) := by
    intro repoRoot rest
    exact ⟨.listing repoRoot, List.mem_cons_of_mem _ List.mem_cons_self, rfl⟩
  cases h with
  | noRepository h =>
    refine iff_of_false hfirst ?_
    rintro ⟨repoRoot, hready⟩
    exact h repoRoot hready.resolves
  | unwritable hroot h =>
    refine iff_of_false hfirst ?_
    rintro ⟨repoRoot, hready⟩
    obtain rfl := hroot.unique hready.resolves
    rw [hready.writable] at h
    exact absurd h (by simp)
  | unnamed hready _ => exact iff_of_true (hnext _ _) ⟨_, hready⟩
  | invalid hready _ _ => exact iff_of_true (hnext _ _) ⟨_, hready⟩
  | inUse hready _ _ _ => exact iff_of_true (hnext _ _) ⟨_, hready⟩
  | branched hready _ _ _ _ => exact iff_of_true (hnext _ _) ⟨_, hready⟩

theorem create_comes (hlog : w.CanLog) : ∃ result made,
    CameTo (perform runner pool "create" args cwd) runner w result made
      (filesAfter runner cwd w) ∧
    (AsksWorktrees made ↔ ∃ repoRoot, Ready runner cwd w repoRoot) := by
  rcases clear_or_bar runner pool args cwd w with ⟨repoRoot, name, hclear⟩ | ⟨halt, made, hbar⟩
  · refine ⟨_, _, create_cameTo_of_clear hlog hclear, ?_⟩
    have hasks : AsksWorktrees (creation cwd repoRoot name) :=
      ⟨.listing repoRoot, List.mem_cons_of_mem _ List.mem_cons_self, rfl⟩
    exact iff_of_true hasks ⟨repoRoot, hclear.toReady⟩
  · exact ⟨_, _, create_cameTo_of_bar hlog hbar, asksWorktrees_of_bar hbar⟩

section Root

variable (hout : (runner.answer w.git [] (.toplevel cwd)).stdout = repoRoot ++ [Text.newline])
include hout

theorem filesAfter_cases : filesAfter runner cwd w = w.files ∨
    filesAfter runner cwd w = (prepare w.files w.cwd repoRoot w.room.directories).2 := by
  unfold filesAfter
  cases hfound : Git.rootOf (runner.answer w.git [] (.toplevel cwd)) with
  | none => exact .inl rfl
  | some found =>
    obtain rfl := (Git.rootOf_eq_some_iff.mp hfound).eq_of_stdout hout
    exact .inr rfl

theorem exists_ready_iff :
    (∃ found, Ready runner cwd w found) ↔ Ready runner cwd w repoRoot := by
  constructor
  · rintro ⟨found, hready⟩
    obtain rfl := hready.resolves.eq_of_stdout hout
    exact hready
  · exact fun hready => ⟨repoRoot, hready⟩

theorem create_confined (hlog : w.CanLog) (hroot : RootAt w.files repoRoot a)
    (hb : Glyph.char '\\' ∉ repoRoot) : ∃ result made,
    CameTo (perform runner pool "create" args cwd) runner w result made
      (filesAfter runner cwd w) ∧
    Confined runner cwd w repoRoot a "create" made (filesAfter runner cwd w) := by
  have hrun := @create_comes σ runner pool args cwd w hlog
  obtain ⟨result, made, hcame, hasks⟩ := hrun
  rw [exists_ready_iff hout] at hasks
  obtain ⟨hbelow, hmarked⟩ :=
    @Workspace.prepare_confined w.files w.cwd a repoRoot w.room.directories hroot hb
  refine ⟨result, made, hcame, ?_, fun h => absurd rfl h, ?_, ?_⟩
  · rcases filesAfter_cases hout with hfiles | hfiles
    · rw [hfiles]
      exact changedBelow_refl _ _
    · rw [hfiles]
      exact hbelow
  · intro _
    rw [hasks]
    exact ⟨fun hready => ⟨hlog, hready⟩, fun hready => hready.2⟩
  · intro _ hasked
    rw [(hasks.mp hasked).prepare_eq] at hmarked
    exact hmarked rfl

end Root

theorem other_confined (hother : command ≠ "create") : ∃ made,
    (worldAfter (perform runner pool command args cwd) w).requests = w.requests ++ made ∧
    Confined runner cwd w repoRoot a command made
      (worldAfter (perform runner pool command args cwd) w).files := by
  have hno : command = "create" → ¬ w.CanLog := fun hcreate => absurd hcreate hother
  by_cases hasks : command = "destroy" ∨ command = "list"
  swap
  · rw [not_or] at hasks
    exact confined_of_unchanged hno (worldAfter_of_ok (perform_of_other hother hasks.1 hasks.2))
  by_cases hlog : w.CanLog
  swap
  · obtain ⟨f, hf⟩ := cannotLog_of_not_canLog hlog
    exact confined_of_unchanged hno (worldAfter_of_error (perform_of_cannotLog hf (.inr hasks)))
  have hcame : ∃ reply made, CameTo (perform runner pool command args cwd) runner w
      (.ok reply) made w.files := by
    rcases hasks with rfl | rfl
    · exact destroy_returns hlog
    · exact list_returns hlog
  obtain ⟨reply, made, hcame⟩ := hcame
  refine ⟨made, hcame.requests_eq, ?_⟩
  rw [hcame.files_eq]
  exact ⟨changedBelow_refl _ _, fun _ => rfl, fun hcreate => absurd hcreate hother,
    fun hcreate => absurd hcreate hother⟩

/-- Every file that a command makes or changes is the directory of the workspaces or lies below it,
only `create` makes any, and once the root was prepared the marker is there and empty. -/
theorem perform_confined (runner : Runner σ) (pool : List Text) (command : Text)
    (args : List Text) (cwd : Place) (w : World σ) (repoRoot : Text) (a : Address)
    (hroot : RootAt w.files repoRoot a) (hb : Glyph.char '\\' ∉ repoRoot)
    (hout : (runner.answer w.git [] (.toplevel cwd)).stdout = repoRoot ++ [Text.newline]) :
    ∃ made,
      (worldAfter (perform runner pool command args cwd) w).requests = w.requests ++ made ∧
      Confined runner cwd w repoRoot a command made
        (worldAfter (perform runner pool command args cwd) w).files := by
  by_cases hcreate : command = "create"
  swap
  · exact other_confined hcreate
  subst hcreate
  by_cases hlog : w.CanLog
  · have hrun := @create_confined σ runner pool args cwd w repoRoot a hout hlog hroot hb
    obtain ⟨result, made, hcame, hconfined⟩ := hrun
    refine ⟨made, hcame.requests_eq, ?_⟩
    rw [hcame.files_eq]
    exact hconfined
  · obtain ⟨f, hf⟩ := cannotLog_of_not_canLog hlog
    exact confined_of_unchanged (fun _ => hlog)
      (worldAfter_of_error (perform_of_cannotLog hf (.inl rfl)))

def showing (repoRoot : Text) : Runner Unit := fun q g =>
  if q.argv = Git.showToplevel then (⟨0, repoRoot ++ [Text.newline], []⟩, g) else (⟨1, [], []⟩, g)

def holding (name : Text) : World Unit := { bareWorld with files := [([name], .directory)] }

theorem rootAt_spaced : RootAt (holding " r ").files "/ r " [" r "] :=
  ⟨rfl, .inr (by decide), by decide⟩

theorem perform_confined_to_spaced :
    RootAt (holding " r ").files "/ r " [" r "] ∧
      Glyph.char '\\' ∉ Text.ofString "/ r " ∧
      ((showing "/ r ").answer () [] (.toplevel .here)).stdout =
        Text.ofString "/ r " ++ [Text.newline] ∧
      ∃ made,
        (worldAfter (perform (showing "/ r ") [] "create" ["otter"] .here)
          (holding " r ")).requests = [] ++ made ∧
        Confined (showing "/ r ") .here (holding " r ") "/ r " [" r "] "create" made
          (worldAfter (perform (showing "/ r ") [] "create" ["otter"] .here)
            (holding " r ")).files := by
  have hb : Glyph.char '\\' ∉ Text.ofString "/ r " := by decide +kernel
  exact ⟨rootAt_spaced, hb, rfl, perform_confined (showing "/ r ") [] "create" ["otter"] .here
    (holding " r ") "/ r " [" r "] rootAt_spaced hb rfl⟩

theorem rootAt_backslashed : RootAt (holding "a\\b").files "/a\\b" ["a\\b"] :=
  ⟨rfl, .inr (by decide), by decide⟩

/-- In a repository `a\b` the marker goes to `a/b`, outside of it, and there is none inside. -/
theorem backslash_leaves_repository :
    RootAt (holding "a\\b").files "/a\\b" ["a\\b"] ∧
      ((showing "/a\\b").answer () [] (.toplevel .here)).stdout =
        Text.ofString "/a\\b" ++ [Text.newline] ∧
      AsksWorktrees (worldAfter (perform (showing "/a\\b") [] "create" ["otter"] .here)
        (holding "a\\b")).requests ∧
      ¬ ChangedBelow ["a\\b", directoryName] (holding "a\\b").files
        (worldAfter (perform (showing "/a\\b") [] "create" ["otter"] .here)
          (holding "a\\b")).files ∧
      get? (worldAfter (perform (showing "/a\\b") [] "create" ["otter"] .here)
        (holding "a\\b")).files ["a\\b", directoryName, markerName] = none := by
  refine ⟨rootAt_backslashed, rfl, ?_, ?_, ?_⟩
  · unfold AsksWorktrees
    decide +kernel
  · intro h
    have hinside : ([Text.ofString "a\\b", directoryName] : Address) <+: [Text.ofString "a"] := by
      apply h
      decide +kernel
    exact absurd hinside (by decide +kernel)
  · decide +kernel

end Command

end Paddock
