import Paddock.Proofs.Replies

/-!
# What a command may ask

Whatever git answers, a command makes the requests of a fixed list in order and may stop early. The
only text of the user's that comes into a command line is a name that was checked, and the reply is
ok exactly if the list was gone through to its change and that was answered with success.
-/

namespace Paddock

set_option autoImplicit false

open World

/-- A name that is one component of a path and no option. -/
structure SafeName (name : Text) : Prop where
  shape : ∃ g rest, name = g :: rest ∧ Workspace.isLetter g = true ∧
    ∀ x ∈ rest, Workspace.isLetter x = true ∨ x = .char '-'
  no_option : name.head? ≠ some (.char '-')
  one_component : Place.components (Text.ofString "workspaces/" ++ name) =
    [Workspace.directoryName, name]

theorem safeName_of_isValidName {name : Text} (h : Workspace.isValidName name = true) :
    SafeName name := by
  refine ⟨Workspace.isValidName_iff.mp h, Workspace.head?_ne_of_isValidName h rfl, ?_⟩
  have hslash := Workspace.slash_not_mem_of_isValidName h
  have hdot : name ≠ [.char '.'] := by
    rintro rfl
    exact absurd h (by decide)
  rw [Workspace.directoryName_eq, List.append_assoc]
  refine (Place.components_append Workspace.directoryName name).trans ?_
  rw [Workspace.components_directoryName,
    Place.components_eq_singleton hslash (Workspace.ne_nil_of_isValidName h) hdot]
  rfl

namespace Request

def IsChange (q : Request) : Prop :=
  ∃ name, q.argv = additionArgv name ∨ q.argv = removalArgv name

theorem isChange_addition (repoRoot name : Text) : (addition repoRoot name).IsChange :=
  ⟨name, .inl rfl⟩

theorem isChange_removal (repoRoot name : Text) : (removal repoRoot name).IsChange :=
  ⟨name, .inr rfl⟩

theorem not_isChange_toplevel (cwd : Place) : ¬ (toplevel cwd).IsChange := by
  simp [IsChange, toplevel, Git.showToplevel, additionArgv, removalArgv]

theorem not_isChange_listing (repoRoot : Text) : ¬ (listing repoRoot).IsChange := by
  simp [IsChange, listing, Git.listWorktrees, additionArgv, removalArgv]

theorem not_isChange_branch (repoRoot name : Text) : ¬ (branch repoRoot name).IsChange := by
  simp [IsChange, branch, Git.verifyBranch, additionArgv, removalArgv]

end Request

namespace Command

variable {σ : Type} {runner : Runner σ} {pool args : List Text} {cwd : Place} {w : World σ}

def Changed (runner : Runner σ) (g : σ) (made : List Request) : Prop :=
  ∃ front last, made = front ++ [last] ∧ last.IsChange ∧ (runner.answer g front last).ok = true

theorem changed_concat_iff {g : σ} {front : List Request} {last : Request} :
    Changed runner g (front ++ [last]) ↔
      last.IsChange ∧ (runner.answer g front last).ok = true := by
  constructor
  · rintro ⟨front', last', heq, hchange, hok⟩
    obtain ⟨rfl, hlast⟩ := List.append_inj' heq rfl
    obtain rfl := List.singleton_inj.mp hlast
    exact ⟨hchange, hok⟩
  · rintro ⟨hchange, hok⟩
    exact ⟨front, last, rfl, hchange, hok⟩

theorem not_changed_nil (g : σ) : ¬ Changed runner g [] := by
  rintro ⟨front, last, heq, _⟩
  simp at heq

/-- The name is the one that is given, or a name of the pool where none is given. -/
def Offered (pool args : List Text) (name : Text) : Prop :=
  args.head? = some name ∨ args = [] ∧ name ∈ pool

/-- The complete lists of requests. A name may be missing for a new workspace after the listing. -/
inductive Itinerary (pool args : List Text) (cwd : Place) (repoRoot : Text) :
    Text → List Request → Prop where
  | create {name : Text} (h : Offered pool args name) (hsafe : SafeName name) :
      Itinerary pool args cwd repoRoot "create" (creation cwd repoRoot name)
  | search : Itinerary pool args cwd repoRoot "create" [.toplevel cwd, .listing repoRoot]
  | destroy {name : Text} (h : args.head? = some name) (hsafe : SafeName name) :
      Itinerary pool args cwd repoRoot "destroy" [.toplevel cwd, .removal repoRoot name]
  | list : Itinerary pool args cwd repoRoot "list" [.toplevel cwd, .listing repoRoot]
  | nothing (command : Text) : Itinerary pool args cwd repoRoot command []

structure Follows (runner : Runner σ) (pool : List Text) (command : Text) (args : List Text)
    (cwd : Place) (w : World σ) (repoRoot : Text) (whole made : List Request) : Prop where
  itinerary : Itinerary pool args cwd repoRoot command whole
  begins : made <+: whole
  root : 2 ≤ made.length → Git.Resolves (runner.answer w.git [] (.toplevel cwd)) repoRoot
  requests_eq : (worldAfter (perform runner pool command args cwd) w).requests = w.requests ++ made
  git_eq : (worldAfter (perform runner pool command args cwd) w).git = runner.after w.git made
  ok_iff : command = "create" ∨ command = "destroy" →
    ((∃ reply, resultOf (perform runner pool command args cwd) w = .ok reply ∧ reply.ok = true) ↔
      Changed runner w.git made)

theorem offered_of_chosen {taken : Text → Prop} {name : Text} (h : Chosen pool args taken name) :
    Offered pool args name := by
  rcases h with ⟨rest, rfl⟩ | ⟨before, rest, hargs, rfl, _, _, _⟩
  · exact .inl rfl
  · exact .inr ⟨hargs, by simp⟩

theorem reply_not_ok (halt : Halt) : ¬ ∃ reply, halt.reply = .ok reply ∧ reply.ok = true := by
  cases halt with
  | failure f => simp [Halt.reply]
  | fault f => simp [Halt.reply]

theorem not_changed_toplevel (g : σ) : ¬ Changed runner g [.toplevel cwd] := by
  intro h
  exact Request.not_isChange_toplevel cwd ((@changed_concat_iff σ runner g [] _).mp h).1

theorem not_changed_of_bar {halt : Halt} {made : List Request}
    (h : Bar runner pool args cwd w halt made) (g : σ) : ¬ Changed runner g made := by
  have hlisting : ∀ repoRoot, ¬ Changed runner g ([.toplevel cwd] ++ [.listing repoRoot]) := by
    intro repoRoot hc
    exact Request.not_isChange_listing repoRoot (changed_concat_iff.mp hc).1
  have hbranch : ∀ repoRoot name, ¬ Changed runner g
      ([.toplevel cwd, .listing repoRoot] ++ [.branch repoRoot name]) := by
    intro repoRoot name hc
    exact Request.not_isChange_branch repoRoot name (changed_concat_iff.mp hc).1
  cases h with
  | noRepository _ => exact not_changed_toplevel g
  | unwritable _ _ => exact not_changed_toplevel g
  | unnamed _ _ => exact hlisting _
  | invalid _ _ _ => exact hlisting _
  | inUse _ _ _ _ => exact hlisting _
  | branched _ _ _ _ _ => exact hbranch _ _

variable {command : Text} {repoRoot : Text} {whole made : List Request}

theorem CameTo.follows {result : Except Fault Reply} {left : FileTree}
    (hrun : CameTo (perform runner pool command args cwd) runner w result made left)
    (hit : Itinerary pool args cwd repoRoot command whole) (hbegins : made <+: whole)
    (hroot : 2 ≤ made.length → Git.Resolves (runner.answer w.git [] (.toplevel cwd)) repoRoot)
    (hok : command = "create" ∨ command = "destroy" →
      ((∃ reply, result = .ok reply ∧ reply.ok = true) ↔ Changed runner w.git made)) :
    Follows runner pool command args cwd w repoRoot whole made := by
  refine ⟨hit, hbegins, hroot, hrun.requests_eq, hrun.git_eq, ?_⟩
  rw [hrun.result_eq]
  exact hok

theorem CameTo.follows_of_halt {halt : Halt} {left : FileTree}
    (hrun : CameTo (perform runner pool command args cwd) runner w halt.reply made left)
    (hit : Itinerary pool args cwd repoRoot command whole) (hbegins : made <+: whole)
    (hroot : 2 ≤ made.length → Git.Resolves (runner.answer w.git [] (.toplevel cwd)) repoRoot)
    (hno : ¬ Changed runner w.git made) :
    Follows runner pool command args cwd w repoRoot whole made :=
  hrun.follows hit hbegins hroot fun _ => iff_of_false (reply_not_ok halt) hno

theorem follows_of_not_canLog (hlog : ¬ w.CanLog)
    (h : command = "create" ∨ command = "destroy" ∨ command = "list") :
    Follows runner pool command args cwd w [] [] [] := by
  have hstop : ∃ f, perform runner pool command args cwd w = .error f w :=
    perform_of_not_canLog hlog h
  obtain ⟨f, hf⟩ := hstop
  refine ⟨.nothing command, List.prefix_rfl, fun h => absurd h (by simp), ?_, ?_, ?_⟩
  · simp [worldAfter, hf]
  · simp [worldAfter, hf]
  · intro _
    apply iff_of_false
    · simp [resultOf, hf]
    · exact not_changed_nil w.git

theorem itinerary_of_bar {halt : Halt} (h : Bar runner pool args cwd w halt made) :
    ∃ repoRoot whole, Itinerary pool args cwd repoRoot "create" whole ∧ made <+: whole ∧
      (2 ≤ made.length → Git.Resolves (runner.answer w.git [] (.toplevel cwd)) repoRoot) := by
  cases h with
  | noRepository _ => exact ⟨[], _, .search, ⟨_, rfl⟩, fun hlong => absurd hlong (by simp)⟩
  | @unwritable repoRoot _ hroot _ => exact ⟨repoRoot, _, .search, ⟨_, rfl⟩, fun _ => hroot⟩
  | @unnamed repoRoot hready _ =>
    exact ⟨repoRoot, _, .search, List.prefix_rfl, fun _ => hready.resolves⟩
  | @invalid repoRoot _ hready _ _ =>
    exact ⟨repoRoot, _, .search, List.prefix_rfl, fun _ => hready.resolves⟩
  | @inUse repoRoot _ hready _ _ _ =>
    exact ⟨repoRoot, _, .search, List.prefix_rfl, fun _ => hready.resolves⟩
  | @branched repoRoot name hready hname hvalid _ _ =>
    have hsafe := safeName_of_isValidName hvalid
    exact ⟨repoRoot, creation cwd repoRoot name, .create (offered_of_chosen hname) hsafe,
      ⟨_, rfl⟩, fun _ => hready.resolves⟩

theorem create_follows (hlog : w.CanLog) : ∃ repoRoot whole made,
    Follows runner pool "create" args cwd w repoRoot whole made := by
  rcases clear_or_bar runner pool args cwd w with ⟨repoRoot, name, hclear⟩ | ⟨halt, made, hbar⟩
  · have hrun := create_cameTo_of_clear hlog hclear
    have hoffered := offered_of_chosen hclear.chosen
    have hsafe := safeName_of_isValidName hclear.valid
    refine ⟨repoRoot, creation cwd repoRoot name, creation cwd repoRoot name,
      hrun.follows (.create hoffered hsafe) List.prefix_rfl (fun _ => hclear.resolves) ?_⟩
    intro _
    have hsplit : creation cwd repoRoot name =
      [.toplevel cwd, .listing repoRoot, .branch repoRoot name] ++ [.addition repoRoot name] := rfl
    rw [hsplit, changed_concat_iff]
    simp [Request.isChange_addition, additionAnswer]
  · have hrun := create_cameTo_of_bar hlog hbar
    obtain ⟨repoRoot, whole, hit, hbegins, hroot⟩ := itinerary_of_bar hbar
    have hno := not_changed_of_bar hbar w.git
    exact ⟨repoRoot, whole, made, hrun.follows_of_halt hit hbegins hroot hno⟩

theorem destroy_follows (hlog : w.CanLog) : ∃ repoRoot whole made,
    Follows runner pool "destroy" args cwd w repoRoot whole made := by
  cases args with
  | nil =>
    have hrun := @destroy_cameTo_of_nil σ runner pool cwd w hlog
    exact ⟨[], _, _, hrun.follows_of_halt (.nothing "destroy") List.prefix_rfl
      (fun h => absurd h (by simp)) (not_changed_nil w.git)⟩
  | cons name rest =>
    cases hvalid : Workspace.isValidName name with
    | false =>
      have hrun := @destroy_cameTo_of_invalid σ runner pool cwd w hlog name rest hvalid
      exact ⟨[], _, _, hrun.follows_of_halt (.nothing "destroy") List.prefix_rfl
        (fun h => absurd h (by simp)) (not_changed_nil w.git)⟩
    | true =>
      have hsafe := safeName_of_isValidName hvalid
      by_cases hroot : ∃ r, Git.Resolves (runner.answer w.git [] (.toplevel cwd)) r
      · obtain ⟨repoRoot, hroot⟩ := hroot
        have hrun := @destroy_cameTo_of_resolves σ runner pool cwd w hlog name repoRoot rest
          hvalid hroot
        refine ⟨repoRoot, _, _,
          hrun.follows (.destroy rfl hsafe) List.prefix_rfl (fun _ => hroot) ?_⟩
        intro _
        have hsplit : [Request.toplevel cwd, .removal repoRoot name] =
          [.toplevel cwd] ++ [.removal repoRoot name] := rfl
        rw [hsplit, changed_concat_iff]
        simp [Request.isChange_removal, removalAnswer]
      · have hrun := @destroy_cameTo_of_not_resolves σ runner pool cwd w hlog name rest hvalid
          (not_exists.mp hroot)
        exact ⟨[], _, _, hrun.follows_of_halt (.destroy rfl hsafe) ⟨_, rfl⟩
          (fun h => absurd h (by simp)) (not_changed_toplevel w.git)⟩

theorem list_follows (hlog : w.CanLog) : ∃ repoRoot whole made,
    Follows runner pool "list" args cwd w repoRoot whole made := by
  have hother : ¬ (Text.ofString "list" = Text.ofString "create" ∨
      Text.ofString "list" = Text.ofString "destroy") := by simp
  by_cases hroot : ∃ r, Git.Resolves (runner.answer w.git [] (.toplevel cwd)) r
  · obtain ⟨repoRoot, hroot⟩ := hroot
    have hrun := @list_cameTo_of_resolves σ runner pool args cwd w hlog repoRoot hroot
    exact ⟨repoRoot, _, _, hrun.follows .list List.prefix_rfl (fun _ => hroot)
      fun h => absurd h hother⟩
  · have hrun := @list_cameTo_of_not_resolves σ runner pool args cwd w hlog (not_exists.mp hroot)
    exact ⟨[], _, _, hrun.follows_of_halt .list ⟨_, rfl⟩ (fun h => absurd h (by simp))
      (not_changed_toplevel w.git)⟩

theorem other_follows (hc : command ≠ "create") (hd : command ≠ "destroy")
    (hl : command ≠ "list") : Follows runner pool command args cwd w [] [] [] := by
  have hrun := @perform_of_other σ runner pool args cwd w command hc hd hl
  refine ⟨.nothing command, List.prefix_rfl, fun h => absurd h (by simp), ?_, ?_, ?_⟩
  · simp [worldAfter, hrun]
  · simp [worldAfter, hrun]
  · intro h
    rcases h with h | h
    · exact absurd h hc
    · exact absurd h hd

/-- Every command goes through the requests of its itinerary, and no further. -/
theorem perform_follows (runner : Runner σ) (pool : List Text) (command : Text)
    (args : List Text) (cwd : Place) (w : World σ) : ∃ repoRoot whole made,
    Follows runner pool command args cwd w repoRoot whole made := by
  by_cases hasks : command = "create" ∨ command = "destroy" ∨ command = "list"
  · by_cases hlog : w.CanLog
    · rcases hasks with rfl | rfl | rfl
      · exact create_follows hlog
      · exact destroy_follows hlog
      · exact list_follows hlog
    · exact ⟨[], [], [], follows_of_not_canLog hlog hasks⟩
  · rw [not_or, not_or] at hasks
    exact ⟨[], [], [], other_follows hasks.1 hasks.2.1 hasks.2.2⟩

end Command

end Paddock
