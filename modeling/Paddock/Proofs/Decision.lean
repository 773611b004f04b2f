import Paddock.Proofs.Replies
import Paddock.Proofs.WorkspaceRoot

/-!
# What is decided about a workspace

Whether git is asked to add a worktree depends on the six conditions and on nothing else, and a
command that is stopped reports the first condition that fails. A name that is picked is checked
against the listing only: a branch that is not checked out anywhere lets the name be picked and then
stops the command.
-/

namespace Paddock

set_option autoImplicit false

open World

namespace Command

variable {σ : Type} {runner : Runner σ} {pool args : List Text} {cwd : Place} {w : World σ}
  {made : List Request}

theorem fault_of_bar (hnul : Workspace.nul ∉ (runner.answer w.git [] (.toplevel cwd)).stdout)
    {f : Fault} (h : Bar runner pool args cwd w (.fault f) made) :
    ∃ overrun, f = .tooDeep overrun := by
  generalize hhalt : Halt.fault f = halt at h
  cases h with
  | @unwritable repoRoot g hroot hg =>
    rcases Workspace.prepare_eq_error hg with ⟨e, rfl⟩ | ⟨⟨overrun, rfl⟩, _⟩ | ⟨_, hmem⟩
    · exact absurd hhalt Halt.noConfusion
    · exact ⟨overrun, Halt.fault.inj hhalt⟩
    · exact absurd (hroot.mem_stdout hmem) hnul
  | _ => exact absurd hhalt Halt.noConfusion

/-- What is decided, where debug messages can be logged. -/
structure Decided (runner : Runner σ) (pool args : List Text) (cwd : Place) (w : World σ)
    (made : List Request) (result : Except Fault Reply) : Prop where
  asked_iff : ∀ name, (∃ q ∈ made, q.argv = Request.additionArgv name) ↔
    ∃ repoRoot, Clear runner pool args cwd w repoRoot name
  granted : ∀ repoRoot name, Clear runner pool args cwd w repoRoot name →
    made = creation cwd repoRoot name ∧
      result = .ok (creationReply name (additionAnswer runner cwd w repoRoot name))
  barred : (∀ repoRoot name, ¬ Clear runner pool args cwd w repoRoot name) →
    ∃ halt, Bar runner pool args cwd w halt made ∧ result = halt.reply ∧
      ∀ f, halt = .fault f → ∃ overrun, f = .tooDeep overrun

theorem made_eq_of_clear {repoRoot name : Text} (hlog : w.CanLog)
    (hmade : (worldAfter (perform runner pool "create" args cwd) w).requests = w.requests ++ made)
    (h : Clear runner pool args cwd w repoRoot name) :
    made = creation cwd repoRoot name ∧ resultOf (perform runner pool "create" args cwd) w =
      .ok (creationReply name (additionAnswer runner cwd w repoRoot name)) := by
  have hrun := create_cameTo_of_clear hlog h
  exact ⟨List.append_cancel_left (hmade.symm.trans hrun.requests_eq), hrun.result_eq⟩

theorem not_clear_of_bar {halt : Halt} {repoRoot name : Text} (hlog : w.CanLog)
    (h : Bar runner pool args cwd w halt made) : ¬ Clear runner pool args cwd w repoRoot name := by
  intro hclear
  obtain ⟨hmade, _⟩ := made_eq_of_clear hlog (create_cameTo_of_bar hlog h).requests_eq hclear
  apply no_addition_of_bar h name
  rw [hmade]
  exact addition_mem_creation_iff.mpr rfl

/-- The worktree is asked for exactly if no condition fails; otherwise the first one that fails is
reported, and nothing is asked after it. -/
theorem create_decided (runner : Runner σ) (pool args : List Text) (cwd : Place) (w : World σ)
    (hnul : Workspace.nul ∉ (runner.answer w.git [] (.toplevel cwd)).stdout) :
    ∃ made, (worldAfter (perform runner pool "create" args cwd) w).requests =
        w.requests ++ made ∧
      (w.CanLog → Decided runner pool args cwd w made
        (resultOf (perform runner pool "create" args cwd) w)) ∧
      (¬ w.CanLog → made = [] ∧
        ∃ f, resultOf (perform runner pool "create" args cwd) w = .error f) := by
  by_cases hlog : w.CanLog
  swap
  · have hstop : ∃ f, perform runner pool "create" args cwd w = .error f w :=
      perform_of_not_canLog hlog (.inl rfl)
    obtain ⟨f, hf⟩ := hstop
    refine ⟨[], ?_, fun h => absurd h hlog, fun _ => ⟨rfl, f, ?_⟩⟩
    · simp [worldAfter, hf]
    · simp [resultOf, hf]
  rcases clear_or_bar runner pool args cwd w with ⟨repoRoot, name, hclear⟩ | ⟨halt, made, hbar⟩
  · have hrun := create_cameTo_of_clear hlog hclear
    refine ⟨creation cwd repoRoot name, hrun.requests_eq, fun _ => ?_, fun h => absurd hlog h⟩
    constructor
    case asked_iff =>
      intro other
      rw [addition_mem_creation_iff]
      constructor
      · intro he
        exact ⟨repoRoot, he ▸ hclear⟩
      · intro h
        obtain ⟨repoRoot', hclear'⟩ := h
        obtain ⟨hmade, _⟩ := made_eq_of_clear hlog hrun.requests_eq hclear'
        rw [← @addition_mem_creation_iff cwd repoRoot, hmade]
        exact addition_mem_creation_iff.mpr rfl
    case granted =>
      intro _ _ hclear'
      exact made_eq_of_clear hlog hrun.requests_eq hclear'
    case barred =>
      intro hnone
      exact absurd hclear (hnone repoRoot name)
  · have hrun := create_cameTo_of_bar hlog hbar
    refine ⟨made, hrun.requests_eq, fun _ => ?_, fun h => absurd hlog h⟩
    constructor
    case asked_iff =>
      intro name
      have hno := no_addition_of_bar hbar name
      simp [hno, not_clear_of_bar hlog hbar]
    case granted =>
      intro _ _ hclear
      exact absurd hclear (not_clear_of_bar hlog hbar)
    case barred =>
      intro _
      refine ⟨halt, hbar, hrun.result_eq, ?_⟩
      intro f hf
      subst hf
      exact fault_of_bar hnul hbar

/-- A repository at `/r` with one worktree, in which no change fails. Its branch `otter` is checked
out nowhere. -/
def leftoverOtter : Runner Unit := fun q g =>
  if q.argv = Git.showToplevel then (⟨0, "/r\n", []⟩, g)
  else if q.argv = Git.listWorktrees then
    (⟨0, "worktree /r\nbranch refs/heads/main\n\n", []⟩, g)
  else if q.argv.take 2 = (Git.verifyBranch []).take 2 then
    (⟨if q.argv = Git.verifyBranch "otter" then 0 else 1, [], []⟩, g)
  else (⟨0, [], []⟩, g)

def bareWorld : World Unit where
  git := ()
  files := []
  cwd := []
  environment := []
  console := {}
  requests := []

theorem create_decided_in_leftoverOtter :
    Workspace.nul ∉ (leftoverOtter.answer bareWorld.git [] (.toplevel .here)).stdout ∧
      ∃ made, (worldAfter (perform leftoverOtter ["lynx"] "create" [] .here) bareWorld).requests =
          bareWorld.requests ++ made ∧
        (bareWorld.CanLog → Decided leftoverOtter ["lynx"] [] .here bareWorld made
          (resultOf (perform leftoverOtter ["lynx"] "create" [] .here) bareWorld)) ∧
        (¬ bareWorld.CanLog → made = [] ∧
          ∃ f, resultOf (perform leftoverOtter ["lynx"] "create" [] .here) bareWorld =
            .error f) := by
  have hnul : Workspace.nul ∉ (leftoverOtter.answer bareWorld.git [] (.toplevel .here)).stdout := by
    decide +kernel
  exact ⟨hnul, create_decided leftoverOtter ["lynx"] [] .here bareWorld hnul⟩

/-- Without an argument the first valid name of the pool that is not in use is taken. Whether the
workspace is made then hangs on that name's branch alone: the names after it are not tried. -/
theorem create_takes_first_unused (runner : Runner σ) (pool : List Text) (cwd : Place)
    (w : World σ) (repoRoot : Text) (hlog : w.CanLog) (hready : Ready runner cwd w repoRoot)
    (hadds : ∀ name, (additionAnswer runner cwd w repoRoot name).ok = true)
    (hsome : ∃ name ∈ pool, Workspace.isValidName name = true ∧
      ¬ InUse runner cwd w repoRoot name) :
    ∃ name before rest, pool = before ++ name :: rest ∧ Workspace.isValidName name = true ∧
      ¬ InUse runner cwd w repoRoot name ∧
      (∀ other ∈ before, Workspace.isValidName other = true → InUse runner cwd w repoRoot other) ∧
      ∃ reply made, resultOf (perform runner pool "create" [] cwd) w = .ok reply ∧
        (worldAfter (perform runner pool "create" [] cwd) w).requests = w.requests ++ made ∧
        ((branchAnswer runner cwd w repoRoot name).ok = false →
          reply.ok = true ∧ made = creation cwd repoRoot name) ∧
        ((branchAnswer runner cwd w repoRoot name).ok = true →
          reply = ⟨false, (Failure.branchExists name).message⟩ ∧
          made = [.toplevel cwd, .listing repoRoot, .branch repoRoot name]) := by
  obtain ⟨name, hname⟩ := exists_chosen hsome
  have hchosen := hname
  obtain ⟨_, hargs⟩ | ⟨before, rest, _, hpool, hvalid, hfree, hbefore⟩ := hchosen
  · exact absurd hargs.symm (List.cons_ne_nil _ _)
  refine ⟨name, before, rest, hpool, hvalid, hfree, hbefore, ?_⟩
  cases hbranch : (branchAnswer runner cwd w repoRoot name).ok with
  | false =>
    have hrun := create_cameTo_of_clear hlog ⟨hready, hname, hvalid, hfree, hbranch⟩
    refine ⟨_, _, hrun.result_eq, hrun.requests_eq, fun _ => ⟨?_, rfl⟩, fun h => by simp at h⟩
    rw [creationReply_ok, hadds]
  | true =>
    have hrun := create_cameTo_of_bar hlog (.branched hready hname hvalid hfree hbranch)
    exact ⟨_, _, hrun.result_eq, hrun.requests_eq, fun h => by simp at h, fun _ => ⟨rfl, rfl⟩⟩

theorem ready_in_leftoverOtter : Ready leftoverOtter .here bareWorld "/r" := by
  refine ⟨⟨?_, ?_, .inl ?_⟩, ?_⟩
  · decide
  · decide
  · decide
  · decide +kernel

theorem additions_in_leftoverOtter (name : Text) :
    (additionAnswer leftoverOtter .here bareWorld "/r" name).ok = true := by
  simp [additionAnswer, Runner.answer, leftoverOtter, Request.addition, Request.additionArgv,
    Git.showToplevel, Git.listWorktrees, Git.verifyBranch, Outcome.ok]

theorem canLog_bareWorld : bareWorld.CanLog := by
  intro h
  exact absurd h (by decide)

theorem not_inUse_in_leftoverOtter {name : Text}
    (h : name ∉ usedThere leftoverOtter .here bareWorld "/r") :
    ¬ InUse leftoverOtter .here bareWorld "/r" name :=
  (mem_usedThere_iff leftoverOtter .here bareWorld).not.mp h

theorem leftover_branch_stops_create :
    bareWorld.CanLog ∧ Ready leftoverOtter .here bareWorld "/r" ∧
      (∀ name, (additionAnswer leftoverOtter .here bareWorld "/r" name).ok = true) ∧
      (∃ name ∈ ([Text.ofString "otter", Text.ofString "lynx"] : List Text),
        Workspace.isValidName name = true ∧ ¬ InUse leftoverOtter .here bareWorld "/r" name ∧
        (branchAnswer leftoverOtter .here bareWorld "/r" name).ok = false) ∧
      resultOf (perform leftoverOtter ["otter", "lynx"] "create" [] .here) bareWorld =
        .ok ⟨false, "Branch 'otter' already exists. Choose another workspace name."⟩ := by
  refine ⟨canLog_bareWorld, ready_in_leftoverOtter, additions_in_leftoverOtter, ?_, ?_⟩
  · refine ⟨"lynx", by simp, by decide +kernel, not_inUse_in_leftoverOtter ?_, ?_⟩
    · decide +kernel
    · decide +kernel
  · decide +kernel

theorem create_takes_otter : ∃ name before rest,
    [Text.ofString "otter", Text.ofString "lynx"] = before ++ name :: rest ∧
      Workspace.isValidName name = true ∧
      ¬ InUse leftoverOtter .here bareWorld "/r" name ∧
      (∀ other ∈ before, Workspace.isValidName other = true →
        InUse leftoverOtter .here bareWorld "/r" other) ∧
      ∃ reply made,
        resultOf (perform leftoverOtter ["otter", "lynx"] "create" [] .here) bareWorld =
          .ok reply ∧
        (worldAfter (perform leftoverOtter ["otter", "lynx"] "create" [] .here)
          bareWorld).requests = bareWorld.requests ++ made ∧
        ((branchAnswer leftoverOtter .here bareWorld "/r" name).ok = false →
          reply.ok = true ∧ made = creation .here "/r" name) ∧
        ((branchAnswer leftoverOtter .here bareWorld "/r" name).ok = true →
          reply = ⟨false, (Failure.branchExists name).message⟩ ∧
          made = [.toplevel .here, .listing "/r", .branch "/r" name]) := by
  have hsome : ∃ name ∈ ([Text.ofString "otter", Text.ofString "lynx"] : List Text),
      Workspace.isValidName name = true ∧ ¬ InUse leftoverOtter .here bareWorld "/r" name := by
    refine ⟨"otter", by simp, by decide +kernel, not_inUse_in_leftoverOtter ?_⟩
    decide +kernel
  exact create_takes_first_unused leftoverOtter ["otter", "lynx"] .here bareWorld "/r"
    canLog_bareWorld ready_in_leftoverOtter additions_in_leftoverOtter hsome

end Command

end Paddock
