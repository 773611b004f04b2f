import Paddock.Proofs.Keeper

/-!
# A reference git

The plainest git that keeps a repository: its memory is the repository itself. It reads the name off
a command line and then checks that the whole command line is the one for that name.
-/

namespace Paddock

set_option autoImplicit false

open Text (slash newline)

namespace Repository

open Worktree

def printed (r : Repository) : Text :=
  Text.ended ((r.checkouts.map fun c => (⟨c.path, [c.headLine]⟩ : Stanza)).flatMap Stanza.lines)

def isRegistered (r : Repository) (path : Text) : Bool := r.checkouts.any (·.path = path)

def withWorkspace (r : Repository) (name : Text) : Repository :=
  { r with checkouts := r.checkouts ++ [r.workspace name], branches := r.branches ++ [name] }

def withoutWorkspace (r : Repository) (name : Text) : Repository :=
  { r with checkouts := r.checkouts.filter (·.path ≠ Workspace.place r.root name) }

theorem isRegistered_iff {r : Repository} {path : Text} :
    r.isRegistered path = true ↔ r.Registered path := by
  simp [isRegistered, Registered]

theorem isAttribute_headLine (c : Checkout) : isAttribute c.headLine = true := by
  cases hb : c.branch with
  | none =>
    rw [Checkout.headLine, hb]
    decide
  | some b =>
    have hfront : ¬ pathKeyword <+: c.headLine := by
      rintro ⟨rest, h⟩
      simp [Checkout.headLine, hb, pathKeyword, Checkout.branchKeyword, Text.ofString,
        Text.ofChars] at h
    have hne : c.headLine ≠ [] := by simp [Checkout.headLine, hb]
    rw [← Text.startsWith_iff] at hfront
    simp [isAttribute, hne, hfront]

theorem isHeadLine_headLine (c : Checkout) : isHeadLine c.headLine = true := by
  cases hb : c.branch with
  | none =>
    rw [Checkout.headLine, hb]
    decide
  | some b =>
    have hspace : Text.space ∉ Checkout.branchKeyword := by decide
    simp [isHeadLine, Checkout.headLine, hb, keyword_append hspace]

theorem newline_not_mem_headLine {c : Checkout}
    (h : ∀ b, c.branch = some b → ∀ g ∈ b, g.isBlank = false) : newline ∉ c.headLine := by
  cases hb : c.branch with
  | none =>
    rw [Checkout.headLine, hb]
    decide
  | some b =>
    have hkeyword : newline ∉ Checkout.branchKeyword := by decide
    have hprefix : newline ∉ branchPrefix := by decide
    have hbranch : newline ∉ b := fun hm => absurd (h b hb newline hm) (by decide)
    have hspace : newline ≠ Text.space := by decide
    simp [Checkout.headLine, hb, hkeyword, hprefix, hbranch, hspace]

theorem describes_headLine {c : Checkout}
    (h : ∀ b, c.branch = some b → ∀ g ∈ b, g.isBlank = false) :
    Stanza.Describes ⟨c.path, [c.headLine]⟩ c := by
  refine ⟨rfl, ?_, ?_⟩
  · intro line hline
    rw [List.mem_singleton.mp hline]
    exact ⟨isAttribute_headLine c, newline_not_mem_headLine h⟩
  · simp [isHeadLine_headLine]

theorem prints_printed {r : Repository} (h : r.Printable) : r.Prints r.printed := by
  refine ⟨_, rfl, ?_, ?_⟩
  · intro s hs
    obtain ⟨c, hc, rfl⟩ := List.mem_map.mp hs
    exact ⟨c, hc, describes_headLine (h.branches c hc)⟩
  · intro c hc
    exact ⟨_, List.mem_map_of_mem hc, describes_headLine (h.branches c hc)⟩

end Repository

/-- What follows a prefix, or nothing. -/
def Text.afterFront (front x : Text) : Text := (Text.dropFront? front x).getD []

def succeeded (stdout : Text) : Outcome := ⟨0, stdout, []⟩

def failed (exitCode : Int) : Outcome := ⟨exitCode, [], []⟩

open Repository

/-- Answers as a git does that keeps a repository and knows nothing else. -/
def referenceGit : Runner Repository := fun q r =>
  let branch := Text.afterFront Worktree.branchPrefix (q.argv.getD 4 [])
  let added := q.argv.getD 5 []
  let removed := Text.afterFront (Text.ofString "workspaces/") (q.argv.getD 3 [])
  if q.argv = Git.showToplevel then (succeeded (r.root ++ [newline]), r)
  else if q.argv = Git.listWorktrees then (succeeded r.printed, r)
  else if q.argv = Git.verifyBranch branch then
    (if branch ∈ r.branches then succeeded [] else failed 1, r)
  else if q.argv = Request.additionArgv added then
    if added ∈ r.branches ∨ r.isRegistered (Workspace.place r.root added) then (failed 128, r)
    else (succeeded [], r.withWorkspace added)
  else if q.argv = Request.removalArgv removed then
    if r.isRegistered (Workspace.place r.root removed) then
      (succeeded [], r.withoutWorkspace removed)
    else (failed 128, r)
  else (failed 1, r)

theorem referenceGit_toplevel (cwd : Place) (r : Repository) :
    referenceGit (.toplevel cwd) r = (succeeded (r.root ++ [newline]), r) := by
  simp [referenceGit, Request.toplevel]

theorem referenceGit_listing (repoRoot : Text) (r : Repository) :
    referenceGit (.listing repoRoot) r = (succeeded r.printed, r) := by
  have hne : Git.listWorktrees ≠ Git.showToplevel := by decide
  simp [referenceGit, Request.listing, hne]

theorem referenceGit_branch (repoRoot name : Text) (r : Repository) :
    referenceGit (.branch repoRoot name) r =
      (if name ∈ r.branches then succeeded [] else failed 1, r) := by
  have hroot : Git.verifyBranch name ≠ Git.showToplevel := by
    intro h
    exact absurd (congrArg List.length h) (by simp [Git.verifyBranch, Git.showToplevel])
  have hlist : Git.verifyBranch name ≠ Git.listWorktrees := by
    intro h
    exact absurd (congrArg List.length h) (by simp [Git.verifyBranch, Git.listWorktrees])
  have hname :
      Text.afterFront Worktree.branchPrefix ((Git.verifyBranch name).getD 4 []) = name := by
    show Text.afterFront Worktree.branchPrefix (Worktree.branchPrefix ++ name) = name
    rw [Text.afterFront, Text.dropFront?_append, Option.getD_some]
  simp only [referenceGit, Request.branch, hname, if_neg hroot, if_neg hlist, if_true]

theorem referenceGit_addition (repoRoot name : Text) (r : Repository) :
    referenceGit (.addition repoRoot name) r =
      if name ∈ r.branches ∨ r.isRegistered (Workspace.place r.root name) then (failed 128, r)
      else (succeeded [], r.withWorkspace name) := by
  have hroot : Request.additionArgv name ≠ Git.showToplevel :=
    (Request.toplevel_argv_ne .here name).symm
  have hlist : Request.additionArgv name ≠ Git.listWorktrees :=
    (Request.listing_argv_ne [] name).symm
  have hbranch : ∀ b, Request.additionArgv name ≠ Git.verifyBranch b := fun b =>
    (Request.branch_argv_ne [] b name).symm
  have hname : (Request.additionArgv name).getD 5 [] = name := rfl
  simp only [referenceGit, Request.addition, hname, if_neg hroot, if_neg hlist,
    if_neg (hbranch _), if_true]

theorem referenceGit_removal (repoRoot name : Text) (r : Repository) :
    referenceGit (.removal repoRoot name) r =
      if r.isRegistered (Workspace.place r.root name) then
        (succeeded [], r.withoutWorkspace name)
      else (failed 128, r) := by
  have hroot : Request.removalArgv name ≠ Git.showToplevel := by
    simp [Request.removalArgv, Git.showToplevel]
  have hlist : Request.removalArgv name ≠ Git.listWorktrees := by
    simp [Request.removalArgv, Git.listWorktrees]
  have hbranch : ∀ b, Request.removalArgv name ≠ Git.verifyBranch b := by
    intro b
    simp [Request.removalArgv, Git.verifyBranch]
  have hadd : ∀ other, Request.removalArgv name ≠ Request.additionArgv other := fun other =>
    Request.removal_argv_ne [] name other
  have hname : Text.afterFront (Text.ofString "workspaces/")
      ((Request.removalArgv name).getD 3 []) = name := by
    show Text.afterFront (Text.ofString "workspaces/") (Text.ofString "workspaces/" ++ name) = name
    rw [Text.afterFront, Text.dropFront?_append, Option.getD_some]
  simp only [referenceGit, Request.removal, hname, if_neg hroot, if_neg hlist,
    if_neg (hbranch _), if_neg (hadd _), if_true]

theorem referenceGit_keeper : Keeper referenceGit id := by
  constructor
  case unchanged =>
    intro r q hq
    cases hq with
    | toplevel cwd => simp [referenceGit_toplevel]
    | listing => simp [referenceGit_listing]
    | branch h => simp [referenceGit_branch]
  case toplevel =>
    intro r cwd
    simp [referenceGit_toplevel, succeeded, Outcome.ok]
  case listing =>
    intro r hr
    rw [referenceGit_listing]
    exact ⟨rfl, prints_printed hr⟩
  case branch =>
    intro r name _
    rw [referenceGit_branch]
    by_cases hm : name ∈ r.branches
    · simp [hm, succeeded, Outcome.ok]
    · simp [hm, failed, Outcome.ok]
  case addition =>
    intro r name _
    rw [referenceGit_addition, ← isRegistered_iff]
    by_cases hm : name ∈ r.branches ∨ r.isRegistered (Workspace.place r.root name) = true
    · rw [if_pos hm]
      simpa [failed, Outcome.ok, or_iff_not_imp_left] using hm
    · rw [if_neg hm]
      simpa [succeeded, Outcome.ok] using hm
  case added =>
    intro r name _ hok
    rw [referenceGit_addition] at hok ⊢
    by_cases hm : name ∈ r.branches ∨ r.isRegistered (Workspace.place r.root name) = true
    · rw [if_pos hm] at hok
      simp [failed, Outcome.ok] at hok
    · rw [if_neg hm]
      constructor
      · rfl
      · intro c
        simp [withWorkspace, or_comm]
      · intro b
        simp [withWorkspace, or_comm]
  case removal =>
    intro r name _
    rw [referenceGit_removal, ← isRegistered_iff]
    by_cases hm : r.isRegistered (Workspace.place r.root name) = true
    · simp [hm, succeeded, Outcome.ok]
    · simp [hm, failed, Outcome.ok]
  case removed =>
    intro r name _ hok
    rw [referenceGit_removal] at hok ⊢
    by_cases hm : r.isRegistered (Workspace.place r.root name) = true
    · rw [if_pos hm]
      exact ⟨rfl, fun c => by simp [withoutWorkspace], fun b => Iff.rfl⟩
    · rw [if_neg hm] at hok
      simp [failed, Outcome.ok] at hok
  case not_removed =>
    intro r name _ hno
    rw [referenceGit_removal] at hno ⊢
    by_cases hm : r.isRegistered (Workspace.place r.root name) = true
    · rw [if_pos hm] at hno
      simp [succeeded, Outcome.ok] at hno
    · rw [if_neg hm]

end Paddock
