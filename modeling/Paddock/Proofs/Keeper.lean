import Paddock.Proofs.Replies
import Paddock.Proofs.Repository

/-!
# A git that keeps a repository

What is taken for granted about git: which repository it keeps, what it says of it, and when adding
and removing a worktree succeed and what they change. From this it follows what a command finds out
before it asks for a change.
-/

namespace Paddock

set_option autoImplicit false

open Text (slash newline)

namespace Repository

def workspace (r : Repository) (name : Text) : Checkout :=
  ⟨Workspace.place r.root name, some name⟩

def Registered (r : Repository) (path : Text) : Prop := ∃ c ∈ r.checkouts, c.path = path

/-- The repository with one workspace more, on a new branch. -/
structure Added (before after : Repository) (name : Text) : Prop where
  root_eq : after.root = before.root
  checkouts : ∀ c, c ∈ after.checkouts ↔ c = before.workspace name ∨ c ∈ before.checkouts
  branches : ∀ b, b ∈ after.branches ↔ b = name ∨ b ∈ before.branches

/-- The repository without the worktree of a workspace; its branch stays. -/
structure Removed (before after : Repository) (name : Text) : Prop where
  root_eq : after.root = before.root
  checkouts : ∀ c, c ∈ after.checkouts ↔
    c ∈ before.checkouts ∧ c.path ≠ Workspace.place before.root name
  branches : ∀ b, b ∈ after.branches ↔ b ∈ before.branches

/-- A question about the repository. -/
inductive Inquiry (r : Repository) : Request → Prop where
  | toplevel (cwd : Place) : Inquiry r (.toplevel cwd)
  | listing : Inquiry r (.listing r.root)
  | branch {name : Text} (h : Workspace.isValidName name = true) : Inquiry r (.branch r.root name)

end Repository

open Repository

/-- A git that keeps a repository, as far as workspaces need it. -/
structure Keeper {σ : Type} (runner : Runner σ) (repo : σ → Repository) : Prop where
  unchanged : ∀ g q, Inquiry (repo g) q → repo (runner q g).2 = repo g
  toplevel : ∀ g cwd, (runner (.toplevel cwd) g).1.ok = true ∧
    (runner (.toplevel cwd) g).1.stdout = (repo g).root ++ [newline]
  listing : ∀ g, (repo g).Printable → (runner (.listing (repo g).root) g).1.ok = true ∧
    (repo g).Prints (runner (.listing (repo g).root) g).1.stdout
  branch : ∀ g name, Workspace.isValidName name = true →
    ((runner (.branch (repo g).root name) g).1.ok = true ↔ name ∈ (repo g).branches)
  addition : ∀ g name, Workspace.isValidName name = true →
    ((runner (.addition (repo g).root name) g).1.ok = true ↔
      name ∉ (repo g).branches ∧ ¬ (repo g).Registered (Workspace.place (repo g).root name))
  added : ∀ g name, Workspace.isValidName name = true →
    (runner (.addition (repo g).root name) g).1.ok = true →
    (repo g).Added (repo (runner (.addition (repo g).root name) g).2) name
  removal : ∀ g name, Workspace.isValidName name = true →
    ((runner (.removal (repo g).root name) g).1.ok = true ↔
      (repo g).Registered (Workspace.place (repo g).root name))
  removed : ∀ g name, Workspace.isValidName name = true →
    (runner (.removal (repo g).root name) g).1.ok = true →
    (repo g).Removed (repo (runner (.removal (repo g).root name) g).2) name
  not_removed : ∀ g name, Workspace.isValidName name = true →
    (runner (.removal (repo g).root name) g).1.ok = false →
    repo (runner (.removal (repo g).root name) g).2 = repo g

namespace Keeper

variable {σ : Type} {runner : Runner σ} {repo : σ → Repository} (hgit : Keeper runner repo)
  {r : Repository} {cwd : Place} {name : Text}
include hgit

theorem repo_after {g : σ} {qs : List Request} (h : ∀ q ∈ qs, Inquiry (repo g) q) :
    repo (runner.after g qs) = repo g := by
  induction qs generalizing g with
  | nil => rfl
  | cons q qs ih =>
    have hfirst := hgit.unchanged g q (h q List.mem_cons_self)
    have hrest : ∀ q' ∈ qs, Inquiry (repo (runner q g).2) q' := by
      intro q' hq'
      rw [hfirst]
      exact h q' (List.mem_cons_of_mem q hq')
    exact (ih hrest).trans hfirst

theorem resolves {w : World σ} (hrepo : repo w.git = r) (hne : r.root ≠ []) :
    Git.Resolves (runner.answer w.git [] (.toplevel cwd)) r.root := by
  obtain ⟨hok, hout⟩ := hgit.toplevel w.git cwd
  rw [hrepo] at hout
  exact ⟨hok, hne, Or.inl hout⟩

theorem repo_after_toplevel {w : World σ} (hrepo : repo w.git = r) :
    repo (runner.after w.git [.toplevel cwd]) = r := by
  rw [hgit.repo_after, hrepo]
  simp [Inquiry.toplevel]

theorem prints {w : World σ} (hrepo : repo w.git = r) (hr : r.Printable) :
    r.Prints (Git.listed (runner.answer w.git [.toplevel cwd] (.listing r.root))) := by
  have hafter : repo (runner.after w.git [.toplevel cwd]) = r := hgit.repo_after_toplevel hrepo
  obtain ⟨hok, hout⟩ := hgit.listing (runner.after w.git [.toplevel cwd]) (by rwa [hafter])
  rw [hafter] at hok hout
  rw [Git.listed, Runner.answer, if_pos hok]
  exact hout

open Command

variable {w : World σ} (hrepo : repo w.git = r)
include hrepo

theorem inUse_iff (hr : r.Printable) : InUse runner cwd w r.root name ↔ ∃ c ∈ r.checkouts,
    Workspace.nameOfPath? r.root c.path = some name ∨ c.branch = some name := by
  rw [← mem_usedThere_iff]
  exact mem_usedNames_iff_of_prints hr (hgit.prints hrepo hr)

theorem repo_after_search : repo (runner.after w.git [.toplevel cwd, .listing r.root]) = r := by
  rw [hgit.repo_after, hrepo]
  simp [hrepo, Inquiry.toplevel, Inquiry.listing]

theorem repo_after_check (hvalid : Workspace.isValidName name = true) :
    repo (runner.after w.git [.toplevel cwd, .listing r.root, .branch r.root name]) = r := by
  rw [hgit.repo_after, hrepo]
  simp [hrepo, Inquiry.toplevel, Inquiry.listing, Inquiry.branch hvalid]

theorem branchAnswer_ok_iff (hvalid : Workspace.isValidName name = true) :
    (branchAnswer runner cwd w r.root name).ok = true ↔ name ∈ r.branches := by
  have h := hgit.branch (runner.after w.git [.toplevel cwd, .listing r.root]) name hvalid
  rwa [hgit.repo_after_search hrepo] at h

theorem additionAnswer_ok_iff (hvalid : Workspace.isValidName name = true) :
    (additionAnswer runner cwd w r.root name).ok = true ↔
      name ∉ r.branches ∧ ¬ r.Registered (Workspace.place r.root name) := by
  have h := hgit.addition
    (runner.after w.git [.toplevel cwd, .listing r.root, .branch r.root name]) name hvalid
  rwa [hgit.repo_after_check hrepo hvalid] at h

theorem added_of_creation (hvalid : Workspace.isValidName name = true)
    (hok : (additionAnswer runner cwd w r.root name).ok = true) :
    r.Added (repo (runner.after w.git (creation cwd r.root name))) name := by
  have h := hgit.added
    (runner.after w.git [.toplevel cwd, .listing r.root, .branch r.root name]) name hvalid
  rw [hgit.repo_after_check hrepo hvalid] at h
  exact h hok

theorem repo_after_bar (hne : r.root ≠ []) {pool args : List Text} {halt : Halt}
    {made : List Request} (h : Bar runner pool args cwd w halt made) :
    repo (runner.after w.git made) = r := by
  have hresolves : Git.Resolves (runner.answer w.git [] (.toplevel cwd)) r.root :=
    hgit.resolves hrepo hne
  cases h with
  | noRepository _ => exact hgit.repo_after_toplevel hrepo
  | unwritable _ _ => exact hgit.repo_after_toplevel hrepo
  | unnamed hready _ =>
    rw [hresolves.unique hready.resolves]
    exact hgit.repo_after_search hrepo
  | invalid hready _ _ =>
    rw [hresolves.unique hready.resolves]
    exact hgit.repo_after_search hrepo
  | inUse hready _ _ _ =>
    rw [hresolves.unique hready.resolves]
    exact hgit.repo_after_search hrepo
  | branched hready _ hvalid _ _ =>
    rw [hresolves.unique hready.resolves]
    exact hgit.repo_after_check hrepo hvalid

theorem removalAnswer_ok_iff (hvalid : Workspace.isValidName name = true) :
    (removalAnswer runner cwd w r.root name).ok = true ↔
      r.Registered (Workspace.place r.root name) := by
  have h := hgit.removal (runner.after w.git [.toplevel cwd]) name hvalid
  rwa [hgit.repo_after_toplevel hrepo] at h

theorem removed_of_removal (hvalid : Workspace.isValidName name = true)
    (hok : (removalAnswer runner cwd w r.root name).ok = true) :
    r.Removed (repo (runner.after w.git [.toplevel cwd, .removal r.root name])) name := by
  have h := hgit.removed (runner.after w.git [.toplevel cwd]) name hvalid
  rw [hgit.repo_after_toplevel hrepo] at h
  exact h hok

theorem repo_after_refused_removal (hvalid : Workspace.isValidName name = true)
    (hno : (removalAnswer runner cwd w r.root name).ok = false) :
    repo (runner.after w.git [.toplevel cwd, .removal r.root name]) = r := by
  have h := hgit.not_removed (runner.after w.git [.toplevel cwd]) name hvalid
  rw [hgit.repo_after_toplevel hrepo] at h
  exact h hno

end Keeper

end Paddock
