import Paddock.Proofs.Ledger

/-!
# Repositories that have grown

The repository that a ledger stands for has the worktrees and branches it had at first, a worktree
for each workspace that is there, and a branch for each name that was given. Its worktrees are told
apart by their places: the ones of old lie outside the directory of the workspaces.
-/

namespace Paddock

set_option autoImplicit false

open Text (slash newline)

namespace Repository

/-- The repository has grown from the first one as the ledger says. -/
structure Grown (first now : Repository) (l : Ledger) : Prop where
  root_eq : now.root = first.root
  checkouts : ∀ c, c ∈ now.checkouts ↔
    c ∈ first.checkouts ∨ ∃ name ∈ l.live, c = first.workspace name
  branches : ∀ b, b ∈ now.branches ↔ b ∈ first.branches ∨ b ∈ l.made

theorem grown_refl (r : Repository) : r.Grown r {} := by
  constructor <;> simp

theorem place_inj {repoRoot name other : Text} :
    Workspace.place repoRoot name = Workspace.place repoRoot other ↔ name = other := by
  rw [Workspace.place, Workspace.place, List.append_cancel_left_eq]

theorem mem_checkedOut_iff {r : Repository} {name : Text} :
    name ∈ r.checkedOut ↔ ∃ c ∈ r.checkouts, c.branch = some name := by
  rw [checkedOut, List.mem_filterMap]

variable {first now : Repository} {l : Ledger} {name : Text}

section Fit

variable (hfit : first.Fit)
include hfit

theorem Fit.not_registered (name : Text) :
    ¬ first.Registered (Workspace.place first.root name) := by
  intro h
  obtain ⟨c, hc, hpath⟩ := h
  apply hfit.outside c hc
  rw [hpath, Workspace.place]
  exact List.prefix_append _ _

theorem Fit.nameOfPath?_of_old {c : Checkout} (hc : c ∈ first.checkouts) :
    Workspace.nameOfPath? first.root c.path = none := by
  obtain ⟨habs, htidy⟩ := hfit.places c hc
  exact Workspace.nameOfPath?_eq_none hfit.tidy hfit.root_ne_nil htidy habs (hfit.outside c hc)

theorem Fit.nameOfPath?_of_workspace (h : Workspace.isValidName name = true) :
    Workspace.nameOfPath? first.root (first.workspace name).path = some name :=
  Workspace.nameOfPath?_place hfit.tidy hfit.root_ne_nil hfit.absolute h

theorem Fit.newline_not_mem_place (h : Workspace.isValidName name = true) :
    newline ∉ Workspace.place first.root name := by
  have hmid : newline ∉ Text.ofString "/workspaces/" := by decide
  have hname : newline ∉ name := Workspace.not_mem_of_isValidName h rfl
  simp [Workspace.place, hfit.line, hmid, hname]

end Fit

theorem isBlank_of_isValidName (h : Workspace.isValidName name = true) {g : Glyph} (hg : g ∈ name) :
    g.isBlank = false := by
  cases g with
  | raw low => rfl
  | char c =>
    have hglyph := Workspace.isNameGlyph_of_mem h hg
    simp only [Workspace.isNameGlyph, Workspace.isLetter, Bool.or_eq_true, Bool.and_eq_true,
      decide_eq_true_eq, beq_iff_eq, Glyph.char.injEq] at hglyph
    rcases hglyph with ⟨ha, hz⟩ | rfl
    · have hlow : 97 ≤ c.toNat := ha
      have hhigh : c.toNat ≤ 122 := hz
      simp only [Glyph.isBlank, Glyph.blankSpans, List.any_eq_false, List.mem_cons,
        List.not_mem_nil, or_false, Bool.and_eq_true, decide_eq_true_eq]
      rintro s (rfl | rfl | rfl | rfl | rfl | rfl | rfl | rfl | rfl | rfl)
      all_goals omega
    · decide

namespace Grown

variable (hgrown : first.Grown now l) (hfit : first.Fit) (hsound : l.Sound first)
include hgrown hfit hsound

theorem printable : now.Printable := by
  constructor
  case paths =>
    intro c hc
    rcases (hgrown.checkouts c).mp hc with hold | ⟨name, hlive, rfl⟩
    · exact hfit.paths c hold
    · exact hfit.newline_not_mem_place (hsound.valid name (hsound.live_made name hlive))
  case branches =>
    intro c hc b hb g hg
    rcases (hgrown.checkouts c).mp hc with hold | ⟨name, hlive, rfl⟩
    · exact hfit.branches c hold b hb g hg
    · obtain rfl := Option.some.inj hb
      exact isBlank_of_isValidName (hsound.valid name (hsound.live_made name hlive)) hg

theorem exists_place_iff (name : Text) : (∃ c ∈ now.checkouts,
    Workspace.nameOfPath? now.root c.path = some name) ↔ name ∈ l.live := by
  rw [hgrown.root_eq]
  constructor
  · rintro ⟨c, hc, hname⟩
    rcases (hgrown.checkouts c).mp hc with hold | ⟨other, hlive, rfl⟩
    · rw [hfit.nameOfPath?_of_old hold] at hname
      exact absurd hname (by simp)
    · have hvalid := hsound.valid other (hsound.live_made other hlive)
      rw [hfit.nameOfPath?_of_workspace hvalid] at hname
      exact Option.some.inj hname ▸ hlive
  · intro hlive
    have hvalid := hsound.valid name (hsound.live_made name hlive)
    exact ⟨first.workspace name, (hgrown.checkouts _).mpr (.inr ⟨name, hlive, rfl⟩),
      hfit.nameOfPath?_of_workspace hvalid⟩

omit hfit hsound in
theorem exists_branch_iff (name : Text) : (∃ c ∈ now.checkouts, c.branch = some name) ↔
    name ∈ l.live ∨ name ∈ first.checkedOut := by
  constructor
  · rintro ⟨c, hc, hname⟩
    rcases (hgrown.checkouts c).mp hc with hold | ⟨other, hlive, rfl⟩
    · exact .inr (mem_checkedOut_iff.mpr ⟨c, hold, hname⟩)
    · exact .inl (Option.some.inj hname ▸ hlive)
  · rintro (hlive | hold)
    · exact ⟨first.workspace name, (hgrown.checkouts _).mpr (.inr ⟨name, hlive, rfl⟩), rfl⟩
    · obtain ⟨c, hc, hname⟩ := mem_checkedOut_iff.mp hold
      exact ⟨c, (hgrown.checkouts c).mpr (.inl hc), hname⟩

/-- The names that a listing shows to be in use are those that the ledger takes for it. -/
theorem in_use_iff (name : Text) : (∃ c ∈ now.checkouts,
    Workspace.nameOfPath? now.root c.path = some name ∨ c.branch = some name) ↔
    name ∈ l.taken first := by
  have hplace := hgrown.exists_place_iff hfit hsound name
  have hbranch := hgrown.exists_branch_iff name
  rw [Ledger.taken, List.mem_append]
  constructor
  · rintro ⟨c, hc, hname | hname⟩
    · exact .inl (hplace.mp ⟨c, hc, hname⟩)
    · exact hbranch.mp ⟨c, hc, hname⟩
  · intro h
    obtain ⟨c, hc, hname⟩ := hbranch.mpr h
    exact ⟨c, hc, .inr hname⟩

omit hsound in
theorem registered_iff (name : Text) :
    now.Registered (Workspace.place now.root name) ↔ name ∈ l.live := by
  rw [hgrown.root_eq]
  constructor
  · rintro ⟨c, hc, hpath⟩
    rcases (hgrown.checkouts c).mp hc with hold | ⟨other, hlive, rfl⟩
    · exact absurd ⟨c, hold, hpath⟩ (hfit.not_registered name)
    · exact place_inj.mp hpath ▸ hlive
  · intro hlive
    exact ⟨first.workspace name, (hgrown.checkouts _).mpr (.inr ⟨name, hlive, rfl⟩), rfl⟩

end Grown

section Change

variable {later : Repository} (hgrown : first.Grown now l)
include hgrown

theorem Grown.added (h : now.Added later name) :
    first.Grown later (l.record (.created name)) := by
  have hworkspace : now.workspace name = first.workspace name := by
    rw [workspace, workspace, hgrown.root_eq]
  constructor
  case root_eq => exact h.root_eq.trans hgrown.root_eq
  case checkouts =>
    intro c
    rw [h.checkouts, hgrown.checkouts, hworkspace]
    simp only [Ledger.record, List.mem_cons, exists_eq_or_imp]
    exact or_left_comm
  case branches =>
    intro b
    rw [h.branches, hgrown.branches]
    simp only [Ledger.record, List.mem_cons]
    exact or_left_comm

theorem Grown.removed (hfit : first.Fit) (h : now.Removed later name) :
    first.Grown later (l.record (.removed name)) := by
  constructor
  case root_eq => exact h.root_eq.trans hgrown.root_eq
  case checkouts =>
    intro c
    rw [h.checkouts, hgrown.checkouts, hgrown.root_eq]
    constructor
    · rintro ⟨hold | ⟨other, hlive, rfl⟩, hpath⟩
      · exact Or.inl hold
      · have hne : other ≠ name := fun he => hpath (place_inj.mpr he)
        exact Or.inr ⟨other, List.mem_filter.mpr ⟨hlive, by simpa using hne⟩, rfl⟩
    · intro h
      rcases h with hold | ⟨other, hlive, rfl⟩
      · exact ⟨Or.inl hold, fun hpath => hfit.not_registered name ⟨c, hold, hpath⟩⟩
      · obtain ⟨hlive, hne⟩ := List.mem_filter.mp hlive
        refine ⟨Or.inr ⟨other, hlive, rfl⟩, ?_⟩
        intro hpath
        have he : other = name := place_inj.mp hpath
        simp [he] at hne
  case branches =>
    intro b
    rw [h.branches, hgrown.branches]
    rfl

end Change

end Repository

end Paddock
