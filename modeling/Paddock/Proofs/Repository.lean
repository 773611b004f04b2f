import Paddock.Proofs.Creation
import Paddock.Proofs.Sorting

/-!
# Repositories and their listings

A repository has a root, worktrees that are checked out somewhere, and branches. Its listing has a
stanza for each worktree. Read back, the listing gives the worktrees' own names and branches, so the
names in use are those of the repository and not an accident of how it is printed.
-/

namespace Paddock

set_option autoImplicit false

open Text (slash newline)

/-- A worktree of a repository: where it is, and the branch that is checked out in it. -/
structure Checkout where
  path : Text
  branch : Option Text
deriving DecidableEq, Repr

namespace Checkout

def branchKeyword : Text := "branch"

def detachedKeyword : Text := "detached"

def headLine (c : Checkout) : Text :=
  match c.branch with
  | some b => branchKeyword ++ Text.space :: (Worktree.branchPrefix ++ b)
  | none => detachedKeyword

end Checkout

namespace Worktree

def isHeadLine (line : Text) : Bool :=
  keyword line = Checkout.branchKeyword || keyword line = Checkout.detachedKeyword

/-- The stanza of a worktree: its path, and one line on what is checked out among others. -/
structure Stanza.Describes (s : Stanza) (c : Checkout) : Prop where
  path_eq : s.path = c.path
  lines : ∀ line ∈ s.attributes, isAttribute line = true ∧ newline ∉ line
  head : s.attributes.filter isHeadLine = [c.headLine]

theorem shortBranch_append (b : Text) : shortBranch (branchPrefix ++ b) = b := by
  rw [shortBranch, Text.dropFront?_append, Option.getD_some]

namespace Stanza

variable {s : Stanza} {c : Checkout}

theorem filter_keyword_eq (h : s.Describes c) {key : Text}
    (hkey : key = Checkout.branchKeyword ∨ key = Checkout.detachedKeyword) :
    s.attributes.filter (keyword · = key) = [c.headLine].filter (keyword · = key) := by
  rw [← h.head, List.filter_filter]
  apply List.filter_congr
  intro line _
  by_cases hline : keyword line = key
  · rcases hkey with rfl | rfl
    · simp [isHeadLine, hline]
    · simp [isHeadLine, hline]
  · simp [hline]

theorem has_detached_eq (h : s.Describes c) :
    s.isDetached = decide (keyword c.headLine = Checkout.detachedKeyword) := by
  have hfilter := filter_keyword_eq h (.inr rfl)
  by_cases hk : keyword c.headLine = Checkout.detachedKeyword
  · have hmem : c.headLine ∈ s.attributes.filter (keyword · = Checkout.detachedKeyword) := by
      rw [hfilter]
      simp [hk]
    rw [List.mem_filter] at hmem
    simp only [hk, decide_true]
    exact List.any_eq_true.mpr ⟨_, hmem⟩
  · simp only [hk, decide_false]
    rw [isDetached, has, List.any_eq_false]
    intro line hline hl
    have hmem : line ∈ s.attributes.filter (keyword · = Checkout.detachedKeyword) :=
      List.mem_filter.mpr ⟨hline, hl⟩
    rw [hfilter] at hmem
    simp [hk] at hmem

theorem branchName?_eq (h : s.Describes c)
    (hblank : ∀ b, c.branch = some b → ∀ g ∈ b, g.isBlank = false) :
    s.worktree.branchName? = c.branch := by
  have hdetached := has_detached_eq h
  have hfilter := filter_keyword_eq h (.inl rfl)
  cases hb : c.branch with
  | none =>
    have hline : c.headLine = Checkout.detachedKeyword := by simp [Checkout.headLine, hb]
    have hyes : s.isDetached = true := by
      rw [hdetached, hline]
      decide
    simp [branchName?, worktree, hyes]
  | some b =>
    have hline : c.headLine = Checkout.branchKeyword ++ Text.space :: (branchPrefix ++ b) := by
      simp [Checkout.headLine, hb]
    have hspace : Text.space ∉ Checkout.branchKeyword := by decide
    have hkey : keyword c.headLine = Checkout.branchKeyword := by rw [hline, keyword_append hspace]
    have hother : Checkout.branchKeyword ≠ Checkout.detachedKeyword := by decide
    have hprefix : ∀ g ∈ branchPrefix, g.isBlank = false := by decide
    have hvalue : value? c.headLine = some (branchPrefix ++ b) := by
      rw [hline]
      apply value?_append hspace
      · apply Text.isTrimmed_of_forall
        intro g hg
        rcases List.mem_append.mp hg with hg | hg
        · exact hprefix g hg
        · exact hblank b hb g hg
      · simp [branchPrefix, Text.ofString, Text.ofChars]
    have hlast : s.branch = some (branchPrefix ++ b) := by
      show ((s.attributes.filter (keyword · = Checkout.branchKeyword)).getLast?).bind value? = _
      rw [hfilter]
      simp [hkey, hvalue]
    simp [branchName?, worktree, hdetached, hkey, hother, hlast, shortBranch_append]

end Stanza

end Worktree

/-- A repository: its root, its worktrees and its branches. Neither order nor repetition means
anything. -/
structure Repository where
  root : Text
  checkouts : List Checkout
  branches : List Text
deriving DecidableEq, Repr

namespace Repository

open Worktree

variable {r : Repository} {x name : Text}

/-- What a listing of the repository looks like: a stanza for each worktree, and no others. -/
def Prints (r : Repository) (x : Text) : Prop :=
  ∃ ss : List Stanza, x = Text.ended (ss.flatMap Stanza.lines) ∧
    (∀ s ∈ ss, ∃ c ∈ r.checkouts, s.Describes c) ∧ ∀ c ∈ r.checkouts, ∃ s ∈ ss, s.Describes c

/-- Paths that stand on a line, and branches without blanks. -/
structure Printable (r : Repository) : Prop where
  paths : ∀ c ∈ r.checkouts, newline ∉ c.path
  branches : ∀ c ∈ r.checkouts, ∀ b, c.branch = some b → ∀ g ∈ b, g.isBlank = false

theorem ofPorcelain_of_prints (hr : r.Printable) (h : r.Prints x) :
    ∃ ss : List Stanza, ofPorcelain x = ss.map Stanza.worktree ∧
      (∀ s ∈ ss, ∃ c ∈ r.checkouts, s.Describes c) ∧
      ∀ c ∈ r.checkouts, ∃ s ∈ ss, s.Describes c := by
  obtain ⟨ss, rfl, hsound, hcomplete⟩ := h
  have hlines : ∀ line ∈ ss.flatMap Stanza.lines, newline ∉ line := by
    intro line hline
    obtain ⟨s, hs, hline⟩ := List.mem_flatMap.mp hline
    obtain ⟨c, hc, hdescribes⟩ := hsound s hs
    have hkeyword : newline ∉ pathKeyword := by decide
    simp only [Stanza.lines, List.mem_append, List.mem_cons, List.not_mem_nil, or_false] at hline
    rcases hline with (rfl | hattribute) | rfl
    · rw [List.mem_append, hdescribes.path_eq, not_or]
      exact ⟨hkeyword, hr.paths c hc⟩
    · exact (hdescribes.lines line hattribute).2
    · exact List.not_mem_nil
  have hattributes : ∀ s ∈ ss, ∀ line ∈ s.attributes, isAttribute line = true := by
    intro s hs line hline
    obtain ⟨c, _, hdescribes⟩ := hsound s hs
    exact (hdescribes.lines line hline).1
  refine ⟨ss, ?_, hsound, hcomplete⟩
  rw [ofPorcelain_eq, Text.lines_ended hlines, stanzas_flatMap_lines hattributes]

theorem mem_usedNames_iff_of_prints (hr : r.Printable) (h : r.Prints x) :
    name ∈ usedNames (ofPorcelain x) r.root ↔ ∃ c ∈ r.checkouts,
      Workspace.nameOfPath? r.root c.path = some name ∨ c.branch = some name := by
  obtain ⟨ss, hread, hsound, hcomplete⟩ := ofPorcelain_of_prints hr h
  have hone : ∀ (s : Stanza) (c : Checkout), c ∈ r.checkouts → s.Describes c →
      (name ∈ takenBy r.root s.worktree ↔
        Workspace.nameOfPath? r.root c.path = some name ∨ c.branch = some name) := by
    intro s c hc hdescribes
    have hpath : s.worktree.path = c.path := hdescribes.path_eq
    have hbranch := Stanza.branchName?_eq hdescribes (hr.branches c hc)
    simp [takenBy, hpath, hbranch, Option.mem_toList]
  rw [usedNames, List.mem_flatMap, hread]
  constructor
  · intro h
    obtain ⟨worktree, hworktree, hname⟩ := h
    obtain ⟨s, hs, rfl⟩ := List.mem_map.mp hworktree
    obtain ⟨c, hc, hdescribes⟩ := hsound s hs
    exact ⟨c, hc, (hone s c hc hdescribes).mp hname⟩
  · intro h
    obtain ⟨c, hc, hname⟩ := h
    obtain ⟨s, hs, hdescribes⟩ := hcomplete c hc
    exact ⟨s.worktree, List.mem_map_of_mem hs, (hone s c hc hdescribes).mpr hname⟩

theorem mem_directoryNames_iff_of_prints (hr : r.Printable) (h : r.Prints x) :
    name ∈ directoryNames (ofPorcelain x) r.root ↔ ∃ c ∈ r.checkouts,
      Workspace.nameOfPath? r.root c.path = some name := by
  obtain ⟨ss, hread, hsound, hcomplete⟩ := ofPorcelain_of_prints hr h
  rw [directoryNames, List.mem_filterMap, hread]
  constructor
  · intro h
    obtain ⟨worktree, hworktree, hname⟩ := h
    obtain ⟨s, hs, rfl⟩ := List.mem_map.mp hworktree
    obtain ⟨c, hc, hdescribes⟩ := hsound s hs
    have hpath : s.worktree.path = c.path := hdescribes.path_eq
    exact ⟨c, hc, hpath ▸ hname⟩
  · intro h
    obtain ⟨c, hc, hname⟩ := h
    obtain ⟨s, hs, hdescribes⟩ := hcomplete c hc
    have hpath : s.worktree.path = c.path := hdescribes.path_eq
    exact ⟨s.worktree, List.mem_map_of_mem hs, hpath ▸ hname⟩

end Repository

end Paddock
