import Paddock.Proofs.Components
import Paddock.Proofs.Confinement

/-!
# Absolute paths

A joined path starts at the root exactly if its first part that is not empty does, unless that part
is two or more separators and nothing else: such a part is lost. So the workspaces of a repository
whose path starts at the root lie where they lie, whatever the working directory is, but for a path
of several separators, whose workspaces are looked for in the working directory.
-/

namespace Paddock

set_option autoImplicit false

open Text (slash)

namespace Path

variable {x y joined : Text} {parts : List Text} {g : Glyph}

def Opens (x : Text) : Prop := ∃ g rest, x = g :: rest ∧ isSeparator g = true

/-- Two or more separators and nothing else. -/
structure IsRun (x : Text) : Prop where
  long : 2 ≤ x.length
  separators : ∀ g ∈ x, isSeparator g = true

theorem opens_of_head? (h : x.head? = some slash) : Opens x := by
  obtain ⟨rest, rfl⟩ := List.head?_eq_some_iff.mp h
  exact ⟨slash, rest, rfl, isSeparator_slash⟩

theorem head?_slashed_iff : (slashed x).head? = some slash ↔ Opens x := by
  cases x with
  | nil => simp [slashed, Opens]
  | cons g x =>
    by_cases hg : isSeparator g = true
    · rw [slashed_cons_of_separator hg]
      exact iff_of_true rfl ⟨g, x, rfl, hg⟩
    · rw [slashed_cons_of_solid (Bool.eq_false_iff.mpr hg), List.head?_cons, Option.some.injEq]
      constructor
      · rintro rfl
        exact absurd isSeparator_slash hg
      · rintro ⟨a, rest, heq, ha⟩
        exact absurd ((List.cons.inj heq).1 ▸ ha) hg

theorem dropTrailingSlashes_eq_nil_iff : dropTrailingSlashes x = [] ↔ ∀ g ∈ x, g = slash := by
  simp [dropTrailingSlashes, List.dropWhile_eq_nil_iff, isSlash]

theorem separators_of_slashed (h : ∀ g ∈ slashed x, g = slash) : ∀ g ∈ x, isSeparator g = true := by
  intro g hg
  have hslash := h _ (List.mem_map_of_mem hg)
  by_cases hb : g = .char '\\'
  · exact isSeparator_iff.mpr (.inr hb)
  · rw [if_neg hb] at hslash
    exact isSeparator_iff.mpr (.inl hslash)

theorem normalize_eq_nil_iff : normalize x = [] ↔ x = [] ∨ IsRun x := by
  unfold normalize
  split
  · rename_i hlone
    have hlength : x.length = 1 := by simpa [slashed] using congrArg List.length hlone
    refine iff_of_false (List.cons_ne_nil _ _) ?_
    rintro (rfl | hrun)
    · exact absurd hlength (by simp)
    · exact absurd hrun.long (by omega)
  · rename_i hlone
    rw [dropTrailingSlashes_eq_nil_iff]
    constructor
    · intro hall
      have hseparators := separators_of_slashed hall
      cases x with
      | nil => exact .inl rfl
      | cons g x =>
        cases x with
        | nil =>
          rw [slashed_cons_of_separator (hseparators g List.mem_cons_self)] at hlone
          exact absurd rfl hlone
        | cons b rest => exact .inr ⟨by simp, hseparators⟩
    · rintro (rfl | hrun)
      · simp [slashed]
      · exact eq_slash_of_mem_slashed hrun.separators

theorem head?_normalize_iff : (normalize x).head? = some slash ↔ Opens x ∧ ¬ IsRun x := by
  by_cases hnil : normalize x = []
  · rw [hnil]
    refine iff_of_false nofun ?_
    rintro ⟨⟨g, rest, rfl, -⟩, hrun⟩
    rcases normalize_eq_nil_iff.mp hnil with hx | hx
    · exact absurd hx (List.cons_ne_nil g rest)
    · exact hrun hx
  · have hrun : ¬ IsRun x := fun hrun => hnil (normalize_eq_nil_iff.mpr (.inr hrun))
    have hhead : (normalize x).head? = (slashed x).head? := by
      unfold normalize at hnil ⊢
      split
      · rename_i hlone
        rw [hlone]
      · rename_i hlone
        rw [if_neg hlone] at hnil
        obtain ⟨ending, hending⟩ := dropTrailingSlashes_prefix (slashed x)
        rw [← hending, List.head?_append_of_ne_nil _ hnil, hending]
    rw [hhead, head?_slashed_iff, and_iff_left hrun]

theorem backslash_not_mem_normalize (x : Text) : Glyph.char '\\' ∉ normalize x := by
  unfold normalize
  split
  · decide
  · exact (tidy_dropTrailingSlashes x).no_backslash

/-- A path up to where its next segment goes. -/
def opened (joined : Text) : Text :=
  if joined = [] ∨ joined = [slash] then joined else joined ++ [slash]

theorem backslash_not_mem_opened (h : Glyph.char '\\' ∉ joined) :
    Glyph.char '\\' ∉ opened joined := by
  unfold opened
  split
  · exact h
  · rw [List.mem_append, not_or]
    exact ⟨h, by decide⟩

theorem attach_eq_opened (h : dropLeadingSlashes (normalize x) ≠ []) (joined : Text) :
    attach joined x = opened joined ++ dropLeadingSlashes (normalize x) := by
  unfold attach opened
  simp only [if_neg h]
  split_ifs <;> simp_all

theorem head?_dropLeadingSlashes (x : Text) : (dropLeadingSlashes x).head? ≠ some slash := by
  intro h
  have hkept := List.head?_dropWhile_not isSlash x
  rw [show x.dropWhile isSlash = dropLeadingSlashes x from rfl, h] at hkept
  exact Bool.noConfusion hkept

theorem head?_attach_iff (joined part : Text) :
    (attach joined part).head? = some slash ↔ joined.head? = some slash := by
  unfold attach
  simp only []
  split
  · rfl
  split
  · rename_i hjoined
    rw [hjoined]
    exact iff_of_false (head?_dropLeadingSlashes _) nofun
  split
  · rename_i hjoined
    rw [hjoined]
    rfl
  · rename_i hjoined _
    rw [List.head?_append_of_ne_nil _ hjoined]

theorem head?_foldl_attach_iff (parts : List Text) (joined : Text) :
    (parts.foldl attach joined).head? = some slash ↔ joined.head? = some slash := by
  induction parts generalizing joined with
  | nil => rfl
  | cons part parts ih => rw [List.foldl_cons, ih, head?_attach_iff]

theorem head?_join_iff : (join parts).head? = some slash ↔
    ∃ first, parts.find? (· ≠ []) = some first ∧ Opens first ∧ ¬ IsRun first := by
  rw [← List.head?_filter]
  unfold join
  cases parts.filter (· ≠ []) with
  | nil => simp
  | cons first rest => simp [head?_foldl_attach_iff, head?_normalize_iff]

end Path

namespace Place

theorem isAbsolute_ofText {x : Text} (h : x.head? = some slash) : (ofText x).isAbsolute = true :=
  bne_iff_ne.mpr (leadingSlashes_ne_zero h)

end Place

namespace FileTree

variable {tree : FileTree} {p : Place}

theorem start_eq_of_isAbsolute (h : p.isAbsolute = true) (cwd other : Address) :
    start cwd p = start other p := by
  rw [start, start, if_pos h, if_pos h]

theorem ensureAt_eq_of_isAbsolute (h : p.isAbsolute = true) (cwd other : Address) :
    ensureAt tree cwd p = ensureAt tree other p := by
  rw [ensureAt, ensureAt, start_eq_of_isAbsolute h cwd other]

theorem truncate_eq_of_isAbsolute (h : p.isAbsolute = true) (cwd other : Address) :
    truncate tree cwd p = truncate tree other p := by
  rw [truncate, truncate, start_eq_of_isAbsolute h cwd other]

theorem ensureFrom_eq_of_leading {leading : Nat} (h : leading ≠ 0) (cwd other : Address)
    (room : Nat) (inner : List Text) :
    ensureFrom tree cwd leading room inner = ensureFrom tree other leading room inner := by
  -- by recursion on the missing directories, all of them at absolute places
  have hat : ∀ parts, ensureAt tree cwd ⟨leading, parts⟩ = ensureAt tree other ⟨leading, parts⟩ :=
    fun parts => ensureAt_eq_of_isAbsolute (bne_iff_ne.mpr h) cwd other
  induction inner generalizing room with
  | nil => rw [ensureFrom_nil, ensureFrom_nil, hat]
  | cons part above ih =>
    unfold ensureFrom
    simp only [hat]
    cases ensureAt tree other ⟨leading, (part :: above).reverse⟩ with
    | ok made => rfl
    | error r =>
      cases r with
      | noEntry =>
        cases room with
        | zero => rfl
        | succ room => simp only [ih room]
      | _ => rfl

theorem ensureDirectory_eq_of_isAbsolute (h : p.isAbsolute = true) (cwd other : Address)
    (room : Nat) : ensureDirectory tree cwd p room = ensureDirectory tree other p room :=
  ensureFrom_eq_of_leading (bne_iff_ne.mp h) cwd other _ _

end FileTree

namespace Workspace

open Paddock.Path

variable {repoRoot : Text}

/-- The workspaces of the repository lie where they lie, whatever the working directory is. -/
structure Anchored (repoRoot : Text) : Prop where
  root : (root repoRoot).head? = some slash
  marker : (marker repoRoot).isAbsolute = true
  prepared : ∀ tree cwd other room,
    prepare tree cwd repoRoot room = prepare tree other repoRoot room

theorem root_eq_opened (repoRoot : Text) :
    root repoRoot = opened (Path.normalize repoRoot) ++ directoryName := by
  by_cases hne : repoRoot = []
  · rw [hne]
    decide
  · have hname : directoryName ≠ [] := by decide
    have hsegment : dropLeadingSlashes (Path.normalize directoryName) = directoryName := by decide
    have hattach := @attach_eq_opened directoryName (hsegment ▸ hname)
    simp [root, join, hne, hname, hattach, hsegment]

theorem letter_mem_root (repoRoot : Text) : Glyph.char 'w' ∈ root repoRoot := by
  rw [root_eq_opened]
  exact List.mem_append_right _ (by decide)

theorem head?_root_iff (h : Opens repoRoot) :
    (root repoRoot).head? = some slash ↔ ¬ IsRun repoRoot := by
  have hfirst : [repoRoot, directoryName].find? (· ≠ []) = some repoRoot := by
    obtain ⟨g, rest, rfl, -⟩ := h
    simp
  rw [root, head?_join_iff, hfirst]
  simp [h]

theorem not_isRun_root (repoRoot : Text) : ¬ IsRun (root repoRoot) := fun hrun =>
  nomatch hrun.separators _ (letter_mem_root repoRoot)

theorem isAbsolute_marker (hroot : (root repoRoot).head? = some slash) :
    (marker repoRoot).isAbsolute = true := by
  have hfirst : [root repoRoot, markerName].find? (· ≠ []) = some (root repoRoot) := by
    obtain ⟨rest, hrest⟩ := List.head?_eq_some_iff.mp hroot
    simp [hrest]
  apply Place.isAbsolute_ofText
  rw [head?_join_iff]
  exact ⟨_, hfirst, opens_of_head? hroot, not_isRun_root repoRoot⟩

theorem prepare_eq_of_isAbsolute (h : (marker repoRoot).isAbsolute = true) (tree : FileTree)
    (cwd other : Address) (room : Nat) :
    prepare tree cwd repoRoot room = prepare tree other repoRoot room := by
  have hparent : (marker repoRoot).parent.isAbsolute = true := h
  have htruncate := fun made : FileTree =>
    @FileTree.truncate_eq_of_isAbsolute made _ h cwd other
  simp only [prepare, FileTree.ensureDirectory_eq_of_isAbsolute hparent cwd other room, htruncate]

theorem anchored_iff (h : Opens repoRoot) : Anchored repoRoot ↔ ¬ IsRun repoRoot := by
  constructor
  · intro hanchored
    exact (head?_root_iff h).mp hanchored.root
  · intro hrun
    have hroot := (head?_root_iff h).mpr hrun
    have hmarker := isAbsolute_marker hroot
    exact ⟨hroot, hmarker, prepare_eq_of_isAbsolute hmarker⟩

/-- A joined path starts at the root if and only if its first part that is not empty opens with a
separator and is no run of several. -/
theorem join_keeps_root (parts : List Text) (repoRoot : Text) (h : Opens repoRoot) :
    ((join parts).head? = some slash ↔
        ∃ first, parts.find? (· ≠ []) = some first ∧ Opens first ∧ ¬ IsRun first) ∧
      (Anchored repoRoot ↔ ¬ IsRun repoRoot) :=
  ⟨head?_join_iff, anchored_iff h⟩

theorem join_keeps_root_mixed : Opens "\\r//" ∧
    (join ["", "\\", "//", "r"]).head? = some slash ∧ Anchored "\\r//" := by
  have hopens : Opens "\\r//" := ⟨.char '\\', "r//", rfl, rfl⟩
  have hsolid : ¬ IsRun "\\r//" := fun hrun => nomatch hrun.separators (.char 'r') (by decide)
  obtain ⟨hjoin, hanchored⟩ := join_keeps_root ["", "\\", "//", "r"] "\\r//" hopens
  refine ⟨hopens, hjoin.mpr ⟨"\\", by decide, ⟨.char '\\', [], rfl, rfl⟩, ?_⟩, hanchored.mpr hsolid⟩
  exact fun hrun => absurd hrun.long (by decide)

/-- Two slashes are lost, and the workspaces below them are made in the working directory. -/
theorem run_loses_root :
    ([Text.ofString "//", Text.ofString "tmp"].find? (· ≠ []) = some "//" ∧ Opens "//" ∧
      join ["//", "tmp"] = "tmp" ∧ (join ["//", "tmp"]).head? ≠ some slash) ∧
    root "//" = directoryName ∧
    FileTree.get? (prepare [(["d"], .directory)] ["d"] "//").2 ["d", directoryName, markerName] =
      some (.file []) ∧
    ¬ Anchored "//" := by
  have hopens : Opens "//" := ⟨slash, [slash], rfl, rfl⟩
  have hrun : IsRun "//" := ⟨by decide, by decide⟩
  refine ⟨⟨by decide, hopens, by decide, by decide⟩, by decide, by decide +kernel, ?_⟩
  exact fun hanchored => (anchored_iff hopens).mp hanchored hrun

end Workspace

end Paddock
