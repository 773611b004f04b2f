import Paddock.Proofs.Absolute
import Paddock.Proofs.Listing
import Paddock.Proofs.Printing
import Paddock.Proofs.Sorting

/-!
# What `list` shows

The lines of a list are the names of the workspaces that have a worktree, each once and in order. A
name is a part of its worktree's path even where the path is relative and the repository's path has
newlines in it, so it takes up one line. A name that is listed is in use, and `create` will not ask
for a worktree of that name.
-/

namespace Paddock

set_option autoImplicit false

open Text (slash newline)

namespace Text

variable {x y : Text}

/-- The order of the code points, as that of lists of numbers. -/
theorem codes_lt_of_le_of_ne (hle : le x y = true) (hne : x ≠ y) :
    x.map Glyph.code < y.map Glyph.code := by
  induction x generalizing y with
  | nil =>
    obtain ⟨b, y, rfl⟩ := List.exists_cons_of_ne_nil hne.symm
    exact List.nil_lt_cons _ _
  | cons a x ih =>
    cases y with
    | nil => exact absurd hle (by simp [le])
    | cons b y =>
      rw [List.map_cons, List.map_cons, List.cons_lt_cons_iff]
      rcases le_cons_iff.mp hle with hlt | ⟨heq, hrest⟩
      · exact .inl hlt
      · obtain rfl := Glyph.code_injective heq
        exact .inr ⟨rfl, ih hrest fun h => hne (h ▸ rfl)⟩

theorem ascending_sortedSet (xs : List Text) :
    (sortedSet xs).Pairwise fun x y => x.map Glyph.code < y.map Glyph.code :=
  ((pairwise_sortedSet xs).and (nodup_sortedSet xs)).imp fun h => codes_lt_of_le_of_ne h.1 h.2

end Text

namespace Workspace

open Paddock.Path

variable {repoRoot path name x : Text} {g : Glyph}

theorem mem_of_join_eq {below : Text} (hne : repoRoot ≠ [])
    (h : join [repoRoot, x] = root repoRoot ++ slash :: below) (hg : g ∈ below) :
    g ∈ x ∨ g = slash := by
  have hjoin : join [repoRoot, x] = if x = [] then Path.normalize repoRoot
      else attach (Path.normalize repoRoot) x := by
    by_cases hx : x = [] <;> simp [join, hne, hx]
  have hlonger : join [repoRoot, x] ≠ Path.normalize repoRoot := by
    intro hself
    have hlength := congrArg List.length (hself.symm.trans h)
    have hopened :
        (Path.normalize repoRoot).length ≤ (opened (Path.normalize repoRoot)).length := by
      unfold opened
      split <;> simp
    rw [root_eq_opened] at hlength
    simp only [List.length_append, List.length_cons] at hlength
    omega
  have hx : x ≠ [] := by
    rintro rfl
    exact hlonger hjoin
  rw [if_neg hx] at hjoin
  have hsegment : dropLeadingSlashes (Path.normalize x) ≠ [] := by
    intro hnil
    apply hlonger
    rw [hjoin, attach]
    simp only [hnil, if_true]
  rw [hjoin, attach_eq_opened hsegment, root_eq_opened, List.append_assoc] at h
  have hrest := List.append_cancel_left h
  have hmem : g ∈ dropLeadingSlashes (Path.normalize x) := by
    rw [hrest]
    exact List.mem_append_right _ (List.mem_cons_of_mem slash hg)
  exact mem_of_mem_normalize ((List.dropWhile_sublist isSlash).subset hmem)

theorem mem_normalize_of_mem_name (hne : repoRoot ≠ []) (h : nameOfPath? repoRoot path = some name)
    (hg : g ∈ name) : g ∈ Path.normalize path := by
  have hslash : g ≠ slash := by
    rintro rfl
    exact slash_not_mem_nameOfPath? h hg
  unfold nameOfPath? at h
  split at h
  · exact nomatch h
  rename_i below hbelow
  have hresolve := Text.eq_append_of_dropFront? hbelow
  rw [List.append_assoc] at hresolve
  have hgbelow : g ∈ below := by
    simp only [] at h
    split at h
    · exact nomatch h
    · rw [← Option.some.inj h] at hg
      exact (List.takeWhile_sublist _).subset hg
  unfold resolve at hresolve
  simp only [] at hresolve
  split at hresolve
  · rw [hresolve]
    exact List.mem_append_right _ (List.mem_cons_of_mem slash hgbelow)
  · exact (mem_of_join_eq hne hresolve hgbelow).resolve_right hslash

/-- A name that fills one line and one component of a path. -/
structure Proper (name : Text) : Prop where
  ne_nil : name ≠ []
  no_slash : slash ∉ name
  no_backslash : Glyph.char '\\' ∉ name
  no_newline : newline ∉ name

theorem proper_of_nameOfPath? (hne : repoRoot ≠ []) (hpath : newline ∉ path)
    (h : nameOfPath? repoRoot path = some name) : Proper name where
  ne_nil := by
    rintro rfl
    unfold nameOfPath? at h
    split at h
    · exact nomatch h
    · simp only [] at h
      split at h
      · exact nomatch h
      · exact absurd (Option.some.inj h) ‹_›
  no_slash := slash_not_mem_nameOfPath? h
  no_backslash hm := backslash_not_mem_normalize path (mem_normalize_of_mem_name hne h hm)
  no_newline hm := by
    rcases mem_of_mem_normalize (mem_normalize_of_mem_name hne h hm) with hm | hm
    · exact hpath hm
    · exact absurd hm (by decide)

end Workspace

namespace Worktree

variable {repoRoot listing name : Text}

theorem mem_directoryNames_iff {worktrees : List Worktree} :
    name ∈ directoryNames worktrees repoRoot ↔
      ∃ t ∈ worktrees, Workspace.nameOfPath? repoRoot t.path = some name :=
  List.mem_filterMap

theorem newline_not_mem_path {t : Worktree} (h : t ∈ ofPorcelain listing) : newline ∉ t.path := by
  have hline : pathKeyword ++ t.path ∈ Text.lines listing := by
    have hpath := List.mem_map_of_mem (f := Worktree.path) h
    rw [map_path_ofPorcelain] at hpath
    obtain ⟨line, hline, hdrop⟩ := List.mem_filterMap.mp hpath
    rw [← Text.eq_append_of_dropFront? hdrop]
    exact hline
  intro hm
  exact Text.not_mem_of_mem_splitAt hline (List.mem_append_right _ hm)

theorem mem_ofPorcelain_joinWith_iff {t : Worktree} {blocks : List Text} :
    t ∈ ofPorcelain (Text.joinWith [newline, newline] blocks) ↔
      ∃ block ∈ blocks, t ∈ ofPorcelain block := by
  induction blocks with
  | nil => simp [Text.joinWith, ofPorcelain_nil]
  | cons block blocks ih =>
    cases blocks with
    | nil => simp [Text.joinWith]
    | cons next blocks =>
      have happend : Text.joinWith [newline, newline] (block :: next :: blocks) =
          block ++ newline :: newline :: Text.joinWith [newline, newline] (next :: blocks) := by
        simp [Text.joinWith]
      rw [happend, ofPorcelain_append_blank, List.mem_append, ih]
      simp

def inventory (repoRoot listing : Text) : Text :=
  Command.listing (listedNames (ofPorcelain listing) repoRoot)

theorem mem_listedNames_iff {worktrees : List Worktree} : name ∈ listedNames worktrees repoRoot ↔
    ∃ t ∈ worktrees, Workspace.nameOfPath? repoRoot t.path = some name := by
  rw [listedNames, Text.mem_sortedSet, mem_directoryNames_iff]

/-- Only the paths count, and neither their order nor how often they are printed. -/
theorem inventory_congr {other : Text}
    (h : ∀ path, path ∈ (ofPorcelain other).map Worktree.path ↔
      path ∈ (ofPorcelain listing).map Worktree.path) :
    inventory repoRoot other = inventory repoRoot listing := by
  have hnames : ∀ name, name ∈ directoryNames (ofPorcelain other) repoRoot ↔
      name ∈ directoryNames (ofPorcelain listing) repoRoot := by
    intro name
    have hpaths : ∀ worktrees, name ∈ directoryNames worktrees repoRoot ↔
        ∃ path ∈ worktrees.map Worktree.path, Workspace.nameOfPath? repoRoot path = some name := by
      intro worktrees
      simp [mem_directoryNames_iff]
    rw [hpaths, hpaths]
    exact exists_congr fun path => and_congr_left fun _ => h path
  rw [inventory, inventory, listedNames, listedNames, Text.sortedSet_congr hnames]

theorem lines_inventory (hne : repoRoot ≠ [])
    (hsome : ∃ name, name ∈ listedNames (ofPorcelain listing) repoRoot) :
    Text.lines (inventory repoRoot listing) = listedNames (ofPorcelain listing) repoRoot := by
  obtain ⟨name, hname⟩ := hsome
  rw [inventory, Command.listing, if_neg (List.ne_nil_of_mem hname)]
  apply Text.lines_unlines (List.ne_nil_of_mem hname)
  intro other hother
  obtain ⟨t, ht, hread⟩ := mem_listedNames_iff.mp hother
  exact (Workspace.proper_of_nameOfPath? hne (newline_not_mem_path ht) hread).no_newline

end Worktree

namespace Request

def AddsWorktree (q : Request) : Prop :=
  List.map Text.ofString ["git", "worktree", "add"] <+: q.argv

theorem not_addsWorktree_toplevel (cwd : Place) : ¬ (toplevel cwd).AddsWorktree := by
  show ¬ List.map Text.ofString ["git", "worktree", "add"] <+: Git.showToplevel
  decide

theorem not_addsWorktree_listing (repoRoot : Text) : ¬ (listing repoRoot).AddsWorktree := by
  show ¬ List.map Text.ofString ["git", "worktree", "add"] <+: Git.listWorktrees
  decide

theorem not_addsWorktree_branch (repoRoot name : Text) :
    ¬ (branch repoRoot name).AddsWorktree := by
  intro h
  have hword := (List.cons_prefix_cons.mp (List.cons_prefix_cons.mp h).2).1
  exact absurd hword (by decide)

end Request

namespace Command

open World Worktree

variable {σ : Type} {runner : Runner σ} {pool args rest : List Text} {cwd : Place} {w : World σ}
  {repoRoot listing name : Text} {made : List Request}

structure Prints (runner : Runner σ) (cwd : Place) (w : World σ) (repoRoot listing : Text) :
    Prop where
  resolves : Git.Resolves (runner.answer w.git [] (.toplevel cwd)) repoRoot
  listed : Git.listed (runner.answer w.git [.toplevel cwd] (.listing repoRoot)) = listing

theorem not_addsWorktree_of_bar {halt : Halt} (h : Bar runner pool args cwd w halt made) :
    ∀ q ∈ made, ¬ q.AddsWorktree := by
  cases h <;> simp [Request.not_addsWorktree_toplevel, Request.not_addsWorktree_listing,
    Request.not_addsWorktree_branch]

/-- A name that is given and in use bars the workspace at some point, so it is never asked for. -/
theorem create_of_used (h : Prints runner cwd w repoRoot listing)
    (hused : name ∈ usedNames (ofPorcelain listing) repoRoot) : ∃ made,
    (worldAfter (perform runner pool "create" (name :: rest) cwd) w).requests =
      w.requests ++ made ∧ ∀ q ∈ made, ¬ q.AddsWorktree := by
  by_cases hlog : w.CanLog
  swap
  · obtain ⟨f, hf⟩ := @perform_of_not_canLog σ runner pool (name :: rest) cwd w hlog _ (.inl rfl)
    exact ⟨[], by simp [worldAfter, hf], by simp⟩
  rcases clear_or_bar runner pool (name :: rest) cwd w with ⟨root, other, hclear⟩ | ⟨_, _, hbar⟩
  · obtain rfl := h.resolves.unique hclear.resolves
    rcases hclear.chosen with ⟨_, hargs⟩ | ⟨_, _, hargs⟩
    · obtain rfl := (List.cons.inj hargs).1
      have hinUse : InUse runner cwd w root name := by
        rw [InUse, h.listed]
        exact mem_usedNames_iff.mp hused
      exact absurd hinUse hclear.free
    · exact absurd hargs (List.cons_ne_nil _ _)
  · exact ⟨_, (create_cameTo_of_bar hlog hbar).requests_eq, not_addsWorktree_of_bar hbar⟩

/-- What the lines of a list are. -/
structure Faithful (σ : Type) (repoRoot listing : Text) : Prop where
  ascending : (Text.lines (inventory repoRoot listing)).Pairwise
    fun x y => x.map Glyph.code < y.map Glyph.code
  mem_iff : ∀ name, name ∈ Text.lines (inventory repoRoot listing) ↔
    ∃ t ∈ ofPorcelain listing, Workspace.nameOfPath? repoRoot t.path = some name
  proper : ∀ name ∈ Text.lines (inventory repoRoot listing), Workspace.Proper name
  paths : ∀ other, (∀ path, path ∈ (ofPorcelain other).map Worktree.path ↔
    path ∈ (ofPorcelain listing).map Worktree.path) →
      inventory repoRoot other = inventory repoRoot listing
  blocks : ∀ blocks others : List Text, (∀ block, block ∈ blocks ↔ block ∈ others) →
    listing = Text.joinWith [newline, newline] blocks →
      inventory repoRoot (Text.joinWith [newline, newline] others) = inventory repoRoot listing
  used : ∀ name ∈ Text.lines (inventory repoRoot listing),
    name ∈ usedNames (ofPorcelain listing) repoRoot
  reserved : ∀ name ∈ Text.lines (inventory repoRoot listing),
    ∀ (runner : Runner σ) (pool rest : List Text) (cwd : Place) (w : World σ),
      Prints runner cwd w repoRoot listing → ∃ made,
        (worldAfter (perform runner pool "create" (name :: rest) cwd) w).requests =
          w.requests ++ made ∧ ∀ q ∈ made, ¬ q.AddsWorktree

theorem faithful_of_named (hne : repoRoot ≠ [])
    (hsome : ∃ t ∈ ofPorcelain listing, ∃ name,
      Workspace.nameOfPath? repoRoot t.path = some name) : Faithful σ repoRoot listing := by
  obtain ⟨t, ht, name, hread⟩ := hsome
  have hlines := lines_inventory hne ⟨name, mem_listedNames_iff.mpr ⟨t, ht, hread⟩⟩
  have hmem : ∀ name, name ∈ Text.lines (inventory repoRoot listing) ↔
      ∃ t ∈ ofPorcelain listing, Workspace.nameOfPath? repoRoot t.path = some name := by
    intro name
    rw [hlines, mem_listedNames_iff]
  have hused : ∀ name ∈ Text.lines (inventory repoRoot listing),
      name ∈ usedNames (ofPorcelain listing) repoRoot := fun name hname =>
    mem_usedNames_of_mem_directoryNames (mem_directoryNames_iff.mpr ((hmem name).mp hname))
  constructor
  case ascending =>
    rw [hlines]
    exact Text.ascending_sortedSet _
  case mem_iff => exact hmem
  case proper =>
    intro name hname
    obtain ⟨t, ht, hread⟩ := (hmem name).mp hname
    exact Workspace.proper_of_nameOfPath? hne (newline_not_mem_path ht) hread
  case paths => exact fun other => inventory_congr
  case blocks =>
    rintro blocks others hsame rfl
    apply inventory_congr
    simp [mem_ofPorcelain_joinWith_iff, hsame]
  case used => exact hused
  case reserved =>
    intro name hname runner pool rest cwd w hprints
    exact create_of_used hprints (hused name hname)

/-- A list shows each workspace that has a worktree once, in order and on a line of its own, and
none of the names that it shows is ever made a workspace of. -/
theorem list_faithful (runner : Runner σ) (pool args : List Text) (cwd : Place) (w : World σ)
    (repoRoot listing : Text) (h : Prints runner cwd w repoRoot listing)
    (hsome : ∃ t ∈ ofPorcelain listing, ∃ name,
      Workspace.nameOfPath? repoRoot t.path = some name) :
    (w.CanLog → resultOf (perform runner pool "list" args cwd) w =
      .ok ⟨true, inventory repoRoot listing⟩) ∧
    (¬ w.CanLog → ∃ f, resultOf (perform runner pool "list" args cwd) w = .error f) ∧
    Faithful σ repoRoot listing := by
  refine ⟨?_, ?_, faithful_of_named h.resolves.2.1 hsome⟩
  · intro hlog
    rw [(list_cameTo_of_resolves hlog h.resolves).result_eq, h.listed]
    rfl
  · intro hlog
    obtain ⟨f, hf⟩ := @perform_of_not_canLog σ runner pool args cwd w hlog _ (.inr (.inr rfl))
    exact ⟨f, by simp [resultOf, hf]⟩

def printing (repoRoot listing : Text) : Runner Unit := fun q g =>
  (⟨0, if q.argv = Git.showToplevel then repoRoot ++ [newline] else listing, []⟩, g)

def repeated : Text :=
  "worktree workspaces/b\n\nworktree workspaces\\a\n\nworktree workspaces/b/c\n"

theorem list_faithful_to_repeated :
    Prints (printing "/r\ns" repeated) .here bareWorld "/r\ns" repeated ∧
      (∃ t ∈ ofPorcelain repeated, ∃ name,
        Workspace.nameOfPath? "/r\ns" t.path = some name) ∧
      resultOf (perform (printing "/r\ns" repeated) [] "list" [] .here) bareWorld =
        .ok ⟨true, "a\nb"⟩ ∧
      Faithful Unit "/r\ns" repeated := by
  have hprints : Prints (printing "/r\ns" repeated) .here bareWorld "/r\ns" repeated :=
    ⟨⟨rfl, by decide, .inl rfl⟩, rfl⟩
  have hsome : ∃ t ∈ ofPorcelain repeated, ∃ name,
      Workspace.nameOfPath? "/r\ns" t.path = some name :=
    ⟨{ path := "workspaces/b" }, by decide +kernel, "b", by decide +kernel⟩
  have hnames : directoryNames (ofPorcelain repeated) "/r\ns" =
      [[.char 'b'], [.char 'a'], [.char 'b']] := by
    decide +kernel
  have hdistinct : [[Glyph.char 'b'], [.char 'a'], [.char 'b']].eraseDups =
      [[.char 'b'], [.char 'a']] := by
    decide
  have hsorted : [[Glyph.char 'b'], [.char 'a']].mergeSort Text.le =
      [[.char 'a'], [.char 'b']] := by
    simp [List.mergeSort, List.MergeSort.Internal.splitInTwo, Text.le, Glyph.code]
  have hmessage : inventory "/r\ns" repeated = "a\nb" := by
    rw [inventory, listedNames, hnames, Text.sortedSet, hdistinct, hsorted]
    decide
  obtain ⟨hlist, -, hfaithful⟩ := list_faithful (printing "/r\ns" repeated) [] [] .here bareWorld
    "/r\ns" repeated hprints hsome
  refine ⟨hprints, hsome, ?_, hfaithful⟩
  rw [hlist canLog_bareWorld, hmessage]

end Command

end Paddock
