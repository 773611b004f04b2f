import Paddock.Proofs.Stanza

/-!
# What is read from a listing

A listing may be cut short, hold stray lines or leave out the empty lines, and is read all the same.
Every path line gives one worktree, in order, and nothing else does. What is said of a worktree is
said by the lines between its path line and the next line that is empty or a path line. So two
listings one below the other are read as one by itself and then the other.
-/

namespace Paddock

set_option autoImplicit false

open Text (newline)

namespace Worktree

/-- The lines below a path line cut in two: those that say something of its worktree, and those
from the end of its stanza on. -/
structure Cut (rest between after : List Text) : Prop where
  rest_eq : rest = between ++ after
  between : ∀ line ∈ between, line ≠ [] ∧ ¬ pathKeyword <+: line
  after : ∀ line, after.head? = some line → line = [] ∨ pathKeyword <+: line

theorem exists_cut (rest : List Text) : ∃ between after, Cut rest between after := by
  refine ⟨rest.takeWhile isAttribute, rest.dropWhile isAttribute,
    List.takeWhile_append_dropWhile.symm, ?_, ?_⟩
  · intro line hline
    exact isAttribute_iff.mp (List.mem_takeWhile_imp hline)
  · intro line hline
    have hstop := List.head?_dropWhile_not isAttribute rest
    rw [hline] at hstop
    exact isAttribute_eq_false_iff.mp hstop

/-- All that the lines of a stanza say: for `HEAD` and `branch` the last line with that word counts,
for a flag whether there is a line with that word. -/
structure Stanza.Says (s : Stanza) (w : Worktree) : Prop where
  path_eq : w.path = s.path
  head_eq : w.head = s.lastValue "HEAD"
  branch_eq : w.branch = s.lastValue "branch"
  detached_iff : w.detached = true ↔ ∃ line ∈ s.attributes, keyword line = Text.ofString "detached"
  bare_iff : w.bare = true ↔ ∃ line ∈ s.attributes, keyword line = Text.ofString "bare"
  locked_iff : w.locked = true ↔ ∃ line ∈ s.attributes, keyword line = Text.ofString "locked"
  prunable_iff : w.prunable = true ↔ ∃ line ∈ s.attributes, keyword line = Text.ofString "prunable"

namespace Stanza

theorem has_iff {s : Stanza} {key : Text} :
    s.has key = true ↔ ∃ line ∈ s.attributes, keyword line = key := by
  simp only [has, List.any_eq_true, decide_eq_true_eq]

theorem says_worktree (s : Stanza) : s.Says s.worktree :=
  ⟨rfl, rfl, rfl, has_iff, has_iff, has_iff, has_iff⟩

theorem Says.eq_worktree {s : Stanza} {w : Worktree} (h : s.Says w) : w = s.worktree := by
  have hflag : ∀ {a : Bool} {key : Text},
      (a = true ↔ ∃ line ∈ s.attributes, keyword line = key) → a = s.has key := by
    intro a key ha
    rw [Bool.eq_iff_iff, ha, has_iff]
  cases w with
  | mk path head branch detached bare locked prunable =>
    rw [worktree, Stanza.branch, isDetached, ← h.path_eq, ← h.head_eq, ← h.branch_eq,
      ← hflag h.detached_iff, ← hflag h.bare_iff, ← hflag h.locked_iff, ← hflag h.prunable_iff]

end Stanza

theorem map_path_stanzas (lines : List Text) :
    (stanzas lines).map Stanza.path = lines.filterMap (Text.dropFront? pathKeyword) := by
  induction lines with
  | nil => rfl
  | cons line rest ih =>
    cases hp : Text.dropFront? pathKeyword line with
    | some path => simp [stanzas, hp, ih]
    | none => simp [stanzas, hp, ih]

theorem getElem?_stanzas {before rest between after : List Text} {path : Text}
    (h : Cut rest between after) :
    (stanzas (before ++ (pathKeyword ++ path) :: rest))[(before.filterMap
      (Text.dropFront? pathKeyword)).length]? = some ⟨path, between⟩ := by
  have hbetween : ∀ line ∈ between, isAttribute line = true := by
    intro line hline
    exact isAttribute_iff.mpr (h.between line hline)
  have hafter : ∀ line, after.head? = some line → isAttribute line = false := by
    intro line hline
    exact isAttribute_eq_false_iff.mpr (h.after line hline)
  have hlength : (before.filterMap (Text.dropFront? pathKeyword)).length =
      (stanzas before).length := by
    rw [← map_path_stanzas, List.length_map]
  rw [h.rest_eq, stanzas_append (isAttribute_path path), stanzas_stanza hbetween hafter, hlength]
  simp

theorem map_path_ofPorcelain (x : Text) : (ofPorcelain x).map Worktree.path =
    (Text.lines x).filterMap (Text.dropFront? pathKeyword) := by
  rw [ofPorcelain_eq, List.map_map, ← map_path_stanzas]
  rfl

theorem ofPorcelain_append_blank (x y : Text) :
    ofPorcelain (x ++ newline :: newline :: y) = ofPorcelain x ++ ofPorcelain y := by
  have hsplit : x ++ newline :: newline :: y = x ++ newline :: ([] ++ newline :: y) := rfl
  have hlines : Text.lines (x ++ newline :: newline :: y) =
      Text.lines x ++ [] :: Text.lines y := by
    rw [hsplit, Text.lines_append, Text.lines_append]
    rfl
  rw [ofPorcelain_eq, hlines, stanzas_append rfl, stanzas_nil_cons, List.map_append,
    ← ofPorcelain_eq, ← ofPorcelain_eq]

theorem exists_lines_of_prefix {x : Text} (h : pathKeyword <+: x) :
    ∃ path rest, Text.lines x = (pathKeyword ++ path) :: rest := by
  have hfree : ∀ g ∈ pathKeyword, (g == newline) = false := by decide
  obtain ⟨below, rfl⟩ := h
  cases hb : Text.lines below with
  | nil => exact absurd hb (Text.splitWhere_ne_nil _ below)
  | cons path rest => exact ⟨path, rest, Text.splitWhere_append_of_free hfree hb⟩

theorem ofPorcelain_append_opening (x : Text) {y : Text} (h : pathKeyword <+: y) :
    ofPorcelain (x ++ newline :: y) = ofPorcelain x ++ ofPorcelain y := by
  obtain ⟨path, rest, hy⟩ := exists_lines_of_prefix h
  rw [ofPorcelain_eq, Text.lines_append, hy, stanzas_append (isAttribute_path path), ← hy,
    List.map_append, ← ofPorcelain_eq, ← ofPorcelain_eq]

/-- Whatever the text is: its path lines give the worktrees, each worktree has what its own lines
say, and listings can be put below each other. -/
theorem ofPorcelain_reads (x : Text) :
    (ofPorcelain x).map Worktree.path =
      (Text.lines x).filterMap (Text.dropFront? pathKeyword) ∧
    (∀ before path rest, Text.lines x = before ++ (pathKeyword ++ path) :: rest →
      ∃ between after w, Cut rest between after ∧
        (ofPorcelain x)[(before.filterMap (Text.dropFront? pathKeyword)).length]? = some w ∧
        (Stanza.mk path between).Says w) ∧
    (∀ y, ofPorcelain (x ++ newline :: newline :: y) = ofPorcelain x ++ ofPorcelain y) ∧
    ∀ y, pathKeyword <+: y →
      ofPorcelain (x ++ newline :: y) = ofPorcelain x ++ ofPorcelain y := by
  refine ⟨map_path_ofPorcelain x, ?_, ofPorcelain_append_blank x,
    fun y hy => ofPorcelain_append_opening x hy⟩
  intro before path rest hlines
  obtain ⟨between, after, hcut⟩ := exists_cut rest
  refine ⟨between, after, (Stanza.mk path between).worktree, hcut, ?_, Stanza.says_worktree _⟩
  rw [ofPorcelain_eq, hlines, List.getElem?_map, getElem?_stanzas hcut]
  rfl

def raggedListing : Text :=
  Text.unlines ["worktree /r", "HEAD 1", "HEAD ", "worktree /r/w", "bare"]

theorem raggedListing_reads :
    Text.lines raggedListing = [Text.ofString "worktree /r", "HEAD 1", "HEAD "] ++
        (pathKeyword ++ Text.ofString "/r/w") :: [Text.ofString "bare"] ∧
      (∃ between after w, Cut [Text.ofString "bare"] between after ∧
        (ofPorcelain raggedListing)[1]? = some w ∧ (Stanza.mk "/r/w" between).Says w) ∧
      pathKeyword <+: raggedListing ∧
      ofPorcelain (raggedListing ++ newline :: raggedListing) =
        ofPorcelain raggedListing ++ ofPorcelain raggedListing := by
  obtain ⟨_, hentries, _, hopening⟩ := ofPorcelain_reads raggedListing
  have hlines : Text.lines raggedListing = [Text.ofString "worktree /r", "HEAD 1", "HEAD "] ++
      (pathKeyword ++ Text.ofString "/r/w") :: [Text.ofString "bare"] := by
    decide +kernel
  have hprefix : pathKeyword <+: raggedListing := by decide +kernel
  exact ⟨hlines, hentries _ _ _ hlines, hprefix, hopening _ hprefix⟩

end Worktree

end Paddock
