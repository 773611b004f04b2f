import Mathlib.Data.List.Induction
import Mathlib.Data.List.TakeWhile
import Paddock.Proofs.Pieces
import Paddock.Worktree.Porcelain

/-!
# Stanzas of a worktree listing

A stanza is a path line and the attribute lines right below it. Reading a listing with an open
record comes to the same as cutting it into stanzas first: what is said of a worktree is decided by
the lines of its own stanza, the last one of a keyword counting. Printing stanzas is the inverse of
cutting.
-/

namespace Paddock

set_option autoImplicit false

namespace Text

@[simp] theorem ofString_inj {s t : String} : ofString s = ofString t ↔ s = t := by
  rw [ofString, ofString, ofChars, ofChars, List.map_inj_right fun _ _ => Glyph.char.inj]
  exact String.toList_inj

theorem lines_append (x y : Text) : lines (x ++ newline :: y) = lines x ++ lines y :=
  splitAt_append newline x y

theorem lines_eq_singleton {x : Text} (h : newline ∉ x) : lines x = [x] :=
  splitAt_eq_singleton h

def ended (xs : List Text) : Text := xs.flatMap (· ++ [newline])

theorem lines_ended {xs : List Text} (h : ∀ x ∈ xs, newline ∉ x) :
    lines (ended xs) = xs ++ [[]] := by
  induction xs with
  | nil => rfl
  | cons x xs ih =>
    have hrest := ih fun y hy => h y (List.mem_cons_of_mem x hy)
    have he : ended (x :: xs) = x ++ newline :: ended xs := by simp [ended]
    rw [he, lines_append, lines_eq_singleton (h x List.mem_cons_self), hrest]
    rfl

theorem startsWith_iff {front x : Text} : startsWith front x = true ↔ front <+: x := by
  rw [startsWith, Option.isSome_iff_exists]
  constructor
  · rintro ⟨rest, h⟩
    exact ⟨rest, (eq_append_of_dropFront? h).symm⟩
  · rintro ⟨rest, rfl⟩
    exact ⟨rest, dropFront?_append front rest⟩

theorem dropFront?_eq_none_iff {front x : Text} :
    dropFront? front x = none ↔ ¬ front <+: x := by
  rw [← startsWith_iff, startsWith]
  simp

end Text

namespace Worktree

theorem takeWhile_keyword {key : Text} (h : Text.space ∉ key) :
    ∀ g ∈ key, (g != Text.space) = true := by
  intro g hg
  rw [bne_iff_ne]
  rintro rfl
  exact h hg

theorem keyword_append {key : Text} (h : Text.space ∉ key) (value : Text) :
    keyword (key ++ Text.space :: value) = key := by
  rw [keyword, List.takeWhile_append_of_pos (takeWhile_keyword h)]
  simp

theorem value?_append {key value : Text} (h : Text.space ∉ key) (hvalue : Text.IsTrimmed value)
    (hne : value ≠ []) : value? (key ++ Text.space :: value) = some value := by
  have hdrop : (key ++ Text.space :: value).dropWhile (· != Text.space) = Text.space :: value := by
    rw [List.dropWhile_append_of_pos (takeWhile_keyword h)]
    simp
  simp [value?, hdrop, Text.trim_eq_self hvalue, hne]

/-- A line that says something of the worktree whose stanza it stands in. -/
def isAttribute (line : Text) : Bool := line ≠ [] && !Text.startsWith pathKeyword line

theorem isAttribute_iff {line : Text} :
    isAttribute line = true ↔ line ≠ [] ∧ ¬ pathKeyword <+: line := by
  rw [isAttribute, Bool.and_eq_true, decide_eq_true_eq, Bool.not_eq_true', ← Text.startsWith_iff,
    Bool.not_eq_true]

theorem isAttribute_eq_false_iff {line : Text} :
    isAttribute line = false ↔ line = [] ∨ pathKeyword <+: line := by
  rw [← Bool.not_eq_true, isAttribute_iff, not_and_or, not_not, not_not]

theorem isAttribute_path (path : Text) : isAttribute (pathKeyword ++ path) = false :=
  isAttribute_eq_false_iff.mpr (.inr (List.prefix_append pathKeyword path))

structure Stanza where
  path : Text
  attributes : List Text
deriving DecidableEq, Repr

/-- The stanzas of a list of lines; lines outside them mean nothing. -/
def stanzas : List Text → List Stanza
  | [] => []
  | line :: rest =>
    match Text.dropFront? pathKeyword line with
    | some path => ⟨path, rest.takeWhile isAttribute⟩ :: stanzas rest
    | none => stanzas rest

namespace Stanza

/-- What the last line with a keyword says, if there is one and it says anything. -/
def lastValue (s : Stanza) (key : Text) : Option Text :=
  ((s.attributes.filter (keyword · = key)).getLast?).bind value?

def has (s : Stanza) (key : Text) : Bool := s.attributes.any (keyword · = key)

def branch (s : Stanza) : Option Text := s.lastValue "branch"

def isDetached (s : Stanza) : Bool := s.has "detached"

/-- The worktree that a stanza describes. -/
def worktree (s : Stanza) : Worktree where
  path := s.path
  head := s.lastValue "HEAD"
  branch := s.branch
  detached := s.isDetached
  bare := s.has "bare"
  locked := s.has "locked"
  prunable := s.has "prunable"

theorem lastValue_concat (path : Text) (lines : List Text) (line key : Text) :
    lastValue ⟨path, lines ++ [line]⟩ key =
      if keyword line = key then value? line else lastValue ⟨path, lines⟩ key := by
  by_cases h : keyword line = key
  · simp [lastValue, h]
  · simp [lastValue, h]

theorem has_concat (path : Text) (lines : List Text) (line key : Text) :
    has ⟨path, lines ++ [line]⟩ key = (has ⟨path, lines⟩ key || decide (keyword line = key)) := by
  simp [has]

theorem worktree_concat (path : Text) (lines : List Text) (line : Text) :
    worktree ⟨path, lines ++ [line]⟩ = (worktree ⟨path, lines⟩).note line := by
  simp only [worktree, branch, isDetached, lastValue_concat, has_concat, note]
  by_cases h₁ : keyword line = Text.ofString "HEAD"
  · simp [h₁]
  by_cases h₂ : keyword line = Text.ofString "branch"
  · simp [h₂]
  by_cases h₃ : keyword line = Text.ofString "detached"
  · simp [h₃]
  by_cases h₄ : keyword line = Text.ofString "bare"
  · simp [h₄]
  by_cases h₅ : keyword line = Text.ofString "locked"
  · simp [h₅]
  by_cases h₆ : keyword line = Text.ofString "prunable"
  · simp [h₆]
  simp [h₁, h₂, h₃, h₄, h₅, h₆]

theorem foldl_note (path : Text) (lines : List Text) :
    lines.foldl note { path } = worktree ⟨path, lines⟩ := by
  induction lines using List.reverseRecOn with
  | nil => rfl
  | append_singleton lines line ih =>
    rw [List.foldl_append, ih, worktree_concat, List.foldl_cons, List.foldl_nil]

end Stanza

theorem ofLines_some (w : Worktree) (lines : List Text) :
    ofLines (some w) lines = (lines.takeWhile isAttribute).foldl note w :: ofLines none lines := by
  induction lines generalizing w with
  | nil => rfl
  | cons line rest ih =>
    cases hp : Text.dropFront? pathKeyword line with
    | some path =>
      have ha : isAttribute line = false := by simp [isAttribute, Text.startsWith, hp]
      simp [ofLines, hp, ha]
    | none =>
      by_cases he : line = []
      · subst he
        have ha : isAttribute [] = false := rfl
        simp [ofLines, hp, ha]
      · have ha : isAttribute line = true := by simp [isAttribute, Text.startsWith, hp, he]
        simp [ofLines, hp, he, ha, ih]

theorem ofLines_none (lines : List Text) :
    ofLines none lines = (stanzas lines).map Stanza.worktree := by
  induction lines with
  | nil => rfl
  | cons line rest ih =>
    cases hp : Text.dropFront? pathKeyword line with
    | some path => simp [ofLines, stanzas, hp, ofLines_some, Stanza.foldl_note, ih]
    | none => simp [ofLines, stanzas, hp, ih]

theorem ofPorcelain_eq (listing : Text) :
    ofPorcelain listing = (stanzas (Text.lines listing)).map Stanza.worktree :=
  ofLines_none _

theorem exists_stanza_iff {lines : List Text} {path : Text} :
    (∃ s ∈ stanzas lines, s.path = path) ↔ pathKeyword ++ path ∈ lines := by
  induction lines with
  | nil => simp [stanzas]
  | cons line rest ih =>
    rw [List.mem_cons, ← ih]
    cases hp : Text.dropFront? pathKeyword line with
    | some found =>
      have hline := Text.eq_append_of_dropFront? hp
      simp [stanzas, hline, Text.dropFront?_append, eq_comm]
    | none =>
      have hline : pathKeyword ++ path ≠ line := by
        rintro rfl
        simp [Text.dropFront?_append] at hp
      simp [stanzas, hp, hline]

namespace Stanza

def lines (s : Stanza) : List Text := (pathKeyword ++ s.path) :: s.attributes ++ [[]]

end Stanza

theorem takeWhile_append_of_neg {α : Type} {p : α → Bool} {y : α} (hy : p y = false)
    (xs ys : List α) : (xs ++ y :: ys).takeWhile p = xs.takeWhile p := by
  induction xs with
  | nil => simp [hy]
  | cons x xs ih =>
    cases hx : p x with
    | true => simp [hx, ih]
    | false => simp [hx]

/-- A line that is no attribute begins anew, so what stands before it can be cut by itself. -/
theorem stanzas_append {y : Text} (hy : isAttribute y = false) (xs ys : List Text) :
    stanzas (xs ++ y :: ys) = stanzas xs ++ stanzas (y :: ys) := by
  induction xs with
  | nil => rfl
  | cons x xs ih =>
    have hcut : (xs ++ y :: ys).takeWhile isAttribute = xs.takeWhile isAttribute :=
      takeWhile_append_of_neg hy xs ys
    cases hp : Text.dropFront? pathKeyword x with
    | some path => simp [stanzas, hp, ih, hcut]
    | none => simp [stanzas, hp, ih]

theorem stanzas_nil_cons (ys : List Text) : stanzas ([] :: ys) = stanzas ys := rfl

theorem stanzas_of_attributes {xs : List Text} (h : ∀ x ∈ xs, isAttribute x = true) :
    stanzas xs = [] := by
  induction xs with
  | nil => rfl
  | cons x xs ih =>
    have hp : ¬ pathKeyword <+: x := (isAttribute_iff.mp (h x List.mem_cons_self)).2
    rw [stanzas, Text.dropFront?_eq_none_iff.mpr hp]
    exact ih fun y hy => h y (List.mem_cons_of_mem x hy)

theorem stanzas_cons (path : Text) (rest : List Text) :
    stanzas ((pathKeyword ++ path) :: rest) =
      ⟨path, rest.takeWhile isAttribute⟩ :: stanzas rest := by
  rw [stanzas, Text.dropFront?_append]

/-- A stanza gives itself, and nothing of what follows the line that ends it. -/
theorem stanzas_stanza {path : Text} {attributes rest : List Text}
    (h : ∀ x ∈ attributes, isAttribute x = true)
    (hrest : ∀ y, rest.head? = some y → isAttribute y = false) :
    stanzas ((pathKeyword ++ path) :: (attributes ++ rest)) =
      ⟨path, attributes⟩ :: stanzas rest := by
  rw [stanzas_cons]
  cases rest with
  | nil =>
    rw [List.append_nil, stanzas_of_attributes h, List.takeWhile_eq_self_iff.mpr h]
    rfl
  | cons y ys =>
    have hy : isAttribute y = false := hrest y rfl
    rw [takeWhile_append_of_neg hy, List.takeWhile_eq_self_iff.mpr h, stanzas_append hy,
      stanzas_of_attributes h]
    rfl

theorem stanzas_flatMap_lines {ss : List Stanza}
    (h : ∀ s ∈ ss, ∀ x ∈ s.attributes, isAttribute x = true) :
    stanzas (ss.flatMap Stanza.lines ++ [[]]) = ss := by
  induction ss with
  | nil => rfl
  | cons s ss ih =>
    have hblank : ∀ y, ([] :: (ss.flatMap Stanza.lines ++ [[]]) : List Text).head? = some y →
        isAttribute y = false := by
      intro y hy
      obtain rfl := Option.some.inj hy
      rfl
    have hcut := @stanzas_stanza s.path _ _ (h s List.mem_cons_self) hblank
    rw [stanzas_nil_cons, ih fun t ht => h t (List.mem_cons_of_mem s ht)] at hcut
    simpa only [List.flatMap_cons, Stanza.lines, List.cons_append, List.append_assoc,
      List.nil_append] using hcut

end Worktree

end Paddock
