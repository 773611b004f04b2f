import Mathlib.Data.List.Basic
import Mathlib.Data.List.TakeWhile
import Paddock.Command.Lifecycle
import Paddock.Proofs.Stanza

/-!
# Names, paths and the commands that hold them

A valid name is a letter followed by letters and dashes, so it is one path component and no option.
Paths without backslashes and slashes at the end are what they are normalised to, and joining two of
them puts one slash in between. A name for a new workspace is the one that is given, or else the
first valid one of the pool that is not taken.
-/

namespace Paddock

set_option autoImplicit false

open Text (slash)

namespace Path

/-- A path without backslashes and without slashes at its end. -/
structure Tidy (x : Text) : Prop where
  no_backslash : Glyph.char '\\' ∉ x
  no_slash_at_end : x.getLast? ≠ some slash

theorem slashed_eq_self {x : Text} (h : Glyph.char '\\' ∉ x) : slashed x = x := by
  have hsame : slashed x = x.map id := by
    apply List.map_congr_left
    intro g hg
    apply if_neg
    intro he
    exact h (he ▸ hg)
  rw [hsame, List.map_id]

theorem dropTrailingSlashes_eq_self {x : Text} (h : x.getLast? ≠ some slash) :
    dropTrailingSlashes x = x := by
  have hd : x.reverse.dropWhile isSlash = x.reverse := by
    rw [List.dropWhile_eq_self_iff]
    intro hl hs
    rw [List.getLast?_eq_head?_reverse, List.head?_eq_getElem?, List.getElem?_eq_getElem hl] at h
    exact h (congrArg some (by simpa [isSlash] using hs))
  rw [dropTrailingSlashes, hd, List.reverse_reverse]

theorem normalize_eq_self {x : Text} (h : Tidy x) : normalize x = x := by
  have hne : x ≠ [slash] := by
    rintro rfl
    exact h.no_slash_at_end rfl
  rw [normalize, slashed_eq_self h.no_backslash, if_neg hne,
    dropTrailingSlashes_eq_self h.no_slash_at_end]

theorem dropLeadingSlashes_eq_self {x : Text} (h : x.head? ≠ some slash) :
    dropLeadingSlashes x = x := by
  cases x with
  | nil => rfl
  | cons g x =>
    have hg : isSlash g = false := by
      simp only [isSlash, beq_eq_false_iff_ne, ne_eq]
      rintro rfl
      exact h rfl
    simp [dropLeadingSlashes, hg]

/-- Joining two tidy paths, the second a relative one, puts one slash in between. -/
theorem join_pair {x y : Text} (hx : Tidy x) (hy : Tidy y) (hxne : x ≠ []) (hyne : y ≠ [])
    (hhead : y.head? ≠ some slash) : join [x, y] = x ++ slash :: y := by
  have hroot : x ≠ [slash] := by
    rintro rfl
    exact hx.no_slash_at_end rfl
  simp [join, hxne, hyne, attach, normalize_eq_self hx, normalize_eq_self hy,
    dropLeadingSlashes_eq_self hhead, hroot]

theorem Tidy.append {x y : Text} (hx : Glyph.char '\\' ∉ x) (hy : Tidy y) (hyne : y ≠ []) :
    Tidy (x ++ y) := by
  constructor
  · intro h
    rcases List.mem_append.mp h with h | h
    · exact hx h
    · exact hy.no_backslash h
  · rw [List.getLast?_append_of_ne_nil x hyne]
    exact hy.no_slash_at_end

end Path

namespace Workspace

theorem isValidName_iff {name : Text} :
    isValidName name = true ↔ ∃ g rest, name = g :: rest ∧ isLetter g = true ∧
      ∀ x ∈ rest, isLetter x = true ∨ x = .char '-' := by
  cases name with
  | nil => simp [isValidName]
  | cons g rest => simp [isValidName, isNameGlyph]

variable {name : Text}

theorem ne_nil_of_isValidName (h : isValidName name = true) : name ≠ [] := by
  rintro rfl
  simp [isValidName] at h

theorem head?_ne_of_isValidName (h : isValidName name = true) {g : Glyph}
    (hg : isLetter g = false) : name.head? ≠ some g := by
  obtain ⟨a, rest, rfl, ha, _⟩ := isValidName_iff.mp h
  rw [List.head?_cons, ne_eq, Option.some.injEq]
  rintro rfl
  simp [ha] at hg

theorem not_mem_of_isValidName (h : isValidName name = true) {g : Glyph}
    (hg : isNameGlyph g = false) : g ∉ name := by
  intro hm
  rw [isNameGlyph_of_mem h hm] at hg
  exact Bool.noConfusion hg

theorem tidy_of_isValidName (h : isValidName name = true) : Path.Tidy name where
  no_backslash := not_mem_of_isValidName h rfl
  no_slash_at_end hl :=
    slash_not_mem_of_isValidName h (List.mem_of_getLast? hl)

theorem hasSeparator_of_isValidName (h : isValidName name = true) : hasSeparator name = false := by
  have hs := slash_not_mem_of_isValidName h
  have hb := (tidy_of_isValidName h).no_backslash
  simp only [hasSeparator, List.any_eq_false, Bool.or_eq_true, beq_iff_eq, not_or]
  intro g hg
  exact ⟨fun he => hs (he ▸ hg), fun he => hb (he ▸ hg)⟩

theorem directoryName_eq : Text.ofString "workspaces/" = directoryName ++ [slash] := by
  decide

theorem tidy_directoryName : Path.Tidy directoryName :=
  ⟨by decide, by decide⟩

theorem tidy_markerName : Path.Tidy markerName :=
  ⟨by decide, by decide⟩

theorem components_directoryName : Place.components directoryName = [directoryName] := by
  decide

theorem components_markerName : Place.components markerName = [markerName] := by
  decide

theorem relativePath?_of_isValidName (h : isValidName name = true) :
    relativePath? name = some (Text.ofString "workspaces/" ++ name) := by
  have hjoin : Path.join [directoryName, name] = directoryName ++ slash :: name :=
    Path.join_pair tidy_directoryName (tidy_of_isValidName h) (by decide)
      (ne_nil_of_isValidName h) (head?_ne_of_isValidName h rfl)
  rw [relativePath?, hasSeparator_of_isValidName h, hjoin, directoryName_eq, List.append_assoc]
  rfl

def place (repoRoot name : Text) : Text := repoRoot ++ Text.ofString "/workspaces/" ++ name

section Root

variable {repoRoot : Text} (hroot : Path.Tidy repoRoot) (hne : repoRoot ≠ [])
include hroot hne

theorem root_eq : root repoRoot = repoRoot ++ slash :: directoryName :=
  Path.join_pair hroot tidy_directoryName hne (by decide) (by decide)

theorem root_slash_eq : root repoRoot ++ [slash] = repoRoot ++ Text.ofString "/workspaces/" := by
  have hmid : Text.ofString "/workspaces/" = slash :: directoryName ++ [slash] := by
    decide
  rw [root_eq hroot hne, hmid, List.append_assoc, List.cons_append]

theorem nameOfPath?_eq_none {path : Text} (hp : Path.Tidy path) (habs : path.head? = some slash)
    (hout : ¬ repoRoot ++ Text.ofString "/workspaces/" <+: path) :
    nameOfPath? repoRoot path = none := by
  have hslash : Text.startsWith [slash] path = true := by
    rw [Text.startsWith_iff]
    obtain ⟨rest, rfl⟩ := List.head?_eq_some_iff.mp habs
    exact ⟨rest, rfl⟩
  have hres : resolve repoRoot path = path := by
    rw [resolve, Path.normalize_eq_self hp, if_pos hslash]
  rw [nameOfPath?, hres, root_slash_eq hroot hne, Text.dropFront?_eq_none_iff.mpr hout]

theorem nameOfPath?_place (habs : repoRoot.head? = some slash) (h : isValidName name = true) :
    nameOfPath? repoRoot (place repoRoot name) = some name := by
  have hb : Glyph.char '\\' ∉ repoRoot ++ Text.ofString "/workspaces/" := by
    intro hb
    rcases List.mem_append.mp hb with hb | hb
    · exact hroot.no_backslash hb
    · exact absurd hb (by decide)
  have htidy : Path.Tidy (place repoRoot name) :=
    Path.Tidy.append hb (tidy_of_isValidName h) (ne_nil_of_isValidName h)
  have hslash : Text.startsWith [slash] (place repoRoot name) = true := by
    rw [Text.startsWith_iff]
    obtain ⟨rest, rfl⟩ := List.head?_eq_some_iff.mp habs
    exact ⟨_, rfl⟩
  have hres : resolve repoRoot (place repoRoot name) = place repoRoot name := by
    rw [resolve, Path.normalize_eq_self htidy, if_pos hslash]
  have htake : name.takeWhile (· != slash) = name := by
    rw [List.takeWhile_eq_self_iff]
    intro g hg
    rw [bne_iff_ne]
    intro he
    exact slash_not_mem_of_isValidName h (he ▸ hg)
  rw [nameOfPath?, hres, root_slash_eq hroot hne, place, Text.dropFront?_append]
  simp [htake, ne_nil_of_isValidName h]

end Root

theorem find?_eraseDups {α : Type} [BEq α] [LawfulBEq α] (p : α → Bool) (xs : List α) :
    xs.eraseDups.find? p = xs.find? p := by
  match xs with
  | [] => rfl
  | x :: xs =>
    rw [List.eraseDups_cons, List.find?_cons, List.find?_cons, find?_eraseDups p, List.find?_filter]
    cases hp : p x with
    | true => rfl
    | false =>
      -- what was filtered out is `x`, which does not satisfy `p` either
      have hsame : (fun y => decide ((!y == x) = true ∧ p y = true)) = p := by
        funext y
        by_cases hy : y = x
        · simp [hy, hp]
        · simp [hy]
      simp only [hsame]
termination_by xs.length
decreasing_by exact Nat.lt_succ_of_le (List.length_filter_le _ _)

theorem pickUnused_eq (used pool : List Text) :
    pickUnused used pool = pool.find? fun name => isValidName name && !used.contains name := by
  rw [pickUnused, uniqueNames, find?_eraseDups, List.find?_filter]
  congr 1
  funext name
  simp

end Workspace

namespace Command

/-- The name for a new workspace: the given one, or else the first valid one of the pool that is
not taken. -/
inductive Chosen (pool args : List Text) (taken : Text → Prop) (name : Text) : Prop where
  | given (rest : List Text) (h : args = name :: rest)
  | picked (before rest : List Text) (hargs : args = []) (hpool : pool = before ++ name :: rest)
      (hvalid : Workspace.isValidName name = true) (hfree : ¬ taken name)
      (hbefore : ∀ other ∈ before, Workspace.isValidName other = true → taken other)

theorem chooseName_eq_some_iff {pool used args : List Text} {name : Text} :
    chooseName pool used args = some name ↔ Chosen pool args (· ∈ used) name := by
  cases args with
  | cons a rest =>
    rw [chooseName, Option.some.injEq]
    constructor
    · rintro rfl
      exact .given rest rfl
    · intro h
      rcases h with ⟨_, h⟩ | ⟨_, _, h⟩
      · exact (List.cons.inj h).1
      · exact absurd h (List.cons_ne_nil _ _)
  | nil =>
    rw [chooseName, Workspace.pickUnused_eq, List.find?_eq_some_iff_append]
    constructor
    · rintro ⟨hp, before, rest, hpool, hbefore⟩
      simp only [Bool.and_eq_true, Bool.not_eq_true', List.contains_eq_mem,
        decide_eq_false_iff_not] at hp
      apply Chosen.picked before rest rfl hpool hp.1 hp.2
      intro other hm hv
      simpa [hv] using hbefore other hm
    · intro h
      rcases h with ⟨_, h⟩ | ⟨before, rest, _, hpool, hv, hfree, hbefore⟩
      · exact absurd h.symm (List.cons_ne_nil _ _)
      · refine ⟨by simp [hv, hfree], before, rest, hpool, ?_⟩
        intro other hm
        by_cases ho : Workspace.isValidName other = true
        · simp [hbefore other hm ho]
        · simp [ho]

theorem chooseName_eq_none_iff {pool used args : List Text} :
    chooseName pool used args = none ↔ ∀ name, ¬ Chosen pool args (· ∈ used) name := by
  rw [Option.eq_none_iff_forall_ne_some]
  exact forall_congr' fun name => not_congr chooseName_eq_some_iff

theorem exists_chosen {pool : List Text} {taken : Text → Prop}
    (h : ∃ name ∈ pool, Workspace.isValidName name = true ∧ ¬ taken name) :
    ∃ name, Chosen pool [] taken name := by
  induction pool with
  | nil => simp at h
  | cons first pool ih =>
    by_cases hfirst : Workspace.isValidName first = true ∧ ¬ taken first
    · exact ⟨first, .picked [] pool rfl rfl hfirst.1 hfirst.2 (by simp)⟩
    · have hrest : ∃ name ∈ pool, Workspace.isValidName name = true ∧ ¬ taken name := by
        obtain ⟨name, hm, hname⟩ := h
        rcases List.mem_cons.mp hm with rfl | hm
        · exact absurd hname hfirst
        · exact ⟨name, hm, hname⟩
      obtain ⟨name, ⟨_, hargs⟩ | ⟨before, rest, _, rfl, hvalid, hfree, hbefore⟩⟩ := ih hrest
      · exact absurd hargs.symm (List.cons_ne_nil _ _)
      · refine ⟨name, .picked (first :: before) rest rfl rfl hvalid hfree ?_⟩
        intro other hm hother
        rcases List.mem_cons.mp hm with rfl | hm
        · exact not_not.mp fun hno => hfirst ⟨hother, hno⟩
        · exact hbefore other hm hother

/-- Only what is taken counts, not how it is listed. -/
theorem Chosen.congr {pool args : List Text} {p q : Text → Prop} {name : Text}
    (h : ∀ x, p x ↔ q x) : Chosen pool args p name ↔ Chosen pool args q name := by
  have hpq : p = q := funext fun x => propext (h x)
  rw [hpq]

end Command

end Paddock
