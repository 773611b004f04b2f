import Paddock.Proofs.Naming
import Paddock.Proofs.Pieces

/-!
# Paths component by component

A rooted path is known by its components, whichever separators stand between them and behind the
last. The workspace that a worktree path lies in is the component behind those of the repository and
`workspaces`, and there is none for any other path.
-/

namespace Paddock

set_option autoImplicit false

open Text (slash)

namespace Path

def isSeparator (g : Glyph) : Bool := g == slash || g == .char '\\'

def components (x : Text) : List Text := (Text.splitWhere isSeparator x).filter (· ≠ [])

structure IsComponent (x : Text) : Prop where
  ne_nil : x ≠ []
  solid : ∀ g ∈ x, isSeparator g = false

def IsTail (x : Text) : Prop := ∀ g, x.head? = some g → isSeparator g = true

/-- Components behind a slash each. -/
def below (xs : List Text) : Text := xs.flatMap (slash :: ·)

variable {x y z rest root : Text} {xs ys : List Text} {g : Glyph}

theorem isSeparator_iff : isSeparator g = true ↔ g = slash ∨ g = .char '\\' := by
  simp [isSeparator]

theorem isSeparator_slash : isSeparator slash = true := rfl

theorem below_cons (x : Text) (xs : List Text) : below (x :: xs) = slash :: (x ++ below xs) := rfl

theorem below_append (xs ys : List Text) : below (xs ++ ys) = below xs ++ below ys :=
  List.flatMap_append

theorem head?_below (h : (below xs).head? = some g) : g = slash := by
  cases xs with
  | nil => exact nomatch h
  | cons x xs => exact (Option.some.inj h).symm

theorem isTail_below (xs : List Text) : IsTail (below xs) := fun _ h =>
  head?_below h ▸ isSeparator_slash

theorem IsTail.append (hx : IsTail x) (hy : IsTail y) : IsTail (x ++ y) := by
  cases x with
  | nil => exact hy
  | cons g x =>
    rintro g ⟨⟩
    exact hx g rfl

theorem components_append (hg : isSeparator g = true) (x y : Text) :
    components (x ++ g :: y) = components x ++ components y := by
  rw [components, Text.splitWhere_append hg, List.filter_append]
  rfl

theorem components_cons (hg : isSeparator g = true) (x : Text) :
    components (g :: x) = components x := components_append hg [] x

theorem components_eq_nil (h : ∀ g ∈ x, isSeparator g = true) : components x = [] := by
  induction x with
  | nil => rfl
  | cons g x ih =>
    obtain ⟨hg, hx⟩ := List.forall_mem_cons.mp h
    rw [components_cons hg, ih hx]

theorem IsComponent.components_append (hx : IsComponent x) (hy : IsTail y) :
    components (x ++ y) = x :: components y := by
  have hone : components x = [x] := by
    rw [components, Text.splitWhere_eq_singleton hx.solid]
    simp [hx.ne_nil]
  cases y with
  | nil => rw [List.append_nil, hone, components_eq_nil (x := []) (by simp)]
  | cons g y =>
    have hg := hy g rfl
    rw [Path.components_append hg, components_cons hg, hone]
    rfl

theorem components_below_append (hxs : ∀ x ∈ xs, IsComponent x) (hy : IsTail y) :
    components (below xs ++ y) = xs ++ components y := by
  induction xs with
  | nil => rfl
  | cons x xs ih =>
    obtain ⟨hx, hxs⟩ := List.forall_mem_cons.mp hxs
    rw [below_cons, List.cons_append, components_cons isSeparator_slash, List.append_assoc,
      hx.components_append ((isTail_below xs).append hy), ih hxs]
    rfl

theorem isComponent_of_mem (h : x ∈ components y) : IsComponent x := by
  obtain ⟨hmem, hne⟩ := List.mem_filter.mp h
  exact ⟨of_decide_eq_true hne, fun g hg => (Text.mem_and_free_of_mem_splitWhere hmem hg).2⟩

theorem slashed_cons_of_separator (hg : isSeparator g = true) (x : Text) :
    slashed (g :: x) = slash :: slashed x := by
  rcases isSeparator_iff.mp hg with rfl | rfl
  · rfl
  · rfl

theorem slashed_cons_of_solid (hg : isSeparator g = false) (x : Text) :
    slashed (g :: x) = g :: slashed x := by
  have hother : g ≠ .char '\\' := by
    rintro rfl
    exact nomatch hg
  show (if g = .char '\\' then slash else g) :: slashed x = _
  rw [if_neg hother]

theorem eq_slash_of_mem_slashed (h : ∀ g ∈ x, isSeparator g = true) :
    ∀ g ∈ slashed x, g = slash := by
  induction x with
  | nil => simp [slashed]
  | cons g x ih =>
    obtain ⟨hg, hx⟩ := List.forall_mem_cons.mp h
    rw [slashed_cons_of_separator hg]
    exact List.forall_mem_cons.mpr ⟨rfl, ih hx⟩

theorem components_slashed (x : Text) : components (slashed x) = components x := by
  have hsplit : Text.splitWhere isSeparator (slashed x) = Text.splitWhere isSeparator x := by
    induction x with
    | nil => rfl
    | cons g x ih =>
      by_cases hg : isSeparator g = true
      · rw [slashed_cons_of_separator hg, Text.splitWhere, Text.splitWhere, ih, if_pos hg,
          if_pos isSeparator_slash]
      · rw [slashed_cons_of_solid (Bool.eq_false_iff.mpr hg), Text.splitWhere, Text.splitWhere, ih]
  rw [components, hsplit, components]

theorem takeWhile_append_tail {p : Glyph → Bool} (hx : ∀ g ∈ x, p g = true)
    (hy : ∀ g, y.head? = some g → p g = false) : (x ++ y).takeWhile p = x := by
  rw [List.takeWhile_append_of_pos hx]
  cases y with
  | nil => simp
  | cons g y => simp [hy g rfl]

theorem IsComponent.takeWhile_append (hx : IsComponent x) (hy : ∀ g, y.head? = some g → g = slash) :
    (x ++ y).takeWhile (· != slash) = x := by
  apply takeWhile_append_tail
  · intro g hg
    rw [bne_iff_ne]
    rintro rfl
    exact nomatch hx.solid slash hg
  · intro g hg
    rw [hy g hg]
    rfl

theorem IsComponent.append_inj {x' y' : Text} (hx : IsComponent x) (hx' : IsComponent x')
    (hy : IsTail y) (hy' : IsTail y') (h : x ++ y = x' ++ y') : x = x' ∧ y = y' := by
  have htake : ∀ {z t : Text}, IsComponent z → IsTail t →
      (z ++ t).takeWhile (fun g => !isSeparator g) = z := by
    intro z t hz ht
    apply takeWhile_append_tail
    · exact fun g hg => by simp [hz.solid g hg]
    · exact fun g hg => by simp [ht g hg]
  have hsame : x = x' := by rw [← htake hx hy, h, htake hx' hy']
  subst hsame
  exact ⟨rfl, List.append_cancel_left h⟩

theorem below_eq_append_iff (hxs : ∀ x ∈ xs, IsComponent x) (hys : ∀ y ∈ ys, IsComponent y) :
    below ys = below xs ++ slash :: rest ↔
      ∃ y more, ys = xs ++ y :: more ∧ rest = y ++ below more := by
  induction xs generalizing ys with
  | nil =>
    cases ys with
    | nil => simp [below]
    | cons y ys => simp [below, eq_comm]
  | cons x xs ih =>
    obtain ⟨hx, hxs⟩ := List.forall_mem_cons.mp hxs
    cases ys with
    | nil => simp [below]
    | cons y ys =>
      obtain ⟨hy, hys⟩ := List.forall_mem_cons.mp hys
      have htail : IsTail (below xs ++ slash :: rest) :=
        (isTail_below xs).append (by rintro g ⟨⟩; rfl)
      have hcancel : y ++ below ys = x ++ (below xs ++ slash :: rest) ↔
          y = x ∧ below ys = below xs ++ slash :: rest := by
        refine ⟨hy.append_inj hx (isTail_below ys) htail, ?_⟩
        rintro ⟨rfl, h⟩
        rw [h]
      rw [below_cons, below_cons, List.cons_append, List.cons.injEq, List.append_assoc, hcancel,
        ih hxs hys]
      simp [and_assoc]

/-- No two separators stand next to each other but at the end. -/
def Spaced (x : Text) : Prop := ∀ before a b after, x = before ++ a :: b :: after →
  isSeparator a = true → isSeparator b = true → ∀ g ∈ after, isSeparator g = true

/-- A path from the root, with single separators between its components. -/
structure IsRooted (x : Text) : Prop where
  opens : ∃ g rest, x = g :: rest ∧ isSeparator g = true
  spaced : Spaced x

theorem IsRooted.ne_nil (h : IsRooted x) : x ≠ [] := by
  obtain ⟨g, rest, rfl, -⟩ := h.opens
  exact List.cons_ne_nil g rest

theorem Spaced.of_cons (h : Spaced (g :: x)) : Spaced x :=
  fun before a b after hx => h (g :: before) a b after (congrArg (g :: ·) hx)

theorem Spaced.singleton (g : Glyph) : Spaced [g] := by
  rintro (- | ⟨c, before⟩) a b after h
  · exact nomatch h
  · simp at h

theorem Spaced.cons {a b : Glyph}
    (h : isSeparator a = true → isSeparator b = true → ∀ g ∈ x, isSeparator g = true)
    (hx : Spaced (b :: x)) : Spaced (a :: b :: x) := by
  rintro (- | ⟨e, before⟩) c d after heq
  · obtain ⟨rfl, rfl, rfl⟩ : a = c ∧ b = d ∧ x = after := by simpa using heq
    exact h
  · exact hx before c d after (List.cons.inj heq).2

theorem Spaced.exists_below (h : Spaced x) : ∃ front xs ending,
    slashed x = front ++ (below xs ++ ending) ∧ (∀ g ∈ front, isSeparator g = false) ∧
      (∀ x ∈ xs, IsComponent x) ∧ ∀ g ∈ ending, g = slash := by
  induction x with
  | nil => exact ⟨[], [], [], rfl, by simp, by simp, by simp⟩
  | cons g x ih =>
    obtain ⟨front, xs, ending, hx, hfront, hxs, hending⟩ := ih h.of_cons
    by_cases hg : isSeparator g = true
    · rw [slashed_cons_of_separator hg, hx]
      cases front with
      | cons a front =>
        refine ⟨[], (a :: front) :: xs, ending, ?_, by simp, ?_, hending⟩
        · exact congrArg (slash :: ·) (List.append_assoc (a :: front) (below xs) ending).symm
        · exact List.forall_mem_cons.mpr ⟨⟨List.cons_ne_nil a front, hfront⟩, hxs⟩
      | nil =>
        cases xs with
        | nil => exact ⟨[], [], slash :: ending, rfl, by simp, by simp, by simpa using hending⟩
        | cons y xs =>
          -- a second separator, and then a glyph of a component
          exfalso
          cases x with
          | nil => exact nomatch hx
          | cons b x =>
            have hb : isSeparator b = true := by
              by_contra hb
              rw [slashed_cons_of_solid (Bool.eq_false_iff.mpr hb)] at hx
              exact hb ((List.cons.inj hx).1 ▸ isSeparator_slash)
            rw [slashed_cons_of_separator hb] at hx
            have hrest : slashed x = y ++ below xs ++ ending := (List.cons.inj hx).2
            have hy := hxs y List.mem_cons_self
            obtain ⟨a, y, rfl⟩ := List.exists_cons_of_ne_nil hy.ne_nil
            have ha : a = slash := by
              apply eq_slash_of_mem_slashed (h [] g b x rfl hg hb)
              rw [hrest]
              exact List.mem_cons_self
            rw [ha] at hy
            exact nomatch hy.solid slash List.mem_cons_self
    · rw [Bool.not_eq_true] at hg
      refine ⟨g :: front, xs, ending, ?_, List.forall_mem_cons.mpr ⟨hg, hfront⟩, hxs, hending⟩
      rw [slashed_cons_of_solid hg, hx, List.cons_append]

theorem IsRooted.slashed_eq (h : IsRooted x) : ∃ ending,
    slashed x = below (components x) ++ ending ∧ ∀ g ∈ ending, g = slash := by
  obtain ⟨front, xs, ending, hx, hfront, hxs, hending⟩ := h.spaced.exists_below
  obtain ⟨g, rest, rfl, hg⟩ := h.opens
  cases front with
  | cons a front =>
    rw [slashed_cons_of_separator hg] at hx
    have ha : slash = a := (List.cons.inj hx).1
    rw [← ha] at hfront
    exact nomatch hfront slash List.mem_cons_self
  | nil =>
    have hseparators : ∀ g ∈ ending, isSeparator g = true := by
      intro a ha
      rw [hending a ha]
      rfl
    have htail : IsTail ending := fun a ha => hseparators a (List.mem_of_head? ha)
    have hcomponents : components (g :: rest) = xs := by
      rw [← components_slashed, hx, List.nil_append, components_below_append hxs htail,
        components_eq_nil hseparators, List.append_nil]
    exact ⟨ending, hcomponents ▸ hx, hending⟩

theorem dropTrailingSlashes_append_slashes (hy : ∀ g ∈ y, g = slash) (x : Text) :
    dropTrailingSlashes (x ++ y) = dropTrailingSlashes x := by
  have hslashes : ∀ g ∈ y.reverse, isSlash g = true := by
    intro g hg
    rw [hy g (List.mem_reverse.mp hg)]
    rfl
  rw [dropTrailingSlashes, List.reverse_append, List.dropWhile_append_of_pos hslashes]
  rfl

theorem IsComponent.getLast?_append (hx : IsComponent x) (y : Text) :
    (y ++ x).getLast? ≠ some slash := by
  rw [List.getLast?_append_of_ne_nil _ hx.ne_nil]
  intro hlast
  exact nomatch hx.solid slash (List.mem_of_getLast? hlast)

/-- A tidy path that can stand behind any other. -/
structure IsRelative (x : Text) : Prop extends Tidy x where
  ne_nil : x ≠ []
  no_slash_at_start : x.head? ≠ some slash

theorem IsComponent.relative (hx : IsComponent x) : IsRelative x where
  no_backslash hmem := nomatch hx.solid _ hmem
  no_slash_at_end := hx.getLast?_append []
  ne_nil := hx.ne_nil
  no_slash_at_start h := nomatch hx.solid slash (List.mem_of_head? h)

theorem Tidy.append_tidy (hx : Tidy x) (hy : Tidy y) : Tidy (x ++ y) := by
  by_cases hne : y = []
  · rw [hne, List.append_nil]
    exact hx
  · exact Tidy.append hx.no_backslash hy hne

theorem IsRelative.append (hx : IsRelative x) (hy : Tidy y) : IsRelative (x ++ y) where
  toTidy := hx.append_tidy hy
  ne_nil := List.append_ne_nil_of_left_ne_nil hx.ne_nil y
  no_slash_at_start := by
    rw [List.head?_append_of_ne_nil x hx.ne_nil]
    exact hx.no_slash_at_start

theorem IsRelative.tidy_slash (hx : IsRelative x) : Tidy (slash :: x) :=
  Tidy.append (x := [slash]) (by decide) hx.toTidy hx.ne_nil

theorem tidy_below_components (x : Text) : Tidy (below (components x)) where
  no_backslash := by
    intro hmem
    obtain ⟨part, hpart, hmem⟩ := List.mem_flatMap.mp hmem
    rcases List.mem_cons.mp hmem with hslash | hmem
    · exact nomatch hslash
    · exact nomatch (isComponent_of_mem hpart).solid _ hmem
  no_slash_at_end := by
    rcases List.eq_nil_or_concat' (components x) with hnil | ⟨init, last, hlast⟩
    · rw [hnil]
      exact nofun
    · have hcomponent : IsComponent last :=
        isComponent_of_mem (hlast ▸ List.mem_append_right init List.mem_cons_self)
      have hbelow : below (init ++ [last]) = (below init ++ [slash]) ++ last := by
        simp [below]
      rw [hlast, hbelow]
      exact hcomponent.getLast?_append _

theorem IsRooted.normalize_eq (h : IsRooted x) (hne : components x ≠ []) :
    normalize x = below (components x) := by
  obtain ⟨ending, hx, hending⟩ := h.slashed_eq
  have hlone : slashed x ≠ [slash] := by
    intro hslash
    apply hne
    rw [← components_slashed, hslash]
    rfl
  rw [normalize, if_neg hlone, hx, dropTrailingSlashes_append_slashes hending,
    dropTrailingSlashes_eq_self (tidy_below_components x).no_slash_at_end]

theorem normalize_congr (h : slashed x = slashed y) : normalize x = normalize y := by
  rw [normalize, normalize, h]

/-- Behind a tidy path only the tail loses slashes. -/
theorem normalize_append (hx : Tidy x) (hne : x ≠ []) (y : Text) :
    normalize (x ++ y) = x ++ dropTrailingSlashes (slashed y) := by
  have hlone : x ++ slashed y ≠ [slash] := by
    intro hlone
    rcases List.append_eq_singleton_iff.mp hlone with ⟨hnil, -⟩ | ⟨hslash, -⟩
    · exact hne hnil
    · exact hx.no_slash_at_end (hslash ▸ rfl)
  rw [normalize, slashed_append, slashed_eq_self hx.no_backslash, if_neg hlone,
    dropTrailingSlashes, List.reverse_append, List.dropWhile_append]
  split
  · rename_i hall
    rw [dropTrailingSlashes, List.isEmpty_iff.mp hall]
    exact (dropTrailingSlashes_eq_self hx.no_slash_at_end).trans (List.append_nil x).symm
  · rw [List.reverse_append, List.reverse_reverse]
    rfl

theorem tidy_dropTrailingSlashes (x : Text) : Tidy (dropTrailingSlashes (slashed x)) where
  no_backslash := by
    intro hmem
    have hmem' := (List.dropWhile_sublist _).subset (List.mem_reverse.mp hmem)
    exact backslash_not_mem_slashed x (List.mem_reverse.mp hmem')
  no_slash_at_end := by
    rw [dropTrailingSlashes, List.getLast?_reverse]
    intro hhead
    have hkept := List.head?_dropWhile_not isSlash (slashed x).reverse
    rw [hhead] at hkept
    exact Bool.noConfusion hkept

theorem dropTrailingSlashes_prefix (x : Text) : dropTrailingSlashes x <+: x := by
  rw [← List.reverse_suffix, dropTrailingSlashes, List.reverse_reverse]
  exact List.dropWhile_suffix isSlash

theorem head?_dropTrailingSlashes (hx : IsTail x)
    (h : (dropTrailingSlashes (slashed x)).head? = some g) : g = slash := by
  obtain ⟨rest, hrest⟩ := List.head?_eq_some_iff.mp h
  obtain ⟨ending, hending⟩ := dropTrailingSlashes_prefix (slashed x)
  rw [hrest] at hending
  cases x with
  | nil => exact absurd hending (List.cons_ne_nil g _)
  | cons a x =>
    rw [slashed_cons_of_separator (hx a rfl)] at hending
    exact (List.cons.inj hending).1

/-- A rooted path that is no run of separators, unless it is a single one. -/
structure IsRoot (x : Text) : Prop where
  rooted : IsRooted x
  proper : (∃ g, x = [g]) ∨ ∃ g ∈ x, isSeparator g = false

theorem IsRooted.components_ne_nil (h : IsRooted x) (hg : g ∈ x) (hsolid : isSeparator g = false) :
    components x ≠ [] := by
  intro hnil
  obtain ⟨ending, hx, hending⟩ := h.slashed_eq
  rw [hnil] at hx
  have hkept : g ∈ slashed x := by
    obtain ⟨before, after, rfl⟩ := List.append_of_mem hg
    rw [slashed_append, slashed_cons_of_solid hsolid]
    exact List.mem_append_right _ List.mem_cons_self
  rw [hx] at hkept
  rw [hending g hkept] at hsolid
  exact nomatch hsolid

theorem IsRoot.normalize_eq (h : IsRoot root) :
    components root = [] ∧ normalize root = [slash] ∨
      components root ≠ [] ∧ normalize root = below (components root) := by
  by_cases hcomponents : components root = []
  · rcases h.proper with ⟨g, rfl⟩ | ⟨g, hg, hsolid⟩
    · obtain ⟨a, rest, hopens, ha⟩ := h.rooted.opens
      rw [← (List.cons.inj hopens).1] at ha
      refine .inl ⟨hcomponents, ?_⟩
      rw [normalize, slashed_cons_of_separator ha]
      rfl
    · exact absurd hcomponents (h.rooted.components_ne_nil hg hsolid)
  · exact .inr ⟨hcomponents, h.rooted.normalize_eq hcomponents⟩

theorem IsRoot.join_eq (h : IsRoot root) (hx : IsRelative x) :
    join [root, x] = below (components root) ++ slash :: x := by
  have hjoin : join [root, x] = attach (normalize root) x := by
    simp [join, h.rooted.ne_nil, hx.ne_nil]
  rw [hjoin, attach, normalize_eq_self hx.toTidy, dropLeadingSlashes_eq_self hx.no_slash_at_start]
  simp only [if_neg hx.ne_nil]
  rcases h.normalize_eq with ⟨hnil, hnormal⟩ | ⟨hcomponents, hnormal⟩
  · rw [hnil, hnormal]
    rfl
  · have htidy := tidy_below_components root
    have hlone : below (components root) ≠ [slash] := by
      intro hslash
      rw [hslash] at htidy
      exact htidy.no_slash_at_end rfl
    have hbelow : below (components root) ≠ [] := by
      obtain ⟨y, ys, hys⟩ := List.exists_cons_of_ne_nil hcomponents
      rw [hys, below_cons]
      exact List.cons_ne_nil _ _
    rw [hnormal, if_neg hbelow, if_neg hlone]

end Path

namespace Workspace

open Paddock.Path

variable {repoRoot path name tail rest x : Text} {xs : List Text}

theorem isComponent_directoryName : IsComponent directoryName :=
  ⟨by decide, by decide⟩

theorem resolve_congr {other : Text} (h : slashed path = slashed other) :
    resolve repoRoot path = resolve repoRoot other := by
  rw [resolve, resolve, normalize_congr h]

theorem resolve_of_normalize_eq_cons (h : Path.normalize path = slash :: rest) :
    resolve repoRoot path = slash :: rest := by
  rw [resolve, h]
  rfl

theorem resolve_rooted (h : IsRooted path) (hne : components path ≠ []) :
    resolve repoRoot path = below (components path) := by
  have hnormal := h.normalize_eq hne
  obtain ⟨x, xs, hxs⟩ := List.exists_cons_of_ne_nil hne
  rw [hxs, below_cons] at hnormal ⊢
  exact resolve_of_normalize_eq_cons hnormal

section Root

variable (hroot : IsRoot repoRoot)
include hroot

theorem root_eq_below : root repoRoot = below (components repoRoot ++ [directoryName]) := by
  rw [root, hroot.join_eq isComponent_directoryName.relative, below_append]
  simp [below]

/-- A path that has no component stands for the top or for the repository. -/
theorem resolve_of_components_eq_nil (h : IsRooted path) (hnil : components path = []) :
    resolve repoRoot path = [slash] ∨ resolve repoRoot path = below (components repoRoot) := by
  obtain ⟨ending, hpath, hending⟩ := h.slashed_eq
  rw [hnil] at hpath
  by_cases hlone : slashed path = [slash]
  · have hnormal : Path.normalize path = [slash] := if_pos hlone
    exact .inl (resolve_of_normalize_eq_cons hnormal)
  · have hnormal : Path.normalize path = [] := by
      rw [Path.normalize, if_neg hlone, hpath, dropTrailingSlashes_append_slashes hending]
      rfl
    have hresolve : resolve repoRoot path = Path.normalize repoRoot := by
      rw [resolve, hnormal]
      simp [Text.startsWith, Text.dropFront?, join, hroot.rooted.ne_nil]
    rw [hresolve]
    exact hroot.normalize_eq.imp And.right And.right

/-- What `resolve` gives for a path below the repository, seen from the repository. -/
theorem resolve_relative (hx : IsRelative x) (tail : Text) : resolve repoRoot (x ++ tail) =
    below (components repoRoot) ++ slash :: (x ++ dropTrailingSlashes (slashed tail)) := by
  have hrelative : IsRelative (x ++ dropTrailingSlashes (slashed tail)) :=
    hx.append (tidy_dropTrailingSlashes tail)
  have hstart : ¬ Text.startsWith [slash] (x ++ dropTrailingSlashes (slashed tail)) = true := by
    rw [Text.startsWith_iff]
    rintro ⟨rest, hrest⟩
    rw [← hrest] at hrelative
    exact hrelative.no_slash_at_start rfl
  rw [resolve, normalize_append hx.toTidy hx.ne_nil, if_neg hstart]
  exact hroot.join_eq hrelative

theorem resolve_join (hx : IsRelative x) (tail : Text) :
    resolve repoRoot (join [repoRoot, x] ++ tail) =
      below (components repoRoot) ++ slash :: (x ++ dropTrailingSlashes (slashed tail)) := by
  have htidy : Tidy (below (components repoRoot) ++ slash :: x) :=
    (tidy_below_components repoRoot).append_tidy hx.tidy_slash
  obtain ⟨rest, hrest⟩ : ∃ rest, below (components repoRoot) ++ slash :: x = slash :: rest := by
    cases components repoRoot with
    | nil => exact ⟨x, rfl⟩
    | cons y ys => exact ⟨_, rfl⟩
  rw [hroot.join_eq hx, resolve, normalize_append htidy (by simp) tail, if_pos]
  · rw [List.append_assoc, List.cons_append]
  · rw [hrest]
    rfl

theorem nameOfPath?_eq_some_iff : nameOfPath? repoRoot path = some name ↔
    ∃ rest,
      resolve repoRoot path = below (components repoRoot ++ [directoryName]) ++ slash :: rest ∧
      rest.takeWhile (· != slash) = name ∧ name ≠ [] := by
  have hbehind : ∀ rest, below (components repoRoot ++ [directoryName]) ++ slash :: rest =
      root repoRoot ++ [slash] ++ rest := by
    intro rest
    rw [root_eq_below hroot, List.append_assoc, List.singleton_append]
  simp only [hbehind, ← Text.dropFront?_eq_some_iff]
  unfold nameOfPath?
  cases Text.dropFront? (root repoRoot ++ [slash]) (resolve repoRoot path) with
  | none => simp
  | some rest =>
    simp only [Option.some.injEq, exists_eq_left']
    split
    · rename_i hnil
      simp +contextual [hnil, eq_comm]
    · rename_i hne
      rw [Option.some.injEq]
      refine ⟨?_, And.left⟩
      rintro rfl
      exact ⟨rfl, hne⟩

theorem nameOfPath?_of_resolve_eq_below (hxs : ∀ x ∈ xs, IsComponent x)
    (h : resolve repoRoot path = below xs) :
    nameOfPath? repoRoot path = some name ↔
      ∃ more, xs = components repoRoot ++ directoryName :: name :: more := by
  have hdirectory : ∀ x ∈ components repoRoot ++ [directoryName], IsComponent x := by
    intro x hx
    rcases List.mem_append.mp hx with hx | hx
    · exact isComponent_of_mem hx
    · exact List.mem_singleton.mp hx ▸ isComponent_directoryName
  rw [nameOfPath?_eq_some_iff hroot, h]
  constructor
  · rintro ⟨rest, hrest, htake, -⟩
    obtain ⟨y, more, hys, rfl⟩ := (below_eq_append_iff hdirectory hxs).mp hrest
    have hy : IsComponent y := hxs y (by simp [hys])
    rw [hy.takeWhile_append fun _ => head?_below] at htake
    exact ⟨more, by simp [hys, htake]⟩
  · rintro ⟨more, rfl⟩
    have hname : IsComponent name := hxs name (by simp)
    refine ⟨name ++ below more, ?_, hname.takeWhile_append fun _ => head?_below, hname.ne_nil⟩
    rw [below_eq_append_iff hdirectory hxs]
    exact ⟨name, more, by simp, rfl⟩

theorem nameOfPath?_eq_none_of_length_le
    (h : (resolve repoRoot path).length ≤ (below (components repoRoot)).length + 1) :
    nameOfPath? repoRoot path = none := by
  rw [Option.eq_none_iff_forall_ne_some]
  intro name hname
  obtain ⟨rest, hrest, -⟩ := (nameOfPath?_eq_some_iff hroot).mp hname
  rw [hrest, below_append, List.append_assoc, List.length_append] at h
  simp [below] at h

/-- What stands behind the directory of the workspaces starts with the name. -/
theorem nameOfPath?_of_resolve_within (hname : IsComponent name)
    (htail : ∀ g, tail.head? = some g → g = slash)
    (h : resolve repoRoot path =
      below (components repoRoot) ++ slash :: (directoryName ++ slash :: (name ++ tail))) :
    nameOfPath? repoRoot path = some name := by
  rw [nameOfPath?_eq_some_iff hroot]
  refine ⟨name ++ tail, ?_, hname.takeWhile_append htail, hname.ne_nil⟩
  simp [h, below]

theorem nameOfPath?_of_resolve_beside (hx : IsComponent x) (hne : x ≠ directoryName)
    (htail : ∀ g, tail.head? = some g → g = slash)
    (h : resolve repoRoot path = below (components repoRoot) ++ slash :: (x ++ tail)) :
    nameOfPath? repoRoot path = none := by
  rw [Option.eq_none_iff_forall_ne_some]
  intro name hname
  obtain ⟨rest, hrest, -⟩ := (nameOfPath?_eq_some_iff hroot).mp hname
  have hsame : x ++ tail = directoryName ++ slash :: rest := by
    rw [h, below_append, List.append_assoc] at hrest
    simpa [below] using List.append_cancel_left hrest
  have htail' : IsTail tail := fun g hg => htail g hg ▸ isSeparator_slash
  exact hne (hx.append_inj isComponent_directoryName htail' (by rintro g ⟨⟩; rfl) hsame).1

end Root

theorem hasSeparator_eq_false (hname : IsComponent name) : hasSeparator name = false := by
  rw [hasSeparator, List.any_eq_false]
  intro g hg
  exact Bool.eq_false_iff.mp (hname.solid g hg)

theorem relative_directory (hname : IsComponent name) :
    IsRelative (directoryName ++ slash :: name) :=
  isComponent_directoryName.relative.append hname.relative.tidy_slash

theorem relativePath?_of_isComponent (hname : IsComponent name) :
    relativePath? name = some (directoryName ++ slash :: name) := by
  rw [relativePath?, hasSeparator_eq_false hname, if_neg Bool.false_ne_true,
    join_pair tidy_directoryName hname.relative.toTidy isComponent_directoryName.ne_nil hname.ne_nil
      hname.relative.no_slash_at_start]

/-- Workspace names are read off paths component by component. -/
structure ReadsNames (repoRoot : Text) : Prop where
  name_iff : ∀ path name, IsRooted path → (nameOfPath? repoRoot path = some name ↔
    ∃ more, components path = components repoRoot ++ directoryName :: name :: more)
  none_iff : ∀ path, IsRooted path → (nameOfPath? repoRoot path = none ↔
    ∀ name more, components path ≠ components repoRoot ++ directoryName :: name :: more)
  within : ∀ name tail, IsComponent name → IsTail tail →
    ∃ directory, relativePath? name = some directory ∧
      nameOfPath? repoRoot (join [repoRoot, directory] ++ tail) = some name
  relative : ∀ g name tail, isSeparator g = true → IsComponent name → IsTail tail →
    nameOfPath? repoRoot (directoryName ++ g :: (name ++ tail)) = some name
  beside : ∀ other tail, IsComponent other → other ≠ directoryName → IsTail tail →
    nameOfPath? repoRoot (join [repoRoot, other] ++ tail) = none ∧
      nameOfPath? repoRoot (other ++ tail) = none

theorem nameOfPath?_rooted (hroot : IsRoot repoRoot) (h : IsRooted path) :
    nameOfPath? repoRoot path = some name ↔
      ∃ more, components path = components repoRoot ++ directoryName :: name :: more := by
  by_cases hnil : components path = []
  · have hnone : nameOfPath? repoRoot path = none := by
      apply nameOfPath?_eq_none_of_length_le hroot
      rcases resolve_of_components_eq_nil hroot h hnil with hres | hres
      · rw [hres]
        exact Nat.le_add_left 1 _
      · rw [hres]
        exact Nat.le_succ _
    simp [hnone, hnil]
  · exact nameOfPath?_of_resolve_eq_below hroot (fun _ => isComponent_of_mem)
      (resolve_rooted h hnil)

theorem nameOfPath?_reads (hroot : IsRoot repoRoot) : ReadsNames repoRoot where
  name_iff path name h := nameOfPath?_rooted hroot h
  none_iff path h := by
    rw [Option.eq_none_iff_forall_ne_some]
    simp [nameOfPath?_rooted hroot h]
  within name tail hname htail := by
    refine ⟨_, relativePath?_of_isComponent hname, ?_⟩
    apply nameOfPath?_of_resolve_within hroot hname fun _ => head?_dropTrailingSlashes htail
    rw [resolve_join hroot (relative_directory hname), List.append_assoc, List.cons_append]
  relative g name tail hg hname htail := by
    apply nameOfPath?_of_resolve_within hroot hname fun _ => head?_dropTrailingSlashes htail
    have hsame : slashed (directoryName ++ g :: (name ++ tail)) =
        slashed (directoryName ++ slash :: name ++ tail) := by
      rw [List.append_assoc, List.cons_append, slashed_append, slashed_append,
        slashed_cons_of_separator hg, slashed_cons_of_separator isSeparator_slash]
    rw [resolve_congr hsame, resolve_relative hroot (relative_directory hname), List.append_assoc,
      List.cons_append]
  beside other tail hother hne htail := by
    have hread : ∀ path, resolve repoRoot path =
        below (components repoRoot) ++ slash :: (other ++ dropTrailingSlashes (slashed tail)) →
        nameOfPath? repoRoot path = none := fun _ =>
      nameOfPath?_of_resolve_beside hroot hother hne fun _ => head?_dropTrailingSlashes htail
    exact ⟨hread _ (resolve_join hroot hother.relative tail),
      hread _ (resolve_relative hroot hother.relative tail)⟩

theorem nameOfPath?_reads_mixed : IsRoot "\\r//" ∧
    nameOfPath? "\\r//" "/r\\workspaces/n//" = some "n" ∧
    nameOfPath? "\\r//" "workspaces\\n/x" = some "n" := by
  have hroot : IsRoot "\\r//" := by
    refine ⟨⟨⟨_, _, rfl, by decide⟩, ?_⟩, .inr ⟨.char 'r', by decide, by decide⟩⟩
    exact .cons (by decide) (.cons (by decide) (.cons (by decide) (.singleton _)))
  have hpath : IsRooted "/r\\workspaces/n//" := by
    refine ⟨⟨_, _, rfl, by decide⟩, ?_⟩
    iterate 16 refine .cons (by decide) ?_
    exact .singleton _
  have hreads := nameOfPath?_reads hroot
  refine ⟨hroot, (hreads.name_iff _ _ hpath).mpr ⟨[], by decide⟩, ?_⟩
  exact hreads.relative (.char '\\') "n" "/x" rfl ⟨by decide, by decide⟩ (by rintro g ⟨⟩; rfl)

end Workspace

end Paddock
