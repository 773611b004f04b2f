import Mathlib.Data.List.DropRight
import Mathlib.Data.List.TakeWhile
import Paddock.Text.Blank

/-!
# Pieces of a text

Splitting at a glyph and joining with it are inverse on pieces that do not hold it, and neither
makes up a glyph. Trimming leaves no blank at either end, and nothing at all of a blank text.
-/

namespace Paddock

set_option autoImplicit false

namespace Text

variable {x piece separator : Text} {xs pieces : List Text} {g : Glyph} {p : Glyph → Bool}

/-- A piece is made of the text's own glyphs, less those that the text is cut at. -/
theorem mem_and_free_of_mem_splitWhere (h : piece ∈ splitWhere p x) (hg : g ∈ piece) :
    g ∈ x ∧ p g = false := by
  induction x generalizing piece with
  | nil =>
    rw [List.mem_singleton.mp h] at hg
    exact absurd hg List.not_mem_nil
  | cons a x ih =>
    rw [splitWhere] at h
    split at h
    · rcases List.mem_cons.mp h with rfl | h
      · exact absurd hg List.not_mem_nil
      · exact (ih h hg).imp_left (List.mem_cons_of_mem a)
    · next ha =>
      have hfree : p a = false := Bool.eq_false_iff.mpr ha
      split at h
      · rw [List.mem_singleton.mp h] at hg
        obtain rfl := List.mem_singleton.mp hg
        exact ⟨List.mem_cons_self, hfree⟩
      · next first pieces hsplit =>
        rw [hsplit] at ih
        rcases List.mem_cons.mp h with rfl | h
        · rcases List.mem_cons.mp hg with rfl | hg
          · exact ⟨List.mem_cons_self, hfree⟩
          · exact (ih List.mem_cons_self hg).imp_left (List.mem_cons_of_mem a)
        · exact (ih (List.mem_cons_of_mem first h) hg).imp_left (List.mem_cons_of_mem a)

theorem mem_of_mem_splitWhere (h : piece ∈ splitWhere p x) (hg : g ∈ piece) : g ∈ x :=
  (mem_and_free_of_mem_splitWhere h hg).1

theorem not_mem_of_mem_splitAt (h : piece ∈ splitAt g x) : g ∉ piece := by
  intro hg
  have hfree := (mem_and_free_of_mem_splitWhere h hg).2
  simp at hfree

theorem mem_of_mem_joinWith (h : g ∈ joinWith separator pieces) :
    g ∈ separator ∨ ∃ piece ∈ pieces, g ∈ piece := by
  induction pieces with
  | nil => exact absurd h List.not_mem_nil
  | cons piece rest ih =>
    cases rest with
    | nil => exact .inr ⟨piece, List.mem_cons_self, h⟩
    | cons next rest =>
      rw [joinWith, List.append_assoc, List.mem_append, List.mem_append] at h
      rcases h with hm | hm | hm
      · exact .inr ⟨piece, List.mem_cons_self, hm⟩
      · exact .inl hm
      · rcases ih hm with hm | ⟨other, ho, hm⟩
        · exact .inl hm
        · exact .inr ⟨other, List.mem_cons_of_mem piece ho, hm⟩

theorem splitAt_joinWith (hne : xs ≠ []) (h : ∀ x ∈ xs, g ∉ x) :
    splitAt g (joinWith [g] xs) = xs := by
  induction xs with
  | nil => exact absurd rfl hne
  | cons x xs ih =>
    have hx := splitAt_eq_singleton (h x List.mem_cons_self)
    cases xs with
    | nil => exact hx
    | cons y ys =>
      have hrest := ih (List.cons_ne_nil y ys) fun z hz => h z (List.mem_cons_of_mem x hz)
      rw [joinWith, List.append_assoc, List.singleton_append, splitAt_append, hx, hrest]
      rfl

theorem flatMap_joinWith (f : Glyph → Text) (separator : Text) (xs : List Text) :
    (joinWith separator xs).flatMap f =
      joinWith (separator.flatMap f) (xs.map fun x => x.flatMap f) := by
  induction xs with
  | nil => rfl
  | cons x xs ih =>
    cases xs with
    | nil => rfl
    | cons y ys =>
      rw [joinWith, List.flatMap_append, List.flatMap_append, ih]
      rfl

/-- No blank stands at either end. -/
def IsTrimmed (x : Text) : Prop :=
  (∀ g, x.head? = some g → g.isBlank = false) ∧ ∀ g, x.getLast? = some g → g.isBlank = false

theorem isTrimmed_of_forall (h : ∀ g ∈ x, g.isBlank = false) : IsTrimmed x :=
  ⟨fun g hg => h g (List.mem_of_head? hg), fun g hg => h g (List.mem_of_getLast? hg)⟩

theorem dropWhile_eq_self (h : ∀ g, x.head? = some g → p g = false) : x.dropWhile p = x := by
  cases x with
  | nil => rfl
  | cons g x =>
    apply List.dropWhile_cons_of_neg
    simp [h g rfl]

theorem trim_eq_self (h : IsTrimmed x) : trim x = x := by
  have hlast : ∀ g, x.reverse.head? = some g → g.isBlank = false := by
    intro g hg
    rw [List.head?_reverse] at hg
    exact h.2 g hg
  rw [trim, trimLeft, dropWhile_eq_self h.1, trimRight, dropWhile_eq_self hlast,
    List.reverse_reverse]

theorem isBlank_of_head?_trimLeft (h : (trimLeft x).head? = some g) : g.isBlank = false := by
  have hhead := List.head?_dropWhile_not Glyph.isBlank x
  rw [← trimLeft, h] at hhead
  exact hhead

theorem isPrefix_trimRight (x : Text) : trimRight x <+: x := List.rdropWhile_prefix Glyph.isBlank x

theorem isTrimmed_trim (x : Text) : IsTrimmed (trim x) := by
  constructor
  · intro g hg
    obtain ⟨rest, hrest⟩ := isPrefix_trimRight (trimLeft x)
    apply isBlank_of_head?_trimLeft (x := x)
    rw [← hrest, List.head?_append, ← trim, hg]
    rfl
  · intro g hg
    rw [trim, trimRight, List.getLast?_reverse] at hg
    exact isBlank_of_head?_trimLeft (x := (trimLeft x).reverse) hg

theorem mem_of_mem_trim (h : g ∈ trim x) : g ∈ x :=
  (List.dropWhile_suffix Glyph.isBlank).subset ((isPrefix_trimRight (trimLeft x)).subset h)

theorem mem_trim (hx : g ∈ x) (hg : g.isBlank = false) : g ∈ trim x := by
  have hleft : g ∈ trimLeft x := by
    have hcut : x.takeWhile Glyph.isBlank ++ trimLeft x = x := List.takeWhile_append_dropWhile
    rw [← hcut] at hx
    rcases List.mem_append.mp hx with hmem | hmem
    · rw [List.mem_takeWhile_imp hmem] at hg
      exact nomatch hg
    · exact hmem
  have hcut : trim x ++ (trimLeft x).rtakeWhile Glyph.isBlank = trimLeft x :=
    List.rdropWhile_append_rtakeWhile
  rw [← hcut] at hleft
  rcases List.mem_append.mp hleft with hmem | hmem
  · exact hmem
  · rw [List.mem_rtakeWhile_imp hmem] at hg
    exact nomatch hg

theorem trimLeft_eq_nil_iff : trimLeft x = [] ↔ isBlank x = true := by
  rw [trimLeft, List.dropWhile_eq_nil_iff, isBlank, List.all_eq_true]

theorem trim_of_isBlank (h : isBlank x = true) : trim x = [] := by
  rw [trim, trimLeft_eq_nil_iff.mpr h]
  rfl

theorem trim_eq_nil_iff : trim x = [] ↔ isBlank x = true := by
  refine ⟨fun h => ?_, trim_of_isBlank⟩
  have hblank : ∀ g ∈ trimLeft x, g.isBlank = true := List.rdropWhile_eq_nil_iff.mp h
  cases hleft : trimLeft x with
  | nil => exact trimLeft_eq_nil_iff.mp hleft
  | cons g y =>
    have hg : g.isBlank = false := isBlank_of_head?_trimLeft (x := x) (by rw [hleft]; rfl)
    rw [hblank g (hleft ▸ List.mem_cons_self)] at hg
    exact nomatch hg

theorem isBlank_eq_false (h : IsTrimmed x) (hne : x ≠ []) : isBlank x = false := by
  obtain ⟨g, y, rfl⟩ := List.exists_cons_of_ne_nil hne
  rw [isBlank, List.all_cons, h.1 g rfl, Bool.false_and]

theorem joinWith_ne_nil (hx : x ≠ []) (separator : Text) (xs : List Text) :
    joinWith separator (x :: xs) ≠ [] := by
  cases xs with
  | nil => exact hx
  | cons y ys =>
    rw [joinWith, List.append_assoc]
    exact List.append_ne_nil_of_left_ne_nil hx _

theorem isTrimmed_joinWith (h : ∀ x ∈ xs, x ≠ [] ∧ IsTrimmed x) (separator : Text) :
    IsTrimmed (joinWith separator xs) := by
  induction xs with
  | nil => exact ⟨nofun, nofun⟩
  | cons x xs ih =>
    obtain ⟨⟨hne, hx⟩, hxs⟩ := List.forall_mem_cons.mp h
    cases xs with
    | nil => exact hx
    | cons y ys =>
      have hrest := ih hxs
      have hjoin := joinWith_ne_nil (hxs y List.mem_cons_self).1 separator ys
      rw [joinWith]
      constructor
      · intro g hg
        rw [List.append_assoc, List.head?_append_of_ne_nil _ hne] at hg
        exact hx.1 g hg
      · intro g hg
        rw [List.getLast?_append_of_ne_nil _ hjoin] at hg
        exact hrest.2 g hg

variable {gap : Text}

theorem trim_append_of_isBlank_left (hgap : isBlank gap = true) (x : Text) :
    trim (gap ++ x) = trim x := by
  rw [trim, trimLeft, List.dropWhile_append_of_pos (List.all_eq_true.mp hgap)]
  rfl

theorem trimRight_append_of_isBlank (hgap : isBlank gap = true) (x : Text) :
    trimRight (x ++ gap) = trimRight x := by
  have hblank : ∀ g ∈ gap.reverse, g.isBlank = true := by
    intro g hg
    exact List.all_eq_true.mp hgap g (List.mem_reverse.mp hg)
  rw [trimRight, List.reverse_append, List.dropWhile_append_of_pos hblank]
  rfl

theorem trim_append_of_isBlank_right (hgap : isBlank gap = true) (x : Text) :
    trim (x ++ gap) = trim x := by
  by_cases hx : isBlank x = true
  · have hboth : isBlank (x ++ gap) = true := by
      rw [isBlank, List.all_append, Bool.and_eq_true]
      exact ⟨hx, hgap⟩
    rw [trim_of_isBlank hboth, trim_of_isBlank hx]
  · have hleft : trimLeft (x ++ gap) = trimLeft x ++ gap := by
      rw [← trimLeft_eq_nil_iff, ← List.isEmpty_iff] at hx
      rw [trimLeft, List.dropWhile_append]
      exact if_neg hx
    rw [trim, hleft, trimRight_append_of_isBlank hgap]
    rfl

/-- What holds no separator goes to the last piece. -/
theorem splitWhere_append_of_free_right (hgap : ∀ g ∈ gap, p g = false) {init : List Text}
    {last : Text} (h : splitWhere p x = init ++ [last]) :
    splitWhere p (x ++ gap) = init ++ [last ++ gap] := by
  induction x generalizing init last with
  | nil =>
    obtain ⟨rfl, rfl⟩ : init = [] ∧ last = [] := by
      cases init with
      | nil => exact ⟨rfl, (List.singleton_inj.mp h).symm⟩
      | cons piece init => simp [splitWhere] at h
    exact splitWhere_eq_singleton hgap
  | cons g x ih =>
    rw [List.cons_append]
    by_cases hg : p g = true
    · rw [splitWhere, if_pos hg] at h ⊢
      cases init with
      | nil => exact absurd (List.cons.inj h).2 (splitWhere_ne_nil p x)
      | cons piece init =>
        obtain ⟨rfl, hrest⟩ := List.cons.inj h
        rw [ih hrest]
        rfl
    · cases hx : splitWhere p x with
      | nil => exact absurd hx (splitWhere_ne_nil p x)
      | cons piece pieces =>
        rw [splitWhere, if_neg hg, hx] at h
        rw [splitWhere, if_neg hg]
        cases init with
        | nil =>
          obtain ⟨rfl, rfl⟩ := List.cons.inj h
          have htail : splitWhere p (x ++ gap) = [] ++ [piece ++ gap] := ih hx
          rw [htail]
          rfl
        | cons first init =>
          obtain ⟨rfl, rfl⟩ := List.cons.inj h
          have htail : splitWhere p (x ++ gap) = (piece :: init) ++ [last ++ gap] := ih hx
          rw [htail]
          rfl

/-- Once the pieces are trimmed, blanks at the ends of the whole text do not count. -/
theorem map_trim_splitAt_trim (hg : g.isBlank = false) (x : Text) :
    (splitAt g (trim x)).map trim = (splitAt g x).map trim := by
  have hfree : ∀ gap : Text, isBlank gap = true → ∀ a ∈ gap, (a == g) = false := by
    intro gap hgap a ha
    rw [beq_eq_false_iff_ne]
    rintro rfl
    rw [List.all_eq_true.mp hgap a ha] at hg
    exact nomatch hg
  have hleft : (splitAt g (trimLeft x)).map trim = (splitAt g x).map trim := by
    have hgap : isBlank (x.takeWhile Glyph.isBlank) = true := List.all_takeWhile
    cases hsplit : splitAt g (trimLeft x) with
    | nil => exact absurd hsplit (splitWhere_ne_nil _ _)
    | cons piece pieces =>
      have hx := splitWhere_append_of_free (hfree _ hgap) hsplit
      rw [trimLeft, List.takeWhile_append_dropWhile] at hx
      rw [splitAt, hx, List.map_cons, List.map_cons, trim_append_of_isBlank_left hgap]
  have hright : ∀ y : Text, (splitAt g (trimRight y)).map trim = (splitAt g y).map trim := by
    intro y
    have hgap : isBlank (y.rtakeWhile Glyph.isBlank) = true :=
      List.all_eq_true.mpr fun a => List.mem_rtakeWhile_imp
    have hy : trimRight y ++ y.rtakeWhile Glyph.isBlank = y :=
      List.rdropWhile_append_rtakeWhile
    obtain ⟨init, last, hsplit⟩ :=
      (List.eq_nil_or_concat (splitAt g (trimRight y))).resolve_left (splitWhere_ne_nil _ _)
    rw [List.concat_eq_append] at hsplit
    have hall := splitWhere_append_of_free_right (hfree _ hgap) hsplit
    rw [hy] at hall
    rw [hsplit, splitAt, hall, List.map_append, List.map_append, List.map_singleton,
      List.map_singleton, trim_append_of_isBlank_right hgap]
  rw [trim, hright, hleft]

end Text

end Paddock
