import Paddock.Command.Completion
import Paddock.Proofs.Sorting
import Paddock.Proofs.Spelling

/-!
# Completed command names

The commands that a front may be completed to are those whose names start with it. One of them alone
is completed to a line that runs it. Of several the longest front that all share is typed out, which
leaves none of them out, so that completing once more changes nothing.
-/

namespace Paddock.Command

set_option autoImplicit false

open Text (space)

variable {catalogue : Catalogue} {x y front shared name other : Text} {xs : List Text}

theorem prefix_commonFront_iff : other <+: commonFront x y ↔ other <+: x ∧ other <+: y := by
  constructor
  · intro h
    have hright : commonFront x y <+: y := commonFront_comm x y ▸ commonFront_prefix_left y x
    exact ⟨h.trans (commonFront_prefix_left x y), h.trans hright⟩
  · rintro ⟨hx, hy⟩
    induction other generalizing x y with
    | nil => exact List.nil_prefix
    | cons g other ih =>
      obtain ⟨x, rfl⟩ := hx
      obtain ⟨y, rfl⟩ := hy
      have hrest := ih (List.prefix_append other x) (List.prefix_append other y)
      simpa [commonFront] using hrest

theorem prefix_foldl_commonFront_iff :
    other <+: xs.foldl commonFront x ↔ ∀ y ∈ x :: xs, other <+: y := by
  induction xs generalizing x with
  | nil => simp
  | cons y ys ih =>
    rw [List.foldl_cons, ih]
    simp [prefix_commonFront_iff, and_assoc]

/-- The command's name starts with the front. -/
structure Offers (catalogue : Catalogue) (front name : Text) : Prop where
  listed : name ∈ names catalogue
  opens : front <+: name

theorem mem_candidates : name ∈ candidates catalogue front ↔ Offers catalogue front name := by
  rw [candidates, Text.mem_sortedSet, List.mem_filter, Text.startsWith_iff]
  exact ⟨fun h => ⟨h.1, h.2⟩, fun h => ⟨h.listed, h.opens⟩⟩

structure IsOnly (catalogue : Catalogue) (front name : Text) : Prop where
  offers : Offers catalogue front name
  unique : ∀ other, Offers catalogue front other → other = name

/-- The longest front of all the commands whose names start with the front. -/
structure IsShared (catalogue : Catalogue) (front shared : Text) : Prop where
  opens : ∀ name, Offers catalogue front name → shared <+: name
  longest : ∀ other, (∀ name, Offers catalogue front name → other <+: name) → other <+: shared

theorem IsShared.extends (h : IsShared catalogue front shared) : front <+: shared :=
  h.longest front fun _ hname => hname.opens

theorem IsShared.offers_iff (h : IsShared catalogue front shared) :
    Offers catalogue shared name ↔ Offers catalogue front name :=
  ⟨fun hname => ⟨hname.listed, h.extends.trans hname.opens⟩,
    fun hname => ⟨hname.listed, h.opens name hname⟩⟩

/-- The text has a command line's colon and after it nothing but the front of a name. -/
structure Typed (x front : Text) : Prop where
  opens : Text.trimLeft x = colon :: front
  solid : ∀ g ∈ front, g.isBlank = false

theorem complete_of_typed (h : Typed x front) : complete catalogue x =
    match candidates catalogue front with
    | [] => none
    | [name] => some (colon :: name ++ [space])
    | name :: others => some (colon :: others.foldl commonFront name) := by
  have hsolid : ¬ (colon ≠ colon ∨ front.any Glyph.isBlank = true) := by
    rintro (hcolon | hblank)
    · exact hcolon rfl
    · obtain ⟨g, hg, hblank⟩ := List.any_eq_true.mp hblank
      rw [h.solid g hg] at hblank
      exact nomatch hblank
  rw [complete, h.opens]
  exact if_neg hsolid

theorem complete_of_not_typed (h : ∀ front, ¬ Typed x front) : complete catalogue x = none := by
  rw [complete]
  cases htrim : Text.trimLeft x with
  | nil => rfl
  | cons g front =>
    apply if_pos
    by_contra hno
    rw [not_or, not_not] at hno
    refine h front ⟨hno.1 ▸ htrim, ?_⟩
    intro a ha
    exact Bool.eq_false_iff.mpr fun hblank => hno.2 (List.any_eq_true.mpr ⟨a, ha, hblank⟩)

/-- What a front is completed to: nothing, the only command, or what the commands share. -/
inductive Completes (catalogue : Catalogue) (front : Text) : Option Text → Prop where
  | nothing (h : ∀ name, ¬ Offers catalogue front name) : Completes catalogue front none
  | only {name : Text} (h : IsOnly catalogue front name) :
      Completes catalogue front (some (colon :: name ++ [space]))
  | shared {one other shared : Text} (hone : Offers catalogue front one)
      (hother : Offers catalogue front other) (hne : one ≠ other)
      (h : IsShared catalogue front shared) : Completes catalogue front (some (colon :: shared))

theorem completes_of_typed (h : Typed x front) :
    Completes catalogue front (complete catalogue x) := by
  have hmem : ∀ name, name ∈ candidates catalogue front ↔ Offers catalogue front name :=
    fun _ => mem_candidates
  have hnodup : (candidates catalogue front).Nodup := Text.nodup_sortedSet _
  rw [complete_of_typed h]
  cases hcandidates : candidates catalogue front with
  | nil =>
    rw [hcandidates] at hmem
    exact .nothing fun name hname => List.not_mem_nil ((hmem name).mpr hname)
  | cons name others =>
    rw [hcandidates] at hmem hnodup
    have hname : Offers catalogue front name := (hmem name).mp List.mem_cons_self
    cases others with
    | nil =>
      refine .only ⟨hname, ?_⟩
      intro other hother
      exact List.mem_singleton.mp ((hmem other).mpr hother)
    | cons other rest =>
      have hother : Offers catalogue front other :=
        (hmem other).mp (List.mem_cons_of_mem name List.mem_cons_self)
      have hne : name ≠ other := (List.pairwise_cons.mp hnodup).1 other List.mem_cons_self
      refine .shared hname hother hne ⟨?_, ?_⟩
      · intro command hcommand
        exact prefix_foldl_commonFront_iff.mp List.prefix_rfl command ((hmem command).mpr hcommand)
      · intro longer hlonger
        apply prefix_foldl_commonFront_iff.mpr
        intro command hcommand
        exact hlonger command ((hmem command).mp hcommand)

theorem complete_congr (hx : Typed x front) (hy : Typed y other)
    (h : ∀ name, Offers catalogue front name ↔ Offers catalogue other name) :
    complete catalogue x = complete catalogue y := by
  have hsame : candidates catalogue front = candidates catalogue other := by
    apply Text.sortedSet_congr
    intro name
    exact (Text.mem_sortedSet.symm.trans mem_candidates).trans
      ((h name).trans (mem_candidates.symm.trans Text.mem_sortedSet))
  rw [complete_of_typed hx, complete_of_typed hy, hsame]

/-- What is true of the line that a front is completed to. -/
structure Completed (catalogue : Catalogue) (front line : Text) : Prop where
  opens : colon :: front <+: line
  only_iff : ∀ name, line = colon :: name ++ [space] ↔ IsOnly catalogue front name
  runs : ∀ name, IsOnly catalogue front name →
    parseLine catalogue line = .ok ⟨name, [], line⟩
  several : ∀ one other, Offers catalogue front one → Offers catalogue front other → one ≠ other →
    ∃ shared, line = colon :: shared ∧ IsShared catalogue front shared ∧
      (∀ name, Offers catalogue front name → Offers catalogue shared name) ∧
      complete catalogue line = some line

variable {line : Text} (hnames : ∀ name ∈ names catalogue, Text.IsWord name)
include hnames

theorem parseLine_completed (h : name ∈ names catalogue) :
    parseLine catalogue (colon :: name ++ [space]) = .ok ⟨name, [], colon :: name ++ [space]⟩ := by
  apply parseLine_eq_ok_iff.mpr
  exact ⟨rfl, h, [], [], [space], rfl, rfl, rfl, hnames name h, .done rfl⟩

theorem IsShared.typed (h : IsShared catalogue front shared) (hname : Offers catalogue front name) :
    Typed (colon :: shared) shared where
  opens := List.dropWhile_cons_of_neg (by simp [colon_not_isBlank])
  solid := fun g hg => (hnames name hname.listed).solid g ((h.opens name hname).subset hg)

theorem Completes.completed (hx : Typed x front) (hline : complete catalogue x = some line) :
    Completed catalogue front line := by
  have h : Completes catalogue front (complete catalogue x) := completes_of_typed hx
  rw [hline] at h
  cases h with
  | @only name h =>
    exact {
      opens := List.cons_prefix_cons.mpr ⟨rfl, h.offers.opens.trans (List.prefix_append name _)⟩
      only_iff := by
        intro other
        constructor
        · intro heq
          obtain rfl := List.append_cancel_right (List.cons.inj heq).2
          exact h
        · intro hother
          rw [h.unique other hother.offers]
      runs := by
        intro other hother
        rw [h.unique other hother.offers]
        exact parseLine_completed hnames h.offers.listed
      several := by
        intro one other hone hother hne
        exact absurd ((h.unique one hone).trans (h.unique other hother).symm) hne }
  | @shared one other shared hone hother hne h =>
    have hnot : ∀ name, ¬ IsOnly catalogue front name := by
      intro name hname
      exact hne ((hname.unique one hone).trans (hname.unique other hother).symm)
    have htyped := h.typed hnames hone
    exact {
      opens := List.cons_prefix_cons.mpr ⟨rfl, h.extends⟩
      only_iff := by
        intro name
        refine ⟨fun heq => ?_, fun hname => absurd hname (hnot name)⟩
        -- a shared front is made of the glyphs of a name, so it has no blank at its end
        have hmem : space ∈ shared := by
          rw [(List.cons.inj heq).2]
          exact List.mem_append_right name List.mem_cons_self
        exact absurd (htyped.solid space hmem) (by decide)
      runs := fun name hname => absurd hname (hnot name)
      several := by
        intro _ _ _ _ _
        refine ⟨shared, rfl, h, fun name hname => h.offers_iff.mpr hname, ?_⟩
        rw [← hline]
        exact complete_congr htyped hx fun _ => h.offers_iff }

omit hnames in
theorem complete_eq_none_iff : complete catalogue x = none ↔
    (∀ front, Text.trimLeft x ≠ colon :: front) ∨ ∃ front, Text.trimLeft x = colon :: front ∧
      ((∃ g ∈ front, g.isBlank = true) ∨ ∀ name, ¬ Offers catalogue front name) := by
  by_cases htyped : ∃ front, Typed x front
  · obtain ⟨front, htyped⟩ := htyped
    have h : Completes catalogue front (complete catalogue x) := completes_of_typed htyped
    constructor
    · intro hnone
      rw [hnone] at h
      cases h with
      | nothing h => exact .inr ⟨front, htyped.opens, .inr h⟩
    · rintro (hno | ⟨other, hother, hrest⟩)
      · exact absurd htyped.opens (hno front)
      · obtain rfl : front = other := (List.cons.inj (htyped.opens.symm.trans hother)).2
        rcases hrest with ⟨g, hg, hblank⟩ | hno
        · rw [htyped.solid g hg] at hblank
          exact nomatch hblank
        · generalize complete catalogue x = result at h
          cases h with
          | nothing => rfl
          | only h => exact absurd h.offers (hno _)
          | shared hone => exact absurd hone (hno _)
  · rw [not_exists] at htyped
    refine iff_of_true (complete_of_not_typed htyped) ?_
    by_cases hcolon : ∃ front, Text.trimLeft x = colon :: front
    · obtain ⟨front, hfront⟩ := hcolon
      refine .inr ⟨front, hfront, .inl ?_⟩
      by_contra hno
      exact htyped front ⟨hfront, by simpa using hno⟩
    · exact .inl (not_exists.mp hcolon)

/-- When a text is completed, and to what. -/
structure Completion (catalogue : Catalogue) (x : Text) : Prop where
  none_iff : complete catalogue x = none ↔ (∀ front, Text.trimLeft x ≠ colon :: front) ∨
    ∃ front, Text.trimLeft x = colon :: front ∧
      ((∃ g ∈ front, g.isBlank = true) ∨ ∀ name, ¬ Offers catalogue front name)
  completed : ∀ line, complete catalogue x = some line → Text.trimLeft x <+: line ∧
    ∃ front, Text.trimLeft x = colon :: front ∧ Completed catalogue front line

theorem complete_completion (x : Text) : Completion catalogue x where
  none_iff := complete_eq_none_iff
  completed := by
    intro line hline
    by_cases htyped : ∃ front, Typed x front
    · obtain ⟨front, htyped⟩ := htyped
      have h := Completes.completed hnames htyped hline
      exact ⟨htyped.opens ▸ h.opens, front, htyped.opens, h⟩
    · rw [complete_of_not_typed (not_exists.mp htyped)] at hline
      exact nomatch hline

def nestedCatalogue : Catalogue :=
  [⟨"commit", "Record"⟩, ⟨"co", "Check out"⟩, ⟨"commit", "Again"⟩, ⟨"comment", "Remark"⟩]

omit hnames in
theorem complete_completion_nested : (∀ name ∈ names nestedCatalogue, Text.IsWord name) ∧
    Completion nestedCatalogue "  :com" := by
  have hnames : ∀ name ∈ names nestedCatalogue, Text.IsWord name := by
    have hall : ∀ name ∈ names nestedCatalogue, name ≠ [] ∧ ∀ g ∈ name, g.isBlank = false := by
      decide
    exact fun name hname => ⟨(hall name hname).1, (hall name hname).2⟩
  exact ⟨hnames, complete_completion hnames "  :com"⟩

end Paddock.Command
