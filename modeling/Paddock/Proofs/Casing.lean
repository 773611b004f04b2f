import Paddock.Proofs.Lowering
import Paddock.Proofs.Pieces

/-!
# Lower case in pieces

What the lower case of a glyph is hangs on its neighbours, but only as far as the next glyph that
has to do with case in no way. Blanks are of this kind, so a text is lowered and trimmed in either
order, and the pieces between such separators are lowered each on its own.
-/

namespace Paddock

set_option autoImplicit false

namespace Glyph

variable {g h : Glyph} {n : Nat}

/-- A glyph that is its own lower case and has no influence on that of its neighbours. -/
structure IsNeutral (g : Glyph) : Prop where
  small : g.IsSmall
  not_cased : g.isCased = false
  not_ignorable : g.isCaseIgnorable = false

def isBlankCode (n : Nat) : Bool := blankSpans.any fun s => s.1 ≤ n && n ≤ s.2

theorem blankSpans_neutral : ∀ s ∈ blankSpans, ∀ n ∈ List.range' s.1 (s.2 + 1 - s.1),
    lowerCode n = n ∧ casedSpans.contains n = false ∧ caseIgnorableSpans.contains n = false := by
  decide +kernel

theorem lowered_misses_blank : ∀ s ∈ CaseSpan.all, ∀ b ∈ blankSpans,
    s.lowered.last < b.1 ∨ b.2 < s.lowered.first := by decide +kernel

theorem isBlankCode_iff : isBlankCode n = true ↔ ∃ s ∈ blankSpans, s.1 ≤ n ∧ n ≤ s.2 := by
  simp [isBlankCode]

theorem isBlankCode_of_lowerCode (h : isBlankCode (lowerCode n) = true) :
    isBlankCode n = true := by
  rcases lowerCode_cases n with ⟨s, hs, hn, heq⟩ | ⟨heq, -⟩
  · obtain ⟨b, hb, hfirst, hlast⟩ := isBlankCode_iff.mp h
    obtain ⟨hlow, hhigh, -⟩ := CaseSpan.contains_iff.mp (CaseSpan.contains_lowered hs hn)
    rw [heq] at hfirst hlast
    rcases lowered_misses_blank s hs b hb with hmiss | hmiss
    · omega
    · omega
  · rwa [heq] at h

theorem isNeutral_of_isBlank (hblank : g.isBlank = true) : g.IsNeutral := by
  cases g with
  | raw low => exact nomatch hblank
  | char c =>
    obtain ⟨s, hs, hfirst, hlast⟩ := isBlankCode_iff.mp hblank
    have hmem : c.toNat ∈ List.range' s.1 (s.2 + 1 - s.1) := by
      rw [List.mem_range'_1]
      omega
    obtain ⟨hlower, hcased, hignorable⟩ := blankSpans_neutral s hs c.toNat hmem
    have hdotted : c ≠ '\u0130' := by
      rintro rfl
      exact absurd hblank (by decide)
    refine ⟨⟨?_, ?_⟩, hcased, hignorable⟩
    · rintro hsigma
      rw [hsigma] at hblank
      exact absurd hblank (by decide)
    · rw [lower_char hdotted, hlower, Char.ofNat_toNat]

theorem not_isBlank_of_mem_lower (hg : g.isBlank = false) (hmem : h ∈ g.lower) :
    h.isBlank = false := by
  cases g with
  | raw low =>
    obtain rfl := List.mem_singleton.mp hmem
    rfl
  | char c =>
    by_cases hdotted : c = '\u0130'
    · subst hdotted
      have hcases : h = .char 'i' ∨ h = .char '\u0307' := by simpa [lower] using hmem
      rcases hcases with rfl | rfl
      · decide
      · decide
    · rw [lower_char hdotted] at hmem
      obtain rfl := List.mem_singleton.mp hmem
      rw [Bool.eq_false_iff]
      intro hblank
      have hcode : isBlankCode (lowerCode c.toNat) = true := by
        rw [← toNat_ofNat_lowerCode]
        exact hblank
      have hsource : (char c).isBlank = true := isBlankCode_of_lowerCode hcode
      exact Bool.noConfusion (hg.symm.trans hsource)

theorem lower_ne_nil (g : Glyph) : g.lower ≠ [] := by
  cases g with
  | raw low => exact List.cons_ne_nil _ _
  | char c =>
    rw [lower]
    split
    · exact List.cons_ne_nil _ _
    · exact List.cons_ne_nil _ _

end Glyph

namespace Text

open Glyph

variable {x : Text} {g : Glyph} {afterCased : Bool}

theorem leadsCased_append (hg : g.IsNeutral) (x y : Text) :
    leadsCased (x ++ g :: y) = leadsCased x := by
  induction x with
  | nil => simp [leadsCased, hg.not_ignorable, hg.not_cased]
  | cons a x ih =>
    rw [leadsCased, leadsCased, List.cons_append]
    by_cases ha : a.isCaseIgnorable = true
    · rw [List.dropWhile_cons_of_pos ha, List.dropWhile_cons_of_pos ha]
      exact ih
    · rw [List.dropWhile_cons_of_neg ha, List.dropWhile_cons_of_neg ha]

theorem lowerFrom_append (hg : g.IsNeutral) (afterCased : Bool) (x y : Text) :
    lowerFrom afterCased (x ++ g :: y) = lowerFrom afterCased x ++ g :: lower y := by
  induction x generalizing afterCased with
  | nil =>
    have hlater : (if g.isCaseIgnorable then afterCased else g.isCased) = false := by
      rw [if_neg (by simp [hg.not_ignorable]), hg.not_cased]
    show lowerFrom afterCased (g :: y) = g :: lower y
    rw [lowerFrom, if_neg hg.small.ne_sigma, hg.small.lower_eq, hlater]
    rfl
  | cons a x ih =>
    rw [List.cons_append, lowerFrom, lowerFrom, leadsCased_append hg, ih, List.append_assoc]

/-- A text is lowered on both sides of a neutral glyph apart. -/
theorem lower_append (hg : g.IsNeutral) (x y : Text) :
    lower (x ++ g :: y) = lower x ++ g :: lower y :=
  lowerFrom_append hg false x y

theorem lower_joinWith (hg : g.IsNeutral) (xs : List Text) :
    lower (joinWith [g] xs) = joinWith [g] (xs.map lower) := by
  induction xs with
  | nil => rfl
  | cons x xs ih =>
    cases xs with
    | nil => rfl
    | cons y ys =>
      rw [joinWith, List.append_assoc, List.singleton_append, lower_append hg, ih]
      show _ = joinWith [g] (lower x :: lower y :: ys.map lower)
      rw [joinWith, List.append_assoc, List.singleton_append]
      rfl

theorem splitAt_lower {c : Char} (hneutral : (char c).IsNeutral) (hc : c.toNat < 97) (x : Text) :
    splitAt (char c) (lower x) = (splitAt (char c) x).map lower := by
  have hne : (splitAt (char c) x).map lower ≠ [] := by
    rw [ne_eq, List.map_eq_nil_iff]
    exact splitWhere_ne_nil _ x
  have hfree : ∀ piece ∈ (splitAt (char c) x).map lower, char c ∉ piece := by
    intro piece hpiece hmem
    obtain ⟨source, hsource, rfl⟩ := List.mem_map.mp hpiece
    exact not_mem_of_mem_splitAt hsource (mem_of_mem_lower hmem hc)
  conv_lhs => rw [← joinWith_splitAt (char c) x]
  rw [lower_joinWith hneutral, splitAt_joinWith hne hfree]

theorem exists_lowerFrom_concat (afterCased : Bool) (x : Text) (g : Glyph) :
    ∃ front later, lowerFrom afterCased (x ++ [g]) = front ++ lowerFrom later [g] := by
  induction x generalizing afterCased with
  | nil => exact ⟨[], afterCased, rfl⟩
  | cons a x ih =>
    obtain ⟨front, later, h⟩ := ih (if a.isCaseIgnorable then afterCased else a.isCased)
    rw [List.cons_append, lowerFrom, h, ← List.append_assoc]
    exact ⟨_, later, rfl⟩

theorem lowerFrom_cons_cases (afterCased : Bool) (g : Glyph) (x : Text) :
    ∃ here later, lowerFrom afterCased (g :: x) = here ++ lowerFrom later x ∧ here ≠ [] ∧
      (g.isBlank = false → ∀ h ∈ here, h.isBlank = false) := by
  refine ⟨_, _, rfl, ?_, ?_⟩
  · split
    · exact List.cons_ne_nil _ _
    · exact lower_ne_nil g
  · intro hg h hmem
    split at hmem
    · obtain rfl := List.mem_singleton.mp hmem
      split
      · decide
      · decide
    · exact not_isBlank_of_mem_lower hg hmem

theorem lower_trimLeft (x : Text) : lower (trimLeft x) = trimLeft (lower x) := by
  induction x with
  | nil => rfl
  | cons g x ih =>
    by_cases hg : g.isBlank = true
    · have hlower : lower (g :: x) = g :: lower x := lower_append (isNeutral_of_isBlank hg) [] x
      rw [hlower, trimLeft, trimLeft, List.dropWhile_cons_of_pos hg, List.dropWhile_cons_of_pos hg]
      exact ih
    · obtain ⟨here, later, heq, hne, hsolid⟩ := lowerFrom_cons_cases false g x
      obtain ⟨a, here, rfl⟩ := List.exists_cons_of_ne_nil hne
      have ha : a.isBlank = false := hsolid (Bool.eq_false_iff.mpr hg) a List.mem_cons_self
      rw [trimLeft, List.dropWhile_cons_of_neg hg, trimLeft, lower, heq, List.cons_append,
        List.dropWhile_cons_of_neg (by simp [ha])]

theorem lower_trimRight (x : Text) : lower (trimRight x) = trimRight (lower x) := by
  induction x using List.reverseRecOn with
  | nil => rfl
  | append_singleton x g ih =>
    by_cases hg : g.isBlank = true
    · have hleft : trimRight (x ++ [g]) = trimRight x :=
        List.rdropWhile_concat_pos Glyph.isBlank x g hg
      have hright : trimRight (lower x ++ [g]) = trimRight (lower x) :=
        List.rdropWhile_concat_pos Glyph.isBlank (lower x) g hg
      have hlower : lower (x ++ [g]) = lower x ++ [g] :=
        lower_append (isNeutral_of_isBlank hg) x []
      rw [hleft, hlower, hright, ih]
    · have hleft : trimRight (x ++ [g]) = x ++ [g] :=
        List.rdropWhile_concat_neg Glyph.isBlank x g hg
      obtain ⟨front, later, hlower⟩ := exists_lowerFrom_concat false x g
      obtain ⟨here, last, hlast, hne, hsolid⟩ := lowerFrom_cons_cases later g []
      obtain ⟨rest, a, rfl⟩ := (List.eq_nil_or_concat here).resolve_left hne
      have ha : ¬ a.isBlank = true := by
        rw [hsolid (Bool.eq_false_iff.mpr hg) a (by simp)]
        exact Bool.false_ne_true
      have hsame : lower (x ++ [g]) = (front ++ rest) ++ [a] := by
        rw [Text.lower, hlower, hlast]
        simp [lowerFrom]
      rw [hleft, hsame]
      exact (List.rdropWhile_concat_neg Glyph.isBlank (front ++ rest) a ha).symm

/-- Lowering and trimming may change places. -/
theorem lower_trim (x : Text) : lower (trim x) = trim (lower x) := by
  rw [trim, lower_trimRight, lower_trimLeft, trim]

end Text

end Paddock
