import Paddock.Proofs.Absolute

/-!
# Joined paths

Joining gives a path in normal form: slashes for separators, and none at the end but for the top
itself. Its components are those of the parts, one part after the other. What is joined first may be
joined to the rest as a part of its own, unless it was a run of separators and so was lost.
-/

namespace Paddock

set_option autoImplicit false

open Text (slash)

namespace Path

variable {x y joined part : Text} {parts xs ys : List Text}

/-- Slashes for separators, and none at the end unless it is all there is. -/
structure Canonical (x : Text) : Prop where
  no_backslash : Glyph.char '\\' ∉ x
  slash_at_end : x.getLast? = some slash → x = [slash]

theorem Canonical.normalize_eq (h : Canonical x) : normalize x = x := by
  by_cases hlone : x = [slash]
  · rw [hlone]
    rfl
  · exact normalize_eq_self ⟨h.no_backslash, fun hend => hlone (h.slash_at_end hend)⟩

theorem canonical_normalize (x : Text) : Canonical (normalize x) where
  no_backslash := backslash_not_mem_normalize x
  slash_at_end := by
    unfold normalize
    split
    · exact fun _ => rfl
    · intro hend
      exact absurd hend (tidy_dropTrailingSlashes x).no_slash_at_end

theorem attach_of_nil (h : dropLeadingSlashes (normalize part) = []) (joined : Text) :
    attach joined part = joined := by
  unfold attach
  simp only [if_pos h]

theorem getLast?_dropLeadingSlashes (h : dropLeadingSlashes x ≠ []) :
    (dropLeadingSlashes x).getLast? = x.getLast? := by
  have hcut : x.takeWhile isSlash ++ dropLeadingSlashes x = x := List.takeWhile_append_dropWhile
  rw [← List.getLast?_append_of_ne_nil (x.takeWhile isSlash) h, hcut]

theorem Canonical.attach (h : Canonical joined) (part : Text) : Canonical (attach joined part) := by
  by_cases hsegment : dropLeadingSlashes (normalize part) = []
  · rw [attach_of_nil hsegment]
    exact h
  rw [attach_eq_opened hsegment]
  have hpart := canonical_normalize part
  constructor
  · rw [List.mem_append, not_or]
    refine ⟨backslash_not_mem_opened h.no_backslash, fun hmem => hpart.no_backslash ?_⟩
    exact (List.dropWhile_sublist isSlash).subset hmem
  · rw [List.getLast?_append_of_ne_nil _ hsegment, getLast?_dropLeadingSlashes hsegment]
    intro hend
    -- such a part is the top alone, and has no segment to attach
    rw [hpart.slash_at_end hend] at hsegment
    exact absurd rfl hsegment

theorem Canonical.foldl_attach (h : Canonical joined) (parts : List Text) :
    Canonical (parts.foldl Path.attach joined) := by
  induction parts generalizing joined with
  | nil => exact h
  | cons part parts ih => exact ih (h.attach part)

theorem canonical_join (parts : List Text) : Canonical (join parts) := by
  unfold join
  cases parts.filter (· ≠ []) with
  | nil => exact ⟨by simp, nofun⟩
  | cons first rest => exact (canonical_normalize first).foldl_attach rest

theorem components_append_separators (hy : ∀ g ∈ y, isSeparator g = true) (x : Text) :
    components (x ++ y) = components x := by
  cases y with
  | nil => rw [List.append_nil]
  | cons g y =>
    obtain ⟨hg, hy⟩ := List.forall_mem_cons.mp hy
    rw [components_append hg, components_eq_nil hy, List.append_nil]

theorem components_separators_append (hx : ∀ g ∈ x, isSeparator g = true) (y : Text) :
    components (x ++ y) = components y := by
  induction x with
  | nil => rfl
  | cons g x ih =>
    obtain ⟨hg, hx⟩ := List.forall_mem_cons.mp hx
    rw [List.cons_append, components_cons hg, ih hx]

theorem isSeparator_of_isSlash {g : Glyph} (h : isSlash g = true) : isSeparator g = true :=
  isSeparator_iff.mpr (.inl (eq_of_beq h))

theorem components_dropLeadingSlashes (x : Text) :
    components (dropLeadingSlashes x) = components x := by
  have hcut : x.takeWhile isSlash ++ dropLeadingSlashes x = x := List.takeWhile_append_dropWhile
  have hslashes : ∀ g ∈ x.takeWhile isSlash, isSeparator g = true := by
    intro g hg
    exact isSeparator_of_isSlash (List.mem_takeWhile_imp hg)
  calc components (dropLeadingSlashes x)
      = components (x.takeWhile isSlash ++ dropLeadingSlashes x) :=
        (components_separators_append hslashes _).symm
    _ = components x := by rw [hcut]

theorem components_dropTrailingSlashes (x : Text) :
    components (dropTrailingSlashes x) = components x := by
  have hcut : dropTrailingSlashes x ++ (x.reverse.takeWhile isSlash).reverse = x := by
    rw [dropTrailingSlashes, ← List.reverse_append, List.takeWhile_append_dropWhile,
      List.reverse_reverse]
  have hslashes : ∀ g ∈ (x.reverse.takeWhile isSlash).reverse, isSeparator g = true := by
    intro g hg
    exact isSeparator_of_isSlash (List.mem_takeWhile_imp (List.mem_reverse.mp hg))
  calc components (dropTrailingSlashes x)
      = components (dropTrailingSlashes x ++ (x.reverse.takeWhile isSlash).reverse) :=
        (components_append_separators hslashes _).symm
    _ = components x := by rw [hcut]

theorem components_normalize (x : Text) : components (normalize x) = components x := by
  rw [← components_slashed x]
  unfold normalize
  split
  · rename_i hlone
    rw [hlone]
  · exact components_dropTrailingSlashes (slashed x)

theorem components_opened_append (joined x : Text) :
    components (opened joined ++ x) = components joined ++ components x := by
  unfold opened
  split
  · rename_i htop
    rcases htop with rfl | rfl
    · rfl
    · exact components_cons isSeparator_slash x
  · rw [List.append_assoc]
    exact components_append isSeparator_slash joined x

theorem components_attach (joined part : Text) :
    components (attach joined part) = components joined ++ components part := by
  have hpart : components (dropLeadingSlashes (normalize part)) = components part := by
    rw [components_dropLeadingSlashes, components_normalize]
  by_cases hsegment : dropLeadingSlashes (normalize part) = []
  · rw [hsegment] at hpart
    rw [attach_of_nil hsegment, ← hpart]
    exact (List.append_nil _).symm
  · rw [attach_eq_opened hsegment, components_opened_append, hpart]

theorem components_foldl_attach (parts : List Text) (joined : Text) :
    components (parts.foldl attach joined) = components joined ++ parts.flatMap components := by
  induction parts generalizing joined with
  | nil => exact (List.append_nil _).symm
  | cons part parts ih =>
    rw [List.foldl_cons, ih, components_attach, List.flatMap_cons, List.append_assoc]

theorem flatMap_components_filter (parts : List Text) :
    (parts.filter (· ≠ [])).flatMap components = parts.flatMap components := by
  induction parts with
  | nil => rfl
  | cons part parts ih =>
    by_cases hpart : part = []
    · rw [hpart, List.filter_cons_of_neg (by simp), ih]
      rfl
    · rw [List.filter_cons_of_pos (by simpa using hpart), List.flatMap_cons, List.flatMap_cons, ih]

theorem components_join (parts : List Text) :
    components (join parts) = parts.flatMap components := by
  rw [← flatMap_components_filter]
  unfold join
  cases parts.filter (· ≠ []) with
  | nil => rfl
  | cons first rest => rw [components_foldl_attach, components_normalize, List.flatMap_cons]

theorem filter_splitAt_slash (h : Glyph.char '\\' ∉ x) :
    (Text.splitAt slash x).filter (· ≠ []) = components x := by
  have hsplit : Text.splitAt slash x = Text.splitWhere isSeparator x := by
    unfold Text.splitAt
    induction x with
    | nil => rfl
    | cons g x ih =>
      obtain ⟨hg, hx⟩ := not_or.mp (fun hmem => h (List.mem_cons.mpr hmem))
      have hsame : isSeparator g = (g == slash) := by
        simp [isSeparator, Ne.symm hg]
      rw [Text.splitWhere, Text.splitWhere, ih hx, hsame]
  rw [hsplit, components]

theorem attach_ne_nil (h : joined ≠ []) (part : Text) : attach joined part ≠ [] := by
  by_cases hsegment : dropLeadingSlashes (normalize part) = []
  · rw [attach_of_nil hsegment]
    exact h
  · rw [attach_eq_opened hsegment]
    exact List.append_ne_nil_of_right_ne_nil _ hsegment

theorem foldl_attach_ne_nil (h : joined ≠ []) (parts : List Text) :
    parts.foldl attach joined ≠ [] := by
  induction parts generalizing joined with
  | nil => exact h
  | cons part parts ih => exact ih (attach_ne_nil h part)

/-- The first part that is not empty, if there is one, is no run of separators. -/
def KeepsFirst (parts : List Text) : Prop :=
  ∀ first, parts.find? (· ≠ []) = some first → ¬ IsRun first

theorem join_of_filter_eq {first : Text} {rest : List Text}
    (h : parts.filter (· ≠ []) = first :: rest) :
    join parts = rest.foldl attach (normalize first) := by
  rw [join, h]

theorem join_cons (h : x ≠ []) (parts : List Text) :
    join (x :: parts) = (parts.filter (· ≠ [])).foldl attach (normalize x) :=
  join_of_filter_eq (List.filter_cons_of_pos (by simpa using h))

theorem KeepsFirst.join_append (h : KeepsFirst xs) (ys : List Text) :
    join (xs ++ ys) = join (join xs :: ys) := by
  unfold KeepsFirst at h
  rw [← List.head?_filter] at h
  cases hxs : xs.filter (· ≠ []) with
  | nil =>
    have hjoin : join xs = [] := by rw [join, hxs]
    rw [hjoin, join, join, List.filter_append, hxs]
    simp
  | cons first rest =>
    rw [hxs] at h
    have hfirst : first ≠ [] := by
      have hmem : first ∈ xs.filter (· ≠ []) := hxs ▸ List.mem_cons_self
      simpa using (List.mem_filter.mp hmem).2
    have hsolid : normalize first ≠ [] := by
      rw [ne_eq, normalize_eq_nil_iff, not_or]
      exact ⟨hfirst, h first rfl⟩
    have hjoin : join xs = rest.foldl attach (normalize first) := join_of_filter_eq hxs
    have hne : join xs ≠ [] := hjoin ▸ foldl_attach_ne_nil hsolid rest
    have hall : (xs ++ ys).filter (· ≠ []) = first :: (rest ++ ys.filter (· ≠ [])) := by
      rw [List.filter_append, hxs, List.cons_append]
    rw [join_of_filter_eq hall, List.foldl_append, ← hjoin, join_cons hne,
      (canonical_join xs).normalize_eq]

/-- What a joined path has to be. -/
structure Joins (parts : List Text) (x : Text) : Prop extends Canonical x where
  normal : normalize x = x
  conserved : (Text.splitAt slash x).filter (· ≠ []) = parts.flatMap components

/-- A joined path is in normal form and has the components of its parts, and it can be joined
further. -/
theorem join_joins (parts : List Text) : Joins parts (join parts) ∧
    ∀ xs ys, KeepsFirst xs → join (xs ++ ys) = join (join xs :: ys) := by
  have hcanonical := canonical_join parts
  refine ⟨⟨hcanonical, hcanonical.normalize_eq, ?_⟩, fun xs ys h => h.join_append ys⟩
  rw [filter_splitAt_slash hcanonical.no_backslash, components_join]

theorem join_joins_mixed :
    Joins ["", "\\a//b\\", "/", "c/"] "/a//b/c" ∧
    KeepsFirst ["", "\\", "//", "a"] ∧
    join ["", "\\", "//", "a", "\\b", "/c"] = join ["/a", "\\b", "/c"] := by
  obtain ⟨hjoins, hfurther⟩ := join_joins ["", "\\a//b\\", "/", "c/"]
  have hfirst : KeepsFirst ["", "\\", "//", "a"] := by
    intro first hfind hrun
    have hlone : Text.ofString "\\" = first := Option.some.inj hfind
    rw [← hlone] at hrun
    exact absurd hrun.long (by decide)
  exact ⟨hjoins, hfirst, hfurther ["", "\\", "//", "a"] ["\\b", "/c"] hfirst⟩

/-- A run of separators is lost, and the next part comes first. -/
example : join (["//"] ++ ["/a"]) = "a" ∧ join (join ["//"] :: ["/a"]) = "/a" := by
  decide

end Path

end Paddock
