import Mathlib.Data.List.Basic
import Paddock.Text.Glyph

/-!
# Sorted sets of texts

Texts are ordered totally, so a sorted set is determined by its members: neither the order in which
they were found nor how often matters.
-/

namespace Paddock

set_option autoImplicit false

namespace Text

theorem le_cons_iff {a b : Glyph} {x y : Text} :
    le (a :: x) (b :: y) = true ↔ a.code < b.code ∨ a.code = b.code ∧ le x y = true := by
  simp [le]

theorem le_trans (x y z : Text) (hxy : le x y = true) (hyz : le y z = true) : le x z = true := by
  induction x generalizing y z with
  | nil => rfl
  | cons a x ih =>
    cases y with
    | nil => simp [le] at hxy
    | cons b y =>
      cases z with
      | nil => simp [le] at hyz
      | cons c z =>
        rw [le_cons_iff] at hxy hyz ⊢
        rcases hxy with hab | ⟨hab, hxy⟩
        · rcases hyz with hbc | ⟨hbc, _⟩
          · left
            omega
          · left
            omega
        · rcases hyz with hbc | ⟨hbc, hyz⟩
          · left
            omega
          · right
            exact ⟨by omega, ih y z hxy hyz⟩

theorem le_total (x y : Text) : (le x y || le y x) = true := by
  rw [Bool.or_eq_true]
  induction x generalizing y with
  | nil => exact .inl rfl
  | cons a x ih =>
    cases y with
    | nil => exact .inr rfl
    | cons b y =>
      rw [le_cons_iff, le_cons_iff]
      rcases Nat.lt_trichotomy a.code b.code with h | h | h
      · exact .inl (.inl h)
      · rcases ih y with hxy | hyx
        · exact .inl (.inr ⟨h, hxy⟩)
        · exact .inr (.inr ⟨h.symm, hyx⟩)
      · exact .inr (.inl h)

theorem le_antisymm (x y : Text) (hxy : le x y = true) (hyx : le y x = true) : x = y := by
  induction x generalizing y with
  | nil =>
    cases y with
    | nil => rfl
    | cons b y => simp [le] at hyx
  | cons a x ih =>
    cases y with
    | nil => simp [le] at hxy
    | cons b y =>
      rw [le_cons_iff] at hxy hyx
      rcases hxy with hlt | ⟨heq, hxy⟩
      · exfalso
        rcases hyx with h | ⟨h, _⟩
        · omega
        · omega
      · rcases hyx with h | ⟨_, hyx⟩
        · exfalso
          omega
        · rw [Glyph.code_injective heq, ih y hxy hyx]

theorem nodup_eraseDups (xs : List Text) : xs.eraseDups.Nodup := by
  induction hn : xs.length using Nat.strongRecOn generalizing xs with
  | ind n ih =>
    cases xs with
    | nil => simp
    | cons x rest =>
      have hshort : (rest.filter fun y => !y == x).length < n := by
        have hle := List.length_filter_le (fun y => !y == x) rest
        rw [List.length_cons] at hn
        omega
      have hnot : x ∉ (rest.filter fun y => !y == x).eraseDups := by
        rw [List.mem_eraseDups]
        simp
      rw [List.eraseDups_cons]
      exact List.nodup_cons.mpr ⟨hnot, ih _ hshort _ rfl⟩

theorem mem_sortedSet {xs : List Text} {x : Text} : x ∈ sortedSet xs ↔ x ∈ xs := by
  rw [sortedSet, List.mem_mergeSort, List.mem_eraseDups]

theorem pairwise_sortedSet (xs : List Text) : (sortedSet xs).Pairwise (le · · = true) :=
  List.pairwise_mergeSort le_trans le_total _

theorem nodup_sortedSet (xs : List Text) : (sortedSet xs).Nodup :=
  (List.mergeSort_perm _ _).nodup_iff.mpr (nodup_eraseDups xs)

/-- Lists with the same members have the same sorted set. -/
theorem sortedSet_congr {xs ys : List Text} (h : ∀ x, x ∈ xs ↔ x ∈ ys) :
    sortedSet xs = sortedSet ys := by
  have hmem : ∀ x, x ∈ sortedSet xs ↔ x ∈ sortedSet ys := by
    intro x
    rw [mem_sortedSet, mem_sortedSet, h]
  have hperm : (sortedSet xs).Perm (sortedSet ys) :=
    (List.perm_ext_iff_of_nodup (nodup_sortedSet xs) (nodup_sortedSet ys)).mpr hmem
  exact hperm.eq_of_pairwise (fun x y _ _ => le_antisymm x y) (pairwise_sortedSet xs)
    (pairwise_sortedSet ys)

end Text

end Paddock
