import Paddock.Proofs.Sorting
import Paddock.Proofs.Naming

/-!
# Name pools

Going through a pool, a name is kept if it is valid and was not kept before. So the names kept are
the valid ones, each once and in the order in which they first stand in the pool. The one picked for
a workspace is the first valid name of the pool itself that is not used; the more names are used,
the later it stands.
-/

namespace Paddock

set_option autoImplicit false

namespace Workspace

variable {pool names xs ys used more : List Text} {name : Text}

theorem mem_uniqueNames : name ∈ uniqueNames pool ↔ name ∈ pool ∧ isValidName name = true := by
  rw [uniqueNames, List.mem_eraseDups, List.mem_filter]

theorem uniqueNames_concat_of_new (hvalid : isValidName name = true) (hnew : name ∉ pool) :
    uniqueNames (pool ++ [name]) = uniqueNames pool ++ [name] := by
  have hkept : [name].filter isValidName = [name] := List.filter_cons_of_pos hvalid
  have hleft : [name].removeAll (pool.filter isValidName) = [name] := by
    simp [List.removeAll, hnew]
  rw [uniqueNames, List.filter_append, List.eraseDups_append, hkept, hleft]
  rfl

theorem uniqueNames_concat_of_old (h : isValidName name = true → name ∈ pool) :
    uniqueNames (pool ++ [name]) = uniqueNames pool := by
  rw [uniqueNames, List.filter_append, List.eraseDups_append]
  by_cases hvalid : isValidName name = true
  · have hleft : [name].removeAll (pool.filter isValidName) = [] := by
      simp [List.removeAll, h hvalid, hvalid]
    rw [List.filter_cons_of_pos hvalid, List.filter_nil, hleft]
    exact List.append_nil _
  · rw [List.filter_cons_of_neg hvalid]
    exact List.append_nil _

theorem uniqueNames_concat_cases (pool : List Text) (name : Text) :
    (isValidName name = true ∧ name ∉ pool ∧
        uniqueNames (pool ++ [name]) = uniqueNames pool ++ [name]) ∨
      ((isValidName name = true → name ∈ pool) ∧
        uniqueNames (pool ++ [name]) = uniqueNames pool) := by
  by_cases h : isValidName name = true → name ∈ pool
  · exact .inr ⟨h, uniqueNames_concat_of_old h⟩
  · obtain ⟨hvalid, hnew⟩ := Classical.not_imp.mp h
    exact .inl ⟨hvalid, hnew, uniqueNames_concat_of_new hvalid hnew⟩

/-- The names are the valid ones of the pool, each once and as they first stand there. -/
structure Distils (pool names : List Text) : Prop where
  nodup : names.Nodup
  mem_iff : ∀ name, name ∈ names ↔ name ∈ pool ∧ isValidName name = true
  ordered : names.Pairwise fun a b => pool.idxOf a < pool.idxOf b

theorem pairwise_uniqueNames (pool : List Text) :
    (uniqueNames pool).Pairwise fun a b => pool.idxOf a < pool.idxOf b := by
  -- by induction on the pool from its end: a name that is kept stands behind all names before
  induction pool using List.reverseRecOn with
  | nil => exact .nil
  | append_singleton pool name ih =>
    have hplace : ∀ a ∈ uniqueNames pool, (pool ++ [name]).idxOf a = pool.idxOf a := fun a ha =>
      List.idxOf_append_of_mem (mem_uniqueNames.mp ha).1
    have hbefore : (uniqueNames pool).Pairwise fun a b =>
        (pool ++ [name]).idxOf a < (pool ++ [name]).idxOf b := by
      apply ih.imp_of_mem
      intro a b ha hb hab
      rwa [hplace a ha, hplace b hb]
    rcases uniqueNames_concat_cases pool name with ⟨-, hnew, heq⟩ | ⟨-, heq⟩
    · rw [heq, List.pairwise_append]
      refine ⟨hbefore, List.pairwise_singleton _ _, ?_⟩
      intro a ha b hb
      rw [List.mem_singleton.mp hb, hplace a ha, List.idxOf_append_of_notMem hnew]
      have hlt : pool.idxOf a < pool.length :=
        List.idxOf_lt_length_iff.mpr (mem_uniqueNames.mp ha).1
      omega
    · rwa [heq]

theorem distils_uniqueNames (pool : List Text) : Distils pool (uniqueNames pool) where
  nodup := Text.nodup_eraseDups _
  mem_iff _ := mem_uniqueNames
  ordered := pairwise_uniqueNames pool

theorem uniqueNames_eq_self (hnodup : names.Nodup)
    (hvalid : ∀ name ∈ names, isValidName name = true) : uniqueNames names = names := by
  induction names using List.reverseRecOn with
  | nil => rfl
  | append_singleton names name ih =>
    obtain ⟨hfront, -, hapart⟩ := List.nodup_append.mp hnodup
    have hnames := ih hfront fun other hother => hvalid other (List.mem_append_left _ hother)
    have hnew : name ∉ names := fun hmem => hapart name hmem name List.mem_cons_self rfl
    have hname := hvalid name (List.mem_append_right _ List.mem_cons_self)
    rw [uniqueNames_concat_of_new hname hnew, hnames]

theorem uniqueNames_uniqueNames (pool : List Text) :
    uniqueNames (uniqueNames pool) = uniqueNames pool :=
  uniqueNames_eq_self (distils_uniqueNames pool).nodup fun _ hname => (mem_uniqueNames.mp hname).2

theorem uniqueNames_append (xs ys : List Text) :
    uniqueNames (xs ++ ys) = uniqueNames xs ++ (uniqueNames ys).filter (· ∉ xs) := by
  -- by induction on the second pool from its end
  induction ys using List.reverseRecOn with
  | nil =>
    rw [List.append_nil]
    exact (List.append_nil _).symm
  | append_singleton ys name ih =>
    rw [← List.append_assoc]
    rcases uniqueNames_concat_cases ys name with ⟨hvalid, hnew, heq⟩ | ⟨hold, heq⟩
    · by_cases hname : name ∈ xs
      · have hskipped : isValidName name = true → name ∈ xs ++ ys := fun _ =>
          List.mem_append_left ys hname
        rw [uniqueNames_concat_of_old hskipped, ih, heq, List.filter_append]
        simp [hname]
      · have hfresh : name ∉ xs ++ ys := by
          rw [List.mem_append, not_or]
          exact ⟨hname, hnew⟩
        rw [uniqueNames_concat_of_new hvalid hfresh, ih, heq, List.filter_append]
        simp [hname]
    · have hskipped : isValidName name = true → name ∈ xs ++ ys := fun hvalid =>
        List.mem_append_right xs (hold hvalid)
      rw [uniqueNames_concat_of_old hskipped, ih, heq]

/-- The name is valid and not used, and no such name stands before it. -/
def FirstFree (used pool : List Text) (name : Text) : Prop :=
  ∃ before rest, pool = before ++ name :: rest ∧ isValidName name = true ∧ name ∉ used ∧
    ∀ other ∈ before, isValidName other = true → other ∈ used

def isFree (used : List Text) (name : Text) : Bool := isValidName name && !used.contains name

theorem isFree_iff : isFree used name = true ↔ isValidName name = true ∧ name ∉ used := by
  simp [isFree]

theorem pickUnused_eq_some_iff : pickUnused used pool = some name ↔ FirstFree used pool name := by
  have hfind : pickUnused used pool = pool.find? (isFree used) := pickUnused_eq used pool
  rw [hfind, List.find?_eq_some_iff_append, isFree_iff]
  constructor
  · rintro ⟨⟨hvalid, hfree⟩, before, rest, hpool, hbefore⟩
    refine ⟨before, rest, hpool, hvalid, hfree, fun other hother hother' => ?_⟩
    by_contra hunused
    have hfirst := isFree_iff.mpr ⟨hother', hunused⟩
    simpa [hfirst] using hbefore other hother
  · rintro ⟨before, rest, hpool, hvalid, hfree, hbefore⟩
    refine ⟨⟨hvalid, hfree⟩, before, rest, hpool, fun other hother => ?_⟩
    rw [Bool.not_eq_true', Bool.eq_false_iff, ne_eq, isFree_iff]
    rintro ⟨hother', hunused⟩
    exact hunused (hbefore other hother hother')

theorem pickUnused_eq_none_iff :
    pickUnused used pool = none ↔ ∀ name ∈ pool, isValidName name = true → name ∈ used := by
  have hfind : pickUnused used pool = pool.find? (isFree used) := pickUnused_eq used pool
  rw [hfind, List.find?_eq_none]
  simp only [isFree_iff, not_and, not_not]

theorem idxOf_le_of_find? {p : Text → Bool} {a b : Text} (ha : pool.find? p = some a)
    (hb : p b = true) : pool.idxOf a ≤ pool.idxOf b := by
  induction pool with
  | nil => exact nomatch ha
  | cons x pool ih =>
    by_cases hx : p x = true
    · rw [List.find?_cons_of_pos hx, Option.some.injEq] at ha
      rw [ha, List.idxOf_cons_self]
      exact Nat.zero_le _
    · rw [List.find?_cons_of_neg hx] at ha
      have hxa : x ≠ a := by
        rintro rfl
        exact hx (List.find?_some ha)
      have hxb : x ≠ b := by
        rintro rfl
        exact hx hb
      rw [List.idxOf_cons_ne _ hxa, List.idxOf_cons_ne _ hxb]
      exact Nat.succ_le_succ (ih ha)

theorem exists_pickUnused_of_subset (hsub : used ⊆ more) (h : pickUnused more pool = some name) :
    ∃ first, pickUnused used pool = some first ∧ pool.idxOf first ≤ pool.idxOf name := by
  have hmore : pool.find? (isFree more) = some name := (pickUnused_eq more pool).symm.trans h
  obtain ⟨hvalid, hunused⟩ := isFree_iff.mp (List.find?_some hmore)
  have hfree : isFree used name = true := isFree_iff.mpr ⟨hvalid, fun hmem => hunused (hsub hmem)⟩
  cases hfirst : pool.find? (isFree used) with
  | none => exact absurd hfree (List.find?_eq_none.mp hfirst name (List.mem_of_find?_eq_some hmore))
  | some first =>
    exact ⟨first, (pickUnused_eq used pool).trans hfirst, idxOf_le_of_find? hfirst hfree⟩

/-- What is picked from a pool. -/
structure Picks (used pool : List Text) : Prop where
  some_iff : ∀ name, pickUnused used pool = some name ↔ FirstFree used pool name
  none_iff : pickUnused used pool = none ↔
    ∀ name ∈ pool, isValidName name = true → name ∈ used
  undistilled : pickUnused used (uniqueNames pool) = pickUnused used pool
  later : ∀ more, used ⊆ more → ∀ name, pickUnused more pool = some name →
    ∃ first, pickUnused used pool = some first ∧ pool.idxOf first ≤ pool.idxOf name

theorem pool_laws (pool xs ys used : List Text) :
    Distils pool (uniqueNames pool) ∧
    uniqueNames (uniqueNames pool) = uniqueNames pool ∧
    uniqueNames (xs ++ ys) = uniqueNames xs ++ (uniqueNames ys).filter (· ∉ xs) ∧
    Picks used pool := by
  refine ⟨distils_uniqueNames pool, uniqueNames_uniqueNames pool, uniqueNames_append xs ys, ?_⟩
  constructor
  case some_iff => exact fun name => pickUnused_eq_some_iff
  case none_iff => exact pickUnused_eq_none_iff
  case undistilled => rw [pickUnused, uniqueNames_uniqueNames, pickUnused]
  case later => exact fun more hsub name h => exists_pickUnused_of_subset hsub h

theorem pool_laws_repeatedPool : (["otter"] : List Text) ⊆ ["lynx", "otter"] ∧
    pickUnused ["lynx", "otter"] ["otter", "Otter", "lynx", "otter", "wren"] = some "wren" ∧
    ∃ first, pickUnused ["otter"] ["otter", "Otter", "lynx", "otter", "wren"] = some first ∧
      List.idxOf first ["otter", "Otter", "lynx", "otter", "wren"] ≤
        List.idxOf (Text.ofString "wren") ["otter", "Otter", "lynx", "otter", "wren"] := by
  have hsub : (["otter"] : List Text) ⊆ ["lynx", "otter"] := List.subset_cons_self _ _
  have hpick : pickUnused ["lynx", "otter"] ["otter", "Otter", "lynx", "otter", "wren"] =
      some "wren" := by decide
  obtain ⟨-, -, -, hpicks⟩ :=
    pool_laws ["otter", "Otter", "lynx", "otter", "wren"] [] [] ["otter"]
  exact ⟨hsub, hpick, hpicks.later _ hsub _ hpick⟩

end Workspace

end Paddock
