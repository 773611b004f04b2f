import Paddock.Proofs.Absolute
import Paddock.Proofs.Pieces

/-!
# What preparing a root leaves

Directories are made from the outside in, and what was made before a refusal stays. So a tree only
grows, and only along the way to the workspace root, however far it came; the marker is the one file
that may be emptied, as the last thing of all. None of this hangs on the room that there is for
missing directories.
-/

namespace Paddock

set_option autoImplicit false

open Text (slash)

namespace Text

variable {separator : Text}

theorem joinWith_prefix (separator : Text) (xs ys : List Text) :
    joinWith separator xs <+: joinWith separator (xs ++ ys) := by
  induction xs with
  | nil => exact List.nil_prefix
  | cons x xs ih =>
    cases xs with
    | nil =>
      cases ys with
      | nil => exact List.prefix_rfl
      | cons y ys =>
        rw [List.singleton_append, joinWith, joinWith, List.append_assoc]
        exact List.prefix_append x _
    | cons next xs =>
      rw [joinWith, List.cons_append, List.cons_append, joinWith]
      exact (List.prefix_append_right_inj _).mpr ih

end Text

namespace Place

theorem leadingSlashes_append {x : Text} (h : ∃ g ∈ x, g ≠ slash) (y : Text) :
    leadingSlashes (x ++ y) = leadingSlashes x := by
  obtain ⟨g, hg, hne⟩ := h
  have hstops : (x.takeWhile (· == slash)).length ≠ x.length := by
    intro hlength
    have hall := List.takeWhile_eq_self_iff.mp
      ((List.takeWhile_prefix (p := (· == slash)) (l := x)).eq_of_length hlength)
    exact hne (eq_of_beq (hall g hg))
  have htake : (x ++ y).takeWhile (· == slash) = x.takeWhile (· == slash) := by
    rw [List.takeWhile_append, if_neg hstops]
  rw [leadingSlashes, leadingSlashes, htake]

theorem mk_reverse_cons (leading : Nat) (part : Text) (above : List Text) :
    (⟨leading, (part :: above).reverse⟩ : Place) = child ⟨leading, above.reverse⟩ part := by
  rw [List.reverse_cons]
  rfl

end Place

namespace FileTree

variable {tree between made : FileTree} {cwd at_ a b : Address} {p : Place} {part : Text}
  {front rest parts : List Text} {way wider : Address → Prop}

/-- The address that components lead to, whatever is there. -/
def walk (at_ : Address) (parts : List Text) : Address := parts.foldl below at_

theorem walk_concat (at_ : Address) (parts : List Text) (last : Text) :
    walk at_ (parts ++ [last]) = below (walk at_ parts) last := by
  rw [walk, walk, List.foldl_concat]

theorem eq_walk_of_enter (h : enter tree at_ parts = .ok a) : a = walk at_ parts := by
  induction parts using List.reverseRecOn generalizing a with
  | nil => exact (Except.ok.inj h).symm
  | append_singleton parts last ih =>
    obtain ⟨b, hb, _, rfl⟩ := enter_concat_eq_ok_iff.mp h
    rw [walk_concat, ih hb]

theorem enter_append_noEntry (h : enter tree at_ front = .error .noEntry) (rest : List Text) :
    enter tree at_ (front ++ rest) = .error .noEntry := by
  induction front generalizing at_ with
  | nil => simp [enter] at h
  | cons part front ih =>
    rw [List.cons_append, enter]
    rw [enter] at h
    split at h
    · exact ih h
    · simp at h
    · exact h

/-- The addresses of a place and of those above it, but for where its components start. -/
def OnWay (cwd : Address) (p : Place) (a : Address) : Prop :=
  ∃ front, front ≠ [] ∧ front <+: p.parts ∧ a = walk (start cwd p) front

theorem onWay_self (h : p.parts ≠ []) : OnWay cwd p (walk (start cwd p) p.parts) :=
  ⟨p.parts, h, List.prefix_rfl, rfl⟩

theorem OnWay.child (h : OnWay cwd p a) (part : Text) : OnWay cwd (p.child part) a := by
  obtain ⟨front, hne, hfront, ha⟩ := h
  exact ⟨front, hne, hfront.trans (List.prefix_append p.parts [part]), ha⟩

/-- Everything is as it was, and whatever is new is a directory on the way. -/
structure Grows (way : Address → Prop) (tree made : FileTree) : Prop where
  kept : ∀ {b entry}, get? tree b = some entry → get? made b = some entry
  new : ∀ {b entry}, get? tree b = none → get? made b = some entry → entry = .directory ∧ way b

theorem Grows.refl (way : Address → Prop) (tree : FileTree) : Grows way tree tree where
  kept h := h
  new hnone h := by
    rw [hnone] at h
    exact nomatch h

theorem Grows.trans (h : Grows way tree between) (h' : Grows way between made) :
    Grows way tree made where
  kept hb := h'.kept (h.kept hb)
  new {b entry} hnone hsome := by
    cases hbetween : get? between b with
    | none => exact h'.new hbetween hsome
    | some there =>
      have hsame := h'.kept hbetween
      rw [hsame] at hsome
      exact Option.some.inj hsome ▸ h.new hnone hbetween

theorem Grows.mono (h : Grows way tree made) (hway : ∀ b, way b → wider b) :
    Grows wider tree made where
  kept hb := h.kept hb
  new hnone hsome := (h.new hnone hsome).imp_right (hway _)

theorem grows_insert (h : get? tree a = none) : Grows (· = a) tree (insert tree a .directory) := by
  have hne : a ≠ [] := ne_nil_of_get? (by rw [h]; simp)
  constructor
  · intro b entry hb
    have hba : b ≠ a := by
      rintro rfl
      rw [h] at hb
      exact nomatch hb
    rw [get?_insert hne, if_neg hba, hb]
  · intro b entry hnone hsome
    rw [get?_insert hne] at hsome
    split at hsome
    · exact ⟨(Option.some.inj hsome).symm, ‹_›⟩
    · rw [hnone] at hsome
      exact nomatch hsome

theorem grows_of_ensureBelow (h : ensureBelow tree at_ part = .ok (a, made)) :
    Grows (· = below at_ part) tree made := by
  unfold ensureBelow at h
  split at h
  · obtain ⟨-, rfl⟩ := Prod.mk.inj (Except.ok.inj h)
    exact .refl _ tree
  · exact nomatch h
  · rename_i hf
    obtain ⟨-, rfl⟩ := Prod.mk.inj (Except.ok.inj h)
    exact grows_insert (find_eq_noEntry_iff.mp hf).2
  · exact nomatch h

/-- Below a directory that is there, the one to be made is the only one on the way that is new. -/
theorem grows_child (h : enter tree (start cwd p) p.parts = .ok a)
    (hlast : ensureBelow tree a part = .ok (b, made)) :
    Grows (OnWay cwd (p.child part)) tree made := by
  apply (grows_of_ensureBelow hlast).mono
  rintro _ rfl
  have hself : OnWay cwd (p.child part) (walk (start cwd p) (p.parts ++ [part])) :=
    onWay_self (List.append_ne_nil_of_right_ne_nil p.parts (List.cons_ne_nil part []))
  rw [eq_walk_of_enter h, ← walk_concat]
  exact hself

theorem exists_child_eq (h : p.parts ≠ []) : ∃ above part, p = Place.child above part := by
  refine ⟨p.parent, p.parts.getLast h, ?_⟩
  cases p
  simp [Place.child, Place.parent, List.dropLast_append_getLast]

theorem ensureAt_child (tree : FileTree) (cwd : Address) (p : Place) (part : Text) :
    ensureAt tree cwd (p.child part) =
      if pathLimit < byteLength (p.child part).text then .error .nameTooLong
      else (enter tree (start cwd p) p.parts).bind fun a => ensureBelow tree a part := by
  simp [ensureAt, Place.child, start, Place.isAbsolute, bind]

theorem grows_of_ensureAt (h : ensureAt tree cwd p = .ok (a, made)) :
    Grows (OnWay cwd p) tree made := by
  by_cases hparts : p.parts = []
  · unfold ensureAt at h
    split at h
    · exact nomatch h
    · rw [hparts, List.getLast?_nil] at h
      obtain ⟨-, rfl⟩ := Prod.mk.inj (Except.ok.inj h)
      exact .refl _ tree
  obtain ⟨above, part, rfl⟩ := exists_child_eq hparts
  rw [ensureAt_child] at h
  split at h
  · exact nomatch h
  cases henter : enter tree (start cwd above) above.parts with
  | error r =>
    rw [henter] at h
    exact nomatch h
  | ok b =>
    rw [henter] at h
    exact grows_child henter h

theorem grows_settled {room : Nat} {tried : Except Refusal (Address × FileTree)}
    (h : ∀ {a made}, tried = .ok (a, made) → Grows way tree made) :
    Grows way tree (settled tree p room tried).2 := by
  cases hsettled : settled tree p room tried with
  | mk result made =>
    cases result with
    | ok a => exact h (settled_eq_ok hsettled)
    | error e =>
      obtain rfl := (settled_eq_error hsettled).1
      exact .refl _ made

theorem grows_ensureFrom (tree : FileTree) (cwd : Address) (leading room : Nat)
    (inner : List Text) :
    Grows (OnWay cwd ⟨leading, inner.reverse⟩) tree
      (ensureFrom tree cwd leading room inner).2 := by
  -- by recursion on the missing directories: those above the innermost one are made first
  induction inner generalizing room with
  | nil =>
    rw [ensureFrom_nil]
    exact grows_settled grows_of_ensureAt
  | cons part above ih =>
    have hchild := Place.mk_reverse_cons leading part above
    have hwider := fun b (h : OnWay cwd ⟨leading, above.reverse⟩ b) => hchild ▸ h.child part
    rcases ensureFrom_cons_cases tree cwd leading room part above with
      hsettled | ⟨-, ⟨-, hdeep⟩ | ⟨room', -, ⟨e, between, hup, hfrom⟩ | ⟨b, between, hup, hagain⟩⟩⟩
    · rw [hsettled]
      exact grows_settled grows_of_ensureAt
    · rw [hdeep]
      exact .refl _ tree
    · rw [hfrom]
      have habove := (ih room').mono hwider
      rwa [hup] at habove
    · rw [hagain]
      have habove := (ih room').mono hwider
      rw [hup] at habove
      rw [hchild] at habove ⊢
      exact habove.trans (grows_settled (grows_child (enter_of_ensureFrom hup).2))

theorem byteLength_append (x y : Text) : byteLength (x ++ y) = byteLength x + byteLength y := by
  rw [byteLength, Utf8.encode, List.flatMap_append, List.length_append]
  rfl

theorem byteLength_pos {x : Text} (h : x ≠ []) : 0 < byteLength x := by
  obtain ⟨g, rest, rfl⟩ := List.exists_cons_of_ne_nil h
  have hglyph : Utf8.encodeGlyph g ≠ [] := by
    cases g with
    | raw low => exact List.cons_ne_nil _ _
    | char c =>
      unfold Utf8.encodeGlyph Utf8.encodeChar
      simp only []
      split_ifs <;> exact List.cons_ne_nil _ _
  rw [byteLength, Utf8.encode, List.flatMap_cons, List.length_append]
  exact Nat.add_pos_left (List.length_pos_iff.mpr hglyph) _

theorem byteLength_le_of_prefix {x y : Text} (h : x <+: y) : byteLength x ≤ byteLength y := by
  obtain ⟨rest, rfl⟩ := h
  rw [byteLength_append]
  exact Nat.le_add_right _ _

theorem byteLength_text (p : Place) : byteLength p.text =
    max 1 (byteLength (List.replicate p.leading slash ++ Text.joinWith [slash] p.parts)) := by
  unfold Place.text
  simp only []
  split
  · rename_i hnil
    rw [hnil]
    rfl
  · rename_i hne
    exact (max_eq_right (byteLength_pos hne)).symm

theorem byteLength_text_le_child (p : Place) (part : Text) :
    byteLength p.text ≤ byteLength (p.child part).text := by
  have hwritten := byteLength_le_of_prefix ((List.prefix_append_right_inj
    (List.replicate p.leading slash)).mpr (Text.joinWith_prefix [slash] p.parts [part]))
  rw [byteLength_text, byteLength_text]
  exact Nat.max_le.mpr ⟨Nat.le_max_left _ _, hwritten.trans (Nat.le_max_right _ _)⟩

theorem ensureAt_child_of_missing (hshort : byteLength (p.child part).text ≤ pathLimit)
    (h : enter tree (start cwd p) p.parts = .error .noEntry) :
    ensureAt tree cwd (p.child part) = .error .noEntry := by
  rw [ensureAt_child, if_neg (Nat.not_lt.mpr hshort), h]
  rfl

/-- If the outermost directory that there is room for cannot be made then none of them is, as each
is tried before those above it are. -/
theorem ensureFrom_of_missing {leading room : Nat} {inner : List Text}
    (hshort : byteLength (Place.text ⟨leading, inner.reverse⟩) ≤ pathLimit)
    (h : enter tree (start cwd ⟨leading, []⟩) (inner.drop (room + 1)).reverse =
      .error .noEntry) :
    ensureFrom tree cwd leading room inner = (.error (.tooDeep .primitive), tree) := by
  induction inner generalizing room with
  | nil => exact nomatch h
  | cons part above ih =>
    have hchild := Place.mk_reverse_cons leading part above
    have habove := enter_append_noEntry h (above.take room).reverse
    rw [List.drop_succ_cons, ← List.reverse_append, List.take_append_drop] at habove
    rw [hchild] at hshort
    have hat := ensureAt_child_of_missing (p := ⟨leading, above.reverse⟩) hshort habove
    unfold ensureFrom
    simp only [hchild, hat]
    cases room with
    | zero => rfl
    | succ room =>
      have hshorter := byteLength_text_le_child ⟨leading, above.reverse⟩ part
      simp only [ih (hshorter.trans hshort) h]

theorem ensureDirectory_of_missing {room : Nat} (hshort : byteLength p.text ≤ pathLimit)
    (h : enter tree (start cwd p) (p.parts.take (p.parts.length - (room + 2))) =
      .error .noEntry) :
    ensureDirectory tree cwd p room = (.error (.tooDeep .primitive), tree) := by
  apply ensureFrom_of_missing
  · rw [List.reverse_reverse]
    exact hshort
  · rw [List.drop_reverse, List.reverse_reverse]
    exact h

theorem grows_ensureDirectory (tree : FileTree) (cwd : Address) (p : Place) (room : Nat) :
    Grows (OnWay cwd p) tree (ensureDirectory tree cwd p room).2 := by
  have hgrows := grows_ensureFrom tree cwd p.leading (room + 1) p.parts.reverse
  rw [List.reverse_reverse] at hgrows
  exact hgrows

theorem truncate_at_walk (h : truncate tree cwd p = .ok made) :
    get? tree (walk (start cwd p) p.parts) ≠ some .directory ∧
      made = insert tree (walk (start cwd p) p.parts) (.file []) := by
  obtain ⟨-, last, at_, hlast, -, henter, -, hdir, rfl⟩ := truncate_eq_ok h
  obtain ⟨above, hparts⟩ := List.getLast?_eq_some_iff.mp hlast
  rw [hparts, List.dropLast_concat] at henter
  rw [hparts, walk_concat, ← eq_walk_of_enter henter]
  exact ⟨hdir, rfl⟩

end FileTree

namespace Workspace

open FileTree

variable {tree between made : FileTree} {cwd : Address} {repoRoot : Text} {room : Nat}

def rootPlace (repoRoot : Text) : Place := .ofText (root repoRoot)

def markerAddress (cwd : Address) (repoRoot : Text) : Address :=
  walk (start cwd (marker repoRoot)) (marker repoRoot).parts

theorem tidy_root (repoRoot : Text) : Path.Tidy (root repoRoot) := by
  rw [root_eq_opened]
  exact Path.Tidy.append (Path.backslash_not_mem_opened (Path.backslash_not_mem_normalize repoRoot))
    tidy_directoryName (by decide)

theorem marker_eq_child (repoRoot : Text) :
    marker repoRoot = (rootPlace repoRoot).child markerName := by
  have hw := letter_mem_root repoRoot
  have hjoin : Path.join [root repoRoot, markerName] = root repoRoot ++ slash :: markerName :=
    Path.join_pair (tidy_root repoRoot) tidy_markerName (List.ne_nil_of_mem hw)
      (by decide) (by decide)
  rw [marker, hjoin, Place.ofText, Place.components_append, components_markerName,
    Place.leadingSlashes_append ⟨_, hw, by decide⟩]
  rfl

theorem parent_marker (repoRoot : Text) : (marker repoRoot).parent = rootPlace repoRoot := by
  rw [marker_eq_child, Place.parent_child]

/-- The directories are made first, and the marker is emptied after them. -/
theorem prepare_eq {result : Except DirectoryError Address} (h : nul ∉ repoRoot)
    (hmade : ensureDirectory tree cwd (rootPlace repoRoot) room = (result, between)) :
    prepare tree cwd repoRoot room =
      match result with
      | .error (.refused e) => (.error (.refused e), between)
      | .error (.tooDeep overrun) => (.error (.tooDeep overrun), between)
      | .ok _ =>
        match truncate between cwd (marker repoRoot) with
        | .ok made => (.ok (), made)
        | .error r => (.error (.refused ⟨r, marker repoRoot⟩), between) := by
  have hnul : nul ∉ (marker repoRoot).text := fun hm => h (nul_mem_of_mem_marker hm)
  simp only [prepare, if_neg hnul, parent_marker, hmade]
  rcases result with (e | _) | _ <;> rfl

/-- A root that was prepared. The marker is empty, where it was a file or nothing. -/
structure Made (tree : FileTree) (cwd : Address) (repoRoot : Text) (room : Nat)
    (made : FileTree) : Prop where
  kept : ∀ {b entry}, get? tree b = some entry → get? made b = some entry ∨
    b = markerAddress cwd repoRoot ∧ ∃ content, entry = .file content
  new : ∀ {b entry}, get? tree b = none → get? made b = some entry →
    entry = .directory ∧ OnWay cwd (rootPlace repoRoot) b ∨
      entry = .file [] ∧ b = markerAddress cwd repoRoot
  marked : get? made (markerAddress cwd repoRoot) = some (.file [])
  again : prepare made cwd repoRoot room = (.ok (), made)

/-- How preparing a root ends, and what it leaves. -/
inductive Prepared (tree : FileTree) (cwd : Address) (repoRoot : Text) (room : Nat) :
    Except Fault Unit × FileTree → Prop
  | made {made : FileTree} (h : Made tree cwd repoRoot room made) :
    Prepared tree cwd repoRoot room (.ok (), made)
  | refused {e : PathError} {made : FileTree}
      (h : Grows (OnWay cwd (rootPlace repoRoot)) tree made) :
    Prepared tree cwd repoRoot room (.error (.refused e), made)
  | tooDeep {overrun : Overrun} {made : FileTree}
      (h : Grows (OnWay cwd (rootPlace repoRoot)) tree made)
      (hroom : room < (rootPlace repoRoot).parts.length) :
    Prepared tree cwd repoRoot room (.error (.tooDeep overrun), made)

theorem made_of_truncate (hgrows : Grows (OnWay cwd (rootPlace repoRoot)) tree between)
    (htruncate : truncate between cwd (marker repoRoot) = .ok made)
    (hagain : prepare made cwd repoRoot room = (.ok (), made)) :
    Made tree cwd repoRoot room made := by
  obtain ⟨hdir, hmade⟩ := truncate_at_walk htruncate
  rw [← markerAddress] at hdir hmade
  have hne := ne_nil_of_get? hdir
  have hget : ∀ b, get? made b =
      if b = markerAddress cwd repoRoot then some (.file []) else get? between b := by
    intro b
    rw [hmade]
    exact get?_insert hne b (.file [])
  constructor
  · intro b entry hb
    have hbetween := hgrows.kept hb
    by_cases hmarker : b = markerAddress cwd repoRoot
    · cases entry with
      | directory => exact absurd (hmarker ▸ hbetween) hdir
      | file content => exact .inr ⟨hmarker, content, rfl⟩
    · rw [hget, if_neg hmarker]
      exact .inl hbetween
  · intro b entry hnone hsome
    rw [hget] at hsome
    split at hsome
    · exact .inr ⟨(Option.some.inj hsome).symm, ‹_›⟩
    · exact .inl (hgrows.new hnone hsome)
  · rw [hget, if_pos rfl]
  · exact hagain

/-- Preparing a root leaves whatever was there as it was, the marker apart, and adds only what leads
to it. To prepare it again changes nothing. -/
theorem prepare_adds_only_root (tree : FileTree) (cwd : Address) (repoRoot : Text) (room : Nat)
    (h : nul ∉ repoRoot) :
    Prepared tree cwd repoRoot room (prepare tree cwd repoRoot room) := by
  have hgrows := grows_ensureDirectory tree cwd (rootPlace repoRoot) room
  cases hmade : ensureDirectory tree cwd (rootPlace repoRoot) room with
  | mk result between =>
  rw [hmade] at hgrows
  have hprepare := prepare_eq h hmade
  cases result with
  | error e =>
    cases e with
    | refused e =>
      rw [hprepare]
      exact .refused hgrows
    | tooDeep overrun =>
      have hroom := room_le_of_tooDeep hmade
      rw [List.length_reverse] at hroom
      rw [hprepare]
      exact .tooDeep hgrows hroom
  | ok a =>
    cases htruncate : truncate between cwd (marker repoRoot) with
    | error r =>
      simp only [htruncate] at hprepare
      rw [hprepare]
      exact .refused hgrows
    | ok made =>
      simp only [htruncate] at hprepare
      rw [hprepare]
      exact .made (made_of_truncate hgrows htruncate (prepare_again hprepare))

def overlong : Text := Text.ofString "a/" ++ List.replicate 256 (.char 'n')

/-- The over-long name is refused after the directory above it was made. With room for one call less
the refusal cannot be told, and the directory is there all the same. -/
theorem prepare_adds_only_root_halfway : nul ∉ overlong ∧
    Prepared [] [] overlong 2 (prepare [] [] overlong 2) ∧
    Prepared [] [] overlong 1 (prepare [] [] overlong 1) ∧
    (prepare [] [] overlong 2).1 = .error (.refused ⟨.nameTooLong, .ofText overlong⟩) ∧
    (prepare [] [] overlong 1).1 = .error (.tooDeep .call) ∧
    get? (prepare [] [] overlong 1).2 ["a"] = some .directory := by
  have hnul : nul ∉ overlong := by decide
  exact ⟨hnul, prepare_adds_only_root [] [] overlong 2 hnul,
    prepare_adds_only_root [] [] overlong 1 hnul, by decide +kernel, by decide +kernel,
    by decide +kernel⟩

def deep : Text := Text.joinWith [slash] (List.replicate 1100 "q")

theorem missing_of_deep {room : Nat} (h : room ≤ 1000) :
    enter [] (start [] (rootPlace deep)) ((rootPlace deep).parts.take
      ((rootPlace deep).parts.length - (room + 2))) = .error .noEntry := by
  have hlength : (rootPlace deep).parts.length = 1101 := by decide +kernel
  have hhead : (rootPlace deep).parts.head? = some "q" := by decide +kernel
  obtain ⟨rest, hparts⟩ := List.head?_eq_some_iff.mp hhead
  obtain ⟨n, hn⟩ : ∃ n, (rootPlace deep).parts.length - (room + 2) = n + 1 :=
    ⟨1101 - (room + 3), by omega⟩
  have hfind : find [] (start [] (rootPlace deep)) "q" = .error .noEntry := by decide +kernel
  rw [hn, hparts, List.take_succ_cons, enter, hfind]

/-- Of eleven hundred missing directories none is made, though the system would refuse none: a stack
of a thousand places has no room for them. -/
theorem prepare_stops_too_deep : nul ∉ deep ∧ ∀ room ≤ 1000,
    prepare [] [] deep room = (.error (.tooDeep .primitive), []) ∧
      (prepare [] [] deep room).1 ≠ .ok () ∧
      ∀ e, (prepare [] [] deep room).1 ≠ .error (.refused e) := by
  have hnul : nul ∉ deep := by decide +kernel
  have hshort : byteLength (rootPlace deep).text ≤ pathLimit := by decide +kernel
  refine ⟨hnul, ?_⟩
  intro room hroom
  have hprepare := prepare_eq hnul (ensureDirectory_of_missing hshort (missing_of_deep hroom))
  rw [hprepare]
  exact ⟨rfl, nofun, nofun⟩

end Workspace

end Paddock
