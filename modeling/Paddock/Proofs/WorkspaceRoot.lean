import Mathlib.Data.List.Induction
import Paddock.Proofs.Pieces
import Paddock.Workspace.Root

/-!
# Preparing a root again

A place that was entered stays where it is as long as no directory goes away. So once the workspace
root is prepared, preparing it again succeeds and changes nothing. It can have a fault for two
reasons only: a NUL in the repository's path, or too many directories that are missing.
-/

namespace Paddock

set_option autoImplicit false

open Text (slash)

namespace FileTree

variable {tree made : FileTree} {cwd at_ a b : Address} {parts : List Text} {part last : Text}

/-- No directory of the first tree is anything else in the second. -/
def Keeps (tree made : FileTree) : Prop :=
  ∀ a, get? tree a = some .directory → get? made a = some .directory

theorem keeps_refl (tree : FileTree) : Keeps tree tree := fun _ h => h

theorem keeps_insert {entry : Entry} (ha : a ≠ []) (h : get? tree a ≠ some .directory) :
    Keeps tree (insert tree a entry) := by
  intro b hb
  have hne : b ≠ a := by
    intro he
    exact h (he ▸ hb)
  rw [get?_insert ha, if_neg hne, hb]

theorem ne_nil_of_get? (h : get? tree a ≠ some .directory) : a ≠ [] := by
  rintro rfl
  exact h rfl

theorem find_eq_ok_iff {entry : Entry} : find tree at_ part = .ok entry ↔
    byteLength part ≤ nameLimit ∧ get? tree (below at_ part) = some entry := by
  unfold find
  split
  · rename_i hlong
    simp [Nat.not_le.mpr hlong]
  · rename_i hshort
    cases hg : get? tree (below at_ part) with
    | none => simp
    | some found => simp [Nat.not_lt.mp hshort]

theorem find_eq_noEntry_iff : find tree at_ part = .error .noEntry ↔
    byteLength part ≤ nameLimit ∧ get? tree (below at_ part) = none := by
  unfold find
  split
  · rename_i hlong
    simp [Nat.not_le.mpr hlong]
  · rename_i hshort
    cases hg : get? tree (below at_ part) with
    | none => simp [Nat.not_lt.mp hshort]
    | some found => simp

theorem enter_concat_eq_ok_iff : enter tree at_ (parts ++ [last]) = .ok b ↔
    ∃ a, enter tree at_ parts = .ok a ∧ find tree a last = .ok .directory ∧ b = below a last := by
  induction parts generalizing at_ with
  | nil =>
    cases hf : find tree at_ last with
    | error r => simp [enter, hf]
    | ok entry => cases entry <;> simp [enter, hf, eq_comm]
  | cons part parts ih =>
    cases hf : find tree at_ part with
    | error r => simp [enter, hf]
    | ok entry =>
      cases entry with
      | directory => simp [enter, hf, ih]
      | file content => simp [enter, hf]

theorem enter_of_keeps (hk : Keeps tree made) (h : enter tree at_ parts = .ok a) :
    enter made at_ parts = .ok a := by
  induction parts using List.reverseRecOn generalizing a with
  | nil => exact h
  | append_singleton parts last ih =>
    obtain ⟨b, hb, hf, rfl⟩ := enter_concat_eq_ok_iff.mp h
    obtain ⟨hshort, hdir⟩ := find_eq_ok_iff.mp hf
    exact enter_concat_eq_ok_iff.mpr ⟨b, ih hb, find_eq_ok_iff.mpr ⟨hshort, hk _ hdir⟩, rfl⟩

theorem find_of_ensureBelow (h : ensureBelow tree at_ part = .ok (a, made)) :
    Keeps tree made ∧ a = below at_ part ∧ find made at_ part = .ok .directory := by
  have hdir := get?_of_ensureBelow h
  unfold ensureBelow at h
  split at h
  · rename_i hf
    simp only [Except.ok.injEq, Prod.mk.injEq] at h
    obtain ⟨rfl, rfl⟩ := h
    exact ⟨keeps_refl _, rfl, hf⟩
  · simp at h
  · rename_i hf
    simp only [Except.ok.injEq, Prod.mk.injEq] at h
    obtain ⟨rfl, rfl⟩ := h
    obtain ⟨hshort, hnone⟩ := find_eq_noEntry_iff.mp hf
    have hno : get? tree (below at_ part) ≠ some .directory := by simp [hnone]
    exact ⟨keeps_insert (ne_nil_of_get? hno) hno, rfl, find_eq_ok_iff.mpr ⟨hshort, hdir⟩⟩
  · simp at h

theorem enter_of_ensureBelow (h : enter tree at_ parts = .ok b)
    (hlast : ensureBelow tree b last = .ok (a, made)) :
    enter made at_ (parts ++ [last]) = .ok a := by
  obtain ⟨hkeeps, rfl, hfind⟩ := find_of_ensureBelow hlast
  exact enter_concat_eq_ok_iff.mpr ⟨b, enter_of_keeps hkeeps h, hfind, rfl⟩

theorem enter_of_ensureAt {p : Place} (h : ensureAt tree cwd p = .ok (a, made)) :
    byteLength p.text ≤ pathLimit ∧ enter made (start cwd p) p.parts = .ok a := by
  unfold ensureAt at h
  split at h
  · simp at h
  rename_i hshort
  refine ⟨Nat.not_lt.mp hshort, ?_⟩
  cases hl : p.parts.getLast? with
  | none =>
    simp only [hl, Except.ok.injEq, Prod.mk.injEq] at h
    obtain ⟨rfl, rfl⟩ := h
    rw [List.getLast?_eq_none_iff.mp hl]
    rfl
  | some last =>
    obtain ⟨above, hparts⟩ := List.getLast?_eq_some_iff.mp hl
    rw [hparts, List.getLast?_concat, List.dropLast_concat] at h
    cases he : enter tree (start cwd p) above with
    | error r => simp [he, bind, Except.bind] at h
    | ok b =>
      simp only [he, bind, Except.bind] at h
      rw [hparts]
      exact enter_of_ensureBelow he h

theorem ensureAt_of_enter {p : Place} (hshort : byteLength p.text ≤ pathLimit)
    (h : enter tree (start cwd p) p.parts = .ok a) : ensureAt tree cwd p = .ok (a, tree) := by
  rw [ensureAt, if_neg (Nat.not_lt.mpr hshort)]
  cases hl : p.parts.getLast? with
  | none =>
    rw [List.getLast?_eq_none_iff.mp hl] at h
    obtain rfl := Except.ok.inj h
    rfl
  | some last =>
    obtain ⟨above, hparts⟩ := List.getLast?_eq_some_iff.mp hl
    rw [hparts] at h
    obtain ⟨b, hb, hf, rfl⟩ := enter_concat_eq_ok_iff.mp h
    simp only [hparts, List.dropLast_concat, hb, bind, Except.bind, ensureBelow, hf]

theorem short_of_ensureAt_noEntry {p : Place} (h : ensureAt tree cwd p = .error .noEntry) :
    byteLength p.text ≤ pathLimit := by
  unfold ensureAt at h
  split at h
  · simp at h
  · exact Nat.not_lt.mp ‹_›

theorem settled_eq_ok {place : Place} {room : Nat} {tried : Except Refusal (Address × FileTree)}
    (h : settled tree place room tried = (.ok a, made)) : tried = .ok (a, made) := by
  unfold settled at h
  split at h
  · split at h
    · simp at h
    · obtain ⟨ha, rfl⟩ := Prod.mk.inj h
      rw [Except.ok.inj ha]
  · split at h <;> simp at h

/-- A call that looks at what stands there already leaves it. -/
theorem settled_eq_error {place : Place} {room : Nat} {tried : Except Refusal (Address × FileTree)}
    {e : DirectoryError} (h : settled tree place room tried = (.error e, made)) :
    made = tree ∧ ∀ overrun, e = .tooDeep overrun → room = 0 := by
  unfold settled at h
  split at h
  · split at h
    · rename_i hroom
      exact ⟨(Prod.mk.inj h).2.symm, fun _ _ => hroom.1⟩
    · simp at h
  · split at h
    · rename_i hroom
      exact ⟨(Prod.mk.inj h).2.symm, fun _ _ => hroom⟩
    · obtain ⟨he, rfl⟩ := Prod.mk.inj h
      obtain rfl := Except.error.inj he
      exact ⟨rfl, nofun⟩

theorem ensureFrom_eq_settled {leading room : Nat} {inner : List Text}
    (h : ensureAt tree cwd ⟨leading, inner.reverse⟩ ≠ .error .noEntry) :
    ensureFrom tree cwd leading room inner =
      settled tree ⟨leading, inner.reverse⟩ room (ensureAt tree cwd ⟨leading, inner.reverse⟩) := by
  unfold ensureFrom
  simp only []
  split
  · exact absurd ‹_› h
  · exact absurd ‹_› h
  · rfl

theorem ensureFrom_nil (tree : FileTree) (cwd : Address) (leading room : Nat) :
    ensureFrom tree cwd leading room [] =
      settled tree ⟨leading, []⟩ room (ensureAt tree cwd ⟨leading, []⟩) := by
  unfold ensureFrom
  simp only [List.reverse_nil]
  split
  · rename_i hinner
    exact absurd hinner.symm (List.cons_ne_nil _ _)
  · rename_i hinner
    exact absurd hinner.symm (List.cons_ne_nil _ _)
  · rfl

/-- What the call for a directory below others comes to: it is made or refused at once, or there is
no room for the call that makes the one above, or that one fails, or it is tried again. -/
theorem ensureFrom_cons_cases (tree : FileTree) (cwd : Address) (leading room : Nat) (part : Text)
    (above : List Text) :
    ensureFrom tree cwd leading room (part :: above) =
      settled tree ⟨leading, (part :: above).reverse⟩ room
        (ensureAt tree cwd ⟨leading, (part :: above).reverse⟩) ∨
    ensureAt tree cwd ⟨leading, (part :: above).reverse⟩ = .error .noEntry ∧
      ((room = 0 ∧
        ensureFrom tree cwd leading room (part :: above) = (.error (.tooDeep .primitive), tree)) ∨
      ∃ room', room = room' + 1 ∧
        ((∃ e between, ensureFrom tree cwd leading room' above = (.error e, between) ∧
          ensureFrom tree cwd leading room (part :: above) = (.error e, between)) ∨
        ∃ b between, ensureFrom tree cwd leading room' above = (.ok b, between) ∧
          ensureFrom tree cwd leading room (part :: above) =
            settled between ⟨leading, (part :: above).reverse⟩ room'
              (ensureBelow between b part))) := by
  by_cases hat : ensureAt tree cwd ⟨leading, (part :: above).reverse⟩ = .error .noEntry
  swap
  · exact .inl (ensureFrom_eq_settled hat)
  refine .inr ⟨hat, ?_⟩
  cases room with
  | zero =>
    refine .inl ⟨rfl, ?_⟩
    unfold ensureFrom
    simp only [hat]
  | succ room =>
    refine .inr ⟨room, rfl, ?_⟩
    cases hup : ensureFrom tree cwd leading room above with
    | mk result between =>
      cases result with
      | error e =>
        refine .inl ⟨e, between, rfl, ?_⟩
        unfold ensureFrom
        simp only [hat, hup]
      | ok b =>
        refine .inr ⟨b, between, rfl, ?_⟩
        unfold ensureFrom
        simp only [hat, hup]

/-- Each missing directory takes up room, so only many of them are too many. -/
theorem room_le_of_tooDeep {leading room : Nat} {inner : List Text} {overrun : Overrun}
    (h : ensureFrom tree cwd leading room inner = (.error (.tooDeep overrun), made)) :
    room ≤ inner.length := by
  induction inner generalizing room made with
  | nil =>
    rw [ensureFrom_nil] at h
    exact Nat.le_of_eq ((settled_eq_error h).2 overrun rfl)
  | cons part above ih =>
    rcases ensureFrom_cons_cases tree cwd leading room part above with
      hsettled | ⟨-, ⟨rfl, -⟩ | ⟨room', rfl, ⟨e, between, hup, hfrom⟩ | ⟨b, between, -, hagain⟩⟩⟩
    · rw [(settled_eq_error (hsettled.symm.trans h)).2 overrun rfl]
      exact Nat.zero_le _
    · exact Nat.zero_le _
    · exact Nat.succ_le_succ (ih (hup.trans (hfrom.symm.trans h)))
    · rw [(settled_eq_error (hagain.symm.trans h)).2 overrun rfl]
      exact Nat.succ_le_succ (Nat.zero_le _)

theorem enter_of_ensureFrom {leading room : Nat} {inner : List Text}
    (h : ensureFrom tree cwd leading room inner = (.ok a, made)) :
    byteLength (Place.text ⟨leading, inner.reverse⟩) ≤ pathLimit ∧
      enter made (start cwd ⟨leading, inner.reverse⟩) inner.reverse = .ok a := by
  -- by recursion on the missing directories: whatever was made can be entered
  induction inner generalizing room a made with
  | nil =>
    rw [ensureFrom_nil] at h
    exact enter_of_ensureAt (settled_eq_ok h)
  | cons part above ih =>
    rcases ensureFrom_cons_cases tree cwd leading room part above with
      hsettled | ⟨hat, ⟨-, hdeep⟩ | ⟨room', -, ⟨e, between, -, hfrom⟩ | ⟨b, between, hup, hagain⟩⟩⟩
    · exact enter_of_ensureAt (settled_eq_ok (hsettled.symm.trans h))
    · exact nomatch hdeep.symm.trans h
    · exact nomatch hfrom.symm.trans h
    · obtain ⟨_, henter⟩ := ih hup
      rw [List.reverse_cons] at hat ⊢
      have hbelow := settled_eq_ok (hagain.symm.trans h)
      exact ⟨short_of_ensureAt_noEntry hat, enter_of_ensureBelow henter hbelow⟩

theorem enter_of_ensureDirectory {p : Place} {room : Nat}
    (h : ensureDirectory tree cwd p room = (.ok a, made)) :
    byteLength p.text ≤ pathLimit ∧ enter made (start cwd p) p.parts = .ok a := by
  have hfrom := enter_of_ensureFrom h
  rw [List.reverse_reverse] at hfrom
  exact hfrom

/-- No directory above is made if the place itself can be made or is refused for another reason. -/
theorem ensureDirectory_of_ensureAt_ok {p : Place} (h : ensureAt tree cwd p = .ok (a, made))
    (room : Nat) : ensureDirectory tree cwd p room = (.ok a, made) := by
  have hplace : (⟨p.leading, p.parts.reverse.reverse⟩ : Place) = p := by
    rw [List.reverse_reverse]
  rw [ensureDirectory, ensureFrom_eq_settled (by simp [h]), hplace, h, settled,
    if_neg fun hroom => Nat.succ_ne_zero room hroom.1]

theorem ensureDirectory_of_ensureAt_error {p : Place} {r : Refusal} (hr : r ≠ .noEntry)
    (h : ensureAt tree cwd p = .error r) (room : Nat) :
    ensureDirectory tree cwd p room = (.error (.refused ⟨r, p⟩), tree) := by
  have hplace : (⟨p.leading, p.parts.reverse.reverse⟩ : Place) = p := by
    rw [List.reverse_reverse]
  rw [ensureDirectory, ensureFrom_eq_settled (by simp [h, hr]), hplace, h, settled,
    if_neg (Nat.succ_ne_zero room)]

theorem ensureDirectory_of_enter {p : Place} (hshort : byteLength p.text ≤ pathLimit)
    (h : enter tree (start cwd p) p.parts = .ok a) (room : Nat) :
    ensureDirectory tree cwd p room = (.ok a, tree) :=
  ensureDirectory_of_ensureAt_ok (ensureAt_of_enter hshort h) room

@[simp] theorem insert_insert (tree : FileTree) (a : Address) (entry : Entry) :
    insert (insert tree a entry) a entry = insert tree a entry := by
  induction tree with
  | nil => simp [insert]
  | cons e rest ih =>
    by_cases he : e.1 = a
    · simp [insert, he]
    · simp [insert, he, ih]

theorem truncate_eq_ok {p : Place} (h : truncate tree cwd p = .ok made) :
    byteLength p.text ≤ pathLimit ∧ ∃ last at_, p.parts.getLast? = some last ∧
      last ≠ Text.ofString ".." ∧ enter tree (start cwd p) p.parts.dropLast = .ok at_ ∧
      byteLength last ≤ nameLimit ∧ get? tree (below at_ last) ≠ some .directory ∧
      made = insert tree (below at_ last) (.file []) := by
  unfold truncate at h
  split at h
  · simp at h
  rename_i hshort
  refine ⟨Nat.not_lt.mp hshort, ?_⟩
  cases hl : p.parts.getLast? with
  | none => simp [hl] at h
  | some last =>
    simp only [hl] at h
    cases he : enter tree (start cwd p) p.parts.dropLast with
    | error r => simp [he, bind, Except.bind] at h
    | ok at_ =>
      simp only [he, bind, Except.bind] at h
      refine ⟨last, at_, rfl, ?_⟩
      split at h
      · simp at h
      rename_i hdots
      split at h
      · simp at h
      · rename_i hf
        obtain ⟨hname, hget⟩ := find_eq_ok_iff.mp hf
        exact ⟨hdots, rfl, hname, by simp [hget], (Except.ok.inj h).symm⟩
      · rename_i hf
        obtain ⟨hname, hget⟩ := find_eq_noEntry_iff.mp hf
        exact ⟨hdots, rfl, hname, by simp [hget], (Except.ok.inj h).symm⟩
      · simp at h

/-- Emptying a file again changes nothing, and no directory is lost by it. -/
theorem truncate_again {p : Place} (h : truncate tree cwd p = .ok made) :
    Keeps tree made ∧ truncate made cwd p = .ok made := by
  obtain ⟨hshort, last, at_, hlast, hdots, henter, hname, hdir, rfl⟩ := truncate_eq_ok h
  have hne : below at_ last ≠ [] := ne_nil_of_get? hdir
  have hkeeps : Keeps tree (insert tree (below at_ last) (.file [])) := keeps_insert hne hdir
  refine ⟨hkeeps, ?_⟩
  have henter' := enter_of_keeps hkeeps henter
  have hfile : find (insert tree (below at_ last) (.file [])) at_ last = .ok (.file []) :=
    find_eq_ok_iff.mpr ⟨hname, by rw [get?_insert hne, if_pos rfl]⟩
  rw [truncate, if_neg (Nat.not_lt.mpr hshort)]
  simp only [hlast, henter', bind, Except.bind, if_neg hdots, hfile, insert_insert]

end FileTree

namespace Path

variable {g : Glyph} {x : Text}

theorem mem_of_mem_normalize (h : g ∈ normalize x) : g ∈ x ∨ g = slash := by
  have hslashed : g ∈ slashed x → g ∈ x ∨ g = slash := by
    intro hm
    obtain ⟨a, ha, rfl⟩ := List.mem_map.mp hm
    split
    · exact .inr rfl
    · exact .inl ha
  unfold normalize at h
  split at h
  · exact .inr (List.mem_singleton.mp h)
  · apply hslashed
    have hdrop := (List.dropWhile_sublist isSlash).subset (List.mem_reverse.mp h)
    exact List.mem_reverse.mp hdrop

theorem mem_of_mem_attach {joined : Text} (h : g ∈ attach joined x) :
    g ∈ joined ∨ g ∈ x ∨ g = slash := by
  have hsegment : g ∈ dropLeadingSlashes (normalize x) → g ∈ x ∨ g = slash := fun hm =>
    mem_of_mem_normalize ((List.dropWhile_sublist isSlash).subset hm)
  unfold attach at h
  simp only [] at h
  split at h
  · exact .inl h
  split at h
  · exact .inr (hsegment h)
  split at h
  · rcases List.mem_cons.mp h with rfl | hm
    · exact .inr (.inr rfl)
    · exact .inr (hsegment hm)
  · rcases List.mem_append.mp h with hm | hm
    · exact .inl hm
    rcases List.mem_cons.mp hm with rfl | hm
    · exact .inr (.inr rfl)
    · exact .inr (hsegment hm)

theorem mem_of_mem_foldl_attach {parts : List Text} {joined : Text}
    (h : g ∈ parts.foldl attach joined) : g ∈ joined ∨ (∃ part ∈ parts, g ∈ part) ∨ g = slash := by
  induction parts generalizing joined with
  | nil => exact .inl h
  | cons part parts ih =>
    rcases ih h with hm | ⟨other, ho, hm⟩ | rfl
    · rcases mem_of_mem_attach hm with hm | hm | rfl
      · exact .inl hm
      · exact .inr (.inl ⟨part, List.mem_cons_self, hm⟩)
      · exact .inr (.inr rfl)
    · exact .inr (.inl ⟨other, List.mem_cons_of_mem part ho, hm⟩)
    · exact .inr (.inr rfl)

theorem mem_of_mem_join {parts : List Text} (h : g ∈ join parts) :
    (∃ part ∈ parts, g ∈ part) ∨ g = slash := by
  unfold join at h
  split at h
  · simp at h
  · rename_i first rest hparts
    have hmem : ∀ part ∈ first :: rest, part ∈ parts := fun part hp =>
      (List.mem_filter.mp (hparts ▸ hp)).1
    rcases mem_of_mem_foldl_attach h with hm | ⟨part, hp, hm⟩ | rfl
    · rcases mem_of_mem_normalize hm with hm | rfl
      · exact .inl ⟨first, hmem first List.mem_cons_self, hm⟩
      · exact .inr rfl
    · exact .inl ⟨part, hmem part (List.mem_cons_of_mem first hp), hm⟩
    · exact .inr rfl

theorem mem_of_mem_join_pair {y : Text} (h : g ∈ join [x, y]) : g ∈ x ∨ g ∈ y ∨ g = slash := by
  rcases mem_of_mem_join h with ⟨part, hp, hm⟩ | hm
  · simp only [List.mem_cons, List.not_mem_nil, or_false] at hp
    rcases hp with rfl | rfl
    · exact .inl hm
    · exact .inr (.inl hm)
  · exact .inr (.inr hm)

end Path

namespace Place

variable {g : Glyph} {x : Text}

theorem mem_of_mem_text (h : g ∈ (ofText x).text) : g ∈ x ∨ g = slash ∨ g = .char '.' := by
  unfold text at h
  simp only [] at h
  split at h
  · exact .inr (.inr (List.mem_singleton.mp h))
  rcases List.mem_append.mp h with hm | hm
  · exact .inr (.inl (List.mem_replicate.mp hm).2)
  rcases Text.mem_of_mem_joinWith hm with hm | ⟨part, hp, hm⟩
  · exact .inr (.inl (List.mem_singleton.mp hm))
  · exact .inl (Text.mem_of_mem_splitWhere (List.mem_filter.mp hp).1 hm)

end Place

namespace Workspace

variable {tree made : FileTree} {cwd : Address} {repoRoot : Text} {room : Nat}

/-- Once it is prepared, preparing a root again succeeds and changes nothing. -/
theorem prepare_again (h : prepare tree cwd repoRoot room = (.ok (), made)) :
    prepare made cwd repoRoot room = (.ok (), made) := by
  unfold prepare at h
  simp only [] at h
  split at h
  · simp at h
  rename_i hnul
  split at h
  · simp at h
  · simp at h
  rename_i a between hmade
  split at h
  · rename_i final htruncate
    obtain rfl := (Prod.mk.inj h).2
    obtain ⟨hshort, henter⟩ := FileTree.enter_of_ensureDirectory hmade
    obtain ⟨hkeeps, hagain⟩ := FileTree.truncate_again htruncate
    have hensure :=
      FileTree.ensureDirectory_of_enter hshort (FileTree.enter_of_keeps hkeeps henter) room
    simp only [prepare, if_neg hnul, hensure, hagain]
  · simp at h

theorem nul_mem_of_mem_marker (h : nul ∈ (marker repoRoot).text) : nul ∈ repoRoot := by
  have hjoin : nul ∈ Path.join [root repoRoot, markerName] := by
    rcases Place.mem_of_mem_text h with hm | hm | hm
    · exact hm
    · exact absurd hm (by decide)
    · exact absurd hm (by decide)
  have hroot : nul ∈ root repoRoot := by
    rcases Path.mem_of_mem_join_pair hjoin with hm | hm | hm
    · exact hm
    · exact absurd hm (by decide)
    · exact absurd hm (by decide)
  rcases Path.mem_of_mem_join_pair hroot with hm | hm | hm
  · exact hm
  · exact absurd hm (by decide)
  · exact absurd hm (by decide)

/-- A root that cannot be prepared is refused, is too deep, or has a NUL in its path. -/
theorem prepare_eq_error {f : Fault} (h : (prepare tree cwd repoRoot room).1 = .error f) :
    (∃ e, f = .refused e) ∨
      ((∃ overrun, f = .tooDeep overrun) ∧ room < (marker repoRoot).parent.parts.length) ∨
      (f = .embeddedNul ∧ nul ∈ repoRoot) := by
  unfold prepare at h
  simp only [] at h
  split at h
  · exact .inr (.inr ⟨(Except.error.inj h).symm, nul_mem_of_mem_marker ‹_›⟩)
  split at h
  · exact .inl ⟨_, (Except.error.inj h).symm⟩
  · rename_i hdeep
    have hroom := FileTree.room_le_of_tooDeep hdeep
    rw [List.length_reverse] at hroom
    exact .inr (.inl ⟨⟨_, (Except.error.inj h).symm⟩, hroom⟩)
  split at h
  · simp at h
  · exact .inl ⟨_, (Except.error.inj h).symm⟩

end Workspace

end Paddock
