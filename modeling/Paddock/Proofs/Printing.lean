import Paddock.Proofs.Listing

/-!
# Printed listings

A worktree is printed as its path line and one line for each thing that is known of it, in any order
and among lines with other words. At least one empty line stands between two stanzas; how the last
one ends does not matter. Reading gives the printed worktrees back, whatever their paths look like.
-/

namespace Paddock

set_option autoImplicit false

open Text (newline space)

namespace Text

theorem lines_unlines {xs : List Text} (hne : xs ≠ []) (h : ∀ x ∈ xs, newline ∉ x) :
    lines (unlines xs) = xs :=
  splitAt_joinWith hne h

end Text

namespace Worktree

def keywords : List Text :=
  List.map Text.ofString ["HEAD", "branch", "detached", "bare", "locked", "prunable"]

theorem nodup_keywords : keywords.Nodup := by decide

theorem space_not_mem_of_mem_keywords : ∀ key ∈ keywords, space ∉ key := by decide

theorem newline_not_mem_of_mem_keywords : ∀ key ∈ keywords, newline ∉ key := by decide

def attributeLine (key : Text) : Option Text → Text
  | none => key
  | some value => key ++ space :: value

theorem keyword_attributeLine {key : Text} (h : space ∉ key) (value : Option Text) :
    keyword (attributeLine key value) = key := by
  cases value with
  | none => exact List.takeWhile_eq_self_iff.mpr (takeWhile_keyword h)
  | some value => exact keyword_append h value

/-- A keyword, and unless it is left out what is said with it, if anything. -/
abbrev Statement := Text × Option (Option Text)

def printed (statements : List Statement) : List Text :=
  statements.filterMap fun s => s.2.map (attributeLine s.1)

/-- Where no keyword comes twice, each one has the line of its own statement. -/
theorem filter_keyword_printed {statements : List Statement} {key : Text}
    {said : Option (Option Text)} (hspace : ∀ s ∈ statements, space ∉ s.1)
    (hnodup : (statements.map Prod.fst).Nodup) (h : (key, said) ∈ statements) :
    (printed statements).filter (keyword · = key) = (said.map (attributeLine key)).toList := by
  have hother : ∀ ss : List Statement, (∀ s ∈ ss, space ∉ s.1) → key ∉ ss.map Prod.fst →
      (printed ss).filter (keyword · = key) = [] := by
    intro ss hss hkey
    rw [List.filter_eq_nil_iff]
    intro line hline
    obtain ⟨s, hs, hsaid⟩ := List.mem_filterMap.mp hline
    obtain ⟨value, _, rfl⟩ := Option.map_eq_some_iff.mp hsaid
    rw [decide_eq_true_eq, keyword_attributeLine (hss s hs)]
    rintro rfl
    exact hkey (List.mem_map_of_mem hs)
  induction statements with
  | nil => exact absurd h List.not_mem_nil
  | cons s ss ih =>
    have hss : ∀ t ∈ ss, space ∉ t.1 := fun t ht => hspace t (List.mem_cons_of_mem s ht)
    have hs : space ∉ s.1 := hspace s List.mem_cons_self
    obtain ⟨hfresh, hrest⟩ := List.nodup_cons.mp hnodup
    have hcons : printed (s :: ss) = (s.2.map (attributeLine s.1)).toList ++ printed ss := by
      obtain ⟨k, v⟩ := s
      cases v <;> rfl
    rw [hcons, List.filter_append]
    rcases List.mem_cons.mp h with rfl | hmem
    · rw [hother ss hss hfresh, List.append_nil]
      cases said with
      | none => rfl
      | some value => simp [keyword_attributeLine hs]
    · have hne : s.1 ≠ key := by
        rintro rfl
        exact hfresh (List.mem_map.mpr ⟨_, hmem, rfl⟩)
      rw [ih hss hrest hmem]
      cases hv : s.2 with
      | none => rfl
      | some value => simp [keyword_attributeLine hs, hne]

/-- The reasons that are given for two of the flags. -/
structure Reasons where
  locked : Option Text := none
  prunable : Option Text := none

def flag (on : Bool) (reason : Option Text) : Option (Option Text) :=
  if on then some reason else none

def statements (w : Worktree) (reasons : Reasons) : List Statement :=
  [("HEAD", w.head.map some), ("branch", w.branch.map some), ("detached", flag w.detached none),
    ("bare", flag w.bare none), ("locked", flag w.locked reasons.locked),
    ("prunable", flag w.prunable reasons.prunable)]

/-- A line that says nothing known. -/
structure IsForeign (line : Text) : Prop where
  ne_nil : line ≠ []
  newline_not_mem : newline ∉ line
  no_path : ¬ pathKeyword <+: line
  keyword_not_mem : keyword line ∉ keywords

/-- One line's worth of text without blanks around it. -/
structure IsValue (value : Text) : Prop where
  ne_nil : value ≠ []
  newline_not_mem : newline ∉ value
  trimmed : Text.IsTrimmed value

structure Printable (w : Worktree) : Prop where
  path : newline ∉ w.path
  head : ∀ value, w.head = some value → IsValue value
  branch : ∀ value, w.branch = some value → IsValue value

/-- The stanza has the worktree's path and, in any order, the lines of what is known of it, perhaps
among foreign ones. -/
structure Stanza.Prints (s : Stanza) (w : Worktree) : Prop where
  path_eq : s.path = w.path
  attributes : ∃ (reasons : Reasons) (foreign : List Text),
    (∀ reason, reasons.locked = some reason → newline ∉ reason) ∧
    (∀ reason, reasons.prunable = some reason → newline ∉ reason) ∧
    (∀ line ∈ foreign, IsForeign line) ∧
    s.attributes.Perm (printed (w.statements reasons) ++ foreign)

/-- The lines of a listing of some worktrees. Empty lines may stand around a stanza, and one has to
stand below it unless the listing ends there. -/
inductive Printed : List Worktree → List Text → Prop where
  | nothing : Printed [] []
  | empty {ws : List Worktree} {lines : List Text} (h : Printed ws lines) : Printed ws ([] :: lines)
  | stanza {w : Worktree} {ws : List Worktree} {s : Stanza} {lines : List Text} (h : s.Prints w)
      (hend : ∀ line, lines.head? = some line → line = []) (rest : Printed ws lines) :
      Printed (w :: ws) ((pathKeyword ++ s.path) :: (s.attributes ++ lines))

theorem isAttribute_of_keyword {line : Text} (h : keyword line ∈ keywords) :
    isAttribute line = true := by
  rw [isAttribute_iff]
  constructor
  · rintro rfl
    exact absurd h (by decide)
  · rintro ⟨path, rfl⟩
    have hword : keyword (Text.ofString "worktree" ++ space :: path) = Text.ofString "worktree" :=
      keyword_append (by decide) path
    have hsplit : pathKeyword ++ path = Text.ofString "worktree" ++ space :: path := by
      have : pathKeyword = Text.ofString "worktree" ++ [space] := by decide
      rw [this, List.append_assoc]
      rfl
    rw [hsplit, hword] at h
    exact absurd h (by decide)

section Prints

variable {s : Stanza} {w : Worktree}

theorem map_fst_statements (w : Worktree) (reasons : Reasons) :
    (w.statements reasons).map Prod.fst = keywords := rfl

theorem mem_keywords_of_mem_statements {reasons : Reasons} {t : Statement}
    (h : t ∈ w.statements reasons) : t.1 ∈ keywords := by
  rw [← map_fst_statements w reasons]
  exact List.mem_map_of_mem h

theorem Stanza.Prints.filter_keyword (h : s.Prints w) : ∃ reasons : Reasons,
    ∀ key said, (key, said) ∈ w.statements reasons →
      s.attributes.filter (keyword · = key) = (said.map (attributeLine key)).toList := by
  obtain ⟨reasons, foreign, _, _, hforeign, hperm⟩ := h.attributes
  refine ⟨reasons, ?_⟩
  intro key said hmem
  have hknown : (printed (w.statements reasons)).filter (keyword · = key) =
      (said.map (attributeLine key)).toList :=
    filter_keyword_printed
      (fun t ht => space_not_mem_of_mem_keywords t.1 (mem_keywords_of_mem_statements ht))
      (map_fst_statements w reasons ▸ nodup_keywords) hmem
  have hnone : foreign.filter (keyword · = key) = [] := by
    rw [List.filter_eq_nil_iff]
    intro line hline he
    have hno := (hforeign line hline).keyword_not_mem
    rw [of_decide_eq_true he] at hno
    exact hno (mem_keywords_of_mem_statements hmem)
  have hall := hperm.filter (keyword · = key)
  rw [List.filter_append, hknown, hnone, List.append_nil] at hall
  cases said with
  | none => exact List.perm_nil.mp hall
  | some value => exact List.perm_singleton.mp hall

theorem lastValue_of_filter {key : Text} {said : Option Text} (hspace : space ∉ key)
    (hsaid : ∀ value, said = some value → IsValue value)
    (h : s.attributes.filter (keyword · = key) =
      ((said.map some).map (attributeLine key)).toList) : s.lastValue key = said := by
  rw [Stanza.lastValue, h]
  cases said with
  | none => rfl
  | some value =>
    have hvalue := hsaid value rfl
    exact value?_append hspace hvalue.trimmed hvalue.ne_nil

theorem flag_iff_of_filter {key : Text} {on : Bool} {reason : Option Text}
    (h : s.attributes.filter (keyword · = key) =
      ((flag on reason).map (attributeLine key)).toList) :
    on = true ↔ ∃ line ∈ s.attributes, keyword line = key := by
  have hsome : (∃ line ∈ s.attributes, keyword line = key) ↔
      s.attributes.filter (keyword · = key) ≠ [] := by
    simp only [ne_eq, List.filter_eq_nil_iff, decide_eq_true_eq, not_forall, not_not, exists_prop]
  rw [hsome, h]
  cases on with
  | false => simp [flag]
  | true => simp [flag]

theorem reason_of_flag {on : Bool} {reason : Option Text} {value : Text}
    (h : some (some value) = flag on reason) : reason = some value := by
  cases on with
  | false => simp [flag] at h
  | true => exact (Option.some.inj h).symm

theorem Stanza.says_of_prints (h : s.Prints w) (hw : w.Printable) : s.Says w := by
  obtain ⟨reasons, hfilter⟩ := h.filter_keyword
  have hspace : ∀ key ∈ keywords, space ∉ key := space_not_mem_of_mem_keywords
  constructor
  case path_eq => exact h.path_eq.symm
  case head_eq =>
    refine (lastValue_of_filter (hspace _ ?_) hw.head (hfilter _ _ ?_)).symm
    · simp [keywords]
    · simp [statements]
  case branch_eq =>
    refine (lastValue_of_filter (hspace _ ?_) hw.branch (hfilter _ _ ?_)).symm
    · simp [keywords]
    · simp [statements]
  case detached_iff =>
    exact flag_iff_of_filter (hfilter _ (flag w.detached none) (by simp [statements]))
  case bare_iff => exact flag_iff_of_filter (hfilter _ (flag w.bare none) (by simp [statements]))
  case locked_iff =>
    exact flag_iff_of_filter (hfilter _ (flag w.locked reasons.locked) (by simp [statements]))
  case prunable_iff =>
    exact flag_iff_of_filter (hfilter _ (flag w.prunable reasons.prunable) (by simp [statements]))

theorem line_of_printed {reasons : Reasons} {line : Text} (hw : w.Printable)
    (hlocked : ∀ reason, reasons.locked = some reason → newline ∉ reason)
    (hprunable : ∀ reason, reasons.prunable = some reason → newline ∉ reason)
    (h : line ∈ printed (w.statements reasons)) : isAttribute line = true ∧ newline ∉ line := by
  obtain ⟨⟨key, said⟩, hmem, hline⟩ := List.mem_filterMap.mp h
  obtain ⟨value, rfl, rfl⟩ := Option.map_eq_some_iff.mp hline
  have hkey : key ∈ keywords := mem_keywords_of_mem_statements hmem
  have hword : keyword (attributeLine key value) ∈ keywords := by
    rw [keyword_attributeLine (space_not_mem_of_mem_keywords key hkey)]
    exact hkey
  refine ⟨isAttribute_of_keyword hword, ?_⟩
  have hnewline := newline_not_mem_of_mem_keywords key hkey
  cases value with
  | none => exact hnewline
  | some value =>
    have hvalue : newline ∉ value := by
      simp only [statements, List.mem_cons, Prod.mk.injEq, List.not_mem_nil, or_false] at hmem
      rcases hmem with ⟨_, h⟩ | ⟨_, h⟩ | ⟨_, h⟩ | ⟨_, h⟩ | ⟨_, h⟩ | ⟨_, h⟩
      · exact (hw.head value (by simpa using h.symm)).newline_not_mem
      · exact (hw.branch value (by simpa using h.symm)).newline_not_mem
      · simp [flag] at h
      · simp [flag] at h
      · exact hlocked value (reason_of_flag h)
      · exact hprunable value (reason_of_flag h)
    intro hm
    rcases List.mem_append.mp hm with hm | hm
    · exact hnewline hm
    rcases List.mem_cons.mp hm with hm | hm
    · exact absurd hm (by decide)
    · exact hvalue hm

theorem Stanza.Prints.lines (h : s.Prints w) (hw : w.Printable) :
    newline ∉ pathKeyword ++ s.path ∧
      ∀ line ∈ s.attributes, isAttribute line = true ∧ newline ∉ line := by
  constructor
  · have hkeyword : newline ∉ pathKeyword := by decide
    rw [List.mem_append, h.path_eq, not_or]
    exact ⟨hkeyword, hw.path⟩
  · obtain ⟨reasons, foreign, hlocked, hprunable, hforeign, hperm⟩ := h.attributes
    intro line hline
    rcases List.mem_append.mp (hperm.mem_iff.mp hline) with hline | hline
    · exact line_of_printed hw hlocked hprunable hline
    · have hf := hforeign line hline
      exact ⟨isAttribute_iff.mpr ⟨hf.ne_nil, hf.no_path⟩, hf.newline_not_mem⟩

end Prints

theorem stanzas_of_printed {ws : List Worktree} {lines : List Text}
    (hws : ∀ w ∈ ws, w.Printable) (h : Printed ws lines) :
    (stanzas lines).map Stanza.worktree = ws := by
  induction h with
  | nothing => rfl
  | empty _ ih => exact ih hws
  | @stanza w ws s lines hprints hend _ ih =>
    have hw : w.Printable := hws w List.mem_cons_self
    have hattributes : ∀ line ∈ s.attributes, isAttribute line = true := fun line hline =>
      ((hprints.lines hw).2 line hline).1
    have hclosed : ∀ line, lines.head? = some line → isAttribute line = false := by
      intro line hline
      exact isAttribute_eq_false_iff.mpr (.inl (hend line hline))
    have hsays := Stanza.says_of_prints hprints hw
    rw [stanzas_stanza hattributes hclosed, List.map_cons,
      ih fun v hv => hws v (List.mem_cons_of_mem w hv), ← hsays.eq_worktree]

theorem newline_not_mem_of_printed {ws : List Worktree} {lines : List Text}
    (hws : ∀ w ∈ ws, w.Printable) (h : Printed ws lines) : ∀ line ∈ lines, newline ∉ line := by
  induction h with
  | nothing => exact fun line hline => absurd hline List.not_mem_nil
  | empty _ ih =>
    intro line hline
    rcases List.mem_cons.mp hline with rfl | hline
    · exact List.not_mem_nil
    · exact ih hws line hline
  | @stanza w ws s lines hprints _ _ ih =>
    obtain ⟨hpath, hattributes⟩ := hprints.lines (hws w List.mem_cons_self)
    intro line hline
    rcases List.mem_cons.mp hline with rfl | hline
    · exact hpath
    rcases List.mem_append.mp hline with hline | hline
    · exact (hattributes line hline).2
    · exact ih (fun v hv => hws v (List.mem_cons_of_mem w hv)) line hline

/-- A printed listing is read back as the worktrees that it was printed from. -/
theorem ofPorcelain_of_printed {ws : List Worktree} {lines : List Text}
    (hws : ∀ w ∈ ws, w.Printable) (h : Printed ws lines) :
    ofPorcelain (Text.unlines lines) = ws := by
  rw [ofPorcelain_eq]
  by_cases hne : lines = []
  · subst hne
    cases h
    rfl
  · rw [Text.lines_unlines hne (newline_not_mem_of_printed hws h)]
    exact stanzas_of_printed hws h

/-- A worktree whose path looks like a path line, and one whose path is empty. -/
def oddTrees : List Worktree :=
  [{ path := "worktree /r ", head := some "1", locked := true },
    { path := [], branch := some "refs/heads/b", prunable := true }]

def oddLines : List Text :=
  ["worktree worktree /r ", "locked in use", "note 1", "HEAD 1", "", "", "worktree ", "prunable",
    "branch refs/heads/b"]

theorem printable_oddTrees : ∀ w ∈ oddTrees, w.Printable := by
  have hvalue : IsValue "1" ∧ IsValue "refs/heads/b" := by
    refine ⟨⟨?_, ?_, Text.isTrimmed_of_forall ?_⟩, ⟨?_, ?_, Text.isTrimmed_of_forall ?_⟩⟩
    all_goals decide
  intro w hw
  simp only [oddTrees, List.mem_cons, List.not_mem_nil, or_false] at hw
  rcases hw with rfl | rfl
  · refine ⟨by decide, ?_, ?_⟩
    · intro value h
      exact Option.some.inj h ▸ hvalue.1
    · intro value h
      exact absurd h (by simp)
  · refine ⟨by decide, ?_, ?_⟩
    · intro value h
      exact absurd h (by simp)
    · intro value h
      exact Option.some.inj h ▸ hvalue.2

theorem printed_oddLines : Printed oddTrees oddLines := by
  have hforeign : IsForeign "note 1" := by
    refine ⟨?_, ?_, ?_, ?_⟩
    all_goals decide
  have hfirst : Stanza.Prints ⟨"worktree /r ", ["locked in use", "note 1", "HEAD 1"]⟩
      { path := "worktree /r ", head := some "1", locked := true } := by
    refine ⟨rfl, ⟨some "in use", none⟩, ["note 1"], ?_, ?_, ?_, ?_⟩
    · intro reason h
      rw [← Option.some.inj h]
      decide
    · intro reason h
      exact absurd h (by simp)
    · intro line hline
      rw [List.mem_singleton.mp hline]
      exact hforeign
    · decide
  have hsecond : Stanza.Prints ⟨[], ["prunable", "branch refs/heads/b"]⟩
      { path := [], branch := some "refs/heads/b", prunable := true } := by
    refine ⟨rfl, ⟨none, none⟩, [], ?_, ?_, ?_, ?_⟩
    · intro reason h
      exact absurd h (by simp)
    · intro reason h
      exact absurd h (by simp)
    · intro line hline
      exact absurd hline List.not_mem_nil
    · decide
  have htail := Printed.stanza hsecond (by simp) .nothing
  have hgap : ∀ line, ([] :: [] :: Text.ofString "worktree " :: ["prunable",
      "branch refs/heads/b"] : List Text).head? = some line → line = [] := by
    intro line h
    exact (Option.some.inj h).symm
  exact Printed.stanza hfirst hgap (.empty (.empty htail))

theorem ofPorcelain_oddLines : (∀ w ∈ oddTrees, w.Printable) ∧ Printed oddTrees oddLines ∧
    ofPorcelain (Text.unlines oddLines) = oddTrees :=
  ⟨printable_oddTrees, printed_oddLines,
    ofPorcelain_of_printed printable_oddTrees printed_oddLines⟩

end Worktree

end Paddock
