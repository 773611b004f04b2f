import Mathlib.Data.List.DropRight
import Paddock.Command.Line
import Paddock.Proofs.Stanza

/-!
# How command lines are spelled

The grammar of command lines is stated on its own: blanks, a colon, blanks, the name, arguments each
after at least one blank, and blanks. Reading accepts exactly the texts that spell a command of the
catalogue, and each refusal is given for exactly one kind of text.
-/

namespace Paddock

set_option autoImplicit false

namespace Text

/-- A text of at least one glyph, none of them blank. -/
structure IsWord (x : Text) : Prop where
  ne_nil : x ≠ []
  solid : ∀ g ∈ x, g.isBlank = false

/-- Words, each after at least one blank, and blanks after the last of them. -/
inductive Spaced : List Text → Text → Prop where
  | done {gap : Text} (hgap : gap.isBlank = true) : Spaced [] gap
  | word {gap word rest : Text} {words : List Text} (hgap : gap.isBlank = true) (hne : gap ≠ [])
      (hword : word.IsWord) (hrest : Spaced words rest) :
      Spaced (word :: words) (gap ++ (word ++ rest))

variable {x y gap word : Text} {words : List Text} {g : Glyph}

theorem isBlank_cons : isBlank (g :: x) = true ↔ g.isBlank = true ∧ isBlank x = true := by
  simp [isBlank]

theorem fields_append_of_blank (hg : g.isBlank = true) (x y : Text) :
    fields (x ++ g :: y) = fields x ++ fields y := by
  rw [fields, splitWhere_append hg, List.filter_append]
  rfl

theorem fields_cons_of_blank (hg : g.isBlank = true) (x : Text) : fields (g :: x) = fields x :=
  fields_append_of_blank hg [] x

theorem fields_append_of_isBlank_left (hgap : gap.isBlank = true) (x : Text) :
    fields (gap ++ x) = fields x := by
  induction gap with
  | nil => rfl
  | cons g gap ih =>
    rw [isBlank_cons] at hgap
    rw [List.cons_append, fields_cons_of_blank hgap.1, ih hgap.2]

theorem fields_eq_nil (hgap : gap.isBlank = true) : fields gap = [] := by
  have h := fields_append_of_isBlank_left hgap []
  rwa [List.append_nil] at h

theorem fields_append_of_isBlank_right (hgap : gap.isBlank = true) (x : Text) :
    fields (x ++ gap) = fields x := by
  cases gap with
  | nil => rw [List.append_nil]
  | cons g gap =>
    rw [isBlank_cons] at hgap
    rw [fields_append_of_blank hgap.1, fields_eq_nil hgap.2, List.append_nil]

theorem fields_word (h : word.IsWord) : fields word = [word] := by
  rw [fields, splitWhere_eq_singleton h.solid]
  simp [h.ne_nil]

theorem Spaced.fields_append (h : Spaced words y) (x : Text) :
    fields (x ++ y) = fields x ++ words := by
  induction h generalizing x with
  | done hgap => rw [fields_append_of_isBlank_right hgap, List.append_nil]
  | @word gap word rest words hgap hne hword _ ih =>
    cases gap with
    | nil => exact absurd rfl hne
    | cons g gap =>
      rw [isBlank_cons] at hgap
      rw [List.cons_append, fields_append_of_blank hgap.1, fields_append_of_isBlank_left hgap.2, ih,
        fields_word hword]
      rfl

theorem Spaced.isWord_of_mem (h : Spaced words x) : ∀ word ∈ words, word.IsWord := by
  induction h with
  | done => simp
  | word _ _ hword _ ih => exact List.forall_mem_cons.mpr ⟨hword, ih⟩

theorem Spaced.cons_blank (hg : g.isBlank = true) (h : Spaced words x) : Spaced words (g :: x) := by
  cases h with
  | done hgap => exact .done (isBlank_cons.mpr ⟨hg, hgap⟩)
  | word hgap _ hword hrest =>
    rw [← List.cons_append]
    exact .word (isBlank_cons.mpr ⟨hg, hgap⟩) (List.cons_ne_nil _ _) hword hrest

/-- Every text is a run of glyphs that are not blank, which may be empty, and spaced words. -/
theorem exists_spaced (x : Text) : ∃ front rest words, x = front ++ rest ∧
    (∀ g ∈ front, g.isBlank = false) ∧ Spaced words rest := by
  induction x with
  | nil => exact ⟨[], [], [], rfl, by simp, .done rfl⟩
  | cons g x ih =>
    obtain ⟨front, rest, words, rfl, hfront, hrest⟩ := ih
    by_cases hg : g.isBlank = true
    · by_cases hne : front = []
      · subst hne
        exact ⟨[], g :: rest, words, rfl, by simp, hrest.cons_blank hg⟩
      · refine ⟨[], g :: (front ++ rest), front :: words, rfl, by simp, ?_⟩
        show Spaced _ ([g] ++ (front ++ rest))
        exact .word (isBlank_cons.mpr ⟨hg, rfl⟩) (List.cons_ne_nil _ _) ⟨hne, hfront⟩ hrest
    · rw [Bool.not_eq_true] at hg
      exact ⟨g :: front, rest, words, rfl, List.forall_mem_cons.mpr ⟨hg, hfront⟩, hrest⟩

theorem fields_eq_cons_iff : fields x = word :: words ↔ ∃ gap rest, x = gap ++ (word ++ rest) ∧
    gap.isBlank = true ∧ word.IsWord ∧ Spaced words rest := by
  constructor
  · intro h
    obtain ⟨front, rest, others, rfl, hfront, hrest⟩ := exists_spaced x
    rw [hrest.fields_append] at h
    by_cases hne : front = []
    · subst hne
      obtain rfl : others = word :: words := h
      cases hrest with
      | word hgap _ hword hrest => exact ⟨_, _, rfl, hgap, hword, hrest⟩
    · rw [fields_word ⟨hne, hfront⟩] at h
      obtain ⟨rfl, rfl⟩ := List.cons.inj h
      exact ⟨[], rest, rfl, rfl, ⟨hne, hfront⟩, hrest⟩
  · rintro ⟨gap, rest, rfl, hgap, hword, hrest⟩
    rw [fields_append_of_isBlank_left hgap, hrest.fields_append, fields_word hword]
    rfl

theorem fields_eq_nil_iff : fields x = [] ↔ isBlank x = true := by
  refine ⟨fun h => ?_, fields_eq_nil⟩
  obtain ⟨front, rest, words, rfl, hfront, hrest⟩ := exists_spaced x
  rw [hrest.fields_append] at h
  obtain ⟨hleft, rfl⟩ := List.append_eq_nil_iff.mp h
  cases hrest with
  | done hgap =>
    by_cases hne : front = []
    · subst hne
      exact hgap
    · rw [fields_word ⟨hne, hfront⟩] at hleft
      exact absurd hleft (List.cons_ne_nil _ _)

theorem trimLeft_eq_cons_iff : trimLeft x = g :: y ↔
    ∃ before, x = before ++ g :: y ∧ isBlank before = true ∧ g.isBlank = false := by
  constructor
  · intro h
    refine ⟨x.takeWhile Glyph.isBlank, ?_, List.all_takeWhile, ?_⟩
    · rw [← h, trimLeft, List.takeWhile_append_dropWhile]
    · apply isBlank_of_head?_trimLeft (x := x)
      rw [h]
      rfl
  · rintro ⟨before, rfl, hbefore, hg⟩
    rw [trimLeft, List.dropWhile_append_of_pos (List.all_eq_true.mp hbefore),
      List.dropWhile_cons_of_neg (by simp [hg])]

/-- Blanks at the end count neither for the first glyph nor for the fields after it. -/
theorem exists_trimRight_cons (hg : g.isBlank = false) (x : Text) :
    ∃ y, trimRight (g :: x) = g :: y ∧ fields y = fields x := by
  induction x using List.reverseRecOn with
  | nil => exact ⟨[], by simp [trimRight, hg], rfl⟩
  | append_singleton x a ih =>
    obtain ⟨y, hy, hfields⟩ := ih
    by_cases ha : a.isBlank = true
    · refine ⟨y, ?_, ?_⟩
      · rw [← hy, ← List.cons_append]
        exact List.rdropWhile_concat_pos Glyph.isBlank (g :: x) a ha
      · rw [hfields, fields_append_of_isBlank_right (isBlank_cons.mpr ⟨ha, rfl⟩)]
    · refine ⟨x ++ [a], ?_, rfl⟩
      rw [← List.cons_append]
      exact List.rdropWhile_concat_neg Glyph.isBlank (g :: x) a ha

theorem exists_trim_eq_cons (h : trimLeft x = g :: y) :
    ∃ z, trim x = g :: z ∧ fields z = fields y := by
  obtain ⟨_, _, _, hg⟩ := trimLeft_eq_cons_iff.mp h
  rw [trim, h]
  exact exists_trimRight_cons hg y

end Text

namespace Command

open Text (space)

variable {catalogue : Catalogue} {x name : Text} {args : List Text}

/-- Blanks, a colon, blanks, the name, the arguments spaced, and blanks. -/
def Spelled (name : Text) (args : List Text) (x : Text) : Prop :=
  ∃ before gap rest, x = before ++ colon :: (gap ++ (name ++ rest)) ∧ Text.isBlank before = true ∧
    Text.isBlank gap = true ∧ name.IsWord ∧ Text.Spaced args rest

theorem colon_not_isBlank : colon.isBlank = false := by decide

theorem spelled_iff : Spelled name args x ↔
    ∃ rest, Text.trimLeft x = colon :: rest ∧ Text.fields rest = name :: args := by
  constructor
  · rintro ⟨before, gap, rest, rfl, hbefore, hgap, hname, hrest⟩
    exact ⟨_, Text.trimLeft_eq_cons_iff.mpr ⟨before, rfl, hbefore, colon_not_isBlank⟩,
      Text.fields_eq_cons_iff.mpr ⟨gap, rest, rfl, hgap, hname, hrest⟩⟩
  · rintro ⟨rest, htrim, hfields⟩
    obtain ⟨before, rfl, hbefore, _⟩ := Text.trimLeft_eq_cons_iff.mp htrim
    obtain ⟨gap, rest, rfl, hgap, hname, hrest⟩ := Text.fields_eq_cons_iff.mp hfields
    exact ⟨before, gap, rest, rfl, hbefore, hgap, hname, hrest⟩

theorem Spelled.unique {other : Text} {others : List Text} (h : Spelled name args x)
    (h' : Spelled other others x) : name = other ∧ args = others := by
  obtain ⟨rest, htrim, hfields⟩ := spelled_iff.mp h
  obtain ⟨rest', htrim', hfields'⟩ := spelled_iff.mp h'
  rw [htrim] at htrim'
  obtain ⟨-, rfl⟩ := List.cons.inj htrim'
  rw [hfields] at hfields'
  exact List.cons.inj hfields'

/-- The texts that are refused for a reason. -/
def Deserves (catalogue : Catalogue) (x : Text) : LineError → Prop
  | .empty => x.isBlank = true
  | .noColon => ∃ before g rest, x = before ++ g :: rest ∧ Text.isBlank before = true ∧
      g.isBlank = false ∧ g ≠ colon
  | .noName => ∃ before gap, x = before ++ colon :: gap ∧ Text.isBlank before = true ∧
      Text.isBlank gap = true
  | .unknown token => token ∉ names catalogue ∧ ∃ args, Spelled token args x

theorem spelled_or_deserves (catalogue : Catalogue) (x : Text) :
    (∃ name args, name ∈ names catalogue ∧ Spelled name args x) ∨ ∃ e, Deserves catalogue x e := by
  cases htrim : Text.trimLeft x with
  | nil => exact .inr ⟨.empty, Text.trimLeft_eq_nil_iff.mp htrim⟩
  | cons g rest =>
    obtain ⟨before, hx, hbefore, hg⟩ := Text.trimLeft_eq_cons_iff.mp htrim
    by_cases hcolon : g = colon
    · subst hcolon
      cases hfields : Text.fields rest with
      | nil => exact .inr ⟨.noName, before, rest, hx, hbefore, Text.fields_eq_nil_iff.mp hfields⟩
      | cons name args =>
        have hspelled : Spelled name args x := spelled_iff.mpr ⟨rest, htrim, hfields⟩
        by_cases hname : name ∈ names catalogue
        · exact .inl ⟨name, args, hname, hspelled⟩
        · exact .inr ⟨.unknown name, hname, args, hspelled⟩
    · exact .inr ⟨.noColon, before, g, rest, hx, hbefore, hg, hcolon⟩

theorem parseLine_of_spelled (h : Spelled name args x) : parseLine catalogue x =
    if name ∈ names catalogue then .ok ⟨name, args, x⟩ else .error ⟨.unknown name, x⟩ := by
  obtain ⟨rest, htrim, hrest⟩ := spelled_iff.mp h
  obtain ⟨y, hy, hfields⟩ := Text.exists_trim_eq_cons htrim
  rw [hrest] at hfields
  simp only [parseLine, hy, hfields, if_true]

theorem parseLine_of_deserves {e : LineError} (h : Deserves catalogue x e) :
    parseLine catalogue x = .error ⟨e, x⟩ := by
  cases e with
  | empty => rw [parseLine, Text.trim_of_isBlank h]
  | noColon =>
    obtain ⟨before, g, rest, hx, hbefore, hg, hne⟩ := h
    have htrim := Text.trimLeft_eq_cons_iff.mpr ⟨before, hx, hbefore, hg⟩
    obtain ⟨y, hy, -⟩ := Text.exists_trim_eq_cons htrim
    rw [parseLine, hy]
    exact if_neg hne
  | noName =>
    obtain ⟨before, gap, hx, hbefore, hgap⟩ := h
    have htrim := Text.trimLeft_eq_cons_iff.mpr ⟨before, hx, hbefore, colon_not_isBlank⟩
    obtain ⟨y, hy, hfields⟩ := Text.exists_trim_eq_cons htrim
    rw [Text.fields_eq_nil hgap] at hfields
    simp only [parseLine, hy, hfields, if_true]
  | unknown token =>
    obtain ⟨hname, args, hx⟩ := h
    rw [parseLine_of_spelled hx, if_neg hname]

theorem parseLine_eq_ok_iff {line : Line} : parseLine catalogue x = .ok line ↔
    line.raw = x ∧ line.name ∈ names catalogue ∧ Spelled line.name line.args x := by
  constructor
  · intro h
    rcases spelled_or_deserves catalogue x with ⟨name, args, hname, hx⟩ | ⟨e, he⟩
    · rw [parseLine_of_spelled hx, if_pos hname] at h
      obtain rfl := Except.ok.inj h
      exact ⟨rfl, hname, hx⟩
    · simp [parseLine_of_deserves he] at h
  · rintro ⟨rfl, hname, hx⟩
    rw [parseLine_of_spelled hx, if_pos hname]

theorem parseLine_eq_error_iff {misread : Misread} : parseLine catalogue x = .error misread ↔
    misread.raw = x ∧ Deserves catalogue x misread.error := by
  constructor
  · intro h
    rcases spelled_or_deserves catalogue x with ⟨name, args, hname, hx⟩ | ⟨e, he⟩
    · simp [parseLine_of_spelled hx, hname] at h
    · rw [parseLine_of_deserves he] at h
      obtain rfl := Except.error.inj h
      exact ⟨rfl, he⟩
  · rintro ⟨rfl, he⟩
    exact parseLine_of_deserves he

theorem LineError.message_injective {e f : LineError} (h : e.message = f.message) : e = f := by
  have hhead := congrArg List.head? h
  cases e <;> cases f <;> first
    | rfl
    | exact congrArg LineError.unknown (List.append_cancel_left h)
    | exact absurd hhead (by simp [message, Text.ofString, Text.ofChars])

def Refused (catalogue : Catalogue) (x message : Text) : Prop :=
  ∃ misread, parseLine catalogue x = .error misread ∧ misread.error.message = message

theorem refused_iff {e : LineError} :
    Refused catalogue x e.message ↔ Deserves catalogue x e := by
  constructor
  · rintro ⟨misread, h, hmessage⟩
    obtain rfl := LineError.message_injective hmessage
    exact (parseLine_eq_error_iff.mp h).2
  · exact fun he => ⟨⟨e, x⟩, parseLine_of_deserves he, rfl⟩

def Line.rendered (line : Line) : Text := colon :: (line.name ++ space :: Text.words line.args)

theorem spaced_words (h : ∀ arg ∈ args, Text.IsWord arg) :
    Text.Spaced args (space :: Text.words args) := by
  induction args with
  | nil => exact .done rfl
  | cons arg args ih =>
    obtain ⟨harg, hargs⟩ := List.forall_mem_cons.mp h
    have hrest : Text.words (arg :: args) = arg ++ (if args = [] then [] else
        space :: Text.words args) := by
      cases args <;> simp [Text.words, Text.joinWith]
    rw [hrest]
    show Text.Spaced _ ([space] ++ (arg ++ _))
    apply Text.Spaced.word rfl (List.cons_ne_nil _ _) harg
    split
    · next hnil =>
      subst hnil
      exact .done rfl
    · exact ih hargs

theorem Spelled.rendered {line : Line} (h : Spelled line.name line.args x) :
    Spelled line.name line.args line.rendered := by
  obtain ⟨_, _, _, _, _, _, hname, hrest⟩ := h
  exact ⟨[], [], _, rfl, rfl, rfl, hname, spaced_words hrest.isWord_of_mem⟩

/-- What reading a text comes to: a command if the text spells one of the catalogue, and otherwise
the refusal that its kind deserves. -/
structure Understood (catalogue : Catalogue) (x : Text) : Prop where
  accepted : ∀ line, parseLine catalogue x = .ok line ↔
    line.raw = x ∧ line.name ∈ names catalogue ∧ Spelled line.name line.args x
  unique : ∀ name args other others, Spelled name args x → Spelled other others x →
    name = other ∧ args = others
  refused_raw : ∀ misread, parseLine catalogue x = .error misread → misread.raw = x
  empty : Refused catalogue x "Empty command" ↔ x.isBlank = true
  colonless : Refused catalogue x "Commands must start with ':'" ↔
    ∃ before g rest, x = before ++ g :: rest ∧ Text.isBlank before = true ∧ g.isBlank = false ∧
      g ≠ colon
  nameless : Refused catalogue x "Missing command name" ↔
    ∃ before gap, x = before ++ colon :: gap ∧ Text.isBlank before = true ∧
      Text.isBlank gap = true
  unknown : ∀ token, Refused catalogue x (Text.ofString "Unknown command: " ++ token) ↔
    token ∉ names catalogue ∧ ∃ args, Spelled token args x
  rendered : ∀ line, parseLine catalogue x = .ok line →
    parseLine catalogue line.rendered = .ok { line with raw := line.rendered }

theorem parseLine_understood (catalogue : Catalogue) (x : Text) : Understood catalogue x where
  accepted := fun _ => parseLine_eq_ok_iff
  unique := fun _ _ _ _ h h' => h.unique h'
  refused_raw := fun _ h => (parseLine_eq_error_iff.mp h).1
  empty := refused_iff (e := .empty)
  colonless := refused_iff (e := .noColon)
  nameless := refused_iff (e := .noName)
  unknown := fun token => refused_iff (e := .unknown token)
  rendered := by
    intro line h
    obtain ⟨_, hname, hx⟩ := parseLine_eq_ok_iff.mp h
    exact parseLine_eq_ok_iff.mpr ⟨rfl, hname, hx.rendered⟩

end Command

end Paddock
