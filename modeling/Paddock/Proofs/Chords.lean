import Paddock.KeyChord
import Paddock.Proofs.Lowering
import Paddock.Proofs.Pieces

/-!
# Chords and their descriptions

Reading the description of a chord gives the chord back, so that two texts spell the same chord
exactly if the descriptions are the same. The key of a chord is in its final form: trimmed, in lower
case, and neither a modifier nor the second name of a key.
-/

namespace Paddock

set_option autoImplicit false

theorem Modifier.ofAlias?_eq_none_iff {part : Text} :
    Modifier.ofAlias? part = none ↔ ∀ m : Modifier, part ∉ m.aliases := by
  simp [Modifier.ofAlias?, List.find?_eq_none, Modifier.mem_all]

namespace KeyChord

variable {x y key part : Text} {ps qs : List Text} {chord other : KeyChord} {m : Modifier}

/-- A text that reading a chord may leave between two plus signs. -/
structure IsPart (part : Text) : Prop where
  ne_nil : part ≠ []
  trimmed : Text.IsTrimmed part
  small : ∀ g ∈ part, g.IsSmall
  free : plus ∉ part

theorem isPart_of_mem_parts (h : part ∈ parts x) : IsPart part := by
  obtain ⟨hmem, hne⟩ := List.mem_filter.mp h
  obtain ⟨piece, hpiece, rfl⟩ := List.mem_map.mp hmem
  refine ⟨of_decide_eq_true hne, Text.isTrimmed_trim piece, ?_, ?_⟩
  · intro g hg
    exact Text.isSmall_of_mem_lower (Text.mem_of_mem_splitWhere hpiece (Text.mem_of_mem_trim hg))
  · intro hplus
    exact Text.not_mem_of_mem_splitAt hpiece (Text.mem_of_mem_trim hplus)

theorem isSmall_plus : plus.IsSmall := ⟨by decide, by decide⟩

theorem parts_joinWith (hne : ps ≠ []) (h : ∀ part ∈ ps, IsPart part) :
    parts (Text.joinWith [plus] ps) = ps := by
  have htrimmed : Text.IsTrimmed (Text.joinWith [plus] ps) :=
    Text.isTrimmed_joinWith (fun part hpart => ⟨(h part hpart).ne_nil, (h part hpart).trimmed⟩) _
  have hsmall : ∀ g ∈ Text.joinWith [plus] ps, g.IsSmall := by
    intro g hg
    rcases Text.mem_of_mem_joinWith hg with hg | ⟨part, hpart, hg⟩
    · rw [List.mem_singleton.mp hg]
      exact isSmall_plus
    · exact (h part hpart).small g hg
  have htrim : ps.map Text.trim = ps := by
    conv_rhs => rw [← List.map_id' ps]
    exact List.map_congr_left fun part hpart => Text.trim_eq_self (h part hpart).trimmed
  rw [parts, Text.trim_eq_self htrimmed, Text.lower_eq_self hsmall,
    Text.splitAt_joinWith hne fun part hpart => (h part hpart).free, htrim, List.filter_eq_self]
  intro part hpart
  exact decide_eq_true (h part hpart).ne_nil

theorem isPart_of_forall (hne : part ≠ [])
    (h : ∀ g ∈ part, g.isBlank = false ∧ g ≠ plus ∧ g ≠ .char 'Σ' ∧ g.lower = [g]) :
    IsPart part where
  ne_nil := hne
  trimmed := Text.isTrimmed_of_forall fun g hg => (h g hg).1
  small g hg := ⟨(h g hg).2.2.1, (h g hg).2.2.2⟩
  free hplus := (h plus hplus).2.1 rfl

theorem isPart_name (m : Modifier) : IsPart m.name := by
  cases m <;> exact isPart_of_forall (by decide) (by decide)

theorem keyAliases_settled : ∀ pair ∈ keyAliases, pair.2 ≠ [] ∧
    (∀ g ∈ pair.2, g.isBlank = false ∧ g ≠ plus ∧ g ≠ .char 'Σ' ∧ g.lower = [g]) ∧
    Modifier.ofAlias? pair.2 = none ∧ keyAliases.lookup pair.2 = none := by decide

theorem keyName_cases (part : Text) : (∃ pair ∈ keyAliases, keyName part = pair.2) ∨
    keyName part = part ∧ keyAliases.lookup part = none := by
  unfold keyName
  cases h : keyAliases.lookup part with
  | none => exact .inr ⟨rfl, rfl⟩
  | some name =>
    obtain ⟨before, after, heq, -⟩ := List.lookup_eq_some_iff.mp h
    refine .inl ⟨(part, name), ?_, rfl⟩
    rw [heq]
    simp

structure IsSettled (key : Text) : Prop where
  part : IsPart key
  modifier : Modifier.ofAlias? key = none
  lookup : keyAliases.lookup key = none

theorem isSettled_keyName (h : IsPart part) (hmodifier : Modifier.ofAlias? part = none) :
    IsSettled (keyName part) := by
  rcases keyName_cases part with ⟨pair, hpair, hname⟩ | ⟨hname, hlookup⟩
  · obtain ⟨hne, hglyphs, hmodifier, hlookup⟩ := keyAliases_settled pair hpair
    rw [hname]
    exact ⟨isPart_of_forall hne hglyphs, hmodifier, hlookup⟩
  · rw [hname]
    exact ⟨h, hmodifier, hlookup⟩

theorem IsSettled.keyName_eq (h : IsSettled key) : keyName key = key := by
  rw [keyName, h.lookup]
  rfl

theorem modifiersOf_congr (h : ∀ m, (∃ part ∈ ps, Modifier.ofAlias? part = some m) ↔
    ∃ part ∈ qs, Modifier.ofAlias? part = some m) : modifiersOf ps = modifiersOf qs := by
  apply List.filter_congr
  intro m _
  rw [Bool.eq_iff_iff]
  simpa using h m

def described (modifiers : List Modifier) (key : Text) : List Text :=
  modifiers.map Modifier.name ++ [key]

theorem keysOf_described (modifiers : List Modifier) (h : IsSettled key) :
    keysOf (described modifiers key) = [key] := by
  have hnames : (modifiers.map Modifier.name).filter
      (fun part => (Modifier.ofAlias? part).isNone) = [] := by
    rw [List.filter_eq_nil_iff]
    intro part hpart
    obtain ⟨m, -, rfl⟩ := List.mem_map.mp hpart
    simp [Modifier.ofAlias?_name]
  rw [keysOf, described, List.filter_append, hnames, List.nil_append, List.filter_singleton,
    h.modifier]
  rfl

theorem modifiersOf_described (ps : List Text) (h : IsSettled key) :
    modifiersOf (described (modifiersOf ps) key) = modifiersOf ps := by
  apply modifiersOf_congr
  intro m
  rw [← @mem_modifiersOf ps m]
  constructor
  · rintro ⟨part, hpart, hm⟩
    rcases List.mem_append.mp hpart with hpart | hpart
    · obtain ⟨m', hm', rfl⟩ := List.mem_map.mp hpart
      rw [Modifier.ofAlias?_name] at hm
      exact Option.some.inj hm ▸ hm'
    · rw [List.mem_singleton.mp hpart, h.modifier] at hm
      exact nomatch hm
  · intro hm
    exact ⟨m.name, List.mem_append_left _ (List.mem_map_of_mem hm), Modifier.ofAlias?_name m⟩

theorem exists_of_ofText? (h : ofText? x = some chord) :
    ∃ key, IsSettled key ∧ chord = ⟨key, modifiersOf (parts x)⟩ := by
  unfold ofText? ofParts? at h
  split at h
  · next part hkeys =>
    have hmem : part ∈ keysOf (parts x) := by
      rw [hkeys]
      exact List.mem_singleton_self part
    obtain ⟨hpart, hmodifier⟩ := List.mem_filter.mp hmem
    exact ⟨keyName part, isSettled_keyName (isPart_of_mem_parts hpart)
      (Option.isNone_iff_eq_none.mp hmodifier), (Option.some.inj h).symm⟩
  · exact nomatch h

theorem ofText?_describe (h : ofText? x = some chord) : ofText? chord.describe = some chord := by
  obtain ⟨key, hkey, rfl⟩ := exists_of_ofText? h
  have hparts : ∀ part ∈ described (modifiersOf (parts x)) key, IsPart part := by
    intro part hpart
    rcases List.mem_append.mp hpart with hpart | hpart
    · obtain ⟨m, -, rfl⟩ := List.mem_map.mp hpart
      exact isPart_name m
    · rw [List.mem_singleton.mp hpart]
      exact hkey.part
  have hread : parts (describe ⟨key, modifiersOf (parts x)⟩) =
      described (modifiersOf (parts x)) key :=
    parts_joinWith (List.append_ne_nil_of_right_ne_nil _ (List.cons_ne_nil key [])) hparts
  rw [ofText?, ofParts?, hread, keysOf_described _ hkey]
  simp only [hkey.keyName_eq, modifiersOf_described _ hkey]

theorem describe_eq_iff (h : ofText? x = some chord) (hy : ofText? y = some other) :
    other.describe = chord.describe ↔ other = chord := by
  refine ⟨fun heq => ?_, congrArg describe⟩
  have hagain := ofText?_describe hy
  rw [heq, ofText?_describe h] at hagain
  exact (Option.some.inj hagain).symm

/-- What a chord is like that a text spells, and how its description tells it from others. -/
structure Canonical (chord : KeyChord) : Prop where
  again : ofText? chord.describe = some chord
  describe_iff : ∀ {y other}, ofText? y = some other →
    (other.describe = chord.describe ↔ other = chord)
  ne_nil : chord.key ≠ []
  trimmed : Text.trim chord.key = chord.key
  lower : Text.lower chord.key = chord.key
  free : plus ∉ chord.key
  not_modifier : ∀ m : Modifier, chord.key ∉ m.aliases
  not_alias : ∀ pair ∈ keyAliases, chord.key ≠ pair.1

theorem canonical_of_ofText? (h : ofText? x = some chord) : Canonical chord := by
  obtain ⟨key, hkey, hchord⟩ := exists_of_ofText? h
  have hsame : chord.key = key := congrArg KeyChord.key hchord
  rw [← hsame] at hkey
  exact {
    again := ofText?_describe h
    describe_iff := describe_eq_iff h
    ne_nil := hkey.part.ne_nil
    trimmed := Text.trim_eq_self hkey.part.trimmed
    lower := Text.lower_eq_self hkey.part.small
    free := hkey.part.free
    not_modifier := Modifier.ofAlias?_eq_none_iff.mp hkey.modifier
    not_alias := by
      intro pair hpair
      simpa using List.lookup_eq_none_iff.mp hkey.lookup pair hpair }

/-- Modifiers out of order and under other names, around a key under another name. -/
theorem canonical_looseChord :
    ofText? " Option + SUPER+ Esc +Control+ " = some ⟨"escape", [.control, .alternate, .command]⟩ ∧
      Canonical ⟨"escape", [.control, .alternate, .command]⟩ := by
  have hread : ofText? " Option + SUPER+ Esc +Control+ " =
      some ⟨"escape", [.control, .alternate, .command]⟩ := by decide +kernel
  exact ⟨hread, canonical_of_ofText? hread⟩

end KeyChord

end Paddock
