import Paddock.Proofs.Casing
import Paddock.Proofs.Chords

/-!
# Chords part by part

What stands between the plus signs of a text is lowered and trimmed each on its own. A text spells a
chord if exactly one of these parts is no modifier, in whatever order they stand: modifiers may
change places with each other and with the key, be named twice, and be named by any of their names.
-/

namespace Paddock

set_option autoImplicit false

namespace Modifier

variable {m : Modifier} {part : Text}

theorem aliases_apart : ∀ m ∈ all, ∀ part ∈ m.aliases, ofAlias? part = some m := by decide

theorem ofAlias?_eq_some_iff : ofAlias? part = some m ↔ part ∈ m.aliases := by
  constructor
  · intro h
    simpa using List.find?_some h
  · exact aliases_apart m (mem_all m) part

theorem exists_ofAlias?_iff {ps : List Text} :
    (∃ part ∈ ps, ofAlias? part = some m) ↔ ∃ part ∈ ps, part ∈ m.aliases := by
  simp only [ofAlias?_eq_some_iff]

end Modifier

namespace KeyChord

variable {x part other : Text} {ps qs : List Text} {chord : KeyChord} {m : Modifier}

def plain (part : Text) : Text := Text.trim (Text.lower part)

theorem isNeutral_plus : plus.IsNeutral :=
  ⟨isSmall_plus, by decide, by decide⟩

theorem parts_eq (x : Text) :
    parts x = ((Text.splitAt plus x).map plain).filter (· ≠ []) := by
  have hsplit : Text.splitAt plus (Text.lower x) = (Text.splitAt plus x).map Text.lower :=
    Text.splitAt_lower isNeutral_plus (by decide) x
  rw [parts, Text.lower_trim, Text.map_trim_splitAt_trim (by decide), hsplit, List.map_map]
  rfl

theorem parts_joinWith_of_free (h : ∀ part ∈ ps, plus ∉ part) :
    parts (Text.joinWith [plus] ps) = (ps.map plain).filter (· ≠ []) := by
  rw [parts_eq]
  cases ps with
  | nil => rfl
  | cons part rest => rw [Text.splitAt_joinWith (List.cons_ne_nil part rest) h]

/-- The part that is no modifier, where the others all are. -/
def IsSoleKey (ps : List Text) (part : Text) : Prop :=
  ∃ before after, ps = before ++ part :: after ∧ (∀ m : Modifier, part ∉ m.aliases) ∧
    ∀ other ∈ before ++ after, ∃ m : Modifier, other ∈ m.aliases

theorem not_isNone_ofAlias?_iff :
    ¬ (Modifier.ofAlias? part).isNone ↔ ∃ m : Modifier, part ∈ m.aliases := by
  simp [Option.isNone_iff_eq_none, Modifier.ofAlias?_eq_none_iff]

theorem keysOf_eq_singleton_iff : keysOf ps = [part] ↔ IsSoleKey ps part := by
  rw [keysOf, List.filter_eq_cons_iff]
  constructor
  · rintro ⟨before, after, hps, hbefore, hpart, hafter⟩
    refine ⟨before, after, hps, ?_, ?_⟩
    · exact Modifier.ofAlias?_eq_none_iff.mp (Option.isNone_iff_eq_none.mp hpart)
    · intro other hother
      apply not_isNone_ofAlias?_iff.mp
      rcases List.mem_append.mp hother with hmem | hmem
      · exact hbefore other hmem
      · exact List.filter_eq_nil_iff.mp hafter other hmem
  · rintro ⟨before, after, hps, hpart, hothers⟩
    refine ⟨before, after, hps, ?_, ?_, ?_⟩
    · intro other hmem
      exact not_isNone_ofAlias?_iff.mpr (hothers other (List.mem_append_left after hmem))
    · exact Option.isNone_iff_eq_none.mpr (Modifier.ofAlias?_eq_none_iff.mpr hpart)
    · apply List.filter_eq_nil_iff.mpr
      intro other hmem
      exact not_isNone_ofAlias?_iff.mpr (hothers other (List.mem_append_right before hmem))

theorem ofParts?_eq_some_iff : ofParts? ps = some chord ↔
    ∃ part, IsSoleKey ps part ∧ chord = ⟨keyName part, modifiersOf ps⟩ := by
  unfold ofParts?
  constructor
  · intro h
    split at h
    · next part hkeys => exact ⟨part, keysOf_eq_singleton_iff.mp hkeys, (Option.some.inj h).symm⟩
    · exact nomatch h
  · rintro ⟨part, hpart, rfl⟩
    rw [keysOf_eq_singleton_iff.mpr hpart]

/-- What is known of a chord after some of its parts. -/
structure Held where
  key : Option Text
  modifiers : List Modifier

namespace Held

def start : Held := ⟨none, []⟩

def take (held : Held) (part : Text) : Option Held :=
  match Modifier.ofAlias? part with
  | some m => some { held with modifiers := m :: held.modifiers }
  | none =>
    match held.key with
    | some _ => none
    | none => some { held with key := some (keyName part) }

def chord? (held : Held) : Option KeyChord :=
  held.key.map fun key => ⟨key, Modifier.all.filter fun m => held.modifiers.contains m⟩

/-- What a list of parts adds to what is known already: all modifiers, and its key if there is none
yet. -/
theorem foldlM_take (ps : List Text) (held : Held) : (ps.foldlM take held).bind chord? =
    match held.key.toList ++ (keysOf ps).map keyName with
    | [key] => some ⟨key, Modifier.all.filter fun m => held.modifiers.contains m ||
        ps.any fun part => Modifier.ofAlias? part == some m⟩
    | _ => none := by
  induction ps generalizing held with
  | nil =>
    obtain ⟨key, modifiers⟩ := held
    cases key with
    | none => rfl
    | some key => simp [chord?, keysOf]
  | cons part ps ih =>
    rw [List.foldlM_cons]
    cases hpart : Modifier.ofAlias? part with
    | some m =>
      have htake : held.take part = some { held with modifiers := m :: held.modifiers } := by
        simp [take, hpart]
      have hkeys : keysOf (part :: ps) = keysOf ps := by simp [keysOf, hpart]
      have hmodifiers : ∀ m', ((m :: held.modifiers).contains m' ||
          ps.any fun part => Modifier.ofAlias? part == some m') = (held.modifiers.contains m' ||
          (part :: ps).any fun part => Modifier.ofAlias? part == some m') := by
        intro m'
        rw [List.contains_cons, List.any_cons, hpart, Option.some_beq_some, BEq.comm, Bool.or_assoc,
          Bool.or_left_comm]
      rw [htake, hkeys]
      simp only [Option.bind_eq_bind, Option.bind_some, ih, hmodifiers]
    | none =>
      have hkeys : keysOf (part :: ps) = part :: keysOf ps := by simp [keysOf, hpart]
      have hany : ∀ m', ((part :: ps).any fun part => Modifier.ofAlias? part == some m') =
          ps.any fun part => Modifier.ofAlias? part == some m' := by
        intro m'
        rw [List.any_cons, hpart]
        rfl
      cases hkey : held.key with
      | some key =>
        have htake : held.take part = none := by simp [take, hpart, hkey]
        rw [htake, hkeys]
        rfl
      | none =>
        have htake : held.take part = some { held with key := some (keyName part) } := by
          simp [take, hpart, hkey]
        rw [htake, hkeys]
        simp only [Option.bind_eq_bind, Option.bind_some, ih, hany]
        rfl

end Held

theorem ofParts?_eq_foldlM (ps : List Text) :
    ofParts? ps = (ps.foldlM Held.take Held.start).bind Held.chord? := by
  rw [Held.foldlM_take, ofParts?]
  cases hkeys : keysOf ps with
  | nil => rfl
  | cons key rest =>
    cases rest with
    | nil => rfl
    | cons other rest => rfl

theorem ofParts?_congr (hkeys : (keysOf ps).Perm (keysOf qs))
    (hmodifiers : ∀ m : Modifier, (∃ part ∈ ps, part ∈ m.aliases) ↔ ∃ part ∈ qs, part ∈ m.aliases) :
    ofParts? ps = ofParts? qs := by
  have hsame : modifiersOf ps = modifiersOf qs := by
    apply modifiersOf_congr
    intro m
    rw [Modifier.exists_ofAlias?_iff, Modifier.exists_ofAlias?_iff]
    exact hmodifiers m
  have hsole : ∀ part, IsSoleKey ps part ↔ IsSoleKey qs part := by
    intro part
    rw [← keysOf_eq_singleton_iff, ← keysOf_eq_singleton_iff]
    constructor
    · intro h
      rw [h] at hkeys
      exact (List.singleton_perm.mp hkeys).symm
    · intro h
      rw [h] at hkeys
      exact List.perm_singleton.mp hkeys
  apply Option.ext
  intro chord
  simp only [ofParts?_eq_some_iff, hsole, hsame]

def Names (part : Text) (m : Modifier) : Prop := plain part ∈ m.aliases

/-- The parts of a chord written in another order, with a modifier repeated, or with a modifier by
another of its names; and all of these after one another. -/
inductive Reworded : List Text → List Text → Prop where
  | reordered {ps qs : List Text} (h : ps.Perm qs) : Reworded ps qs
  | repeated {ps : List Text} {part : Text} {m : Modifier} (h : Names part m) :
      Reworded (part :: ps) (part :: part :: ps)
  | renamed {ps : List Text} {part other : Text} {m : Modifier} (h : Names part m)
      (hother : Names other m) : Reworded (part :: ps) (other :: ps)
  | trans {ps qs rs : List Text} (h : Reworded ps qs) (h' : Reworded qs rs) : Reworded ps rs

theorem aliases_free : ∀ m ∈ Modifier.all, ∀ name ∈ m.aliases, plus ∉ name := by decide

theorem plus_mem_plain (h : plus ∈ part) : plus ∈ plain part := by
  obtain ⟨before, after, rfl⟩ := List.append_of_mem h
  rw [plain, Text.lower_append isNeutral_plus]
  exact Text.mem_trim (List.mem_append_right _ List.mem_cons_self) (by decide)

theorem Names.free (h : Names part m) : plus ∉ part :=
  fun hplus => aliases_free m (Modifier.mem_all m) _ h (plus_mem_plain hplus)

theorem Names.ofAlias?_eq (h : Names part m) : Modifier.ofAlias? (plain part) = some m :=
  Modifier.ofAlias?_eq_some_iff.mpr h

theorem Reworded.free (h : Reworded ps qs) (hfree : ∀ part ∈ ps, plus ∉ part) :
    ∀ part ∈ qs, plus ∉ part := by
  induction h with
  | reordered h => exact fun part hpart => hfree part (h.mem_iff.mpr hpart)
  | repeated h => exact List.forall_mem_cons.mpr ⟨h.free, hfree⟩
  | renamed h hother =>
    exact List.forall_mem_cons.mpr ⟨hother.free, (List.forall_mem_cons.mp hfree).2⟩
  | trans _ _ ih ih' => exact ih' (ih hfree)

def readings (ps : List Text) : List Text := (ps.map plain).filter (· ≠ [])

theorem aliases_ne_nil : ∀ m ∈ Modifier.all, ∀ name ∈ m.aliases, name ≠ [] := by decide

theorem Names.readings_cons (h : Names part m) (ps : List Text) :
    readings (part :: ps) = plain part :: readings ps := by
  have hne : plain part ≠ [] := aliases_ne_nil m (Modifier.mem_all m) _ h
  rw [readings, List.map_cons, List.filter_cons_of_pos (by simpa using hne)]
  rfl

theorem Names.keysOf_cons (h : Names part m) (ps : List Text) :
    keysOf (readings (part :: ps)) = keysOf (readings ps) := by
  rw [h.readings_cons, keysOf, List.filter_cons_of_neg (by simp [h.ofAlias?_eq])]
  rfl

theorem Names.mem_aliases_iff (h : Names part m) {m' : Modifier} :
    plain part ∈ m'.aliases ↔ m' = m := by
  rw [← Modifier.ofAlias?_eq_some_iff, h.ofAlias?_eq, Option.some_inj, eq_comm]

theorem Names.exists_cons_iff (h : Names part m) (ps : List Text) (m' : Modifier) :
    (∃ reading ∈ readings (part :: ps), reading ∈ m'.aliases) ↔
      m' = m ∨ ∃ reading ∈ readings ps, reading ∈ m'.aliases := by
  rw [h.readings_cons, List.exists_mem_cons_iff, h.mem_aliases_iff]

/-- Rewording changes neither the keys nor which modifiers are named. -/
theorem Reworded.ofParts?_eq (h : Reworded ps qs) :
    ofParts? (readings ps) = ofParts? (readings qs) := by
  induction h with
  | reordered h =>
    have hreadings : (readings _).Perm (readings _) := (h.map plain).filter _
    apply ofParts?_congr (hreadings.filter _)
    intro m
    simp only [hreadings.mem_iff]
  | repeated h =>
    apply ofParts?_congr
    · rw [h.keysOf_cons (_ :: _)]
    · intro m
      rw [h.exists_cons_iff (_ :: _), h.exists_cons_iff, or_self_left]
  | renamed h hother =>
    apply ofParts?_congr
    · rw [h.keysOf_cons, hother.keysOf_cons]
    · intro m
      rw [h.exists_cons_iff, hother.exists_cons_iff]
  | trans _ _ ih ih' => exact ih.trans ih'

theorem Reworded.ofText?_eq (h : Reworded ps qs) (hfree : ∀ part ∈ ps, plus ∉ part) :
    ofText? (Text.joinWith [plus] ps) = ofText? (Text.joinWith [plus] qs) := by
  rw [ofText?, ofText?, parts_joinWith_of_free hfree, parts_joinWith_of_free (h.free hfree)]
  exact h.ofParts?_eq

/-- How its parts decide whether a text spells a chord, and which. -/
structure Decided (x : Text) : Prop where
  spells_iff : (∃ chord, ofText? x = some chord) ↔ ∃ part, IsSoleKey (parts x) part
  key : ∀ chord part, ofText? x = some chord → IsSoleKey (parts x) part →
    chord.key = keyName part
  modifiers : ∀ chord, ofText? x = some chord → ∀ m : Modifier,
    m ∈ chord.modifiers ↔ ∃ part ∈ parts x, part ∈ m.aliases
  stepwise : ofText? x = ((parts x).foldlM Held.take Held.start).bind Held.chord?

theorem decided (x : Text) : Decided x where
  spells_iff := by
    constructor
    · rintro ⟨chord, h⟩
      obtain ⟨part, hpart, -⟩ := ofParts?_eq_some_iff.mp h
      exact ⟨part, hpart⟩
    · rintro ⟨part, hpart⟩
      exact ⟨_, ofParts?_eq_some_iff.mpr ⟨part, hpart, rfl⟩⟩
  key := by
    intro chord part h hpart
    obtain ⟨other, hother, rfl⟩ := ofParts?_eq_some_iff.mp h
    have hsame := (keysOf_eq_singleton_iff.mpr hother).symm.trans
      (keysOf_eq_singleton_iff.mpr hpart)
    rw [List.singleton_inj.mp hsame]
  modifiers := by
    intro chord h m
    obtain ⟨part, -, rfl⟩ := ofParts?_eq_some_iff.mp h
    rw [mem_modifiersOf, Modifier.exists_ofAlias?_iff]
  stepwise := ofParts?_eq_foldlM (parts x)

/-- Whether there is a chord, its key and its modifiers hang on the parts alone, and not on their
order or on how often and by which name a modifier is named. -/
theorem ofText?_decided : (∀ x, Decided x) ∧ ∀ ps qs, (∀ part ∈ ps, plus ∉ part) →
    Reworded ps qs →
      ofText? (Text.joinWith [plus] ps) = ofText? (Text.joinWith [plus] qs) :=
  ⟨decided, fun _ _ hfree h => h.ofText?_eq hfree⟩

theorem decided_controlEscape : Reworded ["Control", "Esc"] ["ctrl ", "Esc", "ctrl "] ∧
    ofText? (Text.joinWith [plus] ["Control", "Esc"]) = some ⟨"escape", [.control]⟩ ∧
    ofText? (Text.joinWith [plus] ["Control", "Esc"]) =
      ofText? (Text.joinWith [plus] ["ctrl ", "Esc", "ctrl "]) := by
  have hlong : Names "Control" .control := by
    show plain "Control" ∈ Modifier.control.aliases
    decide
  have hshort : Names "ctrl " .control := by
    show plain "ctrl " ∈ Modifier.control.aliases
    decide
  have hreworded : Reworded ["Control", "Esc"] ["ctrl ", "Esc", "ctrl "] :=
    (Reworded.renamed hlong hshort).trans
      ((Reworded.repeated hshort).trans (.reordered ((List.Perm.swap _ _ []).cons _)))
  exact ⟨hreworded, by decide, ofText?_decided.2 _ _ (by decide) hreworded⟩

end KeyChord

end Paddock
