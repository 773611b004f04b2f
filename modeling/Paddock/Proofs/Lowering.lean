import Paddock.Text.Lowercase

/-!
# Lower case is final

Lower-casing leaves what is in lower case as it is. No code point that a span shifts to is a member
of a span itself, which is told from the ends of the two and from the parity of those that go by
twos.
-/

namespace Paddock

set_option autoImplicit false

namespace CaseSpan

/-- The code points that the members of a span are shifted to. -/
def lowered (s : CaseSpan) : CaseSpan :=
  ⟨(s.first + s.shift).toNat, (s.last + s.shift).toNat, s.step, 0⟩

def misses (s t : CaseSpan) : Bool :=
  s.last < t.first || t.last < s.first ||
    ((s.first = s.last || s.step = 2) && t.step = 2 && (s.first + t.first) % 2 = 1)

theorem shifted_of_mem : ∀ s ∈ all, 97 ≤ s.first + s.shift := by decide +kernel

theorem lowered_valid : ∀ s ∈ all, s.lowered.last < 0xD800 ∨
    0xDFFF < s.lowered.first ∧ s.lowered.last < 0x110000 := by decide +kernel

theorem lowered_misses_dotted : ∀ s ∈ all, s.lowered.misses ⟨0x130, 0x130, 1, 0⟩ := by
  decide +kernel

theorem lowered_misses : ∀ s ∈ all, ∀ t ∈ all, s.lowered.misses t := by decide +kernel

variable {s t : CaseSpan} {n : Nat}

theorem contains_iff :
    s.contains n = true ↔ s.first ≤ n ∧ n ≤ s.last ∧ (n - s.first) % s.step = 0 := by
  simp [contains, and_assoc]

theorem not_contains_of_misses (h : s.misses t) (hn : s.contains n) : t.contains n = false := by
  rw [Bool.eq_false_iff]
  intro ht
  rw [contains_iff] at hn ht
  simp only [misses, Bool.or_eq_true, Bool.and_eq_true, decide_eq_true_eq] at h
  obtain ⟨hfirst, hlast, hstep⟩ := hn
  obtain ⟨hfirst', hlast', hstep'⟩ := ht
  rcases h with (h | h) | ⟨⟨hs, htwo⟩, hparity⟩
  · omega
  · omega
  · rw [htwo] at hstep'
    rcases hs with hs | hs
    · omega
    · rw [hs] at hstep
      omega

theorem contains_lowered (hs : s ∈ all) (h : s.contains n) :
    s.lowered.contains (n + s.shift).toNat := by
  have hshifted := shifted_of_mem s hs
  rw [contains_iff] at h ⊢
  obtain ⟨hfirst, hlast, hstep⟩ := h
  refine ⟨?_, ?_, ?_⟩
  · show (s.first + s.shift).toNat ≤ (n + s.shift).toNat
    omega
  · show (n + s.shift).toNat ≤ (s.last + s.shift).toNat
    omega
  · show ((n + s.shift).toNat - (s.first + s.shift).toNat) % s.step = 0
    have hsame : (n + s.shift).toNat - (s.first + s.shift).toNat = n - s.first := by omega
    rw [hsame, hstep]

end CaseSpan

namespace Glyph

variable {n : Nat} {c : Char} {g h : Glyph}

theorem lowerCode_cases (n : Nat) :
    (∃ s ∈ CaseSpan.all, s.contains n ∧ lowerCode n = (n + s.shift).toNat) ∨
      lowerCode n = n ∧ ∀ s ∈ CaseSpan.all, s.contains n = false := by
  unfold lowerCode
  split
  · next s hs =>
    have hcontains := List.find?_some hs
    exact .inl ⟨s, List.mem_of_find?_eq_some hs, hcontains, rfl⟩
  · next hnone =>
    have hall := List.find?_eq_none.mp hnone
    exact .inr ⟨rfl, fun s hs => by simpa using hall s hs⟩

theorem lowerCode_of_not_contains (h : ∀ s ∈ CaseSpan.all, s.contains n = false) :
    lowerCode n = n := by
  rcases lowerCode_cases n with ⟨s, hs, hn, -⟩ | ⟨heq, -⟩
  · exact absurd hn (by simp [h s hs])
  · exact heq

theorem lowerCode_lowerCode (n : Nat) : lowerCode (lowerCode n) = lowerCode n := by
  rcases lowerCode_cases n with ⟨s, hs, hn, heq⟩ | ⟨heq, -⟩
  · apply lowerCode_of_not_contains
    intro t ht
    rw [heq]
    exact CaseSpan.not_contains_of_misses (CaseSpan.lowered_misses s hs t ht)
      (CaseSpan.contains_lowered hs hn)
  · rw [heq, heq]

theorem isValidChar_lowerCode (h : n.isValidChar) : (lowerCode n).isValidChar := by
  rcases lowerCode_cases n with ⟨s, hs, hn, heq⟩ | ⟨heq, -⟩
  · obtain ⟨hfirst, hlast, -⟩ := CaseSpan.contains_iff.mp (CaseSpan.contains_lowered hs hn)
    rw [heq]
    rcases CaseSpan.lowered_valid s hs with hv | ⟨hv, hv'⟩
    · exact .inl (by omega)
    · exact .inr ⟨by omega, by omega⟩
  · rwa [heq]

theorem lowerCode_ne_dotted (h : n ≠ 0x130) : lowerCode n ≠ 0x130 := by
  rcases lowerCode_cases n with ⟨s, hs, hn, heq⟩ | ⟨heq, -⟩
  · intro hdotted
    have hmiss := CaseSpan.not_contains_of_misses (CaseSpan.lowered_misses_dotted s hs)
      (CaseSpan.contains_lowered hs hn)
    rw [← heq, hdotted] at hmiss
    exact absurd hmiss (by decide)
  · rwa [heq]

theorem lowerCode_ne_of_lt {m : Nat} (hm : m < 97) (h : n ≠ m) : lowerCode n ≠ m := by
  rcases lowerCode_cases n with ⟨s, hs, hn, heq⟩ | ⟨heq, -⟩
  · have hshifted := CaseSpan.shifted_of_mem s hs
    obtain ⟨hfirst, -, -⟩ := CaseSpan.contains_iff.mp hn
    omega
  · rwa [heq]

/-- A glyph that lower-casing leaves as it is, whatever stands around it. -/
structure IsSmall (g : Glyph) : Prop where
  ne_sigma : g ≠ .char 'Σ'
  lower_eq : g.lower = [g]

theorem lower_char (h : c ≠ '\u0130') : (char c).lower = [char (Char.ofNat (lowerCode c.toNat))] :=
  if_neg h

theorem toNat_ofNat_lowerCode (c : Char) :
    (Char.ofNat (lowerCode c.toNat)).toNat = lowerCode c.toNat := by
  have hvalid : (lowerCode c.toNat).isValidChar := isValidChar_lowerCode c.valid
  rw [Char.ofNat, dif_pos hvalid]
  rfl

theorem toNat_ne {d : Char} (h : c ≠ d) : c.toNat ≠ d.toNat :=
  fun heq => h (Char.ext (UInt32.toNat_inj.mp heq))

theorem lowerCode_ne_dotted_of_char (h : c ≠ '\u0130') :
    Char.ofNat (lowerCode c.toNat) ≠ '\u0130' := by
  intro hdotted
  have hcode := toNat_ofNat_lowerCode c
  rw [hdotted] at hcode
  exact lowerCode_ne_dotted (toNat_ne h) hcode.symm

theorem isSmall_of_lower (h : c ≠ '\u0130') : IsSmall (.char (Char.ofNat (lowerCode c.toNat))) where
  ne_sigma hsigma := by
    -- a capital sigma would be shifted on
    have hcode := lowerCode_lowerCode c.toNat
    rw [← toNat_ofNat_lowerCode, Glyph.char.inj hsigma] at hcode
    exact absurd hcode (by decide)
  lower_eq := by
    rw [lower_char (lowerCode_ne_dotted_of_char h), toNat_ofNat_lowerCode, lowerCode_lowerCode]

theorem IsSmall.raw (low : Fin 128) : IsSmall (.raw low) := ⟨nofun, rfl⟩

theorem isSmall_of_mem_lower (hmem : h ∈ g.lower) : h.IsSmall := by
  cases g with
  | raw low =>
    obtain rfl := List.mem_singleton.mp hmem
    exact .raw low
  | char c =>
    by_cases hdotted : c = '\u0130'
    · subst hdotted
      have hcases : h = .char 'i' ∨ h = .char '\u0307' := by simpa [lower] using hmem
      rcases hcases with rfl | rfl
      · exact ⟨by decide, by decide⟩
      · exact ⟨by decide, by decide⟩
    · rw [lower_char hdotted] at hmem
      obtain rfl := List.mem_singleton.mp hmem
      exact isSmall_of_lower hdotted

/-- No glyph before the ASCII lowercase letters comes from another. -/
theorem eq_of_mem_lower (hmem : .char c ∈ g.lower) (hc : c.toNat < 97) : g = .char c := by
  cases g with
  | raw low => exact nomatch List.mem_singleton.mp hmem
  | char d =>
    by_cases hdotted : d = '\u0130'
    · subst hdotted
      have hcases : c = 'i' ∨ c = '\u0307' := by simpa [lower] using hmem
      rcases hcases with rfl | rfl
      · exact absurd hc (by decide)
      · exact absurd hc (by decide)
    · rw [lower_char hdotted] at hmem
      have hlower := Glyph.char.inj (List.mem_singleton.mp hmem)
      by_cases hsame : d = c
      · rw [hsame]
      · refine absurd ?_ (lowerCode_ne_of_lt hc (toNat_ne hsame))
        rw [← toNat_ofNat_lowerCode, ← hlower]

end Glyph

namespace Text

open Glyph

variable {x : Text} {g : Glyph} {afterCased : Bool}

theorem lowerFrom_eq_self (h : ∀ g ∈ x, g.IsSmall) (afterCased : Bool) :
    lowerFrom afterCased x = x := by
  induction x generalizing afterCased with
  | nil => rfl
  | cons g rest ih =>
    obtain ⟨hg, hrest⟩ := List.forall_mem_cons.mp h
    rw [lowerFrom, if_neg hg.ne_sigma, hg.lower_eq, ih hrest]
    rfl

/-- Without a capital sigma the glyphs are lowered one by one. -/
theorem lowerFrom_eq_flatMap (h : .char 'Σ' ∉ x) (afterCased : Bool) :
    lowerFrom afterCased x = x.flatMap Glyph.lower := by
  induction x generalizing afterCased with
  | nil => rfl
  | cons g rest ih =>
    obtain ⟨hg, hrest⟩ := List.ne_and_not_mem_of_not_mem_cons h
    rw [lowerFrom, if_neg (Ne.symm hg), ih hrest, List.flatMap_cons]

theorem lower_eq_self (h : ∀ g ∈ x, g.IsSmall) : lower x = x := lowerFrom_eq_self h false

theorem flatMap_lower_eq_self (h : ∀ g ∈ x, g.IsSmall) : x.flatMap Glyph.lower = x := by
  have hsigma : .char 'Σ' ∉ x := fun hmem => (h _ hmem).ne_sigma rfl
  rw [← lowerFrom_eq_flatMap hsigma false, lowerFrom_eq_self h]

/-- A lowered glyph is that of one before it, or a small sigma of a capital one. -/
theorem mem_lowerFrom (h : g ∈ lowerFrom afterCased x) :
    (∃ source ∈ x, g ∈ source.lower) ∨ g = .char 'σ' ∨ g = .char 'ς' := by
  induction x generalizing afterCased with
  | nil => exact absurd h List.not_mem_nil
  | cons first rest ih =>
    rw [lowerFrom] at h
    rcases List.mem_append.mp h with h | h
    · split at h
      · obtain rfl := List.mem_singleton.mp h
        right
        split
        · exact .inr rfl
        · exact .inl rfl
      · exact .inl ⟨first, List.mem_cons_self, h⟩
    · rcases ih h with ⟨source, hsource, hg⟩ | h
      · exact .inl ⟨source, List.mem_cons_of_mem _ hsource, hg⟩
      · exact .inr h

theorem isSmall_of_mem_lower (h : g ∈ lower x) : g.IsSmall := by
  rcases mem_lowerFrom h with ⟨source, -, hg⟩ | rfl | rfl
  · exact Glyph.isSmall_of_mem_lower hg
  · exact ⟨by decide, by decide⟩
  · exact ⟨by decide, by decide⟩

theorem lower_lower (x : Text) : lower (lower x) = lower x :=
  lower_eq_self fun _ => isSmall_of_mem_lower

theorem mem_of_mem_lower {c : Char} (h : .char c ∈ lower x) (hc : c.toNat < 97) : .char c ∈ x := by
  rcases mem_lowerFrom h with ⟨source, hsource, hg⟩ | h | h
  · rwa [eq_of_mem_lower hg hc] at hsource
  · rw [Glyph.char.inj h] at hc
    exact absurd hc (by decide)
  · rw [Glyph.char.inj h] at hc
    exact absurd hc (by decide)

end Text

end Paddock
