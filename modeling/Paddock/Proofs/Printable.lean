import Paddock.Proofs.Decoding
import Paddock.Proofs.Threshold

/-!
# Messages that can be shown

A text is shown without the raw bytes that it holds. Where it was read from bytes, it is shown as if
they had been read with U+FFFD in the place of every ill-formed part. So whatever message is given,
what is written of it holds characters only, and there is a fault only where there is one for every
other message as well.
-/

namespace Paddock

set_option autoImplicit false

namespace Text

variable {x y separator : Text} {xs : List Text} {g : Glyph}

theorem hasRaw_eq_false_iff : hasRaw x = false ↔ ∀ low, Glyph.raw low ∉ x := by
  rw [hasRaw, List.any_eq_false]
  constructor
  · intro h low hmem
    exact h _ hmem rfl
  · intro h g hg
    cases g with
    | char c => exact Bool.false_ne_true
    | raw low => exact absurd hg (h low)

theorem raw_not_mem_ofChars (low : Fin 128) (chars : List Char) :
    Glyph.raw low ∉ ofChars chars := by
  intro hmem
  obtain ⟨ch, -, hch⟩ := List.mem_map.mp hmem
  exact nomatch hch

theorem exists_ofChars (h : hasRaw x = false) : ∃ chars, x = ofChars chars := by
  induction x with
  | nil => exact ⟨[], rfl⟩
  | cons g x ih =>
    cases g with
    | raw low => exact nomatch h
    | char ch =>
      obtain ⟨chars, rfl⟩ := ih h
      exact ⟨ch :: chars, rfl⟩

theorem printable_eq_self (h : hasRaw x = false) : printable x = x := by
  obtain ⟨chars, rfl⟩ := exists_ofChars h
  rw [printable, Utf8.replacing_encode_ofChars]

theorem printable_lenient (bytes : List UInt8) :
    printable (Utf8.lenient bytes) = ofChars (Utf8.replacing bytes) := by
  rw [printable, Utf8.encode_lenient]

/-- What `x` is shown as. -/
structure Mended (x y : Text) : Prop where
  without_raw : hasRaw y = false
  unchanged : hasRaw x = false → y = x
  settled : printable y = y

theorem mended_printable (x : Text) : Mended x (printable x) where
  without_raw := hasRaw_printable x
  unchanged := printable_eq_self
  settled := printable_eq_self (hasRaw_printable x)

theorem mem_of_mem_tabPieces {line piece : Text} (hpiece : piece ∈ tabPieces line)
    (hg : g ∈ piece) : g ∈ line ∨ g = space := by
  unfold tabPieces at hpiece
  rcases List.mem_append.mp (List.mem_filter.mp hpiece).1 with hended | hrest
  · obtain ⟨part, hpart, rfl⟩ := List.mem_map.mp hended
    unfold padToStop at hg
    rcases List.mem_append.mp hg with hg | hg
    · rcases List.mem_append.mp hg with hg | hg
      · exact .inl (mem_of_mem_splitWhere (List.mem_of_mem_dropLast hpart) hg)
      · exact .inr (List.mem_singleton.mp hg)
    · exact .inr (List.eq_of_mem_replicate hg)
  · exact .inl (mem_of_mem_splitWhere (List.mem_of_mem_drop hrest) hg)

end Text

namespace Style

variable {paint : Text → Text} {low : Fin 128} {x : Text}

theorem raw_not_mem_opening (low : Fin 128) (codes : List ℕ) : Glyph.raw low ∉
    escape :: .char '[' :: Text.joinWith [.char ';'] (codes.map Text.ofNat) ++ [.char 'm'] := by
  have hcodes : Glyph.raw low ∉ Text.joinWith [.char ';'] (codes.map Text.ofNat) := by
    intro hmem
    rcases Text.mem_of_mem_joinWith hmem with hmem | ⟨piece, hpiece, hmem⟩
    · exact nomatch List.mem_singleton.mp hmem
    · obtain ⟨code, -, rfl⟩ := List.mem_map.mp hpiece
      exact Text.raw_not_mem_ofChars low _ hmem
  simpa [escape] using hcodes

theorem raw_not_mem_closing (low : Fin 128) : Glyph.raw low ∉ escape :: Text.ofString "[0m" := by
  have hreset : Glyph.raw low ∉ Text.ofString "[0m" := Text.raw_not_mem_ofChars low _
  simpa [escape] using hreset

/-- Painting adds no raw byte. -/
theorem IsBrush.raw_mem (h : IsBrush paint) (hmem : Glyph.raw low ∈ paint x) :
    Glyph.raw low ∈ x := by
  obtain ⟨opening, closing, hnil, hpaint, hcodes⟩ := h
  have hends : Glyph.raw low ∉ opening ∧ Glyph.raw low ∉ closing := by
    rcases hcodes with ⟨rfl, rfl⟩ | ⟨codes, rfl, rfl⟩
    · exact ⟨List.not_mem_nil, List.not_mem_nil⟩
    · exact ⟨raw_not_mem_opening low codes, raw_not_mem_closing low⟩
  by_cases hx : x = []
  · rw [hx, hnil] at hmem
    exact absurd hmem List.not_mem_nil
  · rw [hpaint x hx, List.mem_append, List.mem_append] at hmem
    rcases hmem with (hmem | hmem) | hmem
    · exact absurd hmem hends.1
    · exact hmem
    · exact absurd hmem hends.2

end Style

namespace Console

variable {env : Environment} {level : Level} {definition message x : Text} {c d : Console}
  {f : Fault}

theorem raw_not_mem_shown (low : Fin 128) (message : Text) : Glyph.raw low ∉ shown message :=
  fun hmem => Text.raw_not_mem_ofChars low _ (List.mem_filter.mp hmem).1

theorem Writes.without_raw (h : Writes message x) : Text.hasRaw x = false := by
  obtain ⟨paint, hpaint, rfl⟩ := h
  rw [Text.hasRaw_eq_false_iff]
  intro low hmem
  rcases List.mem_append.mp hmem with hmem | hmem
  · rcases Text.mem_of_mem_joinWith hmem with hmem | ⟨painted, hpainted, hmem⟩
    · exact nomatch List.mem_singleton.mp hmem
    · obtain ⟨line, hline, rfl⟩ := List.mem_map.mp hpainted
      obtain ⟨piece, hpiece, hmem⟩ := List.mem_flatMap.mp hmem
      rcases Text.mem_of_mem_tabPieces hpiece (hpaint.raw_mem hmem) with hmem | hspace
      · exact raw_not_mem_shown low message (Text.mem_of_mem_splitWhere hline hmem)
      · exact nomatch hspace
  · exact nomatch List.mem_singleton.mp hmem

theorem emit_eq_error_iff : c.emit env level definition message = .error f ↔
    (c.isEnabled env level).1 = true ∧ (Screen.hasRoom env c.terminal = .error f ∨
      Screen.hasRoom env c.terminal = .ok true ∧ styleOf level definition message = .error f) := by
  have ht : (c.isEnabled env level).2.terminal = c.terminal := rfl
  cases henabled : (c.isEnabled env level).1 with
  | false => simp [emit_of_not_enabled henabled]
  | true =>
    cases hroom : Screen.hasRoom env c.terminal with
    | error g => simp [emit, henabled, ht, hroom, bind, Except.bind]
    | ok room =>
      cases room with
      | false => simp [emit_of_not_hasRoom hroom]
      | true =>
        cases hstyle : styleOf level definition message <;>
          simp [emit, henabled, ht, hroom, hstyle, bind, Except.bind]

theorem styleOf_nil_of_error (h : styleOf level definition message = .error f) :
    styleOf level definition [] = .error f := by
  unfold styleOf at h ⊢
  split at h
  · exact nomatch h
  rename_i hown
  split at h
  · rw [if_neg hown]
    exact h
  · exact nomatch h

/-- The message is not what `emit` has a fault for, and no raw byte of it is written. -/
structure Carried (env : Environment) (level : Level) (message : Text) (c : Console) : Prop where
  blameless : ∀ definition f, c.emit env level definition message = .error f →
    c.emit env level definition [] = .error f
  fault_iff : ∀ f, c.emit env level [] message = .error f ↔
    (c.isEnabled env level).1 = true ∧ Screen.hasRoom env c.terminal = .error f
  without_raw : ∀ definition d, c.emit env level definition message = .ok d →
    ∃ out err, Extended c d out err ∧ Text.hasRaw out = false ∧ Text.hasRaw err = false

theorem carried (env : Environment) (level : Level) (message : Text) (c : Console) :
    Carried env level message c := by
  constructor
  case blameless =>
    intro definition f h
    rw [emit_eq_error_iff] at h ⊢
    obtain ⟨henabled, hroom | ⟨hroom, hstyle⟩⟩ := h
    · exact ⟨henabled, .inl hroom⟩
    · exact ⟨henabled, .inr ⟨hroom, styleOf_nil_of_error hstyle⟩⟩
  case fault_iff =>
    intro f
    rw [emit_eq_error_iff]
    simp [styleOf]
  case without_raw =>
    intro definition d h
    rcases emit_emits env level definition message c with
      ⟨f, herror, -⟩ | ⟨d', out, err, hok, hemits, -, -, hextended⟩
    · rw [herror] at h
      cases h
    · obtain rfl : d' = d := Except.ok.inj (hok.symm.trans h)
      refine ⟨out, err, hextended, ?_⟩
      cases hemits with
      | silent | roomless => exact ⟨rfl, rfl⟩
      | stdout _ _ _ _ hx => exact ⟨hx.without_raw, rfl⟩
      | stderr _ _ _ _ hx => exact ⟨rfl, hx.without_raw⟩

/-- A text is shown without raw bytes, which are replaced as they would have been in reading, and
can be written wherever any other can. -/
theorem message_carried (x : Text) (bytes : List UInt8) (env : Environment) (level : Level)
    (c : Console) :
    Text.Mended x (Text.printable x) ∧
    (∀ y, Utf8.Decodes Utf8.kept bytes y ↔ y = Utf8.lenient bytes) ∧
    Text.printable (Utf8.lenient bytes) = Text.ofChars (Utf8.replacing bytes) ∧
    (∀ y, Utf8.Decodes Utf8.replaced bytes y ↔ y = Text.printable (Utf8.lenient bytes)) ∧
    Carried env level x c := by
  refine ⟨Text.mended_printable x, fun y => Utf8.decodes_kept_iff, Text.printable_lenient bytes,
    fun y => ?_, carried env level x c⟩
  rw [Text.printable_lenient]
  exact Utf8.decodes_replaced_iff

/-- A truncated sequence, an overlong one, half of a surrogate and a truncated one again. -/
theorem message_carried_illFormed :
    Text.printable (Utf8.lenient [0x61, 0xE2, 0x82, 0xC0, 0x80, 0xED, 0xA0, 0xF0, 0x9F]) =
      "a\uFFFD\uFFFD\uFFFD\uFFFD\uFFFD\uFFFD" ∧
    (∃ d out err, emit [] .error [] (Utf8.lenient [0x61, 0xF0, 0x9F]) {} = .ok d ∧
      Extended {} d out err ∧ Text.hasRaw out = false ∧ Text.hasRaw err = false) := by
  have hcarried := fun x => message_carried x
    [0x61, 0xE2, 0x82, 0xC0, 0x80, 0xED, 0xA0, 0xF0, 0x9F] [] .error {}
  constructor
  · rw [(hcarried []).2.2.1]
    decide
  · have hok : emit [] .error [] (Utf8.lenient [0x61, 0xF0, 0x9F]) {} = .ok _ := rfl
    obtain ⟨-, -, -, -, hmessage⟩ := hcarried (Utf8.lenient [0x61, 0xF0, 0x9F])
    obtain ⟨out, err, hwritten⟩ := hmessage.without_raw [] _ hok
    exact ⟨_, out, err, hok, hwritten⟩

end Console

end Paddock
