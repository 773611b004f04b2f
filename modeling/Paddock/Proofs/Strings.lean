import Mathlib.Tactic.Ring
import Paddock.Json.Printer
import Paddock.Json.Reader

/-!
# Strings in documents

A string is read back as the text that it was printed for. Each glyph is printed as an escape with a
letter, as itself, or by its UTF-16 units, and is read as these units; no glyph but a pair's first
half has a unit that a pair could begin with.
-/

namespace Paddock.Json

set_option autoImplicit false

variable {x y : Text} {g : Glyph} {n : Nat}

/-- The UTF-16 units of a glyph. -/
def unitsOf (g : Glyph) : List Nat :=
  if g.code < 0x10000 then [g.code]
  else [0xD800 + (g.code - 0x10000) / 0x400, 0xDC00 + (g.code - 0x10000) % 0x400]

def addCodes (ns : List Nat) (r : Option (List Nat × Text)) : Option (List Nat × Text) :=
  r.map fun (codes, x) => (ns ++ codes, x)

theorem addCodes_singleton (n : Nat) (r : Option (List Nat × Text)) :
    addCodes [n] r = addCode n r := rfl

theorem codes_backslash (y : Text) : codes .plain (backslash :: y) = codes .escape y := by
  have hquote : backslash ≠ quote := by decide
  simp only [codes, if_neg hquote, if_true]

theorem codes_sign {sign : Glyph} (hsign : sign ≠ .char 'u') (h : signs.lookup sign = some n)
    (y : Text) : codes .escape (sign :: y) = addCode n (codes .plain y) := by
  simp only [codes, if_neg hsign, h]

theorem codes_unit {left value d : Nat} (hd : hexDigit? g = some d) (y : Text) :
    codes (.unit left value) (g :: y) =
      if 1 < left then codes (.unit (left - 1) (16 * value + d)) y
      else addCode (16 * value + d) (codes .plain y) := by
  simp only [codes, hd]

theorem hexDigit?_digitChar {d : Nat} (hd : d < 16) :
    hexDigit? (.char (Nat.digitChar d)) = some d := by
  have hall : ∀ d < 16, hexDigit? (.char (Nat.digitChar d)) = some d := by decide
  exact hall d hd

theorem hex_four (n : Nat) : Text.hex 4 n =
    [.char (Nat.digitChar (n / 16 / 16 / 16 % 16)), .char (Nat.digitChar (n / 16 / 16 % 16)),
      .char (Nat.digitChar (n / 16 % 16)), .char (Nat.digitChar (n % 16))] := rfl

theorem codes_unitEscape (hn : n < 0x10000) (y : Text) :
    codes .plain (unitEscape n ++ y) = addCode n (codes .plain y) := by
  have hdigit (k : Nat) : hexDigit? (.char (Nat.digitChar (k % 16))) = some (k % 16) :=
    hexDigit?_digitChar (Nat.mod_lt k (by decide))
  have htext : unitEscape n ++ y = backslash :: .char 'u' :: (Text.hex 4 n ++ y) := rfl
  have hmark : codes .escape (.char 'u' :: (Text.hex 4 n ++ y)) =
      codes (.unit 4 0) (Text.hex 4 n ++ y) := by
    simp only [codes, if_true]
  have hvalue : 16 * (16 * (16 * (16 * 0 + n / 16 / 16 / 16 % 16) + n / 16 / 16 % 16) +
      n / 16 % 16) + n % 16 = n := by omega
  rw [htext, codes_backslash, hmark, hex_four]
  simp only [List.cons_append, List.nil_append]
  rw [codes_unit (hdigit _), if_pos (by decide), codes_unit (hdigit _), if_pos (by decide),
    codes_unit (hdigit _), if_pos (by decide), codes_unit (hdigit _), if_neg (by decide), hvalue]

theorem code_lt (g : Glyph) : g.code < 0x110000 := by
  cases g with
  | char c =>
    have hvalid := c.valid
    simp only [Glyph.code, Char.toNat, UInt32.isValidChar, Nat.isValidChar] at hvalid ⊢
    omega
  | raw low =>
    have hlow := low.isLt
    simp only [Glyph.code]
    omega

theorem code_not_high (g : Glyph) : g.code < 0xD800 ∨ 0xDC00 ≤ g.code := by
  cases g with
  | char c =>
    have hvalid := c.valid
    simp only [Glyph.code, Char.toNat, UInt32.isValidChar, Nat.isValidChar] at hvalid ⊢
    omega
  | raw low =>
    simp only [Glyph.code]
    omega

theorem codes_codeEscape (g : Glyph) (y : Text) :
    codes .plain (codeEscape g.code ++ y) = addCodes (unitsOf g) (codes .plain y) := by
  have hlt := code_lt g
  unfold codeEscape unitsOf
  by_cases hunit : g.code < 0x10000
  · rw [if_pos hunit, if_pos hunit, addCodes_singleton, codes_unitEscape hunit]
  · rw [if_neg hunit, if_neg hunit, List.append_assoc, codes_unitEscape (by omega),
      codes_unitEscape (by omega)]
    cases codes .plain y <;> rfl

theorem signs_of_shortEscapes {sign : Glyph} (h : shortEscapes.lookup g = some sign) :
    sign ≠ .char 'u' ∧ signs.lookup sign = some g.code ∧ g.code < 0x10000 := by
  have hall : ∀ entry ∈ shortEscapes, entry.2 ≠ .char 'u' ∧
      signs.lookup entry.2 = some entry.1.code ∧ entry.1.code < 0x10000 := by decide
  have hmem : ∀ (entries : List (Glyph × Glyph)), entries.lookup g = some sign →
      (g, sign) ∈ entries := by
    intro entries hlookup
    obtain ⟨before, after, rfl, -⟩ := List.lookup_eq_some_iff.mp hlookup
    simp
  exact hall (g, sign) (hmem shortEscapes h)

theorem codes_escaped (g : Glyph) (y : Text) :
    codes .plain (escaped g ++ y) = addCodes (unitsOf g) (codes .plain y) := by
  unfold escaped
  cases hshort : shortEscapes.lookup g with
  | some sign =>
    obtain ⟨hsign, hlookup, hunit⟩ := signs_of_shortEscapes hshort
    show codes .plain (backslash :: sign :: y) = _
    rw [codes_backslash, codes_sign hsign hlookup, unitsOf, if_pos hunit, addCodes_singleton]
  | none =>
    simp only []
    split
    · next hplain =>
      have hquote : g ≠ quote := by
        rintro rfl
        exact absurd hshort (by decide)
      have hbackslash : g ≠ backslash := by
        rintro rfl
        exact absurd hshort (by decide)
      cases g with
      | raw low =>
        have hcode : (Glyph.raw low).code = 0xDC80 + low := rfl
        omega
      | char c =>
        have hcode : (Glyph.char c).code = c.toNat := rfl
        rw [hcode] at hplain
        have hunits : unitsOf (.char c) = [c.toNat] := by
          rw [unitsOf, hcode, if_pos (by omega)]
        rw [hunits, addCodes_singleton]
        show codes .plain (.char c :: y) = _
        rw [codes, if_neg hquote, if_neg hbackslash]
        simp only [if_neg (Nat.not_lt.mpr hplain.1)]
    · exact codes_codeEscape g y

theorem codes_flatMap_escaped (s x : Text) :
    codes .plain (s.flatMap escaped ++ quote :: x) = some (s.flatMap unitsOf, x) := by
  induction s with
  | nil => rfl
  | cons g s ih =>
    rw [List.flatMap_cons, List.append_assoc, codes_escaped, ih]
    rfl

theorem glyphOf?_code (g : Glyph) : glyphOf? g.code = some g := by
  -- raw bytes have the codes of low surrogates, which are no characters
  cases g with
  | char c =>
    have hvalid : c.toNat.isValidChar := c.valid
    show glyphOf? c.toNat = _
    rw [glyphOf?, dif_pos hvalid]
    rfl
  | raw low =>
    have hlow := low.isLt
    have hcode : (Glyph.raw low).code = 0xDC80 + low := rfl
    have hvalid : ¬ (0xDC80 + (low : Nat)).isValidChar := by
      simp only [Nat.isValidChar]
      omega
    rw [hcode, glyphOf?, dif_neg hvalid, if_pos (by omega), Nat.add_sub_cancel_left]
    congr 2
    exact Fin.ext (Nat.mod_eq_of_lt hlow)

theorem addGlyph_code (g : Glyph) (r : Option Text) : addGlyph g.code r = r.map (g :: ·) := by
  cases r <;> simp [addGlyph, glyphOf?_code]

theorem ofCodes?_cons (hn : n < 0xD800 ∨ 0xDC00 ≤ n) (codes : List Nat) :
    ofCodes? (n :: codes) = addGlyph n (ofCodes? codes) := by
  cases codes with
  | nil => rfl
  | cons m codes =>
    have hpair : isPair n m = false := by
      simp only [isPair, Bool.and_eq_false_iff, decide_eq_false_iff_not]
      omega
    simp only [ofCodes?, hpair, Bool.false_eq_true, if_false]

theorem ofCodes?_pair {m : Nat} (hpair : isPair n m = true) (codes : List Nat) :
    ofCodes? (n :: m :: codes) = addGlyph (joined n m) (ofCodes? codes) := by
  rw [ofCodes?, if_pos hpair]

/-- A code beyond the first plane is that of the pair which it is split into. -/
theorem joined_units (h : n < 0x110000) (hwide : 0x10000 ≤ n) :
    isPair (0xD800 + (n - 0x10000) / 0x400) (0xDC00 + (n - 0x10000) % 0x400) = true ∧
      joined (0xD800 + (n - 0x10000) / 0x400) (0xDC00 + (n - 0x10000) % 0x400) = n := by
  have hhigh : (n - 0x10000) / 0x400 < 0x400 := by omega
  have hlow : (n - 0x10000) % 0x400 < 0x400 := by omega
  have hsum : (n - 0x10000) / 0x400 * 0x400 + (n - 0x10000) % 0x400 = n - 0x10000 := by omega
  generalize (n - 0x10000) / 0x400 = high at hhigh hsum ⊢
  generalize (n - 0x10000) % 0x400 = low at hlow hsum ⊢
  constructor
  · simp only [isPair, Bool.and_eq_true, decide_eq_true_eq]
    omega
  · unfold joined
    omega

theorem ofCodes?_units (g : Glyph) (codes : List Nat) :
    ofCodes? (unitsOf g ++ codes) = (ofCodes? codes).map (g :: ·) := by
  unfold unitsOf
  split
  · rw [List.singleton_append, ofCodes?_cons (code_not_high g), addGlyph_code]
  · next hwide =>
    obtain ⟨hpair, hjoined⟩ := joined_units (code_lt g) (Nat.not_lt.mp hwide)
    rw [List.cons_append, List.singleton_append, ofCodes?_pair hpair, hjoined, addGlyph_code]

theorem ofCodes?_flatMap_units (s : Text) : ofCodes? (s.flatMap unitsOf) = some s := by
  induction s with
  | nil => rfl
  | cons g s ih => rw [List.flatMap_cons, ofCodes?_units, ih, Option.map_some]

/-- A printed string is read back, after its opening quote. -/
theorem string?_escaped (s x : Text) : string? (s.flatMap escaped ++ quote :: x) = some (s, x) := by
  simp only [string?, codes_flatMap_escaped, ofCodes?_flatMap_units, Option.bind_eq_bind,
    Option.bind_some]

end Paddock.Json
