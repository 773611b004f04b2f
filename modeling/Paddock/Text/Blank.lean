import Paddock.Text.Glyph

/-!
# Blank glyphs

The white space of command lines, git output and settings is Unicode's, together with the four
information separators U+001C to U+001F. Trimming and splitting into fields follow it.
-/

namespace Paddock

set_option autoImplicit false

namespace Glyph

/-- The blank code points, as ascending spans. -/
def blankSpans : List (Nat × Nat) :=
  [(0x09, 0x0D), (0x1C, 0x20), (0x85, 0x85), (0xA0, 0xA0), (0x1680, 0x1680), (0x2000, 0x200A),
    (0x2028, 0x2029), (0x202F, 0x202F), (0x205F, 0x205F), (0x3000, 0x3000)]

def isBlank : Glyph → Bool
  | char c => blankSpans.any fun s => s.1 ≤ c.toNat && c.toNat ≤ s.2
  | raw _ => false

/-- Whatever is white space to `Char` is blank. -/
theorem isBlank_of_isWhitespace {c : Char} (h : c.isWhitespace = true) :
    (char c).isBlank = true := by
  simp only [Char.isWhitespace, Bool.or_eq_true, decide_eq_true_eq] at h
  rcases h with ((rfl | rfl) | rfl) | rfl <;> decide

end Glyph

namespace Text

def isBlank (x : Text) : Bool := x.all Glyph.isBlank

def trimLeft (x : Text) : Text := x.dropWhile Glyph.isBlank

def trimRight (x : Text) : Text := (x.reverse.dropWhile Glyph.isBlank).reverse

def trim (x : Text) : Text := trimRight (trimLeft x)

/-- The maximal runs of glyphs that are not blank. -/
def fields (x : Text) : List Text := (splitWhere Glyph.isBlank x).filter (· ≠ [])

end Text

end Paddock
