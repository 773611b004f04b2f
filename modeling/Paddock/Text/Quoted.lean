import Paddock.Text.Glyph
import Paddock.Text.PrintableSpans

/-!
# Quoted text

A text inside a message stands in single quotes, or in double quotes if it holds single quotes and
no double one. The quote in use and backslashes are escaped, and so is every character without a
printed form; a raw byte is written as the low surrogate that stands for it.
-/

namespace Paddock

set_option autoImplicit false

namespace Text

/-- The last `width` digits of `n` in lower-case hexadecimal. -/
def hex (width n : Nat) : Text :=
  match width with
  | 0 => []
  | width + 1 => hex width (n / 16) ++ [.char (Nat.digitChar (n % 16))]

end Text

namespace Glyph

def isPrintable (g : Glyph) : Bool := !unprintableSpans.contains g.code

/-- The escape of a code: `\x`, `\u` or `\U` with as many digits as it needs of two, four, eight. -/
def codeEscape (n : Nat) : Text :=
  if n < 0x100 then Text.ofString "\\x" ++ Text.hex 2 n
  else if n < 0x10000 then Text.ofString "\\u" ++ Text.hex 4 n
  else Text.ofString "\\U" ++ Text.hex 8 n

/-- The glyph as it stands between quotes `quote`. -/
def quotedIn (quote g : Glyph) : Text :=
  if g = quote ∨ g = .char '\\' then [.char '\\', g]
  else if g = .char '\t' then Text.ofString "\\t"
  else if g = .char '\n' then Text.ofString "\\n"
  else if g = .char '\r' then Text.ofString "\\r"
  else if g.isPrintable then [g]
  else codeEscape g.code

end Glyph

namespace Text

def quoteFor (x : Text) : Glyph :=
  if x.contains (.char '\'') && !x.contains (.char '"') then .char '"' else .char '\''

def quoted (x : Text) : Text :=
  let quote := quoteFor x
  quote :: x.flatMap (Glyph.quotedIn quote) ++ [quote]

end Text

end Paddock
