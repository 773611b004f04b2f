import Paddock.Text.Glyph
import Paddock.Text.CaseSpans

/-!
# Lower case

Full Unicode lower-casing. Two characters are not mapped one by one: U+0130 becomes two, and a
capital sigma at the end of a word becomes the final sigma.
-/

namespace Paddock

set_option autoImplicit false

namespace Glyph

def lowerCode (n : Nat) : Nat :=
  match CaseSpan.all.find? (·.contains n) with
  | some s => (n + s.shift).toNat
  | none => n

/-- The lower case of a glyph without regard to its neighbours. -/
def lower : Glyph → Text
  | raw low => [raw low]
  | char c =>
    if c = '\u0130' then [char 'i', char '\u0307'] else [char (Char.ofNat (lowerCode c.toNat))]

def isCased : Glyph → Bool
  | char c => casedSpans.contains c.toNat
  | raw _ => false

def isCaseIgnorable : Glyph → Bool
  | char c => caseIgnorableSpans.contains c.toNat
  | raw _ => false

end Glyph

namespace Text

/-- Whether the first glyph that is not case-ignorable is cased. -/
def leadsCased (x : Text) : Bool :=
  match x.dropWhile Glyph.isCaseIgnorable with
  | g :: _ => g.isCased
  | [] => false

/-- Lower case of what follows a text whose last glyph that is not case-ignorable is cased, or not,
as `afterCased` says. -/
def lowerFrom (afterCased : Bool) : Text → Text
  | [] => []
  | g :: rest =>
    let here :=
      if g = .char 'Σ' then [.char (if afterCased && !leadsCased rest then 'ς' else 'σ')]
      else g.lower
    here ++ lowerFrom (if g.isCaseIgnorable then afterCased else g.isCased) rest

def lower (x : Text) : Text := lowerFrom false x

end Text

end Paddock
