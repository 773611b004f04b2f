import Paddock.Console.Colour
import Paddock.Console.Theme
import Paddock.Text.Blank

/-!
# Terminal styles

A style has attributes and at most one colour for the text and one for its ground. It is written as
words (`bold red`, `white on blue`, `not dim`), of which later ones prevail, or goes by its name in
the theme; a definition with an unknown word is the plain style. Two styles are the same if they
have the same attributes on and the same ones off, and ask for their colours by the same words. On
a terminal a styled text stands between the escape sequence of its codes and the one that resets
them.
-/

namespace Paddock

set_option autoImplicit false

inductive Attribute where
  | bold
  | dim
  | italic
  | underline
  | blink
  | blink2
  | reverse
  | conceal
  | strike
  | underline2
  | frame
  | encircle
  | overline
deriving DecidableEq, Repr

namespace Attribute

def all : List Attribute :=
  [bold, dim, italic, underline, blink, blink2, reverse, conceal, strike, underline2, frame,
    encircle, overline]

theorem mem_all (a : Attribute) : a ∈ all := by cases a <;> simp [all]

def code : Attribute → Nat
  | bold => 1
  | dim => 2
  | italic => 3
  | underline => 4
  | blink => 5
  | blink2 => 6
  | reverse => 7
  | conceal => 8
  | strike => 9
  | underline2 => 21
  | frame => 51
  | encircle => 52
  | overline => 53

/-- The words that name an attribute: a long one and, for some, a short one. -/
def words : Attribute → List String
  | bold => ["bold", "b"]
  | dim => ["dim", "d"]
  | italic => ["italic", "i"]
  | underline => ["underline", "u"]
  | blink => ["blink"]
  | blink2 => ["blink2"]
  | reverse => ["reverse", "r"]
  | conceal => ["conceal", "c"]
  | strike => ["strike", "s"]
  | underline2 => ["underline2", "uu"]
  | frame => ["frame"]
  | encircle => ["encircle"]
  | overline => ["overline", "o"]

def ofWord? (word : Text) : Option Attribute :=
  all.find? fun a => (a.words.map Text.ofString).contains word

end Attribute

/-- A colour and the word, in lower case, that it was asked for by. -/
structure Tint where
  word : Text
  colour : Colour
deriving DecidableEq, Repr

/-- The attributes among `as`, and whether `a` is one of them settled anew. -/
def Attribute.settle (a : Attribute) (isOne : Bool) (as : List Attribute) : List Attribute :=
  Attribute.all.filter fun b => if b = a then isOne else b ∈ as

structure Style where
  /-- The attributes that are on, by ascending code. -/
  on : List Attribute := []
  /-- Those that the definition turns off, by ascending code. -/
  off : List Attribute := []
  tint : Option Tint := none
  ground : Option Tint := none
deriving DecidableEq, Repr

namespace Style

def plain : Style := {}

def turnOn (a : Attribute) (style : Style) : Style :=
  { style with on := a.settle true style.on, off := a.settle false style.off }

def turnOff (a : Attribute) (style : Style) : Style :=
  { style with on := a.settle false style.on, off := a.settle true style.off }

/-- `style` with the rest of its definition. Three words concern the next one: `on` has the
ground's colour after it, `not` an attribute in lower case that is to be off, and `link` a target,
which is not shown. -/
def ofWords (style : Style) : List Text → Except Fault (Option Style)
  | [] => .ok (some style)
  | word :: rest =>
    let word := Text.lower word
    if word = Text.ofString "on" then
      match rest with
      | [] => .ok none
      | next :: rest =>
        match Colour.ofText next with
        | .error f => .error f
        | .ok none => .ok none
        | .ok (some ground) => ofWords { style with ground := some ⟨Text.lower next, ground⟩ } rest
    else if word = Text.ofString "not" then
      match rest with
      | [] => .ok none
      | next :: rest =>
        match Attribute.ofWord? next with
        | none => .ok none
        | some a => ofWords (style.turnOff a) rest
    else if word = Text.ofString "link" then
      match rest with
      | [] => .ok none
      | _ :: rest => ofWords style rest
    else
      match Attribute.ofWord? word with
      | some a => ofWords (style.turnOn a) rest
      | none =>
        match Colour.ofText word with
        | .error f => .error f
        | .ok none => .ok none
        | .ok (some colour) => ofWords { style with tint := some ⟨word, colour⟩ } rest

def ofText (definition : Text) : Except Fault Style := do
  let style? ← ofWords plain (Text.fields (Theme.standard.define definition))
  .ok (style?.getD plain)

def withoutColour (style : Style) : Style := { style with tint := none, ground := none }

/-- The codes of a style on a terminal: attributes ascending, then text colour, then ground. -/
def codes (depth : Depth) (style : Style) : List Nat :=
  let codesOf (base : Nat) (tint : Option Tint) : List Nat :=
    (tint.map fun t => (t.colour.shown depth).codes base).getD []
  (Attribute.all.filter (· ∈ style.on)).map Attribute.code ++
    codesOf 30 style.tint ++ codesOf 40 style.ground

def escape : Glyph := .char '\x1b'

def paint (depth : Depth) (style : Style) (x : Text) : Text :=
  if x = [] ∨ style.codes depth = [] then x
  else
    escape :: .char '[' :: Text.joinWith [.char ';'] ((style.codes depth).map Text.ofNat) ++
      .char 'm' :: x ++ escape :: Text.ofString "[0m"

/-- An attribute's code is among those of a style exactly if the attribute is on. -/
theorem code_mem_codes_iff (depth : Depth) (style : Style) (a : Attribute) :
    a.code ∈ style.withoutColour.codes depth ↔ a ∈ style.on := by
  have hinj : ∀ b : Attribute, b.code = a.code → b = a := by
    cases a <;> intro b <;> cases b <;> simp [Attribute.code]
  simp only [codes, withoutColour, Option.map_none, Option.getD_none, List.append_nil,
    List.mem_map, List.mem_filter]
  constructor
  · rintro ⟨b, ⟨-, hb⟩, he⟩
    exact hinj b he ▸ of_decide_eq_true hb
  · exact fun h => ⟨a, ⟨a.mem_all, decide_eq_true h⟩, rfl⟩

end Style

end Paddock
