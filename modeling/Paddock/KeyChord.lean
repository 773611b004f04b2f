import Paddock.Text.Blank
import Paddock.Text.Lowercase

/-!
# Key chords

A chord is written as keys joined by `+`, in any order and case. All but one of them are modifiers.
Its description names the modifiers in a fixed order and the key last.
-/

namespace Paddock

set_option autoImplicit false

inductive Modifier where
  | control
  | alternate
  | shift
  | command
deriving DecidableEq, Repr

namespace Modifier

/-- The modifiers in the order of a description. -/
def all : List Modifier := [control, alternate, shift, command]

def name : Modifier → Text
  | control => "ctrl"
  | alternate => "alt"
  | shift => "shift"
  | command => "meta"

def aliases : Modifier → List Text
  | control => ["ctrl", "control"]
  | alternate => ["alt", "option"]
  | shift => ["shift"]
  | command => ["meta", "cmd", "super"]

/-- The modifier that a part of a chord names. -/
def ofAlias? (part : Text) : Option Modifier := all.find? fun m => m.aliases.contains part

theorem mem_all (m : Modifier) : m ∈ all := by cases m <;> simp [all]

theorem ofAlias?_name (m : Modifier) : ofAlias? m.name = some m := by cases m <;> decide

end Modifier

structure KeyChord where
  key : Text
  /-- The modifiers held, in the order of a description. -/
  modifiers : List Modifier
deriving DecidableEq, Repr

namespace KeyChord

def plus : Glyph := .char '+'

def keyAliases : List (Text × Text) :=
  [("esc", "escape"), ("enter", "return"), ("spacebar", "space")]

def keyName (part : Text) : Text := (keyAliases.lookup part).getD part

/-- The keys that a text joins, lower-cased and trimmed. -/
def parts (x : Text) : List Text :=
  ((Text.splitAt plus (Text.lower (Text.trim x))).map Text.trim).filter (· ≠ [])

def modifiersOf (ps : List Text) : List Modifier :=
  Modifier.all.filter fun m => ps.any fun part => Modifier.ofAlias? part == some m

def keysOf (ps : List Text) : List Text :=
  ps.filter fun part => (Modifier.ofAlias? part).isNone

/-- The chord of the given parts; there is one if exactly one of them is no modifier. -/
def ofParts? (ps : List Text) : Option KeyChord :=
  match keysOf ps with
  | [key] => some ⟨keyName key, modifiersOf ps⟩
  | _ => none

def ofText? (x : Text) : Option KeyChord := ofParts? (parts x)

def describe (chord : KeyChord) : Text :=
  Text.joinWith [plus] (chord.modifiers.map Modifier.name ++ [chord.key])

theorem mem_modifiersOf {ps : List Text} {m : Modifier} :
    m ∈ modifiersOf ps ↔ ∃ part ∈ ps, Modifier.ofAlias? part = some m := by
  simp [modifiersOf, Modifier.mem_all]

end KeyChord

end Paddock
