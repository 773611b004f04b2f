import Paddock.Command.Catalogue
import Paddock.Text.Blank

/-!
# Command lines

A command line is a colon, a command name and arguments, separated by blanks; blanks around it and
after the colon do not matter.
-/

namespace Paddock.Command

set_option autoImplicit false

inductive LineError where
  | empty
  | noColon
  | noName
  | unknown (token : Text)
deriving DecidableEq, Repr

def LineError.message : LineError → Text
  | empty => "Empty command"
  | noColon => "Commands must start with ':'"
  | noName => "Missing command name"
  | unknown token => Text.ofString "Unknown command: " ++ token

/-- A command of the catalogue and its arguments, and the text they were read from. -/
structure Line where
  name : Text
  args : List Text
  raw : Text
deriving DecidableEq, Repr

/-- What is wrong with a text that is no command line, and the text. -/
structure Misread where
  error : LineError
  raw : Text
deriving DecidableEq, Repr

def colon : Glyph := .char ':'

def parseLine (catalogue : Catalogue) (x : Text) : Except Misread Line :=
  match Text.trim x with
  | [] => .error ⟨.empty, x⟩
  | g :: rest =>
    if g = colon then
      match Text.fields rest with
      | [] => .error ⟨.noName, x⟩
      | name :: args =>
        if name ∈ names catalogue then .ok ⟨name, args, x⟩ else .error ⟨.unknown name, x⟩
    else .error ⟨.noColon, x⟩

end Paddock.Command
