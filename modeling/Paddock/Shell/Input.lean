import Paddock.Text.Glyph

/-!
# Input of command lines

Command lines are typed at a terminal, where each one is asked for and may be refused, or they come
from a text, one a line. A text's reader writes a prompt before each reading, also before the one
that finds the end.
-/

namespace Paddock.Shell

set_option autoImplicit false

/-- What a terminal asks: a message, a mark before it and an answer filled in beforehand. -/
structure Question where
  message : Text
  mark : Text
  initial : Text
deriving DecidableEq, Repr

def question (initial : Text) : Question := ⟨[], ">", initial⟩

def colonAnswer : Text := ":"

structure Input where
  atTerminal : Bool
  /-- What each reading gives; none ends the input, and so does the end of the list. -/
  answers : List (Option Text)
deriving DecidableEq, Repr

namespace Input

/-- The lines of a text; the last one counts even if nothing ends it, unless it is empty. -/
def linesOf (content : Text) : List Text :=
  let pieces := Text.lines (Text.plainNewlines content)
  if pieces.getLast? = some [] then pieces.dropLast else pieces

def ofText (content : Text) : Input := ⟨false, (linesOf content).map some⟩

def typed (answers : List (Option Text)) : Input := ⟨true, answers⟩

def prompt (input : Input) : Text := if input.atTerminal then [] else "> "

/-- What a reading asks at the terminal. -/
def asks (input : Input) (initial : Text) : Option Question :=
  if input.atTerminal then some (question initial) else none

/-- One reading: the line, if there is one, and the input that is left. -/
def read (input : Input) : Option Text × Input :=
  match input.answers with
  | [] => (none, input)
  | answer :: rest => (answer, { input with answers := rest })

def lines (input : Input) : List Text :=
  (input.answers.takeWhile Option.isSome).filterMap id

/-- A text's input has all its lines. -/
theorem lines_ofText (content : Text) : (ofText content).lines = linesOf content := by
  unfold lines ofText
  induction linesOf content with
  | nil => rfl
  | cons line rest ih => simpa using ih

end Input

end Paddock.Shell
