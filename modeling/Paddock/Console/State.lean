import Paddock.Console.Level
import Paddock.Console.Screen
import Paddock.Console.Style
import Paddock.Text.Columns
import Paddock.Text.Utf8

/-!
# The console

The console writes messages to two streams. Which levels it writes is settled by the last setting,
or else by the environment the first time it is asked; after that the environment no longer counts.
Whether there is room for a message, and whether it is painted, is asked of the environment each
time. In how many colours a style is painted is asked only the first time that it is: it keeps its
codes.
-/

namespace Paddock

set_option autoImplicit false

structure Console where
  /-- The level in force, once it is settled. -/
  level : Option Level := none
  noColour : Bool := false
  /-- Whether the two streams are a terminal. -/
  terminal : Bool := false
  /-- The styles that have been painted, and for how many colours. -/
  settled : List (Style × Depth) := []
  stdout : Text := []
  stderr : Text := []
deriving DecidableEq, Repr

namespace Console

def levelVariable : Text := "BLACKPEPPER_LOG_LEVEL"

def levelOf (env : Environment) : Level :=
  ((env.get? levelVariable).bind Level.ofText?).getD Level.standard

/-- The level in force; asking settles it. -/
def levelInForce (env : Environment) (c : Console) : Level × Console :=
  let level := c.level.getD (levelOf env)
  (level, { c with level := some level })

/-- Sets the level by name; an unknown name, or none, sets the standard level. -/
def setLevel (setting : Option Text) (c : Console) : Console :=
  { c with level := some ((setting.bind Level.ofText?).getD Level.standard) }

def setNoColour (value : Bool) (c : Console) : Console := { c with noColour := value }

def isEnabled (env : Environment) (level : Level) (c : Console) : Bool × Console :=
  let (threshold, c) := c.levelInForce env
  (threshold.rank ≤ level.rank, c)

def colourDisabled (env : Environment) (c : Console) : Bool :=
  c.noColour || env.isOn "NO_COLOR" || env.isOn "BLACKPEPPER_NO_COLOR"

/-- Dim, cyan, plain, green, yellow and bold red. -/
def levelStyle : Level → Style
  | .trace => { on := [.dim] }
  | .debug => { tint := some ⟨"cyan", .numbered 6⟩ }
  | .info => Style.plain
  | .success => { tint := some ⟨"green", .numbered 2⟩ }
  | .warning => { tint := some ⟨"yellow", .numbered 3⟩ }
  | .error => { on := [.bold], tint := some ⟨"red", .numbered 1⟩ }

/-- Bell, backspace, vertical tab, form feed and carriage return are not written. -/
def isDropped (g : Glyph) : Bool := [7, 8, 11, 12, 13].contains g.code

/-- A message as it is written, but for its tabs: only printable glyphs, no dropped controls. -/
def shown (message : Text) : Text := (Text.printable message).filter fun g => !isDropped g

def hasInk (message : Text) : Bool := (shown message).any (· != Text.newline)

/-- The colours that a style is painted in, if `depth` is what the screen has. -/
def depthOf (depth : Depth) (style : Style) (c : Console) : Depth :=
  (c.settled.lookup style).getD depth

/-- The console after a style was painted. -/
def settle (depth : Depth) (style : Style) (c : Console) : Console :=
  { c with settled := (style, c.depthOf depth style) :: c.settled.filter (·.1 ≠ style) }

def brush (env : Environment) (style : Style) (c : Console) : Text → Text :=
  match Screen.depth? env c.terminal with
  | none => id
  | some depth =>
    if c.colourDisabled env then style.withoutColour.paint depth
    else style.paint (c.depthOf depth style)

def afterPainting (env : Environment) (style : Style) (message : Text) (c : Console) : Console :=
  match Screen.depth? env c.terminal with
  | none => c
  | some depth => if c.colourDisabled env || !hasInk message then c else c.settle depth style

/-- What a message adds to its stream: on each line the pieces between tabs, painted one by one. -/
def rendered (env : Environment) (style : Style) (message : Text) (c : Console) : Text :=
  let paint := c.brush env style
  Text.unlines ((Text.lines (shown message)).map fun x => (Text.tabPieces x).flatMap paint) ++
    [Text.newline]

def writeStdout (x : Text) (c : Console) : Console := { c with stdout := c.stdout ++ x }

def writeStderr (x : Text) (c : Console) : Console := { c with stderr := c.stderr ++ x }

def put (level : Level) (x : Text) (c : Console) : Console :=
  if level.toStdout then c.writeStdout x else c.writeStderr x

/-- The style that a message is written in; an empty definition is the level's style. The definition
is read only for a message with a glyph to paint, or an empty one. -/
def styleOf (level : Level) (definition message : Text) : Except Fault Style :=
  if definition = [] then .ok (levelStyle level)
  else if hasInk message || (shown message).isEmpty then Style.ofText definition
  else .ok Style.plain

/-- Writes a message if its level is in force and there is room for it. -/
def emit (env : Environment) (level : Level) (definition message : Text) (c : Console) :
    Except Fault Console :=
  let (enabled, c) := c.isEnabled env level
  if !enabled then .ok c
  else do
    if ← Screen.hasRoom env c.terminal then
      let style ← styleOf level definition message
      .ok ((c.put level (c.rendered env style message)).afterPainting env style message)
    else .ok c

/-- A style keeps the colours that it is painted in. -/
theorem depthOf_settle (depth later : Depth) (style : Style) (c : Console) :
    (c.settle depth style).depthOf later style = c.depthOf depth style := by
  simp [settle, depthOf]

/-- A message below the level in force writes nothing and has no fault. -/
theorem emit_of_not_enabled {env : Environment} {level : Level} {c : Console}
    (h : (c.isEnabled env level).1 = false) (definition message : Text) :
    c.emit env level definition message = .ok (c.isEnabled env level).2 := by
  simp [emit, h]

theorem emit_of_not_hasRoom {env : Environment} {level : Level} {c : Console}
    (h : Screen.hasRoom env c.terminal = .ok false) (definition message : Text) :
    c.emit env level definition message = .ok (c.isEnabled env level).2 := by
  have ht : (c.isEnabled env level).2.terminal = c.terminal := rfl
  by_cases he : (c.isEnabled env level).1 <;> simp [emit, he, ht, h, bind, Except.bind]

end Console

end Paddock
